import Mathlib.Logic.Function.Basic
import Mathlib.Tactic.Common

/-!
# TinyCoro — the I/O awaiters and `errno`

`AsyncReadAwaiter`, `AsyncWriteAwaiter` and `AsyncAcceptAwaiter`
(`include/socket.h`) share one shape: `await_ready` issues the system call
and suspends only when it failed with `EAGAIN`/`EWOULDBLOCK`;
`await_suspend` registers the descriptor with the reactor; `await_resume`
issues the call again when `result_ < 0` and `errno` reads `EAGAIN` or
`EWOULDBLOCK`, and returns the result. `errno` is per-thread: the test in
`await_resume` reads the `errno` of whichever worker resumes the coroutine,
after whatever system calls ran on that thread since — among them the
`EPOLL_CTL_ADD` that `Poller::add_read`/`add_write` makes fail with `EEXIST`
on a kept-alive descriptor before retrying with `EPOLL_CTL_MOD`.

A system call is its outcome (`SyscallResult`): the value it returns and the
`errno` a failure leaves; a success leaves `errno` alone. `set_nonblocking`
after a successful `accept` does not touch the awaiter's result and is left
out.

Main results:

* `resume_after_suspend` — for every suspension (its `await_ready` failed with
  `EAGAIN`/`EWOULDBLOCK`), every sequence of system calls on any threads
  before the resumption and every resuming thread, `await_resume` re-issues
  the call iff that thread's `errno` then reads `EAGAIN`/`EWOULDBLOCK`, and
  otherwise returns `await_ready`'s negative result.
* `keepalive_read_returns_stale_failure` — a read on a kept-alive descriptor
  fails with `EAGAIN`, `add_read`'s `EPOLL_CTL_ADD` fails with `EEXIST`, and
  the coroutine is resumed on the same worker: `await_resume` returns `-1`
  without reading.
-/

namespace TinyCoro

/-- `EAGAIN` (Linux `<errno.h>`). -/
def EAGAIN : Int := 11

/-- `EWOULDBLOCK`, equal to `EAGAIN` on Linux. -/
def EWOULDBLOCK : Int := 11

/-- `EEXIST` (Linux `<errno.h>`). -/
def EEXIST : Int := 17

/-- The outcome of one system call on a thread. -/
structure SyscallResult where
  ret : Int
  /-- The `errno` a failure (`ret < 0`) leaves. -/
  err : Int
  deriving DecidableEq, Repr

/-- The thread's `errno` after the call. -/
def SyscallResult.errnoAfter (c : SyscallResult) (errno : Int) : Int :=
  if c.ret < 0 then c.err else errno

/-- `errno == EAGAIN || errno == EWOULDBLOCK`. -/
def wouldBlock (errno : Int) : Bool := errno == EAGAIN || errno == EWOULDBLOCK

namespace IoAwaiter

/-- `await_ready`: `result_` is the call's return value; ready unless it
failed with `EAGAIN`/`EWOULDBLOCK`. Returns `result_`, the readiness and the
thread's `errno` afterwards. -/
def awaitReady (c : SyscallResult) (errno : Int) : Int × Bool × Int :=
  (c.ret, if 0 ≤ c.ret then true else !wouldBlock (c.errnoAfter errno), c.errnoAfter errno)

/-- `await_resume`, on a thread whose `errno` reads `errno`: re-issue the call
(with outcome `retry`) iff `result_ < 0` and `errno` reads
`EAGAIN`/`EWOULDBLOCK`. Returns the result and the thread's `errno`. -/
def awaitResume (result errno : Int) (retry : SyscallResult) : Int × Int :=
  if result < 0 ∧ wouldBlock errno then (retry.ret, retry.errnoAfter errno) else (result, errno)

end IoAwaiter

/-- `AsyncReadAwaiter::await_ready` (`::read`). -/
def AsyncReadAwaiter.awaitReady := IoAwaiter.awaitReady
/-- `AsyncReadAwaiter::await_resume`. -/
def AsyncReadAwaiter.awaitResume := IoAwaiter.awaitResume
/-- `AsyncWriteAwaiter::await_ready` (`::write`). -/
def AsyncWriteAwaiter.awaitReady := IoAwaiter.awaitReady
/-- `AsyncWriteAwaiter::await_resume`. -/
def AsyncWriteAwaiter.awaitResume := IoAwaiter.awaitResume
/-- `AsyncAcceptAwaiter::await_ready` (`::accept`, `client_fd_`). -/
def AsyncAcceptAwaiter.awaitReady := IoAwaiter.awaitReady
/-- `AsyncAcceptAwaiter::await_resume`. -/
def AsyncAcceptAwaiter.awaitResume := IoAwaiter.awaitResume

/-- `errno` after `Poller::add_read`/`add_write`: `EPOLL_CTL_ADD`, then
`EPOLL_CTL_MOD` when the add failed with `EEXIST`. -/
def registerErrno (add mod : SyscallResult) (errno : Int) : Int :=
  if add.ret < 0 ∧ add.errnoAfter errno = EEXIST then mod.errnoAfter (add.errnoAfter errno)
  else add.errnoAfter errno

/-- A system call on some worker thread while the coroutine is suspended. -/
inductive Between where
  /-- `await_suspend`'s `register_read`/`register_write` on thread `t`. -/
  | register (t : Nat) (add mod : SyscallResult)
  /-- Any other system call on thread `t`: another task's I/O, a parker's
  futex wait, the reactor's own calls. -/
  | syscall (t : Nat) (c : SyscallResult)
  deriving DecidableEq, Repr

/-- The per-thread `errno` after one call. -/
def Between.apply (errno : Nat → Int) : Between → Nat → Int
  | .register t add mod => Function.update errno t (registerErrno add mod (errno t))
  | .syscall t c => Function.update errno t (c.errnoAfter (errno t))

/-- One suspended I/O operation: `await_ready` on thread `t` with outcome `c`;
if it suspends, the calls `between` on any threads; then `await_resume` on
thread `t'` with a retry outcome `retry`. `none` when `await_ready` did not
suspend. -/
def suspendedOp (errno : Nat → Int) (t : Nat) (c : SyscallResult) (between : List Between)
    (t' : Nat) (retry : SyscallResult) : Option Int :=
  let r := IoAwaiter.awaitReady c (errno t)
  if r.2.1 then none
  else
    let errno' := between.foldl Between.apply (Function.update errno t r.2.2)
    some (IoAwaiter.awaitResume r.1 (errno' t') retry).1

/-- The `errno` the resuming thread sees. -/
def errnoAtResume (errno : Nat → Int) (t : Nat) (c : SyscallResult) (between : List Between)
    (t' : Nat) : Int :=
  between.foldl Between.apply (Function.update errno t (c.errnoAfter (errno t))) t'

/-- **What a suspended awaiter returns.** For every `errno` state, every
outcome of `await_ready`'s call that suspends, every sequence of system
calls on any threads before the resumption and every resuming thread:
`await_resume` returns the retried call's result exactly when the resuming
thread's `errno` then reads `EAGAIN`/`EWOULDBLOCK`, and `await_ready`'s own
negative result otherwise. -/
theorem resume_after_suspend (errno : Nat → Int) (t : Nat) (c : SyscallResult)
    (between : List Between) (t' : Nat) (retry : SyscallResult)
    (hfail : c.ret < 0) (hblock : wouldBlock c.err = true) :
    suspendedOp errno t c between t' retry =
      some (if wouldBlock (errnoAtResume errno t c between t') then retry.ret else c.ret) := by
  have hr : IoAwaiter.awaitReady c (errno t) = (c.ret, false, c.err) := by
    simp [IoAwaiter.awaitReady, SyscallResult.errnoAfter, hfail, hblock, Int.not_le.2 hfail]
  simp only [suspendedOp, hr, errnoAtResume, SyscallResult.errnoAfter, hfail, if_true,
    IoAwaiter.awaitResume, Bool.false_eq_true, if_false, true_and]
  split <;> rfl

theorem resume_after_suspend_read :
    (-1 : Int) < 0 ∧ wouldBlock (SyscallResult.err ⟨-1, EAGAIN⟩) = true ∧
      suspendedOp (fun _ => 0) 0 ⟨-1, EAGAIN⟩ [] 0 ⟨4, 0⟩ = some 4 := by
  refine ⟨by decide, by decide, ?_⟩
  rw [resume_after_suspend _ _ _ _ _ _ (by decide) (by decide)]
  decide

/-- **A kept-alive read returns a stale failure.** Worker `0` runs a read on
a descriptor registered before (keep-alive): `::read` fails with `EAGAIN`;
`await_suspend`'s `add_read` fails `EPOLL_CTL_ADD` with `EEXIST` and
succeeds with `EPOLL_CTL_MOD`, leaving `errno = EEXIST`; the reactor fires and
worker `0` resumes the coroutine, where the data (`4` bytes) is waiting.
`await_resume` sees `EEXIST`, does not read, and returns `-1`. -/
theorem keepalive_read_returns_stale_failure :
    suspendedOp (fun _ => 0) 0 ⟨-1, EAGAIN⟩ [.register 0 ⟨-1, EEXIST⟩ ⟨0, 0⟩] 0 ⟨4, 0⟩ =
      some (-1) := by
  decide

end TinyCoro
