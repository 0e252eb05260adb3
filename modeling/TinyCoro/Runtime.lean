import TinyCoro.Channel
import TinyCoro.AsyncMutex

/-!
# TinyCoro — the runtime: tasks, wake-ups and frame lifetimes

A coroutine frame is freed when its `Task::Promise::ref_count` drops to zero
(`Task::dec_ref`). A `Task` owns one count; `Scheduler::spawn` detaches it into
the global queue, and `Worker::run_once` pops it back as a `Task`, resumes it
and drops it. While the coroutine is suspended its address sits in one place
that will wake it, and each waker calls `spawn(Task::from_address(h))`, which
adopts a count without taking one:

* `AsyncReadAwaiter`/`AsyncWriteAwaiter`/`AsyncAcceptAwaiter::await_suspend`
  take a count (`ref_count.fetch_add(1)`) before registering with the reactor;
* `AsyncSleep::await_suspend` (the timer heap), `LockAwaiter::await_suspend`
  (the mutex's waiter queue) and the channel awaiters (its waiter queues) do
  not.

`Task::resume` runs the coroutine only if its compare-exchange of
`is_running` from `false` to `true` succeeds, and stores `false` again after
`handle.resume()` returns; a `Task` whose compare-exchange fails is dropped
unresumed.

`Sys` runs any number of workers, the reactor's firings and any number of
coroutines, each of which does any sequence of awaits, as a sequentially
consistent interleaving. One `AsyncMutex` and one `Channel` stand for all of
them (their steps are `AsyncMutex.awaitReady`/`awaitSuspend`/`unlock` and
`Channel.sendAwaitSuspend`/`recvAwaitSuspend`/`close`). Nothing in the
repository calls `Worker::schedule`, so the local deques stay empty and only
the global queue is modelled. The ghost list `adopted` records every address
a waker spawned without owning a count, and the ghost flag `uaf` is set when
a step reads or writes a frame that has been destroyed.

Main results:

* `frame_freed_while_timer_holds` — a coroutine that sleeps is destroyed when
  the worker drops its `Task`, while the timer heap still holds its address,
  and the timer's `spawn` then has a worker resume the freed frame.
* `io_wakeup_lost` — a coroutine suspended on a read whose event fires before
  its worker's `resume` stores `is_running = false`: the second worker's
  compare-exchange fails and it drops the `Task`, after which the coroutine
  is suspended, not done, in no worker's `resume`, and has no pending wake-up.
-/

namespace TinyCoro

namespace Runtime

/-- A coroutine frame: the `Task::Promise` fields the runtime reads, whether
the coroutine has reached `final_suspend`, and whether the frame was freed. -/
structure Frame where
  refCount : Int
  isRunning : Bool
  done : Bool
  destroyed : Bool
  deriving DecidableEq, Repr

/-- An address at which no coroutine has been created. -/
def Frame.unused : Frame := ⟨0, false, false, false⟩

/-- A coroutine just created: `ref_count{1}`, `is_running{false}`, suspended
at `initial_suspend`. -/
def Frame.fresh : Frame := ⟨1, false, false, false⟩

/-- `Task::dec_ref`: `ref_count.fetch_sub(1)`, and `handle.destroy()` when it
returned `1`. -/
def Frame.decRef (fr : Frame) : Frame :=
  { fr with refCount := fr.refCount - 1, destroyed := fr.refCount == 1 }

/-- What a running coroutine does next. -/
inductive Await where
  /-- `co_await` an `AsyncReadAwaiter`, `AsyncWriteAwaiter` or
  `AsyncAcceptAwaiter` whose call failed with `EAGAIN`. -/
  | io
  /-- `co_await sleep_for(sched, ms)`. -/
  | sleep
  /-- `co_await mutex.lock()`. -/
  | lock
  /-- `~ScopedLock`: `mutex.unlock()`. -/
  | unlock
  | send (v : Nat)
  | recv
  | close
  /-- `co_return`: `FinalAwaiter` stores `is_running = false`. -/
  | finish
  deriving DecidableEq, Repr

/-- Where a worker is in `run_once`; each position but `idle` holds the
`Task` it popped. -/
inductive WorkerPc where
  | idle
  /-- Popped a `Task`; `task->resume()` next. -/
  | popped (f : Coro)
  /-- Inside `handle.resume()`: the coroutine runs on this worker. -/
  | running (f : Coro)
  /-- `LockAwaiter::await_ready` failed; `await_suspend` next. -/
  | locking (f : Coro)
  /-- `handle.resume()` returned; `is_running.store(false)` next. -/
  | resumed (f : Coro)
  /-- `task->resume()` returned; `~Task` next. -/
  | dropping (f : Coro)
  deriving DecidableEq, Repr

/-- The frames, the next fresh address, the global queue, the workers, the
reactor's registrations and timer heap, the mutex and the channel, and the
ghost `adopted` and `uaf`. -/
structure Sys where
  frames : Coro → Frame
  next : Coro
  queue : List Coro
  workers : List WorkerPc
  regs : List Coro
  timers : List Coro
  mutex : AsyncMutex
  chan : Channel Nat
  adopted : List Coro
  uaf : Bool

/-- `n` idle workers and a channel of capacity `k`. -/
def Sys.init (n k : Nat) : Sys :=
  ⟨fun _ => .unused, 0, [], List.replicate n .idle, [], [], AsyncMutex.init, Channel.empty k, [],
    false⟩

def Sys.setFrame (s : Sys) (f : Coro) (fr : Frame) : Sys :=
  { s with frames := Function.update s.frames f fr }

def Sys.setWorker (s : Sys) (w : Nat) (pc : WorkerPc) : Sys :=
  { s with workers := s.workers.set w pc }

/-- `sched.spawn(Task::from_address(h))` by a waker that holds `h` without a
count of its own: the queued `Task` adopts a count nobody took. -/
def Sys.spawnAdopt (s : Sys) (h : Coro) : Sys :=
  { s with queue := s.queue ++ [h], adopted := s.adopted ++ [h] }

/-- An access to frame `h`: a receiver's `result_ptr`, or the coroutine's own
body running on it. -/
def Sys.touch (s : Sys) (h : Coro) : Sys :=
  if (s.frames h).destroyed then { s with uaf := true } else s

/-- A channel step's effect on the rest of the runtime. -/
def Sys.applyEffect (s : Sys) : Effect Nat → Sys
  | .deliver h _ => s.touch h
  | .spawn h => s.spawnAdopt h

/-- The coroutine `f` running on worker `w` reaches its next await. -/
def Sys.await (s : Sys) (w : Nat) (f : Coro) : Await → Sys
  | .io =>
    { s.setFrame f { s.frames f with refCount := (s.frames f).refCount + 1 } with
      regs := s.regs ++ [f] }.setWorker w (.resumed f)
  | .sleep => { s with timers := s.timers ++ [f] }.setWorker w (.resumed f)
  | .lock =>
    let r := s.mutex.awaitReady
    { s with mutex := r.1 }.setWorker w (if r.2 then .running f else .locking f)
  | .unlock =>
    let r := s.mutex.unlock
    (r.2.elim { s with mutex := r.1 } ({ s with mutex := r.1 }.spawnAdopt ·)).setWorker w (.running f)
  | .send v =>
    let r := s.chan.sendAwaitSuspend f v
    (r.effects.foldl Sys.applyEffect { s with chan := r.chan }).setWorker w
      (if r.suspend then .resumed f else .running f)
  | .recv =>
    let r := s.chan.recvAwaitSuspend f
    (r.effects.foldl Sys.applyEffect { s with chan := r.chan }).setWorker w
      (if r.suspend then .resumed f else .running f)
  | .close =>
    let r := s.chan.close
    (r.2.foldl Sys.applyEffect { s with chan := r.1 }).setWorker w (.running f)
  | .finish =>
    (s.setFrame f { s.frames f with done := true, isRunning := false }).setWorker w (.resumed f)

/-- One step of some thread. -/
inductive Action where
  /-- `sched.spawn(coro(...))`: a new coroutine's `Task` detached into the queue. -/
  | spawnNew
  /-- `Scheduler::pop_global` by worker `w` (`run_once`'s pop, or one of its spins). -/
  | pop (w : Nat)
  /-- `Task::resume`'s checks and compare-exchange. -/
  | resume (w : Nat)
  | await (w : Nat) (a : Await)
  /-- `LockAwaiter::await_suspend`. -/
  | lockSuspend (w : Nat)
  /-- `if (handle && !handle.done()) is_running.store(false)`. -/
  | resumeEnd (w : Nat)
  /-- `~Task` for the popped `Task`: `dec_ref`. -/
  | drop (w : Nat)
  /-- The reactor's `io_handler` for `f`'s registration. -/
  | fireIo (f : Coro)
  /-- The reactor pops `f`'s expired timer and spawns it. -/
  | fireTimer (f : Coro)
  deriving DecidableEq, Repr

def Sys.step (s : Sys) : Action → Option Sys
  | .spawnNew =>
    some { s.setFrame s.next .fresh with next := s.next + 1, queue := s.queue ++ [s.next] }
  | .pop w =>
    match s.workers[w]?, s.queue with
    | some .idle, f :: rest => some ({ s with queue := rest }.setWorker w (.popped f))
    | _, _ => none
  | .resume w =>
    match s.workers[w]? with
    | some (.popped f) =>
      let fr := s.frames f
      if fr.destroyed then some ({ s with uaf := true }.setWorker w (.dropping f))
      else if fr.done || fr.isRunning then some (s.setWorker w (.dropping f))
      else some ((s.setFrame f { fr with isRunning := true }).setWorker w (.running f))
    | _ => none
  | .await w a =>
    match s.workers[w]? with
    | some (.running f) => some ((s.touch f).await w f a)
    | _ => none
  | .lockSuspend w =>
    match s.workers[w]? with
    | some (.locking f) =>
      let r := s.mutex.awaitSuspend f
      some ({ s.touch f with mutex := r.1 }.setWorker w (if r.2 then .resumed f else .running f))
    | _ => none
  | .resumeEnd w =>
    match s.workers[w]? with
    | some (.resumed f) =>
      let fr := s.frames f
      if fr.destroyed then some ({ s with uaf := true }.setWorker w (.dropping f))
      else if fr.done then some (s.setWorker w (.dropping f))
      else some ((s.setFrame f { fr with isRunning := false }).setWorker w (.dropping f))
    | _ => none
  | .drop w =>
    match s.workers[w]? with
    | some (.dropping f) =>
      let fr := s.frames f
      if fr.destroyed then some ({ s with uaf := true }.setWorker w .idle)
      else some ((s.setFrame f fr.decRef).setWorker w .idle)
    | _ => none
  | .fireIo f =>
    if f ∈ s.regs then some { s with regs := s.regs.erase f, queue := s.queue ++ [f] } else none
  | .fireTimer f =>
    if f ∈ s.timers then some { s.spawnAdopt f with timers := s.timers.erase f } else none

/-- A schedule, step after step. -/
def Sys.run (s : Sys) : List Action → Option Sys
  | [] => some s
  | a :: rest => (s.step a).bind fun s' => s'.run rest

inductive Reachable (n k : Nat) : Sys → Prop where
  | init : Reachable n k (Sys.init n k)
  | step {s s' : Sys} (a : Action) : Reachable n k s → s.step a = some s' → Reachable n k s'

theorem reachable_run {n k : Nat} {s s' : Sys} (hs : Reachable n k s) :
    ∀ {sched : List Action}, s.run sched = some s' → Reachable n k s'
  | [], h => by cases h; exact hs
  | a :: rest, h => by
    simp only [Sys.run, Option.bind_eq_some] at h
    obtain ⟨s₁, h₁, h₂⟩ := h
    exact reachable_run (.step a hs h₁) h₂

-- ---------------------------------------------------------------------------
-- A sleeping coroutine is freed under the timer heap
-- ---------------------------------------------------------------------------

/-- One worker runs a new coroutine to `co_await sleep_for(...)` and drops its
`Task`. -/
def sleepSchedule : List Action :=
  [.spawnNew, .pop 0, .resume 0, .await 0 .sleep, .resumeEnd 0, .drop 0]

/-- The timer expires; the reactor spawns the address; the worker resumes it. -/
def timerSchedule : List Action := [.fireTimer 0, .pop 0, .resume 0]

/-- **A sleeping coroutine is freed while the timer heap holds it.**
`AsyncSleep::await_suspend` gives the timer heap the handle without a count,
so the worker's `~Task` after `resume` takes `ref_count` from `1` to `0` and
destroys the frame; the timer later spawns the address, and a worker's
`Task::resume` reads the freed frame. -/
theorem frame_freed_while_timer_holds :
    ∃ s, Reachable 1 0 s ∧ (s.frames 0).destroyed = true ∧ 0 ∈ s.timers ∧
      ∃ s', s.run timerSchedule = some s' ∧ Reachable 1 0 s' ∧ s'.uaf = true := by
  have h : ((Sys.init 1 0).run sleepSchedule).map
      (fun s => ((s.frames 0).destroyed, decide (0 ∈ s.timers),
        (s.run timerSchedule).map Sys.uaf)) = some (true, true, some true) := by decide
  cases hr : (Sys.init 1 0).run sleepSchedule with
  | none => simp [hr] at h
  | some s =>
    simp only [hr, Option.map_some', Option.some.injEq, Prod.mk.injEq, decide_eq_true_eq] at h
    obtain ⟨hd, ht, hu⟩ := h
    have hs := reachable_run .init hr
    cases hr' : s.run timerSchedule with
    | none => simp [hr'] at hu
    | some s' =>
      simp only [hr', Option.map_some', Option.some.injEq] at hu
      exact ⟨s, hs, hd, ht, s', hr', reachable_run hs hr', hu⟩

-- ---------------------------------------------------------------------------
-- A wake-up lost to the `is_running` compare-exchange
-- ---------------------------------------------------------------------------

/-- The wake-ups pending for `f`: entries in the global queue, popped `Task`s
not yet resumed, reactor registrations, timers, and places in the mutex's
and the channel's waiter queues. -/
def Sys.pending (s : Sys) (f : Coro) : Nat :=
  s.queue.count f + s.workers.count (.popped f) + s.regs.count f + s.timers.count f +
    s.mutex.waiters.count f + s.chan.handles.count f

/-- Some worker is inside `Task::resume` for `f`, past its compare-exchange. -/
def Sys.inResume (s : Sys) (f : Coro) : Bool :=
  s.workers.contains (.running f) || s.workers.contains (.locking f) ||
    s.workers.contains (.resumed f)

/-- Worker `0` runs a new coroutine to a read that suspends; the reactor fires
at once and worker `1` pops the `Task` before worker `0`'s `resume` has
stored `is_running = false`; worker `1`'s compare-exchange fails and it drops
the `Task`; then worker `0` stores `false`. -/
def ioRaceSchedule : List Action :=
  [.spawnNew, .pop 0, .resume 0, .await 0 .io, .fireIo 0, .pop 1, .resume 1, .drop 1, .resumeEnd 0]

/-- **A wake-up is lost to the `is_running` compare-exchange.** Along
`ioRaceSchedule`, worker `1` drops the `Task` it popped for the suspended,
unfinished coroutine `0` because its compare-exchange of `is_running` failed;
afterwards coroutine `0` is live, not done, inside no worker's `resume`, and
has no pending wake-up at all. -/
theorem io_wakeup_lost :
    ∃ s, Reachable 2 0 s ∧ (s.frames 0).done = false ∧ (s.frames 0).destroyed = false ∧
      s.inResume 0 = false ∧ s.pending 0 = 0 := by
  have h : ((Sys.init 2 0).run ioRaceSchedule).map
      (fun s => ((s.frames 0).done, (s.frames 0).destroyed, s.inResume 0, s.pending 0)) =
      some (false, false, false, 0) := by decide
  cases hr : (Sys.init 2 0).run ioRaceSchedule with
  | none => simp [hr] at h
  | some s =>
    simp only [hr, Option.map_some', Option.some.injEq, Prod.mk.injEq] at h
    exact ⟨s, reachable_run .init hr, h.1, h.2.1, h.2.2.1, h.2.2.2⟩

end Runtime

end TinyCoro
