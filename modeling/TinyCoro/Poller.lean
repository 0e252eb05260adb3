import TinyCoro.Socket

/-!
# TinyCoro — the epoll poller

The Linux `Poller` (`include/poller.h`) registers its `eventfd` with
`ev = {}; ev.data.fd = wake_fd_`, while `add_read`/`add_write` register a
coroutine with `ev.data.ptr = udata`. `wait` tells the two apart by
`events_[i].data.ptr == nullptr`. `epoll_data_t` is a union of 64 bits:
writing `data.fd` sets the low 32 bits of a zero-initialised value, and
reading `data.ptr` reads all 64. `EpollData` is that union as a `BitVec 64`.

The kernel side (`epoll_ctl`, `epoll_wait`) is not code of this repository:
a registration is what a successful `epoll_ctl` stores for a descriptor, the
outcome of each `epoll_ctl` call is given (as in `Socket`), and a ready batch
is a list of registered descriptors, each reported with the data registered
for it. The event masks only steer the kernel and are left out.

Main result:

* `wake_event_reaches_io_handler` — with `wake_fd_ = 5`, a wake-up makes
  `wait` call the reactor's `io_handler` with the pointer `5`, which it
  passes to `Scheduler::spawn`: the constructor's `data.fd` and `wait`'s test
  of `data.ptr` disagree for every descriptor but `0`.
-/

namespace TinyCoro

/-- `epoll_data_t`: one 64-bit union. -/
abbrev EpollData := BitVec 64

/-- `ev = {}; ev.data.fd = fd`: the `int` in the low 32 bits, the rest zero. -/
def EpollData.ofFd (fd : Int) : EpollData := (BitVec.ofInt 32 fd).setWidth 64

/-- `data.ptr == nullptr`. -/
def EpollData.isNull (d : EpollData) : Bool := d == 0

/-- Which call made a registration. -/
inductive Interest where
  /-- The constructor's `EPOLLIN | EPOLLET` on `wake_fd_`. -/
  | wake
  /-- `add_read`: `EPOLLIN | EPOLLONESHOT | EPOLLRDHUP`. -/
  | read
  /-- `add_write`: `EPOLLOUT | EPOLLONESHOT | EPOLLRDHUP`. -/
  | write
  deriving DecidableEq, Repr

/-- The Linux `Poller`: its `eventfd` and the epoll interest list, each
registered descriptor with the call that registered it and its data. -/
structure Poller where
  wakeFd : Int
  interest : Int → Option (Interest × EpollData)

namespace Poller

/-- The poller right after its constructor registered `wake_fd_` through
`data.fd`. -/
def ofWakeFd (wakeFd : Int) : Poller :=
  ⟨wakeFd, fun fd => if fd = wakeFd then some (.wake, .ofFd wakeFd) else none⟩

/-- `Poller()`: given what `epoll_create1` and `eventfd` return, throw on a
failure, else register `wake_fd_`. -/
def create (epollFd wakeFd : Int) : Except String Poller :=
  if epollFd = -1 then .error "epoll_create1 failed"
  else if wakeFd = -1 then .error "eventfd failed"
  else .ok (ofWakeFd wakeFd)

/-- `add_read`/`add_write`: `EPOLL_CTL_ADD` with `data.ptr = udata`, and
`EPOLL_CTL_MOD` when the add failed with `errno == EEXIST` (the descriptor is
registered already, a kept-alive connection). `add` and `mod` are the
outcomes of the two calls (`Socket`'s `SyscallResult`): a call that succeeds
stores the registration, a failed one leaves the interest list as it was. So
an add failing with any other `errno`, or a failed mod, registers nothing, and
`add_read` does not say so. -/
def register (i : Interest) (p : Poller) (fd : Int) (udata : EpollData)
    (add mod : SyscallResult) : Poller :=
  let stored := { p with interest := Function.update p.interest fd (some (i, udata)) }
  if add.ret < 0 then
    if add.err = EEXIST ∧ 0 ≤ mod.ret then stored else p
  else stored

/-- `Poller::add_read(fd, udata)`. -/
def addRead : Poller → Int → EpollData → SyscallResult → SyscallResult → Poller := register .read

/-- `Poller::add_write(fd, udata)`. -/
def addWrite : Poller → Int → EpollData → SyscallResult → SyscallResult → Poller :=
  register .write

/-- What `wait` does for one entry of `events_`. -/
inductive WaitStep where
  /-- `::read(wake_fd_, &val, sizeof(val))`, no callback. -/
  | drainWakeFd
  /-- `callback(events_[i].data.ptr)`. -/
  | callback (udata : EpollData)
  deriving DecidableEq, Repr

/-- The body of `wait`'s loop for an event carrying `d`. -/
def WaitStep.of (d : EpollData) : WaitStep :=
  if d.isNull then .drainWakeFd else .callback d

/-- The loop of `Poller::wait` over the `n` events `epoll_wait` returned. -/
def wait (events : List EpollData) : List WaitStep := events.map WaitStep.of

/-- The events `epoll_wait` reports for a batch of ready registered
descriptors: each with the data registered for it. -/
def readyEvents (p : Poller) (ready : List Int) : List EpollData :=
  ready.filterMap fun fd => (p.interest fd).map Prod.snd

end Poller

/-- The `io_handler` lambda of `Reactor::loop`: a non-null pointer is adopted
as a `Task` and passed to `Scheduler::spawn`. -/
def ioHandler (udata : EpollData) : Option EpollData :=
  if udata.isNull then none else some udata

/-- **A wake-up reaches `Scheduler::spawn`.** With `wake_fd_ = 5` and no other
registration, the `eventfd`'s event is not drained: `wait` calls the reactor's
`io_handler` with `data.ptr = 5`, which adopts address `5` as a task and
spawns it. -/
theorem wake_event_reaches_io_handler :
    Poller.create 3 5 = .ok (Poller.ofWakeFd 5) ∧
      (Poller.wait ((Poller.ofWakeFd 5).readyEvents [5])).filterMap (fun
        | .callback d => ioHandler d
        | .drainWakeFd => none) = [5#64] :=
  ⟨rfl, by decide⟩

end TinyCoro
