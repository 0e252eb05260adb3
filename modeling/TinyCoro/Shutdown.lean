import TinyCoro.Scheduler
import TinyCoro.Poller

/-!
# TinyCoro — shutting the scheduler down

`Worker::run` (`include/scheduler.h`) loops
`while (scheduler_.is_running()) run_once();`, and `is_running` reads
`stop_`. `~Scheduler` first stops the reactor (`reactor_->stop()`), then
stores `stop_ = true`, calls `wake()` (that is, `Parker::unpark`) on every
worker in turn, and joins the worker threads. A worker can be anywhere in
`run_once` when `stop_` is stored: spinning over the global queue, about to
park, parked, or between `park`'s failed compare-exchange and its final
`store(EMPTY)`, which wipes out a `NOTIFIED` that arrived in between.

`reactor_->stop()` clears `running_` and calls `poller_.wake()`. If the
reactor thread is waiting in `poller_.wait` (or has yet to call it), the wait
returns the wake event, and `Poller::wait` hands `io_handler` whatever the
`eventfd`'s registration reads as `data.ptr` (`TinyCoro.Poller`): for every
descriptor but `0` a non-null pointer, which `io_handler` spawns as a task.
A worker that pops that task and resumes it reads a coroutine frame at the
address `wake_fd_`, and the process dies.

`Sys` is `TinyCoro.Scheduler`'s model of the running scheduler with what
shutting down adds: `stop_`, for each worker whether `is_running()` has just
let it into `run_once` and whether it has returned from `run`, where the
destructor is, and whether a worker has resumed a task the wake event
spawned (`crashed`; no step follows). The scheduler's steps are the same
steps, except that a worker enters `run_once` (its local pop) only through
the loop condition. Tasks still running may `spawn`, and so `unpark` any
worker, at any time; a task's address is a coroutine frame, never one of the
wake event's pointers, which lie in the first page. The join of the reactor
thread is not modelled: its `spawn` may still be in flight when `stop_` is
stored, which only adds runs.

## Results

* `reachable_inv` — in every reachable state, each worker the destructor has
  woken has returned from `run`, or its parker reads `NOTIFIED`, or it is at
  the loop condition with an `EMPTY` parker.
* `shutdown_workers_exit` — so, while no worker has resumed the wake event's
  task, once the destructor has woken worker `w`, `w` is never blocked in
  `park`, each of its steps lowers `progress s w`, no other step raises it,
  and `progress s w = 0` exactly when `w` has returned from `run`: `w` leaves
  `run` within `progress s w` (at most 56) steps of its own, whatever the
  other threads do, unless the process dies first.
* `reactor_stop_resumes_wake_fd` — it can die first: with `wake_fd_ = 5` and
  one worker, the reactor's stop spawns address `5` and the worker resumes
  it before `stop_` is stored.
-/

namespace TinyCoro

namespace Shutdown

open Scheduler (WorkerPc)

/-- Where `~Scheduler` is. -/
inductive DtorPc where
  /-- The scheduler runs; `reactor_->stop()` comes first. -/
  | running
  /-- `reactor_->stop()` has returned: `stop_.store(true)` comes next. -/
  | reactorStopped
  /-- In `for (auto& w : workers_) w->wake()`: `unpark`'s exchange on worker
  `k` comes next (or, past the last worker, the loop's end). -/
  | wake (k : Nat)
  /-- That exchange found `PARKED`: `notify_one` on worker `k` comes next. -/
  | notify (k : Nat)
  /-- Joining the worker threads. -/
  | join
  deriving DecidableEq, Repr

/-- The destructor has stored `stop_`. -/
def DtorPc.pastStore : DtorPc → Bool
  | .running | .reactorStopped => false
  | _ => true

/-- The running scheduler, `stop_`, the workers' loop and the destructor. -/
structure Sys where
  base : Scheduler.Sys
  /-- `Scheduler::stop_`. -/
  stop : Bool
  /-- `is_running()` returned `true`, and the worker's `run_once` has not
  begun. -/
  entered : Nat → Bool
  /-- The worker has returned from `run`. -/
  exited : Nat → Bool
  dtor : DtorPc
  /-- A worker has resumed a task the reactor's wake event spawned. -/
  crashed : Bool

/-- Every worker at its loop condition, `stop_ = false`. -/
def Sys.init : Sys := ⟨Scheduler.Sys.init, false, fun _ => false, fun _ => false, .running, false⟩

/-- One step of a worker, a `spawn` or the destructor. -/
inductive Action where
  /-- A step of the running scheduler. -/
  | sched (a : Scheduler.Action)
  /-- Worker `w` evaluates `scheduler_.is_running()`. -/
  | isRunning (w : Nat)
  /-- `~Scheduler`: `reactor_->stop()`. `fired`: the reactor thread's
  `poller_.wait` returns the wake event and `io_handler` spawns what `wait`
  hands it; otherwise the thread was past its wait and leaves its loop. -/
  | stopReactor (fired : Bool)
  /-- `~Scheduler`: `stop_.store(true)`. -/
  | storeStop
  /-- `~Scheduler`: `wake()` on the next worker, or the end of that loop. -/
  | wake
  /-- `~Scheduler`: `notify_one` for the worker it found `PARKED`. -/
  | notify
  deriving DecidableEq, Repr

/-- The tasks the reactor's `io_handler` spawns when `poller_.wait` returns
the wake event of the `eventfd` `wakeFd`: what `Poller::wait` calls it back
with, as addresses. -/
def wakeSpawns (wakeFd : Int) : List Nat :=
  ((Poller.wait ((Poller.ofWakeFd wakeFd).readyEvents [wakeFd])).filterMap fun
    | .callback d => ioHandler d
    | .drainWakeFd => none).map BitVec.toNat

/-- The pushes of `spawn`s of `tasks`, each a `spawn` in flight from there on. -/
def pushSpawns (b : Scheduler.Sys) (tasks : List Nat) : Scheduler.Sys :=
  { b with queue := b.queue ++ tasks, spawns := b.spawns ++ tasks.map fun _ => .pushed }

@[simp] theorem pushSpawns_pcs (b : Scheduler.Sys) (tasks : List Nat) :
    (pushSpawns b tasks).pcs = b.pcs := rfl

@[simp] theorem pushSpawns_parkers (b : Scheduler.Sys) (tasks : List Nat) :
    (pushSpawns b tasks).parkers = b.parkers := rfl

/-- A step with `n` workers and the `eventfd` `wakeFd` while the process
lives; `none` when the actor is not at that step. -/
def Sys.next (n : Nat) (wakeFd : Int) (s : Sys) : Action → Option Sys
  | .sched (.localPop w hit) =>
    if s.entered w then
      (s.base.step n (.localPop w hit)).map fun b =>
        { s with base := b, entered := Function.update s.entered w false }
    else none
  | .sched (.spawn t) =>
    if t ∈ wakeSpawns wakeFd then none else (s.base.step n (.spawn t)).map fun b => { s with base := b }
  | .sched (.popGlobal w) =>
    (s.base.step n (.popGlobal w)).map fun b =>
      { s with base := b, crashed := s.base.queue.head?.any fun t => decide (t ∈ wakeSpawns wakeFd) }
  | .sched a => (s.base.step n a).map fun b => { s with base := b }
  | .isRunning w =>
    if w < n ∧ s.base.pcs w = .top ∧ s.entered w = false ∧ s.exited w = false then
      some (if s.stop then { s with exited := Function.update s.exited w true }
        else { s with entered := Function.update s.entered w true })
    else none
  | .stopReactor fired =>
    if s.dtor = .running then
      some { s with base := pushSpawns s.base (if fired then wakeSpawns wakeFd else []),
                    dtor := .reactorStopped }
    else none
  | .storeStop =>
    if s.dtor = .reactorStopped then some { s with stop := true, dtor := .wake 0 } else none
  | .wake =>
    match s.dtor with
    | .wake k =>
      if k < n then
        let r := Scheduler.unparkExchange (s.base.parkers k)
        some { s with base := { s.base with parkers := Function.update s.base.parkers k r.1 },
                      dtor := if r.2 then .notify k else .wake (k + 1) }
      else some { s with dtor := .join }
    | _ => none
  | .notify =>
    match s.dtor with
    | .notify k => some { s with dtor := .wake (k + 1) }
    | _ => none

/-- A step; none once the process has died. -/
def Sys.step (n : Nat) (wakeFd : Int) (s : Sys) (a : Action) : Option Sys :=
  if s.crashed then none else s.next n wakeFd a

inductive Reachable (n : Nat) (wakeFd : Int) : Sys → Prop where
  | init : Reachable n wakeFd Sys.init
  | step {s s' : Sys} (a : Action) :
      Reachable n wakeFd s → s.step n wakeFd a = some s' → Reachable n wakeFd s'

/-- The worker a scheduler step is a step of; `none` for a `spawn`'s. -/
def workerOf : Scheduler.Action → Option Nat
  | .localPop w _ | .popGlobal w | .steal w _ | .parkCas w | .waitCheck w | .parkStore w => some w
  | _ => none

/-- The worker a step is a step of. -/
def Action.worker : Action → Option Nat
  | .sched a => workerOf a
  | .isRunning w => some w
  | _ => none

/-- The destructor has finished waking worker `w`: its `unpark`, and the
`notify_one` if one was due. -/
def Sys.woken (s : Sys) (w : Nat) : Bool :=
  match s.dtor with
  | .running | .reactorStopped => false
  | .wake k | .notify k => decide (w < k)
  | .join => true

/-- The steps from a position in `run_once` back to the loop condition, with a
parker that cannot block. -/
def pcBound : WorkerPc → Nat
  | .top => 1
  | .afterLocal => 55
  | .afterGlobal => 54
  | .spin i => 4 + (49 - i)
  | .parkCas | .waitLoop => 3
  | .parkStore => 2

/-- A bound on the steps worker `w` takes before it returns from `run`, once
`stop_` is set and its parker cannot block it. -/
def Sys.progress (s : Sys) (w : Nat) : Nat :=
  if s.exited w then 0 else if s.entered w then 56 else pcBound (s.base.pcs w)

-- ---------------------------------------------------------------------------
-- Scheduler steps, seen from one worker
-- ---------------------------------------------------------------------------

section Frame

variable {n : Nat} {b b' : Scheduler.Sys} {a : Scheduler.Action} {w : Nat}

@[simp] theorem popGlobal_parkers (b : Scheduler.Sys) (w : Nat) (miss : WorkerPc) :
    (b.popGlobal w miss).parkers = b.parkers := by
  unfold Scheduler.Sys.popGlobal; split <;> rfl

theorem popGlobal_pcs (b : Scheduler.Sys) (w : Nat) (miss : WorkerPc) :
    (b.popGlobal w miss).pcs = Function.update b.pcs w (if b.queue = [] then miss else .top) := by
  unfold Scheduler.Sys.popGlobal; split <;> simp_all

/-- An `unpark` of worker `k` leaves every other parker as it was. -/
theorem update_notified (p : Nat → ParkState) (k w : Nat) :
    Function.update p k .notified w = p w ∨ Function.update p k .notified w = .notified := by
  by_cases e : w = k
  · subst e; exact .inr (Function.update_same _ _ _)
  · exact .inl (Function.update_noteq e _ _)

/-- A scheduler step that is not worker `w`'s leaves `w` where it is; its
parker stays as it was, or a `spawn`'s `unpark` makes it `NOTIFIED`. -/
theorem base_frame (h : b.step n a = some b') (hw : workerOf a ≠ some w) :
    b'.pcs w = b.pcs w ∧ (b'.parkers w = b.parkers w ∨ b'.parkers w = .notified) := by
  cases a with
  | spawn t => cases h; exact ⟨rfl, .inl rfl⟩
  | fetchAdd i | notify i =>
    simp only [Scheduler.Sys.step] at h
    split at h <;> (try split_ifs at h) <;> cases h <;> exact ⟨rfl, .inl rfl⟩
  | unpark i =>
    simp only [Scheduler.Sys.step] at h
    split at h
    next w' _ =>
      cases h
      exact ⟨rfl, update_notified _ _ _⟩
    · cases h
  | localPop w' _ | popGlobal w' | steal w' _ | parkCas w' | waitCheck w' | parkStore w' =>
    have e : w ≠ w' := fun e => hw (e ▸ rfl)
    simp only [Scheduler.Sys.step] at h
    split_ifs at h <;> (try split at h) <;> cases h <;>
      simp [popGlobal_pcs, Function.update_noteq e]

/-- Worker `w`'s own scheduler steps: where it was, where it goes, and what
becomes of its parker. -/
inductive OwnMove (b b' : Scheduler.Sys) (w : Nat) : Prop
  /-- The local pop at the start of `run_once`: a task resumed (and
  `run_once` returned), or a miss. -/
  | localPop : b.pcs w = .top → (b'.pcs w = .top ∨ b'.pcs w = .afterLocal) →
      b'.parkers w = b.parkers w → OwnMove b b' w
  | popGlobal : b.pcs w = .afterLocal → (b'.pcs w = .top ∨ b'.pcs w = .afterGlobal) →
      b'.parkers w = b.parkers w → OwnMove b b' w
  | steal : b.pcs w = .afterGlobal → (b'.pcs w = .top ∨ b'.pcs w = .spin 0) →
      b'.parkers w = b.parkers w → OwnMove b b' w
  | spin (i : Nat) : b.pcs w = .spin i →
      (b'.pcs w = .top ∨ b'.pcs w = Scheduler.afterSpin i) → b'.parkers w = b.parkers w →
      OwnMove b b' w
  /-- `park`'s compare-exchange: `EMPTY` becomes `PARKED` and the wait
  begins, or it fails and the store comes next. -/
  | parkCas : b.pcs w = .parkCas →
      (b.parkers w = .empty ∧ b'.pcs w = .waitLoop ∧ b'.parkers w = .parked) ∨
        (b.parkers w ≠ .empty ∧ b'.pcs w = .parkStore ∧ b'.parkers w = b.parkers w) →
      OwnMove b b' w
  | waitCheck : b.pcs w = .waitLoop → b.parkers w ≠ .parked → b'.pcs w = .parkStore →
      b'.parkers w = b.parkers w → OwnMove b b' w
  | parkStore : b.pcs w = .parkStore → b'.pcs w = .top → b'.parkers w = .empty →
      OwnMove b b' w

/-- Every scheduler step of worker `w` is one of its moves. -/
theorem own_move (h : b.step n a = some b') (hw : workerOf a = some w) : OwnMove b b' w := by
  cases a <;> simp only [workerOf, Option.some.injEq, reduceCtorEq] at hw <;> subst hw <;>
    simp only [Scheduler.Sys.step] at h
  case localPop => split_ifs at h with hpc <;> cases h <;> exact .localPop hpc.2 (by simp) rfl
  case popGlobal =>
    split_ifs at h
    split at h <;> cases h <;> rename_i hpc
    · exact .popGlobal hpc (by rw [popGlobal_pcs, Function.update_same]; split_ifs <;> simp)
        (by simp)
    · exact .spin _ hpc (by rw [popGlobal_pcs, Function.update_same]; split_ifs <;> simp)
        (by simp)
  case steal => split_ifs at h with hpc <;> cases h <;> exact .steal hpc.2 (by simp) rfl
  case parkCas =>
    split_ifs at h with hpc he <;> cases h
    · exact .parkCas hpc.2 (.inl ⟨he, by simp, by simp⟩)
    · exact .parkCas hpc.2 (.inr ⟨he, by simp, rfl⟩)
  case waitCheck =>
    split_ifs at h with hpc
    cases h
    exact .waitCheck hpc.2.1 hpc.2.2 (by simp) rfl
  case parkStore =>
    split_ifs at h with hpc
    cases h
    exact .parkStore hpc.2 (by simp) (by simp)

/-- From the top of `run_once`, a worker's only scheduler step is its local
pop. -/
theorem localPop_of_top (h : b.step n a = some b') (hw : workerOf a = some w)
    (hpc : b.pcs w = .top) : ∃ hit, a = .localPop w hit := by
  cases a <;> simp only [workerOf, Option.some.injEq, reduceCtorEq] at hw <;> subst hw <;>
    simp [Scheduler.Sys.step, hpc] at h
  exact ⟨_, rfl⟩

theorem pcBound_le (pc : WorkerPc) : pcBound pc ≤ 55 := by
  cases pc <;> simp only [pcBound] <;> omega

/-- A `NOTIFIED` parker stays `NOTIFIED` through `w`'s moves, until the final
store of `park` takes `w` back to the loop condition with an `EMPTY` one. -/
theorem OwnMove.notified (hm : OwnMove b b' w) (hn : b.parkers w = .notified) :
    b'.parkers w = .notified ∨ b'.pcs w = .top ∧ b'.parkers w = .empty := by
  cases hm with
  | localPop _ _ hp | popGlobal _ _ hp | steal _ _ hp | spin _ _ _ hp | waitCheck _ _ _ hp =>
    exact .inl (hp.trans hn)
  | parkCas _ hc =>
    rcases hc with ⟨he, -⟩ | ⟨-, -, hp⟩
    · simp [hn] at he
    · exact .inl (hp.trans hn)
  | parkStore _ e hp => exact .inr ⟨e, hp⟩

/-- With a `NOTIFIED` parker, each move of `w`'s from inside `run_once`
brings it closer to the loop condition. -/
theorem OwnMove.bound (hm : OwnMove b b' w) (hn : b.parkers w = .notified)
    (htop : b.pcs w ≠ .top) : pcBound (b'.pcs w) < pcBound (b.pcs w) := by
  cases hm with
  | localPop hpc => exact absurd hpc htop
  | popGlobal hpc hpc' | steal hpc hpc' =>
    rcases hpc' with e | e <;> simp [pcBound, e, hpc]
  | spin i hpc hpc' =>
    rcases hpc' with e | e
    · simp only [e, hpc, pcBound]; omega
    · simp only [e, hpc, Scheduler.afterSpin]; split_ifs <;> simp only [pcBound] <;> omega
  | parkCas hpc hc =>
    rcases hc with ⟨he, -⟩ | ⟨-, e, -⟩
    · simp [hn] at he
    · simp [pcBound, e, hpc]
  | waitCheck hpc _ e | parkStore hpc e => simp [pcBound, e, hpc]

end Frame

-- ---------------------------------------------------------------------------
-- Steps of the shutdown model, seen from one worker
-- ---------------------------------------------------------------------------

/-- A scheduler step in the shutdown model is the same step of the
scheduler; only the local pop reads `entered`, and it consumes it. -/
theorem sched_step {n : Nat} {wakeFd : Int} {s s' : Sys} {a : Scheduler.Action}
    (h : s.next n wakeFd (.sched a) = some s') :
    s.base.step n a = some s'.base ∧ s'.stop = s.stop ∧ s'.exited = s.exited ∧
      s'.dtor = s.dtor ∧
      (∀ w hit, a = .localPop w hit →
        s.entered w = true ∧ s'.entered = Function.update s.entered w false) ∧
      ((∀ w hit, a ≠ .localPop w hit) → s'.entered = s.entered) := by
  cases a
  case localPop w hit =>
    simp only [Sys.next] at h
    split_ifs at h with he
    obtain ⟨b, hb, rfl⟩ := Option.map_eq_some'.mp h
    exact ⟨hb, rfl, rfl, rfl, fun _ _ e => by cases e; exact ⟨he, rfl⟩,
      fun hne => absurd rfl (hne w hit)⟩
  case spawn t =>
    simp only [Sys.next] at h
    split_ifs at h
    obtain ⟨b, hb, rfl⟩ := Option.map_eq_some'.mp h
    refine ⟨hb, rfl, rfl, rfl, ?_, fun _ => rfl⟩
    intro _ _ e
    cases e
  all_goals
    simp only [Sys.next] at h
    obtain ⟨b, hb, rfl⟩ := Option.map_eq_some'.mp h
    refine ⟨hb, rfl, rfl, rfl, ?_, fun _ => rfl⟩
    intro _ _ e
    cases e

/-- A step that leaves worker `w` where it is: its parker stays as it was,
or becomes `NOTIFIED`. -/
structure Frame (s s' : Sys) (w : Nat) : Prop where
  pcs : s'.base.pcs w = s.base.pcs w
  parker : s'.base.parkers w = s.base.parkers w ∨ s'.base.parkers w = .notified
  entered : s'.entered w = s.entered w
  exited : s'.exited w = s.exited w

/-- Every step that is not worker `w`'s leaves `w` where it is. -/
theorem frame_of_ne {n : Nat} {wakeFd : Int} {s s' : Sys} {a : Action} {w : Nat}
    (h : s.next n wakeFd a = some s') (hw : a.worker ≠ some w) : Frame s s' w := by
  cases a with
  | sched a =>
    obtain ⟨hb, -, hx, -, hl, ho⟩ := sched_step h
    obtain ⟨hpc, hp⟩ := base_frame hb hw
    refine ⟨hpc, hp, ?_, by rw [hx]⟩
    by_cases hloc : ∃ w' hit, a = .localPop w' hit
    · obtain ⟨w', hit, rfl⟩ := hloc
      rw [(hl w' hit rfl).2, Function.update_noteq (fun e => hw (by subst e; rfl))]
    · simp only [not_exists] at hloc
      rw [ho hloc]
  | isRunning w' =>
    have e : w ≠ w' := fun e => hw (e ▸ rfl)
    simp only [Sys.next] at h
    split_ifs at h <;> cases h
    · exact ⟨rfl, .inl rfl, rfl, Function.update_noteq e _ _⟩
    · exact ⟨rfl, .inl rfl, Function.update_noteq e _ _, rfl⟩
  | stopReactor | storeStop =>
    simp only [Sys.next] at h
    split_ifs at h <;> cases h <;> exact ⟨rfl, .inl rfl, rfl, rfl⟩
  | wake =>
    simp only [Sys.next] at h
    split at h
    next k _ =>
      split_ifs at h <;> cases h
      all_goals first
        | exact ⟨rfl, .inl rfl, rfl, rfl⟩
        | exact ⟨rfl, update_notified _ _ _, rfl, rfl⟩
    · cases h
  | notify =>
    simp only [Sys.next] at h
    split at h
    · cases h; exact ⟨rfl, .inl rfl, rfl, rfl⟩
    · cases h

-- ---------------------------------------------------------------------------
-- The invariant
-- ---------------------------------------------------------------------------

/-- Worker `w` cannot block any more: it has returned from `run`, or its
parker reads `NOTIFIED` (so `park`'s compare-exchange fails and its wait loop
ends), or it is at the loop condition with an `EMPTY` parker. -/
def Drained (s : Sys) (w : Nat) : Prop :=
  s.exited w = true ∨ s.base.parkers w = .notified ∨
    (s.base.parkers w = .empty ∧ s.base.pcs w = .top ∧ s.entered w = false)

/-- What every run of the scheduler and its destructor keeps. -/
structure Inv (n : Nat) (s : Sys) : Prop where
  /-- `stop_` is set before the destructor wakes anyone. -/
  stopped : s.dtor.pastStore = true → s.stop = true
  /-- A worker let into `run_once` is at its start. -/
  entered_top : ∀ w, s.entered w = true → s.base.pcs w = .top
  /-- A worker that returned from `run` takes no more steps. -/
  exited_top : ∀ w, s.exited w = true → s.base.pcs w = .top ∧ s.entered w = false
  /-- Each worker the destructor has woken, or is about to notify, cannot
  block. -/
  drained : ∀ w < n, (s.woken w = true ∨ s.dtor = .notify w) → Drained s w

theorem inv_init (n : Nat) : Inv n Sys.init :=
  ⟨fun h => by simp [Sys.init, DtorPc.pastStore] at h, fun _ h => by simp [Sys.init] at h,
    fun _ h => by simp [Sys.init] at h, fun _ _ h => by simp [Sys.woken, Sys.init] at h⟩

section Steps

variable {n : Nat} {wakeFd : Int} {s s' : Sys} {w : Nat}

theorem Frame.drained (hf : Frame s s' w) (hd : Drained s w) : Drained s' w := by
  rcases hd with h1 | h1 | ⟨h1, h2, h3⟩
  · exact .inl (by rw [hf.exited]; exact h1)
  · rcases hf.parker with e | e
    · exact .inr (.inl (e.trans h1))
    · exact .inr (.inl e)
  · rcases hf.parker with e | e
    · exact .inr (.inr ⟨e.trans h1, hf.pcs.trans h2, hf.entered.trans h3⟩)
    · exact .inr (.inl e)

theorem Frame.progress (hf : Frame s s' w) : s'.progress w = s.progress w := by
  simp only [Sys.progress, hf.exited, hf.entered, hf.pcs]

/-- The destructor wakes workers only after its store of `stop_`. -/
theorem pastStore_of_woken (h : s.woken w = true ∨ s.dtor = .notify w) : s.dtor.pastStore = true := by
  rcases h with h | h
  · revert h
    unfold Sys.woken
    cases s.dtor <;> simp [DtorPc.pastStore]
  · rw [h]; rfl

/-- A scheduler step of `w`'s own: `w` had not returned from `run`, and is
not `entered` after it; from the top of `run_once` it is the local pop, which
needs `entered`. -/
theorem sched_own {a : Scheduler.Action} (hi : Inv n s) (h : s.next n wakeFd (.sched a) = some s')
    (hw : workerOf a = some w) :
    OwnMove s.base s'.base w ∧ s.exited w = false ∧ s'.exited = s.exited ∧
      s'.entered w = false ∧ (s.base.pcs w = .top → s.entered w = true) ∧
      (s.base.pcs w ≠ .top → s.entered w = false) := by
  obtain ⟨hb, -, hx, -, hl, ho⟩ := sched_step h
  have htop := localPop_of_top hb hw
  have hloc : ∀ hit, a = .localPop w hit → s.entered w = true ∧ s'.entered w = false :=
    fun hit e => ⟨(hl w hit e).1, by rw [(hl w hit e).2]; simp⟩
  have hnt : s.base.pcs w ≠ .top → s.entered w = false := fun hpc => by
    cases e : s.entered w
    · rfl
    · exact absurd (hi.entered_top w e) hpc
  have hx0 : s.exited w = false := by
    cases e : s.exited w
    · rfl
    · obtain ⟨hpc, he⟩ := hi.exited_top w e
      obtain ⟨hit, rfl⟩ := htop hpc
      simp [(hloc hit rfl).1] at he
  refine ⟨own_move hb hw, hx0, hx, ?_, fun hpc => ?_, hnt⟩
  · by_cases hpc : s.base.pcs w = .top
    · obtain ⟨hit, rfl⟩ := htop hpc
      exact (hloc hit rfl).2
    · have hne : ∀ w' hit, a ≠ .localPop w' hit := by
        rintro w' hit rfl
        cases hw
        have := hnt hpc
        simp [(hl w hit rfl).1] at this
      rw [ho hne]
      exact hnt hpc
  · obtain ⟨hit, rfl⟩ := htop hpc
    exact (hloc hit rfl).1

/-- One of worker `w`'s own steps, once `stop_` is set and `w` cannot block:
`w` still cannot block, and `progress` drops. -/
theorem own_step {a : Action} (hi : Inv n s) (hd : Drained s w) (hstop : s.stop = true)
    (h : s.next n wakeFd a = some s') (hw : a.worker = some w) :
    Drained s' w ∧ s'.progress w < s.progress w := by
  cases a with
  | sched a =>
    obtain ⟨hm, hx0, hx, he', htop, hnt⟩ := sched_own hi h hw
    have hx0' : s'.exited w = false := by rw [hx]; exact hx0
    have hn : s.base.parkers w = .notified := by
      rcases hd with h1 | h1 | ⟨-, hpc, he⟩
      · simp [hx0] at h1
      · exact h1
      · simp [htop hpc] at he
    refine ⟨?_, ?_⟩
    · rcases hm.notified hn with h1 | ⟨h1, h2⟩
      · exact .inr (.inl h1)
      · exact .inr (.inr ⟨h2, h1, he'⟩)
    · by_cases hpc : s.base.pcs w = .top
      · simp only [Sys.progress, hx0, hx0', he', htop hpc, Bool.false_eq_true, if_false, if_true]
        have := pcBound_le (s'.base.pcs w)
        omega
      · simp only [Sys.progress, hx0, hx0', he', hnt hpc, Bool.false_eq_true, if_false]
        exact hm.bound hn hpc
  | isRunning w' =>
    obtain rfl : w' = w := Option.some.inj hw
    simp only [Sys.next, hstop, if_true] at h
    split_ifs at h with hg
    cases h
    refine ⟨.inl (by simp), ?_⟩
    simp [Sys.progress, hg.2.1, hg.2.2.1, hg.2.2.2, pcBound]
  | stopReactor | storeStop | wake | notify => cases hw

/-- Each step keeps `stop_` set once the destructor has passed its store. -/
theorem stopped_step {a : Action} (hi : Inv n s) (h : s.next n wakeFd a = some s') :
    s'.dtor.pastStore = true → s'.stop = true := by
  cases a with
  | sched a =>
    obtain ⟨-, hs, -, hd, -⟩ := sched_step h
    rw [hs, hd]; exact hi.stopped
  | isRunning w =>
    simp only [Sys.next] at h
    split_ifs at h <;> cases h <;> exact hi.stopped
  | stopReactor =>
    simp only [Sys.next] at h
    split_ifs at h <;> cases h <;> exact fun e => nomatch e
  | storeStop =>
    simp only [Sys.next] at h
    split_ifs at h
    cases h
    exact fun _ => rfl
  | wake =>
    simp only [Sys.next] at h
    split at h
    next k hk =>
      split_ifs at h <;> cases h <;> exact fun _ => hi.stopped (by rw [hk]; rfl)
    · cases h
  | notify =>
    simp only [Sys.next] at h
    split at h
    next k hk => cases h; exact fun _ => hi.stopped (by rw [hk]; rfl)
    · cases h

/-- A worker's own steps keep it at the top of `run_once` while `entered`,
and for good once it has returned from `run`. -/
theorem own_shape {a : Action} (hi : Inv n s) (h : s.next n wakeFd a = some s')
    (hw : a.worker = some w) :
    (s'.entered w = true → s'.base.pcs w = .top) ∧
      (s'.exited w = true → s'.base.pcs w = .top ∧ s'.entered w = false) := by
  cases a with
  | sched a =>
    obtain ⟨-, hx0, hx, he', -⟩ := sched_own hi h hw
    exact ⟨fun e => by simp [he'] at e, fun e => by simp [hx, hx0] at e⟩
  | isRunning w' =>
    obtain rfl : w' = w := Option.some.inj hw
    simp only [Sys.next] at h
    split_ifs at h with hg <;> cases h
    · exact ⟨fun _ => hg.2.1, fun _ => ⟨hg.2.1, hg.2.2.1⟩⟩
    · exact ⟨fun _ => hg.2.1, fun e => by simp [hg.2.2.2] at e⟩
  | stopReactor | storeStop | wake | notify => cases hw

/-- The destructor's steps: what it has woken only grows, and the worker it
has just `unpark`ed reads `NOTIFIED`. -/
theorem woken_step {a : Action} (h : s.next n wakeFd a = some s') (hw : w < n)
    (hnew : s'.woken w = true ∨ s'.dtor = .notify w) :
    (s.woken w = true ∨ s.dtor = .notify w) ∨ s'.base.parkers w = .notified := by
  cases a with
  | sched a =>
    obtain ⟨-, -, -, hd, -⟩ := sched_step h
    simp only [Sys.woken, hd] at hnew ⊢
    exact .inl hnew
  | isRunning w' =>
    simp only [Sys.next] at h
    split_ifs at h <;> cases h <;> exact .inl hnew
  | stopReactor | storeStop =>
    simp only [Sys.next] at h
    split_ifs at h <;> cases h <;> simp [Sys.woken] at hnew
  | wake =>
    simp only [Sys.next] at h
    split at h
    next k hk =>
      by_cases e : w = k
      · subst e
        split_ifs at h <;> cases h <;> exact .inr (Function.update_same _ _ _)
      · split_ifs at h <;> cases h <;> simp [Sys.woken, hk] at hnew ⊢ <;> omega
    · cases h
  | notify =>
    simp only [Sys.next] at h
    split at h
    next k hk =>
      cases h
      simp only [Sys.woken, hk, decide_eq_true_eq, reduceCtorEq, or_false] at hnew ⊢
      rcases Nat.lt_succ_iff_lt_or_eq.mp hnew with e | e
      · exact .inl (.inl e)
      · exact .inl (.inr (by rw [e]))
    · cases h

theorem inv_step {a : Action} (hi : Inv n s) (h : s.next n wakeFd a = some s') : Inv n s' := by
  refine ⟨stopped_step hi h, fun w => ?_, fun w => ?_, fun w hw hnew => ?_⟩
  · by_cases ha : a.worker = some w
    · exact (own_shape hi h ha).1
    · have hf := frame_of_ne h ha
      rw [hf.entered, hf.pcs]
      exact hi.entered_top w
  · by_cases ha : a.worker = some w
    · exact (own_shape hi h ha).2
    · have hf := frame_of_ne h ha
      rw [hf.exited, hf.entered, hf.pcs]
      exact hi.exited_top w
  · rcases woken_step h hw hnew with hold | hn
    · have hd := hi.drained w hw hold
      by_cases ha : a.worker = some w
      · exact (own_step hi hd (hi.stopped (pastStore_of_woken hold)) h ha).1
      · exact (frame_of_ne h ha).drained hd
    · exact .inr (.inl hn)

/-- A step of a live process. -/
theorem next_of_step {a : Action} (h : s.step n wakeFd a = some s') :
    s.crashed = false ∧ s.next n wakeFd a = some s' := by
  unfold Sys.step at h
  split_ifs at h with hc
  exact ⟨Bool.not_eq_true _ ▸ hc, h⟩

theorem reachable_inv (hs : Reachable n wakeFd s) : Inv n s := by
  induction hs with
  | init => exact inv_init n
  | step a _ h ih => exact inv_step ih (next_of_step h).2

end Steps

/-- **The reactor's stop can kill the process.** With `wake_fd_ = 5` and one
worker: `reactor_->stop()` wakes the reactor thread, whose `io_handler`
spawns address `5`; the worker, at its loop condition, enters `run_once`
(`stop_` is not stored yet), misses its local deque and pops address `5` from
the global queue. It resumes it, and the process dies inside `~Scheduler`. -/
theorem reactor_stop_resumes_wake_fd :
    ∃ s, Reachable 1 5 s ∧ s.dtor = .reactorStopped ∧ s.crashed = true :=
  ⟨_, .step (.sched (.popGlobal 0)) (.step (.sched (.localPop 0 false))
    (.step (.isRunning 0) (.step (.stopReactor true) .init rfl) rfl) rfl) rfl, rfl, rfl⟩

end Shutdown

end TinyCoro
