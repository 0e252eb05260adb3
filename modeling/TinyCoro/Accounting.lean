import TinyCoro.Runtime

/-!
# TinyCoro — what the runtime's counts do keep

`Runtime` exhibits a frame freed under the timer heap and a lost wake-up.
This file proves what the code does guarantee, over every interleaving, for
as long as no step has touched a freed frame (`uaf = false`):

* the **count ledger**: a live frame's `ref_count`, plus the counts adopted
  for it without being taken (`adopted`), is exactly the number of owning
  references — `Task`s in the global queue, `Task`s held by workers, and
  reactor registrations. So only the wakers that adopt an untaken count (the
  timer heap, the mutex and the channel) can make a frame's count fall short,
  and a frame for which nothing was adopted is freed only once no `Task` and
  no registration holds it;
* **no duplicated wake-up**: each coroutine has at most one pending wake-up
  or running worker at a time, so no coroutine is ever run by two workers at
  once, the `is_running` compare-exchange aside.

Main results:

* `task_accounting` — both, in every reachable state with `uaf = false`.
* `uaf_needs_adoption` — in every reachable state with `uaf = true`, some
  waker has adopted a count: a run in which no timer fires, the mutex hands
  over to nobody and the channel wakes nobody never touches a freed frame.
-/

namespace TinyCoro

namespace Runtime

/-- The frame whose `Task` a worker holds, from its pop to its `~Task`. -/
def WorkerPc.task : WorkerPc → Option Coro
  | .idle => none
  | .popped f | .running f | .locking f | .resumed f | .dropping f => some f

/-- The coroutine a worker is running and that has not suspended yet. -/
def WorkerPc.runs : WorkerPc → Option Coro
  | .running f | .locking f => some f
  | _ => none

/-- The `Task`s of `g` that workers hold. -/
def tasksOf (ws : List WorkerPc) (g : Coro) : Nat := ws.countP fun pc => pc.task == some g

/-- The workers running `g`. -/
def activeOf (ws : List WorkerPc) (g : Coro) : Nat := ws.countP fun pc => pc.runs == some g

/-- The references that own a count of `g`: `Task`s queued or held by a
worker, and reactor registrations. -/
def Sys.owned (s : Sys) (g : Coro) : Nat := s.queue.count g + tasksOf s.workers g + s.regs.count g

-- ---------------------------------------------------------------------------
-- Counting under the state's updates
-- ---------------------------------------------------------------------------

theorem countP_set_add {α : Type} {l : List α} {w : Nat} {x : α} (hx : l[w]? = some x)
    (p : α → Bool) (a : α) :
    (l.set w a).countP p + (if p x then 1 else 0) = l.countP p + (if p a then 1 else 0) := by
  obtain ⟨hw, rfl⟩ := List.getElem?_eq_some_iff.1 hx
  rw [List.countP_set p l w a hw]
  have := List.boole_getElem_le_countP p l w hw
  omega

/-- Moving worker `w` from `pc` to `pc'`, in the three tallies of `g` the
invariant reads: `Task`s held, `Task`s popped and not yet resumed, and workers
running `g`. -/
theorem census_set {l : List WorkerPc} {w : Nat} {pc : WorkerPc} (hw : l[w]? = some pc)
    (pc' : WorkerPc) (g : Coro) :
    tasksOf (l.set w pc') g + (if pc.task = some g then 1 else 0) =
      tasksOf l g + (if pc'.task = some g then 1 else 0) ∧
    (l.set w pc').count (.popped g) + (if pc = .popped g then 1 else 0) =
      l.count (.popped g) + (if pc' = .popped g then 1 else 0) ∧
    activeOf (l.set w pc') g + (if pc.runs = some g then 1 else 0) =
      activeOf l g + (if pc'.runs = some g then 1 else 0) :=
  ⟨by simpa [tasksOf] using countP_set_add hw (fun pc => pc.task == some g) pc',
   by simpa [List.count_eq_countP] using countP_set_add hw (· == .popped g) pc',
   by simpa [activeOf] using countP_set_add hw (fun pc => pc.runs == some g) pc'⟩

/-- The channel effects: the spawns go to the queue as adopted counts, and a
write into a freed receiver sets `uaf`. -/
theorem foldl_applyEffect (effs : List (Effect Nat)) (s : Sys) :
    effs.foldl Sys.applyEffect s =
      { s with queue := s.queue ++ Channel.spawned effs, adopted := s.adopted ++ Channel.spawned effs,
               uaf := s.uaf || effs.any fun
                 | .deliver h _ => (s.frames h).destroyed
                 | .spawn _ => false } := by
  induction effs generalizing s with
  | nil => simp [Channel.spawned]
  | cons e effs ih =>
    rw [List.foldl_cons, ih]
    cases e with
    | deliver h v =>
      simp only [Sys.applyEffect, Sys.touch]
      split <;> simp_all [Channel.spawned, Channel.spawnee]
    | spawn h => simp [Sys.applyEffect, Sys.spawnAdopt, Channel.spawned, Channel.spawnee]

-- ---------------------------------------------------------------------------
-- The invariant
-- ---------------------------------------------------------------------------

/-- The accounting invariant: the count ledger of live frames, the bound for
freed ones, untouched addresses beyond `next`, and at most one wake-up or
running worker per coroutine. -/
structure Inv (s : Sys) : Prop where
  ledger : ∀ g, (s.frames g).destroyed = false →
    (s.frames g).refCount + s.adopted.count g = s.owned g
  freed : ∀ g, (s.frames g).destroyed = true → s.owned g ≤ s.adopted.count g
  fresh : ∀ g, s.next ≤ g →
    s.frames g = .unused ∧ s.owned g + s.pending g + s.adopted.count g = 0
  single : ∀ g, s.pending g + activeOf s.workers g ≤ 1

theorem tasksOf_replicate_idle (n : Nat) (g : Coro) : tasksOf (List.replicate n .idle) g = 0 := by
  simp [tasksOf, List.countP_replicate, WorkerPc.task]

theorem inv_init (n k : Nat) : Inv (Sys.init n k) where
  ledger := fun g _ => by simp [Sys.init, Sys.owned, tasksOf_replicate_idle, Frame.unused]
  freed := fun g h => by simp [Sys.init, Frame.unused] at h
  fresh := fun g _ => by
    simp [Sys.init, Sys.owned, Sys.pending, tasksOf_replicate_idle, AsyncMutex.init,
      Channel.empty, Channel.handles, List.count_replicate]
  single := fun g => by
    simp [Sys.init, Sys.pending, activeOf, List.countP_replicate, WorkerPc.runs,
      AsyncMutex.init, Channel.empty, Channel.handles, List.count_replicate]

/-- What a step does to one frame, in the terms the invariant needs: it frees
nothing, keeps a freed frame's count, moves a live frame's count with its
owned references and adoptions, creates no wake-up, and leaves an untouched
address untouched. -/
structure Tracks (s s' : Sys) (g : Coro) : Prop where
  destroyed : (s'.frames g).destroyed = (s.frames g).destroyed
  refCount_freed : (s.frames g).destroyed = true → (s'.frames g).refCount = (s.frames g).refCount
  ledger : (s'.frames g).refCount + s'.adopted.count g - s'.owned g =
    (s.frames g).refCount + s.adopted.count g - s.owned g
  single : s'.pending g + activeOf s'.workers g ≤ s.pending g + activeOf s.workers g
  fresh : s.owned g + s.pending g + s.adopted.count g = 0 →
    s'.frames g = s.frames g ∧ s'.owned g + s'.pending g + s'.adopted.count g = 0

theorem inv_of {s s' : Sys} (hi : Inv s) (hn : s'.next = s.next) (ht : ∀ g, Tracks s s' g) :
    Inv s' where
  ledger g hd := by
    have h := hi.ledger g ((ht g).destroyed ▸ hd)
    have := (ht g).ledger
    omega
  freed g hd := by
    have h := hi.freed g ((ht g).destroyed ▸ hd)
    have := (ht g).ledger
    have := (ht g).refCount_freed ((ht g).destroyed ▸ hd)
    omega
  fresh g hg := by
    obtain ⟨hf, hz⟩ := hi.fresh g (hn ▸ hg)
    obtain ⟨hf', hz'⟩ := (ht g).fresh hz
    exact ⟨hf'.trans hf, hz'⟩
  single g := Nat.le_trans (ht g).single (hi.single g)

/-- A step that leaves `g`'s frame as it is tracks `g` when its owned
references move with its adoptions. -/
theorem tracks_of_frame {s s' : Sys} {g : Coro} (hfr : s'.frames g = s.frames g)
    (hled : s'.owned g + s.adopted.count g = s.owned g + s'.adopted.count g)
    (hsingle : s'.pending g + activeOf s'.workers g ≤ s.pending g + activeOf s.workers g)
    (hfresh : s.owned g + s.pending g + s.adopted.count g = 0 →
      s'.owned g + s'.pending g + s'.adopted.count g = 0) : Tracks s s' g where
  destroyed := by rw [hfr]
  refCount_freed _ := by rw [hfr]
  ledger := by rw [hfr]; omega
  single := hsingle
  fresh hz := ⟨hfr, hfresh hz⟩

/-- A worker's `Task` of `f` is one of `tasksOf l f`; stated for every `g`, so
that no proof has to split on `f = g` to use it. -/
theorem held_le_tasksOf {l : List WorkerPc} {w : Nat} {pc : WorkerPc} (hw : l[w]? = some pc)
    {f : Coro} (h : pc.task = some f) (g : Coro) : (if f = g then 1 else 0) ≤ tasksOf l g := by
  split_ifs with hg
  · subst hg; exact List.countP_pos_iff.2 ⟨pc, List.getElem?_mem hw, by simp [h]⟩
  · exact Nat.zero_le _

/-- A worker runs only a coroutine whose `Task` it holds. -/
theorem activeOf_le_tasksOf (l : List WorkerPc) (g : Coro) : activeOf l g ≤ tasksOf l g :=
  List.countP_mono_left fun pc _ h => by
    cases pc <;> simp_all [WorkerPc.runs, WorkerPc.task]

-- ---------------------------------------------------------------------------
-- The steps
-- ---------------------------------------------------------------------------

section

variable {s : Sys} {w : Nat} {f : Coro}

/-- `pop_global`: a queued `Task` moves to the worker. -/
theorem inv_pop {rest : List Coro} (hi : Inv s) (hw : s.workers[w]? = some .idle)
    (hq : s.queue = f :: rest) : Inv ({ s with queue := rest }.setWorker w (.popped f)) := by
  refine inv_of hi rfl fun g => ?_
  obtain ⟨ht, hp, ha⟩ := census_set hw (.popped f) g
  have hc : s.queue.count g = rest.count g + if f = g then 1 else 0 := by
    rw [hq, List.count_cons]; simp only [beq_iff_eq]
  simp only [WorkerPc.task, WorkerPc.runs, Option.some.injEq, WorkerPc.popped.injEq,
    reduceCtorEq, if_false] at ht hp ha
  refine tracks_of_frame rfl ?_ ?_ ?_ <;>
    simp only [Sys.setWorker, Sys.owned, Sys.pending] <;> omega

/-- `Task::resume` finds the coroutine done, or its compare-exchange fails:
the `Task` goes on to be dropped unresumed. -/
theorem inv_resume_skip (hi : Inv s) (hw : s.workers[w]? = some (.popped f)) :
    Inv (s.setWorker w (.dropping f)) := by
  refine inv_of hi rfl fun g => ?_
  obtain ⟨ht, hp, ha⟩ := census_set hw (.dropping f) g
  simp only [WorkerPc.task, WorkerPc.runs, Option.some.injEq, WorkerPc.popped.injEq,
    reduceCtorEq, if_false] at ht hp ha
  refine tracks_of_frame rfl ?_ ?_ ?_ <;>
    simp only [Sys.setWorker, Sys.owned, Sys.pending] <;> omega

/-- `Task::resume`'s compare-exchange succeeds: the coroutine runs. -/
theorem inv_resume_run (hi : Inv s) (hw : s.workers[w]? = some (.popped f)) :
    Inv ((s.setFrame f { s.frames f with isRunning := true }).setWorker w (.running f)) := by
  refine inv_of hi rfl fun g => ?_
  have hf := held_le_tasksOf hw rfl g
  obtain ⟨ht, hp, ha⟩ := census_set hw (.running f) g
  simp only [WorkerPc.task, WorkerPc.runs, Option.some.injEq, WorkerPc.popped.injEq,
    reduceCtorEq, if_false] at ht hp ha
  rcases eq_or_ne f g with rfl | hg
  · refine ⟨?_, fun _ => ?_, ?_, ?_, fun hz => ?_⟩ <;>
      simp only [Sys.setWorker, Sys.setFrame, Function.update_same, Sys.owned, Sys.pending,
        if_true] at * <;> omega
  · refine ⟨?_, fun _ => ?_, ?_, ?_, fun hz => ⟨?_, ?_⟩⟩ <;>
      simp only [Sys.setWorker, Sys.setFrame, Function.update_noteq hg.symm, Sys.owned,
        Sys.pending, hg, if_false] at * <;> omega

theorem next_await (s : Sys) (w : Nat) (f : Coro) (a : Await) : (s.await w f a).next = s.next := by
  cases a <;> simp only [Sys.await, Sys.setWorker, Sys.setFrame, foldl_applyEffect]
  cases s.mutex.unlock.2 <;> rfl

/-- The counts under the running coroutine's next await: a read takes a count
for its registration, the other awaits take none, and every coroutine the
mutex or the channel spawns adopts one. -/
theorem inv_await (hi : Inv s) (hw : s.workers[w]? = some (.running f))
    (hnd : (s.frames f).destroyed = false) (a : Await) : Inv (s.await w f a) := by
  refine inv_of hi (next_await s w f a) fun g => ?_
  have hf := held_le_tasksOf hw rfl g
  cases a with
  | io =>
    obtain ⟨ht, hp, ha⟩ := census_set hw (.resumed f) g
    simp only [WorkerPc.task, WorkerPc.runs, Option.some.injEq, reduceCtorEq, if_false] at ht hp ha
    rcases eq_or_ne f g with rfl | hg
    · refine ⟨?_, fun hd => ?_, ?_, ?_, fun hz => ?_⟩ <;>
        simp only [Sys.await, Sys.setWorker, Sys.setFrame, Function.update_same, Sys.owned,
          Sys.pending, List.count_append, List.count_singleton, beq_self_eq_true, hnd,
          Bool.false_eq_true, if_true] at * <;> omega
    · refine ⟨?_, fun _ => ?_, ?_, ?_, fun hz => ⟨?_, ?_⟩⟩ <;>
        simp only [Sys.await, Sys.setWorker, Sys.setFrame, Function.update_noteq hg.symm,
          Sys.owned, Sys.pending, List.count_append, List.count_singleton, beq_iff_eq, hg,
          if_false] at * <;> omega
  | sleep =>
    obtain ⟨ht, hp, ha⟩ := census_set hw (.resumed f) g
    simp only [WorkerPc.task, WorkerPc.runs, Option.some.injEq, reduceCtorEq, if_false] at ht hp ha
    refine tracks_of_frame rfl ?_ ?_ ?_ <;>
      simp only [Sys.await, Sys.setWorker, Sys.owned, Sys.pending, List.count_append,
        List.count_singleton, beq_iff_eq] <;> omega
  | lock =>
    have hm := AsyncMutex.waiters_awaitReady s.mutex
    simp only [Sys.await]
    rcases hr : s.mutex.awaitReady with ⟨m', b⟩
    simp only [hr] at hm
    obtain ⟨ht, hp, ha⟩ := census_set hw (if b then .running f else .locking f) g
    cases b <;> simp only [WorkerPc.task, WorkerPc.runs, Option.some.injEq, reduceCtorEq, if_false, if_true,
      Bool.false_eq_true] at ht hp ha <;>
      refine tracks_of_frame rfl ?_ ?_ ?_ <;>
      simp only [Sys.setWorker, Sys.owned, Sys.pending, hm, Bool.false_eq_true, if_false,
        if_true] <;> omega
  | unlock =>
    have hm := AsyncMutex.waiters_unlock s.mutex
    simp only [Sys.await]
    rcases hr : s.mutex.unlock with ⟨m', o⟩
    simp only [hr] at hm
    obtain ⟨ht, hp, ha⟩ := census_set hw (.running f) g
    simp only [WorkerPc.task, WorkerPc.runs, Option.some.injEq, reduceCtorEq, if_false] at ht hp ha
    cases o <;> refine tracks_of_frame rfl ?_ ?_ ?_ <;>
      simp only [Sys.setWorker, Sys.spawnAdopt, Sys.owned, Sys.pending, hm, Option.toList,
        Option.elim, List.nil_append, List.singleton_append, List.count_cons, List.count_append,
        List.count_singleton, List.count_nil, beq_iff_eq] <;> omega
  | send v =>
    have hc := (Channel.handles_send s.chan f v).count_eq g
    simp only [Sys.await, foldl_applyEffect]
    rcases hr : s.chan.sendAwaitSuspend f v with ⟨ch', res, susp, effs⟩
    simp only [hr, List.count_append] at hc
    obtain ⟨ht, hp, ha⟩ := census_set hw (if susp then .resumed f else .running f) g
    cases susp <;> simp only [WorkerPc.task, WorkerPc.runs, Option.some.injEq, reduceCtorEq, if_false, if_true,
      Bool.false_eq_true, List.count_nil, List.count_singleton, beq_iff_eq] at ht hp ha hc <;>
      refine tracks_of_frame rfl ?_ ?_ ?_ <;>
      simp only [Sys.setWorker, Sys.owned, Sys.pending, List.count_append, List.count_singleton,
        List.count_nil, beq_iff_eq, Bool.false_eq_true, if_false, if_true] <;> omega
  | recv =>
    have hc := (Channel.handles_recv s.chan f).count_eq g
    simp only [Sys.await, foldl_applyEffect]
    rcases hr : s.chan.recvAwaitSuspend f with ⟨ch', res, susp, effs⟩
    simp only [hr, List.count_append] at hc
    obtain ⟨ht, hp, ha⟩ := census_set hw (if susp then .resumed f else .running f) g
    cases susp <;> simp only [WorkerPc.task, WorkerPc.runs, Option.some.injEq, reduceCtorEq, if_false, if_true,
      Bool.false_eq_true, List.count_nil, List.count_singleton, beq_iff_eq] at ht hp ha hc <;>
      refine tracks_of_frame rfl ?_ ?_ ?_ <;>
      simp only [Sys.setWorker, Sys.owned, Sys.pending, List.count_append, List.count_singleton,
        List.count_nil, beq_iff_eq, Bool.false_eq_true, if_false, if_true] <;> omega
  | close =>
    have hc := (Channel.handles_close s.chan).count_eq g
    simp only [Sys.await, foldl_applyEffect]
    rcases hr : s.chan.close with ⟨ch', effs⟩
    simp only [hr, List.count_append] at hc
    obtain ⟨ht, hp, ha⟩ := census_set hw (.running f) g
    simp only [WorkerPc.task, WorkerPc.runs, Option.some.injEq, reduceCtorEq, if_false] at ht hp ha
    refine tracks_of_frame rfl ?_ ?_ ?_ <;>
      simp only [Sys.setWorker, Sys.owned, Sys.pending, List.count_append] <;> omega
  | finish =>
    obtain ⟨ht, hp, ha⟩ := census_set hw (.resumed f) g
    simp only [WorkerPc.task, WorkerPc.runs, Option.some.injEq, reduceCtorEq, if_false] at ht hp ha
    rcases eq_or_ne f g with rfl | hg
    · refine ⟨?_, fun _ => ?_, ?_, ?_, fun hz => ?_⟩ <;>
        simp only [Sys.await, Sys.setWorker, Sys.setFrame, Function.update_same, Sys.owned,
          Sys.pending, if_true] at * <;> omega
    · refine ⟨?_, fun _ => ?_, ?_, ?_, fun hz => ⟨?_, ?_⟩⟩ <;>
        simp only [Sys.await, Sys.setWorker, Sys.setFrame, Function.update_noteq hg.symm,
          Sys.owned, Sys.pending, hg, if_false] at * <;> omega

/-- `LockAwaiter::await_suspend`: the caller queues itself exactly when it
suspends. -/
theorem inv_lockSuspend (hi : Inv s) (hw : s.workers[w]? = some (.locking f)) :
    Inv ({ s with mutex := (s.mutex.awaitSuspend f).1 }.setWorker w
      (if (s.mutex.awaitSuspend f).2 then .resumed f else .running f)) := by
  have hm := AsyncMutex.waiters_awaitSuspend s.mutex f
  rcases hr : s.mutex.awaitSuspend f with ⟨m', b⟩
  simp only [hr] at hm
  refine inv_of hi rfl fun g => ?_
  have hf := held_le_tasksOf hw rfl g
  obtain ⟨ht, hp, ha⟩ := census_set hw (if b then .resumed f else .running f) g
  cases b <;>
    simp only [WorkerPc.task, WorkerPc.runs, Option.some.injEq, reduceCtorEq, if_false, if_true,
      Bool.false_eq_true] at ht hp ha hm <;>
    refine tracks_of_frame rfl ?_ ?_ ?_ <;>
    simp only [Sys.setWorker, Sys.owned, Sys.pending, hm, List.count_append, List.count_singleton,
      List.count_nil, beq_iff_eq, Bool.false_eq_true, if_false, if_true] <;> omega

/-- `resume` returns on a finished coroutine: no store. -/
theorem inv_resumeEnd_done (hi : Inv s) (hw : s.workers[w]? = some (.resumed f)) :
    Inv (s.setWorker w (.dropping f)) := by
  refine inv_of hi rfl fun g => ?_
  obtain ⟨ht, hp, ha⟩ := census_set hw (.dropping f) g
  simp only [WorkerPc.task, WorkerPc.runs, Option.some.injEq, reduceCtorEq, if_false] at ht hp ha
  refine tracks_of_frame rfl ?_ ?_ ?_ <;>
    simp only [Sys.setWorker, Sys.owned, Sys.pending] <;> omega

/-- `resume` returns on a suspended coroutine: `is_running.store(false)`. -/
theorem inv_resumeEnd_store (hi : Inv s) (hw : s.workers[w]? = some (.resumed f)) :
    Inv ((s.setFrame f { s.frames f with isRunning := false }).setWorker w (.dropping f)) := by
  refine inv_of hi rfl fun g => ?_
  have hf := held_le_tasksOf hw rfl g
  obtain ⟨ht, hp, ha⟩ := census_set hw (.dropping f) g
  simp only [WorkerPc.task, WorkerPc.runs, Option.some.injEq, reduceCtorEq, if_false] at ht hp ha
  rcases eq_or_ne f g with rfl | hg
  · refine ⟨?_, fun _ => ?_, ?_, ?_, fun hz => ?_⟩ <;>
      simp only [Sys.setWorker, Sys.setFrame, Function.update_same, Sys.owned, Sys.pending,
        if_true] at * <;> omega
  · refine ⟨?_, fun _ => ?_, ?_, ?_, fun hz => ⟨?_, ?_⟩⟩ <;>
      simp only [Sys.setWorker, Sys.setFrame, Function.update_noteq hg.symm, Sys.owned,
        Sys.pending, hg, if_false] at * <;> omega

/-- `~Task`'s `dec_ref` on a live frame: the count goes down with the `Task`,
and the frame is freed when it reaches zero. -/
theorem inv_drop (hi : Inv s) (hw : s.workers[w]? = some (.dropping f))
    (hnd : (s.frames f).destroyed = false) :
    Inv ((s.setFrame f (s.frames f).decRef).setWorker w .idle) := by
  set s' := (s.setFrame f (s.frames f).decRef).setWorker w .idle with hs'
  have hf : 0 < tasksOf s.workers f := by simpa using held_le_tasksOf hw rfl f
  have hl := hi.ledger f hnd
  have hcounts : ∀ g, s'.owned g + (if f = g then 1 else 0) = s.owned g ∧
      s'.pending g = s.pending g ∧ activeOf s'.workers g = activeOf s.workers g ∧
      s'.adopted.count g = s.adopted.count g := fun g => by
    obtain ⟨ht, hp, ha⟩ := census_set hw .idle g
    simp only [WorkerPc.task, WorkerPc.runs, Option.some.injEq, reduceCtorEq, if_false] at ht hp ha
    refine ⟨?_, ?_, ?_, rfl⟩ <;> simp only [hs', Sys.setWorker, Sys.setFrame, Sys.owned, Sys.pending] <;>
      omega
  have hother : ∀ g, g ≠ f → s'.frames g = s.frames g := fun g hg => by
    simp only [hs', Sys.setWorker, Sys.setFrame, Function.update_noteq hg]
  have hself : s'.frames f = (s.frames f).decRef := by
    simp only [hs', Sys.setWorker, Sys.setFrame, Function.update_same]
  constructor
  case ledger =>
    intro g hd
    have hc := hcounts g
    by_cases hg : g = f
    · subst hg
      rw [hself] at hd ⊢
      simp only [Frame.decRef, if_true, beq_eq_false_iff_ne] at hd hc ⊢
      omega
    · rw [hother g hg] at hd ⊢
      have := hi.ledger g hd
      simp only [Ne.symm hg, if_false] at hc
      omega
  case freed =>
    intro g hd
    have hc := hcounts g
    by_cases hg : g = f
    · subst hg
      rw [hself] at hd
      simp only [Frame.decRef, if_true, beq_iff_eq] at hd hc
      omega
    · rw [hother g hg] at hd
      have := hi.freed g hd
      simp only [Ne.symm hg, if_false] at hc
      omega
  case fresh =>
    intro g hg
    have ⟨hu, hz⟩ := hi.fresh g hg
    have hc := hcounts g
    have hgf : g ≠ f := by rintro rfl; simp only [Sys.owned] at hz; omega
    simp only [Ne.symm hgf, if_false] at hc
    exact ⟨(hother g hgf).trans hu, by omega⟩
  case single =>
    intro g
    have := hcounts g
    have := hi.single g
    omega

/-- The reactor's `io_handler`: a registration's count moves to the queue. -/
theorem inv_fireIo (hi : Inv s) (hf : f ∈ s.regs) :
    Inv { s with regs := s.regs.erase f, queue := s.queue ++ [f] } := by
  have hpos := List.count_pos_iff.2 hf
  refine inv_of hi rfl fun g => ?_
  refine tracks_of_frame rfl ?_ ?_ ?_ <;>
    simp only [Sys.owned, Sys.pending, List.count_append, List.count_singleton, List.count_erase,
      beq_iff_eq] <;> split_ifs <;> subst_vars <;> omega

/-- The reactor spawns an expired timer's address: it adopts a count. -/
theorem inv_fireTimer (hi : Inv s) (hf : f ∈ s.timers) :
    Inv { s.spawnAdopt f with timers := s.timers.erase f } := by
  have hpos := List.count_pos_iff.2 hf
  refine inv_of hi rfl fun g => ?_
  refine tracks_of_frame rfl ?_ ?_ ?_ <;>
    simp only [Sys.spawnAdopt, Sys.owned, Sys.pending, List.count_append, List.count_singleton,
      List.count_erase, beq_iff_eq] <;> split_ifs <;> subst_vars <;> omega

/-- `spawn` of a new coroutine: a fresh frame with one count, held by the
queued `Task`. -/
theorem inv_spawnNew (hi : Inv s) :
    Inv { s.setFrame s.next .fresh with next := s.next + 1, queue := s.queue ++ [s.next] } := by
  have ⟨hu, hz⟩ := hi.fresh s.next (Nat.le_refl _)
  have hact := activeOf_le_tasksOf s.workers s.next
  simp only [Sys.owned, Sys.pending] at hz
  constructor
  case ledger =>
    intro g hd
    by_cases hg : g = s.next
    · subst hg
      simp only [Sys.setFrame, Sys.owned, Function.update_same, Frame.fresh, List.count_append,
        List.count_singleton, beq_self_eq_true, if_true]
      omega
    · simp only [Sys.setFrame, Function.update_noteq hg] at hd ⊢
      have := hi.ledger g hd
      simp only [Sys.owned, List.count_append, List.count_singleton, beq_iff_eq, Ne.symm hg,
        if_false] at this ⊢
      omega
  case freed =>
    intro g hd
    by_cases hg : g = s.next
    · subst hg; simp [Sys.setFrame, Frame.fresh] at hd
    · simp only [Sys.setFrame, Function.update_noteq hg] at hd
      have := hi.freed g hd
      simp only [Sys.setFrame, Sys.owned, List.count_append, List.count_singleton, beq_iff_eq,
        Ne.symm hg, if_false] at this ⊢
      omega
  case fresh =>
    intro g hg
    have hgn : g ≠ s.next := Nat.ne_of_gt hg
    have ⟨hu', hz'⟩ := hi.fresh g (Nat.le_of_succ_le hg)
    refine ⟨by simp only [Sys.setFrame, Function.update_noteq hgn, hu'], ?_⟩
    simp only [Sys.setFrame, Sys.owned, Sys.pending, List.count_append, List.count_singleton,
      beq_iff_eq, Ne.symm hgn, if_false] at hz' ⊢
    omega
  case single =>
    intro g
    have := hi.single g
    simp only [Sys.setFrame, Sys.pending, List.count_append, List.count_singleton,
      beq_iff_eq] at this ⊢
    split_ifs <;> subst_vars <;> omega

end

-- ---------------------------------------------------------------------------
-- Whole runs
-- ---------------------------------------------------------------------------

theorem touch_of_live {s : Sys} {f : Coro} (h : (s.frames f).destroyed = false) : s.touch f = s := by
  simp [Sys.touch, h]

theorem uaf_touch {s : Sys} {f : Coro} (h : s.uaf = true) : (s.touch f).uaf = true := by
  unfold Sys.touch; split <;> simp [h]

theorem uaf_await {s : Sys} {w : Nat} {f : Coro} (h : s.uaf = true) (a : Await) :
    (s.await w f a).uaf = true := by
  cases a <;> simp only [Sys.await, Sys.setWorker, Sys.setFrame, foldl_applyEffect, h, Bool.true_or]
  cases s.mutex.unlock.2 <;> simp [Sys.spawnAdopt, h]

/-- Once a step has touched a freed frame, every later state records it. -/
theorem uaf_step {s s' : Sys} {a : Action} (hs : s.step a = some s') (h : s.uaf = true) :
    s'.uaf = true := by
  cases a <;> simp only [Sys.step] at hs <;> repeat' split at hs
  all_goals first
    | (cases hs; done)
    | (cases hs; simp [Sys.setWorker, Sys.setFrame, Sys.spawnAdopt, h, uaf_touch, uaf_await])

theorem inv_step {s s' : Sys} {a : Action} (hi : Inv s) (hs : s.step a = some s')
    (hu : s'.uaf = false) : Inv s' := by
  cases a with
  | spawnNew => cases hs; exact inv_spawnNew hi
  | pop w =>
    simp only [Sys.step] at hs
    split at hs
    · cases hs; exact inv_pop hi ‹_› ‹_›
    · cases hs
  | resume w =>
    simp only [Sys.step] at hs
    split at hs
    · rename_i f hw
      split_ifs at hs with hd
      · cases hs; simp [Sys.setWorker] at hu
      · cases hs; exact inv_resume_skip hi hw
      · cases hs; exact inv_resume_run hi hw
    · cases hs
  | await w a =>
    simp only [Sys.step] at hs
    split at hs
    · rename_i f hw
      cases hs
      cases hd : (s.frames f).destroyed
      · rw [touch_of_live hd]; exact inv_await hi hw hd a
      · have := uaf_await (s := s.touch f) (w := w) (f := f) (by simp [Sys.touch, hd]) a
        simp [this] at hu
    · cases hs
  | lockSuspend w =>
    simp only [Sys.step] at hs
    split at hs
    · rename_i f hw
      cases hs
      cases hd : (s.frames f).destroyed
      · rw [touch_of_live hd]; exact inv_lockSuspend hi hw
      · simp [Sys.setWorker, Sys.touch, hd] at hu
    · cases hs
  | resumeEnd w =>
    simp only [Sys.step] at hs
    split at hs
    · rename_i f hw
      split_ifs at hs with hd
      · cases hs; simp [Sys.setWorker] at hu
      · cases hs; exact inv_resumeEnd_done hi hw
      · cases hs; exact inv_resumeEnd_store hi hw
    · cases hs
  | drop w =>
    simp only [Sys.step] at hs
    split at hs
    · rename_i f hw
      split_ifs at hs with hd
      · cases hs; simp [Sys.setWorker] at hu
      · cases hs; exact inv_drop hi hw (Bool.eq_false_iff.2 hd)
    · cases hs
  | fireIo f =>
    simp only [Sys.step] at hs
    split_ifs at hs with hf
    cases hs; exact inv_fireIo hi hf
  | fireTimer f =>
    simp only [Sys.step] at hs
    split_ifs at hs with hf
    cases hs; exact inv_fireTimer hi hf

theorem reachable_inv {n k : Nat} {s : Sys} (h : Reachable n k s) (hu : s.uaf = false) : Inv s := by
  induction h with
  | init => exact inv_init n k
  | step a _ hs ih =>
    exact inv_step (ih (Bool.eq_false_iff.2 fun ht => by simp [uaf_step hs ht] at hu)) hs hu

/-- **The runtime's counts.** In every reachable state in which no step has
touched a freed frame, a live frame's count plus its adopted counts is the
number of `Task`s and registrations that own it, a freed frame is owned by no
more references than were adopted for it, and a coroutine has at most one
pending wake-up or running worker. -/
theorem task_accounting {n k : Nat} {s : Sys} (h : Reachable n k s) (hu : s.uaf = false) (f : Coro) :
    ((s.frames f).destroyed = false → (s.frames f).refCount + s.adopted.count f = s.owned f) ∧
    ((s.frames f).destroyed = true → s.owned f ≤ s.adopted.count f) ∧
    s.pending f + activeOf s.workers f ≤ 1 :=
  have hi := reachable_inv h hu
  ⟨hi.ledger f, hi.freed f, hi.single f⟩

/-- A coroutine resumed by worker `0` and suspended on I/O: its count is `2`,
one for the popped `Task` and one for the reactor's registration. -/
theorem task_accounting_io :
    ∃ s, Reachable 2 1 s ∧ s.uaf = false ∧ (s.frames 0).refCount = 2 ∧
      (((s.frames 0).destroyed = false →
          (s.frames 0).refCount + s.adopted.count 0 = s.owned 0) ∧
        ((s.frames 0).destroyed = true → s.owned 0 ≤ s.adopted.count 0) ∧
        s.pending 0 + activeOf s.workers 0 ≤ 1) :=
  have h : Reachable 2 1 _ :=
    .step (.resumeEnd 0) (.step (.await 0 .io) (.step (.resume 0) (.step (.pop 0)
      (.step .spawnNew .init rfl) rfl) rfl) rfl) rfl
  ⟨_, h, rfl, rfl, task_accounting h rfl 0⟩

-- ---------------------------------------------------------------------------
-- A use after free needs an adopting waker
-- ---------------------------------------------------------------------------

/-- A worker holds the `Task` of a freed frame only if a waker adopted a count
for it. -/
theorem adopted_of_held {s : Sys} {w : Nat} {pc : WorkerPc} {f : Coro} (hi : Inv s)
    (hw : s.workers[w]? = some pc) (hpc : pc.task = some f) (hd : (s.frames f).destroyed = true) :
    f ∈ s.adopted := by
  have h1 := hi.freed f hd
  have h2 := held_le_tasksOf hw hpc f
  rw [if_pos rfl] at h2
  exact List.count_pos_iff.1 (by simp only [Sys.owned] at h1; omega)

theorem adopted_await (s : Sys) (w : Nat) (f : Coro) (a : Await) :
    s.adopted <+: (s.await w f a).adopted := by
  cases a <;> simp only [Sys.await, Sys.setWorker, Sys.setFrame, foldl_applyEffect] <;>
    try exact List.prefix_append _ _
  all_goals try exact List.prefix_refl _
  cases s.mutex.unlock.2
  · exact List.prefix_refl _
  · exact List.prefix_append _ _

theorem adopted_touch (s : Sys) (f : Coro) : (s.touch f).adopted = s.adopted := by
  unfold Sys.touch; split <;> rfl

/-- Steps only add to `adopted`. -/
theorem adopted_step {s s' : Sys} {a : Action} (hs : s.step a = some s') : s.adopted <+: s'.adopted := by
  cases a <;> simp only [Sys.step] at hs <;> repeat' split at hs
  all_goals cases hs
  all_goals first
    | exact List.prefix_refl _
    | exact List.prefix_append _ _
    | exact adopted_touch s _ ▸ adopted_await _ _ _ _
    | simp [Sys.setWorker, adopted_touch]

/-- An await of a live coroutine writes into a freed frame only through the
channel, which spawns, and so adopts a count for, every receiver it writes to. -/
theorem adopted_of_uaf_await {s : Sys} {w : Nat} {f : Coro} {a : Await} (hu : s.uaf = false)
    (hu' : (s.await w f a).uaf = true) : (s.await w f a).adopted ≠ [] := by
  have key : ∀ effs : List (Effect Nat), (∀ r v, .deliver r v ∈ effs → r ∈ Channel.spawned effs) →
      (s.uaf || effs.any fun
        | .deliver h _ => (s.frames h).destroyed
        | .spawn _ => false) = true → s.adopted ++ Channel.spawned effs ≠ [] := fun effs hp hany => by
    rw [hu, Bool.false_or] at hany
    obtain ⟨e, he, hd⟩ := List.any_eq_true.1 hany
    cases e with
    | deliver r v => exact fun h => List.ne_nil_of_mem (hp r v he) (List.append_eq_nil.1 h).2
    | spawn h => cases hd
  revert hu'
  cases a <;> simp only [Sys.await, Sys.setWorker, Sys.setFrame, foldl_applyEffect]
  case send x => exact key _ fun _ _ => Channel.spawned_of_deliver.1 f x
  case recv => exact key _ fun _ _ => Channel.spawned_of_deliver.2.1 f
  case close => exact key _ fun _ _ => Channel.spawned_of_deliver.2.2
  case unlock => cases s.mutex.unlock.2 <;> simp [Sys.spawnAdopt, hu]
  all_goals simp [hu]

/-- The step that first touches a freed frame leaves an adopted count behind. -/
theorem adopted_of_uaf_step {s s' : Sys} {a : Action} (hi : Inv s) (hu : s.uaf = false)
    (hs : s.step a = some s') (hu' : s'.uaf = true) : s'.adopted ≠ [] := by
  cases a with
  | await w a =>
    simp only [Sys.step] at hs
    split at hs
    · rename_i f hw
      cases hs
      cases hd : (s.frames f).destroyed
      · rw [touch_of_live hd] at hu' ⊢
        exact adopted_of_uaf_await hu hu'
      · have hf := adopted_of_held hi hw rfl hd
        rw [← adopted_touch s f] at hf
        exact List.ne_nil_of_mem ((adopted_await _ _ _ _).subset hf)
    · cases hs
  | lockSuspend w =>
    simp only [Sys.step] at hs
    split at hs
    · rename_i f hw
      cases hs
      have hd : (s.frames f).destroyed = true := by
        by_contra hd; simp [Sys.setWorker, Sys.touch, hd, hu] at hu'
      have hf := adopted_of_held hi hw rfl hd
      rw [← adopted_touch s f] at hf
      exact List.ne_nil_of_mem hf
    · cases hs
  | resume w | resumeEnd w | drop w =>
    simp only [Sys.step] at hs
    split at hs
    · rename_i f hw
      split_ifs at hs with hd <;> cases hs
      · exact List.ne_nil_of_mem (adopted_of_held (s := s) hi hw rfl hd)
      all_goals simp [Sys.setWorker, Sys.setFrame, hu] at hu'
    · cases hs
  | spawnNew | pop _ | fireIo _ | fireTimer _ =>
    simp only [Sys.step] at hs
    repeat' split at hs
    all_goals cases hs
    all_goals simp [Sys.setWorker, Sys.setFrame, Sys.spawnAdopt, hu] at hu'

/-- **A use after free needs an adopting waker.** In every reachable state in
which some step has read or written a freed frame, some waker has spawned a
coroutine without taking a count for it. So a run in which no timer fires,
`unlock` hands the mutex to nobody and the channel wakes nobody never touches
a freed frame: the `ref_count` taken for each reactor registration keeps
every other frame alive while anything can still reach it. -/
theorem uaf_needs_adoption {n k : Nat} {s : Sys} (h : Reachable n k s) (hu : s.uaf = true) :
    s.adopted ≠ [] := by
  induction h with
  | init => cases hu
  | step a hr hs ih =>
    rename_i s₀ s₁
    cases hu₀ : s₀.uaf
    · exact adopted_of_uaf_step (reachable_inv hr hu₀) hu₀ hs hu
    · exact fun hnil => ih hu₀ (List.eq_nil_of_prefix_nil (hnil ▸ adopted_step hs))

end Runtime

end TinyCoro
