import Mathlib.Logic.Function.Basic
import Mathlib.Data.List.Nodup

/-!
# TinyCoro — spawning, parking and waking

`Scheduler::spawn` (`include/scheduler.h`) pushes a task on the global queue,
then — unless there are no workers — picks a worker round-robin
(`next.fetch_add(1) % workers_.size()`) and calls its `Parker::unpark`. A
worker's `run_once` tries its local deque, the global queue and a steal, then
spins over the global queue 50 times, then calls `Parker::park`
(`include/parker.h`): a compare-exchange `EMPTY → PARKED`, a wait loop while
the state reads `PARKED`, and an unconditional store of `EMPTY`. `unpark`
exchanges the state for `NOTIFIED` and calls `notify_one` if it was `PARKED`.

`Sys` is the scheduler while it runs: the global queue, each worker's
position in `run_once` and its parker state, the round-robin counter, and
the calls to `spawn` in flight (from any thread: the reactor, a task running
on a worker, the main thread). Each step is one atomic access or one critical
section of `GlobalQueue`. The local deque and the steal only decide whether
`run_once` found a task, so their outcome is a free choice here; a task found
is resumed and `run_once` returns.

Main results:

* `no_task_stranded` — with at least one worker, in every reachable state a
  non-empty global queue has some worker whose parker is not `PARKED`, or a
  `spawn` between its push and its `unpark`.
* `spawn_strands_without_workers` — with no worker, one `spawn` leaves a task
  in the global queue with nobody to run it and no `spawn` in flight.
-/

namespace TinyCoro

/-- `Parker::State`. -/
inductive ParkState where
  | empty | parked | notified
  deriving DecidableEq, Repr

namespace Scheduler

/-- Where a worker is in `Worker::run`'s loop body `run_once`. -/
inductive WorkerPc where
  /-- Entering `run_once`: the local pop comes next. -/
  | top
  /-- The local pop missed; `pop_global` comes next. -/
  | afterLocal
  /-- `pop_global` missed; the steal comes next. -/
  | afterGlobal
  /-- The `i`-th of the 50 spinning `pop_global`s comes next. -/
  | spin (i : Nat)
  /-- `park`: the compare-exchange `EMPTY → PARKED` comes next. -/
  | parkCas
  /-- `park`: in the loop `while (state.load() == PARKED) state.wait(PARKED)`. -/
  | waitLoop
  /-- `park`: the final `state.store(EMPTY)` comes next. -/
  | parkStore
  deriving DecidableEq, Repr

/-- Where a call of `Scheduler::spawn` is after its push. -/
inductive SpawnPc where
  /-- Pushed on the global queue; `next.fetch_add` comes next. -/
  | pushed
  /-- Chose worker `w`; its `unpark`'s exchange comes next. -/
  | targeted (w : Nat)
  /-- The exchange found `PARKED`: `notify_one` comes next. -/
  | notifying (w : Nat)
  deriving DecidableEq, Repr

structure Sys where
  queue : List Nat
  parkers : Nat → ParkState
  pcs : Nat → WorkerPc
  next : Nat
  spawns : List SpawnPc

/-- Workers enter `run` with empty parkers. -/
def Sys.init : Sys := ⟨[], fun _ => .empty, fun _ => .top, 0, []⟩

/-- One step of a worker or of a `spawn` in flight. -/
inductive Action where
  /-- A new `spawn` of `task`: `global_queue_.push_ptr`. -/
  | spawn (task : Nat)
  /-- The `i`-th `spawn` in flight picks its worker (or returns, with none). -/
  | fetchAdd (i : Nat)
  /-- The `i`-th `spawn` in flight: `unpark`'s exchange. -/
  | unpark (i : Nat)
  /-- The `i`-th `spawn` in flight: `notify_one`. -/
  | notify (i : Nat)
  /-- Worker `w`'s local pop, hitting or not. -/
  | localPop (w : Nat) (hit : Bool)
  /-- Worker `w`'s `pop_global` (the first one, or a spinning one). -/
  | popGlobal (w : Nat)
  /-- Worker `w`'s steal, hitting or not. -/
  | steal (w : Nat) (hit : Bool)
  | parkCas (w : Nat)
  /-- Worker `w` re-reads its state in the wait loop (after a `notify_one` or
  a spurious wake-up); it can only leave once the state is not `PARKED`. -/
  | waitCheck (w : Nat)
  | parkStore (w : Nat)
  deriving DecidableEq, Repr

/-- `Parker::unpark`'s exchange: the state becomes `NOTIFIED`; the old one
decides whether `notify_one` follows. -/
def unparkExchange (old : ParkState) : ParkState × Bool := (.notified, old == .parked)

/-- Worker `w` moves to `pc`. -/
def Sys.goto (s : Sys) (w : Nat) (pc : WorkerPc) : Sys := { s with pcs := Function.update s.pcs w pc }

/-- `pop_global` by a worker whose next position on a miss is `miss`. -/
def Sys.popGlobal (s : Sys) (w : Nat) (miss : WorkerPc) : Sys :=
  match s.queue with
  | _ :: rest => { s.goto w .top with queue := rest }
  | [] => s.goto w miss

/-- The position after the spinning `pop_global` number `i` misses. -/
def afterSpin (i : Nat) : WorkerPc := if i + 1 < 50 then .spin (i + 1) else .parkCas

/-- A step of the scheduler with `n` workers, or `none` when the actor is not
at that step. -/
def Sys.step (n : Nat) (s : Sys) : Action → Option Sys
  | .spawn task => some { s with queue := s.queue ++ [task], spawns := s.spawns ++ [.pushed] }
  | .fetchAdd i =>
    match s.spawns[i]? with
    | some .pushed =>
      if n = 0 then some { s with spawns := s.spawns.eraseIdx i }
      else some { s with next := s.next + 1, spawns := s.spawns.set i (.targeted (s.next % n)) }
    | _ => none
  | .unpark i =>
    match s.spawns[i]? with
    | some (.targeted w) =>
      let r := unparkExchange (s.parkers w)
      some { s with parkers := Function.update s.parkers w r.1,
                    spawns := if r.2 then s.spawns.set i (.notifying w) else s.spawns.eraseIdx i }
    | _ => none
  | .notify i =>
    match s.spawns[i]? with
    | some (.notifying _) => some { s with spawns := s.spawns.eraseIdx i }
    | _ => none
  | .localPop w hit =>
    if w < n ∧ s.pcs w = .top then some (s.goto w (if hit then .top else .afterLocal)) else none
  | .popGlobal w =>
    if w < n then
      match s.pcs w with
      | .afterLocal => some (s.popGlobal w .afterGlobal)
      | .spin i => some (s.popGlobal w (afterSpin i))
      | _ => none
    else none
  | .steal w hit =>
    if w < n ∧ s.pcs w = .afterGlobal then some (s.goto w (if hit then .top else .spin 0))
    else none
  | .parkCas w =>
    if w < n ∧ s.pcs w = .parkCas then
      if s.parkers w = .empty then
        some { s.goto w .waitLoop with parkers := Function.update s.parkers w .parked }
      else some (s.goto w .parkStore)
    else none
  | .waitCheck w =>
    if w < n ∧ s.pcs w = .waitLoop ∧ s.parkers w ≠ .parked then some (s.goto w .parkStore)
    else none
  | .parkStore w =>
    if w < n ∧ s.pcs w = .parkStore then
      some { s.goto w .top with parkers := Function.update s.parkers w .empty }
    else none

inductive Reachable (n : Nat) : Sys → Prop where
  | init : Reachable n Sys.init
  | step {s s' : Sys} (a : Action) : Reachable n s → s.step n a = some s' → Reachable n s'

/-- A `spawn` that has pushed its task and not yet called `unpark`. -/
def SpawnPc.pending : SpawnPc → Bool
  | .pushed | .targeted _ => true
  | .notifying _ => false

-- ---------------------------------------------------------------------------
-- The invariant
-- ---------------------------------------------------------------------------

/-- Positions from which a worker calls `pop_global` before it can reach
`park`. -/
def WorkerPc.prePop : WorkerPc → Bool
  | .top | .afterLocal | .afterGlobal | .spin _ => true
  | _ => false

/-- A worker that looks at the global queue again before it can block: its
parker is `NOTIFIED` (its next compare-exchange fails), or it has a
`pop_global` ahead of it in this `run_once`. -/
def Alert (s : Sys) (w : Nat) : Prop := s.parkers w = .notified ∨ (s.pcs w).prePop = true

/-- A `PARKED` parker belongs to a worker in the wait loop; `unpark` only
targets workers; and a non-empty global queue has a `spawn` about to
`unpark`, or an alert worker. -/
structure Inv (n : Nat) (s : Sys) : Prop where
  parked_waiting : ∀ w, s.parkers w = .parked → s.pcs w = .waitLoop
  targets_lt : ∀ w, .targeted w ∈ s.spawns → w < n
  awake : s.queue ≠ [] → (∃ sp ∈ s.spawns, sp.pending = true) ∨ ∃ w < n, Alert s w

theorem inv_init (n : Nat) : Inv n Sys.init :=
  ⟨fun _ h => (nomatch h), fun _ h => (nomatch h), fun h => absurd rfl h⟩

@[simp] theorem goto_pcs (s : Sys) (w : Nat) (pc : WorkerPc) :
    (s.goto w pc).pcs = Function.update s.pcs w pc := rfl

@[simp] theorem goto_parkers (s : Sys) (w : Nat) (pc : WorkerPc) :
    (s.goto w pc).parkers = s.parkers := rfl

@[simp] theorem goto_queue (s : Sys) (w : Nat) (pc : WorkerPc) : (s.goto w pc).queue = s.queue := rfl

@[simp] theorem goto_spawns (s : Sys) (w : Nat) (pc : WorkerPc) :
    (s.goto w pc).spawns = s.spawns := rfl

/-- A worker step that leaves the spawns and the other workers alone, keeps
the queue non-empty only if it was, and keeps `w` alert if it was, keeps the
waker. -/
theorem awake_of_worker_step {n : Nat} {s s' : Sys} {w : Nat}
    (hq : s'.queue ≠ [] → s.queue ≠ []) (hsp : s'.spawns = s.spawns)
    (hother : ∀ w', w' ≠ w → Alert s w' → Alert s' w') (hself : Alert s w → Alert s' w)
    (hi : s.queue ≠ [] → (∃ sp ∈ s.spawns, sp.pending = true) ∨ ∃ w < n, Alert s w) :
    s'.queue ≠ [] → (∃ sp ∈ s'.spawns, sp.pending = true) ∨ ∃ w < n, Alert s' w := by
  intro hne
  rcases hi (hq hne) with hp | ⟨w', hw', ha⟩
  · exact .inl (hsp ▸ hp)
  · by_cases e : w' = w
    · subst e; exact .inr ⟨w', hw', hself ha⟩
    · exact .inr ⟨w', hw', hother w' e ha⟩

/-- Moving worker `w` to another position leaves every other worker alone. -/
theorem alert_goto_other {s : Sys} {w w' : Nat} {pc : WorkerPc} (e : w' ≠ w) :
    Alert (s.goto w pc) w' ↔ Alert s w' := by
  simp [Alert, Function.update_noteq e]

/-- A worker that ends a step with a `pop_global` ahead of it is a waker. -/
theorem awake_of_prePop {n : Nat} {s : Sys} {w : Nat} (hw : w < n) (hpc : (s.pcs w).prePop = true) :
    s.queue ≠ [] → (∃ sp ∈ s.spawns, sp.pending = true) ∨ ∃ w < n, Alert s w :=
  fun _ => .inr ⟨w, hw, .inr hpc⟩

/-- Replacing or removing the entry at `i` keeps every other value. -/
theorem mem_set_of_ne {l : List SpawnPc} {i : Nat} {x y z : SpawnPc} (hi : l[i]? = some x)
    (hy : y ∈ l) (e : y ≠ x) : y ∈ l.set i z ∧ y ∈ l.eraseIdx i := by
  obtain ⟨j, hj⟩ := List.mem_iff_getElem?.1 hy
  have hji : j ≠ i := fun h => e (Option.some_injective _ (by rw [← hj, ← hi, h]))
  exact ⟨List.mem_iff_getElem?.2 ⟨j, by rw [List.getElem?_set_ne (Ne.symm hji), hj]⟩,
    List.mem_eraseIdx_iff_getElem?.2 ⟨j, hji, hj⟩⟩

theorem inv_spawn {n : Nat} {s : Sys} (hi : Inv n s) (task : Nat) :
    Inv n { s with queue := s.queue ++ [task], spawns := s.spawns ++ [.pushed] } :=
  ⟨hi.parked_waiting, fun w hw => by
    rcases List.mem_append.1 hw with h | h
    · exact hi.targets_lt w h
    · simp at h,
    fun _ => .inl ⟨.pushed, by simp, rfl⟩⟩

/-- `fetch_add` turns a pending `spawn` into one targeting `next % n`, which
is still pending. -/
theorem inv_fetchAdd {n : Nat} {s s' : Sys} {i : Nat} (hn : 0 < n) (hi : Inv n s)
    (hs : s.step n (.fetchAdd i) = some s') : Inv n s' := by
  simp only [Sys.step] at hs
  split at hs
  · rename_i hsp
    rw [if_neg (by omega)] at hs
    cases hs
    have hlen : i < s.spawns.length := (List.getElem?_eq_some_iff.1 hsp).1
    refine ⟨hi.parked_waiting, fun w hw => ?_, fun _ => .inl ⟨_, List.mem_set _ _ hlen _, rfl⟩⟩
    rcases List.mem_or_eq_of_mem_set hw with h | h
    · exact hi.targets_lt w h
    · cases h; exact Nat.mod_lt _ hn
  · cases hs

/-- `unpark`'s exchange makes its target `NOTIFIED`, hence alert. -/
theorem inv_unpark {n : Nat} {s s' : Sys} {i : Nat} (hi : Inv n s)
    (hs : s.step n (.unpark i) = some s') : Inv n s' := by
  simp only [Sys.step] at hs
  split at hs
  · rename_i w hsp
    cases hs
    have hw : w < n := hi.targets_lt w (List.mem_iff_getElem?.2 ⟨i, hsp⟩)
    refine ⟨fun w' h => ?_, fun w' hw' => ?_, fun _ => .inr ⟨w, hw, .inl (by simp [unparkExchange])⟩⟩
    · by_cases e : w' = w
      · subst e; simp [unparkExchange] at h
      · exact hi.parked_waiting w' (by simpa [Function.update_noteq e] using h)
    · split at hw'
      · rcases List.mem_or_eq_of_mem_set hw' with h | h
        · exact hi.targets_lt w' h
        · cases h
      · exact hi.targets_lt w' (List.mem_of_mem_eraseIdx hw')
  · cases hs

/-- `notify_one` ends a `spawn` that is no longer pending. -/
theorem inv_notify {n : Nat} {s s' : Sys} {i : Nat} (hi : Inv n s)
    (hs : s.step n (.notify i) = some s') : Inv n s' := by
  simp only [Sys.step] at hs
  split at hs
  · rename_i w hsp
    cases hs
    refine ⟨hi.parked_waiting, fun w' hw' => hi.targets_lt w' (List.mem_of_mem_eraseIdx hw'),
      fun hne => ?_⟩
    rcases hi.awake hne with ⟨sp, hm, hp⟩ | h
    · refine .inl ⟨sp, (mem_set_of_ne (z := sp) hsp hm fun e => ?_).2, hp⟩
      subst e; simp [SpawnPc.pending] at hp
    · exact .inr h
  · cases hs

/-- A worker outside the wait loop moving elsewhere keeps `parked_waiting`. -/
theorem parked_waiting_goto {s : Sys} {w : Nat} {pc : WorkerPc}
    (h : ∀ w, s.parkers w = .parked → s.pcs w = .waitLoop) (hw : s.pcs w ≠ .waitLoop) :
    ∀ w', (s.goto w pc).parkers w' = .parked → (s.goto w pc).pcs w' = .waitLoop := by
  intro w' hp
  by_cases e : w' = w
  · subst e; exact absurd (h w' hp) hw
  · simpa [Function.update_noteq e] using h w' hp

/-- A worker step ending with a `pop_global` ahead of the worker. -/
theorem inv_goto_prePop {n : Nat} {s : Sys} {w : Nat} {pc : WorkerPc} (hi : Inv n s)
    (hw : w < n) (hwl : s.pcs w ≠ .waitLoop) (hpc : pc.prePop = true) : Inv n (s.goto w pc) :=
  ⟨parked_waiting_goto hi.parked_waiting hwl, hi.targets_lt,
    awake_of_prePop hw (by simpa using hpc)⟩

theorem inv_popGlobal {n : Nat} {s : Sys} {w : Nat} (miss : WorkerPc) (hi : Inv n s)
    (hw : w < n) (hwl : s.pcs w ≠ .waitLoop) : Inv n (s.popGlobal w miss) := by
  unfold Sys.popGlobal
  split
  · exact ⟨parked_waiting_goto hi.parked_waiting hwl, hi.targets_lt,
      awake_of_prePop (s := { s.goto w .top with queue := _ }) hw (by simp [WorkerPc.prePop])⟩
  · rename_i hq
    exact ⟨parked_waiting_goto hi.parked_waiting hwl, hi.targets_lt, fun h => absurd hq h⟩

theorem inv_step {n : Nat} {s s' : Sys} {a : Action} (hn : 0 < n) (hi : Inv n s)
    (hs : s.step n a = some s') : Inv n s' := by
  cases a with
  | spawn t => cases hs; exact inv_spawn hi t
  | fetchAdd i => exact inv_fetchAdd hn hi hs
  | unpark i => exact inv_unpark hi hs
  | notify i => exact inv_notify hi hs
  | localPop w hit =>
    simp only [Sys.step] at hs
    split at hs
    · rename_i h
      cases hs
      exact inv_goto_prePop hi h.1 (by simp [h.2]) (by cases hit <;> rfl)
    · cases hs
  | popGlobal w =>
    simp only [Sys.step] at hs
    split at hs
    · rename_i hw
      split at hs <;> (try cases hs) <;> rename_i hpc
      · exact inv_popGlobal _ hi hw (by simp [hpc])
      · exact inv_popGlobal _ hi hw (by simp [hpc])
    · cases hs
  | steal w hit =>
    simp only [Sys.step] at hs
    split at hs
    · rename_i h
      cases hs
      exact inv_goto_prePop hi h.1 (by simp [h.2]) (by cases hit <;> rfl)
    · cases hs
  | parkCas w =>
    simp only [Sys.step] at hs
    split at hs
    · rename_i h
      have hnot : Alert s w → s.parkers w = .notified := by
        rintro (h' | h')
        · exact h'
        · simp [h.2, WorkerPc.prePop] at h'
      split at hs
      · -- `EMPTY → PARKED`: this worker was not the waker
        rename_i he
        cases hs
        refine ⟨fun w' hp => ?_, hi.targets_lt, awake_of_worker_step (s := s) (w := w) (fun h => h)
          rfl (fun w' e ha => ?_) (fun ha => ?_) hi.awake⟩
        · by_cases e : w' = w
          · subst e; simp
          · simpa [Function.update_noteq e] using hi.parked_waiting w' (by
              simpa [Function.update_noteq e] using hp)
        · simpa [Alert, Function.update_noteq e] using ha
        · have := hnot ha; rw [he] at this; cases this
      · cases hs
        exact ⟨parked_waiting_goto hi.parked_waiting (by simp [h.2]), hi.targets_lt,
          awake_of_worker_step (s := s) (w := w) (fun h => h) rfl (fun w' e => (alert_goto_other e).2)
            (fun ha => .inl (hnot ha)) hi.awake⟩
    · cases hs
  | waitCheck w =>
    simp only [Sys.step] at hs
    split at hs
    · rename_i h
      cases hs
      refine ⟨fun w' hp => ?_, hi.targets_lt, awake_of_worker_step (s := s) (w := w) (fun h => h) rfl
        (fun w' e => (alert_goto_other e).2) (fun ha => ?_) hi.awake⟩
      · by_cases e : w' = w
        · subst e; exact absurd hp h.2.2
        · simpa [Function.update_noteq e] using hi.parked_waiting w' hp
      · rcases ha with hn | hn
        · exact .inl hn
        · simp [h.2.1, WorkerPc.prePop] at hn
    · cases hs
  | parkStore w =>
    simp only [Sys.step] at hs
    split at hs
    · rename_i h
      cases hs
      refine ⟨fun w' hp => ?_, hi.targets_lt, awake_of_prePop (w := w) h.1 (by simp [WorkerPc.prePop])⟩
      by_cases e : w' = w
      · subst e; simp at hp
      · simpa [Function.update_noteq e] using hi.parked_waiting w' (by
          simpa [Function.update_noteq e] using hp)
    · cases hs

theorem reachable_inv {n : Nat} (hn : 0 < n) {s : Sys} (h : Reachable n s) : Inv n s := by
  induction h with
  | init => exact inv_init n
  | step _ _ hs ih => exact inv_step hn ih hs

-- ---------------------------------------------------------------------------
-- No task is stranded by parking
-- ---------------------------------------------------------------------------

/-- **No task is stranded by parking** (for a scheduler with workers). In
every state reachable from workers entering `run` by any interleaving of
`spawn`s and `run_once` steps, a non-empty global queue has a worker whose
parker is not `PARKED` — so it is not blocked in `park`'s wait loop — or a
`spawn` that has pushed its task and not yet called `unpark`. -/
theorem no_task_stranded (n : Nat) (hn : 0 < n) (s : Sys) (h : Reachable n s)
    (hq : s.queue ≠ []) :
    (∃ w < n, s.parkers w ≠ .parked) ∨ ∃ sp ∈ s.spawns, sp.pending = true := by
  have hi := reachable_inv hn h
  rcases hi.awake hq with hp | ⟨w, hw, ha⟩
  · exact .inr hp
  · refine .inl ⟨w, hw, fun hpk => ?_⟩
    have hwl := hi.parked_waiting w hpk
    rcases ha with hno | hpre
    · rw [hpk] at hno; cases hno
    · rw [hwl] at hpre; cases hpre

theorem no_task_stranded_after_spawn :
    0 < 1 ∧ Reachable 1 ((Sys.init.step 1 (.spawn 7)).getD Sys.init) ∧
      ((Sys.init.step 1 (.spawn 7)).getD Sys.init).queue ≠ [] ∧
      ((∃ w < 1, ((Sys.init.step 1 (.spawn 7)).getD Sys.init).parkers w ≠ .parked) ∨
        ∃ sp ∈ ((Sys.init.step 1 (.spawn 7)).getD Sys.init).spawns, sp.pending = true) :=
  ⟨by decide, .step (.spawn 7) .init rfl, by simp [Sys.step, Sys.init],
    no_task_stranded 1 (by decide) _ (.step (.spawn 7) .init rfl) (by simp [Sys.step, Sys.init])⟩

/-- **Without workers a spawned task is stranded.** `Scheduler(0)` is
constructible (`std::thread::hardware_concurrency()` may return `0`); there
`spawn` pushes its task and returns without waking anybody, since
`workers_` is empty. The reachable state has the task in the global queue,
no worker, and no `spawn` in flight. -/
theorem spawn_strands_without_workers :
    ¬ ∀ s, Reachable 0 s → s.queue ≠ [] →
      (∃ w < 0, s.parkers w ≠ .parked) ∨ ∃ sp ∈ s.spawns, sp.pending = true := by
  intro h
  have hr : Reachable 0 ⟨[7], fun _ => .empty, fun _ => .top, 0, []⟩ :=
    .step (.fetchAdd 0) (.step (.spawn 7) .init rfl) rfl
  rcases h _ hr (by simp) with ⟨w, hw, -⟩ | ⟨sp, hsp, -⟩
  · exact absurd hw (Nat.not_lt_zero w)
  · simp at hsp

-- ---------------------------------------------------------------------------
-- Stealing from the other workers
-- ---------------------------------------------------------------------------

/-- The workers `Scheduler::steal`'s loop visits, in order: `(start + i) % n`
for `i = 0, …, n - 1`. -/
def stealOrder (n start : Nat) : List Nat := (List.range n).map fun i => (start + i) % n

/-- The loop `if (auto t = workers_[idx]->steal()) return t;` over the workers
`idxs`: the workers whose `Worker::steal` it calls, in order, and the task it
returns, the first one a call gives. `stealFrom idx` is what
`workers_[idx]->steal()` returns. -/
def stealLoop {α : Type} (stealFrom : Nat → Option α) : List Nat → List Nat × Option α
  | [] => ([], none)
  | idx :: rest =>
    match stealFrom idx with
    | some t => ([idx], some t)
    | none => ((idx :: (stealLoop stealFrom rest).1), (stealLoop stealFrom rest).2)

/-- `Scheduler::steal`: with one worker or none, `std::nullopt` and no call;
otherwise the loop over `stealOrder n start`, where `start` is drawn from
`0 … n - 1`. The workers called, and the task returned. -/
def steal {α : Type} (n start : Nat) (stealFrom : Nat → Option α) : List Nat × Option α :=
  if n ≤ 1 then ([], none) else stealLoop stealFrom (stealOrder n start)

section StealLoop

variable {α : Type} (stealFrom : Nat → Option α)

/-- The loop calls the workers of a prefix of its list. -/
theorem stealLoop_fst_isPrefix (idxs : List Nat) : (stealLoop stealFrom idxs).1 <+: idxs := by
  induction idxs with
  | nil => exact List.nil_prefix
  | cons idx rest ih =>
    simp only [stealLoop]
    split
    · exact ⟨rest, rfl⟩
    · exact List.prefix_cons_inj idx |>.2 ih

/-- The loop returns the first task a call gives. -/
theorem stealLoop_snd (idxs : List Nat) : (stealLoop stealFrom idxs).2 = idxs.findSome? stealFrom := by
  induction idxs with
  | nil => rfl
  | cons idx rest ih =>
    simp only [stealLoop, List.findSome?_cons]
    split <;> simp_all

/-- A loop that finds nothing has called every worker of its list. -/
theorem stealLoop_fst_of_none (idxs : List Nat) (h : (stealLoop stealFrom idxs).2 = none) :
    (stealLoop stealFrom idxs).1 = idxs := by
  induction idxs with
  | nil => rfl
  | cons idx rest ih =>
    simp only [stealLoop] at h ⊢
    split at h
    · cases h
    · rw [ih h]

/-- A loop that returns a task got it from the last worker it called; every
earlier call gave nothing. -/
theorem stealLoop_of_some (idxs : List Nat) {t : α} (h : (stealLoop stealFrom idxs).2 = some t) :
    ∃ pre idx, (stealLoop stealFrom idxs).1 = pre ++ [idx] ∧ stealFrom idx = some t ∧
      ∀ j ∈ pre, stealFrom j = none := by
  induction idxs with
  | nil => cases h
  | cons idx rest ih =>
    simp only [stealLoop] at h ⊢
    split at h
    next t' ht =>
      cases h
      exact ⟨[], idx, rfl, ht, fun _ hj => nomatch hj⟩
    next hn =>
      obtain ⟨pre, j, hp, hj, hpre⟩ := ih h
      refine ⟨idx :: pre, j, by rw [hp]; rfl, hj, fun k hk => ?_⟩
      rcases List.mem_cons.1 hk with rfl | hk
      · exact hn
      · exact hpre k hk

end StealLoop

/-- Below `n`, `(start + i) % n` wraps at most once. -/
theorem add_mod_of_lt {n start i : Nat} (hs : start < n) (hi : i < n) :
    (start + i) % n = if start + i < n then start + i else start + i - n := by
  split_ifs with h
  · exact Nat.mod_eq_of_lt h
  · rw [Nat.mod_eq_sub_mod (by omega), Nat.mod_eq_of_lt (by omega)]

/-- From any start the random draw can give, the order visited is a rotation
of the workers: each one exactly once. -/
theorem stealOrder_perm {n start : Nat} (hs : start < n) :
    (stealOrder n start).Perm (List.range n) := by
  refine (List.perm_ext_iff_of_nodup ?_ (List.nodup_range n)).2 fun idx => ?_
  · refine (List.nodup_range n).map_on fun i hi j hj e => ?_
    rw [List.mem_range] at hi hj
    rw [add_mod_of_lt hs hi, add_mod_of_lt hs hj] at e
    split_ifs at e <;> omega
  · simp only [stealOrder, List.mem_map, List.mem_range]
    constructor
    · rintro ⟨i, -, rfl⟩
      exact Nat.mod_lt _ (by omega)
    · intro hidx
      have hi : (if start ≤ idx then idx - start else idx + n - start) < n := by
        split_ifs <;> omega
      refine ⟨_, hi, ?_⟩
      rw [add_mod_of_lt hs hi]
      split_ifs <;> omega

/-- **`Scheduler::steal` calls each worker at most once.** With at least two
workers and any start the random draw can give, `steal` calls the workers of a
prefix of the rotation from `start`: no worker's `Worker::steal` twice, and
only workers `0 … n - 1`. It comes back empty
exactly when every worker's `Worker::steal` gives nothing, and then it has
called every worker exactly once, the caller's own deque among them. When it
returns a task, that task is what the last worker it called gave, and every
earlier call gave nothing. -/
theorem steal_tries_every_worker {α : Type} (n start : Nat) (stealFrom : Nat → Option α)
    (hn : 2 ≤ n) (hs : start < n) {tried : List Nat} {res : Option α}
    (h : steal n start stealFrom = (tried, res)) :
    tried <+: stealOrder n start ∧ tried.Nodup ∧ (∀ idx ∈ tried, idx < n) ∧ (res = none ↔ ∀ idx < n, stealFrom idx = none) ∧
      (res = none → tried.Perm (List.range n)) ∧
      ∀ t, res = some t →
        ∃ pre idx, tried = pre ++ [idx] ∧ stealFrom idx = some t ∧ ∀ j ∈ pre, stealFrom j = none := by
  rw [steal, if_neg (by omega)] at h
  obtain ⟨rfl, rfl⟩ := Prod.ext_iff.1 h
  have hp := stealOrder_perm hs
  have hpre := stealLoop_fst_isPrefix stealFrom (stealOrder n start)
  refine ⟨hpre, (hp.nodup_iff.2 (List.nodup_range n)).sublist hpre.sublist,
    fun idx hidx => List.mem_range.1 (hp.subset (hpre.subset hidx)), ?_,
    fun h => by rw [stealLoop_fst_of_none _ _ h]; exact hp, fun t => stealLoop_of_some _ _⟩
  rw [stealLoop_snd, List.findSome?_eq_none_iff]
  simp only [hp.mem_iff, List.mem_range]

theorem steal_tries_every_worker_two :
    2 ≤ 2 ∧ 1 < 2 ∧ steal 2 1 (fun idx => if idx = 0 then some 7 else none) = ([1, 0], some 7) ∧
      [1, 0] <+: stealOrder 2 1 ∧ [1, 0].Nodup ∧ (∀ idx ∈ [1, 0], idx < 2) ∧
        (some 7 = none ↔ ∀ idx < 2, (if idx = 0 then some 7 else none : Option Nat) = none) ∧
        (some 7 = none → [1, 0].Perm (List.range 2)) ∧
        ∀ t, some 7 = some t → ∃ pre idx, [1, 0] = pre ++ [idx] ∧
          (if idx = 0 then some 7 else none : Option Nat) = some t ∧
          ∀ j ∈ pre, (if j = 0 then some 7 else none : Option Nat) = none :=
  ⟨le_rfl, by decide, rfl, steal_tries_every_worker 2 1 _ le_rfl (by decide) rfl⟩

end Scheduler

end TinyCoro
