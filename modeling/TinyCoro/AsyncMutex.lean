import Mathlib.Logic.Function.Basic
import Mathlib.Data.List.Nodup
import TinyCoro.Channel

/-!
# TinyCoro — the async mutex

`AsyncMutex` (`include/async_mutex.h`) is a `locked_` flag and a FIFO queue
`waiters_` of parked coroutines, guarded by `wait_mtx_`.
`LockAwaiter::await_ready` and `LockAwaiter::await_suspend` (the double
check) take the lock when it is free; `await_suspend` parks the caller
otherwise. `AsyncMutex::unlock` either clears `locked_` or pops the head of
`waiters_` and spawns it with `locked_` still set — baton passing. Each of the
three runs under `wait_mtx_`, so each is one step.

Ownership leaves the mutex through `LockAwaiter::await_resume`, which builds a
`ScopedLock` with `owns_lock_ = true`; the move constructor hands
`owns_lock_` over and clears it in the source, and the destructor calls
`unlock` iff it owns. `Sys` puts the mutex together with every coroutine's
place in this protocol and every live `ScopedLock`, so that a run is any
interleaving of those steps by any number of coroutines.

Main results:

* `mutex_exclusion_fifo` — in every reachable state at most one holder
  exists (a coroutine between acquisition and `await_resume`, or an owning
  `ScopedLock`), `locked_` is set exactly when one exists, `waiters_` is
  non-empty only while `locked_` is set, acquisitions and unlocks alternate,
  and the coroutines handed the lock by `unlock` are the pushed ones, in push
  order.
-/

namespace TinyCoro

/-- The fields of `AsyncMutex` that `wait_mtx_` guards. -/
structure AsyncMutex where
  locked : Bool
  waiters : List Coro
  deriving DecidableEq, Repr

namespace AsyncMutex

/-- `AsyncMutex(sched)`: unlocked, nobody waiting. -/
def init : AsyncMutex := ⟨false, []⟩

/-- `LockAwaiter::await_ready`: take a free lock (`true`: no suspension). -/
def awaitReady (m : AsyncMutex) : AsyncMutex × Bool :=
  if m.locked then (m, false) else ({ m with locked := true }, true)

/-- `LockAwaiter::await_suspend(h)`: the double check takes a lock freed since
`await_ready` (`false`: cancel the suspension), else `h` is queued (`true`). -/
def awaitSuspend (m : AsyncMutex) (h : Coro) : AsyncMutex × Bool :=
  if m.locked then ({ m with waiters := m.waiters ++ [h] }, true)
  else ({ m with locked := true }, false)

/-- `AsyncMutex::unlock`: clear `locked_` if nobody waits, else pop the head
and return it for `sched_.spawn`, leaving `locked_` set. -/
def unlock (m : AsyncMutex) : AsyncMutex × Option Coro :=
  match m.waiters with
  | [] => ({ m with locked := false }, none)
  | h :: hs => ({ m with waiters := hs }, some h)

theorem waiters_awaitReady (m : AsyncMutex) : m.awaitReady.1.waiters = m.waiters := by
  unfold awaitReady; split <;> rfl

/-- `await_suspend` queues its caller exactly when it suspends. -/
theorem waiters_awaitSuspend (m : AsyncMutex) (h : Coro) :
    (m.awaitSuspend h).1.waiters = m.waiters ++ if (m.awaitSuspend h).2 then [h] else [] := by
  unfold awaitSuspend; split <;> simp

/-- `unlock` hands the head of the queue to `spawn`, if there is one. -/
theorem waiters_unlock (m : AsyncMutex) : m.waiters = m.unlock.2.toList ++ m.unlock.1.waiters := by
  unfold unlock; split <;> simp_all

end AsyncMutex

namespace AsyncMutex

/-- Where a coroutine stands in the lock protocol. -/
inductive Phase where
  /-- Not inside `co_await mutex.lock()`. -/
  | idle
  /-- `await_ready` returned `false`; `await_suspend` comes next. -/
  | ready
  /-- Queued in `waiters_`, suspended. -/
  | parked
  /-- Owns the lock and has not yet run `await_resume`: `await_ready` or the
  double check took it, or `unlock` popped and spawned it. -/
  | acquired
  deriving DecidableEq, Repr

/-- Who can hold the lock: a coroutine in `Phase.acquired`, or a live
`ScopedLock` (at an address) whose `owns_lock_` is set. -/
inductive Holder where
  | coro (h : Coro)
  | guard (g : Nat)
  deriving DecidableEq, Repr

/-- The mutex, every coroutine's phase, the live `ScopedLock` objects
(`some owns_lock_` at a live address), and ghost history: how many
acquisitions and unlocks happened, every push on `waiters_` and every pop by
`unlock`, in order. -/
structure Sys where
  mutex : AsyncMutex
  phase : Coro → Phase
  guards : Nat → Option Bool
  acquisitions : Nat
  unlocks : Nat
  pushed : List Coro
  handedOff : List Coro

def Sys.init : Sys := ⟨AsyncMutex.init, fun _ => .idle, fun _ => none, 0, 0, [], []⟩

/-- One step of one coroutine. -/
inductive Action where
  /-- `LockAwaiter::await_ready` by `h`. -/
  | ready (h : Coro)
  /-- `LockAwaiter::await_suspend(h)`, entered after `await_ready` failed. -/
  | suspend (h : Coro)
  /-- `LockAwaiter::await_resume` by `h`, building a `ScopedLock` at `g`. -/
  | resume (h : Coro) (g : Nat)
  /-- `ScopedLock(ScopedLock&&)`: the lock at `g` moved into a new one at `g'`. -/
  | move (g g' : Nat)
  /-- `~ScopedLock` on the lock at `g`. -/
  | drop (g : Nat)
  deriving DecidableEq, Repr

/-- `~ScopedLock` of an owning lock: `unlock`, then the spawned waiter (if
any) holds the lock. -/
def Sys.release (s : Sys) : Sys :=
  let u := s.mutex.unlock
  { s with
    mutex := u.1
    phase := match u.2 with
      | some w => Function.update s.phase w .acquired
      | none => s.phase
    unlocks := s.unlocks + 1
    acquisitions := s.acquisitions + if u.2.isSome then 1 else 0
    handedOff := s.handedOff ++ u.2.toList }

/-- A step, or `none` when the coroutine or lock object is not where the step
starts. -/
def Sys.step (s : Sys) : Action → Option Sys
  | .ready h =>
    if s.phase h = .idle then
      let r := s.mutex.awaitReady
      some { s with
        mutex := r.1
        phase := Function.update s.phase h (if r.2 then .acquired else .ready)
        acquisitions := s.acquisitions + if r.2 then 1 else 0 }
    else none
  | .suspend h =>
    if s.phase h = .ready then
      let r := s.mutex.awaitSuspend h
      some { s with
        mutex := r.1
        phase := Function.update s.phase h (if r.2 then .parked else .acquired)
        acquisitions := s.acquisitions + if r.2 then 0 else 1
        pushed := s.pushed ++ if r.2 then [h] else [] }
    else none
  | .resume h g =>
    if s.phase h = .acquired ∧ s.guards g = none then
      some { s with
        phase := Function.update s.phase h .idle
        guards := Function.update s.guards g (some true) }
    else none
  | .move g g' =>
    match s.guards g with
    | some o =>
      if s.guards g' = none then
        some { s with guards := Function.update (Function.update s.guards g (some false)) g' (some o) }
      else none
    | none => none
  | .drop g =>
    match s.guards g with
    | some true => some ({ s with guards := Function.update s.guards g none }.release)
    | some false => some { s with guards := Function.update s.guards g none }
    | none => none

inductive Reachable : Sys → Prop where
  | init : Reachable Sys.init
  | step {s s' : Sys} (a : Action) : Reachable s → s.step a = some s' → Reachable s'

/-- Whether `x` holds the lock in `s`. -/
def Holds (s : Sys) : Holder → Prop
  | .coro h => s.phase h = .acquired
  | .guard g => s.guards g = some true

-- ---------------------------------------------------------------------------
-- The invariant
-- ---------------------------------------------------------------------------

/-- The lock is a single token: nowhere when `locked_` is clear, else at
exactly one holder. The other fields tie `waiters_` to the parked coroutines
and to the ghost history. -/
structure Inv (s : Sys) : Prop where
  token : ∃ tok : Option Holder, (∀ x, Holds s x ↔ tok = some x) ∧ s.mutex.locked = tok.isSome
  waiters_locked : s.mutex.waiters ≠ [] → s.mutex.locked = true
  parked_iff : ∀ h, s.phase h = .parked ↔ h ∈ s.mutex.waiters
  nodup : s.mutex.waiters.Nodup
  count : s.acquisitions = s.unlocks + if s.mutex.locked then 1 else 0
  fifo : s.pushed = s.handedOff ++ s.mutex.waiters

theorem inv_init : Inv Sys.init := by
  refine ⟨⟨none, fun x => ?_, rfl⟩, fun h => absurd rfl h, fun h => ?_, List.nodup_nil, rfl, rfl⟩
  · cases x <;> simp [Holds, Sys.init]
  · simp [Sys.init, AsyncMutex.init]

theorem token_of {s : Sys} {tok : Option Holder}
    (hc : ∀ h, s.phase h = .acquired ↔ tok = some (.coro h))
    (hg : ∀ g, s.guards g = some true ↔ tok = some (.guard g)) :
    ∀ x, Holds s x ↔ tok = some x
  | .coro h => hc h
  | .guard g => hg g

/-- Updating one coroutine's phase to a non-parked phase, when it was not
parked, keeps `parked_iff`. -/
theorem parked_iff_update {s : Sys} {h : Coro} {p : Phase} (hp : p ≠ .parked)
    (hh : s.phase h ≠ .parked) (hpk : ∀ h, s.phase h = .parked ↔ h ∈ s.mutex.waiters)
    (h' : Coro) : Function.update s.phase h p h' = .parked ↔ h' ∈ s.mutex.waiters := by
  by_cases e : h' = h
  · subst e; simp only [Function.update_same, hp, false_iff]; exact fun hm => hh ((hpk _).2 hm)
  · rw [Function.update_noteq e]; exact hpk h'

theorem inv_ready {s s' : Sys} {h : Coro} (hi : Inv s) (hs : s.step (.ready h) = some s') :
    Inv s' := by
  obtain ⟨⟨tok, htok, hlk⟩, hwl, hpk, hnd, hct, hff⟩ := hi
  simp only [Sys.step] at hs
  split at hs
  · rename_i hidle
    cases hs
    have hnp : s.phase h ≠ .parked := by simp [hidle]
    cases hl : s.mutex.locked
    · -- the lock is free: `h` takes it
      have htn : tok = none := by cases tok <;> simp_all
      subst htn
      refine ⟨⟨some (.coro h), fun x => ?_, by simp [AsyncMutex.awaitReady, hl]⟩, fun _ => ?_,
        fun h' => ?_, by simpa [AsyncMutex.awaitReady, hl] using hnd, ?_, by simpa [AsyncMutex.awaitReady, hl] using hff⟩
      · cases x with
        | coro h' =>
          by_cases e : h' = h
          · subst e; simp [Holds, AsyncMutex.awaitReady, hl]
          · simpa [Holds, Function.update_noteq e, AsyncMutex.awaitReady, hl, Ne.symm e] using htok (.coro h')
        | guard g => simpa [Holds] using htok (.guard g)
      · simp [AsyncMutex.awaitReady, hl]
      · simpa [AsyncMutex.awaitReady, hl] using parked_iff_update (p := .acquired) (by simp) hnp hpk h'
      · simp [AsyncMutex.awaitReady, hl, hct]
    · -- the lock is taken: `h` moves on to `await_suspend`
      have hu : s.mutex.awaitReady = (s.mutex, false) := by simp [AsyncMutex.awaitReady, hl]
      refine ⟨⟨tok, fun x => ?_, by simp [hu, hlk]⟩, by simpa [hu] using hwl, fun h' => ?_,
        by simpa [hu] using hnd, by simp [hu, hct], by simpa [hu] using hff⟩
      · cases x with
        | coro h' =>
          by_cases e : h' = h
          · subst e
            simpa [Holds, hu, hidle] using htok (.coro h')
          · simpa [Holds, Function.update_noteq e, hu] using htok (.coro h')
        | guard g => simpa [Holds] using htok (.guard g)
      · simpa [hu] using parked_iff_update (p := .ready) (by simp) hnp hpk h'
  · cases hs

theorem inv_suspend {s s' : Sys} {h : Coro} (hi : Inv s) (hs : s.step (.suspend h) = some s') :
    Inv s' := by
  obtain ⟨⟨tok, htok, hlk⟩, hwl, hpk, hnd, hct, hff⟩ := hi
  simp only [Sys.step] at hs
  split at hs
  · rename_i hrdy
    cases hs
    have hnp : s.phase h ≠ .parked := by simp [hrdy]
    cases hl : s.mutex.locked
    · -- the double check finds the lock free: `h` takes it
      have htn : tok = none := by cases tok <;> simp_all
      subst htn
      have hu : s.mutex.awaitSuspend h = ({ s.mutex with locked := true }, false) := by
        simp [AsyncMutex.awaitSuspend, hl]
      refine ⟨⟨some (.coro h), fun x => ?_, by simp [hu]⟩, fun _ => by simp [hu],
        fun h' => by simpa [hu] using parked_iff_update (p := .acquired) (by simp) hnp hpk h',
        by simpa [hu] using hnd, by simp [hu, hl, hct], by simpa [hu] using hff⟩
      cases x with
      | coro h' =>
        by_cases e : h' = h
        · subst e; simp [Holds, hu]
        · simpa [Holds, Function.update_noteq e, hu, Ne.symm e] using htok (.coro h')
      | guard g => simpa [Holds] using htok (.guard g)
    · -- still taken: `h` is queued behind the others
      have hu : s.mutex.awaitSuspend h = ({ s.mutex with waiters := s.mutex.waiters ++ [h] }, true) := by
        simp [AsyncMutex.awaitSuspend, hl]
      have hnm : h ∉ s.mutex.waiters := fun hm => hnp ((hpk h).2 hm)
      refine ⟨⟨tok, fun x => ?_, by rw [hu]; exact hlk⟩, fun _ => by simp [hu, hl],
        fun h' => ?_, by simpa [hu, List.nodup_append] using ⟨hnd, hnm⟩, by simp [hu, hl, hct],
        by simp [hu, hff]⟩
      · cases x with
        | coro h' =>
          by_cases e : h' = h
          · subst e; simpa [Holds, hu, hrdy] using htok (.coro h')
          · simpa [Holds, Function.update_noteq e, hu] using htok (.coro h')
        | guard g => simpa [Holds] using htok (.guard g)
      · by_cases e : h' = h
        · subst e; simp [hu]
        · simp [hu, Function.update_noteq e, hpk h', e]
  · cases hs

theorem inv_resume {s s' : Sys} {h : Coro} {g : Nat} (hi : Inv s)
    (hs : s.step (.resume h g) = some s') : Inv s' := by
  obtain ⟨⟨tok, htok, hlk⟩, hwl, hpk, hnd, hct, hff⟩ := hi
  simp only [Sys.step] at hs
  split at hs
  · rename_i hpre
    cases hs
    obtain ⟨hacq, hfree⟩ := hpre
    -- the token moves from `h` to the new `ScopedLock` at `g`
    have htk : tok = some (.coro h) := (htok (.coro h)).1 hacq
    subst htk
    refine ⟨⟨some (.guard g), fun x => ?_, hlk⟩, hwl, fun h' => ?_, hnd, hct, hff⟩
    · cases x with
      | coro h' =>
        by_cases e : h' = h
        · subst e; simp [Holds]
        · simpa [Holds, Function.update_noteq e, Ne.symm e] using htok (.coro h')
      | guard g' =>
        by_cases e : g' = g
        · subst e; simp [Holds]
        · simpa [Holds, Function.update_noteq e, Ne.symm e] using htok (.guard g')
    · exact parked_iff_update (by simp) (by simp [hacq]) hpk h'
  · cases hs

theorem inv_move {s s' : Sys} {g g' : Nat} (hi : Inv s) (hs : s.step (.move g g') = some s') :
    Inv s' := by
  obtain ⟨⟨tok, htok, hlk⟩, hwl, hpk, hnd, hct, hff⟩ := hi
  simp only [Sys.step] at hs
  split at hs
  · rename_i o ho
    split at hs
    · rename_i hfree
      cases hs
      have hne : g' ≠ g := fun e => by rw [e] at hfree; simp [hfree] at ho
      have hc : ∀ h, s.phase h = .acquired ↔ tok = some (.coro h) := fun h => htok (.coro h)
      have hg : ∀ k, s.guards k = some true ↔ tok = some (.guard k) := fun k => htok (.guard k)
      cases o
      · -- a non-owning lock moves nothing
        have hg' : tok ≠ some (.guard g') := fun e => by simp [(hg g').2 e] at hfree
        have hgg : tok ≠ some (.guard g) := fun e => by simp [(hg g).2 e] at ho
        refine ⟨⟨tok, token_of hc fun k => ?_, hlk⟩, hwl, hpk, hnd, hct, hff⟩
        simp only [Function.update_apply]
        split_ifs with e1 e2
        · subst e1; simpa using hg'
        · subst e2; simpa using hgg
        · exact hg k
      · -- an owning lock hands the token to the new one at `g'`
        have htk : tok = some (.guard g) := (hg g).1 ho
        subst htk
        refine ⟨⟨some (.guard g'), token_of (fun h => by simpa using hc h) fun k => ?_, hlk⟩,
          hwl, hpk, hnd, hct, hff⟩
        simp only [Function.update_apply]
        split_ifs with e1 e2
        · simp [e1]
        · subst e2; simp [Ne.symm e1]
        · simpa [Ne.symm e1, Ne.symm e2] using hg k
    · cases hs
  · cases hs

theorem inv_drop {s s' : Sys} {g : Nat} (hi : Inv s) (hs : s.step (.drop g) = some s') :
    Inv s' := by
  obtain ⟨⟨tok, htok, hlk⟩, hwl, hpk, hnd, hct, hff⟩ := hi
  have hc : ∀ h, s.phase h = .acquired ↔ tok = some (.coro h) := fun h => htok (.coro h)
  have hg : ∀ k, s.guards k = some true ↔ tok = some (.guard k) := fun k => htok (.guard k)
  simp only [Sys.step] at hs
  split at hs
  · -- an owning lock unlocks: the token goes to the head waiter, or nowhere
    rename_i ho
    cases hs
    have htk : tok = some (.guard g) := (hg g).1 ho
    subst htk
    have hl : s.mutex.locked = true := by simpa using hlk
    have hgone : ∀ k, Function.update s.guards g none k ≠ some true := fun k => by
      by_cases e : k = g
      · subst e; simp
      · simpa [Function.update_noteq e, Ne.symm e] using hg k
    cases hw : s.mutex.waiters with
    | nil =>
      have hu : s.mutex.unlock = ({ s.mutex with locked := false }, none) := by
        simp [AsyncMutex.unlock, hw]
      refine ⟨⟨none, token_of (fun h => by simpa [Sys.release, hu] using hc h)
        fun k => by simpa [Sys.release, hu] using hgone k, by simp [Sys.release, hu]⟩,
        fun h => by simp [Sys.release, hu, hw] at h, fun h => by simpa [Sys.release, hu, hw] using hpk h,
        by simp [Sys.release, hu, hw], by simp [Sys.release, hu, hct, hl], by simp [Sys.release, hu, hff, hw]⟩
    | cons w ws =>
      have hu : s.mutex.unlock = ({ s.mutex with waiters := ws }, some w) := by
        simp [AsyncMutex.unlock, hw]
      have hnd' : w ∉ ws ∧ ws.Nodup := List.nodup_cons.1 (hw ▸ hnd)
      refine ⟨⟨some (.coro w), token_of (fun h => ?_) fun k => by simpa [Sys.release, hu] using hgone k,
        by simp [Sys.release, hu, hl]⟩, fun _ => by simp [Sys.release, hu, hl], fun h => ?_,
        by simpa [Sys.release, hu] using hnd'.2, by simp [Sys.release, hu, hct, hl],
        by simp [Sys.release, hu, hff, hw]⟩
      · by_cases e : h = w
        · subst e; simp [Sys.release, hu]
        · simpa [Sys.release, hu, Function.update_noteq e, Ne.symm e] using hc h
      · by_cases e : h = w
        · subst e; simp [Sys.release, hu, hnd'.1]
        · simpa [Sys.release, hu, Function.update_noteq e, hw, e] using hpk h
  · -- a non-owning lock goes away without touching the mutex
    rename_i ho
    cases hs
    have hgg : tok ≠ some (.guard g) := fun e => by simp [(hg g).2 e] at ho
    refine ⟨⟨tok, token_of hc fun k => ?_, hlk⟩, hwl, hpk, hnd, hct, hff⟩
    by_cases e : k = g
    · subst e; simpa using hgg
    · simpa [Function.update_noteq e] using hg k
  · cases hs

theorem inv_step {s s' : Sys} (hi : Inv s) : ∀ {a : Action}, s.step a = some s' → Inv s'
  | .ready _, hs => inv_ready hi hs
  | .suspend _, hs => inv_suspend hi hs
  | .resume _ _, hs => inv_resume hi hs
  | .move _ _, hs => inv_move hi hs
  | .drop _, hs => inv_drop hi hs

theorem reachable_inv {s : Sys} (h : Reachable s) : Inv s := by
  induction h with
  | init => exact inv_init
  | step _ _ hs ih => exact inv_step ih hs

/-- **Mutual exclusion with FIFO baton passing.** In every state reachable by
any interleaving of `await_ready`, `await_suspend` (after a failed
`await_ready`), `await_resume`, `ScopedLock` moves and destructions, by any
number of coroutines: two holders are the same holder (a waiter popped and
spawned by `unlock` holds the lock until its `await_resume` turns it into an
owning `ScopedLock`); `locked_` is set exactly when some holder exists;
`waiters_` is non-empty only while `locked_` is set; the acquisitions so far
are the unlocks so far plus the current hold, so acquisitions and unlocks
alternate and each acquisition is released by one unlock; and the
coroutines `unlock` handed the lock to, followed by those still waiting, are
exactly the pushed ones in push order. -/
theorem mutex_exclusion_fifo {s : Sys} (h : Reachable s) :
    (∀ x y, Holds s x → Holds s y → x = y) ∧
      (s.mutex.locked = true ↔ ∃ x, Holds s x) ∧
      (s.mutex.waiters ≠ [] → s.mutex.locked = true) ∧
      s.acquisitions = s.unlocks + (if s.mutex.locked then 1 else 0) ∧
      s.pushed = s.handedOff ++ s.mutex.waiters := by
  obtain ⟨⟨tok, htok, hlk⟩, hwl, -, -, hct, hff⟩ := reachable_inv h
  refine ⟨fun x y hx hy => ?_, ?_, hwl, hct, hff⟩
  · exact Option.some_injective _ (((htok x).1 hx).symm.trans ((htok y).1 hy))
  · rw [hlk]
    cases tok with
    | none => simp [htok]
    | some t => simp only [Option.isSome_some, true_iff]; exact ⟨t, (htok t).2 rfl⟩

/-- Coroutine `1` holds the lock through its `ScopedLock` `0`; coroutine `2`
waits. -/
theorem mutex_exclusion_fifo_waiting :
    ∃ s, Reachable s ∧ s.mutex.waiters = [2] ∧
      ((∀ x y, Holds s x → Holds s y → x = y) ∧
        (s.mutex.locked = true ↔ ∃ x, Holds s x) ∧
        (s.mutex.waiters ≠ [] → s.mutex.locked = true) ∧
        s.acquisitions = s.unlocks + (if s.mutex.locked then 1 else 0) ∧
        s.pushed = s.handedOff ++ s.mutex.waiters) :=
  have h : Reachable _ :=
    .step (.suspend 2) (.step (.ready 2) (.step (.resume 1 0) (.step (.ready 1) .init rfl) rfl) rfl) rfl
  ⟨_, h, rfl, mutex_exclusion_fifo h⟩

end AsyncMutex

end TinyCoro
