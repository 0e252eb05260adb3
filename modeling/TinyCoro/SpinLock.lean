import Mathlib.Logic.Function.Basic

/-!
# TinyCoro — the spin lock

`SpinLock` (`include/spinlock.h`) is one atomic flag `lock_`. `lock()` loops:
an `exchange(true)` that returns `false` acquires the lock; otherwise it
spins on `load()` until the flag reads `false`, then tries the exchange
again. `unlock()` stores `false`; used through `std::lock_guard`, only the
thread that holds the lock calls it.

`Sys` is the flag and every thread's position. Each step is one atomic access
of one thread, so a run is any interleaving of any number of threads.

Main results:

* `spinlock_exclusion` — in every reachable state at most one thread holds
  the lock, and the flag is set exactly when one does.
-/

namespace TinyCoro

namespace SpinLock

/-- Where a thread is in `lock()` and `unlock()`. -/
inductive Pc where
  /-- Outside the lock. -/
  | idle
  /-- In `lock()`: the `exchange(true)` comes next. -/
  | exchange
  /-- In `lock()`'s inner loop: the `load()` comes next. -/
  | spin
  /-- `lock()` returned: in the critical section, `unlock()` comes next. -/
  | holding
  deriving DecidableEq, Repr

/-- The flag `lock_` and every thread's position. -/
structure Sys where
  flag : Bool
  pcs : Nat → Pc

/-- `lock_ = {false}`, every thread outside. -/
def Sys.init : Sys := ⟨false, fun _ => .idle⟩

/-- One atomic access of thread `t`. -/
inductive Action where
  /-- Thread `t` calls `lock()`. -/
  | lock (t : Nat)
  | exchange (t : Nat)
  | load (t : Nat)
  | unlock (t : Nat)
  deriving DecidableEq, Repr

/-- Thread `t` moves to `pc`. -/
def Sys.goto (s : Sys) (t : Nat) (pc : Pc) : Sys := { s with pcs := Function.update s.pcs t pc }

/-- The next access of thread `t`; `none` when it is not at that access. -/
def Sys.step (s : Sys) : Action → Option Sys
  | .lock t => if s.pcs t = .idle then some (s.goto t .exchange) else none
  | .exchange t =>
    if s.pcs t = .exchange then
      some { s.goto t (if s.flag then .spin else .holding) with flag := true }
    else none
  | .load t =>
    if s.pcs t = .spin then some (s.goto t (if s.flag then .spin else .exchange)) else none
  | .unlock t => if s.pcs t = .holding then some { s.goto t .idle with flag := false } else none

inductive Reachable : Sys → Prop where
  | init : Reachable Sys.init
  | step {s s' : Sys} (a : Action) : Reachable s → s.step a = some s' → Reachable s'

@[simp] theorem goto_pcs_self (s : Sys) (t : Nat) (pc : Pc) : (s.goto t pc).pcs t = pc :=
  Function.update_same _ _ _

theorem goto_pcs_of_ne (s : Sys) {t u : Nat} (pc : Pc) (h : u ≠ t) :
    (s.goto t pc).pcs u = s.pcs u :=
  Function.update_noteq h _ _

/-- Mutual exclusion, and the flag set exactly when some thread holds the lock. -/
structure Inv (s : Sys) : Prop where
  single : ∀ t u, s.pcs t = .holding → s.pcs u = .holding → t = u
  flag : s.flag = true ↔ ∃ t, s.pcs t = .holding

theorem inv_init : Inv Sys.init := ⟨fun _ _ h => by simp [Sys.init] at h, by simp [Sys.init]⟩

/-- A thread that moves to a position other than `holding`, from one other
than `holding`: the holders stay as they were. -/
theorem inv_goto {s : Sys} {t : Nat} {pc : Pc} (hi : Inv s) (hne : pc ≠ .holding)
    (hold : s.pcs t ≠ .holding) : Inv (s.goto t pc) := by
  have hpc : ∀ u, (s.goto t pc).pcs u = .holding ↔ s.pcs u = .holding := fun u => by
    by_cases e : u = t
    · subst e; simp [hne, hold]
    · rw [goto_pcs_of_ne _ _ e]
  exact ⟨fun u v hu hv => hi.single u v ((hpc u).1 hu) ((hpc v).1 hv),
    hi.flag.trans (exists_congr fun u => (hpc u).symm)⟩

/-- The exchange reads `false`: nobody holds the lock, and `t` takes it. -/
theorem inv_acquire {s : Sys} {t : Nat} (hi : Inv s) (hf : s.flag = false) :
    Inv { s.goto t .holding with flag := true } := by
  have hown : ∀ w, (s.goto t .holding).pcs w = .holding → w = t := fun w hw => by
    by_contra e
    rw [goto_pcs_of_ne _ _ e] at hw
    simpa [hf] using hi.flag.2 ⟨w, hw⟩
  exact ⟨fun u v hu hv => (hown u hu).trans (hown v hv).symm,
    ⟨fun _ => ⟨t, goto_pcs_self _ _ _⟩, fun _ => rfl⟩⟩

/-- The exchange reads `true`: `t` spins, and the holder keeps the lock. -/
theorem inv_contend {s : Sys} {t : Nat} (hi : Inv s) (hf : s.flag = true)
    (ht : s.pcs t = .exchange) : Inv { s.goto t .spin with flag := true } := by
  have hi' := @inv_goto s t .spin hi (by decide) (by simp [ht])
  exact ⟨hi'.single, ⟨fun _ => hi'.flag.1 hf, fun _ => rfl⟩⟩

/-- `unlock()` by the holder: nobody holds the lock any more. -/
theorem inv_release {s : Sys} {t : Nat} (hi : Inv s) (ht : s.pcs t = .holding) :
    Inv { s.goto t .idle with flag := false } := by
  have hnone : ∀ u, (s.goto t .idle).pcs u ≠ .holding := fun u hu => by
    by_cases e : u = t
    · subst e; simp at hu
    · rw [goto_pcs_of_ne _ _ e] at hu
      exact e (hi.single u t hu ht)
  exact ⟨fun u _ hu _ => absurd hu (hnone u),
    ⟨(fun h => nomatch h), fun ⟨u, hu⟩ => absurd hu (hnone u)⟩⟩

theorem inv_step {s s' : Sys} {a : Action} (hi : Inv s) (h : s.step a = some s') : Inv s' := by
  cases a with
  | lock t =>
    simp only [Sys.step] at h
    split_ifs at h with ht
    cases h
    exact inv_goto hi (by decide) (by simp [ht])
  | exchange t =>
    simp only [Sys.step] at h
    by_cases ht : s.pcs t = .exchange
    · rw [if_pos ht] at h
      cases h
      cases hf : s.flag
      · simpa only [hf, if_false, Bool.false_eq_true] using inv_acquire hi hf
      · simpa only [hf, if_true] using inv_contend hi hf ht
    · rw [if_neg ht] at h
      cases h
  | load t =>
    simp only [Sys.step] at h
    by_cases ht : s.pcs t = .spin
    · rw [if_pos ht] at h
      cases h
      exact inv_goto hi (by split <;> decide) (by simp [ht])
    · rw [if_neg ht] at h
      cases h
  | unlock t =>
    simp only [Sys.step] at h
    split_ifs at h with ht
    cases h
    exact inv_release hi ht

theorem reachable_inv {s : Sys} (h : Reachable s) : Inv s := by
  induction h with
  | init => exact inv_init
  | step a _ hs ih => exact inv_step ih hs

/-- **The spin lock excludes.** In every state reachable by any interleaving
of any number of threads' `lock()` and `unlock()`, at most one thread holds
the lock, and `lock_` is `true` exactly when one does. -/
theorem spinlock_exclusion {s : Sys} (h : Reachable s) :
    (∀ t u, s.pcs t = .holding → s.pcs u = .holding → t = u) ∧
      (s.flag = true ↔ ∃ t, s.pcs t = .holding) :=
  have hi := reachable_inv h
  ⟨hi.single, hi.flag⟩

/-- Thread `0` holds the lock; thread `1` spins on it. -/
theorem spinlock_exclusion_contended :
    ∃ s, Reachable s ∧ s.pcs 0 = .holding ∧ s.pcs 1 ≠ .holding ∧
      ((∀ t u, s.pcs t = .holding → s.pcs u = .holding → t = u) ∧
        (s.flag = true ↔ ∃ t, s.pcs t = .holding)) :=
  have h : Reachable _ :=
    .step (.exchange 1) (.step (.lock 1) (.step (.exchange 0) (.step (.lock 0) .init rfl) rfl) rfl) rfl
  ⟨_, h, rfl, by decide, spinlock_exclusion h⟩

end SpinLock

end TinyCoro
