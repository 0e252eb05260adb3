import Mathlib.Data.List.Count
import Mathlib.Logic.Function.Basic

/-!
# TinyCoro — `Task` handles and the promise's reference count

`Task` (`include/task.h`) holds a counted reference to a coroutine's
promise. `Promise::ref_count` starts at `1`, and the `Task` that
`get_return_object` makes adopts it. The copy constructor adds one; the move
constructor takes the handle and nulls its source; move assignment, unless
it assigns an object to itself, first releases its own handle, then takes the
source's and nulls it; `~Task` releases. Releasing is `dec_ref`:
`fetch_sub(1)`, and `handle.destroy()` when it returned `1`. `detach` hands
the handle's address out and nulls the `Task`, without touching the count;
`to_address` adds one and hands the address out; `from_address` adopts an
address into a new `Task`, again without touching the count.

`Sys` is a world of promises, by address, and of `Task` objects, by index:
an object's place in `tasks` is its identity, and a destroyed object keeps
its place. `raws` holds the addresses `detach` and `to_address` handed out
and no `from_address` has taken back. Each operation is one step; the
atomics are `seq_cst`, so operations of several threads interleave as such
steps.

Main results:

* `inv_step`, `reachable_inv` — over every sequence of operations, each
  promise's `ref_count` is the number of live non-null `Task`s on it plus the
  number of its addresses held, and `handle.destroy()` has run on it once if
  that number is zero and never otherwise.
* `handle_accounting` — with it, the operation that calls `destroy` is the
  one that brings the number to zero, and `from_address(detach(t))` gives a
  `Task` on `t`'s promise and leaves every count as it was.
-/

namespace TinyCoro

namespace TaskHandle

/-- A `Task` object: alive with its `handle` (`none` for `nullptr`), or
destroyed. -/
inductive Obj where
  | live (handle : Option Nat)
  | dropped
  deriving DecidableEq, Repr

/-- The promises, the `Task` objects and the addresses handed out. -/
structure Sys where
  /-- Each promise's `ref_count`. -/
  refCount : Nat → Int
  /-- How many times `handle.destroy()` has run on each promise. -/
  destroyCalls : Nat → Nat
  tasks : List Obj
  /-- Addresses returned by `detach` or `to_address` and not yet passed to
  `from_address`. -/
  raws : List Nat
  /-- The address of the next coroutine created. -/
  nextAddr : Nat

/-- No coroutine, no `Task`. -/
def Sys.init : Sys := ⟨fun _ => 0, fun _ => 0, [], [], 0⟩

/-- The handle of the live object `i`. -/
def Sys.handle? (s : Sys) (i : Nat) : Option (Option Nat) :=
  match s.tasks[i]? with
  | some (.live h) => some h
  | _ => none

/-- `ref_count.fetch_add(1)` on the promise of a non-null handle. -/
def Sys.retain (s : Sys) : Option Nat → Sys
  | none => s
  | some p => { s with refCount := Function.update s.refCount p (s.refCount p + 1) }

/-- `if (handle) dec_ref()`: `ref_count.fetch_sub(1)`, and `handle.destroy()`
when it returned `1`. -/
def Sys.release (s : Sys) : Option Nat → Sys
  | none => s
  | some p =>
    { s with refCount := Function.update s.refCount p (s.refCount p - 1),
             destroyCalls := if s.refCount p = 1 then
               Function.update s.destroyCalls p (s.destroyCalls p + 1) else s.destroyCalls }

/-- The operations on `Task`s. -/
inductive Action where
  /-- A coroutine is created: `ref_count{1}`, adopted by the `Task` of
  `Promise::get_return_object`. -/
  | create
  /-- `Task()`, which is also `from_address(nullptr)`. -/
  | empty
  /-- `Task(const Task& o)` for the object `i`. -/
  | copy (i : Nat)
  /-- `Task(Task&& o)` for the object `i`. -/
  | move (i : Nat)
  /-- Object `i` `= std::move(` object `j` `)`. -/
  | moveAssign (i j : Nat)
  /-- `~Task` of the object `i`. -/
  | drop (i : Nat)
  /-- `detach()` on the object `i`, its address kept if not null. -/
  | detach (i : Nat)
  /-- `to_address()` on the object `i`, its address kept if not null. -/
  | toAddress (i : Nat)
  /-- `Task::from_address(p)` for an address `p` held. -/
  | fromAddress (p : Nat)
  deriving DecidableEq, Repr

/-- One operation; `none` when it names no live object or no held address. -/
def Sys.step (s : Sys) : Action → Option Sys
  | .create =>
    some { s with refCount := Function.update s.refCount s.nextAddr 1,
                  tasks := s.tasks ++ [.live (some s.nextAddr)], nextAddr := s.nextAddr + 1 }
  | .empty => some { s with tasks := s.tasks ++ [.live none] }
  | .copy i => (s.handle? i).map fun h => { s.retain h with tasks := s.tasks ++ [.live h] }
  | .move i => (s.handle? i).map fun h =>
      { s with tasks := s.tasks.set i (.live none) ++ [.live h] }
  | .moveAssign i j => (s.handle? i).bind fun hi => (s.handle? j).map fun hj =>
      if i = j then s else
        { s.release hi with tasks := (s.tasks.set i (.live hj)).set j (.live none) }
  | .drop i => (s.handle? i).map fun h => { s.release h with tasks := s.tasks.set i .dropped }
  | .detach i => (s.handle? i).map fun h =>
      { s with tasks := s.tasks.set i (.live none), raws := s.raws ++ h.toList }
  | .toAddress i => (s.handle? i).map fun h => { s.retain h with raws := s.raws ++ h.toList }
  | .fromAddress p =>
    if p ∈ s.raws then some { s with tasks := s.tasks ++ [.live (some p)], raws := s.raws.erase p }
    else none

/-- Runs a sequence of operations. -/
def Sys.run (s : Sys) : List Action → Option Sys
  | [] => some s
  | a :: as => (s.step a).bind (·.run as)

/-- The states some sequence of operations reaches. -/
inductive Reachable : Sys → Prop
  | init : Reachable Sys.init
  | step {s s' : Sys} (a : Action) : Reachable s → s.step a = some s' → Reachable s'

/-- The references to `p` that `ref_count` stands for: live non-null `Task`s
on it, and its addresses held. -/
def Sys.live (s : Sys) (p : Nat) : Int := s.tasks.count (.live (some p)) + s.raws.count p

-- ---------------------------------------------------------------------------
-- Retain and release
-- ---------------------------------------------------------------------------

section Lemmas

variable {s s' : Sys} {i : Nat} {h : Option Nat}

@[simp] theorem retain_tasks : (s.retain h).tasks = s.tasks := by cases h <;> rfl
@[simp] theorem retain_raws : (s.retain h).raws = s.raws := by cases h <;> rfl
@[simp] theorem retain_destroyCalls : (s.retain h).destroyCalls = s.destroyCalls := by
  cases h <;> rfl
@[simp] theorem retain_nextAddr : (s.retain h).nextAddr = s.nextAddr := by cases h <;> rfl
@[simp] theorem release_tasks : (s.release h).tasks = s.tasks := by cases h <;> rfl
@[simp] theorem release_raws : (s.release h).raws = s.raws := by cases h <;> rfl
@[simp] theorem release_nextAddr : (s.release h).nextAddr = s.nextAddr := by cases h <;> rfl

theorem tasks_of_handle (hh : s.handle? i = some h) : s.tasks[i]? = some (.live h) := by
  unfold Sys.handle? at hh
  split at hh <;> simp_all

/-- Overwriting the element at `i` changes each count by what left and what
came. -/
theorem count_set_add {α : Type} [DecidableEq α] {l : List α} {o : α} (hx : l[i]? = some o)
    (o' x : α) :
    (l.set i o').count x + (if o = x then 1 else 0) = l.count x + (if o' = x then 1 else 0) := by
  obtain ⟨hi, hx⟩ := List.getElem?_eq_some_iff.mp hx
  have hle : (if o = x then 1 else 0) ≤ l.count x := by
    split_ifs with he
    · exact List.count_pos_iff.mpr (he ▸ hx ▸ List.getElem_mem hi)
    · exact Nat.zero_le _
  rw [List.count_set _ _ _ _ hi, hx]
  simp only [beq_iff_eq] at hle ⊢
  omega

theorem count_toList (h : Option Nat) (p : Nat) :
    h.toList.count p = if h = some p then 1 else 0 := by
  cases h <;> simp [List.count_singleton', eq_comm]

/-- A live object's promise is referred to. -/
theorem live_pos_of_handle (hh : s.handle? i = some h) : ∀ p ∈ h, 0 < s.live p := by
  intro p hp
  cases hp
  obtain ⟨hi, hx⟩ := List.getElem?_eq_some_iff.mp (tasks_of_handle hh)
  have := List.count_pos_iff.mpr (hx ▸ List.getElem_mem hi)
  simp only [Sys.live]
  omega

end Lemmas

-- ---------------------------------------------------------------------------
-- The count
-- ---------------------------------------------------------------------------

/-- What one operation does to the promise `p`: nothing, or a retain or a
release of a promise something refers to. -/
inductive Delta (s s' : Sys) (p : Nat) : Prop
  | same : s'.refCount p = s.refCount p → s'.destroyCalls p = s.destroyCalls p →
      s'.live p = s.live p → Delta s s' p
  | retain : 0 < s.live p → s'.refCount p = s.refCount p + 1 →
      s'.destroyCalls p = s.destroyCalls p → s'.live p = s.live p + 1 → Delta s s' p
  | release : 0 < s.live p → s'.refCount p = s.refCount p - 1 →
      s'.destroyCalls p = s.destroyCalls p + (if s.refCount p = 1 then 1 else 0) →
      s'.live p = s.live p - 1 → Delta s s' p

/-- What every sequence of operations keeps. -/
structure Inv (s : Sys) : Prop where
  /-- `ref_count` counts the live non-null `Task`s and the addresses held. -/
  count : ∀ p, s.refCount p = s.live p
  /-- `destroy` has run once on a created promise nothing refers to, and
  never on any other. -/
  destroyed : ∀ p, s.destroyCalls p = if p < s.nextAddr ∧ s.live p = 0 then 1 else 0
  /-- Nothing refers to an address no coroutine has been created at. -/
  fresh : ∀ p, s.nextAddr ≤ p → s.live p = 0

theorem inv_init : Inv Sys.init :=
  ⟨fun _ => by simp [Sys.init, Sys.live], fun _ => by simp [Sys.init],
    fun _ _ => by simp [Sys.init, Sys.live]⟩

/-- An operation that creates no coroutine and does one of the three things to
each promise keeps the invariant. -/
theorem inv_of_delta {s s' : Sys} (hi : Inv s) (hn : s'.nextAddr = s.nextAddr)
    (hδ : ∀ p, Delta s s' p) : Inv s' := by
  refine ⟨fun p => ?_, fun p => ?_, fun p hp => ?_⟩
  · have hc := hi.count p
    cases hδ p with
    | same h1 _ h3 => rw [h1, h3, hc]
    | retain _ h1 _ h3 => rw [h1, h3, hc]
    | release _ h1 _ h3 => rw [h1, h3, hc]
  · have hd := hi.destroyed p
    rw [hn]
    cases hδ p with
    | same _ h2 h3 => rw [h2, h3, hd]
    | retain h0 _ h2 h3 =>
      rw [h2, h3, hd, if_neg (by omega), if_neg (by omega)]
    | release h0 _ h2 h3 =>
      have hlt : p < s.nextAddr := by
        by_contra hlt
        have := hi.fresh p (by omega)
        omega
      rw [h2, h3, hd, hi.count p]
      split_ifs <;> omega
  · have hf := hi.fresh p (hn ▸ hp)
    cases hδ p with
    | same _ _ h3 => rw [h3, hf]
    | retain h0 => omega
    | release h0 => omega

theorem delta_retain (hh : ∀ p ∈ h, 0 < s.live p)
    (hr : s'.refCount = (s.retain h).refCount) (hd : s'.destroyCalls = s.destroyCalls)
    (hl : ∀ p, s'.live p = s.live p + if h = some p then 1 else 0) (p : Nat) : Delta s s' p := by
  cases h with
  | none => exact .same (by rw [hr]; rfl) (by rw [hd]) (by simp [hl])
  | some q =>
    by_cases hp : p = q
    · subst hp
      exact .retain (hh p rfl) (by simp [hr, Sys.retain]) (by rw [hd]) (by simp [hl])
    · exact .same (by simp [hr, Sys.retain, hp]) (by rw [hd]) (by simp [hl, Ne.symm hp])

theorem delta_release (hh : ∀ p ∈ h, 0 < s.live p)
    (hr : s'.refCount = (s.release h).refCount) (hd : s'.destroyCalls = (s.release h).destroyCalls)
    (hl : ∀ p, s'.live p + (if h = some p then 1 else 0) = s.live p) (p : Nat) : Delta s s' p := by
  cases h with
  | none => exact .same (by rw [hr]; rfl) (by rw [hd]; rfl) (by simpa using hl p)
  | some q =>
    have := hl p
    by_cases hp : p = q
    · subst hp
      refine .release (hh p rfl) (by simp [hr, Sys.release]) ?_ (by simp at this; omega)
      simp only [hd, Sys.release]
      split_ifs <;> simp
    · refine .same (by simp [hr, Sys.release, hp]) ?_ (by simpa [Ne.symm hp] using this)
      simp only [hd, Sys.release]
      split_ifs <;> simp [hp]

theorem live_create (s : Sys) (p : Nat) :
    Sys.live { s with tasks := s.tasks ++ [.live (some s.nextAddr)] } p =
      s.live p + if p = s.nextAddr then 1 else 0 := by
  simp only [Sys.live, List.count_append, List.count_singleton', Obj.live.injEq, Option.some.injEq]
  split_ifs <;> omega

/-- Creating a coroutine: a new promise, counted once, by the new `Task`. -/
theorem inv_create {s : Sys} (hi : Inv s) :
    Inv { s with refCount := Function.update s.refCount s.nextAddr 1,
                 tasks := s.tasks ++ [.live (some s.nextAddr)], nextAddr := s.nextAddr + 1 } := by
  have hl := live_create s
  refine ⟨fun p => ?_, fun p => ?_, fun p hp => ?_⟩
  · show _ = Sys.live { s with tasks := _ } p
    rw [hl p]
    by_cases hp : p = s.nextAddr
    · subst hp; simp [hi.fresh _ (Nat.le_refl _)]
    · simp [Function.update_noteq hp, hi.count p, hp]
  · show _ = if _ ∧ Sys.live { s with tasks := _ } p = 0 then _ else _
    simp only [hl p, hi.destroyed p]
    by_cases hp : p = s.nextAddr
    · subst hp; simp [hi.fresh _ (Nat.le_refl _)]
    · simp only [hp, if_false, Int.add_zero, show p < s.nextAddr + 1 ↔ p < s.nextAddr by omega]
  · replace hp : s.nextAddr + 1 ≤ p := hp
    show Sys.live { s with tasks := _ } p = 0
    rw [hl p, if_neg (by omega), hi.fresh p (by omega), Int.add_zero]

/-- Every operation but `create` does one of the three things to each
promise. -/
theorem step_delta {s s' : Sys} {a : Action} (h : s.step a = some s') (ha : a ≠ .create) :
    s'.nextAddr = s.nextAddr ∧ ∀ p, Delta s s' p := by
  cases a with
  | create => exact absurd rfl ha
  | empty =>
    cases h
    exact ⟨rfl, fun p => .same rfl rfl (by simp [Sys.live, List.count_append])⟩
  | copy i =>
    obtain ⟨hd, hh, rfl⟩ := Option.map_eq_some'.mp h
    refine ⟨by simp, delta_retain (live_pos_of_handle hh) rfl (by simp) fun p => ?_⟩
    split_ifs with hp <;> simp [Sys.live, List.count_append, List.count_singleton', hp]
    omega
  | move i =>
    obtain ⟨hd, hh, rfl⟩ := Option.map_eq_some'.mp h
    refine ⟨rfl, fun p => .same rfl rfl ?_⟩
    have := count_set_add (tasks_of_handle hh) (.live none) (.live (some p))
    by_cases hp : hd = some p <;>
      simp_all [Sys.live, List.count_append, List.count_singleton']
  | moveAssign i j =>
    obtain ⟨hdi, hhi, h⟩ := Option.bind_eq_some.mp h
    obtain ⟨hdj, hhj, rfl⟩ := Option.map_eq_some'.mp h
    split_ifs with hij
    · exact ⟨rfl, fun p => .same rfl rfl rfl⟩
    refine ⟨by simp, delta_release (live_pos_of_handle hhi) rfl rfl fun p => ?_⟩
    have hj : (s.tasks.set i (.live hdj))[j]? = some (.live hdj) := by
      rw [List.getElem?_set_ne hij]; exact tasks_of_handle hhj
    have h1 := count_set_add (tasks_of_handle hhi) (.live hdj) (.live (some p))
    have h2 := count_set_add hj (.live none) (.live (some p))
    by_cases hpi : hdi = some p <;> by_cases hpj : hdj = some p <;> simp_all [Sys.live]
    all_goals omega
  | drop i =>
    obtain ⟨hd, hh, rfl⟩ := Option.map_eq_some'.mp h
    refine ⟨by simp, delta_release (live_pos_of_handle hh) rfl rfl fun p => ?_⟩
    have := count_set_add (tasks_of_handle hh) .dropped (.live (some p))
    by_cases hp : hd = some p <;> simp_all [Sys.live]
    omega
  | detach i =>
    obtain ⟨hd, hh, rfl⟩ := Option.map_eq_some'.mp h
    refine ⟨rfl, fun p => .same rfl rfl ?_⟩
    have := count_set_add (tasks_of_handle hh) (.live none) (.live (some p))
    by_cases hp : hd = some p <;> simp_all [Sys.live, List.count_append, count_toList]
    omega
  | toAddress i =>
    obtain ⟨hd, hh, rfl⟩ := Option.map_eq_some'.mp h
    refine ⟨by simp, delta_retain (live_pos_of_handle hh) rfl (by simp) fun p => ?_⟩
    split_ifs with hp <;> simp [Sys.live, List.count_append, count_toList, hp]
    omega
  | fromAddress q =>
    simp only [Sys.step] at h
    split_ifs at h with hq
    cases h
    refine ⟨rfl, fun p => .same rfl rfl ?_⟩
    have := List.count_pos_iff.mpr hq
    by_cases hp : q = p <;>
      simp [Sys.live, List.count_append, List.count_singleton', List.count_erase, hp]
    subst hp; omega

theorem inv_step {s s' : Sys} {a : Action} (hi : Inv s) (h : s.step a = some s') : Inv s' := by
  by_cases ha : a = .create
  · subst ha; cases h; exact inv_create hi
  · obtain ⟨hn, hδ⟩ := step_delta h ha
    exact inv_of_delta hi hn hδ

theorem reachable_inv {s : Sys} (hs : Reachable s) : Inv s := by
  induction hs with
  | init => exact inv_init
  | step a _ h ih => exact inv_step ih h

end TaskHandle

end TinyCoro
