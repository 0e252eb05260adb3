import Mathlib.Data.List.Nodup
import Mathlib.Logic.Function.Basic

/-!
# TinyCoro — the Chase–Lev work-stealing deque

`StealQueue` (`include/queue.h`) is owned by one worker, which `push`es and
`pop`s at `bottom`, while any number of other threads `steal` at `top`. The
items live in an `Array` of `cap` slots (a power of two), indexed by
`i & mask`; a `push` that finds `cap - 1` items first copies them into an
array of twice the capacity (`resize`) and publishes it.

`Sys` runs the three operations as a sequentially consistent interleaving of
their shared accesses: the owner's `push` (load `top`; `resize` and
`array.store`; `put`; `bottom.store`), the owner's `pop` (`bottom.store`;
load `top`; the CAS on `top` for the last item; `bottom.store`), and each
thief's `steal` (load `top`; load `bottom`; load `array`; `get`; the CAS on
`top`). The owner is the only thread that stores `bottom` and `array` or
writes a slot, so its local copies `b` and `a` are read here from the shared
fields. Arrays are kept in a heap by address, and a retired array stays
readable: its reclamation is `Ebr`'s concern, not the deque's.

The deque never looks at its items, so a slot holds the index of the push
that stored it; the address pushed is that entry of the ghost list `pushed`.
The ghost list `taken` records what each successful `pop` or `steal` got.

Main results:

* `reachable_inv` — the invariant `Inv` holds in every reachable state: the
  pushes are exactly the items taken, the one a `push` holds, and the entries
  at logical indices `top .. bottom - 1` of the current array (`bottom + 1`
  while a `pop` is under way), and every thief whose `top` is still current
  reads the entry at `top`, whichever array it loaded.
* `steal_queue_exactly_once` — no item is taken twice, every item taken was
  pushed, and whenever the owner is idle the items not taken are exactly the
  entries `top .. bottom - 1` of the current array. A `pop` gives up only on
  an empty deque, when every push has been taken; and when the owner's CAS
  for the last item races a thief's, the first to run takes it and the other
  fails.
-/

namespace TinyCoro

namespace StealQueue

/-- `StealQueue::Array`: `cap` atomic slots, `cap` a power of two (`1024`,
doubled by every `resize`). A slot holds `nullptr` (`none`) or an item. -/
structure Array where
  cap : Nat
  buffer : Nat → Option Nat
  cap_pow : cap.isPowerOfTwo

namespace Array

/-- `Array(c)`: every slot `nullptr`. -/
def new (c : Nat) (hc : c.isPowerOfTwo) : Array := ⟨c, fun _ => none, hc⟩

def mask (a : Array) : Nat := a.cap - 1

/-- The slot `i & mask` of an index the deque uses (never negative). -/
def slot (a : Array) (i : Int) : Nat := i.toNat &&& a.mask

def put (a : Array) (i : Int) (p : Option Nat) : Array :=
  { a with buffer := Function.update a.buffer (a.slot i) p }

def get (a : Array) (i : Int) : Option Nat := a.buffer (a.slot i)

/-- `resize(b, t)`: an array of twice the capacity holding entries
`t .. b - 1`, copied in that order. -/
def resize (a : Array) (b t : Int) : Array :=
  (List.range (b - t).toNat).foldl (fun n (j : Nat) => n.put (t + j) (a.get (t + j)))
    (new (a.cap * 2) (Nat.mul2_isPowerOfTwo_of_isPowerOfTwo a.cap_pow))

theorem slot_eq (a : Array) (i : Int) : a.slot i = i.toNat % a.cap := by
  obtain ⟨k, hk⟩ := a.cap_pow
  simp only [slot, mask, hk, Nat.and_pow_two_sub_one_eq_mod]

/-- Indices less than `cap` apart name different slots: `cap - 1` items never
collide. -/
theorem slot_ne (a : Array) {i j : Int} (hi : 0 ≤ i) (hij : i < j) (hj : j < i + a.cap) :
    a.slot i ≠ a.slot j := by
  rw [slot_eq, slot_eq]
  intro h
  have hd : a.cap ∣ j.toNat - i.toNat :=
    Nat.dvd_of_mod_eq_zero (Nat.sub_mod_eq_zero_of_mod_eq h.symm)
  have := Nat.eq_zero_of_dvd_of_lt hd (by omega)
  omega

@[simp] theorem cap_put (a : Array) (i : Int) (p : Option Nat) : (a.put i p).cap = a.cap := rfl

@[simp] theorem get_put_self (a : Array) (i : Int) (p : Option Nat) : (a.put i p).get i = p := by
  simp only [get, put, slot, mask, Function.update_same]

theorem get_put_of_ne (a : Array) (p : Option Nat) {i j : Int} (hi : 0 ≤ i) (hj : 0 ≤ j)
    (hne : i ≠ j) (h1 : i < j + a.cap) (h2 : j < i + a.cap) : (a.put i p).get j = a.get j := by
  have hs : a.slot j ≠ a.slot i := by
    rcases Int.lt_or_gt_of_ne hne with h | h
    · exact (a.slot_ne hi h h2).symm
    · exact a.slot_ne hj h h1
  exact Function.update_noteq hs _ _

theorem cap_copy (a d : Array) (t : Int) (n : Nat) :
    ((List.range n).foldl (fun n j => n.put (t + j) (a.get (t + j))) d).cap = d.cap := by
  induction n with
  | zero => rfl
  | succ n ih => rw [List.range_succ, List.foldl_append, List.foldl_cons, List.foldl_nil, cap_put, ih]

/-- After copying entries `t .. t + n - 1` into `d`, with `n ≤ d.cap`, each of
them reads as in `a`. -/
theorem get_copy (a d : Array) {t : Int} (ht : 0 ≤ t) :
    ∀ n, n ≤ d.cap → ∀ i, t ≤ i → i < t + n →
      ((List.range n).foldl (fun n j => n.put (t + j) (a.get (t + j))) d).get i = a.get i
  | 0, _, i, h1, h2 => by omega
  | n + 1, hn, i, h1, h2 => by
    rw [List.range_succ, List.foldl_append, List.foldl_cons, List.foldl_nil]
    by_cases e : i = t + n
    · rw [e, get_put_self]
    · rw [get_put_of_ne _ _ (by omega) (by omega) (Ne.symm e) (by rw [cap_copy]; omega)
        (by rw [cap_copy]; omega)]
      exact get_copy a d ht n (by omega) i h1 (by omega)

@[simp] theorem cap_resize (a : Array) (b t : Int) : (a.resize b t).cap = a.cap * 2 := by
  rw [resize, cap_copy]; rfl

theorem get_resize (a : Array) {b t i : Int} (ht : 0 ≤ t) (hb : b - t ≤ a.cap * 2)
    (h1 : t ≤ i) (h2 : i < b) : (a.resize b t).get i = a.get i :=
  get_copy a _ ht _ (by simp only [new]; omega) i h1 (by omega)

/-- The entries at logical indices `lo .. hi - 1`. -/
def entries (a : Array) (lo hi : Int) : List (Option Nat) :=
  (List.range (hi - lo).toNat).map fun (j : Nat) => a.get (lo + j)

theorem entries_of_le (a : Array) {lo hi : Int} (h : hi ≤ lo) : a.entries lo hi = [] := by
  simp [entries, show (hi - lo).toNat = 0 by omega]

theorem entries_snoc (a : Array) {lo hi : Int} (h : lo ≤ hi) :
    a.entries lo (hi + 1) = a.entries lo hi ++ [a.get hi] := by
  rw [entries, show (hi + 1 - lo).toNat = (hi - lo).toNat + 1 by omega, List.range_succ,
    List.map_append, List.map_singleton, show lo + ((hi - lo).toNat : Int) = hi by omega]
  rfl

theorem entries_cons (a : Array) {lo hi : Int} (h : lo < hi) :
    a.entries lo hi = a.get lo :: a.entries (lo + 1) hi := by
  rw [entries, show (hi - lo).toNat = (hi - (lo + 1)).toNat + 1 by omega, List.range_succ_eq_map]
  simp only [List.map_cons, List.map_map, Int.Nat.cast_ofNat_Int, Int.add_zero]
  congr 2
  funext j
  simp only [Function.comp_apply]
  congr 1
  omega

theorem entries_congr {a a' : Array} {lo hi : Int}
    (h : ∀ i, lo ≤ i → i < hi → a'.get i = a.get i) : a'.entries lo hi = a.entries lo hi :=
  List.map_congr_left fun j hj => h _ (by omega) (by simp at hj; omega)

end Array

/-- Where the owner is in `push` or `pop`. -/
inductive OwnerPc where
  | idle
  /-- `push` loaded `t` and found `b - t >= cap - 1`: `resize` and
  `array.store` come next. -/
  | pushGrow (item : Nat) (t : Int)
  /-- `push`: `a->put(b, item)` comes next. -/
  | pushPut (item a : Nat)
  /-- `push`: `bottom.store(b + 1)` comes next. -/
  | pushStore
  /-- `pop` stored `bottom = b`; its load of `top` comes next. -/
  | popLoaded
  /-- `pop` found `t == b` and read `val`: the CAS on `top` comes next. -/
  | popCas (val : Option Nat)
  /-- `pop`: `bottom.store(b + 1)` comes next. -/
  | popRestore
  deriving DecidableEq, Repr

/-- The owner is between `pop`'s two stores of `bottom`. -/
def OwnerPc.popping : OwnerPc → Bool
  | .popLoaded | .popCas _ | .popRestore => true
  | _ => false

/-- Where a thief is in `steal`. -/
inductive ThiefPc where
  | idle
  | loadedTop (t : Int)
  /-- `t < b`: the load of `array` comes next. -/
  | loadedBottom (t : Int)
  | loadedArray (t : Int) (a : Nat)
  /-- Read `val = a->get(t)`: the CAS on `top` comes next. -/
  | loadedVal (t : Int) (val : Option Nat)
  deriving DecidableEq, Repr

/-- The deque: `top`, `bottom`, `array` (an address in `heap`), the next free
address, every thread's position, and the ghost lists `pushed` and `taken`. -/
structure Sys where
  top : Int
  bottom : Int
  array : Nat
  heap : Nat → Array
  nextArr : Nat
  owner : OwnerPc
  thieves : Nat → ThiefPc
  pushed : List Nat
  taken : List (Option Nat)

/-- The constructor: `array.store(new Array(1024))`, `top = bottom = 0`. -/
def Sys.init : Sys :=
  ⟨0, 0, 0, fun _ => .new 1024 ⟨10, rfl⟩, 1, .idle, fun _ => .idle, [], []⟩

/-- The array `array` points to. -/
def Sys.cur (s : Sys) : Array := s.heap s.array

def Sys.setThief (s : Sys) (i : Nat) (pc : ThiefPc) : Sys :=
  { s with thieves := Function.update s.thieves i pc }

/-- One shared access: the owner's, or thief `i`'s. -/
inductive Action where
  | push (addr : Nat) | pushResize | pushPut | pushStore
  | pop | popLoadTop | popCas | popRestore
  | stealLoadTop (i : Nat) | stealLoadBottom (i : Nat) | stealLoadArray (i : Nat)
  | stealGet (i : Nat) | stealCas (i : Nat)
  deriving DecidableEq, Repr

/-- The next access of `push`, `pop` or `steal`; `none` when it is not the
thread's next step. -/
def Sys.step (s : Sys) : Action → Option Sys
  | .push addr =>
    match s.owner with
    | .idle =>
      some { s with
        owner := if (s.cur.cap : Int) - 1 ≤ s.bottom - s.top then .pushGrow s.pushed.length s.top
          else .pushPut s.pushed.length s.array
        pushed := s.pushed ++ [addr] }
    | _ => none
  | .pushResize =>
    match s.owner with
    | .pushGrow item t =>
      some { s with heap := Function.update s.heap s.nextArr (s.cur.resize s.bottom t),
                    array := s.nextArr, nextArr := s.nextArr + 1, owner := .pushPut item s.nextArr }
    | _ => none
  | .pushPut =>
    match s.owner with
    | .pushPut item a =>
      some { s with heap := Function.update s.heap a ((s.heap a).put s.bottom (some item)),
                    owner := .pushStore }
    | _ => none
  | .pushStore =>
    match s.owner with
    | .pushStore => some { s with bottom := s.bottom + 1, owner := .idle }
    | _ => none
  | .pop =>
    match s.owner with
    | .idle => some { s with bottom := s.bottom - 1, owner := .popLoaded }
    | _ => none
  | .popLoadTop =>
    match s.owner with
    | .popLoaded =>
      if s.top ≤ s.bottom then
        if s.top = s.bottom then some { s with owner := .popCas (s.cur.get s.bottom) }
        else some { s with owner := .idle, taken := s.taken ++ [s.cur.get s.bottom] }
      else some { s with owner := .popRestore }
    | _ => none
  | .popCas =>
    match s.owner with
    | .popCas val =>
      if s.top = s.bottom then
        some { s with top := s.top + 1, owner := .popRestore, taken := s.taken ++ [val] }
      else some { s with owner := .popRestore }
    | _ => none
  | .popRestore =>
    match s.owner with
    | .popRestore => some { s with bottom := s.bottom + 1, owner := .idle }
    | _ => none
  | .stealLoadTop i =>
    match s.thieves i with
    | .idle => some (s.setThief i (.loadedTop s.top))
    | _ => none
  | .stealLoadBottom i =>
    match s.thieves i with
    | .loadedTop t => some (s.setThief i (if t < s.bottom then .loadedBottom t else .idle))
    | _ => none
  | .stealLoadArray i =>
    match s.thieves i with
    | .loadedBottom t => some (s.setThief i (.loadedArray t s.array))
    | _ => none
  | .stealGet i =>
    match s.thieves i with
    | .loadedArray t a => some (s.setThief i (.loadedVal t ((s.heap a).get t)))
    | _ => none
  | .stealCas i =>
    match s.thieves i with
    | .loadedVal t val =>
      if s.top = t then some { s.setThief i .idle with top := t + 1, taken := s.taken ++ [val] }
      else some (s.setThief i .idle)
    | _ => none

inductive Reachable : Sys → Prop where
  | init : Reachable Sys.init
  | step {s s' : Sys} (a : Action) : Reachable s → s.step a = some s' → Reachable s'

-- ---------------------------------------------------------------------------
-- The invariant
-- ---------------------------------------------------------------------------

/-- One past the last index the deque holds: `bottom`, or `bottom + 1` while a
`pop` has decremented it but not yet taken or given up the item there. -/
def Sys.logicalBottom (s : Sys) : Int := if s.owner.popping then s.bottom + 1 else s.bottom

/-- The item a `push` holds and has not yet made visible through `bottom`. -/
def Sys.inflight (s : Sys) : List (Option Nat) :=
  match s.owner with
  | .pushGrow item _ | .pushPut item _ => [some item]
  | .pushStore => [s.cur.get s.bottom]
  | _ => []

/-- The items in the deque. -/
def Sys.content (s : Sys) : List (Option Nat) := s.cur.entries s.top s.logicalBottom

/-- What the owner's position promises about the shared state. -/
def OwnerPc.Ok (s : Sys) : OwnerPc → Prop
  | .idle | .popLoaded => True
  | .pushGrow _ t => 0 ≤ t ∧ t ≤ s.top ∧ s.bottom - t + 1 = s.cur.cap
  | .pushPut _ a => a = s.array ∧ s.bottom - s.top + 2 ≤ s.cur.cap
  | .pushStore => s.bottom - s.top + 2 ≤ s.cur.cap
  | .popCas v => s.bottom ≤ s.top ∧ v = s.cur.get s.bottom
  | .popRestore => s.bottom < s.top

/-- What a thief's position promises: the `top` it loaded is not ahead, and
while it is still current the deque holds index `top`, and the array the
thief loaded, and the value it read there, agree with the current array. -/
def ThiefPc.Ok (s : Sys) : ThiefPc → Prop
  | .idle => True
  | .loadedTop t => t ≤ s.top
  | .loadedBottom t => t ≤ s.top ∧ (s.top = t → t < s.logicalBottom)
  | .loadedArray t a => t ≤ s.top ∧ a < s.nextArr ∧
      (s.top = t → t < s.logicalBottom ∧ (s.heap a).get t = s.cur.get t)
  | .loadedVal t v => t ≤ s.top ∧ (s.top = t → t < s.logicalBottom ∧ v = s.cur.get t)

structure Inv (s : Sys) : Prop where
  top_nonneg : 0 ≤ s.top
  top_le : s.top ≤ s.logicalBottom
  size_lt : s.logicalBottom - s.top < s.cur.cap
  array_lt : s.array < s.nextArr
  owner : s.owner.Ok s
  thieves : ∀ i, (s.thieves i).Ok s
  perm : List.Perm ((List.range s.pushed.length).map some) (s.taken ++ s.inflight ++ s.content)

section

variable {s : Sys}

theorem inv_init : Inv Sys.init where
  top_nonneg := Int.le_refl _
  top_le := Int.le_refl _
  size_lt := by decide
  array_lt := by decide
  owner := trivial
  thieves := fun _ => trivial
  perm := by simp [Sys.init, Sys.inflight, Sys.content, Sys.logicalBottom, OwnerPc.popping,
    Array.entries]

/-! ### Thieves' positions under the other threads' steps -/

/-- A thief's promise reads only `top`, the logical bottom, the heap, `array`
and the next free address. -/
theorem ok_congr {s' : Sys} (pc : ThiefPc) (ht : s'.top = s.top)
    (hb : s'.logicalBottom = s.logicalBottom) (hh : s'.heap = s.heap) (ha : s'.array = s.array)
    (hn : s'.nextArr = s.nextArr) : pc.Ok s' ↔ pc.Ok s := by
  cases pc <;> simp only [ThiefPc.Ok, Sys.cur, ht, hb, hh, ha, hn]

/-- Once `top` moves past the value a thief loaded, its CAS will fail and it
promises nothing more. -/
theorem ok_of_top_lt {s' : Sys} {pc : ThiefPc} (h : pc.Ok s) (ht : s.top < s'.top)
    (hn : s.nextArr ≤ s'.nextArr) : pc.Ok s' := by
  cases pc with
  | idle => trivial
  | loadedTop t => exact Int.le_trans h (Int.le_of_lt ht)
  | loadedBottom t => exact ⟨by have := h.1; omega, fun e => by have := h.1; omega⟩
  | loadedArray t a =>
    exact ⟨by have := h.1; omega, by have := h.2.1; omega, fun e => by have := h.1; omega⟩
  | loadedVal t v => exact ⟨by have := h.1; omega, fun e => by have := h.1; omega⟩

/-- The logical bottom may grow under a thief without breaking its promise. -/
theorem ok_of_bottom_le {s' : Sys} {pc : ThiefPc} (h : pc.Ok s) (ht : s'.top = s.top)
    (hb : s.logicalBottom ≤ s'.logicalBottom) (hh : s'.heap = s.heap) (ha : s'.array = s.array)
    (hn : s'.nextArr = s.nextArr) : pc.Ok s' := by
  cases pc with
  | idle => trivial
  | loadedTop t => simpa only [ThiefPc.Ok, ht] using h
  | loadedBottom t =>
    simp only [ThiefPc.Ok, ht] at h ⊢
    exact ⟨h.1, fun e => Int.lt_of_lt_of_le (h.2 e) hb⟩
  | loadedArray t a =>
    simp only [ThiefPc.Ok, Sys.cur, ht, hh, ha, hn] at h ⊢
    exact ⟨h.1, h.2.1, fun e => ⟨Int.lt_of_lt_of_le (h.2.2 e).1 hb, (h.2.2 e).2⟩⟩
  | loadedVal t v =>
    simp only [ThiefPc.Ok, Sys.cur, ht, hh, ha] at h ⊢
    exact ⟨h.1, fun e => ⟨Int.lt_of_lt_of_le (h.2 e).1 hb, (h.2 e).2⟩⟩

@[simp] theorem ok_setThief {i : Nat} {q : ThiefPc} (pc : ThiefPc) :
    pc.Ok (s.setThief i q) ↔ pc.Ok s :=
  ok_congr pc rfl rfl rfl rfl rfl

theorem thieves_setThief {i : Nat} {q : ThiefPc} (hi : Inv s) (hq : q.Ok s) (j : Nat) :
    ((s.setThief i q).thieves j).Ok (s.setThief i q) := by
  rw [ok_setThief]
  by_cases e : j = i
  · subst e; simpa [Sys.setThief] using hq
  · simpa [Sys.setThief, Function.update_noteq e] using hi.thieves j

/-- A thief's step that only moves its own position. -/
theorem inv_setThief {i : Nat} {q : ThiefPc} (hi : Inv s) (hq : q.Ok s) :
    Inv (s.setThief i q) :=
  ⟨hi.top_nonneg, hi.top_le, hi.size_lt, hi.array_lt, hi.owner, thieves_setThief hi hq, hi.perm⟩

/-- An owner step that leaves the thieves' view of the deque alone. -/
theorem thieves_of_frame {s' : Sys} (hi : Inv s) (hth : s'.thieves = s.thieves)
    (ht : s'.top = s.top) (hb : s'.logicalBottom = s.logicalBottom) (hh : s'.heap = s.heap)
    (ha : s'.array = s.array) (hn : s'.nextArr = s.nextArr) (j : Nat) : (s'.thieves j).Ok s' := by
  rw [hth, ok_congr _ ht hb hh ha hn]
  exact hi.thieves j

/-- An owner step after which the deque still holds index `top`. -/
theorem ok_of_top_lt_bottom {s' : Sys} {pc : ThiefPc} (h : pc.Ok s) (ht : s'.top = s.top)
    (hb : s.top < s'.logicalBottom) (hh : s'.heap = s.heap) (ha : s'.array = s.array)
    (hn : s'.nextArr = s.nextArr) : pc.Ok s' := by
  cases pc with
  | idle => trivial
  | loadedTop t => simpa only [ThiefPc.Ok, ht] using h
  | loadedBottom t =>
    simp only [ThiefPc.Ok, ht] at h ⊢
    exact ⟨h.1, fun e => e ▸ hb⟩
  | loadedArray t a =>
    simp only [ThiefPc.Ok, Sys.cur, ht, hh, ha, hn] at h ⊢
    exact ⟨h.1, h.2.1, fun e => ⟨e ▸ hb, (h.2.2 e).2⟩⟩
  | loadedVal t v =>
    simp only [ThiefPc.Ok, Sys.cur, ht, hh, ha] at h ⊢
    exact ⟨h.1, fun e => ⟨e ▸ hb, (h.2 e).2⟩⟩

/-- A step that changes the current array only outside `top .. ` the logical
bottom, and no other array a thief may hold. -/
theorem ok_of_heap {s' : Sys} {pc : ThiefPc} (h : pc.Ok s) (ht : s'.top = s.top)
    (hb : s'.logicalBottom = s.logicalBottom) (hn : s.nextArr ≤ s'.nextArr)
    (hh : ∀ a < s.nextArr, a ≠ s'.array → s'.heap a = s.heap a)
    (hcur : ∀ i, s.top ≤ i → i < s.logicalBottom → s'.cur.get i = s.cur.get i) : pc.Ok s' := by
  cases pc with
  | idle => trivial
  | loadedTop t => simpa only [ThiefPc.Ok, ht] using h
  | loadedBottom t => simpa only [ThiefPc.Ok, ht, hb] using h
  | loadedArray t a =>
    simp only [ThiefPc.Ok, ht, hb] at h ⊢
    refine ⟨h.1, by omega, fun e => ⟨(h.2.2 e).1, ?_⟩⟩
    by_cases ea : a = s'.array
    · rw [ea]; rfl
    · rw [hh a h.2.1 ea, (h.2.2 e).2, hcur t (by omega) (h.2.2 e).1]
  | loadedVal t v =>
    simp only [ThiefPc.Ok, ht, hb] at h ⊢
    exact ⟨h.1, fun e => ⟨(h.2 e).1, (h.2 e).2.trans (hcur t (by omega) (h.2 e).1).symm⟩⟩

/-- The owner's promise survives `top` moving forward. -/
theorem ownerOk_of_top_le {s' : Sys} {pc : OwnerPc} (h : pc.Ok s) (ht : s.top ≤ s'.top)
    (hb : s'.bottom = s.bottom) (hh : s'.heap = s.heap) (ha : s'.array = s.array) :
    pc.Ok s' := by
  cases pc <;> simp only [OwnerPc.Ok, Sys.cur, hb, hh, ha] at h ⊢
  case pushGrow => exact ⟨h.1, by omega, h.2.2⟩
  case pushPut => exact ⟨h.1, by omega⟩
  case pushStore => omega
  case popCas => exact ⟨by omega, h.2⟩
  case popRestore => omega

/-! ### The owner's steps -/

/-- Adding the next push's index to the items held. -/
theorem perm_push {n : Nat} {T C : List (Option Nat)}
    (hp : List.Perm ((List.range n).map some) (T ++ C)) :
    List.Perm ((List.range (n + 1)).map some) (T ++ [some n] ++ C) := by
  rw [List.range_succ, List.map_append, List.map_singleton, List.append_assoc]
  exact (hp.append_right _).trans
    (by rw [List.append_assoc]; exact List.perm_append_comm.append_left T)

/-- Moving the last of the items held to the end of the list. -/
theorem perm_to_end {l T C : List (Option Nat)} {x : Option Nat}
    (hp : List.Perm l (T ++ [x] ++ C)) : List.Perm l (T ++ (C ++ [x])) :=
  hp.trans (by rw [List.append_assoc]; exact List.perm_append_comm.append_left T)

/-- `push` loaded `t` and must grow: `b - t >= cap - 1`. -/
theorem inv_push_grow (hi : Inv s) (ho : s.owner = .idle)
    (hg : (s.cur.cap : Int) - 1 ≤ s.bottom - s.top) (addr : Nat) :
    Inv { s with owner := .pushGrow s.pushed.length s.top, pushed := s.pushed ++ [addr] } := by
  have hle := hi.top_le
  have hsz := hi.size_lt
  have hp := hi.perm
  simp only [Sys.logicalBottom, Sys.content, Sys.inflight, ho, OwnerPc.popping,
    Bool.false_eq_true, if_false, List.append_nil] at hle hsz hp
  constructor
  case top_nonneg => exact hi.top_nonneg
  case top_le => exact hle
  case size_lt => exact hsz
  case array_lt => exact hi.array_lt
  case owner => exact ⟨hi.top_nonneg, Int.le_refl _, by simp only [Sys.cur] at hg hsz ⊢; omega⟩
  case thieves =>
    exact thieves_of_frame hi rfl rfl (by simp [Sys.logicalBottom, ho, OwnerPc.popping]) rfl rfl rfl
  case perm =>
    simpa [Sys.inflight, Sys.content, Sys.logicalBottom, OwnerPc.popping] using perm_push hp

/-- `push` loaded `t` and has room: `b - t < cap - 1`. -/
theorem inv_push_put (hi : Inv s) (ho : s.owner = .idle)
    (hg : ¬(s.cur.cap : Int) - 1 ≤ s.bottom - s.top) (addr : Nat) :
    Inv { s with owner := .pushPut s.pushed.length s.array, pushed := s.pushed ++ [addr] } := by
  have hle := hi.top_le
  have hsz := hi.size_lt
  have hp := hi.perm
  simp only [Sys.logicalBottom, Sys.content, Sys.inflight, ho, OwnerPc.popping,
    Bool.false_eq_true, if_false, List.append_nil] at hle hsz hp
  constructor
  case top_nonneg => exact hi.top_nonneg
  case top_le => exact hle
  case size_lt => exact hsz
  case array_lt => exact hi.array_lt
  case owner => exact ⟨rfl, by simp only [Sys.cur] at hg ⊢; omega⟩
  case thieves =>
    exact thieves_of_frame hi rfl rfl (by simp [Sys.logicalBottom, ho, OwnerPc.popping]) rfl rfl rfl
  case perm =>
    simpa [Sys.inflight, Sys.content, Sys.logicalBottom, OwnerPc.popping] using perm_push hp

/-- `resize` and `array.store(new_a)`. -/
theorem inv_pushResize {item : Nat} {t : Int} (hi : Inv s) (ho : s.owner = .pushGrow item t) :
    Inv { s with heap := Function.update s.heap s.nextArr (s.cur.resize s.bottom t),
                 array := s.nextArr, nextArr := s.nextArr + 1, owner := .pushPut item s.nextArr } := by
  have hg := hi.owner
  have hle := hi.top_le
  have hsz := hi.size_lt
  have hp := hi.perm
  simp only [Sys.logicalBottom, Sys.content, Sys.inflight, OwnerPc.Ok, ho, OwnerPc.popping,
    Bool.false_eq_true, if_false, Sys.cur] at hg hle hsz hp
  have hcur : ∀ i, s.top ≤ i → i < s.bottom →
      ((s.heap s.array).resize s.bottom t).get i = (s.heap s.array).get i :=
    fun i h1 h2 => Array.get_resize _ hg.1 (by omega) (by omega) h2
  constructor
  case top_nonneg => exact hi.top_nonneg
  case top_le => exact hle
  case size_lt =>
    simp only [Sys.logicalBottom, OwnerPc.popping, Sys.cur, Function.update_same,
      Array.cap_resize]
    omega
  case array_lt => exact Nat.lt_succ_self _
  case owner =>
    exact ⟨rfl, by simp only [Sys.cur, Function.update_same, Array.cap_resize]; omega⟩
  case thieves =>
    refine fun j => ok_of_heap (hi.thieves j) rfl
      (by simp [Sys.logicalBottom, ho, OwnerPc.popping]) (Nat.le_succ _)
      (fun a _ ne => Function.update_noteq ne _ _) fun i h1 h2 => ?_
    simp only [Sys.logicalBottom, ho, OwnerPc.popping, Bool.false_eq_true, if_false] at h2
    simpa [Sys.cur] using hcur i h1 h2
  case perm =>
    simp only [Sys.inflight, Sys.content, Sys.logicalBottom, OwnerPc.popping, Bool.false_eq_true,
      if_false, Sys.cur, Function.update_same]
    rwa [Array.entries_congr hcur]

/-- `a->put(b, item)`: the slot is outside `top .. b - 1`, so the items and
every thief's view stay as they were. -/
theorem inv_pushPut {item a : Nat} (hi : Inv s) (ho : s.owner = .pushPut item a) :
    Inv { s with heap := Function.update s.heap a ((s.heap a).put s.bottom (some item)),
                 owner := .pushStore } := by
  have hg := hi.owner
  have hle := hi.top_le
  have hsz := hi.size_lt
  have hp := hi.perm
  simp only [Sys.logicalBottom, Sys.content, Sys.inflight, OwnerPc.Ok, ho, OwnerPc.popping,
    Bool.false_eq_true, if_false, Sys.cur] at hg hle hsz hp
  obtain ⟨rfl, hroom⟩ := hg
  have h0 := hi.top_nonneg
  have hcur : ∀ i, s.top ≤ i → i < s.bottom →
      ((s.heap s.array).put s.bottom (some item)).get i = (s.heap s.array).get i :=
    fun i h1 h2 => Array.get_put_of_ne _ _ (by omega) (by omega) (by omega) (by omega) (by omega)
  constructor
  case top_nonneg => exact h0
  case top_le => exact hle
  case size_lt =>
    simp only [Sys.logicalBottom, OwnerPc.popping, Sys.cur, Function.update_same, Array.cap_put]
    omega
  case array_lt => exact hi.array_lt
  case owner =>
    show _ ≤ _
    simp only [Sys.cur, Function.update_same, Array.cap_put]
    omega
  case thieves =>
    refine fun j => ok_of_heap (hi.thieves j) rfl
      (by simp [Sys.logicalBottom, ho, OwnerPc.popping]) (Nat.le_refl _)
      (fun a _ ne => Function.update_noteq ne _ _) fun i h1 h2 => ?_
    simp only [Sys.logicalBottom, ho, OwnerPc.popping, Bool.false_eq_true, if_false] at h2
    simpa [Sys.cur] using hcur i h1 h2
  case perm =>
    simp only [Sys.inflight, Sys.content, Sys.logicalBottom, OwnerPc.popping, Bool.false_eq_true,
      if_false, Sys.cur, Function.update_same, Array.get_put_self]
    rwa [Array.entries_congr hcur]

/-- `bottom.store(b + 1)` ends a `push`: its item joins the deque. -/
theorem inv_pushStore (hi : Inv s) (ho : s.owner = .pushStore) :
    Inv { s with bottom := s.bottom + 1, owner := .idle } := by
  have hg := hi.owner
  have hle := hi.top_le
  have hp := hi.perm
  simp only [Sys.logicalBottom, Sys.content, Sys.inflight, OwnerPc.Ok, ho, OwnerPc.popping,
    Bool.false_eq_true, if_false] at hg hle hp
  constructor
  case top_nonneg => exact hi.top_nonneg
  case top_le => show s.top ≤ s.bottom + 1; omega
  case size_lt => show s.bottom + 1 - s.top < (s.cur.cap : Int); omega
  case array_lt => exact hi.array_lt
  case owner => trivial
  case thieves =>
    exact fun j => ok_of_top_lt_bottom (hi.thieves j) rfl (show s.top < s.bottom + 1 by omega)
      rfl rfl rfl
  case perm =>
    simp only [Sys.inflight, Sys.content, Sys.logicalBottom, OwnerPc.popping, Bool.false_eq_true,
      if_false, List.append_nil]
    rw [Array.entries_snoc _ hle]
    exact perm_to_end hp

/-- `pop`'s `bottom.store(b)` for `b = bottom - 1`: the item at `b` is still in
the deque, and still open to a thief. -/
theorem inv_pop (hi : Inv s) (ho : s.owner = .idle) :
    Inv { s with bottom := s.bottom - 1, owner := .popLoaded } := by
  have hb : Sys.logicalBottom { s with bottom := s.bottom - 1, owner := .popLoaded } =
      s.logicalBottom := by simp [Sys.logicalBottom, ho, OwnerPc.popping]
  have hp := hi.perm
  simp only [Sys.inflight, ho] at hp
  exact ⟨hi.top_nonneg, hb ▸ hi.top_le, hb ▸ hi.size_lt, hi.array_lt, trivial,
    thieves_of_frame hi rfl rfl hb rfl rfl rfl, by simpa [Sys.inflight, Sys.content, hb] using hp⟩

/-- `pop` loads `top = t` after its store: `t == b` races for the last item. -/
theorem inv_popLoadTop_last (hi : Inv s) (ho : s.owner = .popLoaded) (he : s.top = s.bottom) :
    Inv { s with owner := .popCas (s.cur.get s.bottom) } := by
  have hb : Sys.logicalBottom { s with owner := .popCas (s.cur.get s.bottom) } =
      s.logicalBottom := by simp [Sys.logicalBottom, ho, OwnerPc.popping]
  have hp := hi.perm
  simp only [Sys.inflight, ho] at hp
  exact ⟨hi.top_nonneg, hb ▸ hi.top_le, hb ▸ hi.size_lt, hi.array_lt, ⟨show s.bottom ≤ s.top by omega, rfl⟩,
    thieves_of_frame hi rfl rfl hb rfl rfl rfl, by simpa [Sys.inflight, Sys.content, hb] using hp⟩

/-- `pop` loads `top = t < b`: the item at `b` is the owner's. -/
theorem inv_popLoadTop_take (hi : Inv s) (ho : s.owner = .popLoaded) (hlt : s.top < s.bottom) :
    Inv { s with owner := .idle, taken := s.taken ++ [s.cur.get s.bottom] } := by
  have hsz := hi.size_lt
  have hp := hi.perm
  simp only [Sys.logicalBottom, Sys.content, Sys.inflight, ho, OwnerPc.popping, if_true,
    List.append_nil] at hsz hp
  constructor
  case top_nonneg => exact hi.top_nonneg
  case top_le => exact Int.le_of_lt hlt
  case size_lt => show s.bottom - s.top < (s.cur.cap : Int); omega
  case array_lt => exact hi.array_lt
  case owner => trivial
  case thieves => exact fun j => ok_of_top_lt_bottom (hi.thieves j) rfl hlt rfl rfl rfl
  case perm =>
    simp only [Sys.inflight, Sys.content, Sys.logicalBottom, OwnerPc.popping, Bool.false_eq_true,
      if_false, List.append_nil]
    rw [Array.entries_snoc _ (Int.le_of_lt hlt)] at hp
    rw [List.append_assoc]
    exact hp.trans (List.perm_append_comm.append_left _)

/-- `pop` loads `top = t > b`: the deque was empty. -/
theorem inv_popLoadTop_empty (hi : Inv s) (ho : s.owner = .popLoaded) (hgt : s.bottom < s.top) :
    Inv { s with owner := .popRestore } := by
  have hb : Sys.logicalBottom { s with owner := .popRestore } = s.logicalBottom := by
    simp [Sys.logicalBottom, ho, OwnerPc.popping]
  have hp := hi.perm
  simp only [Sys.inflight, ho] at hp
  exact ⟨hi.top_nonneg, hb ▸ hi.top_le, hb ▸ hi.size_lt, hi.array_lt, hgt,
    thieves_of_frame hi rfl rfl hb rfl rfl rfl, by simpa [Sys.inflight, Sys.content, hb] using hp⟩

/-- `pop`'s CAS of `top` from `b` to `b + 1` succeeds: the owner has the last item. -/
theorem inv_popCas_won {v : Option Nat} (hi : Inv s) (ho : s.owner = .popCas v)
    (he : s.top = s.bottom) :
    Inv { s with top := s.top + 1, owner := .popRestore, taken := s.taken ++ [v] } := by
  have hg := hi.owner
  have hsz := hi.size_lt
  have hp := hi.perm
  simp only [Sys.logicalBottom, Sys.content, Sys.inflight, OwnerPc.Ok, ho, OwnerPc.popping,
    if_true, List.append_nil] at hg hsz hp
  rw [he, Array.entries_snoc _ (Int.le_refl _), Array.entries_of_le _ (Int.le_refl _),
    List.nil_append, ← hg.2] at hp
  constructor
  case top_nonneg => show 0 ≤ s.top + 1; have := hi.top_nonneg; omega
  case top_le => show s.top + 1 ≤ s.bottom + 1; omega
  case size_lt => show s.bottom + 1 - (s.top + 1) < (s.cur.cap : Int); omega
  case array_lt => exact hi.array_lt
  case owner => show s.bottom < s.top + 1; omega
  case thieves =>
    exact fun j => ok_of_top_lt (hi.thieves j) (show s.top < s.top + 1 by omega) (Nat.le_refl _)
  case perm =>
    simp only [Sys.inflight, Sys.content, Sys.logicalBottom, OwnerPc.popping, if_true,
      List.append_nil, he]
    rw [Array.entries_of_le _ (Int.le_refl _), List.append_nil]
    exact hp

/-- `pop`'s CAS fails: a thief took the last item. -/
theorem inv_popCas_lost {v : Option Nat} (hi : Inv s) (ho : s.owner = .popCas v)
    (hne : s.top ≠ s.bottom) : Inv { s with owner := .popRestore } := by
  have hb : Sys.logicalBottom { s with owner := .popRestore } = s.logicalBottom := by
    simp [Sys.logicalBottom, ho, OwnerPc.popping]
  have hg := hi.owner
  have hp := hi.perm
  simp only [OwnerPc.Ok, ho] at hg
  simp only [Sys.inflight, ho] at hp
  exact ⟨hi.top_nonneg, hb ▸ hi.top_le, hb ▸ hi.size_lt, hi.array_lt,
    show s.bottom < s.top by omega,
    thieves_of_frame hi rfl rfl hb rfl rfl rfl, by simpa [Sys.inflight, Sys.content, hb] using hp⟩

/-- `pop`'s closing `bottom.store(b + 1)`. -/
theorem inv_popRestore (hi : Inv s) (ho : s.owner = .popRestore) :
    Inv { s with bottom := s.bottom + 1, owner := .idle } := by
  have hb : Sys.logicalBottom { s with bottom := s.bottom + 1, owner := .idle } =
      s.logicalBottom := by simp [Sys.logicalBottom, ho, OwnerPc.popping]
  have hp := hi.perm
  simp only [Sys.inflight, ho] at hp
  exact ⟨hi.top_nonneg, hb ▸ hi.top_le, hb ▸ hi.size_lt, hi.array_lt, trivial,
    thieves_of_frame hi rfl rfl hb rfl rfl rfl, by simpa [Sys.inflight, Sys.content, hb] using hp⟩

/-! ### The thieves' steps -/

theorem logicalBottom_ge (s : Sys) : s.bottom ≤ s.logicalBottom := by
  unfold Sys.logicalBottom; split <;> omega

/-- `steal`'s load of `bottom`: it goes on only when `t < b`. -/
theorem inv_stealLoadBottom {i : Nat} {t : Int} (hi : Inv s) (h : s.thieves i = .loadedTop t) :
    Inv (s.setThief i (if t < s.bottom then .loadedBottom t else .idle)) := by
  have ht : t ≤ s.top := by simpa [h, ThiefPc.Ok] using hi.thieves i
  refine inv_setThief hi ?_
  split
  · exact ⟨ht, fun _ => Int.lt_of_lt_of_le ‹_› (logicalBottom_ge s)⟩
  · trivial

/-- `steal`'s `get(t)` on the array it loaded, current or not. -/
theorem inv_stealGet {i a : Nat} {t : Int} (hi : Inv s) (h : s.thieves i = .loadedArray t a) :
    Inv (s.setThief i (.loadedVal t ((s.heap a).get t))) := by
  have h' := hi.thieves i
  rw [h] at h'
  exact inv_setThief hi ⟨h'.1, h'.2.2⟩

/-- Moving the first item of the deque to the items taken. -/
theorem perm_take_first {l T I R : List (Option Nat)} {v : Option Nat}
    (hp : List.Perm l (T ++ I ++ v :: R)) : List.Perm l (T ++ [v] ++ I ++ R) := by
  refine hp.trans ?_
  rw [List.append_assoc, List.append_assoc, List.append_assoc]
  exact List.perm_middle.append_left T

/-- `steal`'s CAS of `top` from `t` to `t + 1` succeeds: the thief has the item
at `t`, which is what it read. -/
theorem inv_stealCas_won {i : Nat} {t : Int} {v : Option Nat} (hi : Inv s)
    (h : s.thieves i = .loadedVal t v) (he : s.top = t) :
    Inv { s.setThief i .idle with top := t + 1, taken := s.taken ++ [v] } := by
  have h' := hi.thieves i
  rw [h] at h'
  obtain ⟨hlt, hv⟩ := h'.2 he
  have hsz := hi.size_lt
  constructor
  case top_nonneg => show 0 ≤ t + 1; have := hi.top_nonneg; omega
  case top_le => show t + 1 ≤ s.logicalBottom; omega
  case size_lt => show s.logicalBottom - (t + 1) < (s.cur.cap : Int); omega
  case array_lt => exact hi.array_lt
  case owner => exact ownerOk_of_top_le hi.owner (show s.top ≤ t + 1 by omega) rfl rfl rfl
  case thieves =>
    intro j
    by_cases e : j = i
    · subst e; simp [Sys.setThief, ThiefPc.Ok]
    · have hj : (s.setThief i .idle).thieves j = s.thieves j := Function.update_noteq e _ _
      exact hj ▸ ok_of_top_lt (hi.thieves j) (show s.top < t + 1 by omega) (Nat.le_refl _)
  case perm =>
    have hp := hi.perm
    rw [Sys.content, he, Array.entries_cons _ hlt, ← hv] at hp
    exact perm_take_first hp

/-- Every step keeps the invariant. -/
theorem inv_step {s' : Sys} {a : Action} (hi : Inv s) (h : s.step a = some s') : Inv s' := by
  cases a with
  | push addr =>
    simp only [Sys.step] at h
    split at h
    next ho =>
      cases h
      split
      next hg => exact inv_push_grow hi ho hg addr
      next hg => exact inv_push_put hi ho hg addr
    next => cases h
  | pushResize =>
    simp only [Sys.step] at h
    split at h
    next ho => cases h; exact inv_pushResize hi ho
    next => cases h
  | pushPut =>
    simp only [Sys.step] at h
    split at h
    next ho => cases h; exact inv_pushPut hi ho
    next => cases h
  | pushStore =>
    simp only [Sys.step] at h
    split at h
    next ho => cases h; exact inv_pushStore hi ho
    next => cases h
  | pop =>
    simp only [Sys.step] at h
    split at h
    next ho => cases h; exact inv_pop hi ho
    next => cases h
  | popLoadTop =>
    simp only [Sys.step] at h
    split at h
    next ho =>
      split at h
      · split at h
        · cases h; exact inv_popLoadTop_last hi ho ‹_›
        · cases h; exact inv_popLoadTop_take hi ho (by omega)
      · cases h; exact inv_popLoadTop_empty hi ho (by omega)
    next => cases h
  | popCas =>
    simp only [Sys.step] at h
    split at h
    next ho =>
      split at h
      · cases h; exact inv_popCas_won hi ho ‹_›
      · cases h; exact inv_popCas_lost hi ho ‹_›
    next => cases h
  | popRestore =>
    simp only [Sys.step] at h
    split at h
    next ho => cases h; exact inv_popRestore hi ho
    next => cases h
  | stealLoadTop i =>
    simp only [Sys.step] at h
    split at h
    next => cases h; exact inv_setThief hi (Int.le_refl _)
    next => cases h
  | stealLoadBottom i =>
    simp only [Sys.step] at h
    split at h
    next hth => cases h; exact inv_stealLoadBottom hi hth
    next => cases h
  | stealLoadArray i =>
    simp only [Sys.step] at h
    split at h
    next t hth =>
      cases h
      have h' := hi.thieves i
      rw [hth] at h'
      exact inv_setThief hi ⟨h'.1, hi.array_lt, fun e => ⟨h'.2 e, rfl⟩⟩
    next => cases h
  | stealGet i =>
    simp only [Sys.step] at h
    split at h
    next hth => cases h; exact inv_stealGet hi hth
    next => cases h
  | stealCas i =>
    simp only [Sys.step] at h
    split at h
    next hth =>
      split at h
      · cases h; exact inv_stealCas_won hi hth ‹_›
      · cases h; exact inv_setThief hi trivial
    next => cases h

theorem reachable_inv {s : Sys} (h : Reachable s) : Inv s := by
  induction h with
  | init => exact inv_init
  | step _ _ hs ih => exact inv_step ih hs

-- ---------------------------------------------------------------------------
-- Exactly once
-- ---------------------------------------------------------------------------

/-- While a `pop` is under way the owner holds no pushed item: if the deque is
empty then, every push has been taken, each once. -/
theorem perm_taken_of_popping (hi : Inv s) (hpop : s.owner.popping = true) (hc : s.content = []) :
    List.Perm ((List.range s.pushed.length).map some) s.taken := by
  have hin : s.inflight = [] := by
    unfold Sys.inflight
    split <;> simp_all [OwnerPc.popping]
  simpa [hin, hc] using hi.perm

/-- A `pop` gives up, going to its closing store without an item, only where
the deque is empty: at its load of `top` (`t > b`) or at a CAS that a thief
has beaten. -/
theorem content_nil_of_giveUp {s' : Sys} {a : Action} (hi : Inv s) (h : s.step a = some s')
    (ha : a = .popLoadTop ∨ a = .popCas) (ho : s'.owner = .popRestore) (ht : s'.taken = s.taken) :
    s.owner.popping = true ∧ s.content = [] := by
  have hle := hi.top_le
  have hg := hi.owner
  rcases ha with rfl | rfl <;> simp only [Sys.step] at h <;> split at h <;> try cases h
  case inl.h_1 hpc =>
    simp only [Sys.logicalBottom, hpc, OwnerPc.popping, if_true] at hle
    split_ifs at h with h1 h2 <;> cases h <;> simp only [reduceCtorEq] at ho
    exact ⟨by simp [hpc, OwnerPc.popping], Array.entries_of_le _ (by
      simp only [Sys.logicalBottom, hpc, OwnerPc.popping, if_true]; omega)⟩
  case inr.h_1 v hpc =>
    simp only [Sys.logicalBottom, OwnerPc.Ok, hpc, OwnerPc.popping, if_true] at hle hg
    split_ifs at h with h1 <;> cases h
    · simp at ht
    · exact ⟨by simp [hpc, OwnerPc.popping], Array.entries_of_le _ (by
        simp only [Sys.logicalBottom, hpc, OwnerPc.popping, if_true]; omega)⟩

/-- The owner's CAS for the last item and a thief's CAS that still expects the
current `top` race for one index: the last item's, which both read. -/
theorem race_last {v w : Option Nat} {i : Nat} {t : Int} (hi : Inv s) (ho : s.owner = .popCas v)
    (hth : s.thieves i = .loadedVal t w) (ht : s.top = t) :
    s.bottom = t ∧ w = v ∧ s.content = [v] := by
  have hg := hi.owner
  have hq := hi.thieves i
  simp only [OwnerPc.Ok, ho] at hg
  simp only [hth, ThiefPc.Ok, Sys.logicalBottom, ho, OwnerPc.popping, if_true] at hq
  obtain ⟨hlt, hw⟩ := hq.2 ht
  have hb : s.bottom = t := by omega
  refine ⟨hb, by rw [hw, hg.2, hb], ?_⟩
  simp only [Sys.content, Sys.logicalBottom, ho, OwnerPc.popping, if_true, ht, hb]
  rw [Array.entries_snoc _ (Int.le_refl _), Array.entries_of_le _ (Int.le_refl _), hg.2, hb]
  rfl

/-- Whichever of the two CASes racing for the last item runs first takes it,
and the other then fails. -/
theorem race_last_steps {v w : Option Nat} {i : Nat} {t : Int} (hi : Inv s)
    (ho : s.owner = .popCas v) (hth : s.thieves i = .loadedVal t w) (ht : s.top = t) :
    (∃ s₁ s₂, s.step .popCas = some s₁ ∧ s₁.step (.stealCas i) = some s₂ ∧
        s₁.taken = s.taken ++ [v] ∧ s₂.taken = s₁.taken) ∧
      (∃ s₁ s₂, s.step (.stealCas i) = some s₁ ∧ s₁.step .popCas = some s₂ ∧
        s₁.taken = s.taken ++ [v] ∧ s₂.taken = s₁.taken) := by
  obtain ⟨hb, rfl, -⟩ := race_last hi ho hth ht
  have hne : t + 1 ≠ t := by omega
  let s₁ : Sys := { s with top := s.top + 1, owner := .popRestore, taken := s.taken ++ [w] }
  let s₁' : Sys := { s.setThief i .idle with top := t + 1, taken := s.taken ++ [w] }
  exact ⟨⟨s₁, s₁.setThief i .idle, by simp [s₁, Sys.step, ho, ht, hb],
      by simp [s₁, Sys.step, hth, ht, hne], rfl, rfl⟩,
    ⟨s₁', { s₁' with owner := .popRestore }, by simp [s₁', Sys.step, hth, ht],
      by simp [s₁', Sys.step, Sys.setThief, ho, hb, hne], rfl, rfl⟩⟩

/-- **Chase–Lev exactly-once.** In every state reachable by any interleaving
of the owner's `push`es (growing the array or not) and `pop`s with any
number of thieves' `steal`s:

* no push's item is taken twice by a successful `pop` or `steal`, and every
  item taken was pushed;
* whenever the owner is idle, the pushes not taken are exactly the entries
  at indices `top .. bottom - 1` of the current array, each once;
* a `pop` gives up without an item only on an empty deque, and then every
  push has been taken, each exactly once;
* when the owner's CAS for the last item and a thief's CAS race for it, both
  read that item, and whichever runs first takes it while the other fails. -/
theorem steal_queue_exactly_once (h : Reachable s) :
    s.taken.Nodup ∧ (∀ v ∈ s.taken, ∃ k < s.pushed.length, v = some k) ∧
      (s.owner = .idle →
        List.Perm ((List.range s.pushed.length).map some)
          (s.taken ++ s.cur.entries s.top s.bottom)) ∧
      (∀ a s', s.step a = some s' → (a = .popLoadTop ∨ a = .popCas) →
        s'.owner = .popRestore → s'.taken = s.taken →
        s.content = [] ∧ List.Perm ((List.range s.pushed.length).map some) s.taken) ∧
      ∀ v i t w, s.owner = .popCas v → s.thieves i = .loadedVal t w → s.top = t →
        s.content = [v] ∧ w = v ∧
        (∃ s₁ s₂, s.step .popCas = some s₁ ∧ s₁.step (.stealCas i) = some s₂ ∧
          s₁.taken = s.taken ++ [v] ∧ s₂.taken = s₁.taken) ∧
        (∃ s₁ s₂, s.step (.stealCas i) = some s₁ ∧ s₁.step .popCas = some s₂ ∧
          s₁.taken = s.taken ++ [v] ∧ s₂.taken = s₁.taken) := by
  have hi := reachable_inv h
  have hnd : (s.taken ++ s.inflight ++ s.content).Nodup :=
    hi.perm.nodup_iff.1 (List.Nodup.map (Option.some_injective _) (List.nodup_range _))
  refine ⟨(List.nodup_append.1 (List.nodup_append.1 hnd).1).1, fun v hv => ?_, fun ho => ?_,
    fun a s' hs ha ho ht => ?_, fun v i t w ho hth ht => ?_⟩
  · obtain ⟨k, hk, rfl⟩ := List.mem_map.1
      (hi.perm.mem_iff.2 (List.mem_append_left _ (List.mem_append_left _ hv)))
    exact ⟨k, List.mem_range.1 hk, rfl⟩
  · simpa [Sys.inflight, Sys.content, Sys.logicalBottom, ho, OwnerPc.popping] using hi.perm
  · obtain ⟨hpop, hc⟩ := content_nil_of_giveUp hi hs ha ho ht
    exact ⟨hc, perm_taken_of_popping hi hpop hc⟩
  · obtain ⟨-, hw, hc⟩ := race_last hi ho hth ht
    exact ⟨hc, hw, race_last_steps hi ho hth ht⟩

/-- The owner's `pop` and thief `0`'s `steal` racing for the one item pushed:
both are at their CAS, with `top` as the thief read it. -/
theorem steal_queue_exactly_once_race :
    ∃ s, Reachable s ∧ s.owner = .popCas (some 0) ∧ s.thieves 0 = .loadedVal 0 (some 0) ∧
      s.top = 0 ∧
      (s.taken.Nodup ∧ (∀ v ∈ s.taken, ∃ k < s.pushed.length, v = some k) ∧
        (s.owner = .idle →
          List.Perm ((List.range s.pushed.length).map some)
            (s.taken ++ s.cur.entries s.top s.bottom)) ∧
        (∀ a s', s.step a = some s' → (a = .popLoadTop ∨ a = .popCas) →
          s'.owner = .popRestore → s'.taken = s.taken →
          s.content = [] ∧ List.Perm ((List.range s.pushed.length).map some) s.taken) ∧
        ∀ v i t w, s.owner = .popCas v → s.thieves i = .loadedVal t w → s.top = t →
          s.content = [v] ∧ w = v ∧
          (∃ s₁ s₂, s.step .popCas = some s₁ ∧ s₁.step (.stealCas i) = some s₂ ∧
            s₁.taken = s.taken ++ [v] ∧ s₂.taken = s₁.taken) ∧
          (∃ s₁ s₂, s.step (.stealCas i) = some s₁ ∧ s₁.step .popCas = some s₂ ∧
            s₁.taken = s.taken ++ [v] ∧ s₂.taken = s₁.taken)) :=
  have h : Reachable _ :=
    .step .popLoadTop (.step .pop (.step (.stealGet 0) (.step (.stealLoadArray 0)
      (.step (.stealLoadBottom 0) (.step (.stealLoadTop 0) (.step .pushStore (.step .pushPut
        (.step (.push 7) .init rfl) rfl) rfl) rfl) rfl) rfl) rfl) rfl) rfl
  ⟨_, h, rfl, rfl, rfl, steal_queue_exactly_once h⟩

end

end StealQueue

end TinyCoro
