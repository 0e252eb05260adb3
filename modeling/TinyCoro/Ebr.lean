import Mathlib.Algebra.Order.Ring.Nat
import Mathlib.Data.List.Nodup

/-!
# TinyCoro — epoch-based reclamation

`EbrManager` (`include/ebr.h`) keeps a global epoch and, per registered
thread, an `active` flag, the epoch it entered at, three bins of retired
pointers and a retirement counter. `enter` reads the global epoch
(`relaxed`), stores it as the thread's epoch, then sets `active`; `exit`
clears `active`; `retire` pushes a pointer into `retire_bins[e % 3]` for the
epoch `e` it reads, and every 65th retirement calls `try_advance`.
`try_advance` reads the global epoch *before* taking `mtx_`, then, under it,
checks that every active thread entered at that value, stores it plus one and
deletes every thread's bin `(next + 1) % 3`.

`EbrManager` is a public class, and `retire` a public template: any thread
holding a `LocalState` may publish a pointer and retire the old one, as often
as it likes. `Sys` is that use of the manager, with one published pointer
standing for the shared structure and `publish` for the store that
unpublishes the old pointer before `retire`. A reader (a thread inside its
critical section) loads the published pointer.

`Sys` runs these as a sequentially consistent interleaving of the atomic
accesses: the three accesses of `enter`, the load and the push of `retire`,
and `try_advance`'s unlocked load followed by its locked section as one
step. The ghost field `freed` records every deleted pointer. Two things are
coarser than the code. Other threads' `enter`/`exit` do not take `mtx_`, so
the locked section is one step only for the interleavings written here. And
`retire`'s `push_back` into its own bin takes no lock, while another thread's
`try_advance` clears every thread's bins under `mtx_`: a push into the bin
being cleared races with the clearing loop, which one atomic locked step
cannot show.

The runtime drives the manager less hard (`RtSys`): each `Worker` registers
one `LocalState`, and the only `retire` on it is its own `StealQueue::push`
retiring the old array after the queue's array, `1024` slots at first, has
doubled. The array cannot double a `51`st time (`new[]` of its `8`-byte
slots would ask for `2^64` bytes), so no `LocalState` reaches the `65`
retires that call `try_advance`.

Main results:

* `retired_array_freed_in_use` — with retires called directly, a reachable
  state in which a reader is inside its critical section holding the array
  it loaded there while that array has been deleted: a `try_advance` that
  read the epoch before two other advances, and a reader whose `enter` read
  the epoch as long ago, let the stale advance pass its check and clear the
  bin of the current epoch.
* `epoch_store_goes_back` — on the same run, the stale advance stores its
  old reading plus one over a larger global epoch, and the bin it clears
  holds an array retired at the epoch just overwritten.
* `freed_at_most_once` — what the reclamation does keep, over every
  interleaving: no pointer is deleted twice, the published array is never
  deleted, and no pointer still waiting to be reclaimed has been deleted.
* `retired_array_never_freed` — in the runtime no array is deleted while a
  reader holds it, because none is ever deleted: no `retire` calls
  `try_advance`, and the retired arrays are never reclaimed.
-/

namespace TinyCoro

namespace Ebr

/-- `EbrManager::LocalState`, with `Node`s as the pointers they hold. -/
structure LocalState where
  active : Bool
  epoch : Nat
  retireBins : List (List Nat)
  opCount : Nat
  deriving DecidableEq, Repr

/-- `register_thread`'s fresh state. -/
def LocalState.init : LocalState := ⟨false, 0, [[], [], []], 0⟩

/-- The fields of `EbrManager`: `global_epoch_` and `threads_`. -/
structure EbrManager where
  globalEpoch : Nat
  threads : List LocalState
  deriving DecidableEq, Repr

/-- The check of `try_advance`: no active thread's epoch differs from
`global`. -/
def caughtUp (threads : List LocalState) (global : Nat) : Bool :=
  threads.all fun t => !(t.active && t.epoch != global)

/-- `try_advance`'s locked section for the `global` it read before taking
`mtx_`: store `global + 1` and delete every thread's bin `(global + 2) % 3`
when nobody lags. Returns the manager and the deleted pointers. -/
def EbrManager.tryAdvanceLocked (m : EbrManager) (global : Nat) : EbrManager × List Nat :=
  if caughtUp m.threads global then
    let next := global + 1
    let safe := (next + 1) % 3
    (⟨next, m.threads.map fun t => { t with retireBins := t.retireBins.set safe [] }⟩,
      m.threads.flatMap fun t => t.retireBins.getD safe [])
  else (m, [])

/-- `retire`'s push into `retire_bins[e % 3]` and its `op_count` bump;
`true` when it goes on to `try_advance`. -/
def LocalState.retirePush (l : LocalState) (e ptr : Nat) : LocalState × Bool :=
  let l' := { l with retireBins := l.retireBins.modify (· ++ [ptr]) (e % 3),
                     opCount := l.opCount + 1 }
  if l'.opCount > 64 then ({ l' with opCount := 0 }, true) else (l', false)

/-- Where a thread is in the EBR calls. -/
inductive Pc where
  | idle
  /-- `enter`: read the global epoch `g`. -/
  | enterLoaded (g : Nat)
  /-- `enter`: stored its epoch, `active` not yet set. -/
  | enterStored
  /-- Inside the critical section, holding the pointers it loaded there. -/
  | inside (held : List Nat)
  /-- Published a new pointer over `ptr` (as `StealQueue::push` stores its
  grown array); `retire(ptr)` comes next. -/
  | retiring (ptr : Nat)
  /-- `retire`: read the global epoch `e`. -/
  | retireLoaded (ptr e : Nat)
  /-- `retire` called `try_advance`. -/
  | advancing
  /-- `try_advance`: read the global epoch `g`, `mtx_` not yet taken. -/
  | advanceLoaded (g : Nat)
  deriving DecidableEq, Repr

/-- The manager, each registered thread's position, the published array
pointer, the next fresh allocation, and the ghost record of deletions. -/
structure Sys where
  mgr : EbrManager
  pcs : List Pc
  published : Nat
  nextObj : Nat
  freed : List Nat
  deriving DecidableEq, Repr

/-- `n` registered threads, all idle, array `0` published. -/
def Sys.init (n : Nat) : Sys :=
  ⟨⟨0, List.replicate n LocalState.init⟩, List.replicate n .idle, 0, 1, []⟩

/-- One atomic step of thread `t`. -/
inductive Action where
  | enterLoad | enterStoreEpoch | enterStoreActive | loadArray | exit
  /-- Publish a fresh pointer over the old one, then `retire` the old one
  (in `StealQueue::push`: `array.store(new_a)`, then `retire(a)`). -/
  | publish
  | retireLoad | retirePush | advanceLoad | advanceLocked
  deriving DecidableEq, Repr

/-- Replace thread `t`'s state and position. -/
def Sys.set (s : Sys) (t : Nat) (l : LocalState) (pc : Pc) : Sys :=
  { s with mgr := { s.mgr with threads := s.mgr.threads.set t l }, pcs := s.pcs.set t pc }

/-- Thread `t` takes one step, or `none` when `a` is not its next step. -/
def Sys.step (s : Sys) (t : Nat) (a : Action) : Option Sys := do
  let l ← s.mgr.threads[t]?
  let pc ← s.pcs[t]?
  match a, pc with
  | .enterLoad, .idle => some (s.set t l (.enterLoaded s.mgr.globalEpoch))
  | .enterStoreEpoch, .enterLoaded g => some (s.set t { l with epoch := g } .enterStored)
  | .enterStoreActive, .enterStored => some (s.set t { l with active := true } (.inside []))
  | .loadArray, .inside held => some (s.set t l (.inside (s.published :: held)))
  | .exit, .inside _ => some (s.set t { l with active := false } .idle)
  | .publish, .idle =>
    some { s.set t l (.retiring s.published) with published := s.nextObj, nextObj := s.nextObj + 1 }
  | .retireLoad, .retiring ptr => some (s.set t l (.retireLoaded ptr s.mgr.globalEpoch))
  | .retirePush, .retireLoaded ptr e =>
    let r := l.retirePush e ptr
    some (s.set t r.1 (if r.2 then .advancing else .idle))
  | .advanceLoad, .advancing => some (s.set t l (.advanceLoaded s.mgr.globalEpoch))
  | .advanceLocked, .advanceLoaded g =>
    let r := s.mgr.tryAdvanceLocked g
    some { s with mgr := r.1, pcs := s.pcs.set t .idle, freed := s.freed ++ r.2 }
  | _, _ => none

/-- A schedule: which thread takes which step, in order. -/
def Sys.run (s : Sys) : List (Nat × Action) → Option Sys
  | [] => some s
  | (t, a) :: rest => (s.step t a).bind fun s' => s'.run rest

inductive Reachable (n : Nat) : Sys → Prop where
  | init : Reachable n (Sys.init n)
  | step {s s' : Sys} (t : Nat) (a : Action) : Reachable n s → s.step t a = some s' → Reachable n s'

theorem reachable_run {n : Nat} {s s' : Sys} (hs : Reachable n s) :
    ∀ {sched : List (Nat × Action)}, s.run sched = some s' → Reachable n s'
  | [], h => by cases h; exact hs
  | (t, a) :: rest, h => by
    simp only [Sys.run, Option.bind_eq_some] at h
    obtain ⟨s₁, h₁, h₂⟩ := h
    exact reachable_run (.step t a hs h₁) h₂

-- ---------------------------------------------------------------------------
-- A deleted array in use
-- ---------------------------------------------------------------------------

/-- One publish and retire by thread `t` (a growth of a deque): publish, then
both steps of `retire`. -/
def grow (t : Nat) : List (Nat × Action) := [(t, .publish), (t, .retireLoad), (t, .retirePush)]

/-- `65` of them by thread `t`: the last `retire` calls `try_advance`. -/
def growToAdvance (t : Nat) : List (Nat × Action) := (List.replicate 65 (grow t)).flatten

/-- Four threads: reader `0`, deque owner `1`, advancers `2` and `3`.
Thread `3`'s `try_advance` reads epoch `0` and stalls; reader `0` reads epoch
`0` in `enter` and stalls; thread `2` advances twice (nobody is active);
the reader then finishes `enter` (epoch `0`, active) and loads the array;
the owner grows the deque and retires that array at epoch `2`; thread `3`
takes `mtx_`, finds every active thread at its stale epoch `0`, stores `1`
and deletes every bin `2`. -/
def staleAdvanceSchedule : List (Nat × Action) :=
  growToAdvance 3 ++ [(3, .advanceLoad), (0, .enterLoad)] ++
    growToAdvance 2 ++ [(2, .advanceLoad), (2, .advanceLocked)] ++
    growToAdvance 2 ++ [(2, .advanceLoad), (2, .advanceLocked)] ++
    [(0, .enterStoreEpoch), (0, .enterStoreActive), (0, .loadArray)] ++
    grow 1 ++ [(3, .advanceLocked)]

/-- `staleAdvanceSchedule` up to the stale `try_advance`'s locked section. -/
def stalePrefix : List (Nat × Action) :=
  growToAdvance 3 ++ [(3, .advanceLoad), (0, .enterLoad)] ++
    growToAdvance 2 ++ [(2, .advanceLoad), (2, .advanceLocked)] ++
    growToAdvance 2 ++ [(2, .advanceLoad), (2, .advanceLocked)] ++
    [(0, .enterStoreEpoch), (0, .enterStoreActive), (0, .loadArray)] ++ grow 1

set_option maxRecDepth 20000 in
/-- The states before and after the stale `try_advance`'s locked section:
the global epoch is `2` (two advances by thread `2`), the owner retired array
`195` into its bin `2 % 3` at that epoch, and the reader holds `195`; the
locked section stores `1` and deletes bin `2`. -/
theorem stale_advance_states : ∃ s s', (Sys.init 4).run stalePrefix = some s ∧
    s.step 3 .advanceLocked = some s' ∧ s.mgr.globalEpoch = 2 ∧ 195 ∉ s.freed ∧
    (∃ l, s.mgr.threads[1]? = some l ∧ 195 ∈ l.retireBins.getD 2 []) ∧
    s'.mgr.globalEpoch = 1 ∧ 195 ∈ s'.freed ∧ s'.pcs[0]? = some (.inside [195]) := by
  have h : ((Sys.init 4).run stalePrefix).bind (fun s => (s.step 3 .advanceLocked).map fun s' =>
      (s.mgr.globalEpoch, s'.mgr.globalEpoch, [decide (195 ∉ s.freed), decide (195 ∈ s'.freed),
        s.mgr.threads[1]?.any fun l => decide (195 ∈ l.retireBins.getD 2 [])], s'.pcs[0]?)) =
      some (2, 1, [true, true, true], some (.inside [195])) := by decide
  simp only [Option.bind_eq_some, Option.map_eq_some', Prod.mk.injEq, List.cons.injEq,
    decide_eq_true_eq, and_true] at h
  obtain ⟨s, hs, s', hs', he, he', ⟨hf, hf', hb⟩, hp⟩ := h
  replace hb : ∃ l, s.mgr.threads[1]? = some l ∧ 195 ∈ l.retireBins.getD 2 [] := by
    revert hb; cases s.mgr.threads[1]? <;> simp
  exact ⟨s, s', hs, hs', he, hf, hb, he', hf', hp⟩

/-- **A retired array is deleted while a reader uses it.** Along
`staleAdvanceSchedule` the reader is inside its critical section holding
array `195`, which it loaded there, and array `195` has been deleted — by the
`try_advance` whose epoch read predates the reader's `enter`. -/
theorem retired_array_freed_in_use :
    ∃ s, Reachable 4 s ∧ s.pcs[0]? = some (.inside [195]) ∧ 195 ∈ s.freed ∧
      s.mgr.globalEpoch = 1 := by
  obtain ⟨s, s', hs, hs', -, -, -, he', hf', hp⟩ := stale_advance_states
  exact ⟨s', .step 3 .advanceLocked (reachable_run .init hs) hs', hp, hf', he'⟩

/-- **The global epoch goes back.** Along `stalePrefix` the global epoch has
reached `2`; the stale `try_advance` of thread `3`, which read `0` before
taking `mtx_`, then stores `1` — not one more than the `2` it overwrites — and
its advance to epoch `1` deletes array `195`, which thread `1` retired into bin
`2 % 3` at epoch `2`, so not at an epoch of at most `1 - 2`. -/
theorem epoch_store_goes_back :
    ∃ s s', Reachable 4 s ∧ s.step 3 .advanceLocked = some s' ∧ s.mgr.globalEpoch = 2 ∧
      s'.mgr.globalEpoch = 1 ∧ 195 ∉ s.freed ∧ 195 ∈ s'.freed ∧
      ∃ l, s.mgr.threads[1]? = some l ∧ 195 ∈ l.retireBins.getD 2 [] := by
  obtain ⟨s, s', hs, hs', he, hf, hb, he', hf', -⟩ := stale_advance_states
  exact ⟨s, s', reachable_run .init hs, hs', he, he', hf, hf', hb⟩

-- ---------------------------------------------------------------------------
-- What the reclamation keeps: no pointer is deleted twice
-- ---------------------------------------------------------------------------

/-- The pointer a thread is about to retire. -/
def Pc.retiree : Pc → List Nat
  | .retiring ptr | .retireLoaded ptr _ => [ptr]
  | _ => []

/-- The pointers in a thread's bins. -/
def LocalState.retired (l : LocalState) : List Nat := l.retireBins.flatten

/-- Every pointer handed to the reclamation: the published array, the ones
about to be retired, the ones in a bin, and the deleted ones. -/
def Sys.tracked (s : Sys) : List Nat :=
  s.published :: (s.pcs.flatMap Pc.retiree ++ s.mgr.threads.flatMap LocalState.retired ++ s.freed)

theorem count_flatMap_set {α : Type} {l : List α} {t : Nat} {x : α} (hx : l[t]? = some x)
    (g : α → List Nat) (y : α) (p : Nat) :
    ((l.set t y).flatMap g).count p + (g x).count p = (l.flatMap g).count p + (g y).count p := by
  induction l generalizing t with
  | nil => simp at hx
  | cons a l ih =>
    cases t with
    | zero =>
      simp only [List.getElem?_cons_zero, Option.some.injEq] at hx
      subst hx
      simp only [List.set_cons_zero, List.flatMap_cons, List.count_append]
      omega
    | succ t =>
      have := ih (by simpa only [List.getElem?_cons_succ] using hx)
      simp only [List.set_cons_succ, List.flatMap_cons, List.count_append]
      omega

/-- Appending to one bin adds at most that pointer. -/
theorem count_flatten_modify_le (L : List (List Nat)) (i ptr p : Nat) :
    (L.modify (· ++ [ptr]) i).flatten.count p ≤ L.flatten.count p + [ptr].count p := by
  induction L generalizing i with
  | nil => simp
  | cons a L ih =>
    cases i with
    | zero =>
      simp only [List.modify_zero_cons, List.flatten_cons, List.count_append]
      omega
    | succ i =>
      have := ih i
      simp only [List.modify_succ_cons, List.flatten_cons, List.count_append]
      omega

/-- Emptying one bin removes exactly what it held. -/
theorem count_flatten_set_nil (L : List (List Nat)) (i p : Nat) :
    (L.set i []).flatten.count p + (L.getD i []).count p = L.flatten.count p := by
  induction L generalizing i with
  | nil => simp
  | cons a L ih =>
    cases i with
    | zero => simp [List.count_append]; omega
    | succ i =>
      have := ih i
      simp only [List.set_cons_succ, List.flatten_cons, List.getD_cons_succ, List.count_append]
      omega

theorem count_retired_retirePush (l : LocalState) (e ptr p : Nat) :
    (l.retirePush e ptr).1.retired.count p ≤ l.retired.count p + [ptr].count p := by
  have h : (l.retirePush e ptr).1.retireBins = l.retireBins.modify (· ++ [ptr]) (e % 3) := by
    simp only [LocalState.retirePush]; split <;> rfl
  simpa only [LocalState.retired, h] using count_flatten_modify_le l.retireBins (e % 3) ptr p

/-- `try_advance` moves the pointers of the bins it empties to its result. -/
theorem count_tryAdvanceLocked (m : EbrManager) (g p : Nat) :
    ((m.tryAdvanceLocked g).1.threads.flatMap LocalState.retired).count p +
      (m.tryAdvanceLocked g).2.count p = (m.threads.flatMap LocalState.retired).count p := by
  unfold EbrManager.tryAdvanceLocked
  split
  · simp only
    induction m.threads with
    | nil => simp
    | cons t ts ih =>
      have := count_flatten_set_nil t.retireBins ((g + 1 + 1) % 3) p
      simp only [List.map_cons, List.flatMap_cons, LocalState.retired, List.count_append] at ih ⊢
      omega
  · simp

theorem count_tracked_set {s : Sys} {t : Nat} {l : LocalState} {pc : Pc}
    (hl : s.mgr.threads[t]? = some l) (hpc : s.pcs[t]? = some pc) (l' : LocalState) (pc' : Pc)
    (p : Nat) :
    (s.set t l' pc').tracked.count p + l.retired.count p + pc.retiree.count p =
      s.tracked.count p + l'.retired.count p + pc'.retiree.count p := by
  have h1 := count_flatMap_set hl LocalState.retired l' p
  have h2 := count_flatMap_set hpc Pc.retiree pc' p
  simp only [Sys.tracked, Sys.set, List.count_cons, List.count_append] at h1 h2 ⊢
  omega

/-- Each pointer is handed over at most once, and none at or beyond the next
fresh allocation. -/
structure Inv (s : Sys) : Prop where
  once : ∀ p, s.tracked.count p ≤ 1
  fresh : ∀ p, s.nextObj ≤ p → s.tracked.count p = 0

theorem inv_init (n : Nat) : Inv (Sys.init n) := by
  have h : (Sys.init n).tracked = [0] := by
    simp [Sys.tracked, Sys.init, LocalState.retired, LocalState.init, Pc.retiree]
  refine ⟨fun p => ?_, fun p (hp : 1 ≤ p) => ?_⟩ <;> simp only [h, List.count_singleton, beq_iff_eq] <;> split <;>
    omega

theorem inv_of_le {s s' : Sys} (hi : Inv s) (hn : s'.nextObj = s.nextObj)
    (h : ∀ p, s'.tracked.count p ≤ s.tracked.count p) : Inv s' :=
  ⟨fun p => (h p).trans (hi.once p), fun p hp => Nat.le_zero.1 ((h p).trans_eq (hi.fresh p (hn ▸ hp)))⟩

/-- A step of thread `t` that hands over nothing new. -/
theorem inv_set {s : Sys} {t : Nat} {l : LocalState} {pc : Pc} (hi : Inv s)
    (hl : s.mgr.threads[t]? = some l) (hpc : s.pcs[t]? = some pc) {l' : LocalState} {pc' : Pc}
    (h : ∀ p, l'.retired.count p + pc'.retiree.count p ≤ l.retired.count p + pc.retiree.count p) :
    Inv (s.set t l' pc') :=
  inv_of_le hi rfl fun p => by
    have := count_tracked_set hl hpc l' pc' p
    have := h p
    omega

/-- A publish hands over a fresh pointer: it is handed over once. -/
theorem inv_publish {s : Sys} {t : Nat} {l : LocalState} (hi : Inv s)
    (hl : s.mgr.threads[t]? = some l) (hpc : s.pcs[t]? = some .idle) :
    Inv { s.set t l (.retiring s.published) with published := s.nextObj, nextObj := s.nextObj + 1 } := by
  have key : ∀ p, ({ s.set t l (.retiring s.published) with
      published := s.nextObj, nextObj := s.nextObj + 1 } : Sys).tracked.count p =
      s.tracked.count p + [s.nextObj].count p := fun p => by
    have := count_tracked_set hl hpc l (.retiring s.published) p
    simp only [Sys.tracked, Sys.set, Pc.retiree, List.count_cons, List.count_append,
      List.count_nil] at this ⊢
    omega
  refine ⟨fun p => ?_, fun p (hp : s.nextObj + 1 ≤ p) => ?_⟩ <;> rw [key p] <;>
    simp only [List.count_singleton, beq_iff_eq]
  · have := hi.once p
    split
    · subst_vars; have := hi.fresh s.nextObj (Nat.le_refl _); omega
    · omega
  · rw [hi.fresh p (by omega), if_neg (by omega)]

/-- `try_advance`'s locked section moves pointers from the bins to `freed`. -/
theorem inv_advanceLocked {s : Sys} {t g : Nat} (hi : Inv s) (hpc : s.pcs[t]? = some (.advanceLoaded g)) :
    Inv { s with mgr := (s.mgr.tryAdvanceLocked g).1, pcs := s.pcs.set t .idle,
                 freed := s.freed ++ (s.mgr.tryAdvanceLocked g).2 } :=
  inv_of_le hi rfl fun p => by
    have h1 := count_flatMap_set hpc Pc.retiree .idle p
    have h2 := count_tryAdvanceLocked s.mgr g p
    simp only [Sys.tracked, Pc.retiree, List.count_cons, List.count_append, List.count_nil] at h1 h2 ⊢
    omega

theorem inv_step {s s' : Sys} {t : Nat} {a : Action} (hi : Inv s) (h : s.step t a = some s') :
    Inv s' := by
  simp only [Sys.step, Option.bind_eq_bind, Option.bind_eq_some] at h
  obtain ⟨l, hl, pc, hpc, h⟩ := h
  split at h <;> cases h
  · exact inv_set hi hl hpc fun _ => Nat.le_refl _
  · exact inv_set hi hl hpc fun _ => Nat.le_refl _
  · exact inv_set hi hl hpc fun _ => Nat.le_refl _
  · exact inv_set hi hl hpc fun _ => Nat.le_refl _
  · exact inv_set hi hl hpc fun _ => Nat.le_refl _
  · exact inv_publish hi hl hpc
  · exact inv_set hi hl hpc fun _ => Nat.le_refl _
  · rename_i ptr e
    refine inv_set hi hl hpc fun p => ?_
    have := count_retired_retirePush l e ptr p
    split <;> simp only [Pc.retiree, List.count_nil] <;> omega
  · exact inv_set hi hl hpc fun _ => Nat.le_refl _
  · exact inv_advanceLocked hi hpc

theorem reachable_inv {n : Nat} {s : Sys} (h : Reachable n s) : Inv s := by
  induction h with
  | init => exact inv_init n
  | step t a _ hs ih => exact inv_step ih hs

/-- Slots of the array a `StealQueue` starts with (`new Array(1024)`). -/
def initialCap : Nat := 1024

/-- `new std::atomic<void*>[c]` asks for `8 * c` bytes. When that does not fit
in `size_t` it throws (`std::bad_array_new_length`), so `resize` does not
return and `push` retires nothing. -/
def allocFits (c : Nat) : Bool := 8 * c < 2 ^ 64

/-- The manager as the runtime drives it. Each `Worker` registers one
`LocalState`, and the only `retire` on it is the one in its own
`StealQueue::push`, after the queue's array, `initialCap` slots at first,
has doubled. `grown t` counts thread `t`'s growths. -/
structure RtSys where
  sys : Sys
  grown : Nat → Nat

def RtSys.init (n : Nat) : RtSys := ⟨Sys.init n, fun _ => 0⟩

/-- A step of the runtime: a growth needs its new array, of
`initialCap * 2 ^ (grown t + 1)` slots; every other step is the manager's. -/
def RtSys.step (r : RtSys) (t : Nat) : Action → Option RtSys
  | .publish =>
    if allocFits (initialCap * 2 ^ (r.grown t + 1)) then
      (r.sys.step t .publish).map fun s => ⟨s, Function.update r.grown t (r.grown t + 1)⟩
    else none
  | a => (r.sys.step t a).map fun s => ⟨s, r.grown⟩

inductive RtReachable (n : Nat) : RtSys → Prop where
  | init : RtReachable n (RtSys.init n)
  | step {r r' : RtSys} (t : Nat) (a : Action) :
      RtReachable n r → r.step t a = some r' → RtReachable n r'

/-- A position inside `try_advance`. -/
def Pc.inAdvance : Pc → Bool
  | .advancing | .advanceLoaded _ => true
  | _ => false

/-- A thread of the runtime is not in `try_advance`, and its `op_count`, with
the retire it is about to push, counts no more than its `grown` growths. -/
def RtLocal (grown : Nat) (l : LocalState) (pc : Pc) : Prop :=
  pc.inAdvance = false ∧ l.opCount + pc.retiree.length ≤ grown

/-- What every run of the runtime keeps. -/
structure RtInv (r : RtSys) : Prop where
  freed : r.sys.freed = []
  length_pcs : r.sys.pcs.length = r.sys.mgr.threads.length
  grown_le : ∀ t, r.grown t ≤ 50
  local_ok : ∀ t l pc, r.sys.mgr.threads[t]? = some l → r.sys.pcs[t]? = some pc →
    RtLocal (r.grown t) l pc

/-- A queue's array cannot double a `51`st time: `8 * 1024 * 2 ^ 51` bytes is
`2 ^ 64`. -/
theorem le_fifty_of_allocFits {k : Nat} (h : allocFits (initialCap * 2 ^ k) = true) : k ≤ 50 := by
  simp only [allocFits, initialCap, decide_eq_true_eq] at h
  by_contra hk
  have := Nat.pow_le_pow_right Nat.two_pos (show 51 ≤ k by omega)
  omega

/-- Below `64` retires, `retire` pushes and counts, and does not call
`try_advance`. -/
theorem retirePush_of_lt (l : LocalState) (e ptr : Nat) (h : l.opCount < 64) :
    (l.retirePush e ptr).2 = false ∧ (l.retirePush e ptr).1.opCount = l.opCount + 1 := by
  simp only [LocalState.retirePush]
  rw [if_neg (by omega)]
  exact ⟨rfl, rfl⟩

theorem rtInv_init (n : Nat) : RtInv (RtSys.init n) := by
  refine ⟨rfl, by simp [RtSys.init, Sys.init], fun _ => Nat.zero_le _, fun t l pc hl hpc => ?_⟩
  simp only [RtSys.init, Sys.init, List.getElem?_replicate] at hl hpc
  split_ifs at hl hpc
  cases hl; cases hpc
  exact ⟨rfl, Nat.le_refl _⟩

/-- A runtime step of thread `t` is the manager's step; it bumps `grown t`
only by a growth, and never past `50`. -/
theorem rtStep_cases {r r' : RtSys} {t : Nat} {a : Action} (hi : RtInv r) (h : r.step t a = some r') :
    r.sys.step t a = some r'.sys ∧ (∀ t', t' ≠ t → r'.grown t' = r.grown t') ∧ r'.grown t ≤ 50 ∧
      r'.grown t = if a = .publish then r.grown t + 1 else r.grown t := by
  cases a
  case publish =>
    simp only [RtSys.step] at h
    split_ifs at h with hfit
    obtain ⟨s, hs, rfl⟩ := Option.map_eq_some'.mp h
    exact ⟨hs, fun t' e => Function.update_noteq e _ _,
      by simpa only [Function.update_same] using le_fifty_of_allocFits hfit, by simp⟩
  all_goals
    simp only [RtSys.step] at h
    obtain ⟨s, hs, rfl⟩ := Option.map_eq_some'.mp h
    exact ⟨hs, fun _ _ => rfl, hi.grown_le t, by simp⟩

/-- A step of thread `t` that replaces its state and position, deletes
nothing, and keeps thread `t` in shape. -/
theorem rtInv_set {r : RtSys} {s' : Sys} {g : Nat → Nat} {t : Nat} {l' : LocalState}
    {pc' : Pc} (hi : RtInv r) (hth : s'.mgr.threads = r.sys.mgr.threads.set t l')
    (hpcs : s'.pcs = r.sys.pcs.set t pc') (hf : s'.freed = r.sys.freed)
    (hg : ∀ t', t' ≠ t → g t' = r.grown t') (hg50 : g t ≤ 50) (hloc : RtLocal (g t) l' pc') :
    RtInv ⟨s', g⟩ := by
  refine ⟨hf.trans hi.freed, by simp only [hth, hpcs, List.length_set, hi.length_pcs],
    fun t' => ?_, fun t' l₁ pc₁ hl₁ hpc₁ => ?_⟩
  · show g t' ≤ 50
    by_cases e : t' = t
    · exact e ▸ hg50
    · rw [hg t' e]; exact hi.grown_le t'
  · show RtLocal (g t') l₁ pc₁
    simp only [hth, hpcs, List.getElem?_set] at hl₁ hpc₁
    by_cases e : t = t'
    · subst e
      simp only [if_true] at hl₁ hpc₁
      split_ifs at hl₁ hpc₁
      cases hl₁; cases hpc₁
      exact hloc
    · simp only [e, if_false] at hl₁ hpc₁
      rw [hg t' (Ne.symm e)]
      exact hi.local_ok t' l₁ pc₁ hl₁ hpc₁

theorem rtInv_step {r r' : RtSys} {t : Nat} {a : Action} (hi : RtInv r) (h : r.step t a = some r') :
    RtInv r' := by
  obtain ⟨hs, hg, hg50, hgt⟩ := rtStep_cases hi h
  obtain ⟨s', g⟩ := r'
  dsimp only at hs hg hg50 hgt
  simp only [Sys.step, Option.bind_eq_bind, Option.bind_eq_some] at hs
  obtain ⟨l, hl, pc, hpc, hs⟩ := hs
  obtain ⟨hadv, hcount⟩ := hi.local_ok t l pc hl hpc
  have key : ∀ {s'' : Sys} {l' : LocalState} {pc' : Pc},
      s''.mgr.threads = r.sys.mgr.threads.set t l' → s''.pcs = r.sys.pcs.set t pc' →
      s''.freed = r.sys.freed → pc'.inAdvance = false → l'.opCount + pc'.retiree.length ≤ g t →
      RtInv ⟨s'', g⟩ :=
    fun hth hpcs hf ha hc => rtInv_set hi hth hpcs hf hg hg50 ⟨ha, hc⟩
  have same : ∀ {s'' : Sys} {l' : LocalState} {pc' : Pc},
      s''.mgr.threads = r.sys.mgr.threads.set t l' → s''.pcs = r.sys.pcs.set t pc' →
      s''.freed = r.sys.freed → pc'.inAdvance = false → l'.opCount = l.opCount →
      pc'.retiree = pc.retiree → g t = r.grown t → RtInv ⟨s'', g⟩ :=
    fun hth hpcs hf ha ho hr he => key hth hpcs hf ha (by rw [ho, hr, he]; exact hcount)
  split at hs <;> cases hs
  all_goals first
    | exact absurd hadv.symm Bool.false_ne_true
    | exact same rfl rfl rfl rfl rfl rfl (by simpa using hgt)
    | skip
  · -- `StealQueue::push` published its new array: one growth more, one retire to come
    have : g t = r.grown t + 1 := by simpa using hgt
    simp only [Pc.retiree, List.length_nil] at hcount
    exact key rfl rfl rfl rfl (by simp only [Pc.retiree, List.length_singleton]; omega)
  · -- `retire`'s push: the count stays below `64`, so no `try_advance`
    rename_i ptr e
    have : g t = r.grown t := by simpa using hgt
    simp only [Pc.retiree, List.length_singleton] at hcount
    obtain ⟨h2, h1⟩ := retirePush_of_lt l e ptr (by have := hi.grown_le t; omega)
    refine key rfl rfl rfl (by simp [h2, Pc.inAdvance]) ?_
    simp only [h2, h1, Bool.false_eq_true, if_false, Pc.retiree, List.length_nil]
    omega

theorem rtReachable_inv {n : Nat} {r : RtSys} (h : RtReachable n r) : RtInv r := by
  induction h with
  | init => exact rtInv_init n
  | step t a _ hs ih => exact rtInv_step ih hs

/-- **No retired array is deleted while in use: none is ever deleted.** In
every state the runtime reaches, by any interleaving of the workers'
`enter`/`exit` around their pops and steals with their `StealQueue::push`es
growing their queues and retiring the old arrays: no array a thread loaded
inside its critical section has been deleted; indeed nothing has been
deleted, no thread is in `try_advance`, and each `op_count` is at most `50`.
A queue's array cannot double a `51`st time, so no `LocalState` retires `65`
times and no `retire` calls `try_advance`. -/
theorem retired_array_never_freed {n : Nat} {r : RtSys} (h : RtReachable n r) :
    (∀ (t : Nat) held, r.sys.pcs[t]? = some (.inside held) → ∀ p ∈ held, p ∉ r.sys.freed) ∧
      r.sys.freed = [] ∧ (∀ (t : Nat) (pc : Pc), r.sys.pcs[t]? = some pc → pc.inAdvance = false) ∧
      ∀ (t : Nat) (l : LocalState), r.sys.mgr.threads[t]? = some l → l.opCount ≤ 50 := by
  have hi := rtReachable_inv h
  refine ⟨fun _ _ _ p _ hp => by simp [hi.freed] at hp, hi.freed, fun t pc hp => ?_,
    fun t l hl => ?_⟩
  · have ht : t < r.sys.mgr.threads.length := hi.length_pcs ▸ (List.getElem?_eq_some_iff.1 hp).1
    exact (hi.local_ok t _ pc (List.getElem?_eq_getElem ht) hp).1
  · have ht : t < r.sys.pcs.length := hi.length_pcs ▸ (List.getElem?_eq_some_iff.1 hl).1
    have := (hi.local_ok t l _ hl (List.getElem?_eq_getElem ht)).2
    have := hi.grown_le t
    omega

theorem retired_array_never_freed_grown :
    ∃ r : RtSys, RtReachable 2 r ∧ r.sys.pcs[0]? = some (.inside [1]) ∧
      ((∀ (t : Nat) held, r.sys.pcs[t]? = some (.inside held) → ∀ p ∈ held, p ∉ r.sys.freed) ∧
        r.sys.freed = [] ∧ (∀ (t : Nat) (pc : Pc), r.sys.pcs[t]? = some pc → pc.inAdvance = false) ∧
        ∀ (t : Nat) (l : LocalState), r.sys.mgr.threads[t]? = some l → l.opCount ≤ 50) :=
  have h : RtReachable 2 _ :=
    .step 0 .loadArray (.step 0 .enterStoreActive (.step 0 .enterStoreEpoch
      (.step 0 .enterLoad (.step 1 .retirePush (.step 1 .retireLoad
        (.step 1 .publish .init rfl) rfl) rfl) rfl) rfl) rfl) rfl
  ⟨_, h, rfl, retired_array_never_freed h⟩

end Ebr

end TinyCoro
