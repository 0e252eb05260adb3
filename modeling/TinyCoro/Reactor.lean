import Mathlib.Data.List.Sort

/-!
# TinyCoro — the reactor's timers

`Reactor` (`include/scheduler.h`) keeps `timers_`, a min-heap of `Timer`s
(`include/timer.h`: an `expiry` and a coroutine handle) under `mtx_`.

* `add_timer(expiry, h)` pushes under the lock, sets `need_wake` when the
  heap's top then has the new expiry, and after unlocking calls
  `poller_.wake()`, which writes the poller's eventfd.
* Each iteration of `Reactor::loop` computes, under the lock, the timeout it
  passes to `Poller::wait`: `-1` for an empty heap, `0` when the top has
  expired, and otherwise `static_cast<int>` of the milliseconds to the top's
  expiry (`duration_cast` truncates). `epoll_wait` blocks without limit for
  a negative timeout. After the wait it pops and spawns, under the lock,
  every timer whose expiry is at most the clock.
* `AsyncSleep(sched, d)` adds a timer at `now + d` for any
  `std::chrono::milliseconds d`; `sleep_for(sched, ms)` takes an `int`.

Time points are `steady_clock` counts of nanoseconds, as `Int`: the runs
here stay far below the `2^63` ns where the 64-bit count would wrap. The
narrowing to `int` is the modular conversion of C++20, `Int.bmod · (2^32)`.

`Sys` interleaves the reactor thread's loop, cut at its locked sections and
its wait, with `add_timer` callers and the clock. The timeout's computation
and the call of `epoll_wait` right after it are one step, at one clock
reading; the wait returns once its timeout has elapsed, once the eventfd has
been written, or whenever an I/O event comes (`waitReturn true`), and it
reads the eventfd empty.

Main results:

* `loopTimeout_of_lt`, `loopTimeout_eq_neg_one_iff` — while the top's expiry
  is less than `2^31` ms away, the timeout is the whole milliseconds to it,
  and `-1` only for an empty heap.
* `needWake_iff` — `add_timer` asks for a wake exactly when the new expiry is
  no later than every pending one.
* `popExpired_spawns_due` — one pass of the loop's timer section spawns every
  due timer and leaves only timers that are not due.
* `spawned_once_when_due` — over every run, every timer added is pending or
  spawned, never both and never twice, and it was spawned at an iteration
  whose clock reading had reached its expiry.
* `wait_released` — over every run whose timers are less than `2^31` ms
  ahead when added (every `sleep_for`), a reactor waiting while a pending
  timer has expired can leave the wait by its timeout, or a wake is pending.
* `long_sleep_waits_forever` — an `AsyncSleep` of `2^32 - 1` ms: the loop
  passes the timeout `-1` with that timer pending, and once the clock has
  passed its expiry the reactor still waits, with no deadline and no wake.
-/

namespace TinyCoro

namespace Reactor

/-- Nanoseconds in a millisecond. -/
def nsPerMs : Int := 1000000

/-- `std::chrono::duration_cast<std::chrono::milliseconds>` of a count of
nanoseconds: it truncates toward zero. -/
def durationCastMs (d : Int) : Int := d.tdiv nsPerMs

/-- `static_cast<int>` of a 64-bit count: two's complement wrap-around,
modulo `2^32`. -/
def staticCastInt (x : Int) : Int := x.bmod 4294967296

/-- `AsyncSleep::await_suspend`'s expiry, `steady_clock::now() + duration_`,
for a `duration_` of `d` milliseconds. -/
def asyncSleepExpiry (now d : Int) : Int := now + d * nsPerMs

/-- `Timer`: its `TimePoint` as a count of nanoseconds, and the coroutine
handle as a number. -/
structure Timer where
  expiry : Int
  handle : Nat
  deriving DecidableEq, Repr

/-- `a` leaves the heap no later than `b`: the order `std::greater<Timer>`
gives the min-heap. -/
def Timer.NotAfter (a b : Timer) : Prop := a.expiry ≤ b.expiry

instance : DecidableRel Timer.NotAfter := fun a b =>
  inferInstanceAs (Decidable (a.expiry ≤ b.expiry))

instance : IsTotal Timer Timer.NotAfter := ⟨fun a b => Int.le_total a.expiry b.expiry⟩

instance : IsTrans Timer Timer.NotAfter := ⟨fun _ _ _ => Int.le_trans⟩

/-- `timers_`, the `std::priority_queue` with `std::greater<Timer>`: its
timers in the order `pop` takes them. Timers of one expiry leave in an order
the standard leaves open; this model takes the latest pushed first. -/
structure TimerHeap where
  timers : List Timer
  sorted : timers.Sorted Timer.NotAfter

/-- The empty heap. -/
def TimerHeap.empty : TimerHeap := ⟨[], List.sorted_nil⟩

/-- `timers_.push(t)`. -/
def TimerHeap.push (h : TimerHeap) (t : Timer) : TimerHeap :=
  ⟨h.timers.orderedInsert Timer.NotAfter t, h.sorted.orderedInsert t _⟩

/-- `timers_.top()`, for a heap that is not empty. -/
def TimerHeap.top? (h : TimerHeap) : Option Timer := h.timers.head?

/-- The loop's `while (!timers_.empty() && timers_.top().expiry <= now)`
popping: the timers it spawns, in order, and the heap it leaves. -/
def TimerHeap.popDue (h : TimerHeap) (now : Int) : List Timer × TimerHeap :=
  (h.timers.takeWhile (·.expiry ≤ now),
    ⟨h.timers.dropWhile (·.expiry ≤ now), h.sorted.sublist (List.dropWhile_suffix _).sublist⟩)

/-- `Reactor::add_timer`'s locked section: the heap after the push, and
`need_wake = (timers_.top().expiry == expiry)`. -/
def addTimer (h : TimerHeap) (t : Timer) : TimerHeap × Bool :=
  let h' := h.push t
  (h', h'.top?.map (·.expiry) == some t.expiry)

/-- `INT_MAX + 1 = 2^31` milliseconds, in nanoseconds: the first count of
milliseconds that `static_cast<int>` does not keep. -/
def intRangeNs : Int := 2147483648 * nsPerMs

/-- The timeout `Reactor::loop` computes under `mtx_` at clock reading `now`
and passes to `Poller::wait`. -/
def loopTimeout (h : TimerHeap) (now : Int) : Int :=
  match h.top? with
  | none => -1
  | some next =>
    if next.expiry ≤ now then 0 else staticCastInt (durationCastMs (next.expiry - now))

-- ---------------------------------------------------------------------------
-- The heap
-- ---------------------------------------------------------------------------

section Heap

variable {h : TimerHeap} {t u x : Timer} {now : Int}

theorem TimerHeap.mem_push : x ∈ (h.push t).timers ↔ x = t ∨ x ∈ h.timers :=
  List.mem_orderedInsert _

theorem TimerHeap.push_perm : (h.push t).timers.Perm (t :: h.timers) :=
  List.perm_orderedInsert _ _ _

/-- The top expires no later than any timer of the heap. -/
theorem TimerHeap.top_le (ht : h.top? = some u) (hx : x ∈ h.timers) :
    u.expiry ≤ x.expiry := by
  obtain ⟨l, hs⟩ := h
  cases l with
  | nil => cases ht
  | cons v vs =>
    cases ht
    rcases List.mem_cons.mp hx with rfl | hx
    · exact le_rfl
    · exact List.rel_of_sorted_cons hs x hx

/-- `add_timer` asks for a wake exactly when the new timer expires no later
than every pending one. -/
theorem needWake_iff : (addTimer h t).2 = true ↔ ∀ u ∈ h.timers, t.expiry ≤ u.expiry := by
  obtain ⟨l, hs⟩ := h
  cases l with
  | nil => simp [addTimer, TimerHeap.push, TimerHeap.top?]
  | cons v vs =>
    by_cases htv : t.expiry ≤ v.expiry
    · have hle : ∀ u ∈ vs, t.expiry ≤ u.expiry :=
        fun u hu => le_trans htv (List.rel_of_sorted_cons hs u hu)
      simp [addTimer, TimerHeap.push, TimerHeap.top?, List.orderedInsert, Timer.NotAfter, htv]
      exact hle
    · have hne : v.expiry ≠ t.expiry := by omega
      simp [addTimer, TimerHeap.push, TimerHeap.top?, List.orderedInsert, Timer.NotAfter, htv, hne]

/-- A timer of a sorted heap that is due is among those the loop pops. -/
theorem mem_takeWhile_of_due {l : List Timer} (hs : l.Sorted Timer.NotAfter) (hx : x ∈ l)
    (hdue : x.expiry ≤ now) : x ∈ l.takeWhile (·.expiry ≤ now) := by
  induction l with
  | nil => cases hx
  | cons v vs ih =>
    have hv : v.expiry ≤ now := by
      rcases List.mem_cons.mp hx with rfl | hx
      · exact hdue
      · exact le_trans (List.rel_of_sorted_cons hs x hx) hdue
    rw [List.takeWhile_cons_of_pos (by simpa using hv)]
    rcases List.mem_cons.mp hx with rfl | hx
    · exact List.mem_cons_self _ _
    · exact List.mem_cons_of_mem _ (ih hs.of_cons hx)

/-- Past the due prefix of a sorted heap, nothing is due. -/
theorem lt_of_mem_dropWhile {l : List Timer} (hs : l.Sorted Timer.NotAfter)
    (hx : x ∈ l.dropWhile (·.expiry ≤ now)) : now < x.expiry := by
  induction l with
  | nil => cases hx
  | cons v vs ih =>
    by_cases hv : v.expiry ≤ now
    · rw [List.dropWhile_cons_of_pos (by simpa using hv)] at hx
      exact ih hs.of_cons hx
    · rw [List.dropWhile_cons_of_neg (by simpa using hv)] at hx
      rcases List.mem_cons.mp hx with rfl | hx
      · exact lt_of_not_le hv
      · exact lt_of_lt_of_le (lt_of_not_le hv) (List.rel_of_sorted_cons hs x hx)

/-- The loop's pass over the heap spawns every due timer, and the heap it
leaves holds only timers that are not due; together they are the old heap. -/
theorem popExpired_spawns_due (h : TimerHeap) (now : Int) :
    (h.popDue now).1 ++ (h.popDue now).2.timers = h.timers ∧
      (∀ x ∈ h.timers, x.expiry ≤ now ↔ x ∈ (h.popDue now).1) ∧
      ∀ x ∈ (h.popDue now).2.timers, now < x.expiry :=
  ⟨List.takeWhile_append_dropWhile _ _,
    fun _ hx => ⟨mem_takeWhile_of_due h.sorted hx, fun hm => by simpa using List.mem_takeWhile_imp hm⟩,
    fun _ hx => lt_of_mem_dropWhile h.sorted hx⟩

end Heap

-- ---------------------------------------------------------------------------
-- The timeout
-- ---------------------------------------------------------------------------

section Timeout

variable {h : TimerHeap} {next : Timer} {now : Int}

/-- While the top's expiry is ahead of the clock by less than `2^31` ms, the
timeout is the whole milliseconds to it. -/
theorem loopTimeout_of_lt (htop : h.top? = some next) (hnow : now < next.expiry)
    (hb : next.expiry - now < intRangeNs) :
    loopTimeout h now = (next.expiry - now) / nsPerMs := by
  have hd : 0 ≤ next.expiry - now := by omega
  simp only [loopTimeout, htop, if_neg (not_le.mpr hnow), staticCastInt, durationCastMs,
    Int.tdiv_eq_ediv hd (show (0 : Int) ≤ nsPerMs by decide), Int.bmod_def]
  simp only [intRangeNs, nsPerMs] at hb ⊢
  split <;> omega

/-- Under the same bound the wait's deadline, `now` plus the timeout, is no
later than the top's expiry, or is `now` itself when the top has expired. -/
theorem loopTimeout_deadline (htop : h.top? = some next) (hb : next.expiry - now < intRangeNs) :
    0 ≤ loopTimeout h now ∧ now + loopTimeout h now * nsPerMs ≤ max next.expiry now := by
  by_cases hnow : next.expiry ≤ now
  · simp [loopTimeout, htop, hnow]
  · rw [loopTimeout_of_lt htop (lt_of_not_le hnow) hb]
    simp only [nsPerMs]
    omega

/-- Under the same bound, `-1` is the timeout of the empty heap only. -/
theorem loopTimeout_eq_neg_one_iff (hb : ∀ next ∈ h.top?, next.expiry - now < intRangeNs) :
    loopTimeout h now = -1 ↔ h.timers = [] := by
  cases htop : h.top? with
  | none => simp_all [loopTimeout, TimerHeap.top?]
  | some next =>
    have := (loopTimeout_deadline htop (hb next htop)).1
    have hne : h.timers ≠ [] := fun h0 => by simp [TimerHeap.top?, h0] at htop
    simp only [hne, iff_false]
    omega

end Timeout

-- ---------------------------------------------------------------------------
-- The reactor thread and the add_timer callers
-- ---------------------------------------------------------------------------

/-- Where the reactor thread is in an iteration of `Reactor::loop`. -/
inductive LoopPc where
  /-- At the top of the `while`, about to compute the timeout. -/
  | top
  /-- In `poller_.wait(timeout_ms, io_handler)`, called at clock reading `since`. -/
  | waiting (timeoutMs since : Int)
  /-- Back from the wait, about to pop the expired timers. -/
  | expired
  deriving DecidableEq, Repr

/-- The reactor, the poller's eventfd, and the `add_timer` calls between
their locked section and their `poller_.wake()`. -/
structure Sys where
  /-- `steady_clock::now()`. -/
  clock : Int
  heap : TimerHeap
  pc : LoopPc
  /-- `add_timer` calls that set `need_wake` and have not yet called `poller_.wake()`. -/
  wakesOwed : Nat
  /-- The eventfd holds a count that `Poller::wait` has not read. -/
  woken : Bool
  /-- The handle of the next `add_timer`: each suspended coroutine's own. -/
  nextHandle : Nat
  /-- Every timer passed to `scheduler_->spawn`, with the clock reading of the
  loop's pass that popped it. -/
  spawned : List (Timer × Int)

/-- A reactor started at clock reading `clock`, with no timer. -/
def Sys.init (clock : Int) : Sys := ⟨clock, .empty, .top, 0, false, 0, []⟩

/-- One atomic step of the reactor, of an `add_timer` caller, or of the clock. -/
inductive Action where
  /-- The clock advances `d` nanoseconds. -/
  | tick (d : Nat)
  /-- `add_timer(expiry, h)`'s locked section, for a fresh handle. -/
  | addTimer (expiry : Int)
  /-- The `poller_.wake()` of an `add_timer` that set `need_wake`. -/
  | wake
  /-- The loop computes the timeout and calls `poller_.wait`. -/
  | computeTimeout
  /-- `epoll_wait` returns: by its timeout, for the eventfd, or (`io`) for a
  ready file descriptor. -/
  | waitReturn (io : Bool)
  /-- The loop's second locked section: pop and spawn the expired timers. -/
  | popExpired
  deriving DecidableEq, Repr

/-- One step; `none` when the action is not enabled. -/
def Sys.step (s : Sys) : Action → Option Sys
  | .tick d => some { s with clock := s.clock + d }
  | .addTimer e =>
    let r := addTimer s.heap ⟨e, s.nextHandle⟩
    some { s with heap := r.1, nextHandle := s.nextHandle + 1,
                  wakesOwed := if r.2 then s.wakesOwed + 1 else s.wakesOwed }
  | .wake =>
    if 0 < s.wakesOwed then some { s with wakesOwed := s.wakesOwed - 1, woken := true } else none
  | .computeTimeout =>
    if s.pc = .top then some { s with pc := .waiting (loopTimeout s.heap s.clock) s.clock }
    else none
  | .waitReturn io =>
    match s.pc with
    | .waiting t since =>
      if s.woken = true ∨ io = true ∨ (0 ≤ t ∧ since + t * nsPerMs ≤ s.clock) then
        some { s with pc := .expired, woken := false }
      else none
    | _ => none
  | .popExpired =>
    if s.pc = .expired then
      let r := s.heap.popDue s.clock
      some { s with heap := r.2, pc := .top, spawned := s.spawned ++ r.1.map (·, s.clock) }
    else none

/-- Runs a schedule; `none` if some action of it is not enabled. -/
def Sys.run (s : Sys) : List Action → Option Sys
  | [] => some s
  | a :: as => (s.step a).bind (·.run as)

/-- The states reached from some clock reading by steps whose actions `ok`
allows. -/
inductive Reachable (ok : Sys → Action → Prop) : Sys → Prop
  | init (clock : Int) : Reachable ok (Sys.init clock)
  | step {s s' : Sys} (a : Action) :
      Reachable ok s → ok s a → s.step a = some s' → Reachable ok s'

theorem reachable_run {s s' : Sys} (hs : Reachable (fun _ _ => True) s) :
    ∀ {as : List Action}, s.run as = some s' → Reachable (fun _ _ => True) s'
  | [], h => by cases h; exact hs
  | a :: as, h => by
    obtain ⟨s₁, h₁, h⟩ := Option.bind_eq_some.mp h
    exact reachable_run (.step a hs trivial h₁) h

-- ---------------------------------------------------------------------------
-- What every run keeps
-- ---------------------------------------------------------------------------

/-- The handles of the timers pending and of those spawned. -/
def Sys.handles (s : Sys) : List Nat := (s.heap.timers ++ s.spawned.map (·.1)).map (·.handle)

/-- What holds over every run. -/
structure Inv (s : Sys) : Prop where
  /-- Every handle handed out is pending or spawned, and only once. -/
  handles : s.handles.Perm (List.range s.nextHandle)
  /-- A spawned timer had expired at the clock reading of the pass that popped it. -/
  due : ∀ p ∈ s.spawned, p.1.expiry ≤ p.2 ∧ p.2 ≤ s.clock
  /-- A wait began no later than the clock. -/
  since_le : ∀ t since, s.pc = .waiting t since → since ≤ s.clock

theorem inv_init (c : Int) : Inv (Sys.init c) :=
  ⟨by simp [Sys.handles, Sys.init, TimerHeap.empty], by simp [Sys.init], by simp [Sys.init]⟩

theorem handles_addTimer (s : Sys) (e : Int) :
    ({ s with heap := (addTimer s.heap ⟨e, s.nextHandle⟩).1 } : Sys).handles.Perm
      (s.handles ++ [s.nextHandle]) :=
  (((TimerHeap.push_perm).append_right _).map _).trans (List.perm_append_singleton _ _).symm

theorem handles_popDue (s : Sys) :
    ({ s with heap := (s.heap.popDue s.clock).2,
              spawned := s.spawned ++ (s.heap.popDue s.clock).1.map (·, s.clock) } : Sys).handles.Perm
      s.handles := by
  have hs := (popExpired_spawns_due s.heap s.clock).1
  simp only [Sys.handles, List.map_append, List.map_map]
  conv => rhs; rw [← hs]
  simp only [List.map_append, Function.comp_def, List.map_id', List.append_assoc]
  exact (List.perm_append_comm.append_left _).trans (by
    simpa only [List.append_assoc] using List.perm_append_comm.append_right _)

theorem inv_step {s s' : Sys} {a : Action} (hi : Inv s) (h : s.step a = some s') : Inv s' := by
  cases a with
  | tick d =>
    cases h
    exact ⟨hi.handles, fun p hp => by have := hi.due p hp; dsimp only; omega,
      fun t since hpc => by have := hi.since_le t since hpc; dsimp only; omega⟩
  | addTimer e =>
    cases h
    exact ⟨(handles_addTimer s e).trans (by rw [List.range_succ]; exact hi.handles.append_right _),
      hi.due, hi.since_le⟩
  | wake =>
    simp only [Sys.step] at h
    split_ifs at h
    cases h
    exact ⟨hi.handles, hi.due, hi.since_le⟩
  | computeTimeout =>
    simp only [Sys.step] at h
    split_ifs at h
    cases h
    exact ⟨hi.handles, hi.due, fun t since hpc => by cases hpc; exact le_rfl⟩
  | waitReturn io =>
    simp only [Sys.step] at h
    split at h
    · split_ifs at h
      cases h
      exact ⟨hi.handles, hi.due, fun t since hpc => by cases hpc⟩
    · cases h
  | popExpired =>
    simp only [Sys.step] at h
    split_ifs at h
    cases h
    refine ⟨(handles_popDue s).trans hi.handles, fun p hp => ?_, fun t since hpc => by cases hpc⟩
    rcases List.mem_append.mp hp with hp | hp
    · exact hi.due p hp
    · obtain ⟨x, hx, rfl⟩ := List.mem_map.mp hp
      exact ⟨by simpa using List.mem_takeWhile_imp hx, le_rfl⟩

theorem reachable_inv {ok : Sys → Action → Prop} {s : Sys} (hs : Reachable ok s) : Inv s := by
  induction hs with
  | init c => exact inv_init c
  | step a _ _ h ih => exact inv_step ih h

/-- **Each timer is spawned once, when due.** Over every run, the handles of
the timers pending and spawned are those `add_timer` was given, each once:
no timer is spawned twice or both spawned and still pending. Each spawned
timer's expiry was at most the clock reading of the loop's pass that popped
it. -/
theorem spawned_once_when_due {ok : Sys → Action → Prop} {s : Sys} (hs : Reachable ok s) :
    s.handles.Nodup ∧ (∀ n, n ∈ s.handles ↔ n < s.nextHandle) ∧
      ∀ p ∈ s.spawned, p.1.expiry ≤ p.2 := by
  have hi := reachable_inv hs
  exact ⟨hi.handles.nodup_iff.mpr (List.nodup_range _),
    fun n => hi.handles.mem_iff.trans List.mem_range, fun p hp => (hi.due p hp).1⟩

/-- A timer added at clock `0` for `5`, spawned by the loop's pass after the
clock reached `10`. -/
theorem spawned_once_when_due_fired :
    ∃ s, Reachable (fun _ _ => True) s ∧ s.spawned.length = 1 ∧
      (s.handles.Nodup ∧ (∀ n, n ∈ s.handles ↔ n < s.nextHandle) ∧
        ∀ p ∈ s.spawned, p.1.expiry ≤ p.2) :=
  have h : Reachable (fun _ _ => True) _ :=
    .step .popExpired (.step (.waitReturn false) (.step (.tick 10) (.step .computeTimeout
      (.step .wake (.step (.addTimer 5) (.init 0) trivial rfl) trivial rfl) trivial rfl)
      trivial rfl) trivial rfl) trivial rfl
  ⟨_, h, rfl, spawned_once_when_due h⟩

-- ---------------------------------------------------------------------------
-- Timers less than 2^31 ms ahead
-- ---------------------------------------------------------------------------

/-- A wake is on its way: an `add_timer` still owes `poller_.wake()`, or the
eventfd holds one. -/
def Sys.WakePending (s : Sys) : Prop := 0 < s.wakesOwed ∨ s.woken = true

/-- An action that adds no timer `2^31` ms or more ahead of the clock. -/
def Action.Within (s : Sys) : Action → Prop
  | .addTimer e => e - s.clock < intRangeNs
  | _ => True

/-- Every `sleep_for(sched, ms)` is within: its `int` is below `2^31`. -/
theorem sleepFor_within (s : Sys) (ms : Int) (hms : ms < 2147483648) :
    (Action.addTimer (asyncSleepExpiry s.clock ms)).Within s := by
  simp only [Action.Within, asyncSleepExpiry, intRangeNs, nsPerMs]
  omega

/-- What runs of within actions keep: every pending timer is less than
`2^31` ms ahead, and a wait's deadline comes no later than any pending
timer's expiry, or than the wait's start, unless a wake is on its way. -/
structure Armed (s : Sys) : Prop where
  bounded : ∀ x ∈ s.heap.timers, x.expiry - s.clock < intRangeNs
  deadline : ∀ t since, s.pc = .waiting t since → ∀ x ∈ s.heap.timers,
    s.WakePending ∨ 0 ≤ t ∧ since + t * nsPerMs ≤ max x.expiry since

theorem armed_init (c : Int) : Armed (Sys.init c) :=
  ⟨by simp [Sys.init, TimerHeap.empty], by simp [Sys.init]⟩

/-- A timer that `add_timer` pushes without a wake is no earlier than one
already pending: a wait armed for that one is armed for it. -/
theorem armed_addTimer {s : Sys} {e : Int} (hw : e - s.clock < intRangeNs) (hi : Armed s) :
    Armed { s with heap := (addTimer s.heap ⟨e, s.nextHandle⟩).1, nextHandle := s.nextHandle + 1,
                   wakesOwed := if (addTimer s.heap ⟨e, s.nextHandle⟩).2 then s.wakesOwed + 1
                     else s.wakesOwed } := by
  constructor
  · intro x hx
    rcases TimerHeap.mem_push.mp hx with rfl | hx
    · exact hw
    · exact hi.bounded x hx
  · intro t since hpc x hx
    by_cases hwake : (addTimer s.heap ⟨e, s.nextHandle⟩).2 = true
    · exact .inl (.inl (by simp [hwake]))
    · simp only [hwake, if_false]
      rcases TimerHeap.mem_push.mp hx with rfl | hx
      · obtain ⟨u, hu, hlt⟩ : ∃ u ∈ s.heap.timers, u.expiry < e := by
          simpa [needWake_iff] using hwake
        rcases hi.deadline t since hpc u hu with hp | ⟨h0, hd⟩
        · exact .inl hp
        · exact .inr ⟨h0, by dsimp only; omega⟩
      · exact hi.deadline t since hpc x hx

/-- The wait computed from a bounded heap is armed for every pending timer:
its deadline is at most the top's expiry, or its own start. -/
theorem armed_computeTimeout {s : Sys} (hi : Armed s) :
    Armed { s with pc := .waiting (loopTimeout s.heap s.clock) s.clock } := by
  refine ⟨hi.bounded, fun t since hpc x hx => .inr ?_⟩
  cases hpc
  obtain ⟨next, htop⟩ : ∃ next, s.heap.top? = some next := by
    cases hl : s.heap.timers with
    | nil => simp [hl] at hx
    | cons v vs => exact ⟨v, by simp [TimerHeap.top?, hl]⟩
  have hd := loopTimeout_deadline htop (hi.bounded next (List.mem_of_mem_head? htop))
  have hle := TimerHeap.top_le htop hx
  exact ⟨hd.1, by omega⟩

theorem armed_step {s s' : Sys} {a : Action} (hw : a.Within s) (hi : Armed s)
    (h : s.step a = some s') : Armed s' := by
  cases a with
  | tick d =>
    cases h
    exact ⟨fun x hx => by have := hi.bounded x hx; dsimp only; omega, hi.deadline⟩
  | addTimer e =>
    cases h
    exact armed_addTimer hw hi
  | wake =>
    simp only [Sys.step] at h
    split_ifs at h
    cases h
    exact ⟨hi.bounded, fun _ _ _ _ _ => .inl (.inr rfl)⟩
  | computeTimeout =>
    simp only [Sys.step] at h
    split_ifs at h
    cases h
    exact armed_computeTimeout hi
  | waitReturn io =>
    simp only [Sys.step] at h
    split at h
    · split_ifs at h
      cases h
      exact ⟨hi.bounded, fun t since hpc => by cases hpc⟩
    · cases h
  | popExpired =>
    simp only [Sys.step] at h
    split_ifs at h
    cases h
    exact ⟨fun x hx => hi.bounded x ((List.dropWhile_suffix _).subset hx),
      fun t since hpc => by cases hpc⟩

theorem reachable_armed {s : Sys} (hs : Reachable Action.Within s) : Armed s := by
  induction hs with
  | init c => exact armed_init c
  | step a _ hw h ih => exact armed_step hw ih h

/-- **The reactor never oversleeps a timer while timers stay in `int` range.**
Over every run whose timers are less than `2^31` ms ahead when added (every
`sleep_for`), a reactor waiting while a pending timer has expired can return
from `epoll_wait` by its timeout, without an I/O event, or a wake is on its
way: a timer added after the timeout was computed and no later than every
pending one asked for it. -/
theorem wait_released {s : Sys} (hs : Reachable Action.Within s) {t since : Int}
    (hpc : s.pc = .waiting t since) {x : Timer} (hx : x ∈ s.heap.timers)
    (hdue : x.expiry ≤ s.clock) :
    s.WakePending ∨ (s.step (.waitReturn false)).isSome := by
  have hsince := (reachable_inv hs).since_le t since hpc
  rcases (reachable_armed hs).deadline t since hpc x hx with hp | ⟨h0, hd⟩
  · exact .inl hp
  · refine .inr ?_
    have hto : 0 ≤ t ∧ since + t * nsPerMs ≤ s.clock := ⟨h0, by omega⟩
    simp [Sys.step, hpc, hto]

/-- A `sleep_for(sched, 0)` at clock reading `0`, then the loop computing its
timeout: the reactor waits with the timer due. -/
theorem wait_released_zero_sleep :
    ∃ s, Reachable Action.Within s ∧ s.pc = .waiting 0 0 ∧ (⟨0, 0⟩ : Timer) ∈ s.heap.timers ∧
      (⟨0, 0⟩ : Timer).expiry ≤ s.clock ∧
      (s.WakePending ∨ (s.step (.waitReturn false)).isSome) := by
  have hw : Action.Within (Sys.init 0) (.addTimer 0) := (by decide : (0 : Int) - 0 < intRangeNs)
  have hs : Reachable Action.Within _ :=
    .step .computeTimeout (.step (.addTimer 0) (.init 0) hw rfl) trivial rfl
  have hx : (⟨0, 0⟩ : Timer) ∈ _ := List.mem_singleton_self _
  exact ⟨_, hs, rfl, hx, Int.le_refl _, @wait_released _ hs 0 0 rfl ⟨0, 0⟩ hx (Int.le_refl _)⟩

-- ---------------------------------------------------------------------------
-- A long sleep
-- ---------------------------------------------------------------------------

/-- A coroutine runs `co_await AsyncSleep(sched, std::chrono::milliseconds(4294967295))`
at clock reading `0`; its `add_timer` wakes the reactor, which computes the
timeout, is woken, finds nothing due, computes the timeout again and waits;
then the clock passes the expiry. -/
def longSleepSchedule : List Action :=
  [.addTimer (asyncSleepExpiry 0 4294967295), .wake, .computeTimeout, .waitReturn false,
    .popExpired, .computeTimeout, .tick 4294967295000000]

/-- **A long sleep makes the reactor wait without a deadline.** A sleep of
`2^32 - 1` ms is `4294967295` whole milliseconds away, which
`static_cast<int>` wraps to `-1`: the loop passes `Poller::wait` the timeout
of an empty heap with the timer pending. Once the clock has passed the
expiry, the wait has no deadline and no wake is on its way, so it cannot
return but for an unrelated I/O event. -/
theorem long_sleep_waits_forever :
    ∃ s, Reachable (fun _ _ => True) s ∧
      s.heap.timers = [⟨asyncSleepExpiry 0 4294967295, 0⟩] ∧ loopTimeout s.heap 0 = -1 ∧
      s.pc = .waiting (-1) 0 ∧ asyncSleepExpiry 0 4294967295 ≤ s.clock ∧
      s.wakesOwed = 0 ∧ s.woken = false ∧ s.step (.waitReturn false) = none := by
  have h : ((Sys.init 0).run longSleepSchedule).map (fun s =>
      (s.heap.timers, s.pc, [loopTimeout s.heap 0, s.clock, s.wakesOwed],
        [s.woken, (s.step (.waitReturn false)).isNone])) =
      some ([⟨asyncSleepExpiry 0 4294967295, 0⟩], .waiting (-1) 0, [-1, 4294967295000000, 0],
        [false, true]) := by decide
  simp only [Option.map_eq_some', Prod.mk.injEq, List.cons.injEq, and_true,
    Option.isNone_iff_eq_none] at h
  obtain ⟨s, hs, ht, hp, ⟨hl, hc, hw⟩, hwk, hr⟩ := h
  exact ⟨s, reachable_run (.init 0) hs, ht, hl, hp, by rw [hc]; decide, by exact_mod_cast hw, hwk, hr⟩

end Reactor

end TinyCoro
