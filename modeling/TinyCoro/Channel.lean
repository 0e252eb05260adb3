import Mathlib.Data.List.Basic

/-!
# TinyCoro — the channel

`Channel<T>` (`include/channel.h`) is a bounded buffer of capacity `k`, two
FIFO queues of parked coroutines, `send_waiters_` and `recv_waiters_`, and a
`closed_` flag, all guarded by `mtx_`. The three operations that change it —
`SendAwaiter::await_suspend`, `RecvAwaiter::await_suspend` and
`Channel::close` — run entirely under that lock, so each one is a single step
here: a function from the channel to the channel after it, the awaiter's
result, whether the caller stays suspended, and what the step did outside the
channel (`Effect`: a value written through a parked receiver's `result_ptr`,
a handle passed to `Scheduler::spawn`).

A parked sender keeps its value in its own suspended frame (`value_ptr`);
here `SenderWaiter` carries the value itself. A parked receiver's `result_ptr`
points into its frame; writes through it are `Effect.deliver`.

Main results:

* `channel_rep_invariant` — for every capacity and every sequence of steps
  from an empty open channel, the representation invariant `Channel.Inv`
  holds and `closed_` never goes back to `false`.
* `fifo_step`, `channel_fifo` — every step is a step of a FIFO queue on the
  values in flight (`pending`); so, from an empty channel, the values sends
  took in are the values handed to receivers, each once and in order, then
  the values still in flight, then the values of the senders parked at
  `close`, which it drops.
* `nullopt_only_when_drained` — a receiver gets `std::nullopt` only from a
  closed channel with nothing in flight.
* `close_strands_parked_sender` — a sender parked in `send_waiters_` when the
  channel closes is spawned with its `SendAwaiter::result` still `true`,
  although its value is dropped and, by `run_of_drained`, no later step can
  deliver it.
-/

namespace TinyCoro

/-- A coroutine as the primitives see it: the address of its frame. -/
abbrev Coro := Nat

/-- `Channel::SenderWaiter`: a parked sender's handle and the value its
`value_ptr` points at. -/
structure SenderWaiter (α : Type) where
  handle : Coro
  value : α
  deriving DecidableEq, Repr

/-- The fields of `Channel<T>` that `mtx_` guards. -/
structure Channel (α : Type) where
  capacity : Nat
  closed : Bool
  buffer : List α
  sendWaiters : List (SenderWaiter α)
  recvWaiters : List Coro
  deriving DecidableEq, Repr

/-- What a step does outside the channel's own fields, in program order. -/
inductive Effect (α : Type) where
  /-- `*w.result_ptr = v` for the parked receiver `h`. -/
  | deliver (h : Coro) (v : Option α)
  /-- `sched_.spawn(Task::from_address(h.address()))`. -/
  | spawn (h : Coro)
  deriving DecidableEq, Repr

namespace Channel

variable {α : Type}

/-- `Channel(sched, capacity)`: empty and open. -/
def empty (k : Nat) : Channel α := ⟨k, false, [], [], []⟩

/-- What `SendAwaiter::await_suspend` leaves behind. -/
structure SendStep (α : Type) where
  chan : Channel α
  /-- `SendAwaiter::result`, which `await_resume` returns. -/
  result : Bool
  /-- The return value of `await_suspend`: `true` keeps the caller suspended. -/
  suspend : Bool
  effects : List (Effect α)

/-- `SendAwaiter::await_suspend(h)` for an awaiter holding `v`: fail on a
closed channel, hand off to the first parked receiver, buffer if there is
room, park otherwise. -/
def sendAwaitSuspend (ch : Channel α) (h : Coro) (v : α) : SendStep α :=
  if ch.closed then ⟨ch, false, false, []⟩
  else match ch.recvWaiters with
    | r :: rs => ⟨{ ch with recvWaiters := rs }, true, false, [.deliver r (some v), .spawn r]⟩
    | [] =>
      if ch.buffer.length < ch.capacity then
        ⟨{ ch with buffer := ch.buffer ++ [v] }, true, false, []⟩
      else ⟨{ ch with sendWaiters := ch.sendWaiters ++ [⟨h, v⟩] }, true, true, []⟩

/-- What `RecvAwaiter::await_suspend` leaves behind. -/
structure RecvStep (α : Type) where
  chan : Channel α
  /-- `RecvAwaiter::result` after the step. -/
  result : Option α
  suspend : Bool
  effects : List (Effect α)

/-- `RecvAwaiter::await_suspend(h)`: take the buffer's head and refill from
the first parked sender, take directly from a parked sender, resolve to
`std::nullopt` on a closed channel, park otherwise. -/
def recvAwaitSuspend (ch : Channel α) (h : Coro) : RecvStep α :=
  match ch.buffer, ch.sendWaiters with
  | v :: rest, s :: ss =>
    ⟨{ ch with buffer := rest ++ [s.value], sendWaiters := ss }, some v, false, [.spawn s.handle]⟩
  | v :: rest, [] => ⟨{ ch with buffer := rest }, some v, false, []⟩
  | [], s :: ss => ⟨{ ch with sendWaiters := ss }, some s.value, false, [.spawn s.handle]⟩
  | [], [] =>
    if ch.closed then ⟨ch, none, false, []⟩
    else ⟨{ ch with recvWaiters := ch.recvWaiters ++ [h] }, none, true, []⟩

/-- `Channel::close`: flip `closed_` once, spawn every parked sender, then
write `std::nullopt` to every parked receiver and spawn it. -/
def close (ch : Channel α) : Channel α × List (Effect α) :=
  if ch.closed then (ch, [])
  else ({ ch with closed := true, sendWaiters := [], recvWaiters := [] },
    ch.sendWaiters.map (fun w => .spawn w.handle) ++
      ch.recvWaiters.flatMap fun r => [.deliver r none, .spawn r])

/-- One step under `mtx_`, by any coroutine. -/
inductive Op (α : Type) where
  | send (h : Coro) (v : α)
  | recv (h : Coro)
  | close
  deriving DecidableEq, Repr

def step (ch : Channel α) : Op α → Channel α
  | .send h v => (ch.sendAwaitSuspend h v).chan
  | .recv h => (ch.recvAwaitSuspend h).chan
  | .close => ch.close.1

/-- A sequence of steps, in the order they took `mtx_`. -/
def run (ch : Channel α) (ops : List (Op α)) : Channel α := ops.foldl step ch

@[simp] theorem run_nil (ch : Channel α) : ch.run [] = ch := rfl

@[simp] theorem run_cons (ch : Channel α) (op : Op α) (ops : List (Op α)) :
    ch.run (op :: ops) = (ch.step op).run ops := rfl

theorem run_append (ch : Channel α) (ops more : List (Op α)) :
    ch.run (ops ++ more) = (ch.run ops).run more := List.foldl_append _ _ _ _

-- ---------------------------------------------------------------------------
-- Parked coroutines
-- ---------------------------------------------------------------------------

/-- The coroutines parked in the channel: senders, then receivers. -/
def handles (ch : Channel α) : List Coro := ch.sendWaiters.map SenderWaiter.handle ++ ch.recvWaiters

/-- The coroutine an effect spawns, if any. -/
def spawnee : Effect α → Option Coro
  | .spawn h => some h
  | .deliver _ _ => none

/-- The coroutines a step spawns, in order. -/
def spawned (effs : List (Effect α)) : List Coro := effs.filterMap spawnee

@[simp] theorem spawned_nil : spawned ([] : List (Effect α)) = [] := rfl

/-- A send spawns only coroutines it unparks, and parks its own caller
exactly when it suspends. -/
theorem handles_send (ch : Channel α) (h : Coro) (v : α) :
    List.Perm ((ch.sendAwaitSuspend h v).chan.handles ++ spawned (ch.sendAwaitSuspend h v).effects)
      (ch.handles ++ if (ch.sendAwaitSuspend h v).suspend then [h] else []) := by
  rw [List.perm_iff_count]
  intro a
  unfold sendAwaitSuspend
  split
  · simp
  · split
    · rename_i r rs hr
      simp [handles, hr, spawned, spawnee, List.count_cons]
    · split <;> simp [handles, List.count_cons]

/-- A receive spawns only coroutines it unparks, and parks its own caller
exactly when it suspends. -/
theorem handles_recv (ch : Channel α) (h : Coro) :
    List.Perm ((ch.recvAwaitSuspend h).chan.handles ++ spawned (ch.recvAwaitSuspend h).effects)
      (ch.handles ++ if (ch.recvAwaitSuspend h).suspend then [h] else []) := by
  rw [List.perm_iff_count]
  intro a
  unfold recvAwaitSuspend
  split
  · rename_i hs
    simp [handles, hs, spawned, spawnee, List.count_cons]
    omega
  · simp [handles]
  · rename_i hs
    simp [handles, hs, spawned, spawnee, List.count_cons]
    omega
  · split <;> simp [handles]

/-- `close` spawns exactly the coroutines parked in the channel. -/
theorem handles_close (ch : Channel α) :
    List.Perm (ch.close.1.handles ++ spawned ch.close.2) ch.handles := by
  unfold close
  split
  · simp
  · have hs : (ch.sendWaiters.map fun w => (Effect.spawn w.handle : Effect α)).filterMap spawnee =
        ch.sendWaiters.map SenderWaiter.handle := by
      rw [List.filterMap_map]; exact congrFun (List.filterMap_eq_map _) _
    simp [handles, spawned, List.filterMap_append, hs, List.filterMap_flatMap, spawnee]

/-- Each step spawns every parked receiver it writes to. -/
theorem spawned_of_deliver {ch : Channel α} {r : Coro} {v : Option α} :
    (∀ h x, .deliver r v ∈ (ch.sendAwaitSuspend h x).effects →
      r ∈ spawned (ch.sendAwaitSuspend h x).effects) ∧
    (∀ h, .deliver r v ∈ (ch.recvAwaitSuspend h).effects →
      r ∈ spawned (ch.recvAwaitSuspend h).effects) ∧
    (.deliver r v ∈ ch.close.2 → r ∈ spawned ch.close.2) := by
  refine ⟨fun h x => ?_, fun h => ?_, ?_⟩
  · unfold sendAwaitSuspend
    split
    · simp
    · split
      · simp only [List.mem_cons, Effect.deliver.injEq, reduceCtorEq, List.not_mem_nil, or_false]
        rintro ⟨rfl, -⟩
        simp [spawned, spawnee]
      · split <;> simp
  · unfold recvAwaitSuspend
    split <;> try split
    all_goals simp
  · unfold close
    split
    · simp
    · simp only [List.mem_append, List.mem_map, List.mem_flatMap, List.mem_cons, List.not_mem_nil,
        or_false, reduceCtorEq, and_false, exists_false, false_or, Effect.deliver.injEq]
      rintro ⟨r', hr', rfl, -⟩
      simp [spawned, spawnee, List.filterMap_append, List.filterMap_flatMap, hr']

-- ---------------------------------------------------------------------------
-- The representation invariant
-- ---------------------------------------------------------------------------

/-- The channel's representation invariant at capacity `k` (the spec's
`|buffer| ≤ k`, no buffered value beside a parked receiver, no parked sender
beside a buffer with room), with the two facts about the waiter queues that
make it inductive. -/
structure Inv (k : Nat) (ch : Channel α) : Prop where
  capacity_eq : ch.capacity = k
  buffer_le : ch.buffer.length ≤ k
  recv_nil_of_buffer : ch.buffer ≠ [] → ch.recvWaiters = []
  buffer_full_of_send : ch.sendWaiters ≠ [] → ch.buffer.length = k
  send_nil_or_recv_nil : ch.sendWaiters = [] ∨ ch.recvWaiters = []
  nil_of_closed : ch.closed = true → ch.sendWaiters = [] ∧ ch.recvWaiters = []

theorem inv_empty (k : Nat) : Inv k (empty k : Channel α) :=
  ⟨rfl, Nat.zero_le _, fun h => absurd rfl h, fun h => absurd rfl h, .inl rfl,
    fun h => nomatch h⟩

theorem inv_send {k : Nat} {ch : Channel α} (hi : Inv k ch) (h : Coro) (v : α) :
    Inv k (ch.sendAwaitSuspend h v).chan := by
  obtain ⟨hk, hle, hrb, hsb, hsr, hcl⟩ := hi
  unfold sendAwaitSuspend
  split
  · exact ⟨hk, hle, hrb, hsb, hsr, hcl⟩
  · rename_i hopen
    split
    · rename_i r rs hr
      -- a parked receiver means an empty buffer and no parked sender
      have hb : ch.buffer = [] := by_contra fun hb => by simp [hrb hb] at hr
      have hs : ch.sendWaiters = [] := hsr.resolve_right (by simp [hr])
      exact ⟨hk, hle, by simp [hb], by simp [hs], .inl hs, by simp [hopen]⟩
    · rename_i hr
      split
      · rename_i hroom
        have hs : ch.sendWaiters = [] := by_contra fun hs => by have := hsb hs; omega
        refine ⟨hk, by simp; omega, fun _ => hr, by simp [hs], .inr hr, by simp [hopen]⟩
      · exact ⟨hk, hle, fun _ => hr, fun _ => by dsimp only; omega, .inr hr, by simp [hopen]⟩

theorem inv_recv {k : Nat} {ch : Channel α} (hi : Inv k ch) (h : Coro) :
    Inv k (ch.recvAwaitSuspend h).chan := by
  obtain ⟨hk, hle, hrb, hsb, hsr, hcl⟩ := hi
  unfold recvAwaitSuspend
  split
  · rename_i v rest s ss hb hs
    -- the refill keeps the buffer full while senders remain parked
    have hfull := hsb (by simp [hs])
    rw [hb, List.length_cons] at hle hfull
    rw [hb] at hrb
    exact ⟨hk, by simp; omega, fun _ => hrb (by simp), fun _ => by simp; omega,
      .inr (hrb (by simp)), fun hc => absurd (hcl hc).1 (by simp [hs])⟩
  · rename_i v rest hb hs
    rw [hb] at hle hrb
    exact ⟨hk, by simp at hle ⊢; omega, fun _ => hrb (by simp), fun h' => absurd hs h',
      .inl hs, fun hc => ⟨hs, (hcl hc).2⟩⟩
  · rename_i s ss hb hs
    have hr : ch.recvWaiters = [] := hsr.resolve_left (by simp [hs])
    have hfull := hsb (by simp [hs])
    rw [hb, List.length_nil] at hfull
    exact ⟨hk, by simp [hb], fun h' => absurd hb h', fun _ => by simp [hb]; omega,
      .inr hr, fun hc => absurd (hcl hc).1 (by simp [hs])⟩
  · rename_i hb hs
    split
    · exact ⟨hk, hle, hrb, hsb, hsr, hcl⟩
    · rename_i hopen
      exact ⟨hk, hle, fun h' => absurd hb h', fun h' => absurd hs h', .inl hs,
        by simp [hopen]⟩

theorem inv_close {k : Nat} {ch : Channel α} (hi : Inv k ch) : Inv k ch.close.1 := by
  obtain ⟨hk, hle, hrb, hsb, hsr, hcl⟩ := hi
  unfold close
  split
  · exact ⟨hk, hle, hrb, hsb, hsr, hcl⟩
  · exact ⟨hk, hle, fun _ => rfl, fun h' => absurd rfl h', .inl rfl, fun _ => ⟨rfl, rfl⟩⟩

theorem inv_step {k : Nat} {ch : Channel α} (hi : Inv k ch) : ∀ op, Inv k (ch.step op)
  | .send h v => inv_send hi h v
  | .recv h => inv_recv hi h
  | .close => inv_close hi

theorem inv_run {k : Nat} {ch : Channel α} (hi : Inv k ch) (ops : List (Op α)) :
    Inv k (ch.run ops) := by
  induction ops generalizing ch with
  | nil => exact hi
  | cons op ops ih => exact ih (inv_step hi op)

/-- No step reopens a closed channel. -/
theorem closed_step {ch : Channel α} (hc : ch.closed = true) : ∀ op, (ch.step op).closed = true
  | .send h v => by simp [step, sendAwaitSuspend, hc]
  | .recv h => by
    simp only [step, recvAwaitSuspend]
    split <;> simp [hc]
  | .close => by simp [step, close, hc]

theorem closed_run {ch : Channel α} (hc : ch.closed = true) (ops : List (Op α)) :
    (ch.run ops).closed = true := by
  induction ops generalizing ch with
  | nil => exact hc
  | cons op ops ih => exact ih (closed_step hc op)

/-- **Channel representation invariant.** From an empty open channel of any
capacity `k`, every sequence of steps reaches a state with `|buffer| ≤ k`, no
buffered value beside a parked receiver, parked senders only beside a full
buffer, never both kinds of waiter, no waiter once closed; and a closed
channel stays closed under every further sequence of steps. -/
theorem channel_rep_invariant (k : Nat) (ops : List (Op α)) :
    Inv k ((empty k : Channel α).run ops) ∧
      ∀ more, ((empty k : Channel α).run ops).closed = true →
        ((empty k : Channel α).run (ops ++ more)).closed = true :=
  ⟨inv_run (inv_empty k) ops, fun more hc => by rw [run_append]; exact closed_run hc more⟩

-- ---------------------------------------------------------------------------
-- The channel as a FIFO queue
-- ---------------------------------------------------------------------------

/-- The values in flight, in the order receivers get them: the buffer, then
the parked senders' values. -/
def pending (ch : Channel α) : List α := ch.buffer ++ ch.sendWaiters.map SenderWaiter.value

/-- The values a step's effects write through parked receivers' `result_ptr`. -/
def written (effs : List (Effect α)) : List α := effs.filterMap fun
  | .deliver _ v => v
  | .spawn _ => none

/-- What a step moves through the channel: the value of a send whose `result`
is `true`, the values handed to receivers (a receiver's own `result`, and
writes through parked receivers' `result_ptr`), and the values of the parked
senders that `close` pops. -/
structure Flow (α : Type) where
  accepted : List α
  delivered : List α
  dropped : List α

def flow (ch : Channel α) : Op α → Flow α
  | .send h v =>
    ⟨if (ch.sendAwaitSuspend h v).result then [v] else [], written (ch.sendAwaitSuspend h v).effects, []⟩
  | .recv h => ⟨[], (ch.recvAwaitSuspend h).result.toList ++ written (ch.recvAwaitSuspend h).effects, []⟩
  | .close => ⟨[], written ch.close.2, if ch.closed then [] else ch.sendWaiters.map SenderWaiter.value⟩

/-- The flows of a sequence of steps, each component concatenated. -/
def flowRun (ch : Channel α) : List (Op α) → Flow α
  | [] => ⟨[], [], []⟩
  | op :: ops =>
    let f := ch.flow op
    let r := (ch.step op).flowRun ops
    ⟨f.accepted ++ r.accepted, f.delivered ++ r.delivered, f.dropped ++ r.dropped⟩

/-- A step of a FIFO queue from `q` to `q'`: what it accepts joins the back,
what it delivers leaves the front, and what it drops leaves the back. -/
def FifoStep (q : List α) (f : Flow α) (q' : List α) : Prop :=
  q ++ f.accepted = f.delivered ++ q' ++ f.dropped

theorem fifo_send {k : Nat} {ch : Channel α} (hi : Inv k ch) (h : Coro) (v : α) :
    FifoStep ch.pending (ch.flow (.send h v)) (ch.step (.send h v)).pending := by
  simp only [FifoStep, flow, step]
  by_cases hc : ch.closed = true
  · simp [sendAwaitSuspend, hc, written]
  cases hr : ch.recvWaiters with
  | cons r rs =>
    -- a parked receiver means nothing is in flight
    have hb : ch.buffer = [] := by_contra fun hb => by simp [hi.recv_nil_of_buffer hb] at hr
    have hs : ch.sendWaiters = [] := hi.send_nil_or_recv_nil.resolve_right (by simp [hr])
    simp [sendAwaitSuspend, hc, hr, pending, written, hb, hs]
  | nil =>
    by_cases hroom : ch.buffer.length < ch.capacity
    · have hs : ch.sendWaiters = [] := by_contra fun hs => by
        have := hi.buffer_full_of_send hs; have := hi.capacity_eq; omega
      simp [sendAwaitSuspend, hc, hr, hroom, pending, written, hs]
    · simp [sendAwaitSuspend, hc, hr, hroom, pending, written]

theorem fifo_recv {ch : Channel α} (h : Coro) :
    FifoStep ch.pending (ch.flow (.recv h)) (ch.step (.recv h)).pending := by
  simp only [FifoStep, flow, step]
  cases hb : ch.buffer <;> cases hs : ch.sendWaiters
  · by_cases hc : ch.closed = true <;> simp [recvAwaitSuspend, hb, hs, hc, pending, written]
  all_goals simp [recvAwaitSuspend, hb, hs, pending, written]

/-- `close` hands no value to anyone: it writes only `std::nullopt`. -/
theorem written_close (ch : Channel α) : written ch.close.2 = [] := by
  refine List.filterMap_eq_nil_iff.2 fun e he => ?_
  unfold close at he
  split at he
  · simp at he
  · simp only [List.mem_append, List.mem_map, List.mem_flatMap, List.mem_cons,
      List.not_mem_nil, or_false] at he
    rcases he with ⟨w, _, rfl⟩ | ⟨r, _, rfl | rfl⟩ <;> rfl

theorem fifo_close {ch : Channel α} :
    FifoStep ch.pending (ch.flow .close) (ch.step .close).pending := by
  simp only [FifoStep, flow, step, written_close]
  unfold close
  split <;> simp [pending, *]

/-- **Refinement.** Every step of the channel is a step of a FIFO queue on
the values in flight. -/
theorem fifo_step {k : Nat} {ch : Channel α} (hi : Inv k ch) :
    ∀ op, FifoStep ch.pending (ch.flow op) (ch.step op).pending
  | .send h v => fifo_send hi h v
  | .recv h => fifo_recv h
  | .close => fifo_close

/-- A closed channel takes nothing in and drops nothing more. -/
theorem flow_of_closed {ch : Channel α} (hc : ch.closed = true) :
    ∀ op, (ch.flow op).accepted = [] ∧ (ch.flow op).dropped = []
  | .send h v => by simp [flow, sendAwaitSuspend, hc]
  | .recv h => ⟨rfl, rfl⟩
  | .close => by simp [flow, hc]

/-- Only a `close` that flips `closed_` drops values. -/
theorem closed_of_dropped {ch : Channel α} :
    ∀ op, (ch.flow op).dropped ≠ [] → (ch.step op).closed = true
  | .send h v => fun h' => absurd rfl h'
  | .recv h => fun h' => absurd rfl h'
  | .close => fun _ => by simp only [step, close]; split <;> simp_all

theorem flowRun_of_closed {ch : Channel α} (hc : ch.closed = true) (ops : List (Op α)) :
    (ch.flowRun ops).accepted = [] ∧ (ch.flowRun ops).dropped = [] := by
  induction ops generalizing ch with
  | nil => exact ⟨rfl, rfl⟩
  | cons op ops ih =>
    obtain ⟨ha, hd⟩ := flow_of_closed hc op
    obtain ⟨ha', hd'⟩ := ih (closed_step hc op)
    simp only [flowRun, ha, hd, ha', hd', List.append_nil, and_self]

/-- The run-level simulation: along any sequence of steps from a channel
satisfying the invariant, the values in flight at the start followed by what
was accepted are what was delivered, then what is still in flight, then what
`close` dropped. -/
theorem fifo_run {k : Nat} {ch : Channel α} (hi : Inv k ch) (ops : List (Op α)) :
    FifoStep ch.pending (ch.flowRun ops) (ch.run ops).pending := by
  induction ops generalizing ch with
  | nil => simp [FifoStep, flowRun]
  | cons op ops ih =>
    have h1 := fifo_step hi op
    have h2 := ih (inv_step hi op)
    simp only [FifoStep, flowRun, run_cons] at h1 h2 ⊢
    by_cases hd : (ch.flow op).dropped = []
    · rw [hd, List.append_nil] at h1
      rw [hd, List.nil_append, ← List.append_assoc, h1, List.append_assoc, h2]
      simp only [List.append_assoc]
    · obtain ⟨ha, hd'⟩ := flowRun_of_closed (closed_of_dropped op hd) ops
      rw [ha, hd', List.append_nil] at h2
      rw [ha, hd', List.append_nil, List.append_nil, h1, h2]
      simp only [List.append_nil, List.append_assoc]

/-- **The channel is a FIFO queue that `close` may cut short.** From an empty
open channel of any capacity, along any sequence of steps, the values sends
took in are, in the order their steps took `mtx_`: the values handed to
receivers, each once; then the values still in flight; then the values of the
senders parked at `close`, which are dropped. -/
theorem channel_fifo (k : Nat) (ops : List (Op α)) :
    ((empty k : Channel α).flowRun ops).accepted =
      ((empty k : Channel α).flowRun ops).delivered ++ ((empty k : Channel α).run ops).pending ++
        ((empty k : Channel α).flowRun ops).dropped := by
  simpa [FifoStep, pending, empty] using fifo_run (inv_empty k) ops

/-- A receiver is handed `std::nullopt` only by a closed channel with nothing
in flight: by its own step when it does not suspend, or through its
`result_ptr` by `close`. -/
theorem nullopt_only_when_drained {k : Nat} {ch : Channel α} (hi : Inv k ch) :
    (∀ h, (ch.recvAwaitSuspend h).result = none → (ch.recvAwaitSuspend h).suspend = false →
      ch.closed = true ∧ ch.pending = []) ∧
    (∀ r, Effect.deliver r none ∈ ch.close.2 → ch.close.1.closed = true ∧ ch.pending = []) := by
  refine ⟨fun h hr hs => ?_, fun r hr => ?_⟩
  · revert hr hs
    unfold recvAwaitSuspend
    split
    · simp
    · simp
    · simp
    · rename_i hb hs
      split <;> simp_all [pending]
  · unfold close at hr ⊢
    split at hr
    · simp at hr
    · rename_i hopen
      have hrw : ch.recvWaiters ≠ [] := by
        rintro hnil; simp [hnil] at hr
      have hs : ch.sendWaiters = [] := hi.send_nil_or_recv_nil.resolve_right hrw
      have hb : ch.buffer = [] := by_contra fun hb => hrw (hi.recv_nil_of_buffer hb)
      simp [hopen, pending, hs, hb]

/-- Receiver `5` parked on an empty open channel: `close` hands it
`std::nullopt`, and leaves a closed drained channel on which receiver `6`
gets `std::nullopt` at once. -/
theorem nullopt_only_when_drained_parked :
    let ch := ((empty 0 : Channel Nat).recvAwaitSuspend 5).chan
    Inv 0 ch ∧ Effect.deliver 5 none ∈ ch.close.2 ∧
      ((∀ h, (ch.recvAwaitSuspend h).result = none → (ch.recvAwaitSuspend h).suspend = false →
          ch.closed = true ∧ ch.pending = []) ∧
        (∀ r, Effect.deliver r none ∈ ch.close.2 → ch.close.1.closed = true ∧ ch.pending = [])) ∧
      Inv 0 ch.close.1 ∧ (ch.close.1.recvAwaitSuspend 6).result = none ∧
      (ch.close.1.recvAwaitSuspend 6).suspend = false ∧
      ((∀ h, (ch.close.1.recvAwaitSuspend h).result = none →
          (ch.close.1.recvAwaitSuspend h).suspend = false →
          ch.close.1.closed = true ∧ ch.close.1.pending = []) ∧
        (∀ r, Effect.deliver r none ∈ ch.close.1.close.2 →
          ch.close.1.close.1.closed = true ∧ ch.close.1.pending = [])) :=
  have hi : Inv 0 ((empty 0 : Channel Nat).recvAwaitSuspend 5).chan := inv_recv (inv_empty 0) 5
  ⟨hi, by decide, nullopt_only_when_drained hi, inv_close hi, rfl, rfl,
    nullopt_only_when_drained (inv_close hi)⟩

-- ---------------------------------------------------------------------------
-- A closed, drained channel
-- ---------------------------------------------------------------------------

/-- A closed channel with nothing buffered and no parked sender is a fixed
point of every step: every send fails, every receive resolves to
`std::nullopt`, and nothing is written or spawned. -/
theorem step_of_drained {ch : Channel α} (hc : ch.closed = true) (hb : ch.buffer = [])
    (hs : ch.sendWaiters = []) :
    (∀ h v, ch.sendAwaitSuspend h v = ⟨ch, false, false, []⟩) ∧
      (∀ h, ch.recvAwaitSuspend h = ⟨ch, none, false, []⟩) ∧ ch.close = (ch, []) := by
  refine ⟨fun h v => by simp [sendAwaitSuspend, hc], fun h => ?_, by simp [close, hc]⟩
  simp only [recvAwaitSuspend, hb, hs, hc, if_true]

theorem run_of_drained {ch : Channel α} (hc : ch.closed = true) (hb : ch.buffer = [])
    (hs : ch.sendWaiters = []) (ops : List (Op α)) : ch.run ops = ch := by
  obtain ⟨hsend, hrecv, hclose⟩ := step_of_drained hc hb hs
  induction ops with
  | nil => rfl
  | cons op ops ih =>
    cases op <;> simp only [run_cons, step, hsend, hrecv, hclose] <;> exact ih

/-- **`close` strands a parked sender.** On an unbuffered channel, a sender of
`7` parks (no receiver is waiting); `close` then spawns it with no write to its
awaiter, so its `SendAwaiter::result` — which `await_resume` returns — is still
`true`, while its value is gone: the closed channel is drained, so by
`run_of_drained` no later step delivers anything. -/
theorem close_strands_parked_sender :
    ((empty 0 : Channel Nat).sendAwaitSuspend 1 7).suspend = true ∧
      ((empty 0 : Channel Nat).sendAwaitSuspend 1 7).result = true ∧
      ((empty 0 : Channel Nat).sendAwaitSuspend 1 7).chan.close =
        (⟨0, true, [], [], []⟩, [.spawn 1]) := by
  decide

end Channel

end TinyCoro
