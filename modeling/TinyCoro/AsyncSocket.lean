import TinyCoro.TaskHandle

/-!
# TinyCoro — the descriptors `AsyncSocket` and `TcpListener` own

`AsyncSocket` (`include/socket.h`) owns one descriptor `fd_`, `-1` for none.
`TcpListener::CoAccept::await_resume` builds one from what `::accept`
returned: `-1` on failure, else a descriptor the kernel was not using, which
may be a number closed before, since the kernel reuses free numbers. Copying
is deleted. The move constructor takes `fd_` and sets its source's to `-1`;
move assignment, unless it assigns an object to itself, first closes its own
descriptor if it has one, then takes the source's and sets it to `-1`; the
destructor closes the descriptor if it has one. The servers move each
accepted socket into the coroutine that serves it.

`TcpListener` starts with `fd_ = -1`. `bind` closes the descriptor it has, if
any, and stores what `socket()` returns (`-1` on failure; a failing `::bind`
or `::listen` after it keeps the descriptor); the destructor closes it. No
listener is moved or copied in the repository.

`Sys` is the kernel's table of these descriptors and the two kinds of
objects, each by index (a destroyed object keeps its place), with two ghost
counters per descriptor number: how many times `::accept` or `socket()`
returned it, and how many times one of the objects passed it to `::close`.
The poller's descriptors are not in the table: neither call returns them
while they are open, and no object holds them.

Main results:

* `inv_of_effect`, `reachable_inv` — over every sequence of operations, an
  open descriptor is held by exactly one live object and a closed one by
  none, and each number has been closed once for every time it was opened
  and is no longer open.
* `socket_ownership` — with it, every `::close` is of an open descriptor that
  the closing object alone holds, so none hits a closed descriptor, one
  reused by a later connection, or one another object still uses; once every
  object is destroyed, every descriptor opened has been closed exactly once.
-/

namespace TinyCoro

namespace AsyncSocket

/-- An `AsyncSocket` or a `TcpListener`: alive with its `fd_` (`-1` for
none), or destroyed. -/
inductive Obj where
  | live (fd : Int)
  | dropped
  deriving DecidableEq, Repr

/-- The descriptors and the objects that hold them. -/
structure Sys where
  /-- Whether the kernel has each descriptor number open. -/
  isOpen : Int → Bool
  /-- How many times `::accept` or `socket()` returned each number. -/
  openCalls : Int → Nat
  /-- How many times an object passed each number to `::close`. -/
  closeCalls : Int → Nat
  /-- The `AsyncSocket`s. -/
  sockets : List Obj
  /-- The `TcpListener`s. -/
  listeners : List Obj

/-- No descriptor, no object. -/
def Sys.init : Sys := ⟨fun _ => false, fun _ => 0, fun _ => 0, [], []⟩

/-- The `fd_` of the live object at `i`. -/
def fdAt (l : List Obj) (i : Nat) : Option Int :=
  match l[i]? with
  | some (.live fd) => some fd
  | _ => none

/-- `if (fd_ != -1) ::close(fd_)`. -/
def Sys.close (s : Sys) (fd : Int) : Sys :=
  if fd = -1 then s else
    { s with isOpen := Function.update s.isOpen fd false,
             closeCalls := Function.update s.closeCalls fd (s.closeCalls fd + 1) }

/-- `::accept` or `socket()` returned `fd`: `-1` on failure, else a descriptor
the kernel was not using; `none` for what neither call returns. -/
def Sys.opens (s : Sys) (fd : Int) : Option Sys :=
  if fd = -1 then some s
  else if 0 ≤ fd ∧ s.isOpen fd = false then
    some { s with isOpen := Function.update s.isOpen fd true,
                  openCalls := Function.update s.openCalls fd (s.openCalls fd + 1) }
  else none

/-- The operations on `AsyncSocket`s and `TcpListener`s. -/
inductive Action where
  /-- `co_await listener.accept()`: `::accept` returned `fd`, and
  `AsyncSocket(client_fd, r)` holds it. -/
  | accept (fd : Int)
  /-- `AsyncSocket(AsyncSocket&& other)` for the socket `i`. -/
  | move (i : Nat)
  /-- Socket `i` `= std::move(` socket `j` `)`. -/
  | moveAssign (i j : Nat)
  /-- `~AsyncSocket` of the socket `i`. -/
  | drop (i : Nat)
  /-- `TcpListener(r)`: `fd_(-1)`. -/
  | listen
  /-- `TcpListener::bind` on the listener `i`, `socket()` returning `fd`. -/
  | bind (i : Nat) (fd : Int)
  /-- `~TcpListener` of the listener `i`. -/
  | dropListener (i : Nat)
  deriving DecidableEq, Repr

/-- One operation; `none` when it names no live object, or when a descriptor
is not one `::accept` or `socket()` can return. -/
def Sys.step (s : Sys) : Action → Option Sys
  | .accept fd => (s.opens fd).map fun k => { k with sockets := s.sockets ++ [.live fd] }
  | .move i => (fdAt s.sockets i).map fun fd =>
      { s with sockets := s.sockets.set i (.live (-1)) ++ [.live fd] }
  | .moveAssign i j => (fdAt s.sockets i).bind fun fi => (fdAt s.sockets j).map fun fj =>
      if i = j then s
      else { s.close fi with sockets := (s.sockets.set i (.live fj)).set j (.live (-1)) }
  | .drop i => (fdAt s.sockets i).map fun fd =>
      { s.close fd with sockets := s.sockets.set i .dropped }
  | .listen => some { s with listeners := s.listeners ++ [.live (-1)] }
  | .bind i fd => (fdAt s.listeners i).bind fun f =>
      ((s.close f).opens fd).map fun k => { k with listeners := s.listeners.set i (.live fd) }
  | .dropListener i =>
    (fdAt s.listeners i).map fun fd => { s.close fd with listeners := s.listeners.set i .dropped }

/-- The states some sequence of operations reaches. -/
inductive Reachable : Sys → Prop
  | init : Reachable Sys.init
  | step {s s' : Sys} (a : Action) : Reachable s → s.step a = some s' → Reachable s'

/-- The live objects whose `fd_` is `fd`. -/
def Sys.holders (s : Sys) (fd : Int) : Nat :=
  s.sockets.count (.live fd) + s.listeners.count (.live fd)

-- ---------------------------------------------------------------------------
-- Closing and opening
-- ---------------------------------------------------------------------------

section Lemmas

variable {s k : Sys} {l : List Obj} {i : Nat} {c o f fd : Int}

@[simp] theorem close_neg_one (s : Sys) : s.close (-1) = s := if_pos rfl

@[simp] theorem close_objs : (s.close f).sockets = s.sockets := by
  unfold Sys.close; split_ifs <;> rfl

@[simp] theorem close_listeners : (s.close f).listeners = s.listeners := by
  unfold Sys.close; split_ifs <;> rfl

@[simp] theorem close_openCalls : (s.close f).openCalls = s.openCalls := by
  unfold Sys.close; split_ifs <;> rfl

/-- `::close(c)` as the descriptor `fd` sees it. -/
theorem close_apply (hfd : fd ≠ -1) :
    (s.close c).isOpen fd = (if c = fd then false else s.isOpen fd) ∧
      (s.close c).closeCalls fd = s.closeCalls fd + (if c = fd then 1 else 0) := by
  by_cases hc : c = fd
  · subst hc
    simp [Sys.close, hfd]
  · unfold Sys.close
    split_ifs <;> simp [Function.update_noteq (Ne.symm hc), hc]

/-- A descriptor returned by `::accept` or `socket()`, as `fd` sees it: it
was closed, and it is open now. -/
theorem opens_apply (h : s.opens o = some k) (hfd : fd ≠ -1) :
    k.isOpen fd = (if o = fd then true else s.isOpen fd) ∧
      k.openCalls fd = s.openCalls fd + (if o = fd then 1 else 0) ∧
      k.closeCalls = s.closeCalls ∧ (o = fd → s.isOpen fd = false) := by
  unfold Sys.opens at h
  split_ifs at h with h1 h2 <;> cases h
  · subst h1
    simp [Ne.symm hfd]
  · by_cases ho : o = fd
    · subst ho
      simp [h2.2]
    · simp [Function.update_noteq (Ne.symm ho), ho]

theorem opens_frame (h : s.opens o = some k) :
    k.sockets = s.sockets ∧ k.listeners = s.listeners := by
  unfold Sys.opens at h
  split_ifs at h <;> cases h <;> exact ⟨rfl, rfl⟩

theorem get_of_fdAt (hh : fdAt l i = some f) : l[i]? = some (.live f) := by
  unfold fdAt at hh
  split at hh <;> simp_all

/-- A live object's descriptor is held. -/
theorem count_pos_of_fdAt (hh : fdAt l i = some f) : 0 < l.count (.live f) := by
  obtain ⟨hi, hx⟩ := List.getElem?_eq_some_iff.mp (get_of_fdAt hh)
  exact List.count_pos_iff.mpr (hx ▸ List.getElem_mem hi)

/-- Overwriting the object at `i`, counted for the descriptor `fd`. -/
theorem count_set_fdAt (hh : fdAt l i = some f) (x : Obj) (fd : Int) :
    (l.set i x).count (.live fd) + (if f = fd then 1 else 0) =
      l.count (.live fd) + (if x = .live fd then 1 else 0) := by
  have := TaskHandle.count_set_add (get_of_fdAt hh) x (.live fd)
  simpa only [Obj.live.injEq] using this

end Lemmas

-- ---------------------------------------------------------------------------
-- The invariant
-- ---------------------------------------------------------------------------

/-- What an operation does: `::close(c)` of a descriptor some object holds
(nothing when `c = -1`), then a descriptor `o` that `::accept` or `socket()`
returned (nothing when `o = -1`), with the holders of each descriptor moving
accordingly. -/
structure Effect (s s' : Sys) (c o : Int) : Prop where
  held : c ≠ -1 → 0 < s.holders c
  kernel : ∃ k, (s.close c).opens o = some k ∧ s'.isOpen = k.isOpen ∧
    s'.openCalls = k.openCalls ∧ s'.closeCalls = k.closeCalls
  holders : ∀ fd, fd ≠ -1 →
    s'.holders fd + (if c = fd then 1 else 0) = s.holders fd + (if o = fd then 1 else 0)

/-- What every sequence of operations keeps, for every descriptor. -/
structure Inv (s : Sys) : Prop where
  /-- An open descriptor has one holder; a closed one, none. -/
  owned : ∀ fd, fd ≠ -1 → s.holders fd = if s.isOpen fd then 1 else 0
  /-- Each number has been closed once for each time it was opened and is not
  open now. -/
  closes : ∀ fd, fd ≠ -1 → s.closeCalls fd + (if s.isOpen fd then 1 else 0) = s.openCalls fd

theorem inv_init : Inv Sys.init :=
  ⟨fun _ _ => by simp [Sys.init, Sys.holders], fun _ _ => by simp [Sys.init]⟩

/-- The descriptor an operation closes is open and held once. -/
theorem closed_held {s s' : Sys} {c o : Int} (hi : Inv s) (he : Effect s s' c o) (hc : c ≠ -1) :
    s.isOpen c = true ∧ s.holders c = 1 := by
  have hown := hi.owned c hc
  have := he.held hc
  split_ifs at hown with hop
  · exact ⟨hop, hown⟩
  · omega

/-- Every operation keeps the invariant: each descriptor is closed, opened,
both (`bind` can get back the number it just closed), or left alone. -/
theorem inv_of_effect {s s' : Sys} {c o : Int} (hi : Inv s) (he : Effect s s' c o) : Inv s' := by
  obtain ⟨k, hk, ho, hoc, hcc⟩ := he.kernel
  suffices h : ∀ fd, fd ≠ -1 → s'.holders fd = (if s'.isOpen fd then 1 else 0) ∧
      s'.closeCalls fd + (if s'.isOpen fd then 1 else 0) = s'.openCalls fd from
    ⟨fun fd hfd => (h fd hfd).1, fun fd hfd => (h fd hfd).2⟩
  intro fd hfd
  obtain ⟨k1, k2, k3, k4⟩ := opens_apply hk hfd
  obtain ⟨c1, c2⟩ := close_apply (s := s) (c := c) hfd
  have hh := he.holders fd hfd
  have hown := hi.owned fd hfd
  have hcl := hi.closes fd hfd
  rw [ho, hoc, hcc, k1, k2, k3, c2, close_openCalls, c1]
  rw [c1] at k4
  by_cases hcf : c = fd
  · subst hcf
    obtain ⟨hop, h1⟩ := closed_held hi he hfd
    rw [hop, if_pos rfl] at hcl
    by_cases hof : o = c <;> simp [hof] at hh ⊢ <;> omega
  · by_cases hof : o = fd
    · have hcl' := k4 hof
      rw [if_neg hcf] at hcl'
      rw [hcl', if_neg (by decide)] at hown hcl
      simp only [hcf, hof, if_true, if_false] at hh ⊢
      omega
    · simp only [hcf, hof, if_false, Nat.add_zero] at hh ⊢
      rw [hh]
      exact ⟨hown, hcl⟩

/-- Every operation has an effect: what it closes, and what it opens. -/
theorem step_effect {s s' : Sys} {a : Action} (h : s.step a = some s') :
    ∃ c o, Effect s s' c o := by
  cases a with
  | accept f =>
    obtain ⟨k, hk, rfl⟩ := Option.map_eq_some'.mp h
    refine ⟨-1, f, ⟨fun h => absurd rfl h,
      ⟨k, by rw [close_neg_one]; exact hk, rfl, rfl, rfl⟩, fun fd _ => ?_⟩⟩
    simp [Sys.holders, List.count_append, List.count_singleton', (opens_frame hk).2]
    split_ifs <;> omega
  | move i =>
    obtain ⟨f, hh, rfl⟩ := Option.map_eq_some'.mp h
    refine ⟨-1, -1, ⟨fun h => absurd rfl h, ⟨s, by simp [Sys.opens], rfl, rfl, rfl⟩,
      fun fd hfd => ?_⟩⟩
    have := count_set_fdAt hh (.live (-1)) fd
    simp only [Sys.holders, List.count_append, List.count_singleton', Obj.live.injEq] at this ⊢
    split_ifs at this ⊢ <;> omega
  | moveAssign i j =>
    obtain ⟨fi, hhi, h⟩ := Option.bind_eq_some.mp h
    obtain ⟨fj, hhj, rfl⟩ := Option.map_eq_some'.mp h
    split_ifs with hij
    · exact ⟨-1, -1, fun h => absurd rfl h, ⟨s, by simp [Sys.opens], rfl, rfl, rfl⟩,
        fun _ _ => by simp⟩
    refine ⟨fi, -1, ⟨fun _ => Nat.lt_add_right _ (count_pos_of_fdAt hhi),
      ⟨s.close fi, by simp [Sys.opens], rfl, rfl, rfl⟩, fun fd hfd => ?_⟩⟩
    have hj : fdAt (s.sockets.set i (.live fj)) j = some fj := by
      simp only [fdAt, List.getElem?_set_ne hij]; exact hhj
    have h1 := count_set_fdAt hhi (.live fj) fd
    have h2 := count_set_fdAt hj (.live (-1)) fd
    simp only [Sys.holders, close_objs, close_listeners, Obj.live.injEq] at h1 h2 ⊢
    split_ifs at h1 h2 ⊢ <;> omega
  | drop i =>
    obtain ⟨f, hh, rfl⟩ := Option.map_eq_some'.mp h
    refine ⟨f, -1, ⟨fun _ => Nat.lt_add_right _ (count_pos_of_fdAt hh),
      ⟨s.close f, by simp [Sys.opens], rfl, rfl, rfl⟩, fun fd hfd => ?_⟩⟩
    have := count_set_fdAt hh .dropped fd
    simp only [Sys.holders, close_objs, close_listeners, reduceCtorEq, if_false] at this ⊢
    split_ifs at this ⊢ <;> omega
  | listen =>
    cases h
    refine ⟨-1, -1, fun h => absurd rfl h, ⟨s, by simp [Sys.opens], rfl, rfl, rfl⟩,
      fun fd hfd => ?_⟩
    simp [Sys.holders, List.count_append, List.count_singleton', Ne.symm hfd]
  | bind i f' =>
    obtain ⟨f, hh, h⟩ := Option.bind_eq_some.mp h
    obtain ⟨k, hk, rfl⟩ := Option.map_eq_some'.mp h
    refine ⟨f, f', ⟨fun _ => Nat.lt_add_left _ (count_pos_of_fdAt hh),
      ⟨k, hk, rfl, rfl, rfl⟩, fun fd hfd => ?_⟩⟩
    have := count_set_fdAt hh (.live f') fd
    obtain ⟨h1, -⟩ := opens_frame hk
    simp only [Sys.holders, h1, close_objs, Obj.live.injEq] at this ⊢
    split_ifs at this ⊢ <;> omega
  | dropListener i =>
    obtain ⟨f, hh, rfl⟩ := Option.map_eq_some'.mp h
    refine ⟨f, -1, ⟨fun _ => Nat.lt_add_left _ (count_pos_of_fdAt hh),
      ⟨s.close f, by simp [Sys.opens], rfl, rfl, rfl⟩, fun fd hfd => ?_⟩⟩
    have := count_set_fdAt hh .dropped fd
    simp only [Sys.holders, close_objs, close_listeners, reduceCtorEq, if_false] at this ⊢
    split_ifs at this ⊢ <;> omega

theorem inv_step {s s' : Sys} {a : Action} (hi : Inv s) (h : s.step a = some s') : Inv s' :=
  have ⟨_, _, he⟩ := step_effect h
  inv_of_effect hi he

theorem reachable_inv {s : Sys} (hs : Reachable s) : Inv s := by
  induction hs with
  | init => exact inv_init
  | step a _ h ih => exact inv_step ih h

/-- An operation calls `::close` on `fd` at most once, and only while `fd` is
open and held by one object. -/
theorem closeCalls_step {s s' : Sys} {a : Action} (hi : Inv s) (h : s.step a = some s')
    (fd : Int) (hfd : fd ≠ -1) :
    s'.closeCalls fd = s.closeCalls fd ∨
      s.isOpen fd = true ∧ s.holders fd = 1 ∧ s'.closeCalls fd = s.closeCalls fd + 1 := by
  obtain ⟨c, o, he⟩ := step_effect h
  obtain ⟨k, hk, -, -, hcc⟩ := he.kernel
  have hc : s'.closeCalls fd = s.closeCalls fd + if c = fd then 1 else 0 := by
    rw [hcc, (opens_apply hk hfd).2.2.1, (close_apply hfd).2]
  by_cases hcf : c = fd
  · subst hcf
    rw [if_pos rfl] at hc
    exact .inr ⟨(closed_held hi he hfd).1, (closed_held hi he hfd).2, hc⟩
  · rw [if_neg hcf, Nat.add_zero] at hc
    exact .inl hc

/-- **Each descriptor has one owner and is closed once.** Over every sequence
of accepts, moves, move assignments and destructions of `AsyncSocket`s and
of constructions, `bind`s and destructions of `TcpListener`s, an open
descriptor is held by exactly one live object and a closed one by none; each
number has been closed once for each time `::accept` or `socket()` returned
it, except while it is open. Every `::close` is of an open descriptor that
the closing object alone holds, so none hits a descriptor already closed,
reused by a later connection, or still used by another object. Once every
object is destroyed, every descriptor opened has been closed exactly once. -/
theorem socket_ownership {s : Sys} (hs : Reachable s) (fd : Int) (hfd : fd ≠ -1) :
    s.holders fd = (if s.isOpen fd then 1 else 0) ∧
      s.closeCalls fd + (if s.isOpen fd then 1 else 0) = s.openCalls fd ∧
      (∀ a s', s.step a = some s' → s'.closeCalls fd = s.closeCalls fd ∨
        s.isOpen fd = true ∧ s.holders fd = 1 ∧ s'.closeCalls fd = s.closeCalls fd + 1) ∧
      ((∀ o ∈ s.sockets ++ s.listeners, o = .dropped) →
        s.closeCalls fd = s.openCalls fd) := by
  have hi := reachable_inv hs
  refine ⟨hi.owned fd hfd, hi.closes fd hfd, fun _ _ h => closeCalls_step hi h fd hfd,
    fun hall => ?_⟩
  have hz : s.holders fd = 0 := by
    have h1 : s.sockets.count (.live fd) = 0 := List.count_eq_zero.mpr fun hm => by
      cases hall _ (List.mem_append_left _ hm)
    have h2 : s.listeners.count (.live fd) = 0 := List.count_eq_zero.mpr fun hm => by
      cases hall _ (List.mem_append_right _ hm)
    simp only [Sys.holders, h1, h2]
  have := hi.owned fd hfd
  have hc := hi.closes fd hfd
  split_ifs at this hc <;> omega

/-- Descriptor `3`, accepted and then moved into a second socket, is open and
held by that one. -/
theorem socket_ownership_moved :
    ∃ s, Reachable s ∧ s.isOpen 3 = true ∧ (3 : Int) ≠ -1 ∧
      (s.holders 3 = (if s.isOpen 3 then 1 else 0) ∧
        s.closeCalls 3 + (if s.isOpen 3 then 1 else 0) = s.openCalls 3 ∧
        (∀ a s', s.step a = some s' → s'.closeCalls 3 = s.closeCalls 3 ∨
          s.isOpen 3 = true ∧ s.holders 3 = 1 ∧ s'.closeCalls 3 = s.closeCalls 3 + 1) ∧
        ((∀ o ∈ s.sockets ++ s.listeners, o = .dropped) → s.closeCalls 3 = s.openCalls 3)) :=
  have h : Reachable _ := .step (.move 0) (.step (.accept 3) .init rfl) rfl
  ⟨_, h, rfl, by decide, socket_ownership h 3 (by decide)⟩

end AsyncSocket

end TinyCoro
