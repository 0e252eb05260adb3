import Mathlib.Algebra.Order.Ring.Nat
import Mathlib.Data.List.Infix
import Mathlib.Data.List.Forall2

/-!
# TinyCoro — `HttpServer`'s response and upload, `HttpRequest::get_header`

`HttpServer` (`include/http/http_server.h`) sends and receives over an
`AsyncSocket`, whose `read` and `write` awaiters make one `::read` or
`::write` call (and one more after `EAGAIN`) and return its result.

* `send_response` builds the status line and the headers, with
  `Content-Length` the body's size, then `co_await`s one `write` of them and,
  for a body that is not empty, one `write` of the body. It does not look at
  what the writes return.
* `receive_to_file` opens the file, writes the part of `initial_data` within
  `content_length`, then reads at most `min(8192, content_length - total)`
  bytes at a time and writes what each read returns, until `content_length`
  bytes have come or a read returns `n ≤ 0`.

The socket is an oracle. A `::write` of a buffer puts a prefix of it on the
wire, as long as the count it returns. `sock i` bounds what the `i`-th read
returns; a read also returns no more than it asks for and no more than the
client's byte stream still holds.

Main results:

* `header_write_cut` — for every status, content type and body, one run of
  the socket's writes, each returning a positive count no larger than asked,
  puts less on the wire than the headers and the body.
* `sendResponse_whole` — when each write returns its whole size, the wire
  carries the headers, then the body.
* `receive_prefix` — the file receives the part of `initial_data` within
  `content_length`, then exactly the bytes read, never more than
  `content_length` in all. The reads take a prefix of the stream of at most
  `content_length` minus what `initial_data` gave, each read returning what
  `socket_.read` gives for `min(8192, content_length - total_received)`, and
  they go on until `content_length` bytes have come or a read returns `0`.
  The loop ends because each read that returns bytes moves
  `total_received` toward `content_length`.
* `getHeader_eq_find` — `get_header` returns the value of the first header
  whose name equals the one asked for up to `std::tolower`, or `""`; so two
  names that differ only in case get the same value.
-/

namespace TinyCoro

namespace HttpServer

-- ---------------------------------------------------------------------------
-- send_response
-- ---------------------------------------------------------------------------

/-- `"\r\n"`. -/
def crlf : List Char := ['\r', '\n']

/-- The status line and headers `send_response` builds. -/
def responseHeader (code : Int) (contentType body : List Char) : List Char :=
  "HTTP/1.1 ".toList ++ (toString code).toList ++
    (if code = 200 then " OK\r\n".toList else " Error\r\n".toList) ++
    "Server: tiny_coro/1.0\r\n".toList ++
    "Content-Type: ".toList ++ contentType ++ crlf ++
    "Content-Length: ".toList ++ (toString body.length).toList ++ crlf ++
    "Connection: keep-alive\r\n\r\n".toList

/-- The buffers `send_response` hands to `socket_.write`, in order. -/
def sendResponse (code : Int) (contentType body : List Char) : List (List Char) :=
  responseHeader code contentType body :: if body.isEmpty then [] else [body]

/-- What a run of `::write` calls puts on the wire, when each call returns
the count given for it: that many bytes from the front of its buffer. -/
def onWire : List (List Char) → List Nat → List Char
  | b :: bs, n :: ns => b.take n ++ onWire bs ns
  | _, _ => []

/-- Results a socket can give a run of writes: one per call, each positive
and no larger than the size asked. -/
def WriteResults (writes : List (List Char)) (results : List Nat) : Prop :=
  List.Forall₂ (fun b n => 0 < n ∧ n ≤ b.length) writes results

theorem onWire_whole (writes : List (List Char)) :
    onWire writes (writes.map List.length) = writes.flatten := by
  induction writes with
  | nil => rfl
  | cons b bs ih => simp [onWire, ih]

/-- When every write goes through whole, the wire carries the headers, then
the body. -/
theorem sendResponse_whole (code : Int) (contentType body : List Char) :
    onWire (sendResponse code contentType body)
        ((sendResponse code contentType body).map List.length) =
      responseHeader code contentType body ++ body := by
  rw [onWire_whole]
  cases body <;> simp [sendResponse]

/-- **A short write cuts the response.** For every status, content type and
body there are write results the socket may return (the headers' write
takes one byte, the body's all of it) for which the wire carries fewer bytes
than the headers and the body: `send_response` never writes the rest. -/
theorem header_write_cut (code : Int) (contentType body : List Char) :
    ∃ results, WriteResults (sendResponse code contentType body) results ∧
      onWire (sendResponse code contentType body) results ≠
        responseHeader code contentType body ++ body := by
  have hlen : 2 ≤ (responseHeader code contentType body).length := by
    simp [responseHeader]
  refine ⟨1 :: if body.isEmpty then [] else [body.length], ?_, fun h => ?_⟩
  · cases body with
    | nil => exact .cons ⟨Nat.one_pos, by omega⟩ .nil
    | cons c cs => exact .cons ⟨Nat.one_pos, by omega⟩ (.cons ⟨by simp, le_rfl⟩ .nil)
  · have := congrArg List.length h
    cases body <;> simp [sendResponse, onWire] at this <;> omega

-- ---------------------------------------------------------------------------
-- receive_to_file
-- ---------------------------------------------------------------------------

/-- What `co_await socket_.read(buf, to_read)` returns here: a count no larger
than `to_read`, than what the client's stream `input` still holds, or than the
oracle's `bound` for this read; `0` stands for `n <= 0`. -/
def readCount (bound toRead : Nat) (input : List Char) : Nat := min (min bound toRead) input.length

/-- The loop of `receive_to_file`, from `total` bytes received: the bytes it
writes to the file, read in order from the client's stream `input`. A read of
`to_read = min(8192, content_length - total)` bytes returns `n`, bounded by
`sock 0`; `n = 0` (the model of `n <= 0`) ends the loop. -/
def receiveLoop (cl total : Nat) (input : List Char) (sock : Nat → Nat) : List Char :=
  if total < cl then
    let toRead := min 8192 (cl - total)
    let n := readCount (sock 0) toRead input
    if n = 0 then []
    else input.take n ++ receiveLoop cl (total + n) (input.drop n) (sock ∘ Nat.succ)
  else []
termination_by cl - total
decreasing_by simp only [n, readCount] at *; omega

/-- `receive_to_file(save_path, content_length, initial_data)`: the bytes the
file receives, or none when it does not open. -/
def receiveToFile (opened : Bool) (cl : Nat) (init input : List Char) (sock : Nat → Nat) :
    List Char :=
  if opened then
    let toWrite := if init.isEmpty then 0 else min init.length cl
    init.take toWrite ++ receiveLoop cl toWrite input sock
  else []

/-- The loop writes a prefix of the client's stream, of no more than
`content_length - total` bytes: it never reads past the body. -/
theorem receiveLoop_prefix (cl total : Nat) (input : List Char) (sock : Nat → Nat) :
    receiveLoop cl total input sock <+: input ∧
      (receiveLoop cl total input sock).length ≤ cl - total := by
  induction total, input, sock using receiveLoop.induct cl with
  | case1 total input sock hlt toRead n hn =>
    rw [receiveLoop, if_pos hlt, if_pos hn]
    exact ⟨List.nil_prefix, Nat.zero_le _⟩
  | case2 total input sock hlt toRead n hn ih =>
    rw [receiveLoop, if_pos hlt, if_neg hn]
    have hpre := (List.prefix_append_right_inj (input.take n)).2 ih.1
    rw [List.take_append_drop] at hpre
    refine ⟨hpre, ?_⟩
    simp only [n, toRead, readCount] at ih hn ⊢
    simp only [List.length_append, List.length_take]
    omega
  | case3 total input sock hlt =>
    rw [receiveLoop, if_neg hlt]
    exact ⟨List.nil_prefix, Nat.zero_le _⟩

/-- When every read returns at least one byte while the stream has some, the
loop takes the next `content_length - total` bytes of the stream, or all of
it when it is shorter. -/
theorem receiveLoop_of_pos (cl total : Nat) (input : List Char) (sock : Nat → Nat)
    (hs : ∀ i, 0 < sock i) : receiveLoop cl total input sock = input.take (cl - total) := by
  induction total, input, sock using receiveLoop.induct cl with
  | case1 total input sock hlt toRead n hn =>
    rw [receiveLoop, if_pos hlt, if_pos hn]
    simp only [n, toRead, readCount] at hn
    have : input = [] := List.length_eq_zero.mp (by have := hs 0; omega)
    simp [this]
  | case2 total input sock hlt toRead n hn ih =>
    rw [receiveLoop, if_pos hlt, if_neg hn, ih (fun i => hs (i + 1)), ← List.take_add]
    simp only [n, toRead, readCount] at hn ⊢
    congr 1
    omega
  | case3 total input sock hlt =>
    rw [receiveLoop, if_neg hlt, Nat.sub_eq_zero_of_le (Nat.le_of_not_lt hlt), List.take_zero]

/-- **The loop reads until `content_length` or a read `<= 0`.** From `total ≤
content_length`, the loop's reads return `ns`: the `i`-th asks for
`min(8192, content_length - total_received)` and returns what
`socket_.read` gives, a positive count, and the bytes written are the first
`ns.sum` bytes of the stream. After them the loop stops because
`total_received` has reached `content_length`, or because the next read,
issued below `content_length`, returned `0`. -/
theorem receiveLoop_reads (cl total : Nat) (input : List Char) (sock : Nat → Nat)
    (ht : total ≤ cl) :
    ∃ ns : List Nat, receiveLoop cl total input sock = input.take ns.sum ∧
      (∀ i (hi : i < ns.length), 0 < ns[i] ∧
        ns[i] = readCount (sock i) (min 8192 (cl - (total + (ns.take i).sum)))
          (input.drop (ns.take i).sum)) ∧
      (total + ns.sum = cl ∨ total + ns.sum < cl ∧
        readCount (sock ns.length) (min 8192 (cl - (total + ns.sum))) (input.drop ns.sum) = 0) := by
  induction total, input, sock using receiveLoop.induct cl with
  | case1 total input sock hlt toRead n hn =>
    refine ⟨[], by rw [receiveLoop, if_pos hlt, if_pos hn]; rfl, fun i hi => absurd hi (by simp),
      .inr ⟨by simpa using hlt, by simpa using hn⟩⟩
  | case2 total input sock hlt toRead n hn ih =>
    have hle : total + n ≤ cl := by simp only [n, toRead, readCount]; omega
    obtain ⟨ns, hns, hread, hstop⟩ := ih hle
    refine ⟨n :: ns, ?_, fun i hi => ?_, ?_⟩
    · rw [receiveLoop, if_pos hlt, if_neg hn, hns, List.sum_cons, List.take_add]
    · cases i with
      | zero => exact ⟨Nat.pos_of_ne_zero hn, by simp [n, toRead]⟩
      | succ i =>
        obtain ⟨hpos, heq⟩ := hread i (by simpa using hi)
        refine ⟨by simpa using hpos, ?_⟩
        simp only [List.getElem_cons_succ, List.take_succ_cons, List.sum_cons, heq,
          List.drop_drop, Function.comp_apply, ← Nat.add_assoc]
    · simpa only [List.sum_cons, List.length_cons, List.drop_drop, Function.comp_apply,
        Nat.add_assoc] using hstop
  | case3 total input sock hlt =>
    exact ⟨[], by rw [receiveLoop, if_neg hlt]; rfl, fun i hi => absurd hi (by simp),
      .inl (by simp only [List.sum_nil]; omega)⟩

/-- An opened file receives `initial_data` up to `content_length`, then what
the loop reads from there. -/
theorem receiveToFile_true (cl : Nat) (init input : List Char) (sock : Nat → Nat) :
    receiveToFile true cl init input sock =
      init.take (min init.length cl) ++ receiveLoop cl (min init.length cl) input sock := by
  cases init <;> simp [receiveToFile]

/-- **`receive_to_file` writes exactly the body's prefix.** For every
`content_length`, `initial_data`, client stream and run of read results, the
file receives the first `min(content_length, |initial_data| + read)` bytes of
`initial_data`, then the bytes read, never more than `content_length` in all;
the bytes read are a prefix of the stream of at most
`content_length - min(|initial_data|, content_length)` bytes. They are what
the loop's reads returned: each read asks for
`min(8192, content_length - total_received)` and returns a positive count,
and the loop stops once `total_received` reaches `content_length` or a read
below it returns `0`. -/
theorem receive_prefix (cl : Nat) (init input : List Char) (sock : Nat → Nat) :
    let bytesRead := receiveLoop cl (min init.length cl) input sock
    receiveToFile true cl init input sock =
        init.take (min cl (init.length + bytesRead.length)) ++ bytesRead ∧
      bytesRead <+: input ∧ bytesRead.length ≤ cl - min init.length cl ∧
      (receiveToFile true cl init input sock).length ≤ cl ∧
      ∃ ns : List Nat, bytesRead = input.take ns.sum ∧
        (∀ i (hi : i < ns.length), 0 < ns[i] ∧
          ns[i] = readCount (sock i) (min 8192 (cl - (min init.length cl + (ns.take i).sum)))
            (input.drop (ns.take i).sum)) ∧
        (min init.length cl + ns.sum = cl ∨ min init.length cl + ns.sum < cl ∧
          readCount (sock ns.length) (min 8192 (cl - (min init.length cl + ns.sum)))
            (input.drop ns.sum) = 0) := by
  intro bytesRead
  have hloop := receiveLoop_prefix cl (min init.length cl) input sock
  have hinit : init.take (min cl (init.length + bytesRead.length)) =
      init.take (min init.length cl) := List.take_eq_take.2 (by omega)
  refine ⟨by rw [receiveToFile_true, hinit], hloop.1, hloop.2, ?_,
    receiveLoop_reads cl _ input sock (Nat.min_le_right _ _)⟩
  rw [receiveToFile_true, List.length_append, List.length_take]
  omega

/-- When every read returns bytes while the stream has some, the file
receives the whole body: `content_length` bytes once the stream holds the rest
of them. -/
theorem receiveToFile_of_pos (cl : Nat) (init input : List Char) (sock : Nat → Nat)
    (hs : ∀ i, 0 < sock i) :
    receiveToFile true cl init input sock =
      init.take (min init.length cl) ++ input.take (cl - min init.length cl) := by
  rw [receiveToFile_true, receiveLoop_of_pos _ _ _ _ hs]

theorem receiveToFile_one_byte_reads :
    (∀ i, 0 < (fun _ => 1 : Nat → Nat) i) ∧
      receiveToFile true 5 ['a', 'b'] ['c', 'd', 'e', 'f'] (fun _ => 1) =
        ['a', 'b'].take (min 2 5) ++ ['c', 'd', 'e', 'f'].take (5 - min 2 5) :=
  have hs : ∀ i, 0 < (fun _ => 1 : Nat → Nat) i := fun _ => Nat.one_pos
  ⟨hs, receiveToFile_of_pos 5 ['a', 'b'] ['c', 'd', 'e', 'f'] _ hs⟩

-- ---------------------------------------------------------------------------
-- HttpRequest::get_header
-- ---------------------------------------------------------------------------

/-- The inner loop of `get_header`, over two names of one size: `false` at
the first position where `std::tolower` of the two characters differs. -/
def namesMatch : List Char → List Char → Bool
  | c :: cs, d :: ds => if c.toLower ≠ d.toLower then false else namesMatch cs ds
  | _, _ => true

/-- `HttpRequest::get_header(name)`: the value of the first header whose name
has the size of `name` and matches it character by character up to
`std::tolower`, or `""`. -/
def getHeader : List (List Char × List Char) → List Char → List Char
  | [], _ => []
  | (n, v) :: hs, name => if n.length = name.length ∧ namesMatch n name then v else getHeader hs name

/-- The size check and the loop together compare the lowered names. -/
theorem namesMatch_iff {a b : List Char} :
    (a.length = b.length ∧ namesMatch a b = true) ↔ a.map Char.toLower = b.map Char.toLower := by
  induction a generalizing b with
  | nil => cases b <;> simp [namesMatch]
  | cons c cs ih =>
    cases b with
    | nil => simp
    | cons d ds =>
      by_cases hcd : c.toLower = d.toLower <;> simp [namesMatch, hcd, ← ih]

/-- **`get_header` finds the first header of that name, ignoring case.** -/
theorem getHeader_eq_find (hs : List (List Char × List Char)) (name : List Char) :
    getHeader hs name =
      ((hs.find? fun h => h.1.map Char.toLower == name.map Char.toLower).map Prod.snd).getD [] := by
  induction hs with
  | nil => rfl
  | cons h hs ih =>
    obtain ⟨n, v⟩ := h
    by_cases hn : n.map Char.toLower = name.map Char.toLower
    · simp [getHeader, namesMatch_iff.2 hn, hn]
    · simp [getHeader, List.find?_cons, hn, ih, namesMatch_iff.not.2 hn]

/-- Two names that differ only in case get the same header value. -/
theorem getHeader_congr (hs : List (List Char × List Char)) {name name' : List Char}
    (h : name.map Char.toLower = name'.map Char.toLower) : getHeader hs name = getHeader hs name' := by
  induction hs with
  | nil => rfl
  | cons hd hs ih =>
    obtain ⟨n, v⟩ := hd
    have hm : (n.length = name.length ∧ namesMatch n name = true) ↔
        (n.length = name'.length ∧ namesMatch n name' = true) := by
      rw [namesMatch_iff, namesMatch_iff, h]
    simp only [getHeader, hm, ih]

example : getHeader [("Host".toList, "a".toList), ("Content-Length".toList, "5".toList)]
    "content-length".toList = "5".toList := by decide

end HttpServer

end TinyCoro
