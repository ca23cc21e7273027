import Grove.Lib.Decimal

/-! # The replies of the cache

`apps/grove/server-manager/internal/joins/resp.go`: what `conn.read` makes of the bytes a server sends.
A line ends in a line feed that the reader's buffer must have room for; a bulk is as long as its header
says; an array is as many replies as its header says, each read by the same function.

A `Reading` carries, beside what `read` answers and the bytes it leaves, the headers that sized an
allocation and how deep the reads nested.  The stream is what the server sends before it is cut off.

A header of a bulk is held to a limit and one of an array is not, and the members of an array may be
arrays: `contained_iff` says on which streams that shows, and `readsBack_iff` which replies are read for
what they are. -/

namespace Grove
namespace Joins
namespace Resp

open Decimal (digitsOf digitsValue digitByte decimal)

abbrev Bytes := List UInt8

def carriageReturn : UInt8 := 0x0d

def lineFeed : UInt8 := 0x0a

def crlf : Bytes := [carriageReturn, lineFeed]

def respSimple : UInt8 := 0x2b

def respError : UInt8 := 0x2d

def respInteger : UInt8 := 0x3a

def respBulk : UInt8 := 0x24

def respArray : UInt8 := 0x2a

def maxReplyBytes : ℕ := 2 ^ 20

/-- What `bufio.NewReader` gives its buffer. -/
def bufferSize : ℕ := 4096

/-! ### The language's numbers -/

def plusSign : UInt8 := 0x2b

def minusSign : UInt8 := 0x2d

def digit (b : UInt8) : Option ℕ := if 0x30 ≤ b ∧ b ≤ 0x39 then some (b.toNat - 0x30) else none

/-- The number that only digits, and at least one, spell. -/
def unsigned : Bytes → Option ℕ
  | [] => none
  | body => (body.mapM digit).map digitsValue

def inInt64 (n : ℤ) : Bool := -2 ^ 63 ≤ n && n < 2 ^ 63

/-- `strconv.ParseInt` to base ten, and `strconv.Atoi`. -/
def atoi (text : Bytes) : Option ℤ :=
  let signed : Option ℤ :=
    match text with
    | [] => none
    | b :: body =>
      if b = minusSign then (unsigned body).map fun m : ℕ => -(m : ℤ)
      else if b = plusSign then (unsigned body).map fun m : ℕ => (m : ℤ)
      else (unsigned text).map fun m : ℕ => (m : ℤ)
  signed.filter inInt64

/-! ### Replies -/

/-- One reply, in the shapes the commands answer in; `none` is a nil slice. -/
structure Value where
  integer : ℤ
  bulk : Option Bytes
  array : Option (List (Option Bytes))
  null : Bool
deriving DecidableEq

def Value.zero : Value := ⟨0, none, none, false⟩

inductive ReadError where
  /-- The stream was cut off. -/
  | cut
  /-- `bufio.ErrBufferFull`. -/
  | bufferFull
  | notFramed
  | emptyReply
  /-- The server's own words. -/
  | server (words : Bytes)
  | integerReply (body : Bytes)
  | bulkLength (header : Bytes)
  | bulkReply (n : ℤ)
  | arrayLength (header : Bytes)
  | replyType (kind : UInt8)
deriving DecidableEq

inductive Outcome where
  | value (v : Value)
  | error (e : ReadError)
  /-- `makeslice: cap out of range`. -/
  | panics
deriving DecidableEq

structure Reading where
  outcome : Outcome
  rest : Bytes
  /-- The length headers that sized an allocation. -/
  sized : List ℤ
  /-- How many reads deep the deepest one was called from this one. -/
  depth : ℕ

namespace Reading

def answers (v : Value) (rest : Bytes) : Reading := ⟨.value v, rest, [], 0⟩

def fails (e : ReadError) (rest : Bytes) : Reading := ⟨.error e, rest, [], 0⟩

end Reading

/-! ### Lines -/

/-- `ReadSlice` up to a line feed, which is taken off, with so much room left in the buffer. -/
def readSlice : ℕ → Bytes → Except ReadError Bytes × Bytes
  | 0, stream => (.error .bufferFull, stream)
  | _ + 1, [] => (.error .cut, [])
  | room + 1, b :: stream =>
    if b = lineFeed then (.ok [], stream)
    else
      let (text, rest) := readSlice room stream
      (text.map (b :: ·), rest)

theorem readSlice_cons (room : ℕ) (b : UInt8) (stream : Bytes) : readSlice (room + 1) (b :: stream) =
    if b = lineFeed then (.ok [], stream)
    else ((readSlice room stream).1.map (b :: ·), (readSlice room stream).2) := rfl

/-- Reads one CRLF-terminated frame, without its terminator. -/
def line (stream : Bytes) : Except ReadError Bytes × Bytes :=
  match readSlice bufferSize stream with
  | (.error e, rest) => (.error e, rest)
  | (.ok raw, rest) => if raw.getLast? = some carriageReturn then (.ok raw.dropLast, rest) else (.error .notFramed, rest)

/-! ### Reading -/

def bulk (header : Bytes) (stream : Bytes) : Reading :=
  match atoi header with
  | none => .fails (.bulkLength header) stream
  | some n =>
    if n < 0 then .answers { Value.zero with null := true } stream
    else if maxReplyBytes < n then .fails (.bulkReply n) stream
    else if stream.length < n.toNat + 2 then { Reading.fails .cut [] with sized := [n] }
    else
      { Reading.answers { Value.zero with bulk := some (stream.take n.toNat) } (stream.drop (n.toNat + 2)) with
        sized := [n] }

/-- A slice of slices takes 24 bytes an element, and no allocation on a 64-bit machine more than this. -/
def maxAlloc : ℤ := 2 ^ 48

/-- The loop over the members. -/
def members (read : Bytes → Reading) : ℕ → List (Option Bytes) → Bytes → Reading
  | 0, out, stream => .answers { Value.zero with array := some out } stream
  | n + 1, out, stream =>
    let member := read stream
    match member.outcome with
    | .value v =>
      let last := members read n (out ++ [v.bulk]) member.rest
      { last with
        sized := member.sized ++ last.sized
        depth := max (member.depth + 1) last.depth }
    | _ => { member with depth := member.depth + 1 }

def arrayOfBulks (read : Bytes → Reading) (header : Bytes) (stream : Bytes) : Reading :=
  match atoi header with
  | none => .fails (.arrayLength header) stream
  | some n =>
    if n < 0 then .answers { Value.zero with null := true } stream
    else if maxAlloc < 24 * n then ⟨.panics, stream, [n], 0⟩
    else
      let all := members read n.toNat [] stream
      { all with sized := n :: all.sized }

/-- The body of `read`, over the function that reads a member. -/
def readWith (read : Bytes → Reading) (stream : Bytes) : Reading :=
  match line stream with
  | (.error e, rest) => .fails e rest
  | (.ok [], rest) => .fails .emptyReply rest
  | (.ok (kind :: body), rest) =>
    if kind = respSimple then .answers { Value.zero with bulk := some body } rest
    else if kind = respError then .fails (.server body) rest
    else if kind = respInteger then
      match atoi body with
      | none => .fails (.integerReply body) rest
      | some n => .answers { Value.zero with integer := n } rest
    else if kind = respBulk then bulk body rest
    else if kind = respArray then arrayOfBulks read body rest
    else .fails (.replyType kind) rest

/-- So many reads deep; the last finds no stream to read. -/
def readDeep : ℕ → Bytes → Reading
  | 0 => fun stream => .fails .cut stream
  | deep + 1 => readWith (readDeep deep)

/-- A read takes a line at least, so none goes deeper than there are bytes (`read_eq`). -/
def read (stream : Bytes) : Reading := readDeep (stream.length + 1) stream

/-! ### What a server may write -/

/-- A line's text has no line break in it. -/
structure LineText where
  bytes : Bytes
  unbroken : carriageReturn ∉ bytes ∧ lineFeed ∉ bytes

structure Int64 where
  value : ℤ
  fits : inInt64 value = true

inductive Reply where
  | simple (text : LineText)
  | error (text : LineText)
  | integer (n : Int64)
  | bulk (bytes : Bytes)
  | nullBulk
  | nullArray
  | array (bulks : List (Option Bytes))

def bulkWire : Option Bytes → Bytes
  | none => respBulk :: decimal (-1) ++ crlf
  | some bytes => respBulk :: decimal bytes.length ++ crlf ++ bytes ++ crlf

namespace Reply

def wire : Reply → Bytes
  | .simple text => respSimple :: text.bytes ++ crlf
  | .error text => respError :: text.bytes ++ crlf
  | .integer n => respInteger :: decimal n.value ++ crlf
  | .bulk bytes => bulkWire (some bytes)
  | .nullBulk => bulkWire none
  | .nullArray => respArray :: decimal (-1) ++ crlf
  | .array bulks => respArray :: decimal bulks.length ++ crlf ++ bulks.flatMap bulkWire

/-- What reading the reply is to answer: the reply, or the server's words as an error. -/
def outcome : Reply → Outcome
  | .simple text => .value { Value.zero with bulk := some text.bytes }
  | .error text => .error (.server text.bytes)
  | .integer n => .value { Value.zero with integer := n.value }
  | .bulk bytes => .value { Value.zero with bulk := some bytes }
  | .nullBulk => .value { Value.zero with null := true }
  | .nullArray => .value { Value.zero with null := true }
  | .array bulks => .value { Value.zero with array := some bulks }

end Reply

/-- The reads of a connection answer the replies on it in order, each from its own bytes alone. -/
def ReadsBack (tail : Bytes) : List Reply → Prop
  | [] => True
  | reply :: replies =>
    (read (reply.wire ++ (replies.flatMap Reply.wire ++ tail))).outcome = reply.outcome ∧
    (read (reply.wire ++ (replies.flatMap Reply.wire ++ tail))).rest = replies.flatMap Reply.wire ++ tail ∧
    ReadsBack tail replies

/-- Nothing that the stream announces makes a read panic, allocate by a length above the limit or read
deeper than the members of an array. -/
structure Reading.Contained (r : Reading) : Prop where
  survives : r.outcome ≠ .panics
  sized : ∀ n ∈ r.sized, n ≤ maxReplyBytes
  depth : r.depth ≤ 1

/-! ### What the streams and replies are that it can take -/

/-- The stream starts with the header of an array of so many members. -/
def Announces (stream : Bytes) (n : ℤ) (rest : Bytes) : Prop :=
  ∃ header, line stream = (.ok (respArray :: header), rest) ∧ atoi header = some n

/-- The stream starts with a reply that is not an array with members. -/
inductive Skips (rest : Bytes) : Bytes → Prop where
  | simple {stream body} (hline : line stream = (.ok (respSimple :: body), rest)) : Skips rest stream
  | integer {stream body n} (hline : line stream = (.ok (respInteger :: body), rest)) (hn : atoi body = some n) :
      Skips rest stream
  | null {stream header n} (hline : line stream = (.ok (respBulk :: header), rest)) (hn : atoi header = some n)
      (hneg : n < 0) : Skips rest stream
  | bulk {stream header n data} (hline : line stream = (.ok (respBulk :: header), data ++ rest))
      (hn : atoi header = some n) (hpos : 0 ≤ n) (hmax : n ≤ maxReplyBytes) (hdata : data.length = n.toNat + 2) :
      Skips rest stream
  | array {stream n} (hannounces : Announces stream n rest) (hnone : n ≤ 0) : Skips rest stream

/-- An array with members is among the replies that the stream starts with, this many at most. -/
inductive Nests : ℕ → Bytes → Prop where
  | here {n stream m rest} (hannounces : Announces stream m rest) (hpos : 0 < m) : Nests (n + 1) stream
  | later {n stream rest} (hskips : Skips rest stream) (hrest : Nests n rest) : Nests (n + 1) stream

/-- The stream starts with an array of more members than the limit, or with members within a member. -/
def Overreaches (stream : Bytes) : Prop :=
  ∃ n rest, Announces stream n rest ∧ (maxReplyBytes < n ∨ Nests n.toNat rest)

namespace Reply

def BulkFits (bytes : Option Bytes) : Prop := ∀ b ∈ bytes, b.length ≤ maxReplyBytes

/-- The line has room in the buffer, terminator and all; a bulk is within the limit; and so is what a slice
may take of the members of an array. -/
def Fits : Reply → Prop
  | .simple text => text.bytes.length + 3 ≤ bufferSize
  | .error text => text.bytes.length + 3 ≤ bufferSize
  | .integer _ => True
  | .bulk bytes => bytes.length ≤ maxReplyBytes
  | .nullBulk => True
  | .nullArray => True
  | .array bulks => 24 * (bulks.length : ℤ) ≤ maxAlloc ∧ ∀ bytes ∈ bulks, BulkFits bytes

end Reply

/-! ### Lines read back -/

theorem readSlice_append {text : Bytes} (rest : Bytes) (hunbroken : lineFeed ∉ text) : ∀ room,
    readSlice room (text ++ lineFeed :: rest) =
      if text.length < room then (.ok text, rest) else (.error .bufferFull, (text ++ lineFeed :: rest).drop room) := by
  induction text with
  | nil =>
    intro room
    cases room with
    | zero => rfl
    | succ room => rfl
  | cons b text ih =>
    intro room
    obtain ⟨hb, htext⟩ := not_or.mp (mt List.mem_cons.mpr hunbroken)
    cases room with
    | zero => rfl
    | succ room =>
      have hne : ¬ b = lineFeed := fun heq => hb heq.symm
      rw [List.cons_append, readSlice_cons, if_neg hne, ih htext room, List.length_cons, List.drop_succ_cons]
      by_cases hroom : text.length < room
      · rw [if_pos hroom, if_pos (Nat.succ_lt_succ hroom)]
        rfl
      · rw [if_neg hroom, if_neg (mt Nat.lt_of_succ_lt_succ hroom)]
        rfl

/-- A line that ends as it should is read if the buffer has room for it. -/
theorem line_append {text : Bytes} (rest : Bytes) (hunbroken : lineFeed ∉ text) :
    line (text ++ (crlf ++ rest)) =
      if text.length + 2 ≤ bufferSize then (.ok text, rest)
      else (.error .bufferFull, (text ++ (crlf ++ rest)).drop bufferSize) := by
  have hraw : lineFeed ∉ text ++ [carriageReturn] := by
    rw [List.mem_append, List.mem_singleton]
    exact not_or.mpr ⟨hunbroken, by decide⟩
  have hstream : text ++ (crlf ++ rest) = (text ++ [carriageReturn]) ++ lineFeed :: rest := by
    rw [crlf, List.append_assoc]
    rfl
  unfold line
  rw [hstream, readSlice_append rest hraw, List.length_append, List.length_singleton]
  by_cases hfits : text.length + 2 ≤ bufferSize
  · rw [if_pos (Nat.lt_of_succ_le hfits), if_pos hfits]
    dsimp only
    rw [List.getLast?_concat, if_pos rfl, List.dropLast_concat]
  · rw [if_neg (mt Nat.succ_le_of_lt hfits), if_neg hfits]

theorem length_readSlice : ∀ room stream, (readSlice room stream).2.length ≤ stream.length
  | 0, _ => le_rfl
  | _ + 1, [] => le_rfl
  | room + 1, b :: stream => by
    rw [readSlice_cons]
    split_ifs
    · exact Nat.le_succ _
    · exact (length_readSlice room stream).trans (Nat.le_succ _)

theorem length_readSlice_of_ok {room : ℕ} {stream text rest : Bytes} (h : readSlice room stream = (.ok text, rest)) :
    rest.length < stream.length := by
  induction room generalizing stream text with
  | zero => cases h
  | succ room ih =>
    cases stream with
    | nil => cases h
    | cons b stream =>
      rw [readSlice_cons] at h
      split_ifs at h with hb
      · cases h
        exact Nat.lt_succ_self _
      · cases hslice : readSlice room stream with
        | mk read rest' =>
          rw [hslice] at h
          cases read with
          | error e => cases h
          | ok text' =>
            cases h
            exact (ih hslice).trans (Nat.lt_succ_self _)

theorem length_line (stream : Bytes) : (line stream).2.length ≤ stream.length := by
  have hslice := length_readSlice bufferSize stream
  unfold line
  cases hread : readSlice bufferSize stream with
  | mk read rest =>
    rw [hread] at hslice
    cases read with
    | error e => exact hslice
    | ok raw =>
      dsimp only
      split_ifs
      · exact hslice
      · exact hslice

/-- A line takes its terminator at least. -/
theorem length_line_of_ok {stream text rest : Bytes} (h : line stream = (.ok text, rest)) : rest.length < stream.length := by
  unfold line at h
  cases hread : readSlice bufferSize stream with
  | mk read rest' =>
    rw [hread] at h
    cases read with
    | error e => cases h
    | ok raw =>
      dsimp only at h
      split_ifs at h
      · cases h
        exact length_readSlice_of_ok hread
      · cases h

/-! ### No read goes deeper than there are bytes -/

/-- A read of members that leaves no more than it was given. -/
def Shortens (f : Bytes → Reading) : Prop := ∀ stream, (f stream).rest.length ≤ stream.length

theorem shortens_members {f : Bytes → Reading} (hf : Shortens f) : ∀ n out stream,
    (members f n out stream).rest.length ≤ stream.length := by
  intro n
  induction n with
  | zero => exact fun out stream => le_rfl
  | succ n ih =>
    intro out stream
    rw [members]
    dsimp only
    cases (f stream).outcome with
    | value v => exact (ih _ _).trans (hf stream)
    | error | panics => exact hf stream

theorem length_bulk (header stream : Bytes) : (bulk header stream).rest.length ≤ stream.length := by
  unfold bulk
  cases atoi header with
  | none => exact le_rfl
  | some n =>
    dsimp only
    split_ifs
    · exact le_rfl
    · exact le_rfl
    · exact Nat.zero_le _
    · exact (List.drop_sublist _ _).length_le

theorem length_arrayOfBulks {f : Bytes → Reading} (hf : Shortens f) (header stream : Bytes) :
    (arrayOfBulks f header stream).rest.length ≤ stream.length := by
  unfold arrayOfBulks
  cases atoi header with
  | none => exact le_rfl
  | some n =>
    dsimp only
    split_ifs
    · exact le_rfl
    · exact le_rfl
    · exact shortens_members hf _ _ _

theorem shortens_readWith {f : Bytes → Reading} (hf : Shortens f) : Shortens (readWith f) := by
  intro stream
  have hline := length_line stream
  unfold readWith
  cases hread : line stream with
  | mk read rest =>
    rw [hread] at hline
    cases read with
    | error e => exact hline
    | ok text =>
      cases text with
      | nil => exact hline
      | cons kind body =>
        dsimp only
        split_ifs
        · exact hline
        · exact hline
        · cases atoi body with
          | none | some => exact hline
        · exact (length_bulk body rest).trans hline
        · exact (length_arrayOfBulks hf body rest).trans hline
        · exact hline

theorem shortens_readDeep (deep : ℕ) : Shortens (readDeep deep) := by
  induction deep with
  | zero => exact fun stream => le_rfl
  | succ deep ih => exact shortens_readWith ih

/-- The loop over the members reads no stream longer than the one it starts on. -/
theorem members_congr {f g : Bytes → Reading} {limit : ℕ} (hf : Shortens f)
    (heq : ∀ stream : Bytes, stream.length < limit → f stream = g stream) : ∀ n out stream,
    stream.length < limit → members f n out stream = members g n out stream := by
  intro n
  induction n with
  | zero => exact fun out stream _ => rfl
  | succ n ih =>
    intro out stream hstream
    rw [members, members, ← heq stream hstream]
    dsimp only
    cases (f stream).outcome with
    | value v =>
      dsimp only
      rw [ih _ _ ((hf stream).trans_lt hstream)]
    | error e => rfl
    | panics => rfl

theorem readWith_congr {f g : Bytes → Reading} {stream : Bytes} (hf : Shortens f)
    (heq : ∀ stream' : Bytes, stream'.length < stream.length → f stream' = g stream') :
    readWith f stream = readWith g stream := by
  unfold readWith
  cases hread : line stream with
  | mk read rest =>
    cases read with
    | error e => rfl
    | ok text =>
      have hrest := length_line_of_ok hread
      cases text with
      | nil => rfl
      | cons kind body =>
        have harray : arrayOfBulks f body rest = arrayOfBulks g body rest := by
          unfold arrayOfBulks
          cases atoi body with
          | none => rfl
          | some n =>
            dsimp only
            rw [members_congr hf heq n.toNat [] rest hrest]
        dsimp only
        rw [harray]

theorem readDeep_eq : ∀ (deep : ℕ) (stream : Bytes), stream.length < deep → readDeep deep stream = read stream := by
  have hstep : ∀ deep deep' (stream : Bytes), stream.length < deep → stream.length < deep' →
      readDeep deep stream = readDeep deep' stream := by
    intro deep
    induction deep with
    | zero => exact fun deep' stream h => absurd h (Nat.not_lt_zero _)
    | succ deep ih =>
      intro deep' stream h h'
      cases deep' with
      | zero => exact absurd h' (Nat.not_lt_zero _)
      | succ deep' =>
        refine readWith_congr (shortens_readDeep deep) fun stream' hlt => ih deep' stream' ?_ ?_
        · exact hlt.trans_le (Nat.le_of_lt_succ h)
        · exact hlt.trans_le (Nat.le_of_lt_succ h')
  exact fun deep stream h => hstep deep _ stream h (Nat.lt_succ_self _)

/-- The read of a member is the read itself. -/
theorem read_eq (stream : Bytes) : read stream = readWith read stream :=
  readWith_congr (shortens_readDeep _) fun stream' hlt => readDeep_eq _ stream' hlt

/-! ### What a stream can make a read do -/

/-- A header sizes nothing above the limit, and nothing is read within. -/
def Mild (r : Reading) : Prop := (∀ n ∈ r.sized, n ≤ maxReplyBytes) ∧ r.depth = 0

theorem mild_answers (v : Value) (rest : Bytes) : Mild (.answers v rest) := ⟨fun _ h => absurd h List.not_mem_nil, rfl⟩

theorem mild_fails (e : ReadError) (rest : Bytes) : Mild (.fails e rest) := ⟨fun _ h => absurd h List.not_mem_nil, rfl⟩

/-- A bulk is read whole or refused, and its header sizes a buffer within the limit. -/
theorem bulk_cases {stream header rest : Bytes} (hline : line stream = (.ok (respBulk :: header), rest)) :
    (∃ v rest', (bulk header rest).outcome = .value v ∧ (bulk header rest).rest = rest' ∧ Skips rest' stream ∧
      Mild (bulk header rest)) ∨
    ∃ e, (bulk header rest).outcome = .error e ∧ Mild (bulk header rest) := by
  unfold bulk
  cases hn : atoi header with
  | none => exact Or.inr ⟨_, rfl, mild_fails _ _⟩
  | some n =>
    dsimp only
    split_ifs with hneg hmax hcut
    · exact Or.inl ⟨_, rest, rfl, rfl, .null hline hn hneg, mild_answers _ _⟩
    · exact Or.inr ⟨_, rfl, mild_fails _ _⟩
    · exact Or.inr ⟨_, rfl, fun m hm => (List.mem_singleton.mp hm).trans_le (not_lt.mp hmax), rfl⟩
    · refine Or.inl ⟨_, rest.drop (n.toNat + 2), rfl, rfl, ?_, fun m hm => (List.mem_singleton.mp hm).trans_le (not_lt.mp hmax), rfl⟩
      have hdata : (rest.take (n.toNat + 2)).length = n.toNat + 2 := by
        rw [List.length_take, min_eq_left (not_lt.mp hcut)]
      rw [← List.take_append_drop (n.toNat + 2) rest] at hline
      exact .bulk hline hn (not_lt.mp hneg) (not_lt.mp hmax) hdata

/-- An array of no members is answered from its header. -/
theorem arrayOfBulks_none (f : Bytes → Reading) {header rest : Bytes} {n : ℤ} (hn : atoi header = some n) (hnone : n ≤ 0) :
    ∃ v, (arrayOfBulks f header rest).outcome = .value v ∧ (arrayOfBulks f header rest).rest = rest ∧
      Mild (arrayOfBulks f header rest) := by
  unfold arrayOfBulks
  rw [hn]
  dsimp only
  split_ifs with hneg hlarge
  · exact ⟨_, rfl, rfl, mild_answers _ _⟩
  · exact absurd hlarge (by unfold maxAlloc; omega)
  · obtain rfl : n = 0 := le_antisymm hnone (not_lt.mp hneg)
    exact ⟨_, rfl, rfl, fun m hm => (List.mem_singleton.mp hm).trans_le (Nat.cast_nonneg _), rfl⟩

/-- A read answers a reply that is no array with members, fails, or meets such an array. -/
theorem read_cases (stream : Bytes) :
    (∃ v rest, (read stream).outcome = .value v ∧ (read stream).rest = rest ∧ Skips rest stream ∧ Mild (read stream)) ∨
    (∃ e, (read stream).outcome = .error e ∧ Mild (read stream)) ∨
    ∃ n rest, Announces stream n rest ∧ 0 < n := by
  rw [read_eq]
  unfold readWith
  cases hline : line stream with
  | mk text rest =>
    cases text with
    | error e => exact Or.inr (Or.inl ⟨_, rfl, mild_fails _ _⟩)
    | ok text =>
      cases text with
      | nil => exact Or.inr (Or.inl ⟨_, rfl, mild_fails _ _⟩)
      | cons kind body =>
        dsimp only
        split_ifs with hsimple herror hinteger hbulk harray
        · exact Or.inl ⟨_, rest, rfl, rfl, .simple (hsimple ▸ hline), mild_answers _ _⟩
        · exact Or.inr (Or.inl ⟨_, rfl, mild_fails _ _⟩)
        · cases hn : atoi body with
          | none => exact Or.inr (Or.inl ⟨_, rfl, mild_fails _ _⟩)
          | some n => exact Or.inl ⟨_, rest, rfl, rfl, .integer (hinteger ▸ hline) hn, mild_answers _ _⟩
        · rcases bulk_cases (hbulk ▸ hline) with h | h
          · exact Or.inl h
          · exact Or.inr (Or.inl h)
        · cases hn : atoi body with
          | none =>
            unfold arrayOfBulks
            rw [hn]
            exact Or.inr (Or.inl ⟨_, rfl, mild_fails _ _⟩)
          | some n =>
            have hannounces : Announces stream n rest := ⟨body, harray ▸ hline, hn⟩
            rcases le_or_gt n 0 with hnone | hpos
            · obtain ⟨v, hv, hrest, hmild⟩ := arrayOfBulks_none read hn hnone
              exact Or.inl ⟨v, rest, hv, hrest, .array hannounces hnone, hmild⟩
            · exact Or.inr (Or.inr ⟨n, rest, hannounces, hpos⟩)
        · exact Or.inr (Or.inl ⟨_, rfl, mild_fails _ _⟩)

/-- A reply that is no array with members is answered, and no more of the stream is taken. -/
theorem read_of_skips {stream rest : Bytes} (h : Skips rest stream) :
    ∃ v, (read stream).outcome = .value v ∧ (read stream).rest = rest := by
  rw [read_eq]
  unfold readWith
  cases h with
  | simple hline =>
    rw [hline]
    exact ⟨_, rfl, rfl⟩
  | integer hline hn =>
    rw [hline]
    dsimp only
    rw [if_neg (by decide), if_neg (by decide), if_pos rfl, hn]
    exact ⟨_, rfl, rfl⟩
  | null hline hn hneg =>
    rw [hline]
    dsimp only
    rw [if_neg (by decide), if_neg (by decide), if_neg (by decide), if_pos rfl]
    unfold bulk
    rw [hn]
    dsimp only
    rw [if_pos hneg]
    exact ⟨_, rfl, rfl⟩
  | @bulk header n data hline hn hpos hmax hdata =>
    rw [hline]
    dsimp only
    rw [if_neg (by decide), if_neg (by decide), if_neg (by decide), if_pos rfl]
    unfold bulk
    rw [hn]
    dsimp only
    have hlong : ¬ (data ++ rest).length < n.toNat + 2 := by
      rw [List.length_append, hdata]
      omega
    rw [if_neg (not_lt.mpr hpos), if_neg (not_lt.mpr hmax), if_neg hlong, ← hdata, List.drop_left]
    exact ⟨_, rfl, rfl⟩
  | array hannounces hnone =>
    obtain ⟨header, hline, hn⟩ := hannounces
    rw [hline]
    dsimp only
    rw [if_neg (by decide), if_neg (by decide), if_neg (by decide), if_neg (by decide), if_pos rfl]
    obtain ⟨v, hv, hrest, -⟩ := arrayOfBulks_none read hn hnone
    exact ⟨v, hv, hrest⟩

/-- An array with members is read member by member, if a slice of them can be had. -/
theorem read_of_announces {stream rest : Bytes} {n : ℤ} (h : Announces stream n rest) (hpos : 0 ≤ n) :
    read stream =
      if maxAlloc < 24 * n then ⟨.panics, rest, [n], 0⟩
      else { members read n.toNat [] rest with sized := n :: (members read n.toNat [] rest).sized } := by
  obtain ⟨header, hline, hn⟩ := h
  rw [read_eq]
  unfold readWith
  rw [hline]
  dsimp only
  rw [if_neg (by decide), if_neg (by decide), if_neg (by decide), if_neg (by decide), if_pos rfl]
  unfold arrayOfBulks
  rw [hn]
  dsimp only
  rw [if_neg (not_lt.mpr hpos)]

/-- Reading a member is one read deep. -/
theorem one_le_depth_members (n : ℕ) (out : List (Option Bytes)) (stream : Bytes) :
    1 ≤ (members read (n + 1) out stream).depth := by
  rw [members]
  dsimp only
  cases (read stream).outcome with
  | value v => exact (Nat.le_add_left 1 _).trans (le_max_left _ _)
  | error | panics => exact Nat.le_add_left 1 _

theorem members_contained {n : ℕ} {stream : Bytes} (out : List (Option Bytes)) (h : ¬ Nests n stream) :
    (members read n out stream).Contained := by
  induction n generalizing out stream with
  | zero => exact ⟨nofun, fun m hm => absurd hm List.not_mem_nil, Nat.zero_le _⟩
  | succ n ih =>
    rcases read_cases stream with ⟨v, rest, hv, hrest, hskips, hsized, hdepth⟩ | ⟨e, he, hsized, hdepth⟩ | ⟨m, rest, hannounces, hpos⟩
    · have hlater := ih (out ++ [v.bulk]) fun hnests => h (.later hskips hnests)
      rw [members]
      dsimp only
      rw [hv, hrest]
      refine ⟨hlater.survives, fun m hm => ?_, max_le (by rw [hdepth]) hlater.depth⟩
      rcases List.mem_append.mp hm with hm | hm
      · exact hsized m hm
      · exact hlater.sized m hm
    · rw [members]
      dsimp only
      rw [he]
      refine ⟨?_, hsized, ?_⟩
      · dsimp only
        exact nofun
      · dsimp only
        rw [hdepth]
    · exact absurd (.here hannounces hpos) h

/-- Members within a member make a panic or a read two deep. -/
theorem members_overreach {n : ℕ} {stream : Bytes} (h : Nests n stream) : ∀ out,
    (members read n out stream).outcome = .panics ∨ 1 < (members read n out stream).depth := by
  induction h with
  | @here n stream m rest hannounces hpos =>
    intro out
    have hread := read_of_announces hannounces hpos.le
    split_ifs at hread with hlarge
    · left
      rw [members]
      dsimp only
      rw [hread]
    · right
      have hdepth : 1 ≤ (read stream).depth := by
        rw [hread, ← Nat.succ_pred_eq_of_pos (Int.lt_toNat.mpr hpos)]
        exact one_le_depth_members _ _ _
      rw [members]
      dsimp only
      cases (read stream).outcome with
      | value v => exact (Nat.lt_succ_of_le hdepth).trans_le (le_max_left _ _)
      | error | panics => exact Nat.lt_succ_of_le hdepth
  | later hskips hrest ih =>
    intro out
    obtain ⟨v, hv, hread⟩ := read_of_skips hskips
    rw [members]
    dsimp only
    rw [hv, hread]
    rcases ih (out ++ [v.bulk]) with hpanics | hdeep
    · exact Or.inl hpanics
    · exact Or.inr (hdeep.trans_le (le_max_right _ _))

theorem not_contained {stream : Bytes} (h : Overreaches stream) : ¬ (read stream).Contained := by
  obtain ⟨n, rest, hannounces, hover⟩ := h
  have hpos : 0 < n := by
    rcases hover with hlarge | hnests
    · exact (Nat.cast_nonneg _).trans_lt hlarge
    · by_contra hnone
      rw [Int.toNat_of_nonpos (not_lt.mp hnone)] at hnests
      cases hnests
  have hread := read_of_announces hannounces hpos.le
  intro hcontained
  split_ifs at hread with hpanics
  · exact hcontained.survives (by rw [hread])
  · rcases hover with hlarge | hnests
    · refine absurd (hcontained.sized n ?_) (not_le.mpr hlarge)
      rw [hread]
      exact List.mem_cons_self
    · have hsurvives := hcontained.survives
      have hdepth := hcontained.depth
      rw [hread] at hsurvives hdepth
      rcases members_overreach hnests [] with hbad | hdeep
      · exact hsurvives hbad
      · exact absurd hdepth (not_le.mpr hdeep)

/-- **A read is contained exactly on the streams that do not overreach.** -/
theorem contained_iff (stream : Bytes) : (read stream).Contained ↔ ¬ Overreaches stream := by
  refine ⟨fun hcontained hover => not_contained hover hcontained, fun h => ?_⟩
  rcases read_cases stream with ⟨v, rest, hv, -, -, hsized, hdepth⟩ | ⟨e, he, hsized, hdepth⟩ | ⟨n, rest, hannounces, hpos⟩
  · exact ⟨by rw [hv]; exact nofun, hsized, by rw [hdepth]; exact Nat.zero_le _⟩
  · exact ⟨by rw [he]; exact nofun, hsized, by rw [hdepth]; exact Nat.zero_le _⟩
  · have hlimit : n ≤ maxReplyBytes := not_lt.mp fun hlarge => h ⟨n, rest, hannounces, Or.inl hlarge⟩
    have hmembers := members_contained [] fun hnests => h ⟨n, rest, hannounces, Or.inr hnests⟩
    have hroom : ¬ maxAlloc < 24 * n := by
      have hmax : (maxReplyBytes : ℤ) = 2 ^ 20 := by norm_num [maxReplyBytes]
      unfold maxAlloc
      omega
    rw [read_of_announces hannounces hpos.le, if_neg hroom]
    refine ⟨hmembers.survives, fun m hm => ?_, hmembers.depth⟩
    obtain rfl | hm := List.mem_cons.mp hm
    · exact hlimit
    · exact hmembers.sized m hm

/-! ### Replies read back -/

theorem digit_digitByte {d : ℕ} (hd : d < 10) : digit (digitByte d) = some d := by
  interval_cases d <;> rfl

/-- A digit is spelled by a byte that is no sign and no line break. -/
theorem digitByte_plain {d : ℕ} (hd : d < 10) :
    digitByte d ≠ minusSign ∧ digitByte d ≠ plusSign ∧ digitByte d ≠ lineFeed := by
  interval_cases d <;> decide

theorem digitsOf_ne_nil (n : ℕ) : digitsOf n ≠ [] := by
  rw [digitsOf]
  split_ifs with hn
  · exact List.cons_ne_nil _ _
  · exact fun hnil => hn (Nat.digits_eq_nil_iff_eq_zero.mp (List.reverse_eq_nil_iff.mp hnil))

theorem unsigned_digits (n : ℕ) : unsigned ((digitsOf n).map digitByte) = some n := by
  have hall : ∀ ds : List ℕ, (∀ d ∈ ds, d < 10) → (ds.map digitByte).mapM digit = some ds := by
    intro ds
    induction ds with
    | nil => exact fun _ => rfl
    | cons d ds ih =>
      intro hds
      rw [List.map_cons, List.mapM_cons, digit_digitByte (hds d List.mem_cons_self),
        ih fun e he => hds e (List.mem_cons_of_mem _ he)]
      rfl
  have hunsigned : ∀ body : Bytes, body ≠ [] → unsigned body = (body.mapM digit).map digitsValue := by
    intro body hbody
    cases body with
    | nil => exact absurd rfl hbody
    | cons b body => rfl
  rw [hunsigned _ (by rw [Ne, List.map_eq_nil_iff]; exact digitsOf_ne_nil n), hall _ fun d hd => Decimal.digitsOf_lt hd,
    Option.map_some, Decimal.digitsValue_digitsOf]

/-- A number is read from the digits it is written in, if it fits. -/
theorem atoi_decimal (n : ℤ) : atoi (decimal n) = (some n).filter inInt64 := by
  unfold decimal
  by_cases hneg : n < 0
  · simp only [if_pos hneg]
    unfold atoi
    dsimp only
    rw [if_pos (by rfl), unsigned_digits, Option.map_some]
    congr 2
    omega
  · simp only [if_neg hneg]
    cases hdigits : digitsOf n.natAbs with
    | nil => exact absurd hdigits (digitsOf_ne_nil _)
    | cons d ds =>
      obtain ⟨hminus, hplus, -⟩ := digitByte_plain (Decimal.digitsOf_lt (hdigits ▸ List.mem_cons_self))
      unfold atoi
      rw [List.map_cons]
      dsimp only
      rw [if_neg hminus, if_neg hplus, ← List.map_cons, ← hdigits, unsigned_digits, Option.map_some]
      congr 2
      omega

theorem lineFeed_decimal (n : ℤ) : lineFeed ∉ decimal n := by
  have hdigits : lineFeed ∉ (digitsOf n.natAbs).map digitByte := by
    intro hmem
    obtain ⟨d, hd, heq⟩ := List.mem_map.mp hmem
    exact (digitByte_plain (Decimal.digitsOf_lt hd)).2.2 heq
  unfold decimal
  dsimp only
  split_ifs
  · exact fun hmem => (List.mem_cons.mp hmem).elim (by decide) hdigits
  · exact hdigits

/-- An `int64` is written in a line's worth of digits. -/
theorem length_decimal {n : ℤ} (h : inInt64 n = true) : (decimal n).length ≤ 20 := by
  have hdigits : ((digitsOf n.natAbs).map digitByte).length ≤ 19 := by
    rw [List.length_map, digitsOf]
    split_ifs with hn
    · exact Nat.le_of_ble_eq_true rfl
    · rw [List.length_reverse]
      rw [inInt64, Bool.and_eq_true, decide_eq_true_eq, decide_eq_true_eq] at h
      exact (Nat.digits_length_le_iff (by decide) _).mpr (by omega)
  unfold decimal
  dsimp only
  split_ifs
  · rw [List.length_cons]
    omega
  · omega

/-- A line of a kind and a text with no line feed. -/
theorem line_kind {kind : UInt8} {text : Bytes} (rest : Bytes) (hkind : kind ≠ lineFeed) (htext : lineFeed ∉ text) :
    line (kind :: text ++ crlf ++ rest) =
      if text.length + 3 ≤ bufferSize then (.ok (kind :: text), rest)
      else (.error .bufferFull, (kind :: text ++ crlf ++ rest).drop bufferSize) := by
  have hunbroken : lineFeed ∉ kind :: text :=
    fun hmem => (List.mem_cons.mp hmem).elim (Ne.symm hkind) htext
  rw [List.append_assoc, line_append rest hunbroken, List.length_cons]

/-- The header of a number that is an `int64` is a line. -/
theorem line_header {kind : UInt8} {n : ℤ} (rest : Bytes) (hkind : kind ≠ lineFeed) (hn : inInt64 n = true) :
    line (kind :: decimal n ++ crlf ++ rest) = (.ok (kind :: decimal n), rest) := by
  have hroom : (decimal n).length + 3 ≤ bufferSize := (Nat.add_le_add_right (length_decimal hn) 3).trans (by decide)
  rw [line_kind rest hkind (lineFeed_decimal n), if_pos hroom]

theorem atoi_of_inInt64 {n : ℤ} (hn : inInt64 n = true) : atoi (decimal n) = some n := by
  rw [atoi_decimal, Option.filter_some, if_pos hn]

theorem inInt64_of_le {n : ℕ} (limit : ℤ) (hn : (n : ℤ) ≤ limit) (hlimit : limit < 2 ^ 63) : inInt64 n = true := by
  rw [inInt64, Bool.and_eq_true, decide_eq_true_eq, decide_eq_true_eq]
  omega

theorem read_of_line {stream rest : Bytes} {kind : UInt8} {body : Bytes} (hline : line stream = (.ok (kind :: body), rest)) :
    read stream =
      if kind = respSimple then .answers { Value.zero with bulk := some body } rest
      else if kind = respError then .fails (.server body) rest
      else if kind = respInteger then
        match atoi body with
        | none => .fails (.integerReply body) rest
        | some n => .answers { Value.zero with integer := n } rest
      else if kind = respBulk then bulk body rest
      else if kind = respArray then arrayOfBulks read body rest
      else .fails (.replyType kind) rest := by
  rw [read_eq, readWith, hline]

/-- A line the buffer has no room for fails the read. -/
theorem read_of_long {kind : UInt8} {text rest : Bytes} (hkind : kind ≠ lineFeed) (htext : lineFeed ∉ text)
    (hlong : ¬ text.length + 3 ≤ bufferSize) : (read (kind :: text ++ crlf ++ rest)).outcome = .error .bufferFull := by
  rw [read_eq, readWith, line_kind rest hkind htext, if_neg hlong]
  rfl

/-- A bulk reads back as its own bytes, whatever they are, if it is within the limit. -/
theorem read_bulkWire {bytes : Option Bytes} (rest : Bytes) (hfits : Reply.BulkFits bytes) :
    (read (bulkWire bytes ++ rest)).outcome = .value { Value.zero with bulk := bytes, null := bytes.isNone } ∧
      (read (bulkWire bytes ++ rest)).rest = rest := by
  cases bytes with
  | none =>
    rw [bulkWire, read_of_line (line_header rest (by decide) (by decide)), if_neg (by decide), if_neg (by decide),
      if_neg (by decide), if_pos rfl, bulk, atoi_of_inInt64 (by decide)]
    exact ⟨rfl, rfl⟩
  | some b =>
    have hlimit : ((b.length : ℕ) : ℤ) ≤ maxReplyBytes := Int.ofNat_le.mpr (hfits b rfl)
    have hint := inInt64_of_le _ hlimit (by decide)
    have hwire : bulkWire (some b) ++ rest = respBulk :: decimal b.length ++ crlf ++ (b ++ (crlf ++ rest)) := by
      simp only [bulkWire, List.append_assoc, List.cons_append]
    have hlong : ¬ (b ++ (crlf ++ rest)).length < b.length + 2 := by
      rw [List.length_append, List.length_append]
      have hcrlf : crlf.length = 2 := rfl
      omega
    have hdrop : (b ++ (crlf ++ rest)).drop (b.length + 2) = rest := by
      rw [← List.append_assoc, List.drop_left' (by rw [List.length_append]; rfl)]
    rw [hwire, read_of_line (line_header _ (by decide) hint), if_neg (by decide), if_neg (by decide),
      if_neg (by decide), if_pos rfl, bulk, atoi_of_inInt64 hint]
    dsimp only
    rw [if_neg (not_lt.mpr (Nat.cast_nonneg _)), if_neg (not_lt.mpr hlimit), Int.toNat_natCast, if_neg hlong, hdrop,
      List.take_left]
    exact ⟨rfl, rfl⟩

/-- One that is not is refused. -/
theorem read_bulkWire_large {b : Bytes} (rest : Bytes) (hlarge : ¬ b.length ≤ maxReplyBytes) :
    ∃ e, (read (bulkWire (some b) ++ rest)).outcome = .error e := by
  have hwire : bulkWire (some b) ++ rest = respBulk :: decimal b.length ++ crlf ++ (b ++ (crlf ++ rest)) := by
    simp only [bulkWire, List.append_assoc, List.cons_append]
  rw [hwire]
  by_cases hroom : (decimal b.length).length + 3 ≤ bufferSize
  · have hline := line_kind (b ++ (crlf ++ rest)) (by decide : respBulk ≠ lineFeed) (lineFeed_decimal b.length)
    rw [if_pos hroom] at hline
    rw [read_of_line hline, if_neg (by decide), if_neg (by decide), if_neg (by decide), if_pos rfl, bulk, atoi_decimal,
      Option.filter_some]
    by_cases hint : inInt64 b.length = true
    · rw [if_pos hint]
      dsimp only
      have hover : (maxReplyBytes : ℤ) < b.length := Int.ofNat_lt.mpr (not_le.mp hlarge)
      rw [if_neg (not_lt.mpr (Nat.cast_nonneg _)), if_pos hover]
      exact ⟨_, rfl⟩
    · rw [if_neg hint]
      exact ⟨_, rfl⟩
  · exact ⟨_, read_of_long (by decide) (lineFeed_decimal _) hroom⟩

theorem members_bulks {bulks : List (Option Bytes)} (rest : Bytes) (hfits : ∀ bytes ∈ bulks, Reply.BulkFits bytes) : ∀ out,
    (members read bulks.length out (bulks.flatMap bulkWire ++ rest)).outcome =
        .value { Value.zero with array := some (out ++ bulks) } ∧
      (members read bulks.length out (bulks.flatMap bulkWire ++ rest)).rest = rest := by
  induction bulks with
  | nil =>
    intro out
    rw [List.append_nil]
    exact ⟨rfl, rfl⟩
  | cons bytes bulks ih =>
    intro out
    obtain ⟨hv, hrest⟩ := read_bulkWire (bulks.flatMap bulkWire ++ rest) (hfits bytes List.mem_cons_self)
    have hlater := ih (fun b hb => hfits b (List.mem_cons_of_mem _ hb)) (out ++ [bytes])
    rw [List.append_assoc, List.singleton_append] at hlater
    rw [List.flatMap_cons, List.append_assoc, List.length_cons, members]
    dsimp only
    rw [hv, hrest]
    exact hlater

theorem members_bulks_large {bulks : List (Option Bytes)} (rest : Bytes) (hlarge : ∃ bytes ∈ bulks, ¬ Reply.BulkFits bytes) :
    ∀ out, ∃ e, (members read bulks.length out (bulks.flatMap bulkWire ++ rest)).outcome = .error e := by
  induction bulks with
  | nil =>
    obtain ⟨bytes, hmem, -⟩ := hlarge
    exact absurd hmem List.not_mem_nil
  | cons bytes bulks ih =>
    intro out
    rw [List.flatMap_cons, List.append_assoc, List.length_cons, members]
    dsimp only
    by_cases hfits : Reply.BulkFits bytes
    · obtain ⟨hv, hrest⟩ := read_bulkWire (bulks.flatMap bulkWire ++ rest) hfits
      obtain ⟨bytes', hmem, hlarge⟩ := hlarge
      obtain rfl | hmem := List.mem_cons.mp hmem
      · exact absurd hfits hlarge
      · rw [hv, hrest]
        exact ih ⟨bytes', hmem, hlarge⟩ _
    · cases bytes with
      | none => exact absurd nofun hfits
      | some b =>
        obtain ⟨e, he⟩ := read_bulkWire_large (bulks.flatMap bulkWire ++ rest)
          (fun hlimit => hfits fun b' hb' => Option.some.inj hb' ▸ hlimit)
        rw [he]
        exact ⟨e, rfl⟩

theorem array_wire (bulks : List (Option Bytes)) (rest : Bytes) :
    (Reply.array bulks).wire ++ rest = respArray :: decimal bulks.length ++ crlf ++ (bulks.flatMap bulkWire ++ rest) := by
  simp only [Reply.wire, List.append_assoc, List.cons_append]

theorem read_array {bulks : List (Option Bytes)} (rest : Bytes) (hroom : 24 * (bulks.length : ℤ) ≤ maxAlloc) :
    read ((Reply.array bulks).wire ++ rest) =
      { members read bulks.length [] (bulks.flatMap bulkWire ++ rest) with
        sized := bulks.length :: (members read bulks.length [] (bulks.flatMap bulkWire ++ rest)).sized } := by
  have hint : inInt64 bulks.length = true := by
    unfold maxAlloc at hroom
    exact inInt64_of_le (2 ^ 48) (by omega) (by decide)
  have hannounces : Announces ((Reply.array bulks).wire ++ rest) bulks.length (bulks.flatMap bulkWire ++ rest) := by
    rw [array_wire]
    exact ⟨_, line_header _ (by decide) hint, atoi_of_inInt64 hint⟩
  rw [read_of_announces hannounces (Nat.cast_nonneg _), if_neg (not_lt.mpr hroom), Int.toNat_natCast]

/-- An array that no slice can take is not answered. -/
theorem read_array_large {bulks : List (Option Bytes)} (rest : Bytes) (hroom : ¬ 24 * (bulks.length : ℤ) ≤ maxAlloc) (v : Value) :
    (read ((Reply.array bulks).wire ++ rest)).outcome ≠ .value v := by
  rw [array_wire]
  by_cases hfits : (decimal bulks.length).length + 3 ≤ bufferSize
  · have hline := line_kind (bulks.flatMap bulkWire ++ rest) (by decide : respArray ≠ lineFeed) (lineFeed_decimal bulks.length)
    rw [if_pos hfits] at hline
    rw [read_of_line hline, if_neg (by decide), if_neg (by decide), if_neg (by decide), if_neg (by decide), if_pos rfl,
      arrayOfBulks, atoi_decimal, Option.filter_some]
    by_cases hint : inInt64 bulks.length = true
    · rw [if_pos hint]
      dsimp only
      rw [if_neg (not_lt.mpr (Nat.cast_nonneg _)), if_pos (not_le.mp hroom)]
      exact nofun
    · rw [if_neg hint]
      exact nofun
  · rw [read_of_long (by decide) (lineFeed_decimal _) hfits]
    exact nofun

/-- A reply that fits reads back, from its own bytes. -/
theorem read_of_fits {reply : Reply} (rest : Bytes) (hfits : reply.Fits) :
    (read (reply.wire ++ rest)).outcome = reply.outcome ∧ (read (reply.wire ++ rest)).rest = rest := by
  cases reply with
  | simple text =>
    have hroom : text.bytes.length + 3 ≤ bufferSize := hfits
    have hline := line_kind rest (by decide : respSimple ≠ lineFeed) text.unbroken.2
    rw [if_pos hroom] at hline
    rw [Reply.wire, read_of_line hline, if_pos rfl]
    exact ⟨rfl, rfl⟩
  | error text =>
    have hroom : text.bytes.length + 3 ≤ bufferSize := hfits
    have hline := line_kind rest (by decide : respError ≠ lineFeed) text.unbroken.2
    rw [if_pos hroom] at hline
    rw [Reply.wire, read_of_line hline, if_neg (by decide), if_pos rfl]
    exact ⟨rfl, rfl⟩
  | integer n =>
    rw [Reply.wire, read_of_line (line_header rest (by decide) n.fits), if_neg (by decide), if_neg (by decide), if_pos rfl,
      atoi_of_inInt64 n.fits]
    exact ⟨rfl, rfl⟩
  | bulk bytes => exact read_bulkWire rest fun b hb => Option.some.inj hb ▸ hfits
  | nullBulk =>
    have hnone : Reply.BulkFits none := fun b hb => by cases hb
    exact read_bulkWire rest hnone
  | nullArray =>
    rw [Reply.wire, read_of_line (line_header rest (by decide) (by decide)), if_neg (by decide), if_neg (by decide),
      if_neg (by decide), if_neg (by decide), if_pos rfl, arrayOfBulks, atoi_of_inInt64 (by decide)]
    exact ⟨rfl, rfl⟩
  | array bulks =>
    rw [read_array rest hfits.1]
    exact members_bulks rest hfits.2 []

/-- And one that reads back fits. -/
theorem fits_of_read {reply : Reply} {rest : Bytes} (h : (read (reply.wire ++ rest)).outcome = reply.outcome) : reply.Fits := by
  cases reply with
  | simple text | error text =>
    by_contra hlong
    rw [Reply.wire, read_of_long (by decide) text.unbroken.2 hlong] at h
    cases h
  | integer n => trivial
  | bulk bytes =>
    by_contra hlarge
    obtain ⟨e, he⟩ := read_bulkWire_large rest hlarge
    rw [Reply.wire, he] at h
    cases h
  | nullBulk | nullArray => trivial
  | array bulks =>
    by_contra hlarge
    by_cases hroom : 24 * (bulks.length : ℤ) ≤ maxAlloc
    · have hbulk : ∃ bytes ∈ bulks, ¬ Reply.BulkFits bytes := by
        by_contra hall
        refine hlarge ⟨hroom, fun bytes hmem => ?_⟩
        by_contra hbad
        exact hall ⟨bytes, hmem, hbad⟩
      obtain ⟨e, he⟩ := members_bulks_large rest hbulk []
      rw [read_array rest hroom] at h
      dsimp only at h
      rw [he] at h
      cases h
    · exact read_array_large rest hroom _ h

theorem readsBack_iff (tail : Bytes) (replies : List Reply) : ReadsBack tail replies ↔ ∀ reply ∈ replies, reply.Fits := by
  induction replies with
  | nil => exact ⟨fun _ reply hmem => absurd hmem List.not_mem_nil, fun _ => trivial⟩
  | cons reply replies ih =>
    rw [List.forall_mem_cons, ← ih]
    constructor
    · rintro ⟨houtcome, -, hlater⟩
      exact ⟨fits_of_read houtcome, hlater⟩
    · rintro ⟨hfits, hlater⟩
      obtain ⟨houtcome, hrest⟩ := read_of_fits (replies.flatMap Reply.wire ++ tail) hfits
      exact ⟨houtcome, hrest, hlater⟩

/-- **The reader** takes no more from a stream than it means to, and reads back the replies that a
connection carries, exactly as far as their headers let it. -/
theorem reads_what_is_sent (stream : Bytes) (replies : List Reply) :
    ((read stream).Contained ↔ ¬ Overreaches stream) ∧
      (ReadsBack stream replies ↔ ∀ reply ∈ replies, reply.Fits) :=
  ⟨contained_iff stream, readsBack_iff stream replies⟩

/-- A header that announces more members than a slice can take. -/
def boundless : Bytes := respArray :: decimal (2 ^ 63 - 1) ++ crlf

theorem boundless_panics : (read boundless).outcome = .panics ∧ ¬ (read boundless).Contained := by
  have hpanics : (read boundless).outcome = .panics := by decide
  exact ⟨hpanics, fun h => h.survives hpanics⟩

/-- Arrays within arrays, of which each is a read deeper. -/
example : (read ((respArray :: decimal 1 ++ crlf) ++ (respArray :: decimal 1 ++ crlf) ++ (respArray :: decimal 1 ++ crlf))).depth = 3 := by
  decide

end Resp
end Joins
end Grove
