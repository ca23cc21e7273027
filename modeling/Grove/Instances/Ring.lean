import Grove.Lib.Circular

/-! # The log of a child

A ring keeps the last lines a child wrote, cut at newlines and at `maxLineLen` bytes, with the lines
the agent adds between them.  What it is for is said by `Told.lines`: the lines of everything the
child was heard to say, whichever writes it came in.

`lines_are_the_tail`: what a ring answers with is the tail of these. -/

namespace Grove
namespace Instances

/-- Go strings are bytes. -/
abbrev Line := List UInt8

def newline : UInt8 := 10

def carriageReturn : UInt8 := 13

def maxLineLen : ℕ := 8 * 1024

/-- `strings.TrimSuffix(line, "\r")`. -/
def trimReturn (line : Line) : Line := if line.getLast? = some carriageReturn then line.dropLast else line

structure Ring where
  buffer : Circular Line
  pending : Line

namespace Ring

/-- A capacity below one is one. -/
def ofCapacity (capacity : ℤ) : Ring := ⟨.ofCapacity (if capacity < 1 then 1 else capacity.toNat) [], []⟩

def push (r : Ring) (line : Line) : Ring := { r with buffer := r.buffer.push line }

def flush (r : Ring) : Ring := { r.push (trimReturn r.pending) with pending := [] }

def writeByte (r : Ring) (b : UInt8) : Ring :=
  if b = newline then r.flush
  else
    let r := { r with pending := r.pending ++ [b] }
    if maxLineLen ≤ r.pending.length then r.flush else r

def write (r : Ring) (p : List UInt8) : Ring := p.foldl writeByte r

def add (r : Ring) (line : Line) : Ring :=
  let r := if 0 < r.pending.length then r.flush else r
  r.push line

/-- A negative limit is the whole buffer. -/
def lines (r : Ring) (limit : ℤ) : List Line :=
  r.buffer.newest (if limit < 0 ∨ r.buffer.held < limit then r.buffer.held else limit.toNat)

end Ring

/-- What reaches a ring: output of the child, and lines of the agent's own. -/
inductive Call where
  | write (p : List UInt8)
  | add (line : Line)

def Ring.step (r : Ring) : Call → Ring
  | .write p => r.write p
  | .add line => r.add line

def Ring.run (capacity : ℤ) (calls : List Call) : Ring := calls.foldl Ring.step (.ofCapacity capacity)

/-! ### What a child was heard to say -/

/-- The pieces of full length a line is cut into. -/
def pieces (line : Line) : List Line :=
  (List.range (line.length / maxLineLen)).map fun i => (line.drop (i * maxLineLen)).take maxLineLen

/-- What is left of a line after them. -/
def leftOver (line : Line) : Line := line.drop (line.length / maxLineLen * maxLineLen)

/-- The last line of some output, which no newline ends. -/
def lastLine (output : List UInt8) : Line := (output.splitOn newline).getLastD []

/-- The lines of some output: all of a line a newline ends, and the full pieces of the last. -/
def finished (output : List UInt8) : List Line :=
  ((output.splitOn newline).dropLast.flatMap (fun line => pieces line ++ [leftOver line]) ++
    pieces (lastLine output)).map trimReturn

def unfinished (output : List UInt8) : Line := leftOver (lastLine output)

/-- The lines of some output that is over: an unfinished line is one. -/
def closed (output : List UInt8) : List Line :=
  finished output ++ if unfinished output = [] then [] else [trimReturn (unfinished output)]

/-- The output before each line of the agent's, and the output since. -/
structure Told where
  stretches : List (List UInt8 × Line)
  output : List UInt8

namespace Told

def hear (t : Told) : Call → Told
  | .write p => { t with output := t.output ++ p }
  | .add line => ⟨t.stretches ++ [(t.output, line)], []⟩

def lines (t : Told) : List Line :=
  t.stretches.flatMap (fun s => closed s.1 ++ [s.2]) ++ finished t.output

end Told

def told (calls : List Call) : Told := calls.foldl Told.hear ⟨[], []⟩

/-! ### One byte more -/

@[simp] theorem unfinished_nil : unfinished [] = [] := rfl

@[simp] theorem finished_nil : finished [] = [] := rfl

theorem splitOn_snoc_newline (output : List UInt8) :
    (output ++ [newline]).splitOn newline = output.splitOn newline ++ [[]] := by
  rw [List.splitOn_append_cons_self, List.splitOn_nil]

theorem splitOn_snoc {b : UInt8} (hb : b ≠ newline) : ∀ output : List UInt8,
    ∃ init last, output.splitOn newline = init ++ [last] ∧
      (output ++ [b]).splitOn newline = init ++ [last ++ [b]]
  | [] => ⟨[], [], rfl, by rw [List.nil_append, List.splitOn_eq_singleton (by simpa using Ne.symm hb)]; rfl⟩
  | a :: output => by
    obtain ⟨init, last, hold, hnew⟩ := splitOn_snoc hb output
    rw [List.cons_append, List.splitOn_cons_eq_if_modifyHead, List.splitOn_cons_eq_if_modifyHead, hold, hnew]
    split_ifs with ha
    · exact ⟨[] :: init, last, rfl, rfl⟩
    · cases init with
      | nil => exact ⟨[], a :: last, rfl, rfl⟩
      | cons first init => exact ⟨(a :: first) :: init, last, rfl, rfl⟩

theorem splitOn_eq (output : List UInt8) :
    output.splitOn newline = (output.splitOn newline).dropLast ++ [lastLine output] := by
  have hne := List.splitOn_ne_nil newline output
  rw [lastLine, List.getLastD_eq_getLast?, List.getLast?_eq_some_getLast hne]
  exact (List.dropLast_append_getLast hne).symm

theorem maxLineLen_pos : 0 < maxLineLen := by decide

theorem length_leftOver (line : Line) : (leftOver line).length = line.length % maxLineLen := by
  have hdiv := Nat.div_add_mod' line.length maxLineLen
  rw [leftOver, List.length_drop]
  omega

/-- A byte more leaves the full pieces before it as they are. -/
theorem pieces_append (line : Line) (b : UInt8) :
    (List.range (line.length / maxLineLen)).map
        (fun i => ((line ++ [b]).drop (i * maxLineLen)).take maxLineLen) = pieces line := by
  apply List.map_congr_left
  intro i hi
  have hlt : i < line.length / maxLineLen := List.mem_range.mp hi
  have hle : (i + 1) * maxLineLen ≤ line.length :=
    (Nat.mul_le_mul_right _ hlt).trans (Nat.div_mul_le_self _ _)
  rw [Nat.add_mul, Nat.one_mul] at hle
  rw [List.drop_append_of_le_length (by omega), List.take_append_of_le_length (by rw [List.length_drop]; omega)]

/-- A byte that fills a line up to a piece ends the piece. -/
theorem pieces_snoc_full {line : Line} {b : UInt8} (h : (leftOver line).length + 1 = maxLineLen) :
    pieces (line ++ [b]) = pieces line ++ [leftOver line ++ [b]] ∧ leftOver (line ++ [b]) = [] := by
  rw [length_leftOver] at h
  have hdiv := Nat.div_add_mod' line.length maxLineLen
  have hlength : line.length + 1 = (line.length / maxLineLen + 1) * maxLineLen := by
    rw [Nat.add_mul, Nat.one_mul]
    omega
  have hquot : (line ++ [b]).length / maxLineLen = line.length / maxLineLen + 1 := by
    rw [List.length_append, List.length_singleton, hlength, Nat.mul_div_cancel _ maxLineLen_pos]
  constructor
  · rw [pieces, hquot, List.range_succ, List.map_append, pieces_append, List.map_singleton, leftOver,
      List.drop_append_of_le_length (Nat.div_mul_le_self _ _), List.take_of_length_le]
    rw [List.length_append, List.length_drop, List.length_singleton]
    omega
  · rw [leftOver, hquot, ← hlength]
    exact List.drop_of_length_le (by simp)

/-- Any other byte is left over too. -/
theorem pieces_snoc_short {line : Line} {b : UInt8} (h : (leftOver line).length + 1 < maxLineLen) :
    pieces (line ++ [b]) = pieces line ∧ leftOver (line ++ [b]) = leftOver line ++ [b] := by
  rw [length_leftOver] at h
  have hdiv := Nat.div_add_mod' line.length maxLineLen
  have hquot : (line ++ [b]).length / maxLineLen = line.length / maxLineLen := by
    rw [List.length_append, List.length_singleton, ← hdiv, Nat.add_assoc, Nat.add_comm, Nat.add_mul_div_right _ _ maxLineLen_pos,
      Nat.div_eq_of_lt h, Nat.zero_add, hdiv]
  constructor
  · rw [pieces, hquot, pieces_append]
  · rw [leftOver, hquot, List.drop_append_of_le_length (Nat.div_mul_le_self _ _), leftOver]

theorem finished_snoc_newline (output : List UInt8) :
    finished (output ++ [newline]) = finished output ++ [trimReturn (unfinished output)] ∧
      unfinished (output ++ [newline]) = [] := by
  have hlast : lastLine (output ++ [newline]) = [] := by
    rw [lastLine, splitOn_snoc_newline, List.getLastD_concat]
  constructor
  · rw [finished, hlast, splitOn_snoc_newline, List.dropLast_concat, splitOn_eq output]
    simp [finished, unfinished, pieces]
  · rw [unfinished, hlast]
    rfl

theorem finished_snoc {b : UInt8} (hb : b ≠ newline) (output : List UInt8) :
    (∃ init, finished output = (init ++ pieces (lastLine output)).map trimReturn ∧
      finished (output ++ [b]) = (init ++ pieces (lastLine output ++ [b])).map trimReturn) ∧
      unfinished (output ++ [b]) = leftOver (lastLine output ++ [b]) := by
  obtain ⟨init, last, hold, hnew⟩ := splitOn_snoc hb output
  have hlast : lastLine output = last := by rw [lastLine, hold, List.getLastD_concat]
  have hlast' : lastLine (output ++ [b]) = last ++ [b] := by rw [lastLine, hnew, List.getLastD_concat]
  refine ⟨⟨init.flatMap (fun line => pieces line ++ [leftOver line]), ?_, ?_⟩, ?_⟩
  · rw [finished, hold, List.dropLast_concat]
  · rw [finished, hnew, List.dropLast_concat, hlast', hlast]
  · rw [unfinished, hlast', hlast]

/-! ### The ring beside what was said -/

/-- The ring was pushed every line said, and holds back what no newline has ended. -/
structure Shows (n : ℕ) (r : Ring) (t : Told) : Prop where
  capacity : r.buffer.capacity = n
  buffer : r.buffer.Holds t.lines
  pending : r.pending = unfinished t.output

namespace Shows

variable {n : ℕ} {r : Ring} {t : Told}

theorem ofCapacity (capacity : ℤ) : Shows (max capacity 1).toNat (.ofCapacity capacity) ⟨[], []⟩ where
  capacity := by
    rw [Ring.ofCapacity, Circular.capacity_ofCapacity]
    split_ifs <;> omega
  buffer := Circular.holds_ofCapacity _ _
  pending := rfl

/-- A line more is pushed. -/
theorem push {t' : Told} {pending : Line} (h : Shows n r t) {line : Line} (hlines : t'.lines = t.lines ++ [line])
    (hpending : pending = unfinished t'.output) : Shows n { r.push line with pending } t' where
  capacity := (Circular.capacity_push _ _).trans h.capacity
  buffer := by
    rw [hlines]
    exact h.buffer.push line
  pending := hpending

theorem writeByte (h : Shows n r t) (b : UInt8) : Shows n (r.writeByte b) { t with output := t.output ++ [b] } := by
  have hlines : ∀ output, Told.lines { t with output } =
      t.stretches.flatMap (fun s => closed s.1 ++ [s.2]) ++ finished output := fun _ => rfl
  unfold Ring.writeByte
  split_ifs with hb
  · subst hb
    obtain ⟨hfinished, hunfinished⟩ := finished_snoc_newline t.output
    apply h.push
    · rw [hlines, hfinished, h.pending, ← List.append_assoc]
      rfl
    · exact hunfinished.symm
  · obtain ⟨⟨init, hold, hnew⟩, hunfinished⟩ := finished_snoc hb t.output
    have hlt : (leftOver (lastLine t.output)).length < maxLineLen := by
      rw [length_leftOver]
      exact Nat.mod_lt _ maxLineLen_pos
    have hpending : r.pending = leftOver (lastLine t.output) := h.pending
    simp only [List.length_append, List.length_singleton]
    split_ifs with hfull
    · rw [hpending] at hfull
      obtain ⟨hpieces, hleft⟩ := pieces_snoc_full (b := b) (Nat.le_antisymm hlt hfull)
      apply h.push
      · rw [hlines, hnew, hpieces, ← List.append_assoc, List.map_append, ← hold, ← List.append_assoc, hpending]
        rfl
      · rw [hunfinished, hleft]
    · rw [hpending] at hfull
      obtain ⟨hpieces, hleft⟩ := pieces_snoc_short (b := b) (Nat.lt_of_not_le hfull)
      exact
        { capacity := h.capacity
          buffer := by
            rw [hlines, hnew, hpieces, ← hold]
            exact h.buffer
          pending := by rw [hunfinished, hleft, ← hpending] }

theorem write (h : Shows n r t) (p : List UInt8) : Shows n (r.write p) { t with output := t.output ++ p } := by
  induction p generalizing r t with
  | nil =>
    rw [List.append_nil]
    exact h
  | cons b p ih => simpa [Ring.write] using ih (h.writeByte b)

theorem add (h : Shows n r t) (line : Line) : Shows n (r.add line) ⟨t.stretches ++ [(t.output, line)], []⟩ := by
  have hlines : Told.lines ⟨t.stretches ++ [(t.output, line)], []⟩ =
      t.lines ++ (if unfinished t.output = [] then [] else [trimReturn (unfinished t.output)]) ++ [line] := by
    simp [Told.lines, closed]
  unfold Ring.add
  by_cases hpending : unfinished t.output = []
  · have hlength : ¬ 0 < r.pending.length := by
      rw [h.pending, hpending]
      exact lt_irrefl 0
    rw [if_pos hpending, List.append_nil] at hlines
    rw [if_neg hlength]
    exact h.push hlines (by rw [h.pending, hpending, unfinished_nil])
  · have hlength : 0 < r.pending.length := by
      rw [h.pending]
      exact List.length_pos_iff.mpr hpending
    rw [if_neg hpending, ← h.pending] at hlines
    rw [if_pos hlength]
    exact
      { capacity := by
          simp only [Ring.push, Ring.flush, Circular.capacity_push]
          exact h.capacity
        buffer := by
          rw [hlines]
          exact (h.buffer.push _).push line
        pending := unfinished_nil.symm }

theorem step (h : Shows n r t) (call : Call) : Shows n (r.step call) (t.hear call) := by
  cases call with
  | write p => exact h.write p
  | add line => exact h.add line

theorem run (capacity : ℤ) (calls : List Call) : Shows (max capacity 1).toNat (Ring.run capacity calls) (told calls) := by
  induction calls using List.reverseRecOn with
  | nil => exact ofCapacity capacity
  | append_singleton calls call ih =>
    simp only [Ring.run, told, List.foldl_append, List.foldl_cons, List.foldl_nil]
    exact ih.step call

end Shows

/-- The last lines of what was said, as many as were asked for and as a ring holds. -/
def tailOf (capacity limit : ℤ) (said : List Line) : List Line :=
  let held := min (max capacity 1).toNat said.length
  said.drop (said.length - if limit < 0 then held else min limit.toNat held)

/-- **The log ring is the tail of what was said**, and one write says what its two halves say. -/
theorem lines_are_the_tail (capacity limit : ℤ) (calls : List Call) :
    (Ring.run capacity calls).lines limit = tailOf capacity limit (told calls).lines ∧
      ∀ before after p p', (Ring.run capacity (before ++ [.write p, .write p'] ++ after)).lines limit =
        (Ring.run capacity (before ++ [.write (p ++ p')] ++ after)).lines limit := by
  have htail : ∀ calls, (Ring.run capacity calls).lines limit = tailOf capacity limit (told calls).lines := by
    intro calls
    have hshows := Shows.run capacity calls
    have hheld := hshows.buffer.held_eq
    rw [hshows.capacity] at hheld
    rw [Ring.lines, hshows.buffer.newest_eq (by split_ifs <;> omega), hheld, tailOf]
    congr 2
    split_ifs <;> omega
  refine ⟨htail calls, fun before after p p' => ?_⟩
  have htold : told (before ++ [.write p, .write p'] ++ after) = told (before ++ [.write (p ++ p')] ++ after) := by
    simp [told, Told.hear]
  rw [htail, htail, htold]

/-- A ring asked to hold nothing holds a line, and a limit below zero asks for all of them. -/
theorem lines_past_the_limit :
    (Ring.run 0 [.write [newline]]).lines 1 = [[]] ∧
      ¬ ∀ (capacity limit : ℤ) (calls : List Call), (Ring.run capacity calls).lines limit =
        (told calls).lines.drop ((told calls).lines.length -
          (min limit (min capacity (told calls).lines.length)).toNat) := by
  refine ⟨by decide, fun h => ?_⟩
  exact absurd (h 0 1 [.write [newline]]) (by decide)

end Instances
end Grove
