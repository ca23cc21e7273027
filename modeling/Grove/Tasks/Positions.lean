import Grove.Tasks.Refusals
import Mathlib.Data.List.TakeWhile

/-! # Positions in a creator's file

`prefixed` of `apps/grove/game-builder/src/compile.ts` puts the imports of a source on its first line; `lineStarts` and
`positionAt` of `packages/scripting/src/toolchain/ast.ts` and `tsc` then read positions off what the compiler was
handed.  The compiler ends a line at more terminators than `lineStarts` does, so there are two positions to compare. -/

namespace Grove
namespace Tasks
namespace Positions

open Refusals

/-! ### Lines -/

/-- Where lines start in a text of `length` units, when one ends at the units that satisfy `ends`. -/
def startsAfter (ends : ℕ → Bool) (length : ℕ) : List ℕ := 0 :: ((List.range length).filter ends).map (· + 1)

/-- Where `tsc` ends a line; a carriage return ends none before a line feed. -/
def endsLine (text : JsString) (i : ℕ) : Bool :=
  match text[i]? with
  | none => false
  | some u => u = 0x0a || u = 0x2028 || u = 0x2029 || (u = 0x0d && text[i + 1]? ≠ some 0x0a)

def tscLineStarts (text : JsString) : List ℕ := startsAfter (endsLine text) text.length

/-- `position` is in the last line that starts at or before the offset, and its column counts from there. -/
structure LastLine (starts : List ℕ) (offset : ℕ) (position : ℕ × ℕ) : Prop where
  pos : 0 < position.1
  le_length : position.1 ≤ starts.length
  start_le : starts.getD (position.1 - 1) 0 ≤ offset
  lt_start : ∀ i, position.1 ≤ i → i < starts.length → offset < starts.getD i 0
  column : position.2 = offset - starts.getD (position.1 - 1) 0 + 1

theorem LastLine.unique {starts : List ℕ} {offset : ℕ} {position position' : ℕ × ℕ} (h : LastLine starts offset position)
    (h' : LastLine starts offset position') : position = position' := by
  have hline : position.1 = position'.1 := by
    obtain hlt | heq | hlt := lt_trichotomy position.1 position'.1
    · have hpos := h'.pos
      have hle := h'.le_length
      have := h.lt_start (position'.1 - 1) (by omega) (by omega)
      have := h'.start_le
      omega
    · exact heq
    · have hpos := h.pos
      have hle := h.le_length
      have := h'.lt_start (position.1 - 1) (by omega) (by omega)
      have := h.start_le
      omega
  exact Prod.ext hline (by rw [h.column, h'.column, hline])

theorem getD_lt_getD {starts : List ℕ} (hstarts : starts.Pairwise (· < ·)) {i j : ℕ} (hij : i < j) (hj : j < starts.length) :
    starts.getD i 0 < starts.getD j 0 := by
  have hi := hij.trans hj
  simp only [List.getD_eq_getElem?_getD, List.getElem?_eq_getElem hi, List.getElem?_eq_getElem hj, Option.getD_some]
  exact List.pairwise_iff_getElem.mp hstarts i j hi hj hij

/-- What lies above `high` starts after the offset, and the search ends at `high`. -/
theorem lineOf_lt {starts : List ℕ} (hstarts : starts.Pairwise (· < ·)) (offset : ℕ) : ∀ rounds low high,
    high < starts.length → high - low ≤ rounds → (∀ i, high < i → i < starts.length → offset < starts.getD i 0) →
    ∀ i, lineOf starts offset rounds low high < i → i < starts.length → offset < starts.getD i 0 := by
  intro rounds
  induction rounds with
  | zero =>
    intro low high _ hrounds habove i hi
    rw [lineOf] at hi
    exact habove i (by omega)
  | succ rounds ih =>
    intro low high hhigh hrounds habove
    rw [lineOf]
    dsimp only
    split_ifs with hlt hmid
    · exact ih _ high hhigh (by omega) habove
    · refine ih low _ (by omega) (by omega) fun i hi hlength => ?_
      have hmid' : offset < starts.getD ((low + high + 1) / 2) 0 := not_le.mp hmid
      obtain heq | hlt := (show (low + high + 1) / 2 ≤ i by omega).eq_or_lt
      · exact heq ▸ hmid'
      · exact hmid'.trans (getD_lt_getD hstarts hlt hlength)
    · exact fun i hi => habove i (by omega)

/-- The search finds the last line that starts at or before the offset, in any ascending list of starts. -/
theorem positionAt_lastLine {starts : List ℕ} (hstarts : starts.Pairwise (· < ·)) {offset : ℕ} (hhead : 0 < starts.length)
    (hfirst : starts.getD 0 0 ≤ offset) : LastLine starts offset (positionAt starts offset) := by
  obtain ⟨hlow, hstart⟩ := lineOf_spec starts offset starts.length 0 (starts.length - 1) (Nat.zero_le _) (by omega) hfirst
  have hnext := lineOf_lt hstarts offset starts.length 0 (starts.length - 1) (by omega) (by omega)
    (fun i hi hlength => by omega)
  exact ⟨Nat.succ_pos _, hlow, hstart, fun i hi hlength => hnext i hi hlength, rfl⟩

theorem pairwise_startsAfter (ends : ℕ → Bool) (length : ℕ) : (startsAfter ends length).Pairwise (· < ·) := by
  unfold startsAfter
  rw [List.pairwise_cons]
  refine ⟨fun start hstart => ?_, ?_⟩
  · obtain ⟨i, -, rfl⟩ := List.mem_map.mp hstart
    exact Nat.succ_pos i
  rw [List.pairwise_map]
  exact (List.pairwise_lt_range.filter _).imp Nat.succ_lt_succ

/-- The position of an offset in a text whose lines end where `ends` says. -/
theorem lastLine_startsAfter (ends : ℕ → Bool) (length offset : ℕ) :
    LastLine (startsAfter ends length) offset (positionAt (startsAfter ends length) offset) :=
  positionAt_lastLine (pairwise_startsAfter ends length) (Nat.succ_pos _) (Nat.zero_le _)

/-- A construct is past the first line when one ends before it. -/
theorem one_lt_line_iff (ends : ℕ → Bool) (length offset : ℕ) :
    1 < (positionAt (startsAfter ends length) offset).1 ↔ ∃ i < length, ends i ∧ i < offset := by
  have hat := lastLine_startsAfter ends length offset
  generalize positionAt (startsAfter ends length) offset = position at hat ⊢
  obtain ⟨hpos, hle, hstart, hnext, -⟩ := hat
  constructor
  · intro hline
    have hmem : (startsAfter ends length).getD (position.1 - 1) 0 ∈ ((List.range length).filter ends).map (· + 1) := by
      obtain ⟨j, hj⟩ : ∃ j, position.1 - 1 = j + 1 := ⟨position.1 - 2, by omega⟩
      have hlt : j < (((List.range length).filter ends).map (· + 1)).length := by
        rw [startsAfter, List.length_cons] at hle
        omega
      rw [hj, startsAfter, List.getD_cons_succ, List.getD_eq_getElem?_getD, List.getElem?_eq_getElem hlt, Option.getD_some]
      exact List.getElem_mem hlt
    obtain ⟨i, hi, heq⟩ := List.mem_map.mp hmem
    rw [List.mem_filter, List.mem_range] at hi
    exact ⟨i, hi.1, hi.2, by omega⟩
  · rintro ⟨i, hi, hends, hlt⟩
    by_contra hline
    have hmem : i + 1 ∈ ((List.range length).filter ends).map (· + 1) :=
      List.mem_map_of_mem (List.mem_filter.mpr ⟨List.mem_range.mpr hi, hends⟩)
    obtain ⟨j, hj, heq⟩ := List.getElem_of_mem hmem
    have := hnext (j + 1) (by omega) (by rw [startsAfter, List.length_cons]; omega)
    rw [startsAfter, List.getD_cons_succ, List.getD_eq_getElem?_getD, List.getElem?_eq_getElem hj, Option.getD_some,
      heq] at this
    omega

/-! ### A text behind a prelude -/

/-- A prelude that ends no line moves the starts of all lines but the first. -/
theorem startsAfter_append {ends ends' : ℕ → Bool} {m n : ℕ} (hprelude : ∀ i < m, ends' i = false)
    (htext : ∀ i, ends' (m + i) = ends i) :
    startsAfter ends' (m + n) = 0 :: (((List.range n).filter ends).map (· + 1)).map (m + ·) := by
  have hnone : (List.range m).filter ends' = [] := by
    rw [List.filter_eq_nil_iff]
    intro i hi
    simp [hprelude i (List.mem_range.mp hi)]
  have hshift : ((List.range n).map (m + ·)).filter ends' = ((List.range n).filter ends).map (m + ·) := by
    rw [List.filter_map]
    congr 2
    exact funext htext
  rw [startsAfter, List.range_add, List.filter_append, hnone, List.nil_append, hshift, List.map_map, List.map_map]
  simp only [Function.comp_def, Nat.add_assoc]

/-- The line of a construct is as it was, and so is its column unless it is on the first. -/
theorem positionAt_append {ends ends' : ℕ → Bool} {m n : ℕ} (hprelude : ∀ i < m, ends' i = false)
    (htext : ∀ i, ends' (m + i) = ends i) (offset : ℕ) : positionAt (startsAfter ends' (m + n)) (m + offset) =
      if (positionAt (startsAfter ends n) offset).1 = 1 then (1, m + offset + 1)
      else positionAt (startsAfter ends n) offset := by
  have hwas := lastLine_startsAfter ends n offset
  refine (lastLine_startsAfter ends' (m + n) (m + offset)).unique ?_
  rw [startsAfter_append hprelude htext]
  rw [startsAfter] at hwas ⊢
  generalize ((List.range n).filter ends).map (· + 1) = tail at hwas ⊢
  generalize positionAt (0 :: tail) offset = position at hwas ⊢
  obtain ⟨line, column⟩ := position
  obtain ⟨hpos, hle, hstart, hnext, hcolumn⟩ := hwas
  simp only at hpos hle hstart hnext hcolumn
  have hmoved : ∀ i, i < tail.length → (0 :: tail.map (m + ·)).getD (i + 1) 0 = m + (0 :: tail).getD (i + 1) 0 := by
    intro i hi
    simp [List.getD_eq_getElem?_getD, hi]
  have hlast : ∀ i, line ≤ i → i < (0 :: tail.map (m + ·)).length → m + offset < (0 :: tail.map (m + ·)).getD i 0 := by
    intro i hi hlength
    rw [List.length_cons, List.length_map] at hlength
    obtain ⟨j, rfl⟩ := Nat.exists_eq_add_of_le' (hpos.trans_le hi)
    rw [hmoved j (by omega)]
    have := hnext (j + 1) hi (by rw [List.length_cons]; omega)
    omega
  simp only [List.length_cons] at hle
  split_ifs with hline
  · subst hline
    exact ⟨Nat.one_pos, Nat.succ_pos _, Nat.zero_le _, hlast, rfl⟩
  · obtain ⟨j, rfl⟩ : ∃ j, line = j + 2 := ⟨line - 2, by omega⟩
    have hrow : (0 :: tail.map (m + ·)).getD (j + 1) 0 = m + (0 :: tail).getD (j + 1) 0 := hmoved j (by omega)
    refine ⟨hpos, by simp only [List.length_cons, List.length_map]; omega, ?_, hlast, ?_⟩
    · simp only [Nat.add_one_sub_one]
      rw [hrow]
      exact Nat.add_le_add_left hstart m
    · simp only [Nat.add_one_sub_one]
      rw [hrow, hcolumn, Nat.add_sub_add_left]
      rfl

/-! ### The prelude -/

/-- `\w`, and `$`. -/
def isWord (u : UInt16) : Bool :=
  (0x30 ≤ u && u ≤ 0x39) || (0x41 ≤ u && u ≤ 0x5a) || u = 0x5f || (0x61 ≤ u && u ≤ 0x7a) || u = 0x24

/-- The names of the engine, and which of them a source reaches for without declaring them (`usesFreeName`). -/
structure Engine where
  ENGINE_VALUES : List JsString
  ENGINE_TYPES : List JsString
  usesFreeName : JsString → JsString → Bool
  names : ∀ name ∈ ENGINE_VALUES ++ ENGINE_TYPES, name.all isWord

namespace Engine

variable (engine : Engine) (source : JsString)

def engineNamesIn : List JsString := engine.ENGINE_VALUES.filter (engine.usesFreeName source)

def engineTypesIn : List JsString := engine.ENGINE_TYPES.filter (engine.usesFreeName source)

/-- The import of some names, or nothing for none. -/
def importOf (keywords : String) (used : List JsString) : JsString :=
  if used = [] then [] else js keywords ++ (js ", ").intercalate used ++ js " \x7d from '@platform/engine';\n"

def preludeFor : JsString := importOf "import \x7b " (engine.engineNamesIn source)

def typePreludeFor : JsString := importOf "import type \x7b " (engine.engineTypesIn source)

/-- What goes before the source, on its first line. -/
def prelude : JsString :=
  trim ((engine.preludeFor source ++ engine.typePreludeFor source).map fun u => if u = lineFeed then 0x20 else u)

/-- `/\.tsx?$/u`. -/
def isScript (path : JsString) : Bool := (js ".ts").isSuffixOf path || (js ".tsx").isSuffixOf path

/-- One source as the compiler sees it. -/
def prefixed (path : JsString) : JsString :=
  if isScript path then
    if engine.prelude source = [] then source else engine.prelude source ++ [0x20] ++ source
  else source

/-- How much of what the compiler sees is not the creator's. -/
def shift (path : JsString) : ℕ := (engine.prefixed source path).length - source.length

/-- Both positions read off what the compiler was handed are those in the creator's own text. -/
structure Points (path : JsString) (offset : ℕ) : Prop where
  refused : positionAt (lineStarts (engine.prefixed source path)) (engine.shift source path + offset) =
    positionAt (lineStarts source) offset
  printed : positionAt (tscLineStarts (engine.prefixed source path)) (engine.shift source path + offset) =
    positionAt (tscLineStarts source) offset

/-! ### What a prelude is made of -/

theorem not_isLineTerminator_of_isWord {u : UInt16} (h : isWord u) : isLineTerminator u = false := by
  rw [← Bool.not_eq_true]
  intro hends
  simp only [isLineTerminator, Bool.or_eq_true, decide_eq_true_eq] at hends
  obtain ((rfl | rfl) | rfl) | rfl := hends <;> exact absurd h (by decide)

theorem mem_intercalate {sep : JsString} {u : UInt16} : ∀ {names : List JsString}, u ∈ sep.intercalate names →
    u ∈ sep ∨ ∃ name ∈ names, u ∈ name
  | [], h => by simp at h
  | [name], h => by
    rw [List.intercalate_singleton] at h
    exact .inr ⟨name, List.mem_cons_self, h⟩
  | name :: name' :: names, h => by
    rw [List.intercalate_cons_cons, List.mem_append, List.mem_append] at h
    obtain (h | h) | h := h
    · exact .inr ⟨name, List.mem_cons_self, h⟩
    · exact .inl h
    · exact (mem_intercalate h).imp_right fun ⟨n, hn, hu⟩ => ⟨n, List.mem_cons_of_mem _ hn, hu⟩

/-- A unit of an import, read as the prelude has it, ends no line. -/
def Plain (u : UInt16) : Prop := u = lineFeed ∨ isLineTerminator u = false

instance (u : UInt16) : Decidable (Plain u) := inferInstanceAs (Decidable (_ ∨ _))

theorem plain_js {cs : List Char} (h : cs.all (fun c => decide (Plain (UInt16.ofNat c.toNat))) = true) :
    ∀ u ∈ js (String.ofList cs), Plain u := by
  rw [js, String.toList_ofList]
  exact List.forall_mem_map.mpr fun c hc => of_decide_eq_true (List.all_eq_true.mp h c hc)

theorem plain_importOf {keywords : String} (hkeywords : ∀ u ∈ js keywords, Plain u) {used : List JsString}
    (hused : ∀ name ∈ used, name.all isWord) : ∀ u ∈ importOf keywords used, Plain u := by
  have hcomma : ∀ u ∈ js ", ", Plain u := plain_js (by decide +kernel)
  have hmodule : ∀ u ∈ js " \x7d from '@platform/engine';\n", Plain u := plain_js (by decide +kernel)
  intro u hu
  unfold importOf at hu
  split_ifs at hu
  · cases hu
  · rw [List.mem_append, List.mem_append] at hu
    obtain (hu | hu) | hu := hu
    · exact hkeywords u hu
    · obtain hu | ⟨name, hname, hu⟩ := mem_intercalate hu
      · exact hcomma u hu
      · exact .inr (not_isLineTerminator_of_isWord (List.all_eq_true.mp (hused name hname) u hu))
    · exact hmodule u hu

theorem mem_of_mem_trim {s : JsString} {u : UInt16} (h : u ∈ trim s) : u ∈ s := by
  unfold trim at h
  rw [List.mem_reverse] at h
  exact (List.dropWhile_sublist _).subset (List.mem_reverse.mp ((List.dropWhile_sublist _).subset h))

theorem prelude_endsNone {u : UInt16} (hu : u ∈ engine.prelude source ++ [0x20]) : isLineTerminator u = false := by
  obtain hu | hu := List.mem_append.mp hu
  · obtain ⟨v, hv, rfl⟩ := List.mem_map.mp (mem_of_mem_trim hu)
    have hplain : Plain v := by
      obtain hv | hv := List.mem_append.mp hv
      · exact plain_importOf (plain_js (by decide +kernel))
          (fun name hname => engine.names name (List.mem_append_left _ (List.mem_of_mem_filter hname))) v hv
      · exact plain_importOf (plain_js (by decide +kernel))
          (fun name hname => engine.names name (List.mem_append_right _ (List.mem_of_mem_filter hname))) v hv
    split_ifs with hfeed
    · decide
    · exact hplain.resolve_left hfeed
  · rw [List.mem_singleton.mp hu]
    decide

/-- Either way of ending a line ends none in the prelude, and those of the source where it did. -/
theorem ends_append {before : JsString} (hbefore : ∀ u ∈ before, isLineTerminator u = false) (source : JsString) :
    ((∀ i < before.length, endsLine (before ++ source) i = false) ∧
      ∀ i, endsLine (before ++ source) (before.length + i) = endsLine source i) ∧
    (∀ i < before.length, decide ((before ++ source)[i]? = some lineFeed) = false) ∧
      ∀ i, decide ((before ++ source)[before.length + i]? = some lineFeed) = decide (source[i]? = some lineFeed) := by
  have hat : ∀ i, i < before.length → ∃ u, (before ++ source)[i]? = some u ∧ isLineTerminator u = false := by
    intro i hi
    refine ⟨before[i], ?_, hbefore _ (List.getElem_mem hi)⟩
    rw [List.getElem?_append_left hi, List.getElem?_eq_getElem hi]
  have hafter : ∀ i, (before ++ source)[before.length + i]? = source[i]? := fun i => by
    rw [List.getElem?_append_right (Nat.le_add_right _ _), Nat.add_sub_cancel_left]
  refine ⟨⟨fun i hi => ?_, fun i => ?_⟩, fun i hi => ?_, fun i => ?_⟩
  · obtain ⟨u, hu, hends⟩ := hat i hi
    unfold endsLine
    rw [hu]
    simp only [isLineTerminator, Bool.or_eq_false_iff, decide_eq_false_iff_not] at hends ⊢
    simp [hends]
  · unfold endsLine
    rw [hafter, Nat.add_assoc, hafter]
  · obtain ⟨u, hu, hends⟩ := hat i hi
    rw [hu, decide_eq_false_iff_not]
    intro heq
    obtain rfl := Option.some.inj heq
    exact absurd hends (by decide)
  · rw [hafter]

theorem trim_ne_nil {u : UInt16} {s : JsString} (hu : u ∈ s) (hspace : isSpace u = false) : trim s ≠ [] := by
  have hkept : u ∈ s.dropWhile isSpace := by
    have hsplit := List.takeWhile_append_dropWhile (p := isSpace) (l := s)
    rw [← hsplit, List.mem_append] at hu
    refine hu.resolve_left fun hmem => ?_
    rw [List.mem_takeWhile_imp hmem] at hspace
    cases hspace
  unfold trim
  rw [Ne, List.reverse_eq_nil_iff, List.dropWhile_eq_nil_iff]
  intro hall
  rw [hall u (List.mem_reverse.mpr hkept)] at hspace
  cases hspace

/-- The file is no script, or it uses no name of the engine. -/
def Untouched (path : JsString) : Prop :=
  isScript path → engine.engineNamesIn source = [] ∧ engine.engineTypesIn source = []

theorem prelude_eq_nil_iff :
    engine.prelude source = [] ↔ engine.engineNamesIn source = [] ∧ engine.engineTypesIn source = [] := by
  constructor
  · intro hnil
    by_contra hused
    refine trim_ne_nil (u := 0x69) ?_ (by decide) hnil
    refine List.mem_map.mpr ⟨0x69, ?_, rfl⟩
    unfold preludeFor typePreludeFor importOf
    rw [List.mem_append]
    by_cases hnames : engine.engineNamesIn source = []
    · rw [if_neg fun htypes => hused ⟨hnames, htypes⟩, List.mem_append, List.mem_append]
      exact .inr (.inl (.inl (by decide)))
    · rw [if_neg hnames, List.mem_append, List.mem_append]
      exact .inl (.inl (.inl (by decide)))
  · rintro ⟨hnames, htypes⟩
    unfold prelude preludeFor typePreludeFor
    rw [hnames, htypes]
    rfl

theorem prefixed_eq_iff (path : JsString) : engine.prefixed source path = source ↔ engine.Untouched source path := by
  unfold prefixed Untouched
  rw [← prelude_eq_nil_iff]
  split_ifs with hscript hnil
  · simp [hnil]
  · refine iff_of_false (fun heq => ?_) (fun h => hnil (h hscript))
    have hlength := congrArg List.length heq
    simp only [List.length_append, List.length_singleton] at hlength
    omega
  · simp [hscript]

/-- The position of a construct is the creator's, whichever way lines end, unless it is on the first line behind a
prelude. -/
theorem points_iff_of_append {ends ends' : ℕ → Bool} {m n : ℕ} (hm : 0 < m) (hprelude : ∀ i < m, ends' i = false)
    (htext : ∀ i, ends' (m + i) = ends i) (offset : ℕ) :
    positionAt (startsAfter ends' (m + n)) (m + offset) = positionAt (startsAfter ends n) offset ↔
      ∃ i < n, ends i ∧ i < offset := by
  rw [← one_lt_line_iff, positionAt_append hprelude htext]
  have hat := lastLine_startsAfter ends n offset
  generalize positionAt (startsAfter ends n) offset = position at hat ⊢
  have hpos := hat.pos
  split_ifs with hline
  · have hcolumn := hat.column
    rw [hline] at hcolumn
    simp only [startsAfter, Nat.sub_self, List.getD_cons_zero, Nat.sub_zero] at hcolumn
    constructor
    · rintro rfl
      simp only at hcolumn
      omega
    · omega
  · simp only [true_iff]
    omega

theorem points_iff (path : JsString) (offset : ℕ) :
    engine.Points source path offset ↔ engine.Untouched source path ∨ lineFeed ∈ source.take offset := by
  rw [← prefixed_eq_iff]
  by_cases hsame : engine.prefixed source path = source
  · have hshift : engine.shift source path = 0 := by rw [shift, hsame, Nat.sub_self]
    refine iff_of_true ⟨?_, ?_⟩ (.inl hsame)
    · rw [hsame, hshift, Nat.zero_add]
    · rw [hsame, hshift, Nat.zero_add]
  · obtain ⟨before, hbefore, hprefixed⟩ : ∃ before, (∀ u ∈ before, isLineTerminator u = false) ∧
        engine.prefixed source path = before ++ source := by
      unfold prefixed at hsame ⊢
      split_ifs at hsame ⊢ with hscript hnone
      · exact absurd rfl hsame
      · exact ⟨engine.prelude source ++ [0x20], fun u hu => engine.prelude_endsNone source hu, rfl⟩
      · exact absurd rfl hsame
    have hpos : 0 < before.length := List.length_pos_of_ne_nil fun hnil => hsame (by rw [hprefixed, hnil, List.nil_append])
    have hshift : engine.shift source path = before.length := by
      rw [shift, hprefixed, List.length_append, Nat.add_sub_cancel]
    obtain ⟨⟨htsc, htsc'⟩, hfeed, hfeed'⟩ := ends_append hbefore source
    have hrefused := points_iff_of_append (n := source.length) hpos hfeed hfeed' offset
    have hprinted := points_iff_of_append (n := source.length) hpos htsc htsc' offset
    rw [← List.length_append] at hrefused hprinted
    have hmem : lineFeed ∈ source.take offset ↔
        ∃ i < source.length, decide (source[i]? = some lineFeed) ∧ i < offset := by
      rw [List.mem_take_iff_getElem]
      constructor
      · rintro ⟨i, hi, heq⟩
        have hlength : i < source.length := by omega
        exact ⟨i, hlength, by rw [List.getElem?_eq_getElem hlength, heq]; rfl, by omega⟩
      · rintro ⟨i, hi, heq, hlt⟩
        rw [List.getElem?_eq_getElem hi, decide_eq_true_eq] at heq
        exact ⟨i, by omega, Option.some.inj heq⟩
    -- A line feed ends a line for both.
    have hboth : (∃ i < source.length, decide (source[i]? = some lineFeed) ∧ i < offset) →
        ∃ i < source.length, endsLine source i ∧ i < offset := by
      rintro ⟨i, hi, heq, hlt⟩
      refine ⟨i, hi, ?_, hlt⟩
      unfold endsLine
      rw [decide_eq_true_eq.mp heq]
      rfl
    rw [← hshift, ← hprefixed] at hrefused hprinted
    simp only [hsame, false_or]
    rw [hmem]
    constructor
    · exact fun h => hrefused.mp h.refused
    · exact fun h => ⟨hrefused.mpr h, hprinted.mpr (hboth h)⟩

end Engine

/-- A list of line starts. -/
structure LineStarts where
  starts : List ℕ
  ascending : starts.Pairwise (· < ·)
  first : starts.head? = some 0

theorem LineStarts.lastLine (lines : LineStarts) (offset : ℕ) :
    LastLine lines.starts offset (positionAt lines.starts offset) := by
  obtain ⟨rest, hrest⟩ : ∃ rest, lines.starts = 0 :: rest := List.head?_eq_some_iff.mp lines.first
  have hascending := lines.ascending
  rw [hrest] at hascending ⊢
  exact positionAt_lastLine hascending (Nat.succ_pos _) (Nat.zero_le _)

/-- The search finds the last line at or before an offset in every list of line starts; what is reported is the creator's
position when and only when the source uses no name of the engine, or is no script, or a line feed comes before the
construct. -/
theorem positions_iff (engine : Engine) (source path : JsString) (offset : ℕ) :
    (∀ lines : LineStarts, LastLine lines.starts offset (positionAt lines.starts offset)) ∧
      (engine.Points source path offset ↔ engine.Untouched source path ∨ lineFeed ∈ source.take offset) :=
  ⟨fun lines => lines.lastLine offset, engine.points_iff source path offset⟩

/-- One name of the engine, and a source that calls it. -/
def clamping : Engine where
  ENGINE_VALUES := [js "clamp"]
  ENGINE_TYPES := []
  usesFreeName := fun source name => source = js "clamp(x);" && name = js "clamp"
  names := by decide

/-- The argument of the call is reported in column 49, and stands in column 7. -/
theorem clamping_not_points : ¬ clamping.Points (js "clamp(x);") (js "a.ts") 6 := by
  rw [clamping.points_iff, Engine.Untouched]
  rintro (h | h)
  · exact absurd (h (by decide +kernel)).1 (by decide +kernel)
  · exact absurd h (by decide +kernel)

end Positions
end Tasks
end Grove
