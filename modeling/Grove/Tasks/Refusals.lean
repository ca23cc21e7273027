import Grove.Api.Records
import Grove.Lib.Decimal

/-! # Refused builds

What becomes of a build whose source the toolchain refuses: `assertDeterminism` of
`packages/scripting/src/toolchain/check.ts` and `lowerScripts` of `lower.ts`, which say why;
`refusal` and `typeErrors` of `apps/grove/game-builder/src/compile.ts`, which turn that into a message
and diagnostics; `settle` of `consumer.ts`, which reports them; and the status route, which checks what
it is told against `TaskStatusUpdate` of `libs/api-contract/src/tasks.ts`.

A message is bounded by the schema and by nothing on its way there.  `settled_as_rejected` says which
refusals get through. -/

namespace Grove
namespace Tasks
namespace Refusals

open Api (TaskStatus LIVE)
open Decimal (digitsOf digitsValue)

/-- A string of the language, in UTF-16 units. -/
abbrev JsString := List UInt16

/-- The units of a text in which a character is one unit. -/
def js (s : String) : JsString := s.toList.map fun c => UInt16.ofNat c.toNat

/-- A natural number in a template. -/
def spelled (n : ℕ) : JsString := (digitsOf n).map fun d => UInt16.ofNat (0x30 + d)

def lineFeed : UInt16 := 0x0a

/-- `Number.MAX_SAFE_INTEGER`. -/
def maxSafeInteger : ℕ := 2 ^ 53 - 1

/-! ### The schema -/

inductive Severity where
  | error
  | warning
deriving DecidableEq

/-- A position is what `Number` makes of its digits: one above the safe integers may be rounded, and
stays above them. -/
structure BuildDiagnostic where
  severity : Severity
  file : JsString
  line : ℕ
  column : ℕ
  message : JsString
deriving DecidableEq

/-- Of a `TaskDetail`, what a refusal fills in. -/
structure TaskDetail where
  message : JsString
  diagnostics : Option (List BuildDiagnostic)
deriving DecidableEq

structure TaskStatusUpdate where
  status : TaskStatus
  detail : TaskDetail
deriving DecidableEq

/-- `z.int().positive()`. -/
def positiveInt (n : ℕ) : Bool := 0 < n && n ≤ maxSafeInteger

def BuildDiagnostic.accepts (d : BuildDiagnostic) : Bool := positiveInt d.line && positiveInt d.column

def maxMessage : ℕ := 1024

def TaskStatusUpdate.accepts (u : TaskStatusUpdate) : Bool :=
  u.status ≠ .NOT_STARTED && u.detail.message.length ≤ maxMessage && (u.detail.diagnostics.getD []).all BuildDiagnostic.accepts

/-! ### Positions -/

/-- Offsets of each line start. -/
def lineStarts (text : JsString) : List ℕ :=
  0 :: ((List.range text.length).filter fun i => text[i]? = some lineFeed).map (· + 1)

/-- The loop of `positionAt`: the last line that starts no later than the offset.  It halves what lies
between, so as many rounds as there are lines are enough. -/
def lineOf (starts : List ℕ) (offset : ℕ) : ℕ → ℕ → ℕ → ℕ
  | 0, low, _ => low
  | rounds + 1, low, high =>
    if low < high then
      let mid := (low + high + 1) / 2
      if starts.getD mid 0 ≤ offset then lineOf starts offset rounds mid high else lineOf starts offset rounds low (mid - 1)
    else low

/-- A line and a column, both counted from one. -/
def positionAt (starts : List ℕ) (offset : ℕ) : ℕ × ℕ :=
  let low := lineOf starts offset starts.length 0 (starts.length - 1)
  (low + 1, offset - starts.getD low 0 + 1)

/-! ### Determinism refusals -/

/-- What the determinism pass found at one node: the file and the class it is in, where in the file's
text the node starts, what was written, and what to write instead. -/
structure Report where
  file : JsString
  text : JsString
  start : ℕ
  klass : JsString
  found : JsString
  use : JsString
  because : JsString
  start_le : start ≤ text.length
  /-- No engine holds a longer string. -/
  short : text.length < maxSafeInteger

/-- One refusal, at the source position that caused it. -/
structure Diagnostic where
  file : JsString
  line : ℕ
  column : ℕ
  klass : JsString
  found : JsString
  use : JsString
  because : JsString
deriving DecidableEq

def Report.diagnostic (r : Report) : Diagnostic :=
  let at' := positionAt (lineStarts r.text) r.start
  ⟨r.file, at'.1, at'.2, r.klass, r.found, r.use, r.because⟩

/-- `Klass reads X. Use Y; because Z.` -/
def Diagnostic.sentence (d : Diagnostic) : JsString :=
  d.klass ++ js " reads " ++ d.found ++ js ". Use " ++ d.use ++ js "; " ++ d.because ++ js "."

def formatDiagnostic (d : Diagnostic) : JsString :=
  d.file ++ js ":" ++ spelled d.line ++ js ":" ++ spelled d.column ++ js ": " ++ d.sentence

inductive BundleErrorCode where
  | sourceUnreadable
  | parseFailed
  | tsconfigMissing
  | tscUnavailable
  | tscTimeout
  | tscFailed
  | loweredModuleMissing
  | chunkSplit
  | duplicateId
  | unknownScript
deriving DecidableEq

inductive ToolchainError where
  | determinism (message : JsString) (diagnostics : List Diagnostic)
  | bundle (code : BundleErrorCode) (message : JsString)

/-- What `assertDeterminism` throws. -/
def determinismError (diagnostics : List Diagnostic) : ToolchainError :=
  let lines := (js "\n").intercalate (diagnostics.map fun d => js "  " ++ formatDiagnostic d)
  .determinism
    (spelled diagnostics.length ++ js " determinism " ++
      (if diagnostics.length = 1 then js "refusal" else js "refusals") ++ js ":\n" ++ lines)
    diagnostics

/-! ### What the compiler printed -/

/-- White space and line terminators. -/
def isSpace (u : UInt16) : Bool :=
  (0x09 ≤ u && u ≤ 0x0d) || u = 0x20 || u = 0xa0 || u = 0x1680 || (0x2000 ≤ u && u ≤ 0x200a) ||
    u = 0x2028 || u = 0x2029 || u = 0x202f || u = 0x205f || u = 0x3000 || u = 0xfeff

def trim (s : JsString) : JsString := ((s.dropWhile isSpace).reverse.dropWhile isSpace).reverse

/-- What `lowerScripts` throws when `tsc` ran and reported errors. -/
def tscError (tsconfig output : JsString) : ToolchainError :=
  .bundle .tscFailed (js "tsc failed on " ++ tsconfig ++ js ":\n" ++ trim output)

/-- What `.` does not match. -/
def isLineTerminator (u : UInt16) : Bool := u = 0x0a || u = 0x0d || u = 0x2028 || u = 0x2029

def literal (l s : JsString) : Option JsString := if l.isPrefixOf s then some (s.drop l.length) else none

def isDigit (u : UInt16) : Bool := 0x30 ≤ u && u ≤ 0x39

/-- `(\d+)`, as the number it names. -/
def digits (s : JsString) : Option (ℕ × JsString) :=
  let run := s.takeWhile isDigit
  if run = [] then none else some (digitsValue (run.map fun u => u.toNat - 0x30), s.dropWhile isDigit)

def severity (s : JsString) : Option (Severity × JsString) :=
  ((literal (js "error") s).map fun s => (.error, s)).or ((literal (js "warning") s).map fun s => (.warning, s))

/-- `(.+)$`. -/
def toTheEnd (s : JsString) : Option JsString := if s ≠ [] ∧ s.all (fun u => !isLineTerminator u) then some s else none

/-- The rest of the pattern, from the parenthesis on: line, column, severity and message. -/
def positioned (s : JsString) : Option (ℕ × ℕ × Severity × JsString) := do
  let s ← literal (js "(") s
  let (line, s) ← digits s
  let s ← literal (js ",") s
  let (column, s) ← digits s
  let s ← literal (js "): ") s
  let (severity, s) ← severity s
  let s ← literal (js " TS") s
  let (_, s) ← digits s
  let s ← literal (js ": ") s
  let message ← toTheEnd s
  return (line, column, severity, message)

/-- `TS_ERROR`: the file is as short as lets the rest match, and at least a unit long. -/
def tsError (file : JsString) : JsString → Option (JsString × ℕ × ℕ × Severity × JsString)
  | [] => none
  | u :: s =>
    if isLineTerminator u then none
    else
      match positioned s with
      | some found => some (file ++ [u], found)
      | none => tsError (file ++ [u]) s

section Compile

variable (relative : JsString → JsString)

/-- The compiler's own lines, positioned.  `relative` is the path of a file from the source root. -/
def typeErrors (output : JsString) : List BuildDiagnostic :=
  (output.splitOn lineFeed).filterMap fun line =>
    (tsError [] (trim line)).map fun (file, line, column, severity, message) =>
      ⟨severity, relative file, line, column, message⟩

inductive Compiled where
  | rejected (message : JsString) (diagnostics : List BuildDiagnostic)
  | unavailable (message : JsString)
deriving DecidableEq

/-- What a refusal from the toolchain settles as. -/
def refusal : ToolchainError → Compiled
  | .determinism message diagnostics =>
    .rejected message (diagnostics.map fun found => ⟨.error, found.file, found.line, found.column, found.sentence⟩)
  | .bundle code message =>
    if code = .tscUnavailable ∨ code = .tscTimeout then .unavailable message
    else .rejected message (if code = .tscFailed then typeErrors relative message else [])

/-! ### Settling -/

/-- What the builder made of its message. -/
inductive Handled where
  | settled
  | retry
deriving DecidableEq

/-- A task's row, as far as a settlement writes it. -/
structure Row where
  status : TaskStatus
  detail : Option TaskDetail
deriving DecidableEq

inductive Answered where
  | ok
  | badRequest
  | conflict
deriving DecidableEq

/-- The status route: what the schema refuses never reaches the row. -/
def route (row : Row) (update : TaskStatusUpdate) : Answered × Row :=
  if !update.accepts then (.badRequest, row)
  else if row.status ∈ LIVE then (.ok, ⟨update.status, some update.detail⟩)
  else (.conflict, row)

/-- `settle` over `httpTasks`: a refusal of the route that is neither a 404 nor a 409 is an outage. -/
def settle (row : Row) (update : TaskStatusUpdate) : Handled × Row :=
  match route row update with
  | (.badRequest, row) => (.retry, row)
  | (_, row) => (.settled, row)

/-- The end of `runBuild`, on the row of a task claimed for the `attempts`th time. -/
def conclude (limit attempts : ℕ) (row : Row) : Compiled → Handled × Row
  | .rejected message diagnostics => settle row ⟨.FAILED, message, some diagnostics⟩
  | .unavailable message => if attempts < limit then (.retry, row) else settle row ⟨.FAILED, message, none⟩

/-- A source that the toolchain refuses: determinism refusals, what a failing `tsc` printed, or another
error that blames the source. -/
inductive Refusal where
  | determinism (reports : List Report) (refused : reports ≠ [])
  | tsc (tsconfig output : JsString)
  | other (code : BundleErrorCode) (message : JsString)
      (blames : code ≠ .tscUnavailable ∧ code ≠ .tscTimeout ∧ code ≠ .tscFailed)

def Refusal.error : Refusal → ToolchainError
  | .determinism reports _ => determinismError (reports.map Report.diagnostic)
  | .tsc tsconfig output => tscError tsconfig output
  | .other code message _ => .bundle code message

/-- What `runBuild` says of it. -/
def Refusal.update (refused : Refusal) : TaskStatusUpdate :=
  match refusal relative refused.error with
  | .rejected message diagnostics => ⟨.FAILED, message, some diagnostics⟩
  | .unavailable message => ⟨.FAILED, message, none⟩

/-! ### What gets through -/

/-- The message, as the toolchain has it. -/
def Refusal.message (refused : Refusal) : JsString :=
  match refused.error with
  | .determinism message _ => message
  | .bundle _ message => message

/-- The message is within the bound of the schema, and every position that a line of the compiler's
gives is one. -/
def Refusal.Fits (refused : Refusal) : Prop :=
  refused.message.length ≤ maxMessage ∧
    match refused with
    | .tsc _ _ => ∀ text ∈ refused.message.splitOn lineFeed, ∀ found ∈ tsError [] (trim text),
        positiveInt found.2.1 = true ∧ positiveInt found.2.2.1 = true
    | _ => True

end Compile

/-! ### A node's position is one -/

theorem length_lineStarts (text : JsString) : (lineStarts text).length ≤ text.length + 1 := by
  rw [lineStarts, List.length_cons, List.length_map]
  exact Nat.succ_le_succ ((List.length_filter_le _ _).trans_eq List.length_range)

/-- The line found starts no later than the offset. -/
theorem lineOf_spec (starts : List ℕ) (offset : ℕ) : ∀ rounds low high, low ≤ high → high < starts.length →
    starts.getD low 0 ≤ offset →
    lineOf starts offset rounds low high < starts.length ∧ starts.getD (lineOf starts offset rounds low high) 0 ≤ offset := by
  intro rounds
  induction rounds with
  | zero => exact fun low high hle hhigh hlow => ⟨hle.trans_lt hhigh, hlow⟩
  | succ rounds ih =>
    intro low high hle hhigh hlow
    rw [lineOf]
    dsimp only
    split_ifs with hlt hmid
    · exact ih _ high (by omega) hhigh hmid
    · exact ih low _ (by omega) (by omega) hlow
    · exact ⟨hle.trans_lt hhigh, hlow⟩

/-- The position of an offset in a text: the column counts from where its line starts. -/
theorem positionAt_spec {text : JsString} {offset : ℕ} (hoffset : offset ≤ text.length) :
    (positionAt (lineStarts text) offset).1 ≤ text.length + 1 ∧
      (positionAt (lineStarts text) offset).2 ≤ text.length + 1 ∧
      ∃ start ∈ lineStarts text, start + (positionAt (lineStarts text) offset).2 = offset + 1 := by
  have hpos : 0 < (lineStarts text).length := by
    rw [lineStarts, List.length_cons]
    exact Nat.succ_pos _
  obtain ⟨hlow, hstart⟩ := lineOf_spec (lineStarts text) offset (lineStarts text).length 0 ((lineStarts text).length - 1)
    (Nat.zero_le _) (Nat.sub_lt hpos Nat.one_pos) (Nat.zero_le _)
  unfold positionAt
  dsimp only
  generalize lineOf (lineStarts text) offset (lineStarts text).length 0 ((lineStarts text).length - 1) = low at hlow hstart ⊢
  have hmem : (lineStarts text).getD low 0 ∈ lineStarts text := by
    rw [List.getD_eq_getElem?_getD, List.getElem?_eq_getElem hlow, Option.getD_some]
    exact List.getElem_mem hlow
  exact ⟨(Nat.succ_le_of_lt hlow).trans (length_lineStarts text), by omega, _, hmem, by omega⟩

theorem Report.accepts (r : Report) : positiveInt r.diagnostic.line = true ∧ positiveInt r.diagnostic.column = true := by
  obtain ⟨hline, hcolumn, -⟩ := positionAt_spec r.start_le
  have hshort := r.short
  unfold positiveInt Report.diagnostic
  simp only [Bool.and_eq_true, decide_eq_true_eq]
  have hone : 0 < (positionAt (lineStarts r.text) r.start).1 ∧ 0 < (positionAt (lineStarts r.text) r.start).2 :=
    ⟨Nat.succ_pos _, Nat.succ_pos _⟩
  exact ⟨⟨hone.1, hline.trans hshort⟩, hone.2, hcolumn.trans hshort⟩

/-! ### What is settled -/

variable (relative : JsString → JsString)

theorem typeErrors_accepts (output : JsString) :
    (typeErrors relative output).all BuildDiagnostic.accepts = true ↔
      ∀ text ∈ output.splitOn lineFeed, ∀ found ∈ tsError [] (trim text),
        positiveInt found.2.1 = true ∧ positiveInt found.2.2.1 = true := by
  rw [List.all_eq_true]
  unfold typeErrors
  constructor
  · intro h text htext found hfound
    have hd := h _ (List.mem_filterMap.mpr ⟨text, htext, by rw [Option.mem_def.mp hfound, Option.map_some]⟩)
    exact Bool.and_eq_true_iff.mp hd
  · intro h d hd
    obtain ⟨text, htext, hmap⟩ := List.mem_filterMap.mp hd
    obtain ⟨found, hfound, rfl⟩ := Option.map_eq_some_iff.mp hmap
    exact Bool.and_eq_true_iff.mpr (h text htext found hfound)

/-- A refusal is rejected with its own message, and with diagnostics whose positions are the ones it
gives. -/
theorem refusal_error (refused : Refusal) : ∃ diagnostics,
    refusal relative refused.error = .rejected refused.message diagnostics ∧
      (diagnostics.all BuildDiagnostic.accepts = true ↔
        match refused with
        | .tsc _ _ => ∀ text ∈ refused.message.splitOn lineFeed, ∀ found ∈ tsError [] (trim text),
            positiveInt found.2.1 = true ∧ positiveInt found.2.2.1 = true
        | _ => True) := by
  cases refused with
  | determinism reports hne =>
    refine ⟨_, rfl, ?_⟩
    dsimp only
    rw [iff_true, List.map_map, List.all_map, List.all_eq_true]
    intro report _
    exact Bool.and_eq_true_iff.mpr report.accepts
  | tsc tsconfig output => exact ⟨_, rfl, typeErrors_accepts relative _⟩
  | other code message hblames =>
    obtain ⟨hunavailable, htimeout, hfailed⟩ := hblames
    refine ⟨[], ?_, iff_of_true rfl trivial⟩
    unfold Refusal.error refusal
    dsimp only
    rw [if_neg (not_or.mpr ⟨hunavailable, htimeout⟩), if_neg hfailed]
    rfl

theorem update_accepts_iff (refused : Refusal) : (refused.update relative).accepts = true ↔ refused.Fits := by
  obtain ⟨diagnostics, hrejected, hpositions⟩ := refusal_error relative refused
  unfold Refusal.update Refusal.Fits
  rw [hrejected, ← hpositions]
  unfold TaskStatusUpdate.accepts
  simp

theorem conclude_refused (refused : Refusal) (limit attempts : ℕ) (row : Row) :
    conclude limit attempts row (refusal relative refused.error) = settle row (refused.update relative) := by
  obtain ⟨diagnostics, hrejected, -⟩ := refusal_error relative refused
  unfold Refusal.update
  rw [hrejected]
  rfl

/-- What a settlement makes of a row that is live: the update's own, or nothing when the schema refuses it. -/
theorem settle_of_live {row : Row} (hlive : row.status ∈ LIVE) (update : TaskStatusUpdate) :
    settle row update = if update.accepts = true then (.settled, ⟨update.status, some update.detail⟩) else (.retry, row) := by
  unfold settle route
  cases haccepts : update.accepts with
  | false => rfl
  | true =>
    rw [if_neg (by decide), if_pos hlive, if_pos rfl]

/-- **A refused build is settled as it was refused exactly when the refusal fits**; any other is taken
for an outage, and is compiled again. -/
theorem settled_as_rejected (refused : Refusal) (limit attempts : ℕ) (detail : Option TaskDetail) :
    ((refused.update relative).accepts = true ↔ refused.Fits) ∧
      (conclude limit attempts ⟨.IN_PROGRESS, detail⟩ (refusal relative refused.error) =
          (.settled, ⟨.FAILED, some (refused.update relative).detail⟩) ↔ refused.Fits) ∧
      (conclude limit attempts ⟨.IN_PROGRESS, detail⟩ (refusal relative refused.error) =
          (.retry, ⟨.IN_PROGRESS, detail⟩) ↔ ¬ refused.Fits) := by
  have hstatus : (refused.update relative).status = .FAILED := by
    obtain ⟨diagnostics, hrejected, -⟩ := refusal_error relative refused
    unfold Refusal.update
    rw [hrejected]
  have hlive : (⟨.IN_PROGRESS, detail⟩ : Row).status ∈ LIVE := by
    show TaskStatus.IN_PROGRESS ∈ LIVE
    decide
  rw [conclude_refused, settle_of_live hlive, hstatus, ← update_accepts_iff relative refused]
  cases (refused.update relative).accepts with
  | false => simp
  | true => simp

/-! ### Six reads of a clock -/

def clockRead : Report where
  file := js "player.ts"
  text := js "Date.now()"
  start := 0
  klass := js "Player"
  found := js "Date.now"
  use := js "\x60ctx.dt\x60, and \x60sleep\x60 / \x60every\x60 / \x60after\x60 from @platform/engine"
  because := js "wall-clock time differs on every machine; the tick is the only clock both ends share"
  start_le := Nat.zero_le _
  short := by decide

def sixClockReads : Refusal := .determinism (List.replicate 6 clockRead) (by decide)

theorem length_js (cs : List Char) : (js (String.ofList cs)).length = cs.length := by
  rw [js, String.toList_ofList, List.length_map]

theorem le_length_formatDiagnostic (d : Diagnostic) :
    d.file.length + d.found.length + d.use.length + d.because.length + 16 ≤ (formatDiagnostic d).length := by
  have hreads : (js " reads ").length = 7 := length_js _
  have huse : (js ". Use ").length = 6 := length_js _
  have hbecause : (js "; ").length = 2 := length_js _
  have hend : (js ".").length = 1 := length_js _
  unfold formatDiagnostic Diagnostic.sentence
  simp only [List.length_append]
  omega

/-- Six refusals of a read as long as this one are over the bound. -/
theorem unfit_of_six {r : Report} (hne : List.replicate 6 r ≠ []) (hfound : 8 ≤ r.found.length) (huse : 63 ≤ r.use.length)
    (hbecause : 84 ≤ r.because.length) : ¬ (Refusal.determinism (List.replicate 6 r) hne).Fits := by
  intro h
  have hlong : 171 ≤ (formatDiagnostic r.diagnostic).length := by
    have hle := le_length_formatDiagnostic r.diagnostic
    unfold Report.diagnostic at hle ⊢
    dsimp only at hle ⊢
    omega
  have hfits := h.1
  unfold Refusal.message Refusal.error determinismError maxMessage at hfits
  simp only [List.replicate, List.map_cons, List.map_nil, List.intercalate_cons_cons, List.intercalate_singleton,
    List.length_append] at hfits
  omega

theorem clockRead_long : 8 ≤ clockRead.found.length ∧ 63 ≤ clockRead.use.length ∧ 84 ≤ clockRead.because.length := by
  unfold clockRead
  dsimp only
  rw [length_js, length_js, length_js]
  decide

theorem six_clock_reads_retried :
    (sixClockReads.update id).accepts = false ∧
      conclude 3 1 ⟨.IN_PROGRESS, none⟩ (refusal id sixClockReads.error) = (.retry, ⟨.IN_PROGRESS, none⟩) := by
  have hlong : ¬ sixClockReads.Fits := unfit_of_six _ clockRead_long.1 clockRead_long.2.1 clockRead_long.2.2
  exact ⟨Bool.eq_false_iff.mpr (mt (update_accepts_iff id sixClockReads).mp hlong), by
    rw [conclude_refused, settle_of_live (by decide), if_neg (mt (update_accepts_iff id sixClockReads).mp hlong)]⟩

end Refusals
end Tasks
end Grove
