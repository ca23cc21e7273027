import Grove.Lib.Levels
import Grove.Lib.OrderedMap

/-! # The closure of a template table

`closeTemplates` of `packages/project/src/validate.ts`: a walk of every template's subtree that keeps the heights it
has measured and the path it is on.  The walk goes down only while the path is within the bound, which is what makes
it end.  `measure_spec` is what one call of the walk answers, and `closeTemplates_spec` what the whole does. -/

namespace Grove

/-- Levels a template subtree may nest. -/
def maxTemplateDepth : ℕ := 8

/-- Why a value is not a project manifest, and where in it the fault sits. -/
structure ProjectFormatError where
  path : String
  message : String
deriving DecidableEq

/-- The templates each template hangs beneath itself. -/
abbrev ChildTable := OrderedMap String (List String)

namespace ChildTable

variable (children : ChildTable)

def of (id : String) : List String := (children.get id).getD []

def containsItself (path id : String) : ProjectFormatError := ⟨path, "template \"" ++ id ++ "\" contains itself"⟩

def nestsDeeper (path root : String) : ProjectFormatError :=
  ⟨path, "template \"" ++ root ++ "\" nests deeper than " ++ toString maxTemplateDepth⟩

mutual

/-- The height of a template, with `opened` the path to it and `heights` what is already known. -/
def measure (path root id : String) (opened : List String) (heights : OrderedMap String ℕ) :
    Except ProjectFormatError (ℕ × OrderedMap String ℕ) :=
  if id ∈ opened then .error (containsItself path id)
  else if h : maxTemplateDepth < opened.length + (heights.get id).getD 1 then .error (nestsDeeper path root)
  else
    match hknown : heights.get id with
    | some known => .ok (known, heights)
    | none =>
      have : opened.length < maxTemplateDepth := by
        rw [hknown, Option.getD_none] at h
        omega
      match measureAll path root (children.of id) (opened ++ [id]) heights 0 with
      | .error err => .error err
      | .ok (tallest, heights) => .ok (tallest + 1, heights.set id (tallest + 1))
termination_by (maxTemplateDepth + 1 - opened.length, 0)

/-- The tallest of the templates beneath one. -/
def measureAll (path root : String) (ids opened : List String) (heights : OrderedMap String ℕ) (tallest : ℕ) :
    Except ProjectFormatError (ℕ × OrderedMap String ℕ) :=
  match ids with
  | [] => .ok (tallest, heights)
  | child :: rest =>
    match measure path root child opened heights with
    | .error err => .error err
    | .ok (height, heights) => measureAll path root rest opened heights (if tallest < height then height else tallest)
termination_by (maxTemplateDepth + 1 - opened.length, ids.length + 1)

end

/-- Measures each template from itself. -/
def closeFrom (path : String) : List String → OrderedMap String ℕ → Except ProjectFormatError Unit
  | [], _ => .ok ()
  | id :: rest, heights =>
    match children.measure path id id [] heights with
    | .error err => .error err
    | .ok (_, heights) => closeFrom path rest heights

def closeTemplates (path : String) : Except ProjectFormatError Unit := children.closeFrom path children.keys .empty

/-! ### What is measured -/

/-- One template hangs beneath another. -/
def Hangs (a b : String) : Prop := b ∈ children.of a

/-- Every height kept is the template's own. -/
def Sound (heights : OrderedMap String ℕ) : Prop := ∀ id k, heights.get id = some k → Height children.of k id

/-- What a refusal says of the table. -/
def Faulty (path root : String) (err : ProjectFormatError) : Prop :=
  (∃ id, err = containsItself path id ∧ Relation.TransGen children.Hangs id id) ∨
    err = nestsDeeper path root ∧ Levels children.of (maxTemplateDepth + 1) root

/-- The path from the root down to a template. -/
def Open (root : String) (opened : List String) (id : String) : Prop :=
  (opened ++ [id]).IsChain children.Hangs ∧ (opened ++ [id]).head? = some root

variable {children : ChildTable} {path root id : String} {opened ids : List String} {heights : OrderedMap String ℕ}

/-- What measuring one template answers. -/
def Measured (children : ChildTable) (path root id : String) (opened : List String) :
    Except ProjectFormatError (ℕ × OrderedMap String ℕ) → Prop
  | .error err => children.Faulty path root err
  | .ok (k, heights) => Height children.of k id ∧ opened.length + k ≤ maxTemplateDepth ∧ children.Sound heights

/-- What measuring several answers, from `tallest` on. -/
def MeasuredAll (children : ChildTable) (path root : String) (ids opened : List String) (tallest : ℕ) :
    Except ProjectFormatError (ℕ × OrderedMap String ℕ) → Prop
  | .error err => children.Faulty path root err
  | .ok (k, heights) => children.Sound heights ∧ opened.length + k ≤ maxTemplateDepth ∧ tallest ≤ k ∧
      (∀ b ∈ ids, ∃ j, Height children.of j b ∧ j ≤ k) ∧ (k = tallest ∨ ∃ b ∈ ids, Levels children.of k b)

theorem Sound.set (h : children.Sound heights) {k : ℕ} (hk : Height children.of k id) :
    children.Sound (heights.set id k) := by
  intro id' k' hget
  rw [OrderedMap.get_set] at hget
  split_ifs at hget with hid
  · rw [hid, ← Option.some.inj hget]
    exact hk
  · exact h id' k' hget

theorem Open.under (h : children.Open root opened id) {b : String} (hb : b ∈ children.of id) :
    children.Open root (opened ++ [id]) b := by
  refine ⟨List.isChain_append.mpr ⟨h.1, List.isChain_singleton b, fun x hx y hy => ?_⟩, ?_⟩
  · rw [List.getLast?_concat, Option.mem_some_iff] at hx
    rw [List.head?_cons, Option.mem_some_iff] at hy
    rw [← hx, ← hy]
    exact hb
  · rw [List.head?_append_of_ne_nil _ (by simp)]
    exact h.2

/-- A template that is on the path to it is above itself. -/
theorem Open.cycle (h : children.Open root opened id) (hid : id ∈ opened) :
    Relation.TransGen children.Hangs id id := by
  obtain ⟨before, after, rfl⟩ := List.append_of_mem hid
  have hchain : (id :: (after ++ [id])).IsChain children.Hangs := by
    have hpath := h.1
    rw [List.append_assoc, List.cons_append] at hpath
    exact (List.isChain_append.mp hpath).2.1
  have htrans : (id :: (after ++ [id])).IsChain (Relation.TransGen children.Hangs) :=
    hchain.imp fun _ _ => Relation.TransGen.single
  exact htrans.rel_cons (List.mem_append_right _ List.mem_cons_self)

theorem measureAll_spec (tallest : ℕ)
    (hmeasure : ∀ id heights, children.Sound heights → children.Open root opened id →
      children.Measured path root id opened (children.measure path root id opened heights))
    (hsound : children.Sound heights) (hopen : ∀ b ∈ ids, children.Open root opened b)
    (hbound : opened.length + tallest ≤ maxTemplateDepth) :
    children.MeasuredAll path root ids opened tallest (children.measureAll path root ids opened heights tallest) := by
  induction ids generalizing heights tallest with
  | nil =>
    rw [measureAll]
    exact ⟨hsound, hbound, Nat.le_refl _, by simp, .inl rfl⟩
  | cons b ids ih =>
    rw [measureAll]
    have hb := hmeasure b heights hsound (hopen b List.mem_cons_self)
    cases hres : children.measure path root b opened heights with
    | error err =>
      rw [hres] at hb
      exact hb
    | ok res =>
      obtain ⟨height, heights'⟩ := res
      rw [hres] at hb
      obtain ⟨hheight, hle, hsound'⟩ := hb
      have hmax : opened.length + (if tallest < height then height else tallest) ≤ maxTemplateDepth := by
        split_ifs <;> assumption
      have hrest := ih _ hsound' (fun c hc => hopen c (List.mem_cons_of_mem b hc)) hmax
      simp only
      revert hrest
      cases children.measureAll path root ids opened heights' (if tallest < height then height else tallest) with
      | error err => exact id
      | ok res' =>
        obtain ⟨k, heights''⟩ := res'
        rintro ⟨hs, hk, htall, hall, hsome⟩
        refine ⟨hs, hk, ?_, fun c hc => ?_, ?_⟩
        · split_ifs at htall <;> omega
        · obtain rfl | hc := List.mem_cons.mp hc
          · exact ⟨height, hheight, by split_ifs at htall <;> omega⟩
          · exact hall c hc
        · obtain heq | ⟨c, hc, hlevels⟩ := hsome
          · split_ifs at heq
            · exact .inr ⟨b, List.mem_cons_self, heq ▸ hheight.1⟩
            · exact .inl heq
          · exact .inr ⟨c, List.mem_cons_of_mem b hc, hlevels⟩

/-- **One template.** -/
theorem measure_spec (hsound : children.Sound heights) (hopen : children.Open root opened id) :
    children.Measured path root id opened (children.measure path root id opened heights) := by
  induction hm : maxTemplateDepth + 1 - opened.length using Nat.strong_induction_on generalizing id opened heights with
  | _ m ih =>
    rw [measure]
    split_ifs with hid hdeep
    · exact .inl ⟨id, rfl, hopen.cycle hid⟩
    · -- the path and what is known of this template are a descent from the root
      refine .inr ⟨rfl, ?_⟩
      have hlevels : Levels children.of ((heights.get id).getD 1) id := by
        cases hget : heights.get id with
        | none => exact Levels.one id
        | some k => exact (hsound id k hget).1
      exact (hlevels.of_path hopen.1 hopen.2).mono (by omega) (by omega)
    · split
      next known hknown =>
        rw [hknown, Option.getD_some] at hdeep
        exact ⟨hsound id known hknown, by omega, hsound⟩
      next hknown =>
        rw [hknown, Option.getD_none] at hdeep
        have hbelow := measureAll_spec 0
          (fun b heights hs ho => ih (maxTemplateDepth + 1 - (opened ++ [id]).length)
            (by rw [List.length_append, List.length_singleton]; omega) hs ho rfl)
          hsound (fun b hb => hopen.under hb) (by rw [List.length_append, List.length_singleton]; omega)
        revert hbelow
        cases children.measureAll path root (children.of id) (opened ++ [id]) heights 0 with
        | error err => exact fun hfaulty => hfaulty
        | ok res =>
          obtain ⟨tallest, heights'⟩ := res
          rintro ⟨hs, hk, -, hall, hsome⟩
          rw [List.length_append, List.length_singleton] at hk
          have hheight := Height.of_next hall hsome
          exact ⟨hheight, by omega, hs.set hheight⟩

/-- **The whole table**: a refusal names a fault, and without one no template is higher than the bound. -/
theorem closeTemplates_spec (children : ChildTable) (path : String) :
    match children.closeTemplates path with
    | .error err => ∃ root ∈ children.keys, children.Faulty path root err
    | .ok _ => ∀ id ∈ children.keys, ∃ k, Height children.of k id ∧ k ≤ maxTemplateDepth := by
  have hfrom : ∀ (ids : List String) (heights : OrderedMap String ℕ), children.Sound heights →
      match children.closeFrom path ids heights with
      | .error err => ∃ root ∈ ids, children.Faulty path root err
      | .ok _ => ∀ id ∈ ids, ∃ k, Height children.of k id ∧ k ≤ maxTemplateDepth := by
    intro ids
    induction ids with
    | nil => exact fun _ _ => by simp [closeFrom]
    | cons id ids ih =>
      intro heights hsound
      have hid : children.Measured path id id [] (children.measure path id id [] heights) :=
        measure_spec hsound ⟨List.isChain_singleton id, rfl⟩
      unfold closeFrom
      cases hres : children.measure path id id [] heights with
      | error err =>
        rw [hres] at hid
        exact ⟨id, List.mem_cons_self, hid⟩
      | ok res =>
        obtain ⟨k, heights'⟩ := res
        rw [hres] at hid
        obtain ⟨hheight, hle, hsound'⟩ := hid
        have hrest := ih heights' hsound'
        simp only
        revert hrest
        cases children.closeFrom path ids heights' with
        | error err => exact fun ⟨root, hroot, hfaulty⟩ => ⟨root, List.mem_cons_of_mem id hroot, hfaulty⟩
        | ok _ =>
          intro hall b hb
          obtain rfl | hb := List.mem_cons.mp hb
          · exact ⟨k, hheight, by simpa using hle⟩
          · exact hall b hb
  exact hfrom children.keys .empty fun id k hget => by simp at hget

/-- A template with one beneath it is in the table. -/
theorem mem_keys_of_hangs {a b : String} (h : children.Hangs a b) : a ∈ children.keys := by
  rw [OrderedMap.mem_keys_iff]
  cases hget : children.get a with
  | none =>
    rw [Hangs, of, hget] at h
    cases h
  | some ids => exact ⟨ids, rfl⟩

/-- Refused exactly when some template nests past the bound. -/
theorem refused_iff_levels (children : ChildTable) (path : String) :
    (∃ err, children.closeTemplates path = .error err) ↔
      ∃ id ∈ children.keys, Levels children.of (maxTemplateDepth + 1) id := by
  have hspec := children.closeTemplates_spec path
  constructor
  · rintro ⟨err, herr⟩
    rw [herr] at hspec
    obtain ⟨root, hroot, ⟨id, -, hcycle⟩ | ⟨-, hlevels⟩⟩ := hspec
    · obtain ⟨b, hb, -⟩ := Relation.TransGen.head'_iff.mp hcycle
      exact ⟨id, mem_keys_of_hangs hb, Levels.of_cycle hcycle _⟩
    · exact ⟨root, hroot, hlevels⟩
  · rintro ⟨id, hid, hlevels⟩
    cases hres : children.closeTemplates path with
    | error err => exact ⟨err, rfl⟩
    | ok _ =>
      rw [hres] at hspec
      obtain ⟨k, hk, hle⟩ := hspec id hid
      have := hk.le hlevels
      omega

end ChildTable
end Grove
