import Grove.Core.ActionStates

/-! # Device events and action edges

`packages/client/src/bindings.ts`: the table that maps a device code to the actions it drives.
A device reports finite numbers, so a raw event's are rationals. -/

namespace Grove

/-- Raw device events, before action mapping. -/
inductive RawInputEvent where
  | key (code : String) (down : Bool)
  | pointer (button : ℤ) (down : Bool) (screenX screenY : ℚ)
  | pointerMove (screenX screenY : ℚ)
  | axis (code : String) (value : ℚ)
  | focusLost
deriving DecidableEq

/-- The code a mouse button has. -/
def mouseCode (button : ℤ) : String := "mouse:" ++ toString button

namespace RawInputEvent

/-- The codes that are down after the event, by what the device reports alone. -/
def device (codes : List String) : RawInputEvent → List String
  | .key code down => if down then addNew codes code else codes.filter (· ≠ code)
  | .pointer button down _ _ => if down then addNew codes (mouseCode button) else codes.filter (· ≠ mouseCode button)
  | .focusLost => []
  | .pointerMove .. | .axis .. => codes

/-- The code the event lets go of, a lost focus apart. -/
def letsGo : RawInputEvent → Option String
  | .key code down => if down then none else some code
  | .pointer button down _ _ => if down then none else some (mouseCode button)
  | .focusLost | .pointerMove .. | .axis .. => none

end RawInputEvent

inductive Binding where
  | button (code action : String)
  | axis (code action : String) (polarity : Option ℚ)
  | cursorX (action : String)
  | cursorY (action : String)
deriving DecidableEq

/-- One resolved action edge, before it is framed for the wire. -/
abbrev ResolvedEdge := InputAction

structure ViewportExtent where
  width : ℚ
  height : ℚ

/-- Axis deadzone as a fraction of full deflection. -/
def axisQuantum : ℚ := 1 / 64

structure BindingTable where
  bindings : List Binding
  /-- The last value sent per action. -/
  lastSent : OrderedMap String ℚ
  /-- The codes that are down, in the order they went down. -/
  down : List String
deriving DecidableEq

namespace BindingTable

def new (bindings : List Binding) : BindingTable := ⟨bindings, OrderedMap.empty, []⟩

/-- Runs `f` over a list, the table threaded and the edges it gives joined. -/
def each {α : Type} (f : BindingTable → α → BindingTable × List ResolvedEdge) :
    List α → BindingTable → BindingTable × List ResolvedEdge
  | [], t => (t, [])
  | x :: rest, t =>
    let (t, out) := f t x
    let (t, out') := each f rest t
    (t, out ++ out')

theorem each_cons {α : Type} (f : BindingTable → α → BindingTable × List ResolvedEdge) (x : α) (l : List α)
    (t : BindingTable) :
    each f (x :: l) t = ((each f l (f t x).1).1, (f t x).2 ++ (each f l (f t x).1).2) := rfl

variable (t : BindingTable)

/-- Sent when it changes past `quantum`; a return to neutral always is. -/
def axisEdge (action : String) (value quantum : ℚ) : BindingTable × List ResolvedEdge :=
  let still : Bool := match t.lastSent.get action with
    | some last => (value ≠ 0 ∧ |value - last| < quantum) ∨ (last = 0 ∧ value = 0)
    | none => value = 0
  if still then (t, [])
  else ({ t with lastSent := t.lastSent.set action value }, [⟨action, .hold, some value⟩])

/-- What one code's edge does to one binding. -/
def buttonBinding (code : String) (down : Bool) (t : BindingTable) : Binding → BindingTable × List ResolvedEdge
  | .button c action => if c = code then (t, [⟨action, if down then .press else .release, none⟩]) else (t, [])
  | .axis c action polarity =>
    if c = code then t.axisEdge action (if down then polarity.getD 1 else 0) axisQuantum else (t, [])
  | .cursorX _ | .cursorY _ => (t, [])

/-- An auto-repeat is no edge, and neither is the release of a code that is up. -/
def button (code : String) (down : Bool) : BindingTable × List ResolvedEdge :=
  if down then
    if code ∈ t.down then (t, [])
    else each (buttonBinding code true) t.bindings { t with down := t.down ++ [code] }
  else
    if code ∈ t.down then each (buttonBinding code false) t.bindings { t with down := t.down.filter (· ≠ code) }
    else (t, [])

def cursorBinding (screenX screenY : ℚ) (viewport : ViewportExtent) (t : BindingTable) :
    Binding → BindingTable × List ResolvedEdge
  | .cursorX action => t.axisEdge action screenX (axisQuantum * |viewport.width|)
  | .cursorY action => t.axisEdge action screenY (axisQuantum * |viewport.height|)
  | .button .. | .axis .. => (t, [])

def cursor (screenX screenY : ℚ) (viewport : ViewportExtent) : BindingTable × List ResolvedEdge :=
  each (cursorBinding screenX screenY viewport) t.bindings t

def axisBinding (code : String) (value : ℚ) (t : BindingTable) : Binding → BindingTable × List ResolvedEdge
  | .axis c action polarity => if c = code then t.axisEdge action (value * polarity.getD 1) axisQuantum else (t, [])
  | .button .. | .cursorX _ | .cursorY _ => (t, [])

/-- Resolves one raw event to action edges. -/
def resolve (viewport : ViewportExtent) : RawInputEvent → BindingTable × List ResolvedEdge
  | .key code down => t.button code down
  | .pointer button down screenX screenY =>
    let (t, out) := t.button (mouseCode button) down
    let (t, out') := t.cursor screenX screenY viewport
    (t, out ++ out')
  | .pointerMove screenX screenY => t.cursor screenX screenY viewport
  | .axis code value => each (axisBinding code value) t.bindings t
  | .focusLost => each (fun t code => t.button code false) t.down t

/-- Forgets what was sent, keeping the held codes. -/
def forgetSentValues : BindingTable := { t with lastSent := OrderedMap.empty }

/-! ### What the codes that are down drive -/

/-- The actions a code drives as a button. -/
def buttonsOf (bindings : List Binding) (code : String) : List String :=
  bindings.filterMap (fun
    | .button c action => if c = code then some action else none
    | .axis .. | .cursorX _ | .cursorY _ => none)

/-- The actions driven by the codes that are down. -/
def drivenBy (bindings : List Binding) (down : List String) : Set String :=
  {action | ∃ code ∈ down, action ∈ buttonsOf bindings code}

/-- Nothing of the table but what was sent. -/
structure SameCodes (t t' : BindingTable) : Prop where
  bindings : t'.bindings = t.bindings
  down : t'.down = t.down

theorem SameCodes.trans {t t' t'' : BindingTable} (h : SameCodes t t') (h' : SameCodes t' t'') : SameCodes t t'' :=
  ⟨h'.bindings.trans h.bindings, h'.down.trans h.down⟩

theorem axisEdge_sampled (action : String) (value quantum : ℚ) :
    SameCodes t (t.axisEdge action value quantum).1 ∧ Sampled (t.axisEdge action value quantum).2 := by
  unfold axisEdge
  simp only
  split_ifs
  · exact ⟨⟨rfl, rfl⟩, fun _ he => absurd he List.not_mem_nil⟩
  · refine ⟨⟨rfl, rfl⟩, fun e he => ?_⟩
    rw [List.mem_singleton.mp he]

/-- Where each turn only samples, the whole pass does. -/
theorem each_sampled {α : Type} {f : BindingTable → α → BindingTable × List ResolvedEdge}
    (hf : ∀ t x, SameCodes t (f t x).1 ∧ Sampled (f t x).2) : ∀ (l : List α) (t : BindingTable),
    SameCodes t (each f l t).1 ∧ Sampled (each f l t).2
  | [], _ => ⟨⟨rfl, rfl⟩, nofun⟩
  | x :: l, t => by
    obtain ⟨hsame, hedges⟩ := hf t x
    obtain ⟨hsame', hedges'⟩ := each_sampled hf l (f t x).1
    exact ⟨hsame.trans hsame', fun e he => (List.mem_append.mp he).elim (hedges e) (hedges' e)⟩

theorem cursor_sampled (screenX screenY : ℚ) (viewport : ViewportExtent) :
    SameCodes t (t.cursor screenX screenY viewport).1 ∧ Sampled (t.cursor screenX screenY viewport).2 := by
  refine each_sampled (fun t b => ?_) _ t
  unfold cursorBinding
  cases b with
  | cursorX | cursorY => exact t.axisEdge_sampled _ _ _
  | button | axis => exact ⟨⟨rfl, rfl⟩, nofun⟩

/-- A code going down presses what it drives, and going up releases it. -/
theorem each_buttonBinding (code : String) (down : Bool) : ∀ (l : List Binding) (t : BindingTable),
    SameCodes t (each (buttonBinding code down) l t).1 ∧ ∀ held,
      heldAfter (each (buttonBinding code down) l t).2 held =
        if down then held ∪ {a | a ∈ buttonsOf l code} else held \ {a | a ∈ buttonsOf l code}
  | [], t => ⟨⟨rfl, rfl⟩, fun held => by cases down <;> simp [each, buttonsOf]⟩
  | b :: l, t => by
    obtain ⟨hsame', hheld'⟩ := each_buttonBinding code down l (buttonBinding code down t b).1
    have hskip : SameCodes t (buttonBinding code down t b).1 → Sampled (buttonBinding code down t b).2 →
        buttonsOf (b :: l) code = buttonsOf l code → SameCodes t (each (buttonBinding code down) (b :: l) t).1 ∧
          ∀ held, heldAfter (each (buttonBinding code down) (b :: l) t).2 held =
            if down then held ∪ {a | a ∈ buttonsOf (b :: l) code} else held \ {a | a ∈ buttonsOf (b :: l) code} := by
      intro hsame hsampled hbuttons
      refine ⟨hsame.trans hsame', fun held => ?_⟩
      rw [hbuttons, ← hheld', each_cons, heldAfter_append, heldAfter_sampled hsampled]
    cases b with
    | button c action =>
      by_cases hc : c = code
      · have hb : buttonBinding code down t (.button c action) =
            (t, [⟨action, if down then .press else .release, none⟩]) := if_pos hc
        have hbuttons : buttonsOf (.button c action :: l) code = action :: buttonsOf l code := by
          simp [buttonsOf, hc]
        rw [hb] at hsame' hheld'
        refine ⟨?_, fun held => ?_⟩
        · rw [each_cons, hb]
          exact hsame'
        · rw [each_cons, hb, heldAfter_append, hheld', hbuttons, heldAfter_cons, heldAfter_nil]
          cases down
          · ext a
            simp only [InputAction.held, Bool.false_eq_true, if_false, Set.mem_sdiff, Set.mem_ofPred_eq,
              Set.mem_singleton_iff, List.mem_cons]
            tauto
          · ext a
            simp only [InputAction.held, if_true, Set.mem_union, Set.mem_insert_iff, Set.mem_ofPred_eq, List.mem_cons]
            tauto
      · exact hskip (by rw [buttonBinding, if_neg hc]; exact ⟨rfl, rfl⟩)
          (by rw [buttonBinding, if_neg hc]; nofun) (by simp [buttonsOf, hc])
    | axis c action polarity =>
      by_cases hc : c = code
      · have hb := t.axisEdge_sampled action (if down then polarity.getD 1 else 0) axisQuantum
        exact hskip (by rw [buttonBinding, if_pos hc]; exact hb.1) (by rw [buttonBinding, if_pos hc]; exact hb.2)
          (by simp [buttonsOf])
      · exact hskip (by rw [buttonBinding, if_neg hc]; exact ⟨rfl, rfl⟩)
          (by rw [buttonBinding, if_neg hc]; nofun) (by simp [buttonsOf])
    | cursorX | cursorY => exact hskip ⟨rfl, rfl⟩ nofun (by simp [buttonsOf])

/-- One code's edge. -/
theorem button_spec (code : String) (down : Bool) :
    (t.button code down).1.bindings = t.bindings ∧
      (t.button code down).1.down = (if down then addNew t.down code else t.down.filter (· ≠ code)) ∧
        ∀ held, heldAfter (t.button code down).2 held =
          if down then (if code ∈ t.down then held else held ∪ {a | a ∈ buttonsOf t.bindings code})
          else if code ∈ t.down then held \ {a | a ∈ buttonsOf t.bindings code} else held := by
  unfold button
  cases down with
  | true =>
    simp only [if_true]
    by_cases hmem : code ∈ t.down
    · simp only [if_pos hmem]
      exact ⟨trivial, (if_pos hmem).symm, fun _ => rfl⟩
    · obtain ⟨hsame, hheld⟩ := each_buttonBinding code true t.bindings { t with down := t.down ++ [code] }
      simp only [if_neg hmem]
      exact ⟨hsame.bindings, hsame.down.trans (if_neg hmem).symm, hheld⟩
  | false =>
    simp only [Bool.false_eq_true, if_false]
    by_cases hmem : code ∈ t.down
    · obtain ⟨hsame, hheld⟩ := each_buttonBinding code false t.bindings { t with down := t.down.filter (· ≠ code) }
      simp only [if_pos hmem]
      exact ⟨hsame.bindings, hsame.down, hheld⟩
    · simp only [if_neg hmem]
      refine ⟨trivial, (List.filter_eq_self.mpr (fun c hc => ?_)).symm, fun _ => rfl⟩
      rw [decide_eq_true_eq]
      rintro rfl
      exact hmem hc

/-- Releasing a list of codes, one after the other. -/
theorem each_release : ∀ (codes : List String) (t : BindingTable),
    (each (fun t code => t.button code false) codes t).1.bindings = t.bindings ∧
      (each (fun t code => t.button code false) codes t).1.down = t.down.filter (· ∉ codes) ∧
        ∀ held, heldAfter (each (fun t code => t.button code false) codes t).2 held =
          held \ {a | ∃ code ∈ codes, code ∈ t.down ∧ a ∈ buttonsOf t.bindings code}
  | [], t => ⟨rfl, by simp [each], fun held => by simp [each]⟩
  | code :: codes, t => by
    obtain ⟨hbindings, hdown, hheld⟩ := t.button_spec code false
    obtain ⟨hbindings', hdown', hheld'⟩ := each_release codes (t.button code false).1
    simp only [Bool.false_eq_true, if_false] at hdown hheld
    refine ⟨hbindings'.trans hbindings, ?_, fun held => ?_⟩
    · refine hdown'.trans ?_
      rw [hdown, List.filter_filter]
      refine List.filter_congr (fun c _ => ?_)
      simp only [List.mem_cons, not_or, Bool.decide_and, ne_eq, Bool.and_comm]
    · rw [each_cons, heldAfter_append, hheld', hheld, hdown, hbindings]
      ext a
      by_cases hmem : code ∈ t.down
      · simp only [if_pos hmem, Set.mem_sdiff, Set.mem_ofPred_eq, List.mem_filter, decide_eq_true_eq, List.mem_cons]
        constructor
        · rintro ⟨⟨ha, hcode⟩, hrest⟩
          refine ⟨ha, ?_⟩
          rintro ⟨c, hc | hc, hcdown, hcbutton⟩
          · exact hcode (hc ▸ hcbutton)
          · by_cases hceq : c = code
            · exact hcode (hceq ▸ hcbutton)
            · exact hrest ⟨c, hc, ⟨hcdown, hceq⟩, hcbutton⟩
        · rintro ⟨ha, hnone⟩
          refine ⟨⟨ha, fun hbutton => hnone ⟨code, Or.inl rfl, hmem, hbutton⟩⟩, ?_⟩
          rintro ⟨c, hc, ⟨hcdown, -⟩, hcbutton⟩
          exact hnone ⟨c, Or.inr hc, hcdown, hcbutton⟩
      · simp only [if_neg hmem, Set.mem_sdiff, Set.mem_ofPred_eq, List.mem_filter, decide_eq_true_eq, List.mem_cons]
        constructor
        · rintro ⟨ha, hrest⟩
          refine ⟨ha, ?_⟩
          rintro ⟨c, hc | hc, hcdown, hcbutton⟩
          · exact hmem (hc ▸ hcdown)
          · exact hrest ⟨c, hc, ⟨hcdown, fun hceq => hmem (hceq ▸ hcdown)⟩, hcbutton⟩
        · rintro ⟨ha, hnone⟩
          refine ⟨ha, ?_⟩
          rintro ⟨c, hc, ⟨hcdown, -⟩, hcbutton⟩
          exact hnone ⟨c, Or.inr hc, hcdown, hcbutton⟩

/-- The event lets go of one code of an action that another keeps down. -/
def Shared (t : BindingTable) (event : RawInputEvent) : Prop := ∃ code ∈ event.letsGo, code ∈ t.down ∧
  ∃ action ∈ buttonsOf t.bindings code, ∃ code' ∈ t.down, code' ≠ code ∧ action ∈ buttonsOf t.bindings code'

/-- A code's edge moves what is held as it moves what the codes drive. -/
theorem button_driven (code : String) (down : Bool) (hshared : down = false → code ∈ t.down →
      ∀ action ∈ buttonsOf t.bindings code, ∀ code' ∈ t.down, code' ≠ code → action ∉ buttonsOf t.bindings code') :
    heldAfter (t.button code down).2 (drivenBy t.bindings t.down) =
      drivenBy t.bindings (t.button code down).1.down := by
  obtain ⟨-, hdown, hheld⟩ := t.button_spec code down
  rw [hheld, hdown]
  cases down with
  | true =>
    simp only [if_true]
    by_cases hmem : code ∈ t.down
    · rw [if_pos hmem, addNew, if_pos hmem]
    · rw [if_neg hmem, addNew, if_neg hmem]
      ext a
      simp only [drivenBy, Set.mem_union, Set.mem_ofPred_eq, List.mem_append, List.mem_singleton]
      constructor
      · rintro (⟨c, hc, hbutton⟩ | hbutton)
        · exact ⟨c, Or.inl hc, hbutton⟩
        · exact ⟨code, Or.inr rfl, hbutton⟩
      · rintro ⟨c, hc | rfl, hbutton⟩
        · exact Or.inl ⟨c, hc, hbutton⟩
        · exact Or.inr hbutton
  | false =>
    simp only [Bool.false_eq_true, if_false]
    ext a
    by_cases hmem : code ∈ t.down
    · simp only [if_pos hmem, drivenBy, Set.mem_sdiff, Set.mem_ofPred_eq, List.mem_filter, decide_eq_true_eq]
      constructor
      · rintro ⟨⟨c, hc, hbutton⟩, hcode⟩
        exact ⟨c, ⟨hc, fun hceq => hcode (hceq ▸ hbutton)⟩, hbutton⟩
      · rintro ⟨c, ⟨hc, hne⟩, hbutton⟩
        exact ⟨⟨c, hc, hbutton⟩, fun hcode => hshared rfl hmem a hcode c hc hne hbutton⟩
    · simp only [if_neg hmem, drivenBy, Set.mem_ofPred_eq, List.mem_filter, decide_eq_true_eq]
      constructor
      · rintro ⟨c, hc, hbutton⟩
        exact ⟨c, ⟨hc, fun hceq => hmem (hceq ▸ hc)⟩, hbutton⟩
      · rintro ⟨c, ⟨hc, -⟩, hbutton⟩
        exact ⟨c, hc, hbutton⟩

/-- The table keeps the device's truth, and its edges say how what is driven moves. -/
structure Resolves (t : BindingTable) (event : RawInputEvent) (r : BindingTable × List ResolvedEdge) : Prop where
  bindings : r.1.bindings = t.bindings
  down : r.1.down = event.device t.down
  held : ¬ t.Shared event → heldAfter r.2 (drivenBy t.bindings t.down) = drivenBy t.bindings r.1.down

theorem resolve_resolves (viewport : ViewportExtent) (event : RawInputEvent) :
    t.Resolves event (t.resolve viewport event) := by
  have hsampled : ∀ {r : BindingTable × List ResolvedEdge}, SameCodes t r.1 ∧ Sampled r.2 →
      event.device t.down = t.down → t.Resolves event r := by
    intro r hr hdevice
    refine ⟨hr.1.bindings, hr.1.down.trans hdevice.symm, fun _ => ?_⟩
    rw [heldAfter_sampled hr.2, hr.1.down]
  cases event with
  | key code down =>
    obtain ⟨hbindings, hdown, -⟩ := t.button_spec code down
    refine ⟨hbindings, hdown, fun hshared => t.button_driven code down ?_⟩
    rintro rfl hmem action haction code' hcode' hne hbutton
    exact hshared ⟨code, rfl, hmem, action, haction, code', hcode', hne, hbutton⟩
  | pointer button down screenX screenY =>
    obtain ⟨hbindings, hdown, -⟩ := t.button_spec (mouseCode button) down
    obtain ⟨hsame, hcursor⟩ := (t.button (mouseCode button) down).1.cursor_sampled screenX screenY viewport
    refine ⟨hsame.bindings.trans hbindings, hsame.down.trans hdown, fun hshared => ?_⟩
    show heldAfter ((t.button (mouseCode button) down).2 ++
        ((t.button (mouseCode button) down).1.cursor screenX screenY viewport).2) _ =
      drivenBy t.bindings ((t.button (mouseCode button) down).1.cursor screenX screenY viewport).1.down
    rw [heldAfter_append, heldAfter_sampled hcursor, hsame.down]
    refine t.button_driven (mouseCode button) down ?_
    rintro rfl hmem action haction code' hcode' hne hbutton
    exact hshared ⟨mouseCode button, rfl, hmem, action, haction, code', hcode', hne, hbutton⟩
  | pointerMove screenX screenY => exact hsampled (t.cursor_sampled screenX screenY viewport) rfl
  | axis code value =>
    refine hsampled (each_sampled (fun t b => ?_) t.bindings t) rfl
    unfold axisBinding
    cases b with
    | axis c action polarity =>
      simp only
      split_ifs
      · exact t.axisEdge_sampled _ _ _
      · exact ⟨⟨rfl, rfl⟩, nofun⟩
    | button | cursorX | cursorY => exact ⟨⟨rfl, rfl⟩, nofun⟩
  | focusLost =>
    obtain ⟨hbindings, hdown, hheld⟩ := each_release t.down t
    have hempty : t.down.filter (· ∉ t.down) = [] := by
      rw [List.filter_eq_nil_iff]
      intro c hc
      simpa using hc
    refine ⟨hbindings, hdown.trans hempty, fun _ => ?_⟩
    show heldAfter (each (fun t code => t.button code false) t.down t).2 _ =
      drivenBy t.bindings (each (fun t code => t.button code false) t.down t).1.down
    rw [hheld, hdown, hempty]
    ext a
    simp only [drivenBy, Set.mem_sdiff, Set.mem_ofPred_eq, List.not_mem_nil, false_and, exists_false, iff_false,
      not_and, not_not]
    rintro ⟨c, hc, hbutton⟩
    exact ⟨c, hc, hc, hbutton⟩

end BindingTable

end Grove
