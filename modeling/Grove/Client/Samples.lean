import Grove.Client.Bindings
import Grove.Lib.Run

/-! # Axis values and their devices

`BindingTable` of `packages/client/src/bindings.ts` against the devices it reads.  `Device` is what the devices
report, and `AxisRun.step` a raw event, or the resumption of the input, which forgets what was sent and asserts the
axes of the live fold again (`#resumeInput` of `client.ts`).  What an event does to the axes is to take samples, one
after the other (`take`); `resolve_says` reads them off the table. -/

namespace Grove

/-- What the devices report, apart from what was sent of it. -/
structure Device where
  down : List String
  analog : String → ℚ
  cursorX : ℚ
  cursorY : ℚ
  /-- The viewport at the cursor's last report. -/
  viewport : ViewportExtent

namespace Device

def neutral : Device := ⟨[], fun _ => 0, 0, 0, ⟨1, 1⟩⟩

def after (d : Device) (viewport : ViewportExtent) (event : RawInputEvent) : Device :=
  match event with
  | .key .. => { d with down := event.device d.down }
  | .pointer _ _ screenX screenY =>
    { d with down := event.device d.down, cursorX := screenX, cursorY := screenY, viewport := viewport }
  | .pointerMove screenX screenY => { d with cursorX := screenX, cursorY := screenY, viewport := viewport }
  | .axis code value => { d with analog := Function.update d.analog code value }
  | .focusLost => { d with down := [] }

/-- The values by which a binding moves an action's axis, each with its quantum.  A code may be a key and an analog
axis. -/
def source (d : Device) (action : String) : Binding → List (ℚ × ℚ)
  | .button .. => []
  | .axis code a polarity =>
    if a = action then
      [(if code ∈ d.down then polarity.getD 1 else 0, axisQuantum), (d.analog code * polarity.getD 1, axisQuantum)]
    else []
  | .cursorX a => if a = action then [(d.cursorX, axisQuantum * |d.viewport.width|)] else []
  | .cursorY a => if a = action then [(d.cursorY, axisQuantum * |d.viewport.height|)] else []

def sources (d : Device) (bindings : List Binding) (action : String) : List (ℚ × ℚ) :=
  bindings.flatMap (d.source action)

/-- Those that are not neutral. -/
def live (d : Device) (bindings : List Binding) (action : String) : List (ℚ × ℚ) :=
  (d.sources bindings action).filter (fun s => s.1 ≠ 0)

end Device

/-- The value sent is 0 where the device is neutral, and within the quantum of its value where it has one. -/
def SampleTracks (sent : ℚ) : List (ℚ × ℚ) → Prop
  | [] => sent = 0
  | [(value, quantum)] => |value - sent| < quantum
  | _ => True

instance (sent : ℚ) : ∀ live : List (ℚ × ℚ), Decidable (SampleTracks sent live)
  | [] => inferInstanceAs (Decidable (sent = 0))
  | [(value, quantum)] => inferInstanceAs (Decidable (|value - sent| < quantum))
  | _ :: _ :: _ => inferInstanceAs (Decidable True)

/-- The actions that a table drives as axes. -/
def axesOf (bindings : List Binding) : List String :=
  bindings.filterMap fun
    | .button .. => none
    | .axis _ action _ => some action
    | .cursorX action => some action
    | .cursorY action => some action

/-- The last value sent of each axis, after these edges. -/
def sentAfter (edges : List ResolvedEdge) (sent : String → ℚ) : String → ℚ :=
  edges.foldl
    (fun sent e =>
      match e.on, e.value with
      | .hold, some value => Function.update sent e.action value
      | _, _ => sent)
    sent

/-- The axes of a client: the table, the fold, the devices, and the value last sent of each. -/
structure AxisRun where
  table : BindingTable
  actions : ActionStates
  device : Device
  sent : String → ℚ

namespace AxisRun

inductive Event where
  | raw (viewport : ViewportExtent) (event : RawInputEvent)
  /-- Input resumed. -/
  | resume

def start (bindings : List Binding) : AxisRun := ⟨BindingTable.new bindings, createActionStates, .neutral, fun _ => 0⟩

def send (r : AxisRun) (edges : List ResolvedEdge) : AxisRun :=
  { r with actions := edges.foldl ActionStates.applyEdge r.actions, sent := sentAfter edges r.sent }

def step (r : AxisRun) : Event → AxisRun
  | .raw viewport event =>
    let (table, edges) := r.table.resolve viewport event
    { r with table := table, device := r.device.after viewport event }.send edges
  | .resume =>
    { r with table := r.table.forgetSentValues }.send
      (r.actions.axisValues.map fun (x : String × ℚ) => ⟨x.1, .hold, some x.2⟩)

end AxisRun

/-! ### Samples -/

/-- One value of an axis, as the table comes to it. -/
structure Sample where
  action : String
  value : ℚ
  quantum : ℚ

namespace BindingTable

def buttonSample (code : String) (down : Bool) : Binding → List Sample
  | .axis c action polarity => if c = code then [⟨action, if down then polarity.getD 1 else 0, axisQuantum⟩] else []
  | .button .. | .cursorX _ | .cursorY _ => []

def cursorSample (screenX screenY : ℚ) (viewport : ViewportExtent) : Binding → List Sample
  | .cursorX action => [⟨action, screenX, axisQuantum * |viewport.width|⟩]
  | .cursorY action => [⟨action, screenY, axisQuantum * |viewport.height|⟩]
  | .button .. | .axis .. => []

def axisSample (code : String) (value : ℚ) : Binding → List Sample
  | .axis c action polarity => if c = code then [⟨action, value * polarity.getD 1, axisQuantum⟩] else []
  | .button .. | .cursorX _ | .cursorY _ => []

def buttonSamples (t : BindingTable) (code : String) (down : Bool) : List Sample :=
  if decide (code ∈ t.down) = down then [] else t.bindings.flatMap (buttonSample code down)

/-- The samples that an event takes. -/
def samples (t : BindingTable) (viewport : ViewportExtent) : RawInputEvent → List Sample
  | .key code down => t.buttonSamples code down
  | .pointer button down screenX screenY =>
    t.buttonSamples (mouseCode button) down ++ t.bindings.flatMap (cursorSample screenX screenY viewport)
  | .pointerMove screenX screenY => t.bindings.flatMap (cursorSample screenX screenY viewport)
  | .axis code value => t.bindings.flatMap (axisSample code value)
  | .focusLost => t.down.flatMap fun code => t.bindings.flatMap (buttonSample code false)

end BindingTable

namespace Sample

/-- The sample is not sent. -/
def still (s : Sample) (lastSent : OrderedMap String ℚ) : Bool :=
  match lastSent.get s.action with
  | some last => (s.value ≠ 0 ∧ |s.value - last| < s.quantum) ∨ (last = 0 ∧ s.value = 0)
  | none => s.value = 0

/-- What a sample makes of the memory and of what was sent. -/
def take (m : OrderedMap String ℚ × (String → ℚ)) (s : Sample) : OrderedMap String ℚ × (String → ℚ) :=
  if s.still m.1 then m else (m.1.set s.action s.value, Function.update m.2 s.action s.value)

end Sample

namespace BindingTable

/-- A pass of the table takes these samples. -/
structure Says (t : BindingTable) (r : BindingTable × List ResolvedEdge) (samples : List Sample) : Prop where
  bindings : r.1.bindings = t.bindings
  taken : ∀ sent, (r.1.lastSent, sentAfter r.2 sent) = samples.foldl Sample.take (t.lastSent, sent)

variable {t t' : BindingTable} {r r' : BindingTable × List ResolvedEdge} {samples samples' : List Sample}

theorem sentAfter_append (edges edges' : List ResolvedEdge) (sent : String → ℚ) :
    sentAfter (edges ++ edges') sent = sentAfter edges' (sentAfter edges sent) := List.foldl_append

theorem Says.nil (t : BindingTable) : Says t (t, []) [] := ⟨rfl, fun _ => rfl⟩

/-- The codes that are down do not matter to it. -/
theorem Says.congr (h : Says t r samples) (hbindings : t'.bindings = t.bindings) (hlast : t'.lastSent = t.lastSent) :
    Says t' r samples :=
  ⟨h.bindings.trans hbindings.symm, fun sent => hlast ▸ h.taken sent⟩

theorem Says.append (h : Says t r samples) (h' : Says r.1 r' samples') :
    Says t (r'.1, r.2 ++ r'.2) (samples ++ samples') := by
  refine ⟨h'.bindings.trans h.bindings, fun sent => ?_⟩
  rw [List.foldl_append, ← h.taken sent, sentAfter_append]
  exact h'.taken _

theorem axisEdge_says (t : BindingTable) (s : Sample) : Says t (t.axisEdge s.action s.value s.quantum) [s] := by
  refine ⟨(t.axisEdge_sampled s.action s.value s.quantum).1.bindings, fun sent => ?_⟩
  rw [List.foldl_cons, List.foldl_nil]
  unfold axisEdge Sample.take Sample.still
  simp only
  cases t.lastSent.get s.action <;> split_ifs <;> rfl

/-- Where each turn takes its samples, the whole pass takes them all. -/
theorem each_samples {α : Type} {f : BindingTable → α → BindingTable × List ResolvedEdge} {g : α → List Sample}
    (hf : ∀ t x, Says t (f t x) (g x)) : ∀ (l : List α) (t : BindingTable), Says t (each f l t) (l.flatMap g)
  | [], t => Says.nil t
  | x :: l, t => by
    rw [each_cons, List.flatMap_cons]
    exact (hf t x).append (each_samples hf l (f t x).1)

theorem buttonBinding_samples (code : String) (down : Bool) (t : BindingTable) (b : Binding) :
    Says t (buttonBinding code down t b) (buttonSample code down b) := by
  cases b with
  | button c action =>
    by_cases hc : c = code
    · rw [buttonBinding, if_pos hc]
      exact ⟨rfl, fun _ => by cases down <;> rfl⟩
    · rw [buttonBinding, if_neg hc]
      exact Says.nil t
  | axis c action polarity =>
    by_cases hc : c = code
    · rw [buttonBinding, buttonSample, if_pos hc, if_pos hc]
      exact axisEdge_says t ⟨action, _, axisQuantum⟩
    · rw [buttonBinding, buttonSample, if_neg hc, if_neg hc]
      exact Says.nil t
  | cursorX | cursorY => exact Says.nil t

theorem cursor_samples (t : BindingTable) (screenX screenY : ℚ) (viewport : ViewportExtent) :
    Says t (t.cursor screenX screenY viewport) (t.bindings.flatMap (cursorSample screenX screenY viewport)) := by
  refine each_samples (fun t b => ?_) t.bindings t
  cases b with
  | button | axis => exact Says.nil t
  | cursorX action => exact axisEdge_says t ⟨action, screenX, _⟩
  | cursorY action => exact axisEdge_says t ⟨action, screenY, _⟩

theorem button_says (t : BindingTable) (code : String) (down : Bool) :
    Says t (t.button code down) (t.buttonSamples code down) := by
  unfold button buttonSamples
  cases down with
  | true =>
    by_cases hmem : code ∈ t.down
    · simp only [hmem, if_true, decide_true]
      exact Says.nil t
    · simp only [hmem, if_true, if_false, decide_false, Bool.false_eq_true]
      exact (each_samples (buttonBinding_samples code true) t.bindings _).congr rfl rfl
  | false =>
    by_cases hmem : code ∈ t.down
    · simp only [hmem, if_true, if_false, decide_true, Bool.false_eq_true, Bool.true_eq_false]
      exact (each_samples (buttonBinding_samples code false) t.bindings _).congr rfl rfl
    · simp only [hmem, if_true, if_false, decide_false, Bool.false_eq_true]
      exact Says.nil t

/-- Releasing every code of a list that is down. -/
theorem release_says : ∀ {codes : List String} {t : BindingTable}, codes.Nodup → (∀ code ∈ codes, code ∈ t.down) →
    Says t (each (fun t code => t.button code false) codes t)
      (codes.flatMap fun code => t.bindings.flatMap (buttonSample code false))
  | [], t, _, _ => Says.nil t
  | code :: codes, t, hnodup, hdown => by
    obtain ⟨hcode, hnodup⟩ := List.nodup_cons.mp hnodup
    have hmem : code ∈ t.down := hdown code List.mem_cons_self
    obtain ⟨hbindings, hafter, -⟩ := t.button_spec code false
    have hone := t.button_says code false
    rw [buttonSamples, decide_eq_true hmem, if_neg (by simp)] at hone
    have hrest : ∀ c ∈ codes, c ∈ (t.button code false).1.down := by
      intro c hc
      rw [hafter]
      simp only [Bool.false_eq_true, if_false, List.mem_filter, decide_eq_true_eq]
      exact ⟨hdown c (List.mem_cons_of_mem code hc), ne_of_mem_of_not_mem hc hcode⟩
    rw [each_cons, List.flatMap_cons]
    have hmore := release_says hnodup hrest
    rw [hbindings] at hmore
    exact hone.append hmore

/-- **One event takes its samples.** -/
theorem resolve_says (t : BindingTable) (hnodup : t.down.Nodup) (viewport : ViewportExtent) (event : RawInputEvent) :
    Says t (t.resolve viewport event) (t.samples viewport event) := by
  cases event with
  | key code down => exact t.button_says code down
  | pointer button down screenX screenY =>
    have hcursor := (t.button (mouseCode button) down).1.cursor_samples screenX screenY viewport
    rw [(t.button_says (mouseCode button) down).bindings] at hcursor
    exact (t.button_says (mouseCode button) down).append hcursor
  | pointerMove screenX screenY => exact t.cursor_samples screenX screenY viewport
  | axis code value =>
    refine each_samples (fun t b => ?_) t.bindings t
    cases b with
    | button c action => exact Says.nil t
    | axis c action polarity =>
      by_cases hc : c = code
      · rw [axisBinding, axisSample, if_pos hc, if_pos hc]
        exact axisEdge_says t ⟨action, _, axisQuantum⟩
      · rw [axisBinding, axisSample, if_neg hc, if_neg hc]
        exact Says.nil t
    | cursorX | cursorY => exact Says.nil t
  | focusLost => exact release_says hnodup fun _ hcode => hcode

end BindingTable
end Grove
