import Grove.Client.Samples

/-! # Axis values on the wire track the device

The invariant is that what the table remembers is what was sent (`Remembers`), and `Says` is what one event does to
both.  An event that ends an axis with a neutral sample sends 0, or nothing where nothing is remembered: `Fair` asks
that the device be neutral then, and that a value still out be remembered. -/

namespace Grove

open BindingTable (Says)

/-! ### What the samples of an event are samples of -/

section sources
variable {d : Device} {t : BindingTable} {viewport : ViewportExtent} {event : RawInputEvent} {action : String}

theorem mem_pressed {codes : List String} {code c : String} {down : Bool} :
    c ∈ (if down then addNew codes code else codes.filter (· ≠ code)) ↔ if c = code then down = true else c ∈ codes := by
  cases down <;> by_cases hc : c = code <;> simp [hc, mem_addNew]

theorem nonneg_source {b : Binding} {s : ℚ × ℚ} (h : s ∈ d.source action b) : 0 ≤ s.2 := by
  have hquantum : (0 : ℚ) ≤ axisQuantum := by norm_num [axisQuantum]
  cases b with
  | button c a => cases h
  | axis c a polarity =>
    by_cases ha : a = action
    · simp only [Device.source, if_pos ha, List.mem_cons, List.not_mem_nil, or_false] at h
      obtain rfl | rfl := h <;> exact hquantum
    · simp [Device.source, ha] at h
  | cursorX a | cursorY a =>
    by_cases ha : a = action
    · simp only [Device.source, if_pos ha, List.mem_singleton] at h
      exact h ▸ mul_nonneg hquantum (abs_nonneg _)
    · simp [Device.source, ha] at h

/-- A key's edge is a sample of each axis it is bound to. -/
theorem mem_buttonSamples {code a : String} {polarity : Option ℚ} {down : Bool}
    (hb : Binding.axis code a polarity ∈ t.bindings) (hedge : decide (code ∈ t.down) ≠ down) :
    (⟨a, if down then polarity.getD 1 else 0, axisQuantum⟩ : Sample) ∈ t.buttonSamples code down := by
  unfold BindingTable.buttonSamples
  rw [if_neg hedge]
  exact List.mem_flatMap.mpr ⟨_, hb, by rw [BindingTable.buttonSample, if_pos rfl]; exact List.mem_cons_self⟩

/-- A key without an edge is as it was. -/
theorem mem_pressed_of_none {code c : String} {a : String} {polarity : Option ℚ} {down : Bool}
    (hb : Binding.axis c a polarity ∈ t.bindings) (hnone : ∀ s ∈ t.buttonSamples code down, s.action ≠ a) :
    c ∈ (if down then addNew t.down code else t.down.filter (· ≠ code)) ↔ c ∈ t.down := by
  rw [mem_pressed]
  split_ifs with hc
  · subst hc
    have hsame : decide (c ∈ t.down) = down := by_contra fun hedge => hnone _ (mem_buttonSamples hb hedge) rfl
    rw [← hsame, decide_eq_true_eq]
  · rfl

theorem source_of_none {b : Binding} (hdown : d.down = t.down) (hb : b ∈ t.bindings)
    (hnone : ∀ s ∈ t.samples viewport event, s.action ≠ action) :
    (d.after viewport event).source action b = d.source action b := by
  cases b with
  | button c a => rfl
  | axis c a polarity =>
    by_cases ha : a = action
    · subst ha
      have hcode : c ∈ (d.after viewport event).down ↔ c ∈ d.down := by
        cases event with
        | key code down =>
          show c ∈ (if down then addNew d.down code else d.down.filter (· ≠ code)) ↔ _
          rw [hdown]
          exact mem_pressed_of_none hb hnone
        | pointer button down screenX screenY =>
          show c ∈ (if down then addNew d.down (mouseCode button) else d.down.filter (· ≠ mouseCode button)) ↔ _
          rw [hdown]
          exact mem_pressed_of_none hb fun s hs => hnone s (List.mem_append_left _ hs)
        | pointerMove screenX screenY => rfl
        | axis code value => rfl
        | focusLost =>
          refine iff_of_false List.not_mem_nil fun hc => ?_
          refine hnone ⟨a, 0, axisQuantum⟩ (List.mem_flatMap.mpr ⟨c, hdown ▸ hc, List.mem_flatMap.mpr ⟨_, hb, ?_⟩⟩) rfl
          rw [BindingTable.buttonSample, if_pos rfl]
          exact List.mem_cons_self
      have hanalog : (d.after viewport event).analog c = d.analog c := by
        cases event with
        | axis code value =>
          refine Function.update_of_ne (fun hc => ?_) _ _
          refine hnone ⟨a, value * polarity.getD 1, axisQuantum⟩ (List.mem_flatMap.mpr ⟨_, hb, ?_⟩) rfl
          rw [BindingTable.axisSample, if_pos hc]
          exact List.mem_cons_self
        | key code down => rfl
        | pointer button down screenX screenY => rfl
        | pointerMove screenX screenY => rfl
        | focusLost => rfl
      simp only [Device.source, if_true, hcode, hanalog]
    · simp only [Device.source, ha, if_false]
  | cursorX a =>
    by_cases ha : a = action
    · subst ha
      cases event with
      | pointer button down screenX screenY =>
        exact absurd rfl (hnone ⟨a, screenX, _⟩ (List.mem_append_right _ (List.mem_flatMap.mpr ⟨_, hb, List.mem_cons_self⟩)))
      | pointerMove screenX screenY =>
        exact absurd rfl (hnone ⟨a, screenX, _⟩ (List.mem_flatMap.mpr ⟨_, hb, List.mem_cons_self⟩))
      | key code down => rfl
      | axis code value => rfl
      | focusLost => rfl
    · simp only [Device.source, ha, if_false]
  | cursorY a =>
    by_cases ha : a = action
    · subst ha
      cases event with
      | pointer button down screenX screenY =>
        exact absurd rfl (hnone ⟨a, screenY, _⟩ (List.mem_append_right _ (List.mem_flatMap.mpr ⟨_, hb, List.mem_cons_self⟩)))
      | pointerMove screenX screenY =>
        exact absurd rfl (hnone ⟨a, screenY, _⟩ (List.mem_flatMap.mpr ⟨_, hb, List.mem_cons_self⟩))
      | key code down => rfl
      | axis code value => rfl
      | focusLost => rfl
    · simp only [Device.source, ha, if_false]

/-- An axis that an event takes no sample of reads as before. -/
theorem sources_of_none (hdown : d.down = t.down) (hnone : ∀ s ∈ t.samples viewport event, s.action ≠ action) :
    (d.after viewport event).sources t.bindings action = d.sources t.bindings action :=
  List.flatMap_congr fun _ hb => source_of_none hdown hb hnone

theorem buttonSample_source {code : String} {down : Bool} {b : Binding} {s : Sample}
    (hcode : code ∈ d.down ↔ down = true) (h : s ∈ BindingTable.buttonSample code down b) :
    (s.value, s.quantum) ∈ d.source s.action b := by
  cases b with
  | axis c a polarity =>
    by_cases hc : c = code
    · subst hc
      rw [BindingTable.buttonSample, if_pos rfl] at h
      obtain rfl := List.mem_singleton.mp h
      simp only [Device.source, if_true, hcode]
      exact List.mem_cons_self
    · rw [BindingTable.buttonSample, if_neg hc] at h
      cases h
  | button | cursorX | cursorY => cases h

theorem cursorSample_source {screenX screenY : ℚ} {b : Binding} {s : Sample}
    (hd : d.cursorX = screenX ∧ d.cursorY = screenY ∧ d.viewport = viewport)
    (h : s ∈ BindingTable.cursorSample screenX screenY viewport b) : (s.value, s.quantum) ∈ d.source s.action b := by
  obtain ⟨rfl, rfl, rfl⟩ := hd
  cases b with
  | axis | button => cases h
  | cursorX | cursorY =>
    obtain rfl := List.mem_singleton.mp h
    simp [Device.source]

theorem buttonSamples_source {code : String} {down : Bool} {s : Sample} (hcode : code ∈ d.down ↔ down = true)
    (h : s ∈ t.buttonSamples code down) : (s.value, s.quantum) ∈ d.sources t.bindings s.action := by
  unfold BindingTable.buttonSamples at h
  split_ifs at h
  · cases h
  · obtain ⟨b, hb, hs⟩ := List.mem_flatMap.mp h
    exact List.mem_flatMap.mpr ⟨b, hb, buttonSample_source hcode hs⟩

/-- Every sample of an event is what its axis reads after it. -/
theorem sample_source {s : Sample} (h : s ∈ t.samples viewport event) :
    (s.value, s.quantum) ∈ (d.after viewport event).sources t.bindings s.action := by
  have hcursor : ∀ {screenX screenY : ℚ} {d : Device}, d.cursorX = screenX ∧ d.cursorY = screenY ∧ d.viewport = viewport →
      s ∈ t.bindings.flatMap (BindingTable.cursorSample screenX screenY viewport) →
        (s.value, s.quantum) ∈ d.sources t.bindings s.action := by
    intro screenX screenY d hd hs
    obtain ⟨b, hb, hs⟩ := List.mem_flatMap.mp hs
    exact List.mem_flatMap.mpr ⟨b, hb, cursorSample_source hd hs⟩
  cases event with
  | key code down => exact buttonSamples_source (mem_pressed.trans (by rw [if_pos rfl])) h
  | pointer button down screenX screenY =>
    obtain h | h := List.mem_append.mp h
    · exact buttonSamples_source (mem_pressed.trans (by rw [if_pos rfl])) h
    · exact hcursor ⟨rfl, rfl, rfl⟩ h
  | pointerMove screenX screenY => exact hcursor ⟨rfl, rfl, rfl⟩ h
  | axis code value =>
    obtain ⟨b, hb, hs⟩ := List.mem_flatMap.mp h
    refine List.mem_flatMap.mpr ⟨b, hb, ?_⟩
    cases b with
    | axis c a polarity =>
      by_cases hc : c = code
      · subst hc
        rw [BindingTable.axisSample, if_pos rfl] at hs
        obtain rfl := List.mem_singleton.mp hs
        simp [Device.source, Device.after]
      · rw [BindingTable.axisSample, if_neg hc] at hs
        cases hs
    | button | cursorX | cursorY => cases hs
  | focusLost =>
    obtain ⟨code, -, hs⟩ := List.mem_flatMap.mp h
    obtain ⟨b, hb, hs⟩ := List.mem_flatMap.mp hs
    exact List.mem_flatMap.mpr ⟨b, hb, buttonSample_source (by simp [Device.after]) hs⟩

end sources

/-! ### What samples make of the memory -/

/-- What is remembered is what was sent. -/
def Remembers (m : OrderedMap String ℚ × (String → ℚ)) : Prop := ∀ action value, m.1.get action = some value →
  m.2 action = value

/-- What the last sample of an axis leaves of it. -/
def LeftBy (action : String) (sent : ℚ) (m : OrderedMap String ℚ × (String → ℚ)) : Option Sample → Prop
  | none => m.2 action = sent
  | some s => (s.value ≠ 0 → |s.value - m.2 action| < s.quantum ∨ m.2 action = s.value) ∧
      (s.value = 0 → m.2 action = 0 ∨ m.1.get action = none)

/-- What samples make of an axis. -/
structure Taken (action : String) (samples : List Sample) (m m' : OrderedMap String ℚ × (String → ℚ)) : Prop where
  remembers : Remembers m'
  forgotten : m'.1.get action = none → m.1.get action = none ∧ m'.2 action = m.2 action
  last : LeftBy action (m.2 action) m' (samples.filter (fun s => s.action = action)).getLast?

theorem still_iff (s : Sample) (lastSent : OrderedMap String ℚ) : s.still lastSent = true ↔
    (∃ last, lastSent.get s.action = some last ∧ (s.value ≠ 0 ∧ |s.value - last| < s.quantum ∨ last = 0 ∧ s.value = 0)) ∨
      lastSent.get s.action = none ∧ s.value = 0 := by
  unfold Sample.still
  cases lastSent.get s.action with
  | none | some => simp

theorem foldl_taken (action : String) (samples : List Sample) {m : OrderedMap String ℚ × (String → ℚ)}
    (hm : Remembers m) : Taken action samples m (samples.foldl Sample.take m) := by
  induction samples using List.reverseRecOn with
  | nil => exact ⟨hm, fun hnone => ⟨hnone, rfl⟩, rfl⟩
  | append_singleton samples s ih =>
    rw [List.foldl_append, List.foldl_cons, List.foldl_nil]
    set m₁ := samples.foldl Sample.take m
    unfold Sample.take
    split_ifs with hstill
    · refine ⟨ih.remembers, ih.forgotten, ?_⟩
      rw [List.filter_append, List.filter_singleton]
      by_cases haction : s.action = action
      · rw [decide_eq_true haction, cond_true, List.getLast?_concat]
        obtain ⟨last, hlast, ⟨hvalue, hnear⟩ | ⟨hzero, hvalue⟩⟩ | ⟨hnone, hvalue⟩ := (still_iff s m₁.1).mp hstill
        · rw [haction] at hlast
          have hsent := ih.remembers action last hlast
          exact ⟨fun _ => .inl (hsent ▸ hnear), fun hneutral => absurd hneutral hvalue⟩
        · rw [haction] at hlast
          exact ⟨fun hne => absurd hvalue hne, fun _ => .inl ((ih.remembers action last hlast).trans hzero)⟩
        · rw [haction] at hnone
          exact ⟨fun hne => absurd hvalue hne, fun _ => .inr hnone⟩
      · rw [decide_eq_false haction, cond_false, List.append_nil]
        exact ih.last
    · refine ⟨fun a value hget => ?_, fun hnone => ?_, ?_⟩
      · rw [OrderedMap.get_set] at hget
        show Function.update m₁.2 s.action s.value a = value
        split_ifs at hget with ha
        · rw [ha, Function.update_self]
          exact Option.some.inj hget
        · rw [Function.update_of_ne ha]
          exact ih.remembers a value hget
      · rw [OrderedMap.get_set] at hnone
        show _ ∧ Function.update m₁.2 s.action s.value action = _
        split_ifs at hnone with ha
        rw [Function.update_of_ne ha]
        exact ih.forgotten hnone
      · rw [List.filter_append, List.filter_singleton]
        by_cases haction : s.action = action
        · have hsent : Function.update m₁.2 s.action s.value action = s.value := by
            rw [haction, Function.update_self]
          rw [decide_eq_true haction, cond_true, List.getLast?_concat]
          exact ⟨fun _ => .inr hsent, fun hzero => .inl (hsent.trans hzero)⟩
        · have hget : (m₁.1.set s.action s.value).get action = m₁.1.get action :=
            OrderedMap.get_set_of_ne _ (Ne.symm haction) _
          have hsent : Function.update m₁.2 s.action s.value action = m₁.2 action :=
            Function.update_of_ne (Ne.symm haction) _ _
          rw [decide_eq_false haction, cond_false, List.append_nil]
          have hlast := ih.last
          revert hlast
          cases (samples.filter fun s => decide (s.action = action)).getLast? with
          | none => exact hsent.trans
          | some s' =>
            unfold LeftBy
            simp only [hget, hsent, imp_self]

/-! ### Runs -/

namespace AxisRun

variable {r : AxisRun}

/-- The last sample that an event takes of an axis. -/
def lastSample (t : BindingTable) (viewport : ViewportExtent) (event : RawInputEvent) (action : String) : Option Sample :=
  ((t.samples viewport event).filter (fun s => s.action = action)).getLast?

/-- What a step must meet.  Where an event leaves an axis with a neutral sample, no single one of its sources is still
deflected, and a value that is out is remembered; a quantum is positive; and a resumption asserts what was sent. -/
def Fair (r : AxisRun) : Event → Prop
  | .raw viewport event => ∀ action ∈ axesOf r.table.bindings,
      (∀ s ∈ (r.device.after viewport event).live r.table.bindings action, s.2 ≠ 0) ∧
        ∀ s ∈ lastSample r.table viewport event action, s.value = 0 →
          ((r.device.after viewport event).live r.table.bindings action).length ≠ 1 ∧
            ((r.device.after viewport event).live r.table.bindings action = [] →
              (r.table.lastSent.get action).isSome ∨ r.sent action = 0)
  | .resume => ∀ action ∈ axesOf r.table.bindings, r.actions.axis action = 0 ∨ r.actions.axis action = r.sent action

instance (r : AxisRun) : ∀ e, Decidable (r.Fair e)
  | .raw _ _ => inferInstanceAs (Decidable (∀ action ∈ axesOf r.table.bindings, _))
  | .resume => inferInstanceAs (Decidable (∀ action ∈ axesOf r.table.bindings, _))

/-- Between two steps. -/
structure Steady (bindings : List Binding) (r : AxisRun) : Prop where
  table : r.table.bindings = bindings
  down : r.device.down = r.table.down
  nodup : r.table.down.Nodup
  remembers : Remembers (r.table.lastSent, r.sent)
  tracks : ∀ action ∈ axesOf bindings, SampleTracks (r.sent action) (r.device.live bindings action)

theorem steady_start (bindings : List Binding) : (start bindings).Steady bindings where
  table := rfl
  down := rfl
  nodup := List.nodup_nil
  remembers := fun _ _ h => by cases h
  tracks := by
    intro action _
    have hnone : Device.neutral.live bindings action = [] := by
      refine List.filter_eq_nil_iff.mpr fun s hs => ?_
      obtain ⟨b, -, hs⟩ := List.mem_flatMap.mp hs
      have hzero : s.1 = 0 := by
        cases b with
        | button c a => cases hs
        | axis c a polarity =>
          unfold Device.source at hs
          simp only [Device.neutral, List.not_mem_nil, if_false, zero_mul] at hs
          split_ifs at hs
          · simp only [List.mem_cons, List.not_mem_nil, or_false] at hs
            obtain rfl | rfl := hs <;> rfl
          · cases hs
        | cursorX a | cursorY a =>
          unfold Device.source at hs
          simp only [Device.neutral] at hs
          split_ifs at hs
          · exact List.mem_singleton.mp hs ▸ rfl
          · cases hs
      simp [hzero]
    show SampleTracks 0 (Device.neutral.live bindings action)
    rw [hnone]
    rfl

/-- **One event.** -/
theorem Steady.raw {bindings : List Binding} (h : r.Steady bindings) {viewport : ViewportExtent} {event : RawInputEvent}
    (hfair : r.Fair (.raw viewport event)) : (r.step (.raw viewport event)).Steady bindings := by
  have hsays := r.table.resolve_says h.nodup viewport event
  have hresolves := r.table.resolve_resolves viewport event
  have hstep : ((r.step (.raw viewport event)).table.lastSent, (r.step (.raw viewport event)).sent) =
      (r.table.samples viewport event).foldl Sample.take (r.table.lastSent, r.sent) := hsays.taken r.sent
  have hdown : (r.device.after viewport event).down = event.device r.device.down := by
    cases event <;> rfl
  refine ⟨hresolves.bindings.trans h.table, ?_, ?_, ?_, fun action haction => ?_⟩
  · show (r.device.after viewport event).down = (r.table.resolve viewport event).1.down
    rw [hresolves.down, hdown, h.down]
  · show (r.table.resolve viewport event).1.down.Nodup
    rw [hresolves.down]
    cases event with
    | key code down =>
      unfold RawInputEvent.device
      simp only
      split_ifs
      · exact nodup_addNew h.nodup code
      · exact h.nodup.filter _
    | pointer button down screenX screenY =>
      unfold RawInputEvent.device
      simp only
      split_ifs
      · exact nodup_addNew h.nodup _
      · exact h.nodup.filter _
    | pointerMove | axis => exact h.nodup
    | focusLost => exact List.nodup_nil
  · rw [hstep]
    exact (foldl_taken "" _ h.remembers).remembers
  · have htaken := foldl_taken action (r.table.samples viewport event) h.remembers
    rw [← hstep] at htaken
    rw [← h.table] at haction
    obtain ⟨hquantum, hneutral⟩ := hfair action haction
    have hbefore := h.tracks action (h.table ▸ haction)
    rw [← h.table] at hbefore ⊢
    show SampleTracks ((r.step (.raw viewport event)).sent action) ((r.device.after viewport event).live r.table.bindings action)
    have hlast := htaken.last
    cases hsample : lastSample r.table viewport event action with
    | none =>
      -- no sample of this axis: it reads as before, and nothing was sent of it
      rw [show ((r.table.samples viewport event).filter fun s => decide (s.action = action)).getLast? = none from hsample]
        at hlast
      have hnone : ∀ s ∈ r.table.samples viewport event, s.action ≠ action := by
        intro s hs heq
        have := List.getLast?_eq_none_iff.mp hsample
        exact List.ne_nil_of_mem (List.mem_filter.mpr ⟨hs, decide_eq_true heq⟩) this
      have hsame : (r.device.after viewport event).live r.table.bindings action = r.device.live r.table.bindings action := by
        unfold Device.live
        rw [sources_of_none h.down hnone]
      rw [hsame, show (r.step (.raw viewport event)).sent action = r.sent action from hlast]
      exact hbefore
    | some s =>
      rw [show ((r.table.samples viewport event).filter fun s => decide (s.action = action)).getLast? = some s from hsample]
        at hlast
      have hmem := List.mem_filter.mp (List.mem_of_getLast? hsample)
      have hsaction : s.action = action := of_decide_eq_true hmem.2
      by_cases hzero : s.value = 0
      · obtain ⟨hlone, hknown⟩ := hneutral s (by rw [hsample]; rfl) hzero
        cases hlive : (r.device.after viewport event).live r.table.bindings action with
        | nil =>
          obtain hsent | hforgot := hlast.2 hzero
          · exact hsent
          · obtain ⟨hbefore, hsame⟩ := htaken.forgotten hforgot
            refine hsame.trans ((hknown hlive).resolve_left fun hsome => ?_)
            rw [show r.table.lastSent.get action = none from hbefore] at hsome
            cases hsome
        | cons s₁ rest =>
          cases rest with
          | nil =>
            rw [hlive] at hlone
            exact absurd rfl hlone
          | cons s₂ rest => trivial
      · have hin : (s.value, s.quantum) ∈ (r.device.after viewport event).live r.table.bindings action := by
          have hsource := sample_source (d := r.device) hmem.1
          rw [hsaction] at hsource
          exact List.mem_filter.mpr ⟨hsource, by simpa using hzero⟩
        cases hlive : (r.device.after viewport event).live r.table.bindings action with
        | nil =>
          rw [hlive] at hin
          cases hin
        | cons s₁ rest =>
          cases rest with
          | nil =>
            rw [hlive] at hin
            obtain rfl := List.mem_singleton.mp hin
            obtain hnear | heq := hlast.1 hzero
            · exact hnear
            · show |s.value - (r.step (.raw viewport event)).sent action| < s.quantum
              rw [show (r.step (.raw viewport event)).sent action = s.value from heq, sub_self, abs_zero]
              have hsome := hquantum (s.value, s.quantum) (by rw [hlive]; exact List.mem_cons_self)
              obtain ⟨b, -, hb⟩ := List.mem_flatMap.mp (List.mem_filter.mp (hlive ▸ List.mem_cons_self)).1
              exact lt_of_le_of_ne (nonneg_source hb) (Ne.symm hsome)
          | cons s₂ rest => trivial

/-- The last value asserted of an axis, or what was sent of it. -/
theorem sentAfter_axes : ∀ {axes : List (String × ℚ)} {sent : String → ℚ} {action : String},
    (∀ value, (action, value) ∈ axes → value = sent action) →
      sentAfter (axes.map fun (x : String × ℚ) => ⟨x.1, .hold, some x.2⟩) sent action = sent action
  | [], _, _, _ => rfl
  | (a, value) :: axes, sent, action, hall => by
    have hsent : Function.update sent a value action = sent action := by
      by_cases ha : action = a
      · subst ha
        rw [Function.update_self]
        exact hall value List.mem_cons_self
      · exact Function.update_of_ne ha _ _
    show sentAfter (axes.map fun (x : String × ℚ) => ⟨x.1, .hold, some x.2⟩) (Function.update sent a value) action = _
    rw [sentAfter_axes fun v hv => (hall v (List.mem_cons_of_mem _ hv)).trans hsent.symm, hsent]

/-- **The input resumes**: nothing is remembered, and what is asserted was sent. -/
theorem Steady.resume {bindings : List Binding} (h : r.Steady bindings) (hfair : r.Fair .resume) :
    (r.step .resume).Steady bindings where
  table := h.table
  down := h.down
  nodup := h.nodup
  remembers := fun _ _ hget => by cases hget
  tracks := by
    intro action haction
    have hsent : (r.step .resume).sent action = r.sent action := by
      refine sentAfter_axes fun value hvalue => ?_
      obtain ⟨hentry, hne⟩ := List.mem_filter.mp hvalue
      have haxis : r.actions.axis action = value := by
        unfold ActionStates.axis
        rw [(OrderedMap.mem_entries_iff _).mp hentry]
        rfl
      obtain hzero | heq := hfair action (h.table.symm ▸ haction)
      · rw [haxis] at hzero
        simp [hzero] at hne
      · exact haxis.symm.trans heq
    show SampleTracks ((r.step .resume).sent action) (r.device.live bindings action)
    rw [hsent]
    exact h.tracks action haction

/-- **Axis values on the wire track the device** while every step is fair. -/
theorem axes_track (bindings : List Binding) (events : List Event) (h : Meets step Fair (start bindings) events) :
    ∀ action ∈ axesOf bindings, SampleTracks ((exec step (start bindings) events).sent action)
      ((exec step (start bindings) events).device.live bindings action) := by
  have hsteady : (exec step (start bindings) events).Steady bindings := by
    refine Meets.invariant (fun r e hr he => ?_) (steady_start bindings) h
    cases e with
    | raw viewport event => exact hr.raw he
    | resume => exact hr.resume he
  exact hsteady.tracks

/-- Two keys of one axis. -/
def keyPair : List Binding := [.axis "KeyA" "moveX" (some (-1)), .axis "KeyD" "moveX" (some 1)]

def pressed (code : String) (down : Bool) : Event := .raw ⟨640, 480⟩ (.key code down)

/-- One key and then the other, with a resumption while neither is down. -/
theorem axes_track_keys :
    let events := [pressed "KeyA" true, pressed "KeyA" false, .resume, pressed "KeyD" true]
    Meets step Fair (start keyPair) events ∧ ∀ action ∈ axesOf keyPair,
      SampleTracks ((exec step (start keyPair) events).sent action)
        ((exec step (start keyPair) events).device.live keyPair action) := by
  intro events
  have h : Meets step Fair (start keyPair) events := by decide +kernel
  exact ⟨h, axes_track keyPair events h⟩

/-- A key that is let go of after a resumption leaves its axis deflected. -/
theorem released_after_resumption : ¬ ∀ (bindings : List Binding) (events : List Event), ∀ action ∈ axesOf bindings,
    SampleTracks ((exec step (start bindings) events).sent action)
      ((exec step (start bindings) events).device.live bindings action) := by
  intro h
  have hstuck := h keyPair [pressed "KeyA" true, .resume, pressed "KeyA" false] "moveX" (by decide)
  revert hstuck
  decide +kernel

end AxisRun
end Grove
