import Grove.Render.Resolving

/-! # Incremental resolution is full recomposition

Between any two calls, a slot that is not clean is dirty and in use (`Ready`), whatever was moved, hidden
or linked elsewhere; `resolve` then leaves every slot clean, and `resolvedChanged` names the slots whose
resolved values some resolve changed.  A slot that was released and initialised again is named for what
became of it since then only. -/

namespace Grove.Render

open Threads (walk)
open TransformStore (value Clean)

variable {α : Type} [AddMonoid α] [DecidableEq α]
  {s s' : TransformStore α} {F : OrderedForest ℕ} {c i p x : ℕ} {changed : ℕ → Prop}

/-- The calls of a renderer: what it writes is a slot in use. -/
def Proper (F : OrderedForest ℕ) (s : TransformStore α) : Call α → Prop
  | .setPosition index _ => ∀ i, s.has index = some i → i ∈ F.placed
  | .setVisible index _ => ∀ i, s.has index = some i → i ∈ F.placed
  | c => Permitted F s c

/-- The slots whose resolved values a resolve changed since the last drain, after one more call. -/
def noted (call : Call α) (s s' : TransformStore α) (changed : ℕ → Prop) : ℕ → Prop :=
  match call with
  | .resolve => fun i => changed i ∨ s'.value i ≠ s.value i
  | .consumeResolvedDirty => fun _ => False
  | _ => changed

/-- The same, where a slot initialised anew has not changed yet. -/
def notedAnew (call : Call α) (s s' : TransformStore α) (changed : ℕ → Prop) : ℕ → Prop :=
  match call with
  | .initSlot index => fun i => changed i ∧ index.slot? ≠ some i
  | c => noted c s s' changed

inductive Watched (note : Call α → TransformStore α → TransformStore α → (ℕ → Prop) → ℕ → Prop) :
    TransformStore α → OrderedForest ℕ → (ℕ → Prop) → Prop
  | new : Watched note .new .empty fun _ => False
  | call {s s' : TransformStore α} {F : OrderedForest ℕ} {changed : ℕ → Prop} {c : Call α}
      (h : Watched note s F changed) (hok : Proper F s c) (hcall : s.call c = some s') :
      Watched note s' (after F c) (note c s s' changed)

/-- What stands between two calls. -/
structure Ready (s : TransformStore α) (F : OrderedForest ℕ) (changed : ℕ → Prop) : Prop where
  clean : ∀ x, Clean s x ∨ x ∈ s.resolveDirty ∧ x ∈ F.placed
  bounded : ∀ d ∈ s.resolveDirty, d < s.count
  drain : ∀ x, x ∈ s.resolvedChanged ↔ x ∈ F.placed ∧ changed x
  nodup : s.resolvedChanged.Nodup

/-- The fields that hold values. -/
structure SameLanes (s s' : TransformStore α) : Prop where
  pos : s'.pos = s.pos
  visible : s'.visible = s.visible
  value : s'.value = s.value
  resolvedChanged : s'.resolvedChanged = s.resolvedChanged
  count : s'.count = s.count

omit [AddMonoid α] [DecidableEq α]

theorem sameLanes_removeRoot (s : TransformStore α) (i : ℕ) :
    SameLanes s (s.removeRoot i) ∧ (s.removeRoot i).resolveDirty = s.resolveDirty := by
  unfold TransformStore.removeRoot
  cases s.rootAt.get i with
  | none => exact ⟨⟨rfl, rfl, rfl, rfl, rfl⟩, rfl⟩
  | some k =>
    simp only
    split <;> exact ⟨⟨rfl, rfl, rfl, rfl, rfl⟩, rfl⟩

theorem sameLanes_addRoot (s : TransformStore α) (i : ℕ) :
    SameLanes s (s.addRoot i) ∧ (s.addRoot i).resolveDirty = s.resolveDirty := by
  unfold TransformStore.addRoot
  split <;> exact ⟨⟨rfl, rfl, rfl, rfl, rfl⟩, rfl⟩

theorem sameLanes_detach (s : TransformStore α) (c : ℕ) :
    SameLanes s (s.detach c) ∧ (s.detach c).resolveDirty = s.resolveDirty := by
  unfold TransformStore.detach
  cases s.parent c with
  | none =>
    obtain ⟨⟨h₁, h₂, h₃, h₄, h₅⟩, h₆⟩ := sameLanes_removeRoot { s with
      nextSibling := Threads.setAt s.nextSibling (s.prevSibling c) (s.nextSibling c)
      prevSibling := Threads.setAt s.prevSibling (s.nextSibling c) (s.prevSibling c) } c
    exact ⟨⟨h₁, h₂, h₃, h₄, h₅⟩, h₆⟩
  | some p => exact ⟨⟨rfl, rfl, rfl, rfl, rfl⟩, rfl⟩

/-- A slot that took another parent is dirty, and every other resolves as it did. -/
theorem Ready.moved [AddMonoid α] {G : OrderedForest ℕ} (h : Ready s F changed) (hs : Shaped s F)
    (hs' : Shaped s' G) (hlanes : SameLanes s s') (hdirty : s'.resolveDirty = addNew s.resolveDirty c)
    (hparents : ∀ x, x ≠ c → G.parent x = F.parent x) (hplaced : ∀ x, x ∈ G.placed ↔ x ∈ F.placed)
    (hc : c ∈ F.placed) : Ready s' G changed where
  clean := by
    intro x
    obtain rfl | hx := eq_or_ne x c
    · exact .inr ⟨by simp [hdirty], (hplaced x).mpr hc⟩
    · refine (h.clean x).imp (fun hclean => ?_) fun hx' => ⟨by simp [hdirty, hx'.1], (hplaced x).mpr hx'.2⟩
      exact hclean.congr (by rw [hs'.parent_eq, hs.parent_eq, hparents x hx]) (by rw [hlanes.pos])
        (by rw [hlanes.visible]) (by rw [hlanes.value]) fun p _ => by rw [hlanes.value]
  bounded := by
    intro d hd
    rw [hdirty, mem_addNew] at hd
    rw [hlanes.count]
    obtain hd | rfl := hd
    · exact h.bounded d hd
    · exact hs.bounded d hc
  drain := by
    intro x
    rw [hlanes.resolvedChanged, h.drain, hplaced]
  nodup := hlanes.resolvedChanged ▸ h.nodup

/-- Writing a slot's own values makes it dirty. -/
theorem Ready.written [AddMonoid α] (h : Ready s F changed) (hs : Shaped s F) (hi : i ∈ F.placed)
    (hpar : s'.parent = s.parent) (hpos : ∀ x, x ≠ i → s'.pos x = s.pos x)
    (hvis : ∀ x, x ≠ i → s'.visible x = s.visible x) (hvalue : s'.value = s.value)
    (hdirty : s'.resolveDirty = addNew s.resolveDirty i) (hchanged : s'.resolvedChanged = s.resolvedChanged)
    (hcount : s'.count = s.count) : Ready s' F changed where
  clean := by
    intro x
    obtain rfl | hx := eq_or_ne x i
    · exact .inr ⟨by simp [hdirty], hi⟩
    · refine (h.clean x).imp (fun hclean => ?_) fun hx' => ⟨by simp [hdirty, hx'.1], hx'.2⟩
      exact hclean.congr (by rw [hpar]) (hpos x hx) (hvis x hx) (by rw [hvalue]) fun p _ => by rw [hvalue]
  bounded := by
    intro d hd
    rw [hdirty, mem_addNew] at hd
    rw [hcount]
    obtain hd | rfl := hd
    · exact h.bounded d hd
    · exact hs.bounded d hi
  drain := by simpa [hchanged] using h.drain
  nodup := hchanged ▸ h.nodup

theorem Ready.link [AddMonoid α] (h : Ready s F changed) (hs : Shaped s F) {child parent : SlotNumber}
    (hok : Addressed F s child parent) : Ready (s.link child parent) (linked F child parent) changed := by
  have hmem : ∀ {G : OrderedForest ℕ} {c x : ℕ}, c ∈ G.placed →
      (x ∈ G.placed.filter (· ≠ c) ++ [c] ↔ x ∈ G.placed) := by
    intro G c x hc
    obtain rfl | hx := eq_or_ne x c
    · simp [hc]
    · simp [hx]
  obtain ⟨hsame, hF⟩ | ⟨c, hc, hsame, hF⟩ | ⟨c, p, hc, hp, hsame, hF⟩ := hs.link_cases hok
  · rwa [hsame, hF]
  · rw [hsame, hF]
    obtain ⟨⟨h₁, h₂, h₃, h₄, h₅⟩, h₆⟩ := sameLanes_detach s c
    obtain ⟨⟨g₁, g₂, g₃, g₄, g₅⟩, g₆⟩ := sameLanes_addRoot { s.detach c with
      parent := Function.update (s.detach c).parent c none } c
    refine h.moved hs (hs.uproot hc) ⟨g₁.trans h₁, g₂.trans h₂, g₃.trans h₃, g₄.trans h₄, g₅.trans h₅⟩ ?_
      (fun x hx => Function.update_of_ne hx _ _) (fun x => hmem hc) hc
    exact congrArg (addNew · c) (g₆.trans h₆)
  · rw [hsame, hF]
    obtain ⟨⟨h₁, h₂, h₃, h₄, h₅⟩, h₆⟩ := sameLanes_detach s c
    exact h.moved hs (hs.append hc hp) ⟨h₁, h₂, h₃, h₄, h₅⟩ (congrArg (addNew · c) h₆)
      (fun x hx => Function.update_of_ne hx _ _) (fun x => hmem hc) hc

theorem Ready.initSlot [AddMonoid α] (h : Ready s F changed) (hs : Shaped s F) (hi : i ∉ F.placed) :
    Ready (s.initSlot (.whole i)) (F.plant i hi) fun x => changed x ∧ some i ≠ some x := by
  have hs' := hs.initSlot hi
  obtain ⟨⟨h₁, h₂, h₃, h₄, h₅⟩, h₆⟩ := sameLanes_addRoot
    ({ s with count := if s.count ≤ i then i + 1 else s.count }.reset i |>.markMoved i) i
  have hpos : (s.initSlot (.whole i)).pos = Function.update s.pos i 0 := h₁
  have hvis : (s.initSlot (.whole i)).visible = Function.update s.visible i true := h₂
  have hdirty : (s.initSlot (.whole i)).resolveDirty = addNew s.resolveDirty i := h₆
  have hchanged : (s.initSlot (.whole i)).resolvedChanged = s.resolvedChanged := h₄
  have hvalue : ∀ x, (s.initSlot (.whole i)).value x = if x = i then (0, true) else s.value x := by
    intro x
    refine (congrFun h₃ x).trans ?_
    show (Function.update s.resolved i 0 x, Function.update s.resolvedVisible i true x) = _
    obtain rfl | hx := eq_or_ne x i
    · simp
    · simp [hx, value]
  have hpar := OrderedForest.parent_eq_none hi
  refine ⟨fun x => ?_, fun d hd => ?_, fun x => ?_, hchanged ▸ h.nodup⟩
  · obtain rfl | hx := eq_or_ne x i
    · exact .inr ⟨by simp [hdirty], by simp⟩
    · refine (h.clean x).imp (fun hclean => ?_) fun hx' => ⟨by simp [hdirty, hx'.1], by simp [hx'.2]⟩
      refine hclean.congr (by rw [hs'.parent_eq, hs.parent_eq]; rfl) (by rw [hpos, Function.update_of_ne hx])
        (by rw [hvis, Function.update_of_ne hx]) (by rw [hvalue, if_neg hx]) fun p hp => ?_
      have hpi : p ≠ i := by
        rintro rfl
        exact hi (F.closed (hs.parent_eq ▸ hp)).2
      rw [hvalue, if_neg hpi]
  · have hcount : (s.initSlot (.whole i)).count = if s.count ≤ i then i + 1 else s.count := h₅
    rw [hdirty, mem_addNew] at hd
    rw [hcount]
    obtain hd | rfl := hd
    · have := h.bounded d hd
      split <;> omega
    · split <;> omega
  · rw [hchanged, h.drain]
    obtain rfl | hx := eq_or_ne x i
    · simp [hi]
    · simp [hx, hx.symm]

theorem Ready.releaseSlot [AddMonoid α] (h : Ready s F changed) (hs : Shaped s F) {n : SlotNumber}
    (hi : s.has n = some i) (hkids : F.children i = []) :
    Ready (s.releaseSlot n) (F.fell i hkids) changed := by
  have hs' := hs.releaseSlot hi hkids
  obtain ⟨⟨h₁, h₂, h₃, h₄, h₅⟩, h₆⟩ := sameLanes_detach s i
  have hpos : (s.releaseSlot n).pos = Function.update s.pos i 0 ∧
      (s.releaseSlot n).visible = Function.update s.visible i true ∧
      (∀ x, (s.releaseSlot n).value x = if x = i then (0, true) else s.value x) ∧
      (s.releaseSlot n).resolvedChanged = s.resolvedChanged.filter (· ≠ i) ∧
      (s.releaseSlot n).resolveDirty = s.resolveDirty.filter (· ≠ i) ∧ (s.releaseSlot n).count = s.count := by
    obtain ⟨⟨g₁, g₂, g₃, g₄, g₅⟩, g₆⟩ := sameLanes_removeRoot { (s.detach i).reset i with
      flushDirty := ((s.detach i).reset i).flushDirty.filter (· ≠ i)
      resolveDirty := ((s.detach i).reset i).resolveDirty.filter (· ≠ i)
      resolvedChanged := ((s.detach i).reset i).resolvedChanged.filter (· ≠ i) } i
    unfold TransformStore.releaseSlot
    rw [hi]
    refine ⟨g₁.trans (congrArg (fun v : ℕ → Position α => Function.update v i 0) h₁),
      g₂.trans (congrArg (fun v : ℕ → Bool => Function.update v i true) h₂),
      fun x => (congrFun g₃ x).trans ?_, g₄.trans (congrArg (List.filter (· ≠ i)) h₄),
      g₆.trans (congrArg (List.filter (· ≠ i)) h₆), g₅.trans h₅⟩
    show (Function.update (s.detach i).resolved i 0 x, Function.update (s.detach i).resolvedVisible i true x) = _
    obtain rfl | hx := eq_or_ne x i
    · simp
    · simp only [Function.update_of_ne hx, if_neg hx]
      exact congrFun h₃ x
  obtain ⟨hpos, hvis, hvalue, hchanged, hdirty, hcount⟩ := hpos
  refine ⟨fun x => ?_, fun d hd => ?_, fun x => ?_, hchanged ▸ h.nodup.filter _⟩
  · obtain rfl | hx := eq_or_ne x i
    · -- a slot reset and without a parent is clean
      refine .inl ?_
      unfold Clean TransformStore.composed
      simp [hs'.parent_eq, hpos, hvis, hvalue]
    · refine (h.clean x).imp (fun hclean => ?_) fun hx' => ⟨by simp [hdirty, hx, hx'.1], by simp [hx, hx'.2]⟩
      refine hclean.congr (by rw [hs'.parent_eq, hs.parent_eq, OrderedForest.fell_parent,
        Function.update_of_ne hx]) (by rw [hpos, Function.update_of_ne hx])
        (by rw [hvis, Function.update_of_ne hx]) (by rw [hvalue, if_neg hx]) fun p hp => ?_
      have hpi : p ≠ i := by
        rintro rfl
        have := OrderedForest.mem_children.mpr (hs.parent_eq ▸ hp)
        simp [hkids] at this
      rw [hvalue, if_neg hpi]
  · rw [hdirty] at hd
    exact (h.bounded d (List.mem_filter.mp hd).1).trans_eq hcount.symm
  · rw [hchanged, List.mem_filter, h.drain, OrderedForest.fell_placed, List.mem_filter]
    tauto

theorem Ready.clear [AddMonoid α] (h : Ready s F changed) (hs : Shaped s F) : Ready s.clear .empty changed := by
  have hs' := hs.clear
  have hlanes : ∀ x, s.clear.pos x = (if x ∈ List.range s.count then 0 else s.pos x) ∧
      s.clear.visible x = (if x ∈ List.range s.count then true else s.visible x) ∧
      s.clear.resolved x = (if x ∈ List.range s.count then 0 else s.resolved x) ∧
      s.clear.resolvedVisible x = (if x ∈ List.range s.count then true else s.resolvedVisible x) := fun x =>
    ⟨foldl_reset (·.pos) 0 (fun _ _ => rfl) x _ s, foldl_reset (·.visible) true (fun _ _ => rfl) x _ s,
      foldl_reset (·.resolved) 0 (fun _ _ => rfl) x _ s, foldl_reset (·.resolvedVisible) true (fun _ _ => rfl) x _ s⟩
  refine ⟨fun x => .inl ?_, fun d hd => ?_, fun x => ?_, List.nodup_nil⟩
  · obtain ⟨hpos, hvis, hres, hrv⟩ := hlanes x
    have hpar : s.clear.parent x = none := by rw [hs'.parent_eq]; rfl
    unfold Clean TransformStore.composed value
    rw [hpar, hpos, hvis, hres, hrv]
    by_cases hx : x ∈ List.range s.count
    · simp [hx]
    · -- beyond the slots nothing is in use, so the slot was clean
      have hout : x ∉ F.placed := fun hmem => hx (List.mem_range.mpr (hs.bounded x hmem))
      obtain hclean | hdirty := h.clean x
      · unfold Clean TransformStore.composed value at hclean
        rw [(hs.free hout).1] at hclean
        simpa [hx] using hclean
      · exact absurd hdirty.2 hout
  · exact absurd hd (by simp [TransformStore.clear])
  · simp [TransformStore.clear, OrderedForest.empty]

/-- Marking slots dirty, in use or not. -/
theorem Ready.marked [AddMonoid α] : ∀ {l : List ℕ} {s : TransformStore α}, Ready s F changed → (∀ i ∈ l, i < s.count) →
    Ready (l.foldl TransformStore.markDirty s) F changed
  | [], _, h, _ => h
  | i :: l, s, h, hl => by
    have hstep : Ready (s.markDirty i) F changed := by
      have hdirty : ∀ x, x ∈ (s.markDirty i).resolveDirty ↔ x ∈ s.resolveDirty ∨ x = i ∧ s.parent i = none := by
        intro x
        unfold TransformStore.markDirty
        simp only
        split <;> simp [*]
      refine ⟨fun x => ?_, fun d hd => ?_, h.drain, h.nodup⟩
      · exact (h.clean x).imp (fun hclean => hclean.congr rfl rfl rfl rfl fun _ _ => rfl)
          fun hx => ⟨(hdirty x).mpr (.inl hx.1), hx.2⟩
      · obtain hd | ⟨rfl, -⟩ := (hdirty d).mp hd
        · exact h.bounded d hd
        · exact hl d List.mem_cons_self
    exact hstep.marked fun j hj => hl j (List.mem_cons_of_mem i hj)

theorem ready_new [AddMonoid α] : Ready (.new : TransformStore α) .empty fun _ => False where
  clean := fun x => .inl (by simp [Clean, value, TransformStore.composed, TransformStore.new])
  bounded := by simp [TransformStore.new]
  drain := by simp [TransformStore.new]
  nodup := List.nodup_nil

/-! ### One resolve -/

section resolving

variable [AddMonoid α]

/-- A slot nobody uses keeps its values. -/
theorem value_eq_of_free (hs : Shaped s F) (h : Ready s F changed) (hs' : SameTables s s') (hpos : s'.pos = s.pos)
    (hvis : s'.visible = s.visible) (hclean : Clean s' x) (hx : x ∉ F.placed) : s'.value x = s.value x := by
  have hpar := (hs.free hx).1
  have hwas : Clean s x := (h.clean x).resolve_right fun hdirty => hx hdirty.2
  rw [← show s'.composed x = s'.value x from hclean, ← show s.composed x = s.value x from hwas]
  exact composed_congr (by rw [hs'.parent]) (by rw [hpos]) (by rw [hvis]) fun p hp => by simp [hpar] at hp

variable [DecidableEq α]

theorem Ready.resolves (h : Ready s F changed) (hs : Shaped s F) :
    ∃ s', s.resolve = some s' ∧ SameTables s s' ∧ s'.pos = s.pos ∧ s'.visible = s.visible ∧
      s'.visits.Nodup ∧ s'.resolveDirty = [] ∧ (∀ x, Clean s' x) ∧ s'.resolvedChanged.Nodup ∧
      ∀ x, x ∈ s'.resolvedChanged ↔ x ∈ s.resolvedChanged ∨ s'.value x ≠ s.value x := by
  unfold TransformStore.resolve
  have htables : SameTables s { s with visits := [] } := ⟨rfl, rfl, rfl, rfl, rfl, rfl, rfl, rfl⟩
  split
  · next hnil =>
    refine ⟨_, rfl, htables, rfl, rfl, List.nodup_nil, hnil, fun x => ?_, h.nodup, fun x => ?_⟩
    · refine (h.clean x).resolve_right fun hdirty => ?_
      simp [hnil] at hdirty
    · exact (or_iff_left fun hne => hne rfl).symm
  · have hstart : Resolving F { s with visits := [] } { s with visits := [] } s.resolveDirty :=
      ⟨.refl _, rfl, rfl, h.bounded, h.clean, fun d hd => .inl hd, List.nodup_nil, fun v hv => by simp at hv,
        fun _ _ => rfl, fun x => (or_iff_left fun hne => hne rfl).symm, h.nodup⟩
    obtain ⟨t, ht, hend⟩ := hstart.run (htables.shaped hs)
    dsimp only
    rw [ht]
    refine ⟨_, rfl, ?_, hend.pos, hend.visible, hend.once, rfl, fun x => ?_, hend.nodup, hend.changed⟩
    · have hlast : SameTables t { t with resolveDirty := [] } := ⟨rfl, rfl, rfl, rfl, rfl, rfl, rfl, rfl⟩
      exact (htables.trans hend.tables).trans hlast
    · exact (hend.clean x).resolve_right fun hdirty => hend.nothing_left x hdirty.1

theorem Ready.resolve (h : Ready s F changed) (hs : Shaped s F) (hresolve : s.resolve = some s') :
    Ready s' F fun x => changed x ∨ s'.value x ≠ s.value x := by
  obtain ⟨t, ht, htables, hpos, hvis, -, hnil, hclean, hnodup, hchanged⟩ := h.resolves hs
  obtain rfl := Option.some.inj (hresolve.symm.trans ht)
  refine ⟨fun x => .inl (hclean x), by simp [hnil], fun x => ?_, hnodup⟩
  rw [hchanged, h.drain]
  by_cases hx : x ∈ F.placed
  · simp [hx]
  · simp [hx, value_eq_of_free hs h htables hpos hvis (hclean x) hx]

/-! ### Runs -/

/-- One call keeps what stands between two calls. -/
theorem Ready.call (h : Ready s F changed) (hs : Shaped s F) {c : Call α} (hok : Proper F s c)
    (hcall : s.call c = some s') : Ready s' (after F c) (notedAnew c s s' changed) := by
  cases c with
  | initSlot index =>
    obtain rfl := Option.some.inj hcall
    have hnoted : notedAnew (.initSlot index) s (s.initSlot index) changed =
        fun x => changed x ∧ index.slot? ≠ some x := rfl
    rw [hnoted]
    obtain ⟨hslot, hsame, hF⟩ | ⟨i, hi, hslot, hsame, hF⟩ := initSlot_cases s hok
    · rw [hsame, hF, hslot]
      simpa using h
    · rw [hsame, hF, hslot]
      exact h.initSlot hs hi
  | releaseSlot index =>
    obtain rfl := Option.some.inj hcall
    obtain ⟨hsame, hF⟩ | ⟨i, hi, hhas, hF⟩ := hs.releaseSlot_cases hok
    · rw [hsame, hF]
      exact h
    · rw [hF]
      exact h.releaseSlot hs hhas hi
  | setPosition index q =>
    obtain rfl := Option.some.inj hcall
    unfold TransformStore.setPosition
    split
    · exact h
    · next i hi =>
      exact h.written hs (hok i hi) rfl (fun x hx => Function.update_of_ne hx _ _) (fun _ _ => rfl) rfl rfl rfl rfl
  | setVisible index v =>
    obtain rfl := Option.some.inj hcall
    unfold TransformStore.setVisible
    split
    · exact h
    · next i hi =>
      exact h.written hs (hok i hi) rfl (fun _ _ => rfl) (fun x hx => Function.update_of_ne hx _ _) rfl rfl rfl rfl
  | link child parent => exact Option.some.inj hcall ▸ h.link hs hok
  | unlink child =>
    obtain rfl := Option.some.inj hcall
    show Ready (s.unlink child) (unlinked F child) changed
    obtain ⟨hsame, hF⟩ | ⟨hlink, hsame, hF⟩ := hs.unlink_cases child
    · rwa [hsame, hF]
    · rw [hsame, hF]
      exact h.link hs hlink
  | clear => exact Option.some.inj hcall ▸ h.clear hs
  | markFlushDirty index =>
    obtain rfl := Option.some.inj hcall
    unfold TransformStore.markFlushDirty
    split
    · exact h
    · exact ⟨h.clean, h.bounded, h.drain, h.nodup⟩
  | markAllDirty => exact Option.some.inj hcall ▸ h.marked fun i hi => List.mem_range.mp hi
  | resolve => exact h.resolve hs hcall
  | consumeFlushDirty => exact Option.some.inj hcall ▸ ⟨h.clean, h.bounded, h.drain, h.nodup⟩
  | consumeResolvedDirty =>
    obtain rfl := Option.some.inj hcall
    exact ⟨h.clean, h.bounded, fun x => by simp [TransformStore.consumeResolvedDirty, notedAnew, noted],
      List.nodup_nil⟩

omit [AddMonoid α] [DecidableEq α] in
theorem Proper.permitted {c : Call α} (h : Proper F s c) : Permitted F s c := by
  cases c <;> first | exact h | trivial

theorem Watched.ready (h : Watched notedAnew s F changed) : Shaped s F ∧ Ready s F changed := by
  induction h with
  | new => exact ⟨shaped_new, ready_new⟩
  | call _ hok hcall ih => exact ⟨ih.1.call hok.permitted hcall, ih.2.call ih.1 hok hcall⟩

/-- What `resolve` and the drain come to, given the slots changed since the last drain. -/
structure Recomposed (s : TransformStore α) (F : OrderedForest ℕ) (changed : ℕ → Prop) : Prop where
  /-- The position is summed from the root down. -/
  resolve : ∃ s', s.resolve = some s' ∧ s'.parent = s.parent ∧ s'.pos = s.pos ∧ s'.visible = s.visible ∧
    s'.visits.Nodup ∧ ∀ i ∈ F.placed, ∃ path, walk s'.parent s'.count (some i) = some path ∧
      s'.resolved i = (path.reverse.map s'.pos).sum ∧ s'.resolvedVisible i = path.all s'.visible
  drain : (∀ i, i ∈ s.consumeResolvedDirty.1 ↔ i ∈ F.placed ∧ changed i) ∧ s.consumeResolvedDirty.1.Nodup

/-- Whatever was written and linked, a resolve composes each slot at most once and leaves each with the
values of its path, and the drain names the slots that changed. -/
theorem resolve_recomposes (h : Watched notedAnew s F changed) : Recomposed s F changed := by
  obtain ⟨hs, hready⟩ := h.ready
  refine ⟨?_, hready.drain, hready.nodup⟩
  obtain ⟨s', hresolve, htables, hpos, hvis, honce, -, hclean, -⟩ := hready.resolves hs
  refine ⟨s', hresolve, htables.parent, hpos, hvis, honce, fun i hi => ?_⟩
  have hs' := htables.shaped hs
  obtain ⟨path, -, hwalk⟩ := hs'.exists_lineage (hs'.bounded i hi)
  have hpath := hwalk s'.count (Nat.le_refl _)
  exact ⟨path, hpath, value_of_clean hclean hpath⟩

/-- A slot initialised, moved and resolved. -/
theorem moved_recomposed : ∃ F changed, Recomposed
    (((.new : TransformStore ℤ).initSlot 0).setPosition 0 (1, 0, 0)) F changed := by
  refine ⟨_, _, resolve_recomposes (.call (c := .setPosition 0 (1, 0, 0)) (.call (c := .initSlot 0) .new ?_ rfl)
    ?_ rfl)⟩
  · exact fun i _ => by simp [OrderedForest.empty]
  · intro i hi
    obtain rfl : 0 = i := Option.some.inj (has_eq_some.mp hi).1
    exact OrderedForest.mem_placed_enter.mpr (.inr rfl)

/-- Moved, resolved, released and initialised again before a drain: the slot is in use and its values
changed in a resolve since the last drain, and the drain does not name it. -/
theorem reused_slot_undrained : ¬ ∀ (s : TransformStore ℤ) (F : OrderedForest ℕ) (changed : ℕ → Prop),
    Watched noted s F changed → Recomposed s F changed := by
  intro hall
  let s : TransformStore ℤ := (TransformStore.new.initSlot 0).setPosition 0 (1, 0, 0)
  let F : OrderedForest ℕ := OrderedForest.empty.enter 0
  have hused : 0 ∈ F.placed := OrderedForest.mem_placed_enter.mpr (.inr rfl)
  have hrun : Watched noted s F fun _ => False := by
    refine .call (c := .setPosition 0 (1, 0, 0)) (.call (c := .initSlot 0) .new ?_ rfl) ?_ rfl
    · exact fun i _ => by simp [OrderedForest.empty]
    · intro i hi
      obtain rfl : 0 = i := Option.some.inj (has_eq_some.mp hi).1
      exact hused
  obtain ⟨t, ht⟩ := Option.isSome_iff_exists.mp (show s.resolve.isSome = true by decide)
  have hmoved : t.value 0 ≠ s.value 0 := by
    have hvalue : s.resolve.map (·.value 0) = some ((1, 0, 0), true) := by decide
    rw [ht] at hvalue
    rw [show t.value 0 = ((1, 0, 0), true) from Option.some.inj hvalue]
    decide
  have hquiet : ((t.releaseSlot 0).initSlot 0).resolvedChanged = [] := by
    have hlist : s.resolve.map (fun u => ((u.releaseSlot 0).initSlot 0).resolvedChanged) = some [] := by decide
    rw [ht] at hlist
    exact Option.some.inj hlist
  have hleaf : F.children 0 = [] := by
    refine List.eq_nil_iff_forall_not_mem.mpr fun x hx => ?_
    have hplant : F = OrderedForest.empty.plant 0 (by simp [OrderedForest.empty]) := dif_pos _
    have := OrderedForest.mem_children.mp hx
    simp [hplant, OrderedForest.empty] at this
  have hgone : 0 ∉ (F.leave 0).placed := by
    rw [show F.leave 0 = F.fell 0 hleaf from dif_pos hleaf]
    simp
  have hagain : Watched noted ((t.releaseSlot 0).initSlot 0) ((F.leave 0).enter 0)
      fun i => False ∨ t.value i ≠ s.value i := by
    refine .call (c := .initSlot 0) (.call (c := .releaseSlot 0) (.call (c := .resolve) hrun trivial ht) ?_ rfl)
      ?_ rfl
    · intro i hi
      obtain rfl : 0 = i := Option.some.inj hi
      exact hleaf
    · intro i hi
      obtain rfl : 0 = i := Option.some.inj hi
      exact hgone
  have hdrained := ((hall _ _ _ hagain).drain.1 0).mpr
    ⟨OrderedForest.mem_placed_enter.mpr (.inr rfl), .inr hmoved⟩
  rw [show ((t.releaseSlot 0).initSlot 0).consumeResolvedDirty.1 = [] from hquiet] at hdrained
  exact absurd hdrained List.not_mem_nil

end resolving

end Grove.Render
