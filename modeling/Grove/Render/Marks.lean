import Grove.Render.Sound

/-! # What a write marks

A slot's own values and the position it resolves to change only with a mark: `Keeps t t' j` says that `j` is marked
afterwards, or reads as it did and has lost no mark.  Every setter, link and resolve of the transforms keeps every
slot so. -/

namespace Grove.Render

variable {s s' : TransformStore ℚ} {F : OrderedForest ℕ} {surf : ℕ → Option Surface} {i j : ℕ}

/-- What the marks and the resolved positions of a store are. -/
structure SameMarks (s s' : TransformStore ℚ) : Prop where
  count : s'.count = s.count
  resolved : s'.resolved = s.resolved
  flushDirty : ∀ j, j ∈ s.flushDirty → j ∈ s'.flushDirty
  resolvedChanged : s'.resolvedChanged = s.resolvedChanged

namespace SameMarks

theorem refl (s : TransformStore ℚ) : SameMarks s s := ⟨rfl, rfl, fun _ h => h, rfl⟩

theorem trans {s'' : TransformStore ℚ} (h : SameMarks s s') (h' : SameMarks s' s'') : SameMarks s s'' :=
  ⟨h'.count.trans h.count, h'.resolved.trans h.resolved, fun j hj => h'.flushDirty j (h.flushDirty j hj),
    h'.resolvedChanged.trans h.resolvedChanged⟩

theorem of_lanes (h : SameLanes s s') (hflush : s'.flushDirty = s.flushDirty) : SameMarks s s' :=
  ⟨h.count, funext fun j => congrArg Prod.fst (congrFun h.value j), fun _ hj => hflush ▸ hj, h.resolvedChanged⟩

theorem markMoved (s : TransformStore ℚ) (i : ℕ) : SameMarks s (s.markMoved i) :=
  ⟨rfl, rfl, fun _ hj => mem_addNew.mpr (.inl hj), rfl⟩

theorem markFlushDirty (s : TransformStore ℚ) (n : SlotNumber) : SameMarks s (s.markFlushDirty n) := by
  unfold TransformStore.markFlushDirty
  split
  · exact refl s
  · exact ⟨rfl, rfl, fun _ hj => mem_addNew.mpr (.inl hj), rfl⟩

theorem setPosition (s : TransformStore ℚ) (n : SlotNumber) (p : Position ℚ) : SameMarks s (s.setPosition n p) := by
  unfold TransformStore.setPosition
  split
  · exact refl s
  · exact ⟨rfl, rfl, fun _ hj => mem_addNew.mpr (.inl hj), rfl⟩

theorem setVisible (s : TransformStore ℚ) (n : SlotNumber) (v : Bool) : SameMarks s (s.setVisible n v) := by
  unfold TransformStore.setVisible
  split
  · exact refl s
  · exact ⟨rfl, rfl, fun _ hj => mem_addNew.mpr (.inl hj), rfl⟩

theorem flushDirty_removeRoot (s : TransformStore ℚ) (i : ℕ) : (s.removeRoot i).flushDirty = s.flushDirty := by
  unfold TransformStore.removeRoot
  cases s.rootAt.get i with
  | none => rfl
  | some k =>
    simp only
    split <;> rfl

theorem removeRoot (s : TransformStore ℚ) (i : ℕ) : SameMarks s (s.removeRoot i) :=
  of_lanes (sameLanes_removeRoot s i).1 (flushDirty_removeRoot s i)

theorem addRoot (s : TransformStore ℚ) (i : ℕ) : SameMarks s (s.addRoot i) := by
  refine of_lanes (sameLanes_addRoot s i).1 ?_
  unfold TransformStore.addRoot
  split <;> rfl

theorem detach (s : TransformStore ℚ) (i : ℕ) : SameMarks s (s.detach i) := by
  refine of_lanes (sameLanes_detach s i).1 ?_
  unfold TransformStore.detach
  cases s.parent i with
  | none => exact flushDirty_removeRoot _ i
  | some p => rfl

theorem uproot (s : TransformStore ℚ) (i : ℕ) : SameMarks s (s.uproot i) := by
  unfold TransformStore.uproot
  have hdetach := detach s i
  generalize s.detach i = d at hdetach
  have hparent : SameMarks d { d with parent := Function.update d.parent i none } := ⟨rfl, rfl, fun _ hj => hj, rfl⟩
  exact ((hdetach.trans hparent).trans (addRoot _ i)).trans (markMoved _ i)

theorem append (s : TransformStore ℚ) (i p : ℕ) : SameMarks s (s.append i p) := by
  unfold TransformStore.append
  have hdetach := detach s i
  generalize s.detach i = d at hdetach
  exact hdetach.trans ⟨rfl, rfl, fun _ hj => mem_addNew.mpr (.inl hj), rfl⟩

theorem link (s : TransformStore ℚ) (c p : SlotNumber) : SameMarks s (s.link c p) := by
  unfold TransformStore.link
  split
  · exact refl s
  · split
    · exact uproot s _
    · split
      · exact refl s
      · split
        · exact refl s
        · exact append s _ _

theorem unlink (s : TransformStore ℚ) (c : SlotNumber) : SameMarks s (s.unlink c) := by
  unfold TransformStore.unlink
  split
  · exact refl s
  · split
    · exact refl s
    · exact link s _ _

end SameMarks

/-! ### Resolving -/

theorem flushDirty_resolveStack : ∀ {n : ℕ} {stack : List ℕ} {s s' : TransformStore ℚ},
    TransformStore.resolveStack n stack s = some s' → s'.flushDirty = s.flushDirty
  | n, [], s, s', h => by
    cases n <;> exact congrArg TransformStore.flushDirty (Option.some.inj h).symm
  | 0, _ :: _, s, s', h => by cases h
  | n + 1, node :: stack, s, s', h => by
    rw [TransformStore.resolveStack] at h
    split at h
    · cases h
    · exact (flushDirty_resolveStack h).trans rfl

theorem flushDirty_resolveAll : ∀ {l : List ℕ} {s s' : TransformStore ℚ},
    TransformStore.resolveAll l s = some s' → s'.flushDirty = s.flushDirty
  | [], s, s', h => congrArg TransformStore.flushDirty (Option.some.inj h).symm
  | i :: l, s, s', h => by
    rw [TransformStore.resolveAll] at h
    split at h
    · cases h
    · next t ht =>
      rw [flushDirty_resolveAll h]
      unfold TransformStore.resolvePending at ht
      split at ht
      · split at ht
        · cases ht
        · rw [Option.some.inj ht]
        · exact flushDirty_resolveStack ht
      · rw [Option.some.inj ht]

theorem flushDirty_resolve (h : s.resolve = some s') : s'.flushDirty = s.flushDirty := by
  unfold TransformStore.resolve at h
  dsimp only at h
  split at h
  · rw [← Option.some.inj h]
  · obtain ⟨t, ht, hend⟩ := Option.map_eq_some_iff.mp h
    have hflush := flushDirty_resolveAll ht
    rw [← hend]
    exact hflush

/-! ### The transforms -/

namespace Transforms

variable {t t' t'' : Transforms}

/-- The next flush reconsiders the slot. -/
def Marked (t : Transforms) (j : ℕ) : Prop := j ∈ t.store.flushDirty ∨ j ∈ t.store.resolvedChanged

structure Same (t t' : Transforms) (j : ℕ) : Prop where
  lane : t'.laneAt j = t.laneAt j
  resolved : t'.resolvedAt j = t.resolvedAt j
  marked : t.Marked j → t'.Marked j

def Keeps (t t' : Transforms) (j : ℕ) : Prop := t'.Marked j ∨ Same t t' j

theorem Same.refl (t : Transforms) (j : ℕ) : Same t t j := ⟨rfl, rfl, fun h => h⟩

theorem Keeps.refl (t : Transforms) (j : ℕ) : Keeps t t j := .inr (.refl t j)

theorem Keeps.trans (h : Keeps t t' j) (h' : Keeps t' t'' j) : Keeps t t'' j := by
  obtain hmarked | hsame' := h'
  · exact .inl hmarked
  · obtain hmarked | hsame := h
    · exact .inl (hsame'.marked hmarked)
    · exact .inr ⟨hsame'.lane.trans hsame.lane, hsame'.resolved.trans hsame.resolved, hsame'.marked ∘ hsame.marked⟩

theorem keeps_store {s : TransformStore ℚ} (h : SameMarks t.store s) (j : ℕ) : Keeps t { t with store := s } j := by
  refine .inr ⟨?_, ?_, ?_⟩
  · show (if j < s.count then t.lanes j else {}) = _
    rw [h.count]
    rfl
  · show (if j < s.count then s.resolved j else 0) = _
    rw [h.count, h.resolved]
    rfl
  · rintro (hflush | hchanged)
    · exact .inl (h.flushDirty j hflush)
    · exact .inr (h.resolvedChanged ▸ hchanged)

theorem keeps_setPosition (t : Transforms) (i : ℕ) (p : Position ℚ) (j : ℕ) : Keeps t (t.setPosition i p) j :=
  keeps_store (.setPosition t.store _ p) j

theorem keeps_setVisible (t : Transforms) (i : ℕ) (v : Bool) (j : ℕ) : Keeps t (t.setVisible i v) j :=
  keeps_store (.setVisible t.store _ v) j

theorem keeps_link (t : Transforms) (c p j : ℕ) : Keeps t (t.link c p) j := keeps_store (.link t.store _ _) j

theorem keeps_unlink (t : Transforms) (c j : ℕ) : Keeps t (t.unlink c) j := keeps_store (.unlink t.store _) j

theorem marked_markFlushDirty {t : Transforms} (hi : i < t.store.count) : (t.markFlushDirty i).Marked i := by
  refine .inl ?_
  show i ∈ (t.store.markFlushDirty (.whole i)).flushDirty
  unfold TransformStore.markFlushDirty
  rw [has_whole_of_lt hi]
  exact mem_addNew.mpr (.inr rfl)

theorem keeps_write (t : Transforms) (i : ℕ) (f : NodeLanes → NodeLanes) (j : ℕ) : Keeps t (t.write i f) j := by
  unfold write
  split
  · next hi =>
    by_cases hj : j = i
    · subst hj
      exact .inl (marked_markFlushDirty hi)
    · obtain hmarked | hsame := keeps_store (.markFlushDirty t.store (.whole i)) (t := t) j
      · exact .inl hmarked
      · refine .inr ⟨?_, hsame.resolved, hsame.marked⟩
        rw [← hsame.lane]
        exact if_congr Iff.rfl (Function.update_of_ne hj _ _) rfl
  · exact .refl t j

theorem Keeps.marked (h : Keeps t t' j) (hj : t.Marked j) : t'.Marked j := by
  obtain hmarked | hsame := h
  · exact hmarked
  · exact hsame.marked hj

/-- A fresh slot is marked, and no other is touched. -/
theorem initSlot_marks (t : Transforms) (i : ℕ) :
    (t.initSlot i).Marked i ∧ ∀ j, j ≠ i → j < t.store.count → Keeps t (t.initSlot i) j := by
  let s' := { t.store with count := if t.store.count ≤ i then i + 1 else t.store.count }.reset i
  have hroot := SameMarks.addRoot
    { s' with flushDirty := addNew s'.flushDirty i, resolveDirty := addNew s'.resolveDirty i } i
  have hgrown : ∀ j, j < t.store.count → j < (t.initSlot i).store.count := by
    intro j hj
    refine lt_of_lt_of_eq ?_ hroot.count.symm
    show j < if t.store.count ≤ i then i + 1 else t.store.count
    split <;> omega
  refine ⟨.inl (hroot.flushDirty i (mem_addNew.mpr (.inr rfl))), fun j hj hcount => ?_⟩
  have hcount' := hgrown j hcount
  refine .inr ⟨?_, ?_, ?_⟩
  · unfold laneAt
    rw [if_pos hcount', if_pos hcount]
    exact Function.update_of_ne hj _ _
  · unfold resolvedAt
    rw [if_pos hcount', if_pos hcount]
    exact (congrFun hroot.resolved j).trans (Function.update_of_ne hj _ _)
  · rintro (hflush | hchanged)
    · exact .inl (hroot.flushDirty j (mem_addNew.mpr (.inl hflush)))
    · have hkept : j ∈ { s' with
          flushDirty := addNew s'.flushDirty i, resolveDirty := addNew s'.resolveDirty i }.resolvedChanged := hchanged
      rw [← hroot.resolvedChanged] at hkept
      exact .inr hkept

/-- A slot that is released takes nothing of another. -/
theorem same_releaseSlot (t : Transforms) (i : ℕ) (hj : j ≠ i) : Same t (t.releaseSlot i) j := by
  unfold releaseSlot
  split
  · next hi =>
    let s' := (t.store.detach i).reset i
    have hdetach := SameMarks.detach t.store i
    have hroot := SameMarks.removeRoot { s' with
      flushDirty := s'.flushDirty.filter (· ≠ i)
      resolveDirty := s'.resolveDirty.filter (· ≠ i)
      resolvedChanged := s'.resolvedChanged.filter (· ≠ i) } i
    have hstore : t.store.releaseSlot (.whole i) = TransformStore.removeRoot { s' with
      flushDirty := s'.flushDirty.filter (· ≠ i)
      resolveDirty := s'.resolveDirty.filter (· ≠ i)
      resolvedChanged := s'.resolvedChanged.filter (· ≠ i) } i := by
      unfold TransformStore.releaseSlot
      rw [has_whole_of_lt hi]
    rw [hstore]
    have hcount : s'.count = t.store.count := hdetach.count
    refine ⟨?_, ?_, ?_⟩
    · exact if_congr (by rw [hroot.count]; exact hcount ▸ Iff.rfl) (Function.update_of_ne hj _ _) rfl
    · refine if_congr (by rw [hroot.count]; exact hcount ▸ Iff.rfl) ?_ rfl
      exact (congrFun hroot.resolved j).trans ((Function.update_of_ne hj _ _).trans (congrFun hdetach.resolved j))
    · rintro (hflush | hchanged)
      · refine .inl (hroot.flushDirty j (List.mem_filter.mpr ⟨hdetach.flushDirty j hflush, ?_⟩))
        simpa using hj
      · refine .inr ?_
        show j ∈ (TransformStore.removeRoot _ i).resolvedChanged
        rw [hroot.resolvedChanged]
        refine List.mem_filter.mpr ⟨?_, by simpa using hj⟩
        exact (hdetach.resolvedChanged ▸ hchanged : j ∈ (t.store.detach i).resolvedChanged)
  · exact .refl t j

theorem whenSome_invariant {P : Transforms → Prop} {β : Type} {f : Transforms → β → Transforms}
    (hf : ∀ t v, P t → P (f t v)) (h : P t) (value : Option β) : P (t.whenSome value f) := by
  cases value with
  | none => exact h
  | some v => exact hf t v h

/-- What every setter of a slot keeps, writing its fields keeps. -/
theorem writeFields_invariant {P : Transforms → Prop} (hposition : ∀ t p, P t → P (t.setPosition i p))
    (hvisible : ∀ t v, P t → P (t.setVisible i v)) (hwrite : ∀ t f, P t → P (t.write i f)) (h : P t)
    (fields : TransformFields) : P (t.writeFields i fields) := by
  unfold writeFields
  refine whenSome_invariant (fun t v => hwrite t _) ?_ fields.tint
  refine whenSome_invariant (fun t v => hvisible t _) ?_ fields.visible
  refine whenSome_invariant (fun t v => hwrite t _) ?_ fields.alpha
  refine whenSome_invariant (fun t v => hwrite t _) ?_ fields.anchor
  refine whenSome_invariant (fun t v => hwrite t _) ?_ fields.scale
  refine whenSome_invariant (fun t v => hwrite t _) ?_ fields.rotation
  exact whenSome_invariant (fun t v => hposition t _) h fields.position

theorem keeps_writeFields (t : Transforms) (i : ℕ) (fields : TransformFields) (j : ℕ) :
    Keeps t (t.writeFields i fields) j := by
  refine writeFields_invariant (P := fun t' => Keeps t t' j) ?_ ?_ ?_ (.refl t j) fields
  · exact fun t' p h => h.trans (t'.keeps_setPosition i p j)
  · exact fun t' v h => h.trans (t'.keeps_setVisible i v j)
  · exact fun t' f h => h.trans (t'.keeps_write i f j)

theorem sound_write (h : Sound surf t.store F) (i : ℕ) (f : NodeLanes → NodeLanes) : Sound surf (t.write i f).store F := by
  unfold write
  split
  · exact h.call (.markFlushDirty (.whole i)) trivial rfl rfl
  · exact h

theorem sound_setPosition (h : Sound surf t.store F) (hi : (surf i).isSome) (p : Position ℚ) :
    Sound surf (t.setPosition i p).store F := by
  refine h.call (.setPosition (.whole i) p) (fun k hk => ?_) rfl rfl
  obtain rfl : i = k := Option.some.inj (has_eq_some.mp hk).1
  exact (h.live i).mpr hi

theorem sound_writeFields (h : Sound surf t.store F) (hi : (surf i).isSome) (fields : TransformFields) :
    Sound surf (t.writeFields i fields).store F := by
  refine writeFields_invariant (P := fun t => Sound surf t.store F) ?_ ?_ ?_ h fields
  · exact fun t p h => sound_setPosition h hi p
  · intro t v h
    refine h.call (.setVisible (.whole i) v) (fun k hk => ?_) rfl rfl
    obtain rfl : i = k := Option.some.inj (has_eq_some.mp hk).1
    exact (h.live i).mpr hi
  · exact fun t f h => sound_write h i f

/-- A resolve ends, and marks what it changes. -/
theorem resolves (h : Sound surf t.store F) : ∃ t', t.resolve = some t' ∧ Sound surf t'.store F ∧
    t'.store.flushDirty = t.store.flushDirty ∧ t'.lanes = t.lanes ∧ ∀ j, Keeps t t' j := by
  obtain ⟨s', hresolve, hsound, hcount, hchanged⟩ := h.resolves
  have hflush := flushDirty_resolve hresolve
  refine ⟨{ t with store := s' }, by rw [resolve, hresolve, Option.map_some], hsound, hflush, rfl, fun j => ?_⟩
  by_cases hvalue : s'.value j = t.store.value j
  · refine .inr ⟨?_, ?_, ?_⟩
    · show (if j < s'.count then t.lanes j else {}) = _
      rw [hcount]
      rfl
    · show (if j < s'.count then s'.resolved j else 0) = _
      rw [hcount, show s'.resolved j = t.store.resolved j from congrArg Prod.fst hvalue]
      rfl
    · rintro (hdirty | hmarked)
      · exact .inl (hflush ▸ hdirty)
      · exact .inr ((hchanged j).mpr (.inl hmarked))
  · exact .inl (.inr ((hchanged j).mpr (.inr hvalue)))

end Transforms
end Grove.Render
