import Grove.Client.Landing

/-! # What a mirror shows of an entity

`Shows m x t`: the identity `x` stands for a local entity that is there, and its slot holds the
transform `t`.  A journal op leaves every slot but a fresh one alone, so an entity shows what it
showed, or what the spawn that brought it carried (`shows_applySingles`); a drain resets the slots
of what it tears down and no other; a transform envelope writes the slots it names. -/

namespace Grove

/-- The layer is one an `Int32Array` holds. -/
def WireTransform.Storable (t : WireTransform) : Prop := ((JsNumber.finite t.layer).toInt32 : ℚ) = t.layer

namespace Mirror

/-- What was written is read back. -/
theorem read_writeTransform (m : Mirror) (loc : EntityId) {t : WireTransform} (ht : t.Storable) :
    readTransform ((m.writeTransform loc t).rt.transforms.cells (handleIndex loc)) = t := by
  unfold writeTransform
  simp only [SimTransformStore.setPosition, SimTransformStore.setRotation, SimTransformStore.setScale,
    SimTransformStore.setOpacity, SimTransformStore.setLayer, SimTransformStore.write, Function.update_self,
    readTransform, JsNumber.finiteOr]
  rw [show ((JsNumber.finite t.layer).toInt32 : ℚ) = t.layer from ht]

/-! ### Showing -/

/-- The identity stands for an entity that is there, with this transform. -/
def Shows (m : Mirror) (x : NetId) (t : WireTransform) : Prop :=
  ∃ l r, m.index.localOf x = some l ∧ m.rt.entities.record l = some r ∧
    readTransform (m.rt.transforms.cells (handleIndex l)) = t

section shows
variable {m m' : Mirror} {x : NetId} {t : WireTransform}

theorem Shows.congr (h : m.Shows x t) (hi : m'.index.localOf x = m.index.localOf x)
    (hk : Runtime.KeepsCells m.rt m'.rt) : m'.Shows x t := by
  obtain ⟨l, r, hl, hr, ht⟩ := h
  obtain ⟨⟨r', hr'⟩, hc⟩ := hk l r hr
  exact ⟨l, r', hi.trans hl, hr', by rw [hc]; exact ht⟩

theorem Shows.applySingle (h : m.Shows x t) {op : WireSingleStructuralOp}
    (hop : ∀ s, op.spawned = some s → s.netId ≠ x) : (m.applySingle op).1.Shows x t :=
  h.congr (localOf_applySingle m hop) (applies_applySingle m op).keepsCells

/-- A spawn that goes through shows what it carries. -/
theorem shows_spawned {s : EntitySnapshot} (hfit : s.netId ≤ maxSafeInteger) (hst : s.transform.Storable)
    (herr : (m.spawn s).2 = none) : (m.spawn s).1.Shows s.netId s.transform := by
  unfold spawn at herr ⊢
  rw [if_neg (not_lt.mpr hfit)] at herr ⊢
  split at herr
  · cases herr
  · rename_i loc rt heq
    obtain ⟨-, -, r, hr⟩ := Runtime.spawn_keepsCells heq
    have h₁ := applies_linkParent { m with rt := rt, index := m.index.set s.netId loc } loc s.parent
    split at herr
    · cases herr
    · rename_i m₁ heq₁
      rw [heq₁] at h₁
      have h₃ := h₁.trans ((applies_applyTags m₁ loc s.tags).trans
        (applies_applyScripts (m₁.applyTags loc s.tags) loc ((s.overrides.bind EntityOverrides.scripts).getD [])))
      split at herr
      · cases herr
      · rename_i m₃ heq₃
        rw [heq₃] at h₃
        obtain ⟨⟨r', hr'⟩, -⟩ := h₃.keepsCells loc r hr
        refine ⟨loc, r', ?_, hr', read_writeTransform m₃ loc hst⟩
        show m₃.index.localOf s.netId = some loc
        refine (h₃.localOf s.netId (Set.notMem_empty _)).trans ?_
        exact (MirrorIndex.localOf_set _ _ _ _).trans (if_pos rfl)

theorem applySingle_of_spawned {op : WireSingleStructuralOp} {s : EntitySnapshot} (h : op.spawned = some s)
    (m : Mirror) : m.applySingle op = m.spawn s := by
  cases op with
  | spawn | enterInterest => rw [Option.some.inj h]; rfl
  | _ => cases h

theorem fits_of_spawned {op : WireSingleStructuralOp} {s : EntitySnapshot} (h : op.spawned = some s)
    (hfit : op.Fits) : s.netId ≤ maxSafeInteger := by
  cases op with
  | spawn | enterInterest => rw [← Option.some.inj h]; exact hfit
  | _ => cases h

/-- Through a journal an entity shows what it showed, or what the spawn that brought it carried. -/
theorem shows_applySingles (ht : t.Storable) : ∀ (ops : List WireSingleStructuralOp) {m : Mirror},
    (applySingles ops m).2 = none → (∀ op ∈ ops, op.Fits) →
    (∀ op ∈ ops, ∀ s, op.spawned = some s → s.netId = x → s.transform = t) →
    (m.Shows x t ∨ ∃ op ∈ ops, ∃ s, op.spawned = some s ∧ s.netId = x) → (applySingles ops m).1.Shows x t
  | [], m, _, _, _, h => by
    rcases h with h | ⟨op, hop, -⟩
    · exact h
    · cases hop
  | op :: ops, m, herr, hfits, hsame, h => by
    unfold applySingles at herr ⊢
    split at herr
    · cases herr
    · rename_i m' heq
      refine shows_applySingles ht ops herr (fun op' hop' => hfits op' (List.mem_cons_of_mem _ hop'))
        (fun op' hop' => hsame op' (List.mem_cons_of_mem _ hop')) ?_
      by_cases hop : ∃ s, op.spawned = some s ∧ s.netId = x
      · obtain ⟨s, hs, hx⟩ := hop
        left
        have hst : s.transform = t := hsame op List.mem_cons_self s hs hx
        have hshow := shows_spawned (m := m) (fits_of_spawned hs (hfits op List.mem_cons_self))
          (by rw [hst]; exact ht) (by rw [← applySingle_of_spawned hs m, heq])
        rw [← applySingle_of_spawned hs m, heq, hx, hst] at hshow
        exact hshow
      · push Not at hop
        rcases h with h | ⟨op', hop', s, hs, hx⟩
        · have hshow := h.applySingle hop
          rw [heq] at hshow
          exact Or.inl hshow
        · rcases List.mem_cons.mp hop' with rfl | hop'
          · exact absurd hx (hop s hs)
          · exact Or.inr ⟨op', hop', s, hs, hx⟩

/-- A drain leaves what it does not tear down as it was. -/
theorem Shows.drain {v : View} (h : m.Shows x t) (hs : m.rt.Sound v []) {l : EntityId} {r : EntityRecord}
    (hl : m.drain.index.localOf x = some l) (hr : m.drain.rt.entities.record l = some r) : m.drain.Shows x t := by
  obtain ⟨l', r', hl', hr', ht⟩ := h
  have hloc : m.index.localOf x = some l := by
    rw [localOf_drain] at hl
    split_ifs at hl
    exact hl
  obtain rfl : l = l' := Option.some.inj (hloc.symm.trans hl')
  refine ⟨l, r, hl, hr, ?_⟩
  have hnot : l ∉ m.rt.entities.pendingDestroy := by
    intro hmem
    rw [show m.drain.rt.entities.record l = none from
      (Runtime.tornDown_drainDestroyed hs).gone l hmem] at hr
    cases hr
  have hcells : m.drain.rt.transforms.cells (handleIndex l) = m.rt.transforms.cells (handleIndex l) := by
    show (m.rt.drainDestroyed []).transforms.cells (handleIndex l) = _
    rw [Runtime.drainDestroyed_nil]
    refine Runtime.foldl_teardown_cells _ ?_ ?_ hnot (show _ = some r' from hr')
    · have hnd := hs.linked.queue_nodup
      rw [List.nil_append] at hnd
      exact hnd
    · intro d hd
      obtain ⟨q, hq, -⟩ := (hs.linked.queued d).mp (by rw [List.nil_append]; exact hd)
      exact ⟨q, hq⟩
  rw [hcells]
  exact ht

end shows

/-! ### The channels beside the journal -/

section channels
variable {m m' : Mirror} {x : NetId} {t : WireTransform}

/-- A transform envelope shows what it carries, on entities with slots of their own. -/
theorem shows_foldl_writeDiff (ht : t.Storable) : ∀ (diffs : List TransformDiff) {m : Mirror},
    (∀ {y z l}, m.index.localOf y = some l → m.index.localOf z = some l → y = z) →
    (∀ d ∈ diffs, ∀ l, m.index.localOf d.netId = some l → ∃ r, m.rt.entities.record l = some r) →
    (∀ d ∈ diffs, d.netId = x → d.transform = t) →
    (m.Shows x t ∨ (∃ d ∈ diffs, d.netId = x) ∧ ∃ l r, m.index.localOf x = some l ∧ m.rt.entities.record l = some r) →
    (diffs.foldl writeDiff m).Shows x t
  | [], m, _, _, _, h => by
    rcases h with h | ⟨⟨d, hd, -⟩, -⟩
    · exact h
    · cases hd
  | d :: diffs, m, hinj, hex, hsame, h => by
    have hstill := still_writeDiff m d
    refine shows_foldl_writeDiff ht diffs ?_ ?_ (fun d' hd' => hsame d' (List.mem_cons_of_mem _ hd')) ?_
    · rw [hstill.index]
      exact hinj
    · rw [hstill.index, hstill.entities]
      exact fun d' hd' => hex d' (List.mem_cons_of_mem _ hd')
    · by_cases hd : d.netId = x
      · -- The diff is about this very entity.
        obtain ⟨l, r, hl, hr⟩ : ∃ l r, m.index.localOf x = some l ∧ m.rt.entities.record l = some r := by
          rcases h with ⟨l, r, hl, hr, -⟩ | ⟨-, hmapped⟩
          · exact ⟨l, r, hl, hr⟩
          · exact hmapped
        left
        refine ⟨l, r, by rw [hstill.index]; exact hl, by rw [hstill.entities]; exact hr, ?_⟩
        have hdt : d.transform = t := hsame d List.mem_cons_self hd
        rw [← hd] at hl
        simp only [writeDiff, resolve_of_some hl, hdt]
        exact read_writeTransform m l ht
      · rcases h with ⟨l, r, hl, hr, hshow⟩ | ⟨⟨d', hd', hx⟩, l, r, hl, hr⟩
        · left
          refine ⟨l, r, by rw [hstill.index]; exact hl, by rw [hstill.entities]; exact hr, ?_⟩
          cases hn : m.index.localOf d.netId with
          | none =>
            simp only [writeDiff, resolve_of_none hn]
            exact hshow
          | some l' =>
            obtain ⟨r', hr'⟩ := hex d List.mem_cons_self l' hn
            have hne : l ≠ l' := by
              rintro rfl
              exact hd (hinj hn hl)
            simp only [writeDiff, resolve_of_some hn]
            rw [cells_writeTransform_of_ne m d.transform (Entities.handleIndex_ne hr hr' hne)]
            exact hshow
        · right
          refine ⟨?_, l, r, by rw [hstill.index]; exact hl, by rw [hstill.entities]; exact hr⟩
          rcases List.mem_cons.mp hd' with rfl | hd'
          · exact absurd hx hd
          · exact ⟨d', hd', hx⟩

end channels

/-! ### Nothing is held back -/

section held
variable (m : Mirror)

theorem held_resolve (n : NetId) : (m.resolve n).2.heldTransforms = m.heldTransforms := by
  unfold resolve
  split <;> rfl

/-- An envelope that went through: its journal, the drain, and host records that show nothing. -/
structure Shown (m : Mirror) (envelope : StateEnvelope) (m' : Mirror) : Prop where
  journal : applyJournal envelope.structural (m.opening envelope) = (m', none)
  settled : Settled m' (m.applyState envelope).1
  transforms : (m.applyState envelope).1.rt.transforms = m'.drain.rt.transforms
  heldTransforms : (m.applyState envelope).1.heldTransforms = none
  stateAppliedTick : (m.applyState envelope).1.stateAppliedTick = envelope.tick

variable {m}

theorem shown_applyState {envelope : StateEnvelope} (hheld : m.heldTransforms = none)
    (herr : (m.applyState envelope).2 = none) : ∃ m', Shown m envelope m' := by
  cases hjournal : applyJournal envelope.structural (m.opening envelope) with
  | mk m' err =>
    cases err with
    | some err =>
      rw [applyState_of_error hjournal] at herr
      cases herr
    | none =>
      have hnone : m'.heldTransforms = none := by
        have h := (applies_applyJournal envelope.structural (m.opening envelope)).heldTransforms
        rw [hjournal] at h
        exact h.trans hheld
      have hun := unmoved_applyDiffs envelope.state m'.drain
      rcases hdiffs : applyDiffs envelope.state m'.drain with ⟨m₁, _ | err⟩
      · rw [hdiffs] at hun
        have hnone₁ : m₁.heldTransforms = none := hun.heldTransforms.trans hnone
        have happly : m.applyState envelope =
            ({ m₁ with stateAppliedTick := envelope.tick }.discardMarks, none) := by
          simp only [applyState, hjournal, hdiffs, releaseHeldTransforms, discardMarks, hnone₁]
        refine ⟨m', hjournal, (applyState_settled hjournal).1, ?_, ?_, ?_⟩
        · rw [happly]
          exact hun.transforms
        · rw [happly]
          exact hnone₁
        · rw [happly]
          rfl
      · simp only [applyState, hjournal, hdiffs] at herr
        cases herr

end held

end Mirror

end Grove
