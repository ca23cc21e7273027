import Grove.Client.Shown
import Grove.Net.Accepted

/-! # Droppable transforms

A drain clears the marks of what it sent, so a `TransformEnvelope` carries what was written since
the one before it and nothing else: one that is shed is not superseded by the next, which names
other entities.  `Faithful` is what a peer keeps all the same: an entity whose newest diff was not
lost (`Peer.stale`) shows the server's transform as of the last send, or will once its spawn
arrives.  After an envelope that got through, every entity does if each one whose diff had been
lost was written again (`Rewritten`). -/

namespace Grove

theorem Runtime.Layered.storable {rt : Runtime} (h : rt.Layered) (x : EntityId) :
    (rt.wireTransform x).Storable := by
  show (((JsNumber.finite ((rt.transforms.cells (handleIndex x)).layer : ℚ)).toInt32 : ℤ) : ℚ) =
    ((rt.transforms.cells (handleIndex x)).layer : ℚ)
  rw [h]

/-- A drain's diffs are of entities that are there, as they are. -/
theorem transformDiff_current {rt : Runtime} {i : ℕ} {d : TransformDiff} (h : transformDiff rt i = some d) :
    (∃ r, rt.entities.record d.netId = some r) ∧ handleIndex d.netId = i ∧
      d.transform = rt.wireTransform d.netId := by
  unfold transformDiff at h
  simp only at h
  split_ifs at h with h0
  obtain rfl := Option.some.inj h
  have hocc : (rt.entities.table.recordAt i).isSome := by
    cases ho : rt.entities.table.recordAt i with
    | some r => rfl
    | none => exact absurd (SlotTable.idAt_eq_zero _ |>.mpr ho) h0
  obtain ⟨hrec, hidx⟩ := rt.entities.table.record_idAt hocc
  exact ⟨Option.isSome_iff_exists.mp hrec, hidx, rfl⟩

/-- An entity whose slot is marked is in the drain. -/
theorem transformDiff_of_record {rt : Runtime} {x : EntityId} {r : EntityRecord}
    (hr : rt.entities.record x = some r) : transformDiff rt (handleIndex x) = some ⟨x, rt.wireTransform x⟩ := by
  have hid : rt.entities.table.idAt (handleIndex x) = x := rt.entities.table.idAt_handleIndex (by
    rw [show rt.entities.table.record x = some r from hr]; rfl)
  unfold transformDiff
  simp only [hid]
  rw [if_neg (Entities.ne_noEntity_of_record hr)]

/-! ### What an envelope shows -/

section shown
variable {v : View} {b : Runtime} {m : Mirror} {rest : List WireSingleStructuralOp} {x : NetId} {r : EntityRecord}
  {t : WireTransform}

/-- After an envelope, an entity shows what it showed, or what its spawn carried. -/
theorem Tracks.shows_deliver {envelope : StateEnvelope} (hv : v.tags = false)
    (h : Tracks v b m (envelope.structural.flatMap WireStructuralOp.singles ++ rest))
    (hcap : ∀ op ∈ envelope.structural, op.singles.length ≤ maxWireItems)
    (hout : Tracks v b (m.applyState envelope).1 rest) (hheld : m.heldTransforms = none)
    (herr : (m.applyState envelope).2 = none) (hr : b.entities.record x = some r) (ht : t.Storable)
    (hm : ∀ l, m.index.localOf x = some l → m.Shows x t)
    (hspawn : ∀ op ∈ envelope.structural.flatMap WireStructuralOp.singles, ∀ s, op.spawned = some s →
      s.netId = x → s.transform = t) {l : EntityId} (hl : (m.applyState envelope).1.index.localOf x = some l) :
    (m.applyState envelope).1.Shows x t := by
  obtain ⟨m', hshown⟩ := Mirror.shown_applyState hheld herr
  obtain ⟨A, A₁, -, -, -, hfares⟩ := h.fares hcap
  have hland : Mirror.Landed v (m.opening envelope) m' (envelope.structural.flatMap WireStructuralOp.singles) A₁ := by
    rcases hfares with ⟨hv', -⟩ | hgood
    · rw [hv] at hv'
      cases hv'
    · rw [hshown.journal] at hgood
      exact hgood.landed rfl
  have happly : Mirror.applySingles (envelope.structural.flatMap WireStructuralOp.singles) (m.opening envelope) =
      (m', none) := by
    rw [← Mirror.applyJournal_eq hcap]
    exact hshown.journal
  have hdrain : m'.drain.index.localOf x = some l := by
    rw [← hshown.settled.index]
    exact hl
  have hm' : m'.index.localOf x = some l := by
    rw [Mirror.localOf_drain] at hdrain
    split_ifs at hdrain
    exact hdrain
  have hfits : ∀ op ∈ envelope.structural.flatMap WireStructuralOp.singles, op.Fits :=
    fun op hop => h.fits op (List.mem_append_left _ hop)
  have hshow : m'.Shows x t := by
    have hops := Mirror.shows_applySingles (x := x) ht _ (by rw [happly]) hfits hspawn (m := m.opening envelope)
    rw [happly] at hops
    apply hops
    by_cases hop : ∃ op ∈ envelope.structural.flatMap WireStructuralOp.singles, ∃ s, op.spawned = some s ∧ s.netId = x
    · exact Or.inr hop
    · push Not at hop
      have hloc := Mirror.localOf_applySingles (m.opening envelope) hop
      rw [happly] at hloc
      exact Or.inl (hm l (hloc.symm.trans hm'))
  obtain ⟨q, hq⟩ := hout.there hr hl
  have hqd : m'.drain.rt.entities.record l = some q := by
    rw [← hshown.settled.entities]
    exact hq
  obtain ⟨l', q', hl', hq', hread⟩ := hshow.drain hland.follows.sound hdrain hqd
  refine ⟨l', q', ?_, ?_, ?_⟩
  · rw [hshown.settled.index]
    exact hl'
  · rw [hshown.settled.entities]
    exact hq'
  · rw [hshown.transforms]
    exact hread

/-- A transform envelope shows what it carries, and leaves the rest as it was. -/
theorem Tracks.shows_transforms {envelope : TransformEnvelope} (h : Tracks v b m rest)
    (htick : m.stateAppliedTick = envelope.tick)
    (hcur : ∀ d ∈ envelope.transform, (∃ r, b.entities.record d.netId = some r) ∧
      d.transform = b.wireTransform d.netId)
    (ht : (b.wireTransform x).Storable) (hr : b.entities.record x = some r) {l : EntityId}
    (hl : m.index.localOf x = some l)
    (hor : m.Shows x (b.wireTransform x) ∨ ∃ d ∈ envelope.transform, d.netId = x) :
    (m.applyTransforms envelope).Shows x (b.wireTransform x) := by
  unfold Mirror.applyTransforms
  rw [if_neg (by rw [htick]; exact lt_irrefl _)]
  obtain ⟨A, hf, -⟩ := h.world
  refine Mirror.shows_foldl_writeDiff ht _ (fun hy hz => hf.inj hy hz) ?_ ?_ ?_
  · intro d hd l' hl'
    obtain ⟨⟨q, hq⟩, -⟩ := hcur d hd
    exact h.there hq hl'
  · rintro d hd rfl
    exact (hcur d hd).2
  · rcases hor with hshow | hd
    · exact Or.inl hshow
    · obtain ⟨q, hq⟩ := h.there hr hl
      exact Or.inr ⟨hd, l, q, hl, hq⟩

end shown

namespace Link

/-! ### The server's half -/

/-- What the server keeps of its slots: what was written since the last send is marked. -/
structure Minding (n : Link) : Prop where
  serving : Serving Runtime.bare n
  fits : ∀ op ∈ n.spill, op.singles.length ≤ maxWireItems
  written : Runtime.Written n.drained n.rt
  layered : n.rt.Layered

section server
variable {n : Link}

/-- The event relays structure whole: nothing that is sent moves an entity beneath one that is not,
and no group is past the mirror's cap. -/
def Relays (n : Link) : Event → Prop
  | .send _ _ _ =>
    ClearOf (ephemeralIds n.rt n.rt.channels.structural)
        (n.rt.channels.structural.flatMap StructuralOp.singles) ∧ n.GroupsFit
  | .act _ | .drainDestroyed _ | .tick => True

instance (n : Link) : DecidablePred (Relays n)
  | .send _ _ _ => inferInstanceAs (Decidable (_ ∧ n.GroupsFit))
  | .act _ | .drainDestroyed _ | .tick => inferInstanceAs (Decidable True)

theorem names_bare (n : Link) (e : Event) : Names Runtime.bare n e := by
  cases e with
  | act a => exact Runtime.actMeets_bare n.rt a
  | drainDestroyed onEnd => exact Runtime.actsMeet_bare onEnd _
  | tick | send => trivial

theorem Minding.step (h : Minding n) (e : Event) (he : Relays n e) : Minding (n.step e) := by
  have hserving := h.serving.step e (names_bare n e)
  have hthrough : ∀ {rt'}, Runtime.Written n.rt rt' →
      Runtime.Written n.drained rt' ∧ rt'.Layered := fun hw => ⟨h.written.trans hw, hw.layered h.layered⟩
  cases e with
  | act a =>
    obtain ⟨hw, hl⟩ := hthrough (Runtime.acts_written [a] n.rt)
    exact ⟨hserving, h.fits, hw, hl⟩
  | drainDestroyed onEnd =>
    obtain ⟨hw, hl⟩ := hthrough (Runtime.drainDestroyed_written h.serving.sound onEnd)
    exact ⟨hserving, h.fits, hw, hl⟩
  | tick =>
    have hticked : Runtime.Written n.rt { n.rt with tick := n.rt.tick + 1 } := Runtime.written_of_eq rfl rfl
    obtain ⟨hw, hl⟩ := hthrough hticked
    exact ⟨hserving, h.fits, hw, hl⟩
  | send budget shed joining =>
    exact ⟨hserving, fun op hop => orderedOps_fit h.fits he.2 op (List.mem_of_mem_drop hop),
      Runtime.Written.refl _, h.layered⟩

theorem minding_new (persisted : Option SessionRecords) (facadeMembers : HostKey → List String) (simRate : ℚ) :
    Minding (new persisted facadeMembers simRate) :=
  ⟨serving_new persisted facadeMembers simRate, (fun _ hop => by cases hop), Runtime.Written.refl _,
    fun _ => Runtime.layered_identity⟩

/-- The entities a send's transform envelope names. -/
def carried (n : Link) : List EntityId := (n.rt.transforms.dirty.filterMap (transformDiff n.rt)).map TransformDiff.netId

theorem mem_carried {x : EntityId} {r : EntityRecord} (hr : n.rt.entities.record x = some r) :
    x ∈ n.carried ↔ handleIndex x ∈ n.rt.transforms.dirty := by
  unfold carried
  rw [List.mem_map]
  constructor
  · rintro ⟨d, hd, rfl⟩
    obtain ⟨i, hi, heq⟩ := List.mem_filterMap.mp hd
    rw [(transformDiff_current heq).2.1]
    exact hi
  · intro hi
    exact ⟨_, List.mem_filterMap.mpr ⟨_, hi, transformDiff_of_record hr⟩, rfl⟩

/-- An entity no diff names has the transform it had at the last send. -/
theorem Minding.unmoved (h : Minding n) {x : EntityId} {r : EntityRecord} (hr : n.rt.entities.record x = some r)
    (hx : x ∉ n.carried) : (∃ r₀, n.drained.entities.record x = some r₀) ∧
      n.rt.wireTransform x = n.drained.wireTransform x := by
  rw [mem_carried hr] at hx
  obtain ⟨hr₀, -, hc⟩ := h.written.marks x r hr hx
  refine ⟨hr₀, ?_⟩
  unfold Runtime.wireTransform
  rw [hc]

theorem mem_spawnedIds {rt : Runtime} {x : EntityId} :
    x ∈ spawnedIds rt ↔ ∃ t, .spawn x t ∈ rt.channels.structural.flatMap StructuralOp.singles := by
  unfold spawnedIds
  rw [List.mem_filterMap]
  constructor
  · rintro ⟨op, hop, hx⟩
    cases op with
    | spawn id t =>
      obtain rfl := Option.some.inj hx
      exact ⟨t, hop⟩
    | _ => cases hx
  · rintro ⟨t, ht⟩
    exact ⟨.spawn x t, ht, rfl⟩

/-- A spawn read at this send carries the transform as it is. -/
theorem transform_of_added {op : WireSingleStructuralOp} (hop : op ∈ n.added) {s : EntitySnapshot}
    (hs : op.spawned = some s) : s.transform = n.rt.wireTransform s.netId := by
  obtain ⟨op₀, -, hsent⟩ := List.mem_filterMap.mp hop
  obtain ⟨-, ⟨id, t, s', -, hsnap, rfl⟩ | ⟨_, -, rfl⟩ | ⟨_, _, -, rfl⟩ | ⟨_, _, _, -, -, rfl⟩ | ⟨_, _, _, -, rfl⟩⟩ :=
    sentOf_cases hsent
  · obtain rfl := Option.some.inj hs
    unfold Runtime.readEntitySnapshot at hsnap
    obtain ⟨r, -, rfl⟩ := Option.map_eq_some_iff.mp hsnap
    rfl
  all_goals cases hs

end server

/-! ### The peer's half -/

section peer
variable {n : Link} {p : Peer}

/-- What the peer shows, or will be told, of an entity whose newest diff it did not lose. -/
structure Faithful (n : Link) (p : Peer) : Prop where
  held : p.mirror.heldTransforms = none
  shows : ∀ x r, n.drained.entities.record x = some r → x ∉ p.stale →
    ∀ l, p.mirror.index.localOf x = some l → p.mirror.Shows x (n.drained.wireTransform x)
  told : ∀ x r, n.drained.entities.record x = some r → x ∉ p.stale → ∀ op ∈ n.todo p, ∀ s,
    op.spawned = some s → s.netId = x → s.transform = n.drained.wireTransform x

/-- A peer that has thrown nothing is in step and shown right. -/
def Attended (n : Link) (p : Peer) : Prop :=
  p.thrown.isSome ∨ (p.session.structuralSkip ≤ n.spill.length ∧
    Tracks Runtime.bare n.drained p.mirror (n.todo p) ∧ Faithful n p)

/-- What is not stale after a send: its diff arrived, or it has none to lose. -/
theorem not_mem_staleAfter {rt : Runtime} {set : SendSet} {shed : Bool} {m : Mirror} {stale : List NetId} {x : NetId}
    (h : x ∉ staleAfter rt set shed m stale) :
    (x ∈ set.transform.map TransformDiff.netId ∧ shed = false ∧ (m.index.localOf x).isSome) ∨
      (x ∉ set.transform.map TransformDiff.netId ∧ x ∉ stale) ∨ x ∈ spawnedIds rt := by
  unfold staleAfter at h
  simp only [List.mem_append, List.mem_filter, not_or] at h
  obtain ⟨hold, hnew⟩ := h
  by_cases hx : x ∈ set.transform.map TransformDiff.netId
  · by_cases hr : shed = false ∧ (m.index.localOf x).isSome
    · exact Or.inl ⟨hx, hr⟩
    · right
      right
      by_contra hspawn
      refine hnew ⟨hx, ?_⟩
      cases shed <;> simp_all
  · refine Or.inr (Or.inl ⟨hx, fun hmem => hold ⟨hmem, ?_⟩⟩)
    simp [hx]

/-- What a delivered send leaves stale: what was and is not named now, or what the mirror lacks. -/
theorem mem_staleAfter {rt : Runtime} {set : SendSet} {m : Mirror} {stale : List NetId} {x : NetId}
    (h : x ∈ staleAfter rt set false m stale) :
    (x ∈ stale ∧ x ∉ set.transform.map TransformDiff.netId) ∨ m.index.localOf x = none := by
  unfold staleAfter at h
  simp only [List.mem_append, List.mem_filter] at h
  cases hl : m.index.localOf x with
  | none => exact Or.inr rfl
  | some l =>
    left
    rcases h with ⟨hmem, hx⟩ | ⟨-, hx⟩
    · exact ⟨hmem, by simpa [hl] using hx⟩
    · simp [hl] at hx

/-- An entity whose diff is not lost with this send: it was shown right, and every spawn of it to
come says what it is now. -/
theorem Faithful.before (hn : Minding n) (ht : Tracks Runtime.bare n.drained p.mirror (n.todo p)) (hf : Faithful n p)
    {x : NetId} {r : EntityRecord} (hr : n.rt.entities.record x = some r)
    (hx : (x ∉ n.carried ∧ x ∉ p.stale) ∨ x ∈ spawnedIds n.rt) :
    (∀ l, p.mirror.index.localOf x = some l → p.mirror.Shows x (n.rt.wireTransform x)) ∧
      ∀ op ∈ n.todo p ++ n.added, ∀ s, op.spawned = some s → s.netId = x →
        s.transform = n.rt.wireTransform x := by
  have hadded : ∀ op ∈ n.added, ∀ s, op.spawned = some s → s.netId = x → s.transform = n.rt.wireTransform x := by
    rintro op hop s hs rfl
    exact transform_of_added hop hs
  rcases hx with ⟨hcar, hstale⟩ | hspawn
  · obtain ⟨⟨r₀, hr₀⟩, heq⟩ := hn.unmoved hr hcar
    rw [heq] at hadded ⊢
    refine ⟨hf.shows x r₀ hr₀ hstale, fun op hop => ?_⟩
    rcases List.mem_append.mp hop with hop | hop
    · exact hf.told x r₀ hr₀ hstale op hop
    · exact hadded op hop
  · -- Made since the last send: the peer has never heard of it.
    obtain ⟨t, hmem⟩ := mem_spawnedIds.mp hspawn
    have hfresh := (hn.serving.advances.fresh x t hmem).1
    refine ⟨fun l hl => absurd (ht.held x l hl) hfresh, fun op hop => ?_⟩
    rcases List.mem_append.mp hop with hop | hop
    · rintro s hs rfl
      exact absurd (ht.brought op hop s hs) hfresh
    · exact hadded op hop

theorem held_writeTransforms (m : Mirror) (envelope : TransformEnvelope) :
    (m.writeTransforms envelope).heldTransforms = m.heldTransforms := by
  unfold Mirror.writeTransforms
  induction envelope.transform generalizing m with
  | nil => rfl
  | cons d diffs ih =>
    rw [List.foldl_cons, ih]
    unfold Mirror.writeDiff
    have h := Mirror.held_resolve m d.netId
    split
    · rename_i heq
      rw [heq] at h
      exact h
    · rename_i heq
      rw [heq] at h
      exact h

/-- A send that goes through, at one peer. -/
structure Goes (n : Link) (budget : ℕ) (shed : Bool) (p : Peer) (out : Mirror) : Prop where
  tracks : Tracks Runtime.bare n.rt (p.mirror.applyState (n.envelopeOf budget p)).1
    (((n.send budget shed none).spill.drop (n.sessionAfter budget p).structuralSkip).flatMap WireStructuralOp.singles)
  held : out.heldTransforms = none
  index : out.index = (p.mirror.applyState (n.envelopeOf budget p)).1.index
  shows : ∀ x r, n.rt.entities.record x = some r →
    x ∉ staleAfter n.rt (n.setOf budget) shed (p.mirror.applyState (n.envelopeOf budget p)).1 p.stale →
    ∀ l, out.index.localOf x = some l → out.Shows x (n.rt.wireTransform x)
  told : ∀ x r, n.rt.entities.record x = some r →
    x ∉ staleAfter n.rt (n.setOf budget) shed (p.mirror.applyState (n.envelopeOf budget p)).1 p.stale →
    ∀ op ∈ ((n.send budget shed none).spill.drop (n.sessionAfter budget p).structuralSkip).flatMap
      WireStructuralOp.singles, ∀ s, op.spawned = some s → s.netId = x → s.transform = n.rt.wireTransform x

theorem goes_receive (hn : Minding n) {budget : ℕ} {shed : Bool} (he : Relays n (.send budget shed none))
    (hskip : p.session.structuralSkip ≤ n.spill.length) (ht : Tracks Runtime.bare n.drained p.mirror (n.todo p))
    (hf : Faithful n p) (hthrown : p.thrown = none)
    (herr : (p.mirror.applyState (n.envelopeOf budget p)).2 = none) :
    Goes n budget shed p (receive n.rt (n.setOf budget) shed p).mirror := by
  obtain ⟨hclear, hgroups⟩ := he
  have hjoined := tracks_joined hn.serving hskip ht hclear budget shed
  have hsplit := flatMap_split budget hskip shed none
  have hcap := envelope_fits hn.fits hgroups budget p
  have hout : Tracks Runtime.bare n.rt (p.mirror.applyState (n.envelopeOf budget p)).1
      (((n.send budget shed none).spill.drop (n.sessionAfter budget p).structuralSkip).flatMap
        WireStructuralOp.singles) := by
    rcases hjoined.deliver hcap with ⟨hv, -⟩ | hacc
    · cases hv
    · exact hacc.tracks herr
  obtain ⟨m', hshown⟩ := Mirror.shown_applyState hf.held herr
  have hmirror : (receive n.rt (n.setOf budget) shed p).mirror =
      if shed then (p.mirror.applyState (n.envelopeOf budget p)).1
      else (p.mirror.applyState (n.envelopeOf budget p)).1.applyTransforms (transformEnvelope (n.setOf budget)) := by
    rw [receive_eq hthrown]
    simp [herr]
  have hstill := still_receive (n := n) hthrown budget shed
  have htick : (p.mirror.applyState (n.envelopeOf budget p)).1.stateAppliedTick =
      (transformEnvelope (n.setOf budget)).tick := hshown.stateAppliedTick
  have hcur : ∀ d ∈ (transformEnvelope (n.setOf budget)).transform, (∃ r, n.rt.entities.record d.netId = some r) ∧
      d.transform = n.rt.wireTransform d.netId := by
    intro d hd
    obtain ⟨i, -, heq⟩ := List.mem_filterMap.mp hd
    obtain ⟨hrec, -, hcur⟩ := transformDiff_current heq
    exact ⟨hrec, hcur⟩
  refine ⟨hout, ?_, hstill.index, ?_, ?_⟩
  · rw [hmirror]
    split_ifs
    · exact hshown.heldTransforms
    · unfold Mirror.applyTransforms
      rw [if_neg (by rw [htick]; exact lt_irrefl _), held_writeTransforms]
      exact hshown.heldTransforms
  · intro x r hr hx l hl
    have hst := hn.layered.storable x
    rw [hstill.index] at hl
    rcases not_mem_staleAfter hx with ⟨hcar, rfl, -⟩ | hbefore
    · rw [hmirror, if_neg Bool.false_ne_true]
      obtain ⟨d, hd, hdx⟩ := List.mem_map.mp hcar
      exact hout.shows_transforms htick hcur hst hr hl (Or.inr ⟨d, hd, hdx⟩)
    · obtain ⟨hshow, htold⟩ := hf.before hn ht hr hbefore
      rw [← hsplit] at htold
      have hstate := hjoined.shows_deliver rfl hcap hout hf.held herr hr hst hshow
        (fun op hop => htold op (List.mem_append_left _ hop)) hl
      rw [hmirror]
      split_ifs
      · exact hstate
      · exact hout.shows_transforms htick hcur hst hr hl (Or.inl hstate)
  · intro x r hr hx op hop
    rcases not_mem_staleAfter hx with ⟨-, -, hmapped⟩ | hbefore
    · obtain ⟨l, hl⟩ := Option.isSome_iff_exists.mp hmapped
      exact fun s hs hsx => absurd hsx (hout.not_spawned hl hop hs)
    · obtain ⟨-, htold⟩ := hf.before hn ht hr hbefore
      rw [← hsplit] at htold
      exact htold op (List.mem_append_right _ hop)

theorem Attended.receive (hn : Minding n) (hp : Attended n p) {budget : ℕ} {shed : Bool}
    (he : Relays n (.send budget shed none)) :
    Attended (n.send budget shed none) (Link.receive n.rt (n.setOf budget) shed p) := by
  cases hthrown : p.thrown with
  | some err =>
    have hself : Link.receive n.rt (n.setOf budget) shed p = p := by
      unfold Link.receive
      rw [if_pos (by rw [hthrown]; rfl)]
    rw [hself]
    exact Or.inl (by rw [hthrown]; rfl)
  | none =>
    obtain ⟨hskip, ht, hf⟩ := hp.resolve_left (by rw [hthrown]; simp)
    have hreceive := receive_eq (n := n) hthrown budget shed
    cases herr : (p.mirror.applyState (n.envelopeOf budget p)).2 with
    | some err =>
      left
      rw [hreceive]
      show ((p.mirror.applyState (n.envelopeOf budget p)).2).isSome = true
      rw [herr]
      rfl
    | none =>
      have hgo := goes_receive hn he hskip ht hf hthrown herr
      have hsession : (Link.receive n.rt (n.setOf budget) shed p).session = n.sessionAfter budget p := by
        rw [hreceive]
      have hstale : (Link.receive n.rt (n.setOf budget) shed p).stale = staleAfter n.rt (n.setOf budget) shed
          (p.mirror.applyState (n.envelopeOf budget p)).1 p.stale := by
        rw [hreceive]
      have hafter : Tracks Runtime.bare (n.send budget shed none).drained _ _ := hgo.tracks.congr rfl rfl
      right
      unfold todo
      rw [hsession]
      refine ⟨skip_le budget hskip shed none, hafter.still (still_receive (n := n) hthrown budget shed),
        hgo.held, ?_, ?_⟩
      · rw [hstale]
        exact hgo.shows
      · rw [hstale]
        unfold todo
        rw [hsession]
        exact hgo.told

theorem attended_welcome (hn : Minding n) (budget : ℕ) (shed : Bool) (j : Joiner) :
    Attended (n.send budget shed (some j))
      (welcome (n.send budget shed (some j)).rt (n.send budget shed (some j)).spill j) := by
  have hsent := hn.serving.send budget shed (some j)
  have ht := tracks_snapshot hsent.sound j.player.id j.scripts j.facadeMembers
    (n.send budget shed (some j)).rt.simRate
  have hcap := snapshot_fits (buildSnapshot (n.send budget shed (some j)).rt j.player.id)
  cases herr : (welcome (n.send budget shed (some j)).rt (n.send budget shed (some j)).spill j).thrown with
  | some err => exact Or.inl (by rw [herr]; rfl)
  | none =>
    have hout : Tracks Runtime.bare (n.send budget shed (some j)).rt
        (welcome (n.send budget shed (some j)).rt (n.send budget shed (some j)).spill j).mirror [] := by
      rcases ht.deliver hcap with ⟨hv, -⟩ | hacc
      · cases hv
      · exact hacc.tracks herr
    obtain ⟨m', hshown⟩ := Mirror.shown_applyState
      (m := Mirror.new j.scripts j.facadeMembers (n.send budget shed (some j)).rt.simRate) rfl herr
    refine Or.inr ⟨le_rfl, ?_, hshown.heldTransforms, ?_, ?_⟩
    · rw [todo_welcome]
      exact hout
    · intro x r hr _ l hl
      refine ht.shows_deliver rfl hcap hout rfl herr hr (hn.layered.storable x) (fun l hl => by cases hl) ?_ hl
      intro op hop s hs hx
      rw [singles_snapshotEnvelope] at hop
      rcases List.mem_append.mp hop with hop | hop
      · obtain ⟨_, -, rfl⟩ := List.mem_map.mp hop
        cases hs
      · obtain ⟨s', hs', rfl⟩ := List.mem_map.mp hop
        obtain rfl := Option.some.inj hs
        obtain ⟨id, -, hsnap⟩ := List.mem_filterMap.mp hs'
        unfold Runtime.readEntitySnapshot at hsnap
        obtain ⟨q, -, rfl⟩ := Option.map_eq_some_iff.mp hsnap
        rw [← hx]
        rfl
    · rw [todo_welcome]
      intro x r _ _ op hop
      cases hop

end peer

/-! ### Every run -/

/-- What every run keeps of the server's slots and of whoever is connected. -/
structure Shipping (n : Link) : Prop where
  minding : Minding n
  attended : ∀ p, n.peer = some p → Attended n p

section runs
variable {n : Link}

theorem Shipping.step (h : Shipping n) (e : Event) (he : Relays n e) : Shipping (n.step e) := by
  refine ⟨h.minding.step e he, ?_⟩
  have hsame : ∀ {rt'}, ∀ p, n.peer = some p → Attended { n with rt := rt' } p := by
    intro rt' p hp
    rcases h.attended p hp with hthrown | ⟨hskip, ht, hf⟩
    · exact Or.inl hthrown
    · exact Or.inr ⟨hskip, ht, hf.held, hf.shows, hf.told⟩
  cases e with
  | act | drainDestroyed | tick => exact hsame
  | send budget shed joining =>
    intro p' hp'
    cases joining with
    | some j =>
      obtain rfl := Option.some.inj hp'
      exact attended_welcome h.minding budget shed j
    | none =>
      obtain ⟨p, hp, rfl⟩ := Option.map_eq_some_iff.mp (show n.peer.map _ = some p' from hp')
      exact (h.attended p hp).receive h.minding he

theorem shipping_exec {es : List Event} (persisted : Option SessionRecords) (facadeMembers : HostKey → List String)
    (simRate : ℚ) (h : Meets Link.step Relays (new persisted facadeMembers simRate) es) :
    Shipping (exec Link.step (new persisted facadeMembers simRate) es) := by
  have hstep : ∀ (n : Link) (e : Event), Shipping n → Relays n e → Shipping (n.step e) :=
    fun _ e hs he => hs.step e he
  exact Meets.invariant hstep ⟨minding_new persisted facadeMembers simRate, fun p hp => by cases hp⟩ h

/-- Each entity whose newest diff the peer lost is named again by the next envelope. -/
def Rewritten (n : Link) : Prop := ∀ p, n.peer = some p → ∀ x ∈ p.stale, (n.rt.entities.record x).isSome → x ∈ n.carried

/-- The spawn of the entity is among the ops held over for the peer. -/
def Awaits (n : Link) (p : Peer) (x : EntityId) : Prop :=
  ∃ op ∈ n.todo p, ∃ s, op.spawned = some s ∧ s.netId = x

/-- **A later transform envelope makes up for the ones that were shed**, where each entity whose
diff was lost has been written again: every entity a peer holds then shows the server's transform,
and it holds every entity whose spawn is not held over. -/
theorem superseded (persisted : Option SessionRecords) (facadeMembers : HostKey → List String) (simRate : ℚ)
    (es : List Event) (budget : ℕ) (p : Peer)
    (hrelays : Meets Link.step Relays (new persisted facadeMembers simRate) (es ++ [.send budget false none]))
    (hrewritten : Rewritten (exec Link.step (new persisted facadeMembers simRate) es))
    (hpeer : (exec Link.step (new persisted facadeMembers simRate) (es ++ [.send budget false none])).peer = some p)
    (hthrown : p.thrown = none) (x : EntityId)
    (hx : ((exec Link.step (new persisted facadeMembers simRate)
      (es ++ [.send budget false none])).rt.entities.record x).isSome) :
    p.mirror.Shows x ((exec Link.step (new persisted facadeMembers simRate)
      (es ++ [.send budget false none])).rt.wireTransform x) ∨
      Awaits (exec Link.step (new persisted facadeMembers simRate) (es ++ [.send budget false none])) p x := by
  obtain ⟨hes, hlast⟩ := Meets.append.mp hrelays
  have hbefore := shipping_exec persisted facadeMembers simRate hes
  rw [exec_append] at hpeer hx ⊢
  generalize exec Link.step (new persisted facadeMembers simRate) es = n at hbefore hlast hrewritten hpeer hx ⊢
  obtain ⟨hsend, -⟩ := hlast
  change Relays n (.send budget false none) at hsend
  change ((n.send budget false none).rt.entities.record x).isSome at hx
  change (n.send budget false none).peer = some p at hpeer
  show p.mirror.Shows x ((n.send budget false none).rt.wireTransform x) ∨ Awaits (n.send budget false none) p x
  obtain ⟨r, hr⟩ := Option.isSome_iff_exists.mp hx
  obtain ⟨p₀, hp₀, rfl⟩ := Option.map_eq_some_iff.mp
    (show n.peer.map (receive n.rt (n.setOf budget) false) = some p from hpeer)
  have hafter := ((hbefore.step (.send budget false none) hsend).attended _ hpeer).resolve_left (by
    rw [hthrown]
    simp)
  obtain ⟨-, htracks, hfaith⟩ := hafter
  cases hl : (receive n.rt (n.setOf budget) false p₀).mirror.index.localOf x with
  | none => exact Or.inr (htracks.awaited hr hl)
  | some l =>
    left
    refine hfaith.shows x r hr (fun hstale => ?_) l hl
    have hlive : p₀.thrown = none := by
      cases ht : p₀.thrown with
      | none => rfl
      | some err =>
        unfold receive at hthrown
        rw [if_pos (by rw [ht]; rfl), ht] at hthrown
        cases hthrown
    rw [(still_receive (n := n) hlive budget false).index] at hl
    rw [receive_eq hlive] at hstale
    rcases mem_staleAfter hstale with ⟨hold, hnot⟩ | hnone
    · exact hnot (hrewritten p₀ hp₀ x hold hx)
    · rw [hl] at hnone
      cases hnone

end runs

/-! ### An envelope that supersedes nothing -/

def moveTo (x : ℚ) : Event := .act (.op (.setPosition firstEntity (.finite x) (.finite 0) (.finite 0)))

/-- A peer holds an entity; the entity moves, and the diff is shed. -/
def shedMove : List Event :=
  [.send 10 false (some someone), .tick, spawnAt "a", .send 10 false none, .tick, moveTo 5, .send 10 true none, .tick]

/-- Where a run leaves the entity, on the server and on the peer. -/
def positions (n : Link) : ℚ × Option ℚ :=
  ((n.rt.wireTransform firstEntity).posX,
    n.peer.map (fun p => (readTransform (p.mirror.rt.transforms.cells (handleIndex firstEntity))).posX))

theorem superseded_moved_again : ∃ p,
    (exec Link.step empty (shedMove ++ [moveTo 7] ++ [.send 10 false none])).peer = some p ∧
    (p.mirror.Shows firstEntity
      ((exec Link.step empty (shedMove ++ [moveTo 7] ++ [.send 10 false none])).rt.wireTransform firstEntity) ∨
      Awaits (exec Link.step empty (shedMove ++ [moveTo 7] ++ [.send 10 false none])) p firstEntity) := by
  obtain ⟨p, hp⟩ := Option.isSome_iff_exists.mp
    (show (exec Link.step empty (shedMove ++ [moveTo 7] ++ [.send 10 false none])).peer.isSome = true by decide)
  have hthrown : (exec Link.step empty (shedMove ++ [moveTo 7] ++ [.send 10 false none])).peer.map Peer.thrown =
      some none := by decide
  rw [hp, Option.map_some, Option.some.injEq] at hthrown
  have hrelays : Meets Link.step Relays empty (shedMove ++ [moveTo 7] ++ [.send 10 false none]) := by decide
  have hthere : ((exec Link.step empty
      (shedMove ++ [moveTo 7] ++ [.send 10 false none])).rt.entities.record firstEntity).isSome = true := by decide
  have hrewritten : Rewritten (exec Link.step empty (shedMove ++ [moveTo 7])) := by
    have hstale : (exec Link.step empty (shedMove ++ [moveTo 7])).peer.map Peer.stale = some [firstEntity] := by decide
    have hcarried : firstEntity ∈ (exec Link.step empty (shedMove ++ [moveTo 7])).carried := by decide
    intro q hq x hx _
    rw [hq, Option.map_some, Option.some.injEq] at hstale
    rw [hstale, List.mem_singleton] at hx
    rw [hx]
    exact hcarried
  have hsuper := superseded none (fun _ => []) 60 (shedMove ++ [moveTo 7]) 10 p
  rw [← show empty = new none (fun _ => []) 60 from rfl] at hsuper
  exact ⟨p, hp, hsuper hrelays hrewritten hp hthrown firstEntity hthere⟩

/-- The next envelope names nothing, and the entity stays where it was. -/
theorem not_superseded_shedMove : ¬ ∀ (persisted : Option SessionRecords) (facadeMembers : HostKey → List String)
    (simRate : ℚ) (es : List Event) (budget : ℕ) (p : Peer),
    (exec Link.step (new persisted facadeMembers simRate) (es ++ [.send budget false none])).spill = [] →
    (exec Link.step (new persisted facadeMembers simRate) (es ++ [.send budget false none])).peer = some p →
    Unrefused p → ∀ x,
    ((exec Link.step (new persisted facadeMembers simRate) (es ++ [.send budget false none])).rt.entities.isAlive x) →
    p.mirror.Shows x ((exec Link.step (new persisted facadeMembers simRate)
      (es ++ [.send budget false none])).rt.wireTransform x) := by
  intro h
  obtain ⟨p, hp⟩ := Option.isSome_iff_exists.mp
    (show (exec Link.step empty (shedMove ++ [.send 10 false none])).peer.isSome = true by decide)
  have hverdict : (exec Link.step empty (shedMove ++ [.send 10 false none])).verdict =
      some (none, MirrorCounters.zero) := by decide
  have hspill : (exec Link.step empty (shedMove ++ [.send 10 false none])).spill = [] :=
    List.length_eq_zero_iff.mp (by decide)
  have halive : (exec Link.step empty (shedMove ++ [.send 10 false none])).rt.entities.isAlive firstEntity = true := by
    decide
  have hshows := h none (fun _ => []) 60 shedMove 10 p
  rw [← show empty = new none (fun _ => []) 60 from rfl] at hshows
  obtain ⟨l, r, hl, -, hread⟩ := hshows hspill hp (unrefused_of_verdict hverdict hp) firstEntity halive
  have hloc : (exec Link.step empty (shedMove ++ [.send 10 false none])).peer.map
      (fun p => p.mirror.index.localOf firstEntity) = some (some firstEntity) := by decide
  rw [hp, Option.map_some, Option.some.injEq] at hloc
  obtain rfl := Option.some.inj (hloc.symm.trans hl)
  have hpos : (exec Link.step empty (shedMove ++ [.send 10 false none])).positions = (5, some 0) := by decide
  unfold positions at hpos
  rw [hp, Option.map_some, hread] at hpos
  simp only [Prod.mk.injEq, Option.some.injEq] at hpos
  rw [hpos.1] at hpos
  exact absurd hpos.2 (by norm_num)

end Link

end Grove
