import Grove.Net.Link

/-! # Structure converges

What a peer of a `Link` can be, after any run: it has refused something (`Refused`), it is about
to (`Adrift`: an op on its way moves an entity beneath one it will never hold), or it tracks the
server.  Where the spill is empty and nothing was refused, it tracks the server with nothing left
to come, and that is agreement.

The one call that breaks this is a tag on a handle whose entity is gone: the tag index is keyed by
slot, so the tag lands on whatever occupies the slot now, and the op names the old handle. -/

namespace Grove

/-- The mirror shows exactly the server's entities, each with the template, the owner, the parent
and the tags it has there. -/
structure Agrees (rt : Runtime) (m : Mirror) : Prop where
  held : ∀ x, (rt.entities.record x).isSome ↔ (m.index.localOf x).isSome
  inj : ∀ x y l, m.index.localOf x = some l → m.index.localOf y = some l → x = y
  onto : ∀ l, (m.rt.entities.record l).isSome → ∃ x, m.index.localOf x = some l
  same : ∀ x l r, m.index.localOf x = some l → rt.entities.record x = some r →
    ∃ q, m.rt.entities.record l = some q ∧ q.template = r.template ∧ q.ownerId = r.ownerId ∧
      (if r.parent = noEntity then q.parent = noEntity else m.index.localOf r.parent = some q.parent) ∧
      ∀ t, t ∈ m.rt.tags.tagsOf l ↔ t ∈ rt.tags.tagsOf x

/-- A mirror that tracks the server, with nothing left to come, agrees with it. -/
theorem Tracks.agrees {v : View} {b : Runtime} {m : Mirror} (hv : v.tags = true) (h : Tracks v b m []) :
    Agrees b m := by
  obtain ⟨A, hf, hrun⟩ := h.world
  obtain rfl : A = b.forest v := Option.some.inj hrun
  have hnode : ∀ {x r}, b.entities.record x = some r → (b.forest v).node x = some (b.nodeOf v x r) :=
    fun hr => Runtime.forest_node_of_record hr
  refine ⟨?_, fun x y l hx hy => hf.inj hx hy, ?_, ?_⟩
  · intro x
    rw [hf.mapped, h.unmap]
    exact ⟨Or.inl, fun hx => hx.resolve_right (by simp)⟩
  · intro l hl
    obtain ⟨q, hq⟩ := Option.isSome_iff_exists.mp hl
    -- Nothing is queued on the mirror, so what it holds is alive.
    have ha : q.alive = true := by
      cases ha : q.alive with
      | true => rfl
      | false =>
        have hmem := (hf.sound.linked.queued l).mpr ⟨q, hq, ha⟩
        rw [h.settled] at hmem
        cases hmem
    exact hf.cover hq ha
  · intro x l r hl hr
    obtain ⟨l', q, hl', hq, -, hpar, htags⟩ := hf.node (hnode hr)
    obtain rfl := Option.some.inj (hl.symm.trans hl')
    obtain ⟨ht, ho⟩ := (h.labels x r hr).1 l q hl hq
    refine ⟨q, hq, ht, ho, ?_, ?_⟩
    · by_cases h0 : r.parent = noEntity
      · rw [if_pos h0] at hpar ⊢
        exact hpar
      · rw [if_neg h0] at hpar ⊢
        exact hpar
    · intro t
      have ht := Set.ext_iff.mp htags t
      rw [Runtime.mem_shownTags, Runtime.mem_shownTags, hv] at ht
      simpa using ht

/-- The relation reads the server's entities and tags. -/
theorem Tracks.congr {v : View} {b b' : Runtime} {m : Mirror} {todo : List WireSingleStructuralOp}
    (h : Tracks v b m todo) (he : b'.entities = b.entities) (ht : b'.tags = b.tags) : Tracks v b' m todo := by
  have hforest : b'.forest v = b.forest v := by
    refine Runtime.forest_congr (fun x => by rw [he]) (fun x _ => ?_)
    unfold Runtime.shownTags
    rw [ht]
  obtain ⟨A, hf, hrun⟩ := h.world
  exact ⟨⟨A, hf, by rw [hforest]; exact hrun⟩, h.unmap, h.settled, h.fits, h.ordered, by rw [he]; exact h.held,
    by rw [he]; exact h.brought, by rw [he]; exact h.removed, by rw [he]; exact h.labels⟩

/-- A mirror left alone still tracks. -/
theorem Tracks.still {v : View} {b : Runtime} {m m' : Mirror} {todo : List WireSingleStructuralOp}
    (h : Tracks v b m todo) (hs : Mirror.Still m m') : Tracks v b m' todo := by
  obtain ⟨A, hf, hrun⟩ := h.world
  exact ⟨⟨A, hs.follows hf, hrun⟩, hs.pendingUnmap.trans h.unmap, by rw [hs.entities]; exact h.settled, h.fits,
    h.ordered, by rw [hs.index]; exact h.held, h.brought, h.removed, by rw [hs.index, hs.entities]; exact h.labels⟩

namespace Link

/-! ### An op that will be refused -/

/-- An op to come moves an entity beneath one that the mirror will never hold. -/
def Adrift (b : Runtime) (m : Mirror) (todo : List WireSingleStructuralOp) : Prop :=
  ∃ q, (∃ x, .reparent x (some q) ∈ todo) ∧ m.index.localOf q = none ∧
    (∀ op ∈ todo, ∀ s, op.spawned = some s → s.netId ≠ q) ∧ b.entities.table.Issued q

section status
variable {v : View} {n : Link} {m : Mirror} {todo rest : List WireSingleStructuralOp}

/-- Every spawn a send adds is of an entity made since the last one, and not an elided one. -/
theorem spawned_added (h : Serving v n) {op : WireSingleStructuralOp} (hop : op ∈ n.added) {s : EntitySnapshot}
    (hs : op.spawned = some s) : ¬ n.drained.entities.table.Issued s.netId ∧
      s.netId ∉ ephemeralIds n.rt n.rt.channels.structural := by
  obtain ⟨op₀, hop₀, hsent⟩ := List.mem_filterMap.mp hop
  obtain ⟨id, t, r, rfl, -, hid, -⟩ := spawned_sentOf hsent hs
  rw [hid]
  exact ⟨(h.advances.fresh id t hop₀).1, (sentOf_cases hsent).1⟩

theorem Adrift.extend (h : Serving v n) (ha : Adrift n.drained m todo) : Adrift n.rt m (todo ++ n.added) := by
  obtain ⟨q, ⟨x, hx⟩, hq, hspawn, hissued⟩ := ha
  refine ⟨q, ⟨x, List.mem_append_left _ hx⟩, hq, ?_, h.advances.issued q hissued⟩
  intro op hop s hs
  rcases List.mem_append.mp hop with hop | hop
  · exact hspawn op hop s hs
  · rintro rfl
    exact (spawned_added h hop hs).1 hissued

/-- The journal since the last send keeps a peer in step, or holds the op it will refuse. -/
theorem extend_or (h : Serving v n) (ht : Tracks v n.drained m todo) :
    Tracks v n.rt m (todo ++ n.added) ∨ Adrift n.rt m (todo ++ n.added) := by
  by_cases hclear : ClearOf (ephemeralIds n.rt n.rt.channels.structural)
      (n.rt.channels.structural.flatMap StructuralOp.singles)
  · exact Or.inl (ht.extend h.start h.advances (fun x => mem_ephemeralIds) hclear)
  · right
    unfold ClearOf at hclear
    push Not at hclear
    obtain ⟨op, hop, hbad⟩ := hclear
    cases op with
    | reparent x q =>
      simp only [SingleStructuralOp.clearOf, ne_eq, decide_eq_true_eq, not_or, not_not] at hbad
      obtain ⟨hx, hq⟩ := hbad
      obtain ⟨⟨t, hspawn⟩, hnone⟩ := mem_ephemeralIds.mp hq
      obtain ⟨hfresh, hissued⟩ := h.advances.fresh q t hspawn
      have h0 : q ≠ noEntity := SlotTable.ne_zero_of_issued _ hissued
      refine ⟨q, ⟨x, List.mem_append_right _ (List.mem_filterMap.mpr ⟨_, hop, ?_⟩)⟩, ?_, ?_, hissued⟩
      · simp [sentOf, toWireSingle, SingleStructuralOp.id, hx, h0]
      · cases hl : m.index.localOf q with
        | none => rfl
        | some l => exact absurd (ht.held q l hl) hfresh
      · intro op' hop' s hs
        rcases List.mem_append.mp hop' with hop' | hop'
        · rintro rfl
          exact hfresh (ht.brought op' hop' s hs)
        · rintro rfl
          exact (spawned_added h hop' hs).2 hq
    | _ => simp [SingleStructuralOp.clearOf] at hbad

/-- Something was refused between two mirrors, or thrown. -/
def RefusedBetween (m : Mirror) (out : Mirror × Option LoadError) : Prop :=
  out.2.isSome ∨ m.counters.unknownNetId < out.1.counters.unknownNetId ∨
    m.counters.oversizedList < out.1.counters.oversizedList

/-- A group past the cap is refused. -/
theorem refused_oversized {envelope : StateEnvelope}
    (h : ∃ op ∈ envelope.structural, maxWireItems < op.singles.length) :
    RefusedBetween m (m.applyState envelope) := by
  cases hjournal : Mirror.applyJournal envelope.structural (m.opening envelope) with
  | mk m' err =>
    cases err with
    | some err =>
      rw [Mirror.applyState_of_error hjournal]
      exact Or.inl rfl
    | none =>
      have hlt := Mirror.applyJournal_oversized h (m.opening envelope) (by rw [hjournal])
      rw [hjournal] at hlt
      exact Or.inr (Or.inr (lt_of_lt_of_le hlt (Mirror.applyState_settled hjournal).1.oversizedList))

/-- An envelope that holds the op is refused; one that does not leaves it to come. -/
theorem Adrift.deliver {b : Runtime} {envelope : StateEnvelope}
    (h : Adrift b m (envelope.structural.flatMap WireStructuralOp.singles ++ rest)) :
    RefusedBetween m (m.applyState envelope) ∨ Adrift b (m.applyState envelope).1 rest := by
  obtain ⟨q, ⟨x, hx⟩, hq, hspawn, hissued⟩ := h
  by_cases hcap : ∀ op ∈ envelope.structural, op.singles.length ≤ maxWireItems
  · cases hjournal : Mirror.applyJournal envelope.structural (m.opening envelope) with
    | mk m' err =>
      cases err with
      | some err =>
        rw [Mirror.applyState_of_error hjournal]
        exact Or.inl (Or.inl rfl)
      | none =>
        have hsettled := (Mirror.applyState_settled hjournal).1
        rw [Mirror.applyJournal_eq hcap] at hjournal
        have hkept : ∀ op ∈ envelope.structural.flatMap WireStructuralOp.singles, ∀ s,
            op.spawned = some s → s.netId ≠ q := fun op hop => hspawn op (List.mem_append_left _ hop)
        rcases List.mem_append.mp hx with hx | hx
        · have hlt := Mirror.applySingles_unheld (show (m.opening envelope).index.localOf q = none from hq)
            hkept ⟨x, hx⟩ (by rw [hjournal])
          rw [hjournal] at hlt
          exact Or.inl (Or.inr (Or.inl (lt_of_lt_of_le hlt hsettled.unknownNetId)))
        · refine Or.inr ⟨q, ⟨x, hx⟩, ?_, fun op hop => hspawn op (List.mem_append_right _ hop), hissued⟩
          have hloc := Mirror.localOf_applySingles (m.opening envelope) hkept
          rw [hjournal] at hloc
          rw [hsettled.index, Mirror.localOf_drain]
          split_ifs
          · rfl
          · exact hloc.trans hq
  · push Not at hcap
    exact Or.inl (refused_oversized hcap)

/-- What an envelope leaves of a peer that was in step. -/
theorem deliver_or {b : Runtime} {envelope : StateEnvelope}
    (h : Tracks v b m (envelope.structural.flatMap WireStructuralOp.singles ++ rest)) :
    RefusedBetween m (m.applyState envelope) ∨ Tracks v b (m.applyState envelope).1 rest := by
  by_cases hcap : ∀ op ∈ envelope.structural, op.singles.length ≤ maxWireItems
  · rcases h.deliver hcap with ⟨-, hlt⟩ | hacc
    · exact Or.inl (Or.inr (Or.inr hlt))
    · cases herr : (m.applyState envelope).2 with
      | none => exact Or.inr (hacc.tracks herr)
      | some err => exact Or.inl (Or.inl (by rw [herr]; rfl))
  · push Not at hcap
    exact Or.inl (refused_oversized hcap)

end status

/-! ### Every run -/

section runs
variable {v : View} {n : Link} {p : Peer}

/-- The peer has counted or thrown. -/
def Refused (p : Peer) : Prop :=
  p.thrown.isSome ∨ 0 < p.mirror.counters.unknownNetId ∨ 0 < p.mirror.counters.oversizedList

/-- What a peer can be. -/
def Placed (v : View) (n : Link) (p : Peer) : Prop :=
  Refused p ∨ (p.session.structuralSkip ≤ n.spill.length ∧
    (Adrift n.drained p.mirror (n.todo p) ∨ Tracks v n.drained p.mirror (n.todo p)))

theorem Refused.grows {p' : Peer} (h : Refused p) (hg : Mirror.Grows p.mirror p'.mirror)
    (ht : p.thrown.isSome → p'.thrown.isSome) : Refused p' := by
  rcases h with h | h | h
  · exact Or.inl (ht h)
  · exact Or.inr (Or.inl (lt_of_lt_of_le h hg.unknownNetId))
  · exact Or.inr (Or.inr (lt_of_lt_of_le h hg.oversizedList))

/-- What a peer that has thrown nothing is after a send. -/
theorem receive_eq (h : p.thrown = none) (budget : ℕ) (shed : Bool) :
    receive n.rt (n.setOf budget) shed p =
      { p with
        session := n.sessionAfter budget p
        mirror :=
          if (p.mirror.applyState (n.envelopeOf budget p)).2.isSome || shed then
            (p.mirror.applyState (n.envelopeOf budget p)).1
          else
            (p.mirror.applyState (n.envelopeOf budget p)).1.applyTransforms
              (transformEnvelope (n.setOf budget))
        thrown := (p.mirror.applyState (n.envelopeOf budget p)).2
        dropped := p.dropped + droppedBy p.mirror (n.envelopeOf budget p)
        stale :=
          staleAfter n.rt (n.setOf budget) shed (p.mirror.applyState (n.envelopeOf budget p)).1 p.stale } := by
  unfold receive
  rw [h]
  rfl

/-- The transform envelope leaves the structure as the state envelope made it. -/
theorem still_receive (h : p.thrown = none) (budget : ℕ) (shed : Bool) :
    Mirror.Still (p.mirror.applyState (n.envelopeOf budget p)).1
      (receive n.rt (n.setOf budget) shed p).mirror := by
  rw [receive_eq h]
  show Mirror.Still _ (if _ then _ else _)
  split_ifs
  · exact Mirror.Still.refl _
  · exact Mirror.still_applyTransforms _ _

/-- A peer that has counted or thrown has still. -/
theorem Refused.receive (h : Refused p) (budget : ℕ) (shed : Bool) :
    Refused (receive n.rt (n.setOf budget) shed p) := by
  cases hthrown : p.thrown with
  | some err =>
    have hself : Link.receive n.rt (n.setOf budget) shed p = p := by
      unfold Link.receive
      rw [if_pos (by rw [hthrown]; rfl)]
    rw [hself]
    exact h
  | none =>
    refine h.grows ((Mirror.grows_applyState _ _).trans (still_receive hthrown budget shed).toGrows) ?_
    rw [hthrown]
    intro ht
    cases ht

/-- What was refused between two mirrors shows on the peer. -/
theorem RefusedBetween.receive (h : p.thrown = none) {budget : ℕ} {shed : Bool}
    (hb : RefusedBetween p.mirror (p.mirror.applyState (n.envelopeOf budget p))) :
    Refused (Link.receive n.rt (n.setOf budget) shed p) := by
  have hgrow := (still_receive (n := n) h budget shed).toGrows
  rcases hb with hb | hb | hb
  · left
    rw [receive_eq h]
    exact hb
  · exact Or.inr (Or.inl (lt_of_lt_of_le (Nat.zero_lt_of_lt hb) hgrow.unknownNetId))
  · exact Or.inr (Or.inr (lt_of_lt_of_le (Nat.zero_lt_of_lt hb) hgrow.oversizedList))

theorem Placed.receive (hs : Serving v n) (hp : Placed v n p) (budget : ℕ) (shed : Bool) :
    Placed v (n.send budget shed none) (Link.receive n.rt (n.setOf budget) shed p) := by
  rcases hp with hp | ⟨hskip, hp⟩
  · exact Or.inl (hp.receive budget shed)
  cases hthrown : p.thrown with
  | some err => exact Or.inl (Refused.receive (Or.inl (by rw [hthrown]; rfl)) budget shed)
  | none =>
    have hstill := still_receive (n := n) hthrown budget shed
    have hskip' := skip_le budget hskip shed none
    have hsplit := flatMap_split budget hskip shed none
    have hsession : (Link.receive n.rt (n.setOf budget) shed p).session = n.sessionAfter budget p := by
      rw [receive_eq hthrown]
    -- The journal joins what was to come; the envelope is the front of it.
    have hjoined : Adrift n.rt p.mirror (n.todo p ++ n.added) ∨ Tracks v n.rt p.mirror (n.todo p ++ n.added) := by
      rcases hp with hp | hp
      · exact Or.inl (hp.extend hs)
      · exact (extend_or hs hp).symm
    rw [← hsplit] at hjoined
    unfold Placed todo
    rw [hsession]
    rcases hjoined with ha | ht
    · rcases ha.deliver with hb | ha
      · exact Or.inl (hb.receive hthrown)
      · refine Or.inr ⟨hskip', Or.inl ?_⟩
        obtain ⟨q, hx, hq, hrest⟩ := ha
        exact ⟨q, hx, by rw [hstill.index]; exact hq, hrest⟩
    · rcases deliver_or ht with hb | ht
      · exact Or.inl (hb.receive hthrown)
      · have hafter : Tracks v (n.send budget shed none).drained _ _ := ht.congr rfl rfl
        exact Or.inr ⟨hskip', Or.inr (hafter.still hstill)⟩

theorem placed_welcome (hs : Serving v n) (budget : ℕ) (shed : Bool) (j : Joiner) :
    Placed v (n.send budget shed (some j))
      (welcome (n.send budget shed (some j)).rt (n.send budget shed (some j)).spill j) := by
  have hsent := hs.send budget shed (some j)
  have ht := tracks_snapshot hsent.sound j.player.id j.scripts j.facadeMembers
    (n.send budget shed (some j)).rt.simRate
  rcases deliver_or ht with hb | ht
  · left
    rcases hb with hb | hb | hb
    · exact Or.inl hb
    · exact Or.inr (Or.inl (Nat.zero_lt_of_lt hb))
    · exact Or.inr (Or.inr (Nat.zero_lt_of_lt hb))
  · refine Or.inr ⟨le_rfl, Or.inr ?_⟩
    rw [todo_welcome]
    exact ht

/-- What every run keeps of the server and of whoever is connected. -/
def Kept (v : View) (n : Link) : Prop := Serving v n ∧ ∀ p, n.peer = some p → Placed v n p

theorem Kept.step (h : Kept v n) (e : Event) (he : Names v n e) : Kept v (n.step e) := by
  refine ⟨h.1.step e he, ?_⟩
  cases e with
  | act | drainDestroyed | tick => exact h.2
  | send budget shed joining =>
    intro p' hp'
    cases joining with
    | some j =>
      obtain rfl := Option.some.inj hp'
      exact placed_welcome h.1 budget shed j
    | none =>
      obtain ⟨p, hp, rfl⟩ := Option.map_eq_some_iff.mp (show n.peer.map _ = some p' from hp')
      exact (h.2 p hp).receive h.1 budget shed

theorem kept_exec {es : List Event} (h : Meets Link.step (Names v) n es) (hn : Kept v n) :
    Kept v (exec Link.step n es) :=
  Meets.invariant (fun _ e hs he => hs.step e he) hn h

theorem kept_new (persisted : Option SessionRecords) (facadeMembers : HostKey → List String) (simRate : ℚ) :
    Kept v (new persisted facadeMembers simRate) :=
  ⟨serving_new persisted facadeMembers simRate, fun p hp => by cases hp⟩

end runs

/-! ### Convergence -/

/-- No tag of the call has the reserved prefix. -/
def PlainTag : Runtime.Op → Prop
  | .tag _ name | .untag _ name => isSay name = false
  | _ => True

instance : DecidablePred PlainTag
  | .tag _ name | .untag _ name => inferInstanceAs (Decidable (isSay name = false))
  | .spawn .. | .destroy _ | .attachTo .. | .detach _ | .bubble .. | .setPosition .. | .setRotation ..
  | .setScale .. | .setOpacity .. | .setLayer .. | .writeState .. | .ensureHost _ | .attachToEntity ..
  | .attach .. => inferInstanceAs (Decidable True)

/-- No tag of the event has the reserved prefix. -/
def PlainTags : Event → Prop
  | .act a => ∀ op ∈ a.ops, PlainTag op
  | .drainDestroyed onEnd => ∀ a ∈ onEnd, ∀ op ∈ a.ops, PlainTag op
  | .tick | .send _ _ _ => True

instance : DecidablePred PlainTags
  | .act a => inferInstanceAs (Decidable (∀ op ∈ a.ops, PlainTag op))
  | .drainDestroyed onEnd => inferInstanceAs (Decidable (∀ a ∈ onEnd, ∀ op ∈ a.ops, PlainTag op))
  | .tick | .send .. => inferInstanceAs (Decidable True)

/-- A tag call names an entity that is there. -/
def TagsLive (rt : Runtime) : Runtime.Op → Prop
  | .tag id _ | .untag id _ => (rt.entities.record id).isSome
  | _ => True

instance (rt : Runtime) : DecidablePred (TagsLive rt)
  | .tag id _ | .untag id _ => inferInstanceAs (Decidable ((rt.entities.record id).isSome = true))
  | .spawn .. | .destroy _ | .attachTo .. | .detach _ | .bubble .. | .setPosition .. | .setRotation ..
  | .setScale .. | .setOpacity .. | .setLayer .. | .writeState .. | .ensureHost _ | .attachToEntity ..
  | .attach .. => inferInstanceAs (Decidable True)

/-- Every tag call of the event names an entity that is there. -/
def LiveTags (n : Link) : Event → Prop
  | .act a => Runtime.ActMeets TagsLive n.rt a
  | .drainDestroyed onEnd =>
    Meets Runtime.act (Runtime.ActMeets TagsLive)
      { n.rt with entities := { n.rt.entities with pendingDestroy := [] } } onEnd
  | .tick | .send _ _ _ => True

instance (n : Link) : DecidablePred (LiveTags n)
  | .act a => inferInstanceAs (Decidable (Runtime.ActMeets TagsLive n.rt a))
  | .drainDestroyed onEnd =>
    inferInstanceAs (Decidable (Meets Runtime.act (Runtime.ActMeets TagsLive)
      { n.rt with entities := { n.rt.entities with pendingDestroy := [] } } onEnd))
  | .tick | .send .. => inferInstanceAs (Decidable True)

theorem names_of_liveTags {n : Link} {e : Event} (hplain : PlainTags e) (h : LiveTags n e) :
    Names ⟨true, false⟩ n e := by
  have hop : ∀ (rt : Runtime) (op : Runtime.Op), PlainTag op → TagsLive rt op → op.Names ⟨true, false⟩ rt := by
    intro rt op hplain hlive
    cases op with
    | tag | untag => exact ⟨fun _ => hplain, fun _ _ => hlive⟩
    | attachToEntity id klass inst => exact (fun hs => by cases hs)
    | _ => trivial
  cases e with
  | act a => exact h.mono (fun rt op hmem => hop rt op (hplain op hmem))
  | drainDestroyed onEnd =>
    exact Runtime.actsMeet_mono onEnd (fun rt a ha op hmem => hop rt op (hplain a ha op hmem)) h
  | tick | send => trivial

/-- The peer threw nothing and left the four refusal counters at zero. -/
structure Unrefused (p : Peer) : Prop where
  thrown : p.thrown = none
  unknownNetId : p.mirror.counters.unknownNetId = 0
  outOfOrderParent : p.mirror.counters.outOfOrderParent = 0
  oversizedList : p.mirror.counters.oversizedList = 0
  invalidNetId : p.mirror.counters.invalidNetId = 0

/-- **Structural replication converges.**  In a run whose tag calls all name entities that are
there, a peer that refused nothing agrees with the server after any send that leaves the spill
empty. -/
theorem structure_converges (persisted : Option SessionRecords) (facadeMembers : HostKey → List String)
    (simRate : ℚ) (es : List Event) (budget : ℕ) (shed : Bool) (joining : Option Joiner) (p : Peer)
    (hplain : ∀ e ∈ es, PlainTags e)
    (hlive : Meets Link.step LiveTags (new persisted facadeMembers simRate) es)
    (hspill : (exec Link.step (new persisted facadeMembers simRate) (es ++ [.send budget shed joining])).spill = [])
    (hpeer : (exec Link.step (new persisted facadeMembers simRate) (es ++ [.send budget shed joining])).peer = some p)
    (hrefused : Unrefused p) :
    Agrees (exec Link.step (new persisted facadeMembers simRate) (es ++ [.send budget shed joining])).rt
      p.mirror := by
  have hmeets : Meets Link.step (Names ⟨true, false⟩) (new persisted facadeMembers simRate)
      (es ++ [.send budget shed joining]) :=
    Meets.append.mpr ⟨hlive.mono (fun _ e he => names_of_liveTags (hplain e he)), trivial, trivial⟩
  have hkept := kept_exec hmeets (kept_new persisted facadeMembers simRate)
  have hdrained : (exec Link.step (new persisted facadeMembers simRate) (es ++ [.send budget shed joining])).drained =
      (exec Link.step (new persisted facadeMembers simRate) (es ++ [.send budget shed joining])).rt := by
    rw [exec_append]
    rfl
  rcases hkept.2 p hpeer with (h | h | h) | ⟨-, hplaced⟩
  · rw [hrefused.thrown] at h
    cases h
  · rw [hrefused.unknownNetId] at h
    cases h
  · rw [hrefused.oversizedList] at h
    cases h
  · unfold todo at hplaced
    rw [hspill, hdrained, List.drop_nil] at hplaced
    rcases hplaced with ⟨q, ⟨x, hx⟩, -⟩ | ht
    · cases hx
    · exact ht.agrees rfl

/-! ### The stale tag -/

/-- A peer with no bundle. -/
def someone : Joiner := ⟨Session.new "c" none 0, ⟨"p", 0, "p"⟩, none, fun _ => []⟩

/-- A world to run in. -/
def empty : Link := new none (fun _ => []) 60

/-- The first entity a world makes, and the one made next in the same slot. -/
def firstEntity : EntityId := 16777216

def secondEntity : EntityId := 33554432

def spawnAt (template : String) : Event := .act (.op (.spawn template (.finite 0) (.finite 0) ""))

/-- An entity is made and tagged. -/
def liveTag : List Event :=
  [.send 10 false (some someone), .tick, spawnAt "a", .act (.op (.tag firstEntity "x"))]

/-- An entity is made and destroyed, its slot is taken, and its handle is tagged. -/
def staleTag : List Event :=
  [.send 10 false (some someone), .tick, spawnAt "a", .act (.op (.destroy firstEntity)), .drainDestroyed [],
    .tick, spawnAt "b", .act (.op (.tag firstEntity "x")), .drainDestroyed []]

/-- What a run leaves a peer with: what it threw, and its counters. -/
def verdict (n : Link) : Option (Option LoadError × MirrorCounters) :=
  n.peer.map (fun p => (p.thrown, p.mirror.counters))

theorem unrefused_of_verdict {n : Link} {p : Peer} (h : n.verdict = some (none, MirrorCounters.zero))
    (hp : n.peer = some p) : Unrefused p := by
  unfold verdict at h
  rw [hp, Option.map_some, Option.some.injEq, Prod.mk.injEq] at h
  exact ⟨h.1, by rw [h.2]; rfl, by rw [h.2]; rfl, by rw [h.2]; rfl, by rw [h.2]; rfl⟩

theorem structure_converges_liveTag : ∃ p, (exec Link.step empty (liveTag ++ [.send 10 false none])).peer = some p ∧
    Agrees (exec Link.step empty (liveTag ++ [.send 10 false none])).rt p.mirror := by
  obtain ⟨p, hp⟩ := Option.isSome_iff_exists.mp
    (show (exec Link.step empty (liveTag ++ [.send 10 false none])).peer.isSome = true by decide)
  refine ⟨p, hp, structure_converges none (fun _ => []) 60 liveTag 10 false none p (by decide) ?_ ?_ hp ?_⟩
  · show Meets Link.step LiveTags empty liveTag
    decide
  · show (exec Link.step empty (liveTag ++ [.send 10 false none])).spill = []
    exact List.length_eq_zero_iff.mp (by decide)
  · have hverdict : (exec Link.step empty (liveTag ++ [.send 10 false none])).verdict =
        some (none, MirrorCounters.zero) := by decide
    exact unrefused_of_verdict hverdict hp

/-- The server tagged the entity in the slot; the op named the one before it, and was elided with it. -/
theorem structure_diverges_staleTag : ¬ ∀ (persisted : Option SessionRecords) (facadeMembers : HostKey → List String)
    (simRate : ℚ) (es : List Event) (budget : ℕ) (shed : Bool) (joining : Option Joiner) (p : Peer),
    (∀ e ∈ es, PlainTags e) →
    (exec Link.step (new persisted facadeMembers simRate) (es ++ [.send budget shed joining])).spill = [] →
    (exec Link.step (new persisted facadeMembers simRate) (es ++ [.send budget shed joining])).peer = some p →
    Unrefused p →
    Agrees (exec Link.step (new persisted facadeMembers simRate) (es ++ [.send budget shed joining])).rt p.mirror := by
  intro h
  obtain ⟨p, hp⟩ := Option.isSome_iff_exists.mp
    (show (exec Link.step empty (staleTag ++ [.send 10 false none])).peer.isSome = true by decide)
  have hspill : (exec Link.step empty (staleTag ++ [.send 10 false none])).spill = [] :=
    List.length_eq_zero_iff.mp (by decide)
  have hverdict : (exec Link.step empty (staleTag ++ [.send 10 false none])).verdict =
      some (none, MirrorCounters.zero) := by decide
  have hagrees : Agrees (exec Link.step empty (staleTag ++ [.send 10 false none])).rt p.mirror :=
    h none (fun _ => []) 60 staleTag 10 false none p (by decide) hspill hp (unrefused_of_verdict hverdict hp)
  have hmirror : (exec Link.step empty (staleTag ++ [.send 10 false none])).peer.map
      (fun p => (p.mirror.index.localOf secondEntity, p.mirror.rt.tags.tagsOf firstEntity)) =
      some (some firstEntity, []) := by decide
  rw [hp, Option.map_some, Option.some.injEq, Prod.mk.injEq] at hmirror
  obtain ⟨r, hr⟩ := Option.isSome_iff_exists.mp
    (show ((exec Link.step empty (staleTag ++ [.send 10 false none])).rt.entities.record secondEntity).isSome = true
      by decide)
  obtain ⟨q, -, -, -, -, htags⟩ := hagrees.same secondEntity firstEntity r hmirror.1 hr
  have hx : "x" ∈ (exec Link.step empty (staleTag ++ [.send 10 false none])).rt.tags.tagsOf secondEntity := by decide
  have hnone := (htags "x").mpr hx
  rw [hmirror.2] at hnone
  cases hnone

end Link

end Grove
