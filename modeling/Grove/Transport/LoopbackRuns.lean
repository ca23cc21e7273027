import Grove.Transport.CodecDirections
import Grove.Transport.Loopback

/-! # Latency and closing of a loopback pair

`SideOk` is the account of one inbox: the frames its peer sent while the pair was open are the ones handled,
each in the `deliver()` its latency names, followed by the ones queued, each as many passes from its own;
behind them stand the terminal markers.  Each operation keeps it, and `loopback_latency` reads it off any run. -/

namespace Grove
namespace Loopback

open FrameInbox

variable {F M E : Type}

/-- The frames that were sent while neither end had closed. -/
def openSends (sent : List (Sent F)) : List (Sent F) := sent.filter Sent.wasOpen

/-- What was sent so, as it waits in the peer's queue. -/
def waiting (codec : FrameCodec F M E) (latency delivers : ℕ) (p : Sent F) : Queued F :=
  ⟨.frame p.frame, codec.byteLength p.frame, p.after + latency - delivers⟩

/-- The inbox of an end, against what was sent to it: `drained` when this `deliver()` is through with it. -/
structure SideOk (codec : FrameCodec F M E) (latency delivers : ℕ) (closedAfter : Option ℕ) (drained : Prop)
    (sent : List (Sent F)) (handled : List (M × ℕ)) (fired : List ℕ) (inbox : Inbox F)
    (done queue : List (Sent F)) (markers : List (Queued F)) : Prop where
  onMessage : inbox.onMessage.isSome
  onClose : inbox.onClose.isSome
  head : inbox.head ≤ inbox.entries.length
  split : openSends sent = done ++ queue
  sorted : (openSends sent).Pairwise (fun p q => p.after ≤ q.after)
  answered : handled.map (fun p => (Except.ok p.1, p.2)) = done.map (fun p => (codec.decode p.frame, p.after + latency))
  pending : inbox.pending = queue.map (waiting codec latency delivers) ++ markers
  decodes : ∀ p ∈ queue, ∃ m, codec.decode p.frame = .ok m
  past : ∀ p ∈ done, p.after + latency ≤ delivers
  early : ∀ p ∈ queue, delivers ≤ p.after + latency ∧ (drained → delivers < p.after + latency)
  after_le : ∀ p ∈ openSends sent, p.after ≤ delivers ∧ ∀ c, closedAfter = some c → p.after ≤ c
  marker : ∀ e ∈ markers, e.item = .closeMarker
  opened : closedAfter = none → markers = [] ∧ fired = []
  latched : inbox.closeFired = true ↔ fired ≠ []
  firedOnce : fired.length ≤ 1
  firedLast : fired ≠ [] → queue = []
  soon : ∀ c, closedAfter = some c → fired = [] → c ≤ delivers ∧ (∃ e rest, markers = e :: rest ∧ e.due ≤ c + latency - delivers) ∧
    delivers ≤ c + latency ∧ (drained → delivers < c + latency)

namespace SideOk

variable {codec : FrameCodec F M E} {latency delivers : ℕ} {closedAfter : Option ℕ} {drained : Prop} {sent : List (Sent F)}
  {handled : List (M × ℕ)} {fired : List ℕ} {inbox : Inbox F} {done queue : List (Sent F)} {markers : List (Queued F)}

theorem weaken (h : SideOk codec latency delivers closedAfter drained sent handled fired inbox done queue markers)
    {drained' : Prop} (hdrained : drained' → drained) :
    SideOk codec latency delivers closedAfter drained' sent handled fired inbox done queue markers :=
  { h with
    early := fun p hp => ⟨(h.early p hp).1, fun hd => (h.early p hp).2 (hdrained hd)⟩
    soon := fun c hc hfired => by
      obtain ⟨hle, hmarker, hlate, hstrict⟩ := h.soon c hc hfired
      exact ⟨hle, hmarker, hlate, fun hd => hstrict (hdrained hd)⟩ }

/-- One pump pass. -/
theorem age (h : SideOk codec latency delivers closedAfter drained sent handled fired inbox done queue markers)
    (hdrained : drained) :
    SideOk codec latency (delivers + 1) closedAfter False sent handled fired inbox.age done queue
      (markers.map (fun e => { e with due := e.due - 1 })) where
  onMessage := h.onMessage
  onClose := h.onClose
  head := by
    show inbox.head ≤ (inbox.entries.take inbox.head ++ (inbox.entries.drop inbox.head).map _).length
    rw [List.length_append, List.length_map, ← List.length_append, List.take_append_drop]
    exact h.head
  split := h.split
  sorted := h.sorted
  answered := h.answered
  pending := by
    rw [Inbox.pending_age h.head, h.pending, List.map_append, List.map_map]
    rfl
  decodes := h.decodes
  past := fun p hp => (h.past p hp).trans (Nat.le_succ _)
  early := fun p hp => ⟨(h.early p hp).2 hdrained, fun hd => hd.elim⟩
  after_le := fun p hp => ⟨(h.after_le p hp).1.trans (Nat.le_succ _), (h.after_le p hp).2⟩
  marker := fun e he => by
    obtain ⟨e', he', rfl⟩ := List.mem_map.mp he
    exact h.marker e' he'
  opened := fun hnone => ⟨by rw [(h.opened hnone).1]; rfl, (h.opened hnone).2⟩
  latched := h.latched
  firedOnce := h.firedOnce
  firedLast := h.firedLast
  soon := fun c hc hfired => by
    obtain ⟨hle, ⟨e, rest, rfl, hdue⟩, -, hstrict⟩ := h.soon c hc hfired
    refine ⟨hle.trans (Nat.le_succ _), ⟨_, _, List.map_cons, ?_⟩, hstrict hdrained, fun hd => hd.elim⟩
    show e.due - 1 ≤ c + latency - (delivers + 1)
    omega

/-- A frame sent while the pair was open, received. -/
theorem receive (h : SideOk codec latency delivers none drained sent handled fired inbox done queue markers)
    {frame : F} (hdecode : ∃ m, codec.decode frame = .ok m) (hlatency : 0 < latency) :
    SideOk codec latency delivers none drained (sent ++ [⟨frame, delivers, true⟩]) handled fired
      { inbox with
        queuedBytes := inbox.queuedBytes + codec.byteLength frame
        entries := inbox.entries ++ [⟨.frame frame, codec.byteLength frame, latency⟩] }
      done (queue ++ [⟨frame, delivers, true⟩]) [] := by
  obtain ⟨hmarkers, hfired⟩ := h.opened rfl
  have hpending := h.pending
  rw [hmarkers, List.append_nil] at hpending
  have hopen : openSends (sent ++ [⟨frame, delivers, true⟩]) = openSends sent ++ [⟨frame, delivers, true⟩] := by
    unfold openSends
    rw [List.filter_append]
    rfl
  refine { h with
    head := ?_, split := ?_, sorted := ?_, pending := ?_, decodes := ?_, early := ?_, after_le := ?_, marker := ?_
    opened := ?_, firedLast := ?_, soon := ?_ }
  · show inbox.head ≤ (inbox.entries ++ _).length
    rw [List.length_append]
    exact h.head.trans (Nat.le_add_right _ _)
  · rw [hopen, h.split, List.append_assoc]
  · rw [hopen, List.pairwise_append]
    refine ⟨h.sorted, List.pairwise_singleton _ _, fun p hp q hq => ?_⟩
    rw [List.mem_singleton.mp hq]
    exact (h.after_le p hp).1
  · show (inbox.entries ++ _).drop inbox.head = _
    rw [Inbox.pending_snoc h.head, hpending, List.map_append, List.append_nil]
    unfold waiting
    simp only [List.map_cons, List.map_nil, Nat.add_sub_cancel_left]
  · intro p hp
    rcases List.mem_append.mp hp with hp | hp
    · exact h.decodes p hp
    · rw [List.mem_singleton.mp hp]
      exact hdecode
  · intro p hp
    rcases List.mem_append.mp hp with hp | hp
    · exact h.early p hp
    · rw [List.mem_singleton.mp hp]
      exact ⟨Nat.le_add_right _ _, fun _ => Nat.lt_add_of_pos_right hlatency⟩
  · rw [hopen]
    intro p hp
    rcases List.mem_append.mp hp with hp | hp
    · exact h.after_le p hp
    · rw [List.mem_singleton.mp hp]
      exact ⟨Nat.le_refl _, fun c hc => by cases hc⟩
  · exact fun e he => absurd he List.not_mem_nil
  · exact fun _ => ⟨rfl, hfired⟩
  · exact fun hne => absurd hfired hne
  · exact fun c hc => by cases hc

/-- A frame sent after a close, which goes nowhere. -/
theorem sealed (h : SideOk codec latency delivers closedAfter drained sent handled fired inbox done queue markers) (frame : F) :
    SideOk codec latency delivers closedAfter drained (sent ++ [⟨frame, delivers, false⟩]) handled fired inbox done queue
      markers := by
  have hopen : openSends (sent ++ [⟨frame, delivers, false⟩]) = openSends sent := by
    unfold openSends
    rw [List.filter_append]
    exact List.append_nil _
  exact { h with split := by rw [hopen]; exact h.split, sorted := by rw [hopen]; exact h.sorted, after_le := by rw [hopen]; exact h.after_le }

/-- A terminal marker is queued. -/
theorem queueClose (h : SideOk codec latency delivers closedAfter drained sent handled fired inbox done queue markers)
    {due : ℕ} (hdue : due ≤ latency) (hlatency : 0 < latency) :
    SideOk codec latency delivers (closedAfter <|> some delivers) drained sent handled fired (inbox.queueClose due) done
      queue (markers ++ [⟨.closeMarker, 0, due⟩]) := by
  refine { h with head := ?_, pending := ?_, after_le := ?_, marker := ?_, opened := ?_, soon := ?_ }
  · show inbox.head ≤ (inbox.entries ++ _).length
    rw [List.length_append]
    exact h.head.trans (Nat.le_add_right _ _)
  · show (inbox.entries ++ _).drop inbox.head = _
    rw [Inbox.pending_snoc h.head, h.pending, List.append_assoc]
  · intro p hp
    refine ⟨(h.after_le p hp).1, fun c hc => ?_⟩
    cases closedAfter with
    | none =>
      obtain rfl : delivers = c := Option.some.inj hc
      exact (h.after_le p hp).1
    | some c' => exact (h.after_le p hp).2 c hc
  · intro e he
    rcases List.mem_append.mp he with he | he
    · exact h.marker e he
    · rw [List.mem_singleton.mp he]
  · intro hnone
    cases closedAfter <;> cases hnone
  · intro c hc hfired
    cases closedAfter with
    | none =>
      obtain rfl : delivers = c := Option.some.inj hc
      rw [(h.opened rfl).1]
      exact ⟨Nat.le_refl _, ⟨_, _, rfl, by show due ≤ _; omega⟩, Nat.le_add_right _ _, fun _ => Nat.lt_add_of_pos_right hlatency⟩
    | some c' =>
      obtain ⟨hle, ⟨e, rest, rfl, he⟩, hlate, hstrict⟩ := h.soon c hc hfired
      exact ⟨hle, ⟨e, rest ++ _, rfl, he⟩, hlate, hstrict⟩

/-- What is at the head of the queue. -/
theorem head_cases (h : SideOk codec latency delivers closedAfter drained sent handled fired inbox done queue markers)
    {next : Queued F} {rest : List (Queued F)} (hpending : inbox.pending = next :: rest) :
    (∃ p queue', queue = p :: queue' ∧ next = waiting codec latency delivers p ∧
      rest = queue'.map (waiting codec latency delivers) ++ markers) ∨
    (queue = [] ∧ next.item = .closeMarker ∧ markers = next :: rest) := by
  rw [h.pending] at hpending
  cases queue with
  | nil =>
    have hmarkers : markers = next :: rest := hpending
    exact Or.inr ⟨rfl, h.marker next (by rw [hmarkers]; exact List.mem_cons_self), hmarkers⟩
  | cons p queue' =>
    obtain ⟨hnext, hrest⟩ := List.cons.inj hpending
    exact Or.inl ⟨p, queue', rfl, hnext.symm, hrest.symm⟩

/-- The drain stops: nothing more is due in this `deliver()`. -/
theorem left (h : SideOk codec latency delivers closedAfter drained sent handled fired inbox done queue markers)
    (hidle : inbox.Idle) :
    SideOk codec latency delivers closedAfter True sent handled fired inbox.compact done queue markers := by
  have hsame := Inbox.same_compact h.head
  have hdue : ∀ next rest, inbox.pending = next :: rest → 0 < next.due := by
    intro next rest hpending
    rcases hidle next (by rw [hpending]; rfl) with hdue | ⟨-, hnone⟩ | ⟨-, hnone⟩
    · exact hdue
    · have hclose := h.onClose
      rw [hnone] at hclose
      cases hclose
    · have hmessage := h.onMessage
      rw [hnone] at hmessage
      cases hmessage
  have hqueue : ∀ p ∈ queue, delivers < p.after + latency := by
    cases queue with
    | nil => exact fun p hp => absurd hp List.not_mem_nil
    | cons p queue' =>
      have hfirst : 0 < p.after + latency - delivers := hdue _ _ h.pending
      have hsorted := h.sorted
      rw [h.split] at hsorted
      have htail := (List.pairwise_append.mp hsorted).2.1
      intro q hq
      rcases List.mem_cons.mp hq with rfl | hq
      · omega
      · have hle := List.rel_of_pairwise_cons htail hq
        omega
  refine { h with
    onMessage := by rw [hsame.onMessage]; exact h.onMessage
    onClose := by rw [hsame.onClose]; exact h.onClose
    head := hsame.head
    pending := by rw [hsame.pending]; exact h.pending
    latched := by rw [hsame.closeFired]; exact h.latched
    early := fun p hp => ⟨(h.early p hp).1, fun _ => hqueue p hp⟩
    soon := ?_ }
  intro c hc hfired
  obtain ⟨hle, hmarker, hlate, -⟩ := h.soon c hc hfired
  refine ⟨hle, hmarker, hlate, fun _ => ?_⟩
  obtain ⟨e, rest, hmarkers, he⟩ := hmarker
  cases hq : queue with
  | nil =>
    have hpos := hdue e rest (by rw [h.pending, hq, hmarkers]; rfl)
    omega
  | cons p queue' =>
    have hp : p ∈ queue := by rw [hq]; exact List.mem_cons_self
    have hopen : p ∈ openSends sent := by rw [h.split]; exact List.mem_append_right _ hp
    have hlt := hqueue p hp
    have hafter := (h.after_le p hopen).2 c hc
    omega

/-- A frame whose `deliver()` has come is handled. -/
theorem message (h : SideOk codec latency delivers closedAfter drained sent handled fired inbox done queue markers)
    {next : Queued F} {inbox' : Inbox F} {frame : F} {m : M} (htaken : Inbox.Taken next inbox inbox')
    (hitem : next.item = .frame frame) (hfired : inbox'.closeFired = inbox.closeFired)
    (hdecode : codec.decode frame = .ok m) :
    ∃ done' queue', SideOk codec latency delivers closedAfter False sent (handled ++ [(m, delivers)]) fired inbox' done' queue'
      markers := by
  rcases h.head_cases htaken.pending with ⟨p, queue', rfl, rfl, hrest⟩ | ⟨-, hclose, -⟩
  · obtain rfl : p.frame = frame := by injection hitem
    have hzero : p.after + latency - delivers = 0 := htaken.due
    have hearly := (h.early p List.mem_cons_self).1
    refine ⟨done ++ [p], queue', { h with
      onMessage := by rw [htaken.onMessage]; exact h.onMessage
      onClose := by rw [htaken.onClose]; exact h.onClose
      head := htaken.head
      split := by rw [h.split, List.append_assoc]; rfl
      answered := ?_
      pending := hrest
      decodes := fun q hq => h.decodes q (List.mem_cons_of_mem _ hq)
      past := fun q hq => ?_
      early := fun q hq => ⟨(h.early q (List.mem_cons_of_mem _ hq)).1, fun hd => hd.elim⟩
      latched := by rw [hfired]; exact h.latched
      firedLast := fun hne => by cases h.firedLast hne
      soon := fun c hc hnone => ?_ }⟩
    · rw [List.map_append, List.map_append, h.answered, List.map_cons, List.map_nil, List.map_cons, List.map_nil, hdecode,
        show p.after + latency = delivers by omega]
    · rcases List.mem_append.mp hq with hq | hq
      · exact h.past q hq
      · rw [List.mem_singleton.mp hq]
        omega
    · obtain ⟨hle, hmarker, hlate, -⟩ := h.soon c hc hnone
      exact ⟨hle, hmarker, hlate, fun hd => hd.elim⟩
  · rw [hclose] at hitem
    cases hitem

/-- The first marker comes up, behind every frame. -/
theorem closing (h : SideOk codec latency delivers closedAfter drained sent handled fired inbox done queue markers)
    {next : Queued F} {inbox' : Inbox F} (htaken : Inbox.Taken next inbox inbox') (hitem : next.item = .closeMarker)
    (hunfired : inbox.closeFired = false) (hfired' : inbox'.closeFired = true) :
    ∃ markers', SideOk codec latency delivers closedAfter False sent handled (fired ++ [delivers]) inbox' done queue markers' := by
  have hnone : fired = [] := by
    by_contra hne
    rw [h.latched.mpr hne] at hunfired
    cases hunfired
  subst hnone
  rcases h.head_cases htaken.pending with ⟨p, queue', rfl, rfl, hrest⟩ | ⟨rfl, -, hmarkers⟩
  · cases hitem
  · refine ⟨inbox'.pending, { h with
      onMessage := by rw [htaken.onMessage]; exact h.onMessage
      onClose := by rw [htaken.onClose]; exact h.onClose
      head := htaken.head
      pending := rfl
      early := fun q hq => absurd hq List.not_mem_nil
      marker := fun e he => h.marker e (by rw [hmarkers]; exact List.mem_cons_of_mem _ he)
      opened := fun hopen => ?_
      latched := by rw [hfired']; simp
      firedOnce := Nat.le_refl _
      firedLast := fun _ => rfl
      soon := fun c hc hfired => by cases hfired }⟩
    have hempty := (h.opened hopen).1
    rw [hmarkers] at hempty
    cases hempty

/-- A later marker says nothing. -/
theorem skipped (h : SideOk codec latency delivers closedAfter drained sent handled fired inbox done queue markers)
    {next : Queued F} {inbox' : Inbox F} (htaken : Inbox.Taken next inbox inbox') (hitem : next.item = .closeMarker)
    (hfired : inbox.closeFired = true) (hfired' : inbox'.closeFired = true) :
    ∃ markers', SideOk codec latency delivers closedAfter drained sent handled fired inbox' done queue markers' := by
  have hne : fired ≠ [] := h.latched.mp hfired
  rcases h.head_cases htaken.pending with ⟨p, queue', rfl, rfl, hrest⟩ | ⟨rfl, -, hmarkers⟩
  · cases hitem
  · refine ⟨inbox'.pending, { h with
      onMessage := by rw [htaken.onMessage]; exact h.onMessage
      onClose := by rw [htaken.onClose]; exact h.onClose
      head := htaken.head
      pending := rfl
      marker := fun e he => h.marker e (by rw [hmarkers]; exact List.mem_cons_of_mem _ he)
      opened := fun hopen => absurd (h.opened hopen).2 hne
      latched := ⟨fun _ => hne, fun _ => hfired'⟩
      soon := fun c hc hnone => absurd hnone hne }⟩

/-- Every frame queued decodes. -/
theorem not_failed (h : SideOk codec latency delivers closedAfter drained sent handled fired inbox done queue markers)
    {next : Queued F} {inbox' : Inbox F} {frame : F} {e : E} (htaken : Inbox.Taken next inbox inbox')
    (hitem : next.item = .frame frame) (hdecode : codec.decode frame = .error e) : False := by
  rcases h.head_cases htaken.pending with ⟨p, queue', rfl, rfl, hrest⟩ | ⟨-, hclose, -⟩
  · obtain rfl : p.frame = frame := by injection hitem
    obtain ⟨m, hm⟩ := h.decodes p List.mem_cons_self
    rw [hm] at hdecode
    cases hdecode
  · rw [hclose] at hitem
    cases hitem

end SideOk

/-! ### The pair -/

/-- The account of both ends; `drained` are those this `deliver()` is through with. -/
structure Account (codec : FrameCodec F M E) (latency : ℕ) (drained : Side → Prop) (s : World F M) : Prop where
  side : ∀ y, ∃ done queue markers, SideOk codec latency s.delivers s.closedAfter (drained y) (s.sent y.other) (s.handled y)
    (s.fired y) (s.ends y).inbox done queue markers
  overflow : ∀ y, (s.ends y).overflow = none
  closed : s.closedAfter = none ↔ s.isOpen = true

/-- Which ends the running `deliver()` is through with. -/
def Phase.drained : Phase → Side → Prop
  | .idle, _ => True
  | .handling .client _, _ => False
  | .handling .server _, y => y = .client

namespace Account

variable {codec : FrameCodec F M E} {latency : ℕ} {drained drained' : Side → Prop} {s s' : World F M}

theorem weaken (h : Account codec latency drained s) (hle : ∀ y, drained' y → drained y) :
    Account codec latency drained' s where
  side := fun y => by
    obtain ⟨done, queue, markers, hside⟩ := h.side y
    exact ⟨done, queue, markers, hside.weaken (hle y)⟩
  overflow := h.overflow
  closed := h.closed

theorem phase (h : Account codec latency drained s) (phase : Phase) :
    Account codec latency drained { s with phase := phase } :=
  ⟨h.side, h.overflow, h.closed⟩

theorem isOpen_setInbox (side : Side) (inbox : Inbox F) : (s.setInbox side inbox).isOpen = s.isOpen := by
  unfold World.isOpen World.setInbox
  cases side <;> rfl

/-- One inbox and its log change. -/
theorem one (h : Account codec latency drained s) (side : Side) (inbox : Inbox F) (handled : List (M × ℕ)) (fired : List ℕ)
    (hside : ∃ done queue markers, SideOk codec latency s.delivers s.closedAfter (drained' side) (s.sent side.other) handled
      fired inbox done queue markers)
    (hle : ∀ y, y ≠ side → drained' y → drained y) :
    Account codec latency drained' { s.setInbox side inbox with
      handled := Function.update s.handled side handled, fired := Function.update s.fired side fired } where
  side := fun y => by
    by_cases hy : y = side
    · subst hy
      simp only [World.setInbox, Function.update_self]
      exact hside
    · obtain ⟨done, queue, markers, hother⟩ := h.side y
      simp only [World.setInbox, Function.update_of_ne hy]
      exact ⟨done, queue, markers, hother.weaken (hle y hy)⟩
  overflow := fun y => by
    by_cases hy : y = side
    · subst hy
      simp only [World.setInbox, Function.update_self]
      exact h.overflow y
    · simp only [World.setInbox, Function.update_of_ne hy]
      exact h.overflow y
  closed := h.closed.trans (by rw [← isOpen_setInbox side inbox]; exact Iff.rfl)

theorem setInbox_eq (side : Side) (inbox : Inbox F) :
    s.setInbox side inbox = { s.setInbox side inbox with
      handled := Function.update s.handled side (s.handled side), fired := Function.update s.fired side (s.fired side) } := by
  rw [Function.update_eq_self, Function.update_eq_self]
  rfl

/-- The loop lemma: a drain ends with nothing more due at its end, or in a handler. -/
theorem drainLoop {side : Side} {s : World F M} (h : Account codec latency drained s) :
    ((s.drainLoop codec side).2 = .finished ∧
        Account codec latency (fun y => y = side ∨ drained y) (s.drainLoop codec side).1) ∨
      ((s.drainLoop codec side).2 = .suspended ∧
        Account codec latency (fun y => y ≠ side ∧ drained y) (s.drainLoop codec side).1) := by
  induction s using World.drainLoop.induct codec side with
  | case1 s inbox hturn =>
    have hrun : s.drainLoop codec side = (s.setInbox side inbox, .finished) := by
      rw [World.drainLoop]
      split <;> simp_all
    have hspec := Inbox.turn_spec codec (s.ends side).inbox
    rw [hturn] at hspec
    rw [hrun]
    refine Or.inl ⟨rfl, ?_⟩
    cases hspec with
    | left hidle =>
      obtain ⟨done, queue, markers, hside⟩ := h.side side
      rw [setInbox_eq]
      refine h.one side _ _ _ ⟨done, queue, markers, (hside.left hidle).weaken (fun _ => trivial)⟩ ?_
      exact fun y hy hd => hd.resolve_left hy
  | case2 s next inbox hturn ih =>
    have hrun : s.drainLoop codec side = World.drainLoop codec side (s.setInbox side inbox) := by
      rw [World.drainLoop]
      split <;> simp_all
    have hspec := Inbox.turn_spec codec (s.ends side).inbox
    rw [hturn] at hspec
    rw [hrun]
    refine ih ?_
    cases hspec with
    | skipped htaken hitem hfired hfired' hbytes =>
      obtain ⟨done, queue, markers, hside⟩ := h.side side
      obtain ⟨markers', hside'⟩ := hside.skipped htaken hitem hfired hfired'
      rw [setInbox_eq]
      exact h.one side _ _ _ ⟨done, queue, markers', hside'⟩ (fun y hy hd => hd)
  | case3 s next inbox handler hturn =>
    have hrun : s.drainLoop codec side =
        ({ s.setInbox side inbox with fired := Function.update s.fired side (s.fired side ++ [s.delivers]) }, .suspended) := by
      rw [World.drainLoop]
      split <;> simp_all
    have hspec := Inbox.turn_spec codec (s.ends side).inbox
    rw [hturn] at hspec
    rw [hrun]
    refine Or.inr ⟨rfl, ?_⟩
    cases hspec with
    | closing htaken hitem hfired hfired' hbytes =>
      obtain ⟨done, queue, markers, hside⟩ := h.side side
      obtain ⟨markers', hside'⟩ := hside.closing htaken hitem hfired hfired'
      have hone : Account codec latency (fun y => y ≠ side ∧ drained y) { s.setInbox side inbox with
          handled := Function.update s.handled side (s.handled side)
          fired := Function.update s.fired side (s.fired side ++ [s.delivers]) } :=
        h.one side inbox _ _ ⟨done, queue, markers', hside'.weaken (fun hd => hd.1 rfl)⟩ (fun y _ hd => hd.2)
      rw [Function.update_eq_self] at hone
      exact hone
  | case4 s next inbox handler m hturn =>
    have hrun : s.drainLoop codec side =
        ({ s.setInbox side inbox with handled := Function.update s.handled side (s.handled side ++ [(m, s.delivers)]) },
          .suspended) := by
      rw [World.drainLoop]
      split <;> simp_all
    have hspec := Inbox.turn_spec codec (s.ends side).inbox
    rw [hturn] at hspec
    rw [hrun]
    refine Or.inr ⟨rfl, ?_⟩
    cases hspec with
    | message htaken hitem hfired hbytes _ hdecode =>
      obtain ⟨done, queue, markers, hside⟩ := h.side side
      obtain ⟨done', queue', hside'⟩ := hside.message htaken hitem hfired hdecode
      have hone : Account codec latency (fun y => y ≠ side ∧ drained y) { s.setInbox side inbox with
          handled := Function.update s.handled side (s.handled side ++ [(m, s.delivers)])
          fired := Function.update s.fired side (s.fired side) } :=
        h.one side inbox _ _ ⟨done', queue', markers, hside'.weaken (fun hd => hd.1 rfl)⟩ (fun y _ hd => hd.2)
      rw [Function.update_eq_self side s.fired] at hone
      exact hone
  | case5 s next inbox e hturn =>
    have hspec := Inbox.turn_spec codec (s.ends side).inbox
    rw [hturn] at hspec
    cases hspec with
    | failed htaken hitem hfired hbytes hdecode =>
      obtain ⟨done, queue, markers, hside⟩ := h.side side
      exact (hside.not_failed htaken hitem hdecode).elim

/-- The latch is down, so a drain drains. -/
theorem drain (h : Account codec latency drained s) (side : Side) : s.drain codec side = s.drainLoop codec side := by
  unfold World.drain
  rw [h.overflow side]
  rfl

theorem serverDrained_finished {left : ℕ} (hlatency : 0 < latency) :
    World.serverDrained latency codec left (s, .finished) = s.atIdle := by
  show (if 0 < latency then s.atIdle else _) = s.atIdle
  rw [if_pos hlatency]

theorem clientDrained_finished {left : ℕ} :
    World.clientDrained latency codec left (s, .finished) = World.serverDrained latency codec left (s.drain codec .server) :=
  rfl

theorem serverDrained (h : Account codec latency (fun y => y = .client) s) (left : ℕ) (hlatency : 0 < latency) :
    Account codec latency (World.serverDrained latency codec left (s.drainLoop codec .server)).phase.drained
      (World.serverDrained latency codec left (s.drainLoop codec .server)) := by
  rcases (show (s.drainLoop codec .server).2 = .finished ∧ _ ∨ _ from h.drainLoop) with ⟨hout, hdone⟩ | ⟨hout, hdone⟩
  · have hrun : s.drainLoop codec .server = ((s.drainLoop codec .server).1, .finished) := by rw [← hout]
    rw [hrun, serverDrained_finished hlatency]
    refine (hdone.weaken (fun y _ => ?_)).phase .idle
    cases y
    · exact Or.inr rfl
    · exact Or.inl rfl
  · have hrun : s.drainLoop codec .server = ((s.drainLoop codec .server).1, .suspended) := by rw [← hout]
    rw [hrun]
    refine (hdone.weaken (fun y hy => ?_)).phase (.handling .server left)
    obtain rfl : y = .client := hy
    exact ⟨Side.noConfusion, rfl⟩

theorem clientDrained (h : Account codec latency (fun _ => False) s) (left : ℕ) (hlatency : 0 < latency) :
    Account codec latency (World.clientDrained latency codec left (s.drainLoop codec .client)).phase.drained
      (World.clientDrained latency codec left (s.drainLoop codec .client)) := by
  rcases (show (s.drainLoop codec .client).2 = .finished ∧ _ ∨ _ from h.drainLoop) with ⟨hout, hdone⟩ | ⟨hout, hdone⟩
  · have hrun : s.drainLoop codec .client = ((s.drainLoop codec .client).1, .finished) := by rw [← hout]
    have hclient : Account codec latency (fun y => y = .client) (s.drainLoop codec .client).1 :=
      hdone.weaken (fun y hy => Or.inl hy)
    rw [hrun, clientDrained_finished, hclient.drain]
    exact hclient.serverDrained left hlatency
  · have hrun : s.drainLoop codec .client = ((s.drainLoop codec .client).1, .suspended) := by rw [← hout]
    rw [hrun]
    exact (hdone.weaken (fun y hy => hy.elim)).phase (.handling .client left)

theorem aged (h : Account codec latency (fun _ => True) s) : Account codec latency (fun _ => False) s.aged where
  side := fun y => by
    obtain ⟨done, queue, markers, hside⟩ := h.side y
    exact ⟨done, queue, _, hside.age trivial⟩
  overflow := h.overflow
  closed := h.closed

theorem isOpen_iff : s.isOpen = true ↔ ∀ y, (s.ends y).closed = false := by
  unfold World.isOpen
  rw [Bool.and_eq_true, Bool.not_eq_true', Bool.not_eq_true']
  constructor
  · rintro ⟨hclient, hserver⟩ y
    cases y
    · exact hclient
    · exact hserver
  · exact fun h => ⟨h .client, h .server⟩

theorem other_other (x : Side) : x.other.other = x := by cases x <;> rfl

theorem other_ne (x : Side) : x.other ≠ x := by cases x <;> exact Side.noConfusion

theorem eq_other {x y : Side} (h : y ≠ x) : y = x.other := by cases x <;> cases y <;> first | rfl | exact absurd rfl h

/-- What is sent after a close is noted, and that is all. -/
theorem sendEncoded_sealed {policy : Policy F M E} {x : Side} {frame : F} (hopen : s.isOpen = false) :
    s.sendEncoded policy latency x frame =
      { s with sent := Function.update s.sent x (s.sent x ++ [⟨frame, s.delivers, false⟩]) } := by
  unfold World.sendEncoded
  simp only [hopen]
  by_cases hx : (s.ends x).closed = true
  · rw [if_pos hx]
  · rw [if_neg hx]
    have hother : (s.ends x.other).closed = true := by
      by_contra hne
      have hall : s.isOpen = true := isOpen_iff.mpr (fun y => by
        by_cases hy : y = x
        · rw [hy]
          simpa using hx
        · rw [eq_other hy]
          simpa using hne)
      rw [hopen] at hall
      cases hall
    have hsame : (s.ends x.other).receive policy latency frame = s.ends x.other := by
      unfold LoopbackEnd.receive
      rw [if_pos hother]
    rw [hsame, Function.update_eq_self]

/-- A frame received behind a handler is queued. -/
theorem receive_wired {policy : Policy F M E} {e : LoopbackEnd F} {frame : F} (hclosed : e.closed = false)
    (hmessage : e.inbox.onMessage.isSome) :
    e.receive policy latency frame = { e with inbox := { e.inbox with
      queuedBytes := e.inbox.queuedBytes + policy.byteLength frame
      entries := e.inbox.entries ++ [⟨.frame frame, policy.byteLength frame, latency⟩] } } := by
  have hrefuses : ¬ e.inbox.refuses policy frame := fun h => by
    rw [h.1] at hmessage
    cases hmessage
  unfold LoopbackEnd.receive Inbox.enqueue
  rw [hclosed, if_neg Bool.false_ne_true]
  simp only
  rw [if_neg hrefuses]

theorem send {policy : Policy F M E} (h : Account policy.toFrameCodec latency drained s) (hlatency : 0 < latency) (x : Side)
    {frame : F} (hdecode : ∃ m, policy.decode frame = .ok m) :
    Account policy.toFrameCodec latency drained (s.sendEncoded policy latency x frame) := by
  cases hopen : s.isOpen with
  | false =>
    rw [sendEncoded_sealed hopen]
    refine ⟨fun y => ?_, h.overflow, h.closed⟩
    obtain ⟨done, queue, markers, hside⟩ := h.side y
    by_cases hy : y = x
    · subst hy
      refine ⟨done, queue, markers, ?_⟩
      simp only [Function.update_of_ne (other_ne y)]
      exact hside
    · obtain rfl := eq_other hy
      refine ⟨done, queue, markers, ?_⟩
      simp only [other_other, Function.update_self] at hside ⊢
      exact hside.sealed frame
  | true =>
    have hnone : s.closedAfter = none := h.closed.mpr hopen
    have hclosed := isOpen_iff.mp hopen
    obtain ⟨doneP, queueP, markersP, hpeer⟩ := h.side x.other
    have hsend : s.sendEncoded policy latency x frame = { s with
        sent := Function.update s.sent x (s.sent x ++ [⟨frame, s.delivers, true⟩])
        ends := Function.update s.ends x.other { s.ends x.other with inbox := { (s.ends x.other).inbox with
          queuedBytes := (s.ends x.other).inbox.queuedBytes + policy.byteLength frame
          entries := (s.ends x.other).inbox.entries ++ [⟨.frame frame, policy.byteLength frame, latency⟩] } } } := by
      unfold World.sendEncoded
      rw [hopen, hclosed x, if_neg Bool.false_ne_true, receive_wired (hclosed _) hpeer.onMessage]
    rw [hsend]
    refine ⟨fun y => ?_, fun y => ?_, ?_⟩
    · by_cases hy : y = x
      · subst hy
        obtain ⟨done, queue, markers, hside⟩ := h.side y
        refine ⟨done, queue, markers, ?_⟩
        simp only [Function.update_of_ne (other_ne y), Function.update_of_ne (other_ne y).symm]
        exact hside
      · obtain rfl := eq_other hy
        rw [other_other, hnone] at hpeer
        refine ⟨doneP, queueP ++ [⟨frame, s.delivers, true⟩], [], ?_⟩
        simp only [other_other, Function.update_self, hnone]
        exact hpeer.receive hdecode hlatency
    · by_cases hy : y = x.other
      · subst hy
        simp only [Function.update_self]
        exact h.overflow _
      · simp only [Function.update_of_ne hy]
        exact h.overflow y
    · refine iff_of_true hnone (isOpen_iff.mpr (fun y => ?_))
      by_cases hy : y = x.other
      · subst hy
        simp only [Function.update_self]
        exact hclosed _
      · simp only [Function.update_of_ne hy]
        exact hclosed y

theorem close (h : Account codec latency drained s) (hlatency : 0 < latency) (x : Side) :
    Account codec latency drained (s.close latency x) := by
  unfold World.close
  split_ifs with hclosed
  · exact h
  · refine ⟨fun y => ?_, fun y => ?_, iff_of_false ?_ ?_⟩
    · obtain ⟨done, queue, markers, hside⟩ := h.side y
      by_cases hy : y = x
      · subst hy
        refine ⟨done, queue, markers ++ [⟨.closeMarker, 0, 0⟩], ?_⟩
        simp only [Function.update_of_ne (other_ne y).symm, Function.update_self]
        exact hside.queueClose (Nat.zero_le _) hlatency
      · obtain rfl := eq_other hy
        refine ⟨done, queue, markers ++ [⟨.closeMarker, 0, latency⟩], ?_⟩
        simp only [Function.update_self]
        exact hside.queueClose (Nat.le_refl _) hlatency
    · by_cases hy : y = x
      · subst hy
        simp only [Function.update_of_ne (other_ne y).symm, Function.update_self]
        exact h.overflow y
      · obtain rfl := eq_other hy
        simp only [Function.update_self]
        exact h.overflow _
    · show ¬ (s.closedAfter <|> some s.delivers) = none
      cases s.closedAfter with
      | none | some => exact fun h => by cases h
    · intro hopen
      have hx := isOpen_iff.mp hopen x
      simp only [Function.update_of_ne (other_ne x).symm, Function.update_self] at hx
      cases hx

end Account

/-! ### Runs -/

/-- A handler does not throw, and what is sent is a frame the codec decodes. -/
def World.Event.Admitted (codec : FrameCodec F M E) : World.Event F → Prop
  | .send _ frame => ∃ m, codec.decode frame = .ok m
  | .close _ | .deliver | .returned => True
  | .threw => False

theorem account_wired (codec : FrameCodec F M E) (latency : ℕ) (onMessage onClose : Side → Handler) :
    Account codec latency (fun _ => True) (World.wired onMessage onClose : World F M) where
  side := fun _ => ⟨[], [], [], {
    onMessage := rfl
    onClose := rfl
    head := Nat.le_refl _
    split := rfl
    sorted := List.Pairwise.nil
    answered := rfl
    pending := rfl
    decodes := fun _ h => absurd h List.not_mem_nil
    past := fun _ h => absurd h List.not_mem_nil
    early := fun _ h => absurd h List.not_mem_nil
    after_le := fun _ h => absurd h List.not_mem_nil
    marker := fun _ h => absurd h List.not_mem_nil
    opened := fun _ => ⟨rfl, rfl⟩
    latched := iff_of_false Bool.false_ne_true (fun h => h rfl)
    firedOnce := Nat.zero_le _
    firedLast := fun h => absurd rfl h
    soon := fun _ h => by cases h }⟩
  overflow := fun _ => rfl
  closed := iff_of_true rfl rfl

variable {policy : Policy F M E} {latency : ℕ} {s : World F M}

/-- **One call.** -/
theorem Account.step (h : Account policy.toFrameCodec latency s.phase.drained s) (hlatency : 0 < latency) {e : World.Event F}
    (he : e.Admitted policy.toFrameCodec) :
    Account policy.toFrameCodec latency (World.step policy latency s e).phase.drained (World.step policy latency s e) := by
  cases e with
  | send x frame =>
    have hphase : (s.sendEncoded policy latency x frame).phase = s.phase := by
      unfold World.sendEncoded
      split_ifs <;> rfl
    rw [World.step, hphase]
    exact h.send hlatency x he
  | close x =>
    have hphase : (s.close latency x).phase = s.phase := by
      unfold World.close
      split_ifs <;> rfl
    rw [World.step, hphase]
    exact h.close hlatency x
  | deliver =>
    rw [World.step]
    cases hphase : s.phase with
    | idle =>
      rw [hphase] at h
      unfold World.pump
      rw [h.aged.drain]
      exact h.aged.clientDrained _ hlatency
    | handling side left =>
      simp only [hphase]
      rw [hphase] at h
      exact h
  | returned =>
    rw [World.step]
    rcases hphase : s.phase with _ | ⟨_ | _, left⟩
    · simp only [hphase]
      rw [hphase] at h
      exact h
    · rw [hphase] at h
      exact Account.clientDrained h left hlatency
    · rw [hphase] at h
      exact Account.serverDrained h left hlatency
  | threw => exact he.elim

theorem account_exec (hlatency : 0 < latency) (es : List (World.Event F)) : ∀ {s : World F M},
    Account policy.toFrameCodec latency s.phase.drained s → (∀ e ∈ es, e.Admitted policy.toFrameCodec) →
      Account policy.toFrameCodec latency (exec (World.step policy latency) s es).phase.drained
        (exec (World.step policy latency) s es) := by
  induction es with
  | nil => exact fun h _ => h
  | cons e es ih =>
    intro s h hadmitted
    exact ih (h.step hlatency (hadmitted e List.mem_cons_self)) (fun e' he' => hadmitted e' (List.mem_cons_of_mem _ he'))

/-! ### Latency and closing -/

/-- What is promised of the direction from `x` to its peer, and of the close of `x`, at every moment of a run. -/
structure Keeps (codec : FrameCodec F M E) (latency : ℕ) (s : World F M) (x : Side) : Prop where
  /-- The peer handles the frames that were sent while the pair was open and no others, in order, each in the
  `deliver()` its latency names. -/
  order : (s.handled x.other).map (fun p => (Except.ok p.1, p.2)) <+:
    (openSends (s.sent x)).map (fun p => (codec.decode p.frame, p.after + latency))
  /-- Between two `deliver()` calls, all whose time has come were handled. -/
  arrives : s.phase = .idle → (s.handled x.other).map (fun p => (Except.ok p.1, p.2)) =
    ((openSends (s.sent x)).filter (fun p => p.after + latency ≤ s.delivers)).map
      (fun p => (codec.decode p.frame, p.after + latency))
  /-- `onClose` comes after every frame. -/
  closedLast : s.fired x.other ≠ [] → (s.handled x.other).map (fun p => (Except.ok p.1, p.2)) =
    (openSends (s.sent x)).map (fun p => (codec.decode p.frame, p.after + latency))
  closedOnce : (s.fired x).length ≤ 1
  onlyClosed : s.closedAfter = none → s.fired x = []
  /-- `onClose` comes within the latency of the first close. -/
  closes : ∀ c, s.closedAfter = some c → s.phase = .idle → c + latency ≤ s.delivers → (s.fired x).length = 1

theorem Account.keeps {codec : FrameCodec F M E} (h : Account codec latency s.phase.drained s) (x : Side) : Keeps codec latency s x := by
  obtain ⟨done, queue, markers, hpeer⟩ := h.side x.other
  obtain ⟨doneX, queueX, markersX, hown⟩ := h.side x
  rw [Account.other_other] at hpeer
  refine ⟨?_, fun hidle => ?_, fun hfired => ?_, hown.firedOnce, fun hnone => (hown.opened hnone).2, fun c hc hidle hlate => ?_⟩
  · rw [hpeer.answered, hpeer.split, List.map_append]
    exact List.prefix_append _ _
  · have hdrained : s.phase.drained x.other := by
      rw [hidle]
      trivial
    have hdone : done.filter (fun p => decide (p.after + latency ≤ s.delivers)) = done :=
      List.filter_eq_self.mpr (fun p hp => decide_eq_true (hpeer.past p hp))
    have hqueue : queue.filter (fun p => decide (p.after + latency ≤ s.delivers)) = [] :=
      List.filter_eq_nil_iff.mpr (fun p hp => by
        have hlt := (hpeer.early p hp).2 hdrained
        simpa using hlt)
    rw [hpeer.answered, hpeer.split, List.filter_append, hdone, hqueue, List.append_nil]
  · rw [hpeer.answered, hpeer.split, hpeer.firedLast hfired, List.append_nil]
  · have hdrained : s.phase.drained x := by
      rw [hidle]
      trivial
    by_contra hne
    have hnone : s.fired x = [] := by
      have hle := hown.firedOnce
      exact List.length_eq_zero_iff.mp (by omega)
    obtain ⟨-, -, -, hstrict⟩ := hown.soon c hc hnone
    have hlt := hstrict hdrained
    omega

/-- **Latency and closing.** -/
theorem loopback_latency (policy : Policy F M E) (latency : ℕ) (hlatency : 0 < latency) (onMessage onClose : Side → Handler)
    (es : List (World.Event F)) (hes : ∀ e ∈ es, e.Admitted policy.toFrameCodec) (x : Side) :
    Keeps policy.toFrameCodec latency (exec (World.step policy latency) (World.wired onMessage onClose) es) x :=
  (account_exec hlatency es (account_wired policy.toFrameCodec latency onMessage onClose) hes).keeps x

/-- Numbers, sent as they are. -/
def plainPolicy : Policy ℕ ℕ Unit := { byteLength := fun _ => 1, decode := .ok, maxRetainedBytes := ⊤ }

theorem loopback_latency_closing :
    Keeps plainPolicy.toFrameCodec 1 (exec (World.step plainPolicy 1) (World.wired (fun _ => 0) (fun _ => 1))
      [.send .client 7, .deliver, .send .server 8, .returned, .close .server, .deliver, .returned, .returned]) .client :=
  loopback_latency plainPolicy 1 (by decide) (fun _ => 0) (fun _ => 1)
    [.send .client 7, .deliver, .send .server 8, .returned, .close .server, .deliver, .returned, .returned]
    (fun e he => by
      simp only [List.mem_cons, List.not_mem_nil, or_false] at he
      rcases he with rfl | rfl | rfl | rfl | rfl | rfl | rfl | rfl
      · exact ⟨7, rfl⟩
      · trivial
      · exact ⟨8, rfl⟩
      · trivial
      · trivial
      · trivial
      · trivial
      · trivial)
    .client

/-! ### A frame over the byte cap -/

theorem drainLoop_left {codec : FrameCodec F M E} {side : Side} {inbox : Inbox F} (h : (s.ends side).inbox.turn codec = .left inbox) :
    s.drainLoop codec side = (s.setInbox side inbox, .finished) := by
  rw [World.drainLoop]
  split <;> simp_all

theorem drainLoop_failed {codec : FrameCodec F M E} {side : Side} {next : Queued F} {inbox : Inbox F} {e : E}
    (h : (s.ends side).inbox.turn codec = .failed next inbox e) :
    s.drainLoop codec side = (s.setInbox side inbox, .threw) := by
  rw [World.drainLoop]
  split <;> simp_all

/-- The frame that waits at the server, when the pump has aged it. -/
theorem turn_undecodable {codec : FrameCodec F M E} {frame : F} {e : E} (hdecode : codec.decode frame = .error e)
    {inbox : Inbox F} {bytes : ℕ} (hentries : inbox.entries = [⟨.frame frame, bytes, 0⟩]) (hhead : inbox.head = 0)
    (hmessage : inbox.onMessage.isSome) : ∃ next inbox', inbox.turn codec = .failed next inbox' e := by
  obtain ⟨handler, hhandler⟩ := Option.isSome_iff_exists.mp hmessage
  refine ⟨⟨.frame frame, bytes, 0⟩, { inbox with head := 1, queuedBytes := inbox.queuedBytes - bytes }, ?_⟩
  unfold Inbox.turn
  rw [hentries, hhead]
  simp only [List.getElem?_cons_zero, Nat.lt_irrefl, if_false, hhandler, hdecode]

/-- A frame that does not decode is lost, and with it the pass it was due in. -/
theorem lost_undecodable {frame : F} {e : E} (hdecode : policy.decode frame = .error e) (onMessage onClose : Side → Handler) :
    (exec (World.step policy 1) (World.wired onMessage onClose : World F M) [.send .client frame, .deliver]).phase = .idle ∧
    (exec (World.step policy 1) (World.wired onMessage onClose : World F M) [.send .client frame, .deliver]).delivers = 1 ∧
    (exec (World.step policy 1) (World.wired onMessage onClose : World F M) [.send .client frame, .deliver]).handled .server = [] ∧
    openSends ((exec (World.step policy 1) (World.wired onMessage onClose : World F M)
      [.send .client frame, .deliver]).sent .client) = [⟨frame, 0, true⟩] := by
  obtain ⟨s, hs⟩ : ∃ s, s = (World.wired onMessage onClose : World F M).sendEncoded policy 1 .client frame := ⟨_, rfl⟩
  have hsend : s = { (World.wired onMessage onClose : World F M) with
      sent := Function.update (fun _ => []) .client [⟨frame, 0, true⟩]
      ends := Function.update (World.wired onMessage onClose : World F M).ends .server
        (((World.wired onMessage onClose : World F M).ends .server).receive policy 1 frame) } := hs
  rw [Account.receive_wired rfl rfl] at hsend
  have hclient : (s.aged.ends .client).inbox.turn policy.toFrameCodec = .left (s.aged.ends .client).inbox.compact := by
    rw [hsend]
    rfl
  obtain ⟨next, inbox, hserver⟩ : ∃ next inbox,
      ((s.aged.setInbox .client (s.aged.ends .client).inbox.compact).ends .server).inbox.turn policy.toFrameCodec =
        .failed next inbox e := by
    refine turn_undecodable hdecode (show _ = [(⟨.frame frame, policy.byteLength frame, 0⟩ : Queued F)] from ?_) ?_ ?_
    · rw [hsend]
      rfl
    · rw [hsend]
      rfl
    · rw [hsend]
      rfl
  have hrun : exec (World.step policy 1) (World.wired onMessage onClose : World F M) [.send .client frame, .deliver] =
      ((s.aged.setInbox .client (s.aged.ends .client).inbox.compact).setInbox .server inbox).atIdle := by
    show World.step policy 1 ((World.wired onMessage onClose : World F M).sendEncoded policy 1 .client frame) .deliver = _
    rw [← hs, World.step]
    have hidle : s.phase = .idle := by rw [hsend]; rfl
    rw [hidle]
    unfold World.pump World.drain
    rw [if_neg (by rw [hsend]; exact Bool.false_ne_true), drainLoop_left hclient, Account.clientDrained_finished]
    unfold World.drain
    rw [if_neg (by rw [hsend]; exact Bool.false_ne_true), drainLoop_failed hserver]
    rfl
  rw [hrun]
  refine ⟨rfl, ?_, ?_, ?_⟩
  · rw [hsend]
    rfl
  · rw [hsend]
    rfl
  · rw [hsend]
    rfl

/-- The JSON codec, over what `JSON.parse` is. -/
def jsonPolicy (parse : String → Except String JsonCodec.ParsedValue) :
    Policy JsonCodec.Frame JsonCodec.ParsedValue JsonCodec.TransportError where
  byteLength := JsonCodec.byteLength
  decode := JsonCodec.decode parse
  maxRetainedBytes := ⊤

theorem decode_too_large {parse : String → Except String JsonCodec.ParsedValue} {frame : JsonCodec.Frame}
    (h : JsonCodec.maxFrameBytes < JsonCodec.byteLength frame) : ∃ e, (jsonPolicy parse).decode frame = .error e := by
  rcases hdecode : JsonCodec.decode parse frame with e | value
  · exact ⟨e, hdecode⟩
  · exact absurd (JsonCodec.admitDecoded_of_decode hdecode).2 (not_le.mpr h)

open JsonCodec in
/-- A text of 4194304 letters is encoded and sent to an open end, and the next `deliver()` hands over nothing. -/
theorem long_text_lost :
    encode quoted (fun _ => .exotic .noPrototype) (.string longText) = .ok (.text ("\"" ++ longText ++ "\"")) ∧
    (exec (World.step (jsonPolicy fun _ => .ok (.string longText)) 1)
      (World.wired (fun _ => 0) (fun _ => 1)) [.send .client (.text ("\"" ++ longText ++ "\"")), .deliver]).phase = .idle ∧
    (exec (World.step (jsonPolicy fun _ => .ok (.string longText)) 1)
      (World.wired (fun _ => 0) (fun _ => 1)) [.send .client (.text ("\"" ++ longText ++ "\"")), .deliver]).delivers = 1 ∧
    (exec (World.step (jsonPolicy fun _ => .ok (.string longText)) 1)
      (World.wired (fun _ => 0) (fun _ => 1)) [.send .client (.text ("\"" ++ longText ++ "\"")), .deliver]).handled .server = [] ∧
    openSends ((exec (World.step (jsonPolicy fun _ => .ok (.string longText)) 1)
      (World.wired (fun _ => 0) (fun _ => 1)) [.send .client (.text ("\"" ++ longText ++ "\"")), .deliver]).sent .client) =
        [⟨.text ("\"" ++ longText ++ "\""), 0, true⟩] := by
  have hbytes : maxFrameBytes < byteLength (.text ("\"" ++ longText ++ "\"")) := by
    unfold longText
    rw [byteLength_quoted (fun c hc => by rw [List.eq_of_mem_replicate hc]; decide), List.length_replicate]
    omega
  obtain ⟨e, he⟩ := @decode_too_large (fun _ => .ok (.string longText)) _ hbytes
  exact ⟨encode_quoted _ _, lost_undecodable he _ _⟩

end Loopback
end Grove
