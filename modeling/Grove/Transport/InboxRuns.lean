import Grove.Transport.Inbox

/-! # Runs of an inbox

Any interleaving of the inbox's calls with the returns and throws of the handlers it calls out to, which may
make any of these calls themselves.  `Traced` keeps, besides the inbox, what arrived, what was consumed and what
was called.  `inbox_delivers`: at every moment of every run, what arrived is what was consumed followed by what
is queued, in order. -/

namespace Grove
namespace FrameInbox

variable {F M E : Type}

/-- What the consumption of an entry called. -/
inductive Outcome (M E : Type) where
  | message (m : M)
  | closed
  | failed (error : E)
deriving DecidableEq

def Outcome.isClosed : Outcome M E → Bool
  | .closed => true
  | .message _ | .failed _ => false

def Item.isMarker : Item F → Bool
  | .closeMarker => true
  | .frame _ => false

/-- Where a drain is suspended. -/
inductive Callout where
  /-- In a handler: the loop goes on when it returns. -/
  | handler
  /-- In `onDecodeFailure`: the drain is over when it returns. -/
  | policy
deriving DecidableEq

structure Traced (F M E : Type) where
  box : Inbox F
  /-- The drains under way, the innermost first. -/
  stack : List Callout
  arrived : List (Item F)
  consumed : List (Queued F)
  called : List (Outcome M E)

def Traced.start : Traced F M E := ⟨.create, [], [], [], []⟩

theorem shorter_of_turn {codec : FrameCodec F M E} {box box' : Inbox F} {next : Queued F}
    (h : box.turn codec = .skipped next box') : box'.entries.length - box'.head < box.entries.length - box.head := by
  have hspec := Inbox.turn_spec codec box
  rw [h] at hspec
  cases hspec with
  | skipped htaken => exact htaken.shorter

/-- The loop of `drain`, up to its end or its next call out. -/
def Traced.drain (codec : FrameCodec F M E) (s : Traced F M E) : Traced F M E :=
  match _ : s.box.turn codec with
  | .left box => { s with box := box }
  | .skipped next box => Traced.drain codec { s with box := box, consumed := s.consumed ++ [next] }
  | .closing next box _ =>
    { s with
      box := box, consumed := s.consumed ++ [next], called := s.called ++ [.closed], stack := .handler :: s.stack }
  | .message next box _ m =>
    { s with
      box := box, consumed := s.consumed ++ [next], called := s.called ++ [.message m], stack := .handler :: s.stack }
  | .failed next box e =>
    { s with
      box := box, consumed := s.consumed ++ [next], called := s.called ++ [.failed e], stack := .policy :: s.stack }
termination_by s.box.entries.length - s.box.head
decreasing_by exact shorter_of_turn (by assumption)

/-- What runs next: a call on the inbox, from outside or from the handler that is running, or the end of that handler. -/
inductive Event (F : Type) where
  | enqueue (frame : F) (due : ℕ)
  | queueClose (due : ℕ)
  | age
  | drain
  | registerMessage (handler : Handler)
  | registerClose (handler : Handler)
  | disposeMessage (handler : Handler)
  | disposeClose (handler : Handler)
  | returned
  | threw

def step (policy : Policy F M E) (s : Traced F M E) : Event F → Traced F M E
  | .enqueue frame due =>
    match s.box.enqueue policy frame due with
    | none => s
    | some box => { s with box := box, arrived := s.arrived ++ [.frame frame] }
  | .queueClose due => { s with box := s.box.queueClose due, arrived := s.arrived ++ [.closeMarker] }
  | .age => { s with box := s.box.age }
  | .drain => s.drain policy.toFrameCodec
  | .registerMessage handler =>
    match s.box.registerMessage handler with
    | none => s
    | some box => { s with box := box }.drain policy.toFrameCodec
  | .registerClose handler =>
    match s.box.registerClose handler with
    | none => s
    | some box => { s with box := box }.drain policy.toFrameCodec
  | .disposeMessage handler => { s with box := s.box.disposeMessage handler }
  | .disposeClose handler => { s with box := s.box.disposeClose handler }
  | .returned =>
    match s.stack with
    | [] => s
    | .handler :: rest => { s with stack := rest }.drain policy.toFrameCodec
    | .policy :: rest => { s with stack := rest }
  -- What a handler throws leaves its drain at once, uncompacted.
  | .threw => { s with stack := s.stack.tail }

/-! ### What is kept -/

/-- What consuming these items calls, given whether `onClose` was. -/
def outcomes (codec : FrameCodec F M E) : Bool → List (Item F) → List (Outcome M E)
  | _, [] => []
  | fired, .frame frame :: rest =>
    (match codec.decode frame with
      | .ok m => .message m
      | .error e => .failed e) :: outcomes codec fired rest
  | false, .closeMarker :: rest => .closed :: outcomes codec true rest
  | true, .closeMarker :: rest => outcomes codec true rest

def itemBytes (codec : FrameCodec F M E) : Item F → ℕ
  | .frame frame => codec.byteLength frame
  | .closeMarker => 0

theorem outcomes_append (codec : FrameCodec F M E) : ∀ (l l' : List (Item F)) (fired : Bool),
    outcomes codec fired (l ++ l') =
      outcomes codec fired l ++ outcomes codec (fired || l.any Item.isMarker) l'
  | [], l', fired => by rw [List.any_nil, Bool.or_false]; rfl
  | .frame frame :: l, l', fired => by
    rw [List.cons_append, outcomes, outcomes_append codec l l' fired]
    rfl
  | .closeMarker :: l, l', false => by
    rw [List.cons_append, outcomes, outcomes_append codec l l' true]
    rfl
  | .closeMarker :: l, l', true => by
    rw [List.cons_append, outcomes, outcomes_append codec l l' true]
    rfl

structure Ok (policy : Policy F M E) (s : Traced F M E) : Prop where
  head : s.box.head ≤ s.box.entries.length
  fifo : s.arrived = (s.consumed ++ s.box.pending).map Queued.item
  ripe : ∀ e ∈ s.consumed, e.due = 0
  sized : ∀ e ∈ s.box.pending, e.bytes = itemBytes policy.toFrameCodec e.item
  bytes : s.box.queuedBytes = (s.box.pending.map Queued.bytes).sum
  calls : s.called = outcomes policy.toFrameCodec false (s.consumed.map Queued.item)
  latch : s.box.closeFired = (s.consumed.map Queued.item).any Item.isMarker

theorem ok_start (policy : Policy F M E) : Ok policy Traced.start where
  head := Nat.le_refl _
  fifo := rfl
  ripe := fun _ h => absurd h List.not_mem_nil
  sized := fun _ h => absurd h List.not_mem_nil
  bytes := rfl
  calls := rfl
  latch := rfl

variable {policy : Policy F M E} {s : Traced F M E}

/-- Only the array behind the queue changes. -/
theorem Ok.same (h : Ok policy s) {box : Inbox F} (hsame : Inbox.Same s.box box) : Ok policy { s with box := box } where
  head := hsame.head
  fifo := by rw [h.fifo, hsame.pending]
  ripe := h.ripe
  sized := by rw [hsame.pending]; exact h.sized
  bytes := by rw [hsame.queuedBytes, hsame.pending]; exact h.bytes
  calls := h.calls
  latch := by rw [hsame.closeFired]; exact h.latch

/-- One entry is consumed. -/
theorem Ok.taken (h : Ok policy s) {next : Queued F} {box : Inbox F} {calls : List (Outcome M E)} {stack : List Callout}
    (htaken : Inbox.Taken next s.box box) (hbytes : box.queuedBytes = s.box.queuedBytes - next.bytes)
    (hcalls : calls = outcomes policy.toFrameCodec s.box.closeFired [next.item])
    (hfired : box.closeFired = (s.box.closeFired || next.item.isMarker)) :
    Ok policy ⟨box, stack, s.arrived, s.consumed ++ [next], s.called ++ calls⟩ where
  head := htaken.head
  fifo := by rw [h.fifo, htaken.pending, List.append_assoc]; rfl
  ripe := fun e he => by
    rcases List.mem_append.mp he with he | he
    · exact h.ripe e he
    · rw [List.mem_singleton.mp he]
      exact htaken.due
  sized := fun e he => h.sized e (by rw [htaken.pending]; exact List.mem_cons_of_mem _ he)
  bytes := by
    have hsum := h.bytes
    rw [htaken.pending, List.map_cons, List.sum_cons] at hsum
    rw [hbytes, hsum, Nat.add_sub_cancel_left]
  calls := by
    rw [List.map_append, outcomes_append, ← h.calls, hcalls, h.latch]
    rfl
  latch := by
    rw [List.map_append, List.any_append, ← h.latch, hfired]
    simp only [List.map_cons, List.map_nil, List.any_cons, List.any_nil, Bool.or_false]

theorem Ok.marker_bytes (h : Ok policy s) {next : Queued F} {box : Inbox F} (htaken : Inbox.Taken next s.box box)
    (hitem : next.item = .closeMarker) : next.bytes = 0 := by
  rw [h.sized next (by rw [htaken.pending]; exact List.mem_cons_self), hitem]
  rfl

/-- The loop lemma: a drain keeps the account, however far it gets. -/
theorem Ok.drain {s : Traced F M E} (h : Ok policy s) : Ok policy (s.drain policy.toFrameCodec) := by
  induction s using Traced.drain.induct policy.toFrameCodec with
  | case1 s box hturn =>
    have hrun : s.drain policy.toFrameCodec = { s with box := box } := by
      rw [Traced.drain]
      split <;> simp_all
    have hspec := Inbox.turn_spec policy.toFrameCodec s.box
    rw [hturn] at hspec
    rw [hrun]
    cases hspec with
    | left => exact h.same (Inbox.same_compact h.head)
  | case2 s next box hturn ih =>
    have hrun : s.drain policy.toFrameCodec =
        Traced.drain policy.toFrameCodec { s with box := box, consumed := s.consumed ++ [next] } := by
      rw [Traced.drain]
      split <;> simp_all
    have hspec := Inbox.turn_spec policy.toFrameCodec s.box
    rw [hturn] at hspec
    rw [hrun]
    cases hspec with
    | skipped htaken hitem hfired hfired' hbytes =>
      have hkept : Ok policy ⟨box, s.stack, s.arrived, s.consumed ++ [next], s.called ++ []⟩ :=
        h.taken htaken (by rw [hbytes, h.marker_bytes htaken hitem]; rfl) (by rw [hitem, hfired]; rfl)
          (by rw [hfired, hfired']; rfl)
      rw [List.append_nil] at hkept
      exact ih hkept
  | case3 s next box handler hturn =>
    have hspec := Inbox.turn_spec policy.toFrameCodec s.box
    rw [hturn] at hspec
    rw [Traced.drain]
    split <;> simp_all only [Turn.closing.injEq, reduceCtorEq]
    cases hspec with
    | closing htaken hitem hfired hfired' hbytes =>
      exact h.taken htaken (by rw [hbytes, h.marker_bytes htaken hitem]; rfl) (by rw [hitem, hfired]; rfl)
        (by rw [hfired, hfired', hitem]; rfl)
  | case4 s next box handler m hturn =>
    have hspec := Inbox.turn_spec policy.toFrameCodec s.box
    rw [hturn] at hspec
    rw [Traced.drain]
    split <;> simp_all only [Turn.message.injEq, reduceCtorEq]
    cases hspec with
    | message htaken hitem hfired hbytes _ hdecode =>
      exact h.taken htaken hbytes (by rw [hitem, outcomes, hdecode]; rfl) (by rw [hfired, hitem, Item.isMarker, Bool.or_false])
  | case5 s next box e hturn =>
    have hspec := Inbox.turn_spec policy.toFrameCodec s.box
    rw [hturn] at hspec
    rw [Traced.drain]
    split <;> simp_all only [Turn.failed.injEq, reduceCtorEq]
    cases hspec with
    | failed htaken hitem hfired hbytes hdecode =>
      exact h.taken htaken hbytes (by rw [hitem, outcomes, hdecode]; rfl) (by rw [hfired, hitem, Item.isMarker, Bool.or_false])

/-- An entry arrives. -/
theorem Ok.arrive (h : Ok policy s) {e : Queued F} (he : e.bytes = itemBytes policy.toFrameCodec e.item) :
    Ok policy { s with
      box := { s.box with entries := s.box.entries ++ [e], queuedBytes := s.box.queuedBytes + e.bytes }
      arrived := s.arrived ++ [e.item] } := by
  have hpending := @Inbox.pending_snoc _ s.box e h.head
  refine ⟨?_, ?_, h.ripe, ?_, ?_, h.calls, h.latch⟩
  · show s.box.head ≤ (s.box.entries ++ _).length
    rw [List.length_append]
    exact h.head.trans (Nat.le_add_right _ _)
  · show s.arrived ++ [e.item] = (s.consumed ++ (s.box.entries ++ _).drop s.box.head).map Queued.item
    rw [hpending, h.fifo, ← List.append_assoc, @List.map_append _ _ _ (s.consumed ++ _)]
    rfl
  · show ∀ e' ∈ (s.box.entries ++ _).drop s.box.head, _
    rw [hpending]
    intro e' he'
    rcases List.mem_append.mp he' with he' | he'
    · exact h.sized e' he'
    · rw [List.mem_singleton.mp he']
      exact he
  · show s.box.queuedBytes + e.bytes = (((s.box.entries ++ _).drop s.box.head).map Queued.bytes).sum
    rw [hpending, List.map_append, List.sum_append, ← h.bytes]
    rfl

theorem Ok.enqueue (h : Ok policy s) {frame : F} {due : ℕ} {box : Inbox F}
    (henqueue : s.box.enqueue policy frame due = some box) :
    Ok policy { s with box := box, arrived := s.arrived ++ [.frame frame] } := by
  unfold Inbox.enqueue at henqueue
  simp only at henqueue
  split_ifs at henqueue
  obtain rfl := Option.some.inj henqueue
  exact @Ok.arrive _ _ _ _ _ h ⟨.frame frame, policy.byteLength frame, due⟩ rfl

theorem Ok.queueClose (h : Ok policy s) (due : ℕ) :
    Ok policy { s with box := s.box.queueClose due, arrived := s.arrived ++ [.closeMarker] } :=
  @Ok.arrive _ _ _ _ _ h ⟨.closeMarker, 0, due⟩ rfl

theorem Ok.age (h : Ok policy s) : Ok policy { s with box := s.box.age } := by
  have hpending := Inbox.pending_age h.head
  refine ⟨?_, ?_, h.ripe, ?_, ?_, h.calls, h.latch⟩
  · show s.box.head ≤ (s.box.entries.take s.box.head ++ (s.box.entries.drop s.box.head).map _).length
    rw [List.length_append, List.length_map, ← List.length_append, List.take_append_drop]
    exact h.head
  · rw [h.fifo, List.map_append, List.map_append, hpending, List.map_map]
    rfl
  · rw [hpending]
    intro e he
    obtain ⟨e', he', rfl⟩ := List.mem_map.mp he
    exact h.sized e' he'
  · rw [hpending, List.map_map]
    exact h.bytes

/-- Registering and disposing leave the queue alone. -/
theorem Ok.handlers (h : Ok policy s) (onMessage onClose : Option Handler) :
    Ok policy { s with box := { s.box with onMessage := onMessage, onClose := onClose } } :=
  ⟨h.head, h.fifo, h.ripe, h.sized, h.bytes, h.calls, h.latch⟩

theorem Ok.stack (h : Ok policy s) (stack : List Callout) : Ok policy { s with stack := stack } :=
  ⟨h.head, h.fifo, h.ripe, h.sized, h.bytes, h.calls, h.latch⟩

/-- **One call, return or throw.** -/
theorem Ok.step (h : Ok policy s) (e : Event F) : Ok policy (step policy s e) := by
  cases e with
  | enqueue frame due =>
    rw [FrameInbox.step]
    cases henqueue : s.box.enqueue policy frame due with
    | none => exact h
    | some box => exact h.enqueue henqueue
  | queueClose due => exact h.queueClose due
  | age => exact h.age
  | drain => exact h.drain
  | registerMessage handler =>
    rw [FrameInbox.step, Inbox.registerMessage]
    split_ifs
    · exact h
    · exact (h.handlers (some handler) s.box.onClose).drain
  | registerClose handler =>
    rw [FrameInbox.step, Inbox.registerClose]
    split_ifs
    · exact h
    · exact (h.handlers s.box.onMessage (some handler)).drain
  | disposeMessage handler =>
    rw [FrameInbox.step, Inbox.disposeMessage]
    split_ifs
    · exact h.handlers none s.box.onClose
    · exact h
  | disposeClose handler =>
    rw [FrameInbox.step, Inbox.disposeClose]
    split_ifs
    · exact h.handlers s.box.onMessage none
    · exact h
  | returned =>
    rw [FrameInbox.step]
    rcases s.stack with _ | ⟨_ | _, rest⟩
    · exact h
    · exact (h.stack rest).drain
    · exact h.stack rest
  | threw => exact h.stack _

theorem ok_exec (policy : Policy F M E) (es : List (Event F)) : Ok policy (exec (step policy) Traced.start es) :=
  exec_invariant (fun _ e h => h.step e) (ok_start policy) es

/-! ### Delivery -/

/-- What is promised of an inbox, at every moment of a run. -/
structure Delivers (policy : Policy F M E) (s : Traced F M E) : Prop where
  /-- What arrived is consumed in order, once, or still queued. -/
  fifo : s.arrived = s.consumed.map Queued.item ++ s.box.pending.map Queued.item
  /-- What was consumed was due by then. -/
  ripe : ∀ e ∈ s.consumed, e.due = 0
  /-- Consuming a frame called its handler, or reported it; the first marker alone called `onClose`. -/
  called : s.called = outcomes policy.toFrameCodec false (s.consumed.map Queued.item)
  closedOnce : (s.called.filter Outcome.isClosed).length ≤ 1
  /-- When `onClose` was called, all that arrived ahead of the marker had been consumed. -/
  closedLast : ∀ ahead behind, s.arrived = ahead ++ .closeMarker :: behind → .closeMarker ∉ ahead →
    (∃ c ∈ s.called, c.isClosed = true) → ahead ++ [.closeMarker] <+: s.consumed.map Queued.item
  queuedBytes : s.box.queuedBytes = ((s.box.pending.map Queued.item).map (itemBytes policy.toFrameCodec)).sum

theorem closed_outcomes_fired (codec : FrameCodec F M E) : ∀ l : List (Item F),
    (outcomes codec true l).filter Outcome.isClosed = []
  | [] => rfl
  | .frame frame :: l => by
    rw [outcomes, List.filter_cons_of_neg (by cases codec.decode frame <;> exact Bool.false_ne_true)]
    exact closed_outcomes_fired codec l
  | .closeMarker :: l => closed_outcomes_fired codec l

theorem closed_outcomes_once (codec : FrameCodec F M E) : ∀ l : List (Item F),
    ((outcomes codec false l).filter Outcome.isClosed).length ≤ 1
  | [] => Nat.zero_le _
  | .frame frame :: l => by
    rw [outcomes, List.filter_cons_of_neg (by cases codec.decode frame <;> exact Bool.false_ne_true)]
    exact closed_outcomes_once codec l
  | .closeMarker :: l => by
    rw [outcomes, List.filter_cons_of_pos rfl, closed_outcomes_fired]
    exact Nat.le_refl _

theorem marker_of_closed (codec : FrameCodec F M E) : ∀ l : List (Item F),
    (∃ c ∈ outcomes codec false l, c.isClosed = true) → .closeMarker ∈ l
  | [], ⟨_, hc, _⟩ => absurd hc List.not_mem_nil
  | .frame frame :: l, ⟨c, hc, hclosed⟩ => by
    rw [outcomes] at hc
    rcases List.mem_cons.mp hc with rfl | hc
    · exact absurd hclosed (by cases codec.decode frame <;> exact Bool.false_ne_true)
    · exact List.mem_cons_of_mem _ (marker_of_closed codec l ⟨c, hc, hclosed⟩)
  | .closeMarker :: _, _ => List.mem_cons_self

theorem Ok.delivers (h : Ok policy s) : Delivers policy s where
  fifo := by rw [h.fifo, List.map_append]
  ripe := h.ripe
  called := h.calls
  closedOnce := by
    rw [h.calls]
    exact closed_outcomes_once policy.toFrameCodec _
  closedLast := by
    intro ahead behind harrived hahead hclosed
    rw [h.calls] at hclosed
    have hmem := marker_of_closed policy.toFrameCodec _ hclosed
    have hfifo := h.fifo
    rw [List.map_append, harrived] at hfifo
    have hconsumed : s.consumed.map Queued.item <+: ahead ++ .closeMarker :: behind := ⟨_, hfifo.symm⟩
    -- A consumed prefix with a marker reaches past the first one.
    rcases List.prefix_or_prefix_of_prefix hconsumed (⟨behind, by simp⟩ : ahead ++ [.closeMarker] <+: _) with hle | hle
    · rcases List.prefix_concat_iff.mp hle with heq | hshort
      · rw [heq]
      · exact absurd (hshort.subset hmem) hahead
    · exact hle
  queuedBytes := by
    rw [h.bytes, List.map_map]
    exact congrArg List.sum (List.map_congr_left h.sized)

/-! ### What was consumed stays so -/

theorem consumed_drain (codec : FrameCodec F M E) (s : Traced F M E) : s.consumed <+: (s.drain codec).consumed := by
  induction s using Traced.drain.induct codec with
  | case1 s box hturn =>
    rw [Traced.drain]
    split <;> simp_all
  | case2 s next box hturn ih =>
    have hrun : s.drain codec = Traced.drain codec { s with box := box, consumed := s.consumed ++ [next] } := by
      rw [Traced.drain]
      split <;> simp_all
    rw [hrun]
    exact (List.prefix_append _ _).trans ih
  | case3 | case4 | case5 =>
    rw [Traced.drain]
    split <;> simp_all

theorem consumed_step (policy : Policy F M E) (s : Traced F M E) (e : Event F) :
    s.consumed <+: (step policy s e).consumed := by
  cases e with
  | enqueue frame due =>
    rw [step]
    split
    · exact List.prefix_refl _
    · exact List.prefix_refl _
  | queueClose | age => exact List.prefix_refl _
  | drain => exact consumed_drain _ s
  | registerMessage handler =>
    rw [step]
    cases s.box.registerMessage handler with
    | none => exact List.prefix_refl _
    | some box => exact consumed_drain policy.toFrameCodec { s with box := box }
  | registerClose handler =>
    rw [step]
    cases s.box.registerClose handler with
    | none => exact List.prefix_refl _
    | some box => exact consumed_drain policy.toFrameCodec { s with box := box }
  | disposeMessage | disposeClose => exact List.prefix_refl _
  | returned =>
    rw [step]
    rcases s.stack with _ | ⟨_ | _, rest⟩
    · exact List.prefix_refl _
    · exact consumed_drain policy.toFrameCodec { s with stack := rest }
    · exact List.prefix_refl _
  | threw => exact List.prefix_refl _

theorem consumed_exec (policy : Policy F M E) (s : Traced F M E) (es : List (Event F)) :
    s.consumed <+: (exec (step policy) s es).consumed :=
  @exec_invariant _ _ (step policy) (fun s' => s.consumed <+: s'.consumed)
    (fun s' e h => h.trans (consumed_step policy s' e)) s (List.prefix_refl _) es

/-- **Delivery.**  At every moment of every run the inbox delivers; what was consumed is never taken back; and what
arrives with no handler registered is turned away rather than kept past the cap. -/
theorem inbox_delivers (policy : Policy F M E) (es later : List (Event F)) :
    Delivers policy (exec (step policy) Traced.start es) ∧
      (exec (step policy) Traced.start es).consumed <+: (exec (step policy) Traced.start (es ++ later)).consumed ∧
      ∀ frame due, (exec (step policy) Traced.start es).box.onMessage = none →
        step policy (exec (step policy) Traced.start es) (.enqueue frame due) = exec (step policy) Traced.start es ∨
          (((step policy (exec (step policy) Traced.start es) (.enqueue frame due)).box.queuedBytes : ℚ) : WithTop ℚ) ≤
            policy.maxRetainedBytes := by
  refine ⟨(ok_exec policy es).delivers, ?_, fun frame due hnone => ?_⟩
  · rw [exec_append]
    exact consumed_exec policy _ later
  · rw [step]
    unfold Inbox.enqueue
    simp only
    split_ifs with hrefuses
    · exact Or.inl rfl
    · refine Or.inr (not_lt.mp fun hlt => hrefuses ⟨hnone, ?_⟩)
      exact_mod_cast hlt

end FrameInbox
end Grove
