import Grove.Sim.Saves

/-! # A captured record, until its write lands

The cache answers a rejoin with the fields the last leave captured, for as long as the host has not
acknowledged the order they went out in.  An acknowledgement names a key and not an order, so it
must be the newest order's (`AcksNewest`). -/

namespace Grove

namespace Sim

/-- An acknowledgement of a key whose cached record some leave captured is of that leave's order,
unless that order has been acknowledged already. -/
def AcksNewest (s : Sim) : Call → Prop
  | .saved key order => ∀ i, s.history.writer key = some (.captured i) → i ∉ s.history.acked → i = order
  | _ => True

/-- An order not yet acknowledged, whose fields nothing newer replaced, is what a rejoin reads. -/
structure Readable (s : Sim) : Prop where
  held : ∀ (i : ℕ) (order : SaveOrder), s.history.issued[i]? = some order → i ∉ s.history.acked →
    s.history.writer order.hostKey = some (.captured i) → s.records.has order.hostKey = true
  answers : ∀ (i : ℕ) (order : SaveOrder), s.history.issued[i]? = some order → i ∉ s.history.acked →
    s.history.writer order.hostKey = some (.captured i) →
      ∀ field, s.world.persistedField order.hostKey field = OrderedMap.lookup field order.fields

/-- The record of such an order is the cached one. -/
def Cached (s : Sim) : Prop :=
  ∀ (i : ℕ) (order : SaveOrder), s.history.issued[i]? = some order → i ∉ s.history.acked →
    s.history.writer order.hostKey = some (.captured i) → OrderedMap.get s.records order.hostKey = some order.fields

section cached
variable {s s' : Sim}

theorem Cached.readable (h : Cached s) : Readable s where
  held := by
    intro i order hi hacked hwriter
    unfold OrderedMap.has
    rw [h i order hi hacked hwriter]
    rfl
  answers := by
    intro i order hi hacked hwriter field
    show ((some s.records).bind (fun records => records.get order.hostKey)).bind (OrderedMap.lookup field) = _
    rw [Option.bind_some, h i order hi hacked hwriter, Option.bind_some]

/-- Nothing `Cached` speaks of has changed. -/
theorem Cached.congr (h : Cached s) (hissued : s'.history.issued = s.history.issued)
    (hacked : s'.history.acked = s.history.acked) (hwriter : s'.history.writer = s.history.writer)
    (hrecords : s'.records = s.records) : Cached s' := by
  unfold Cached
  rw [hissued, hacked, hwriter, hrecords]
  exact h

theorem Cached.released (h : Cached s) (hs : Seats s) {ref : SessionRef} (onLeave : List Runtime.Act)
    (hopen : (s.sessions ref).closed = false) : Cached (s.release ref onLeave) := by
  have hv := release_vacated onLeave hopen
  cases hin : (s.sessions ref).player with
  | none =>
    rw [release_of_none onLeave hopen hin]
    exact h.congr rfl rfl rfl rfl
  | some player =>
    obtain ⟨record, orders, hdep⟩ := release_departs hs onLeave hopen hin
    rcases hdep.outcome with ⟨-, -, horders, hrecords, hwriter⟩ | ⟨-, horders, hrecords, hwriter⟩
    · intro i order hi hacked hw
      rw [hdep.issued, horders] at hi
      rw [hv.acked] at hacked
      rw [hwriter, Function.update_apply] at hw
      rw [hrecords]
      split_ifs at hw with hkey
      · -- the order just issued is the key's writer now
        obtain rfl : s.history.issued.length = i := Writer.captured.inj (Option.some.inj hw)
        rw [List.getElem?_concat_length] at hi
        obtain rfl := Option.some.inj hi
        exact OrderedMap.get_set_self _ _ _
      · have hlt : i < s.history.issued.length := by
          by_contra hge
          have hlen := (List.getElem?_eq_some_iff.mp hi).1
          rw [List.length_append, List.length_singleton] at hlen
          obtain rfl : i = s.history.issued.length := by omega
          rw [List.getElem?_concat_length] at hi
          exact hkey (congrArg SaveOrder.hostKey (Option.some.inj hi)).symm
        rw [List.getElem?_append_left hlt] at hi
        rw [OrderedMap.get_set_of_ne _ hkey]
        exact h i order hi hacked hw
    · refine h.congr ?_ hv.acked hwriter hrecords
      rw [hdep.issued, horders, List.append_nil]

/-- The session table's invariant beside the cache's, since a departure needs both. -/
def Lasting (s : Sim) : Prop := Seats s ∧ Cached s

theorem Lasting.move (h : Lasting s) (hmove : Move s s') : Lasting s' := by
  refine ⟨h.1.move hmove, ?_⟩
  cases hmove with
  | idle hidle => exact h.2.congr hidle.issued hidle.acked hidle.writer hidle.records
  | entered ref request handler hreg hopen hout hroom hfree => exact h.2.congr rfl rfl rfl rfl
  | released ref onLeave hlt hopen => exact h.2.released h.1 onLeave hopen

theorem Cached.acknowledged (h : Cached s) (key : HostKey) (order : ℕ) (hcond : AcksNewest s (.saved key order)) :
    Cached (s.acknowledge key order) := by
  intro i o hi hacked hw
  have hnot : i ∉ s.history.acked ∧ i ≠ order := by
    have hmem : i ∉ s.history.acked ++ [order] := hacked
    simpa using hmem
  have hw' : s.history.writer o.hostKey = some (.captured i) := hw
  have hne : o.hostKey ≠ key := by
    rintro rfl
    exact hnot.2 (hcond i hw' hnot.1)
  exact (OrderedMap.get_delete_of_ne s.records hne).trans (h i o hi hnot.1 hw')

/-- A load's answer is a newer writer of its key. -/
theorem Cached.filed (h : Cached s) (key : HostKey) (fields : Fields) : Cached (s.fileRecord key fields) := by
  intro i o hi hacked hw
  have hw' : Function.update s.history.writer key (some .loaded) o.hostKey = some (.captured i) := hw
  rw [Function.update_apply] at hw'
  split_ifs at hw' with hkey
  · cases hw'
  · exact (OrderedMap.get_set_of_ne s.records hkey fields).trans (h i o hi hacked hw')

theorem Lasting.step (h : Lasting s) {call : Call} (hcond : AcksNewest s call) : Lasting (s.step call) := by
  refine step_keeps (fun _ _ h => h.move) h.1.bounded (fun s₁ hbeside => ⟨h.1.beside hbeside, ?_⟩)
  cases hbeside with
  | still => exact h.2
  | saved key order => exact h.2.acknowledged key order hcond
  | filed fields => exact h.2.filed _ fields
  | opened | noted | taken => exact h.2.congr rfl rfl rfl rfl

end cached

/-- **A captured record stays readable until its own write lands**, in a run that acknowledges a
key's newest order or one already acknowledged. -/
theorem captured_readable (config : SimConfig) (facadeMembers : HostKey → List String) (simRate : ℚ)
    (visuals : RenderManifest) (boot : List Runtime.Act) (calls : List Call)
    (hacks : Meets Sim.step AcksNewest (new config facadeMembers simRate visuals boot) calls) :
    Readable (exec Sim.step (new config facadeMembers simRate visuals boot) calls) := by
  have hstep : ∀ s call, Lasting s → AcksNewest s call → Lasting (Sim.step s call) := fun _ _ h hcond => h.step hcond
  have hnew : Lasting (new config facadeMembers simRate visuals boot) :=
    ⟨seats_new config facadeMembers simRate visuals boot, fun _ _ h => by cases h⟩
  exact (Meets.invariant hstep hnew hacks).2.readable

/-! ### Two leaves, one acknowledgement -/

instance (s : Sim) : ∀ call, Decidable (AcksNewest s call)
  | .saved key order =>
    match h : s.history.writer key with
    | some (.captured i) => decidable_of_iff (i ∉ s.history.acked → i = order) (by
        constructor
        · intro hi j hj
          rw [h] at hj
          obtain rfl := Writer.captured.inj (Option.some.inj hj)
          exact hi
        · exact fun hall => hall i h)
    | some .loaded | none => isTrue (by
        intro i hi
        rw [h] at hi
        cases hi)
  | .opened .. | .record .. | .frame .. | .closed .. | .stepOnce .. | .sweepJoinDeadline | .drain .. | .takeOutput
  | .close _ | .declareVisuals _ | .setSimRate _ => inferInstanceAs (Decidable True)

/-- A join handler that gives the player a purse and fills it. -/
def fillPurse (rid : RecordId) (coins : ℚ) : List Runtime.Act :=
  [.op (.attach (.player "u") ⟨[("coins", .number (.finite 0))], []⟩ ⟨none, none⟩),
    .op (.writeState rid "coins" (.plain (.number (.finite coins))))]

/-- A peer joins and leaves twice, before the store confirms the first save. -/
def twoLeaves : List Batch :=
  [{ Batch.quiet with opened := [("c", some "u")], frames := [("c", some joining, [])] },
    { Batch.quiet with records := [("c", some [], fillPurse 0 1)] },
    { Batch.quiet with closed := [("c", [])] },
    { Batch.quiet with opened := [("d", some "u")], frames := [("d", some joining, fillPurse 1 2)] },
    { Batch.quiet with closed := [("d", [])] }]

def confirmed (order : ℕ) : List Batch := [{ Batch.quiet with saved := [(.player "u", order)] }]

theorem captured_readable_newest : Readable (exec Sim.step lobby (batchCalls (twoLeaves ++ confirmed 1))) :=
  captured_readable _ _ _ _ _ (batchCalls (twoLeaves ++ confirmed 1)) (by decide +kernel)

/-- The acknowledgement of the first save drops what the second leave captured. -/
theorem captured_dropped_oldest : ¬ ∀ (config : SimConfig) (facadeMembers : HostKey → List String) (simRate : ℚ)
    (visuals : RenderManifest) (boot : List Runtime.Act) (calls : List Call),
    Readable (exec Sim.step (new config facadeMembers simRate visuals boot) calls) := by
  intro h
  have hreadable : Readable (exec Sim.step lobby (batchCalls (twoLeaves ++ confirmed 0))) :=
    h _ _ _ _ _ (batchCalls (twoLeaves ++ confirmed 0))
  have hissued : (exec Sim.step lobby (batchCalls (twoLeaves ++ confirmed 0))).history.issued[1]? =
      some ⟨.player "u", [("coins", .number 2)]⟩ := by decide +kernel
  have hanswer := hreadable.answers 1 _ hissued (by decide +kernel) (by decide +kernel) "coins"
  have hnone : (exec Sim.step lobby (batchCalls (twoLeaves ++ confirmed 0))).world.persistedField (.player "u")
      "coins" = none := by decide +kernel
  rw [hnone] at hanswer
  cases hanswer

end Sim

end Grove
