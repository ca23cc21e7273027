import Grove.Client.Apply

/-! # From the journal to the wire

`toWire` turns a drained journal into wire ops.  Read as edits the result is the journal less
every edit about an ephemeral entity (`wireEdits_sent`), and nothing is lost to a failed
conversion (`flatMap_toWire`): an entity spawned in the journal either still exists or is
ephemeral. -/

namespace Grove

variable {v : View} {rt : Runtime} {ephemeral : List EntityId}

/-- What the wire carries of one journaled op. -/
def sentOf (rt : Runtime) (ephemeral : List EntityId) (op : SingleStructuralOp) :
    Option WireSingleStructuralOp :=
  match toWireSingle rt ephemeral op with
  | .sent wire => some wire
  | .elided | .unsendable => none

/-- The conversion does not fail. -/
def Sendable (rt : Runtime) (ephemeral : List EntityId) (op : SingleStructuralOp) : Prop :=
  toWireSingle rt ephemeral op ≠ .unsendable

theorem sendable_of_record {op : SingleStructuralOp}
    (h : ∀ id t, op = .spawn id t → id ∉ ephemeral → (rt.entities.record id).isSome) :
    Sendable rt ephemeral op := by
  unfold Sendable toWireSingle
  split_ifs with he
  · simp
  · cases op with
    | spawn id t =>
      obtain ⟨r, hr⟩ := Option.isSome_iff_exists.mp (h id t rfl he)
      simp [Runtime.readEntitySnapshot, hr]
    | destroy | reparent => simp
    | tag id name added =>
      simp only
      split_ifs <;> simp
    | attach id script props => simp

theorem toWireSingles_eq : ∀ {ops : List SingleStructuralOp}, (∀ op ∈ ops, Sendable rt ephemeral op) →
    toWireSingles rt ephemeral ops = some (ops.filterMap (sentOf rt ephemeral))
  | [], _ => rfl
  | op :: ops, h => by
    have hop := h op List.mem_cons_self
    have ih := toWireSingles_eq (fun op' hop' => h op' (List.mem_cons_of_mem _ hop'))
    unfold Sendable at hop
    unfold toWireSingles
    rw [List.filterMap_cons]
    unfold sentOf
    cases hw : toWireSingle rt ephemeral op with
    | sent wire => simp only [ih, Option.map_some]; rfl
    | elided => simp only [ih]; rfl
    | unsendable => exact absurd hw hop

/-- The wire entry of a journal entry, if one is sent. -/
def sentEntry (rt : Runtime) (ephemeral : List EntityId) (op : StructuralOp) : List WireStructuralOp :=
  match toWireStructural rt ephemeral op with
  | .sent w => [w]
  | .elided | .unsendable => []

theorem toWire_cons (op : StructuralOp) (ops : List StructuralOp) :
    (toWire rt ephemeral (op :: ops)).1 = sentEntry rt ephemeral op ++ (toWire rt ephemeral ops).1 := by
  rw [toWire, sentEntry]
  cases toWireStructural rt ephemeral op <;> rfl

/-- A group of one is sent bare, and an empty one not at all. -/
theorem flatMap_sentEntry {op : StructuralOp} (h : ∀ op' ∈ op.singles, Sendable rt ephemeral op') :
    (sentEntry rt ephemeral op).flatMap WireStructuralOp.singles =
      op.singles.filterMap (sentOf rt ephemeral) := by
  unfold sentEntry
  cases op with
  | single op =>
    have hop := h op (List.mem_singleton_self op)
    unfold Sendable at hop
    simp only [toWireStructural, StructuralOp.singles, List.filterMap_cons, List.filterMap_nil, sentOf]
    cases hw : toWireSingle rt ephemeral op with
    | sent wire => rfl
    | elided => rfl
    | unsendable => exact absurd hw hop
  | group singles =>
    have hsingles := toWireSingles_eq (show ∀ op' ∈ singles, Sendable rt ephemeral op' from h)
    simp only [toWireStructural, hsingles, StructuralOp.singles]
    rcases singles.filterMap (sentOf rt ephemeral) with _ | ⟨w, _ | ⟨w', ws⟩⟩
    · rfl
    · rfl
    · simp [WireStructuralOp.singles]

/-- The wire journal, op by op. -/
theorem flatMap_toWire : ∀ {ops : List StructuralOp},
    (∀ op ∈ ops.flatMap StructuralOp.singles, Sendable rt ephemeral op) →
    (toWire rt ephemeral ops).1.flatMap WireStructuralOp.singles =
      (ops.flatMap StructuralOp.singles).filterMap (sentOf rt ephemeral)
  | [], _ => rfl
  | op :: ops, h => by
    rw [List.flatMap_cons] at h
    have ih := flatMap_toWire (fun op' hop' => h op' (List.mem_append_right _ hop'))
    rw [toWire_cons, List.flatMap_append, List.flatMap_cons, List.filterMap_append, ih,
      flatMap_sentEntry (fun op' hop' => h op' (List.mem_append_left _ hop'))]

/-- Every edit of an op is about the op's entity. -/
theorem target_of_mem_edits {op : SingleStructuralOp} {e : Edit EntityId (Set String)}
    (he : e ∈ op.edits v) : e.target = op.id := by
  cases op with
  | spawn | destroy | reparent => simp only [SingleStructuralOp.edits, List.mem_singleton] at he; rw [he]; rfl
  | tag id name added =>
    simp only [SingleStructuralOp.edits, tagEdits] at he
    split_ifs at he
    · cases he
    · rw [List.mem_singleton.mp he]; rfl
    · rw [List.mem_singleton.mp he]; rfl
    · cases he
  | attach id script props =>
    simp only [SingleStructuralOp.edits] at he
    split_ifs at he
    · rw [List.mem_singleton.mp he]; rfl
    · cases he

/-- One op's edits on the wire. -/
theorem wireEdits_sentOf {op : SingleStructuralOp} (h : Sendable rt ephemeral op) :
    wireEdits v (sentOf rt ephemeral op).toList =
      (op.edits v).filter (fun e => e.target ∉ {x | x ∈ ephemeral}) := by
  by_cases he : op.id ∈ ephemeral
  · have hnone : sentOf rt ephemeral op = none := by
      unfold sentOf toWireSingle
      rw [if_pos he]
    rw [hnone, List.filter_eq_nil_iff.mpr]
    · rfl
    · intro e hmem
      rw [target_of_mem_edits hmem]
      simpa using he
  · have hall : (op.edits v).filter (fun e => e.target ∉ {x | x ∈ ephemeral}) = op.edits v := by
      rw [List.filter_eq_self]
      intro e hmem
      rw [target_of_mem_edits hmem]
      simpa using he
    rw [hall]
    unfold Sendable toWireSingle at h
    unfold sentOf toWireSingle
    rw [if_neg he] at h ⊢
    cases op with
    | spawn id t =>
      simp only [Runtime.readEntitySnapshot] at h ⊢
      cases hr : rt.entities.record id with
      | none => simp [hr] at h
      | some r =>
        simp [wireEdits, WireSingleStructuralOp.edits, SingleStructuralOp.edits]
    | destroy id => rfl
    | reparent id p => rfl
    | tag id name added =>
      simp only [SingleStructuralOp.edits]
      split_ifs <;> simp_all [wireEdits, WireSingleStructuralOp.edits]
    | attach id script props =>
      simp [wireEdits, WireSingleStructuralOp.edits, SingleStructuralOp.edits]

/-- **The wire journal as edits**: the journal's, less those about ephemeral entities. -/
theorem wireEdits_sent : ∀ {js : List SingleStructuralOp}, (∀ op ∈ js, Sendable rt ephemeral op) →
    wireEdits v (js.filterMap (sentOf rt ephemeral)) =
      (edits v js).filter (fun e => e.target ∉ {x | x ∈ ephemeral})
  | [], _ => rfl
  | op :: js, h => by
    have hhead := wireEdits_sentOf (v := v) (h op List.mem_cons_self)
    have ih := wireEdits_sent (fun op' hop' => h op' (List.mem_cons_of_mem _ hop'))
    have hsplit : (op :: js).filterMap (sentOf rt ephemeral) =
        (sentOf rt ephemeral op).toList ++ js.filterMap (sentOf rt ephemeral) := by
      rw [List.filterMap_cons]
      cases sentOf rt ephemeral op <;> rfl
    rw [hsplit, wireEdits, List.flatMap_append, edits, List.flatMap_cons, List.filter_append]
    exact congrArg₂ _ hhead ih

end Grove
