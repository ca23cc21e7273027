import Grove.Lib.OrderedMap
import Grove.Protocol.Envelopes

/-! # The input fold

`packages/core/src/runtime/action-states.ts` and `input-fold.ts`: both endpoints fold input
edges through this one implementation.  `held` and the axes persist, `pressed` and `released`
are one tick wide.

The dispatches a fold makes go to creator handlers, which reach the world but never the fold
itself, so the fold hands them back as a list in the order they are made. -/

namespace Grove

/-- One connection's folded input. -/
structure ActionStates where
  held : List String
  pressed : List String
  released : List String
  axes : OrderedMap String ℚ
deriving DecidableEq

/-- What the input path asks of the dispatcher, in the terms it asks it. -/
inductive InputDispatch where
  | event (player : PlayerId) (action : String) (phase : InputPhase) (value : Option ℚ)
  | fillIntent (player : PlayerId) (moveX moveY : ℚ)
  | pressWidget (player : PlayerId) (widget : String) (screen : Option String)
  | onClick (player : PlayerId) (netId : NetId)
  | onHoverEnter (player : PlayerId) (netId : NetId)
  | onHoverExit (player : PlayerId) (netId : NetId)
  | deliverRequest (player : PlayerId) (name : String) (payload : Option (List (String × JsonValue)))
deriving DecidableEq

/-- A fresh action-state map, everything neutral. -/
def createActionStates : ActionStates := ⟨[], [], [], OrderedMap.empty⟩

namespace ActionStates

variable (a : ActionStates)

def axis (action : String) : ℚ := (a.axes.get action).getD 0

/-- A press sets held and pressed; a release clears held and sets released; a hold sample
only carries a value. -/
def applyEdge (edge : InputAction) : ActionStates :=
  match edge.on with
  | .press =>
    { a with
      held := addNew a.held edge.action
      pressed := addNew a.pressed edge.action
      axes := a.axes.set edge.action (edge.value.getD 1) }
  | .release =>
    { a with
      held := a.held.filter (· ≠ edge.action)
      released := addNew a.released edge.action
      axes := a.axes.set edge.action (edge.value.getD 0) }
  | .hold =>
    match edge.value with
    | some v => { a with axes := a.axes.set edge.action v }
    | none => a

/-- Clears the one-tick-wide edges. -/
def advanceTick : ActionStates := { a with pressed := [], released := [] }

def heldActions : List String := a.held

/-- Every non-neutral axis and its value. -/
def axisValues : List (String × ℚ) := a.axes.entries.filter (fun e => e.2 ≠ 0)

/-! ### What outlasts a tick -/

/-- One tick's edges, after the boundary. -/
def foldEdges (a : ActionStates) (edges : List InputAction) : ActionStates := edges.foldl applyEdge a.advanceTick

/-- The two agree on what is held and on every axis. -/
structure SameHeld (a b : ActionStates) : Prop where
  held : ∀ action, action ∈ a.held ↔ action ∈ b.held
  axis : ∀ action, a.axis action = b.axis action

variable {a} {b c : ActionStates}

theorem SameHeld.refl (a : ActionStates) : SameHeld a a := ⟨fun _ => Iff.rfl, fun _ => rfl⟩

theorem SameHeld.symm (h : SameHeld a b) : SameHeld b a := ⟨fun x => (h.held x).symm, fun x => (h.axis x).symm⟩

theorem SameHeld.trans (h : SameHeld a b) (h' : SameHeld b c) : SameHeld a c :=
  ⟨fun x => (h.held x).trans (h'.held x), fun x => (h.axis x).trans (h'.axis x)⟩

theorem axis_set (m : OrderedMap String ℚ) (action other : String) (v : ℚ) :
    ((m.set action v).get other).getD 0 = if other = action then v else (m.get other).getD 0 := by
  rw [OrderedMap.get_set]
  split_ifs <;> rfl

theorem axis_applyEdge (a : ActionStates) (edge : InputAction) (action : String) : (a.applyEdge edge).axis action =
    if action = edge.action then
      match edge.on with
      | .press => edge.value.getD 1
      | .release => edge.value.getD 0
      | .hold => edge.value.getD (a.axis action)
    else a.axis action := by
  unfold axis applyEdge
  rcases edge with ⟨name, on, value⟩
  cases on with
  | press | release => exact axis_set _ _ _ _
  | hold =>
    cases value with
    | none => simp
    | some v => exact axis_set _ _ _ _

theorem mem_held_applyEdge (a : ActionStates) (edge : InputAction) (action : String) :
    action ∈ (a.applyEdge edge).held ↔
      match edge.on with
      | .press => action ∈ a.held ∨ action = edge.action
      | .release => action ∈ a.held ∧ action ≠ edge.action
      | .hold => action ∈ a.held := by
  unfold applyEdge
  rcases edge with ⟨name, on, value⟩
  cases on with
  | press => exact mem_addNew
  | release => simp
  | hold => cases value <;> exact Iff.rfl

theorem SameHeld.applyEdge (h : SameHeld a b) (edge : InputAction) : SameHeld (a.applyEdge edge) (b.applyEdge edge) where
  held := by
    intro action
    rw [mem_held_applyEdge, mem_held_applyEdge, h.held]
  axis := by
    intro action
    rw [axis_applyEdge, axis_applyEdge, h.axis]

theorem sameHeld_advanceTick (a : ActionStates) : SameHeld a.advanceTick a := ⟨fun _ => Iff.rfl, fun _ => rfl⟩

theorem SameHeld.foldl : ∀ (edges : List InputAction) {a b : ActionStates}, SameHeld a b →
    SameHeld (edges.foldl ActionStates.applyEdge a) (edges.foldl ActionStates.applyEdge b)
  | [], _, _, h => h
  | edge :: edges, _, _, h => SameHeld.foldl edges (h.applyEdge edge)

theorem SameHeld.foldEdges (h : SameHeld a b) (edges : List InputAction) :
    SameHeld (a.foldEdges edges) (b.foldEdges edges) :=
  SameHeld.foldl edges ((sameHeld_advanceTick a).trans (h.trans (sameHeld_advanceTick b).symm))

end ActionStates

/-! ### What is held, as a set -/

/-- What is held after the edge. -/
def InputAction.held (edge : InputAction) (held : Set String) : Set String :=
  match edge.on with
  | .press => insert edge.action held
  | .release => held \ {edge.action}
  | .hold => held

/-- What is held after the edges, the first first. -/
def heldAfter (edges : List InputAction) (held : Set String) : Set String := edges.foldl (fun h e => e.held h) held

@[simp] theorem heldAfter_nil (held : Set String) : heldAfter [] held = held := rfl

theorem heldAfter_cons (e : InputAction) (edges : List InputAction) (held : Set String) :
    heldAfter (e :: edges) held = heldAfter edges (e.held held) := rfl

theorem heldAfter_append (edges edges' : List InputAction) (held : Set String) :
    heldAfter (edges ++ edges') held = heldAfter edges' (heldAfter edges held) := List.foldl_append

/-- Samples move nothing. -/
def Sampled (edges : List InputAction) : Prop := ∀ e ∈ edges, e.on = .hold

instance (edges : List InputAction) : Decidable (Sampled edges) := inferInstanceAs (Decidable (∀ e ∈ edges, e.on = .hold))

theorem heldAfter_sampled : ∀ {edges : List InputAction}, Sampled edges → ∀ held, heldAfter edges held = held
  | [], _, _ => rfl
  | e :: edges, h, held => by
    have he : e.held held = held := by
      unfold InputAction.held
      rw [h e List.mem_cons_self]
    rw [heldAfter_cons, he]
    exact heldAfter_sampled (fun e' he' => h e' (List.mem_cons_of_mem _ he')) held

/-- The set an action state holds. -/
def ActionStates.heldSet (a : ActionStates) : Set String := {action | action ∈ a.held}

theorem heldSet_foldl : ∀ (edges : List InputAction) (a : ActionStates),
    (edges.foldl ActionStates.applyEdge a).heldSet = heldAfter edges a.heldSet
  | [], _ => rfl
  | e :: edges, a => by
    have he : (a.applyEdge e).heldSet = e.held a.heldSet := by
      ext action
      show action ∈ (a.applyEdge e).held ↔ _
      rw [ActionStates.mem_held_applyEdge]
      unfold InputAction.held
      cases e.on with
      | press => exact or_comm
      | release | hold => exact Iff.rfl
    rw [List.foldl_cons, heldSet_foldl edges, he]
    rfl

/-- The edges of a run of frames. -/
def edgesOf (frames : List InputFrame) : List InputAction := frames.flatMap InputFrame.actions

theorem edgesOf_append (frames frames' : List InputFrame) : edgesOf (frames ++ frames') = edgesOf frames ++ edgesOf frames' :=
  List.flatMap_append

/-- Folds each edge `admits` lets through; `admits` may claim a name, so its state is threaded.
A sampled hold updates the axis and dispatches nothing. -/
def foldInputEdges {α : Type} (player : PlayerId) (admits : α → String → Bool × α) :
    List InputAction → ActionStates → α → ActionStates × α × List InputDispatch
  | [], a, st => (a, st, [])
  | edge :: edges, a, st =>
    match admits st edge.action with
    | (false, st) => foldInputEdges player admits edges a st
    | (true, st) =>
      let a' := a.applyEdge edge
      let (a'', st', out) := foldInputEdges player admits edges a' st
      match edge.on with
      | .hold => (a'', st', out)
      | _ => (a'', st',
          .event player edge.action edge.on (some (edge.value.getD (a'.axis edge.action))) :: out)

/-- What letting a name through keeps, the fold keeps. -/
theorem foldInputEdges_keeps {α : Type} {admits : α → String → Bool × α} {P : α → Prop}
    (hadmits : ∀ st name, P st → P (admits st name).2) (player : PlayerId) : ∀ (edges : List InputAction) (a : ActionStates)
    (st : α), P st → P (foldInputEdges player admits edges a st).2.1
  | [], _, _, h => h
  | edge :: edges, a, st, h => by
    have h' := hadmits st edge.action h
    unfold foldInputEdges
    rcases hadm : admits st edge.action with ⟨_ | _, st'⟩
    all_goals rw [hadm] at h'
    · exact foldInputEdges_keeps hadmits player edges a st' h'
    · have ih := foldInputEdges_keeps hadmits player edges (a.applyEdge edge) st' h'
      simp only
      split <;> exact ih

/-- Where every name is let through, the fold is the edges one after the other. -/
theorem foldInputEdges_all (player : PlayerId) : ∀ (edges : List InputAction) (a : ActionStates),
    (foldInputEdges player (fun (st : Unit) _ => (true, st)) edges a ()).1 = edges.foldl ActionStates.applyEdge a
  | [], _ => rfl
  | edge :: edges, a => by
    have ih := foldInputEdges_all player edges (a.applyEdge edge)
    unfold foldInputEdges
    simp only
    split <;> exact ih

/-- One synthesized hold per held button and non-neutral axis, then the movement intent. -/
def synthesizeHolds (player : PlayerId) (a : ActionStates) : List InputDispatch :=
  let active := (a.axisValues.map Prod.fst).foldl addNew a.heldActions
  active.map (fun action => .event player action .hold (some (a.axis action))) ++
    [.fillIntent player (a.axis "moveX") (a.axis "moveY")]

end Grove
