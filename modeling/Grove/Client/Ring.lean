import Grove.Core.ActionStates

/-! # The input ring

`packages/client/src/ring.ts`: the frames sent and not yet acked, and the fold of those that have
left the ring, from which a replay starts. -/

namespace Grove

/-- Ring capacity in frames. -/
def ringTicks : ℕ := 48

/-- One retained frame, with the lead and the clock epoch at its send. -/
structure RingEntry where
  frame : InputFrame
  leadAtSendTicks : ℚ
  epoch : ℕ
deriving DecidableEq

/-- Folds what `held` holds into `into` and closes the tick. -/
def assertHeld (held into : ActionStates) : ActionStates :=
  let pressed := held.heldActions.foldl (fun a action => a.applyEdge ⟨action, .press, none⟩) into
  (held.axisValues.foldl (fun a e => a.applyEdge ⟨e.1, .hold, some e.2⟩) pressed).advanceTick

structure InputRing where
  entries : List RingEntry
  heldAtHorizon : ActionStates
  horizonTick : ℤ
  droppedToOverflow : ℕ
deriving DecidableEq

namespace InputRing

def new : InputRing := ⟨[], createActionStates, -1, 0⟩

variable (ring : InputRing)

/-- Boundary first: the edges of the frame folded before are one tick wide. -/
def fold (entry : RingEntry) : InputRing :=
  { ring with
    heldAtHorizon := ring.heldAtHorizon.foldEdges entry.frame.actions
    horizonTick := entry.frame.tick }

/-- A full ring folds its oldest entry. -/
def push (entry : RingEntry) : InputRing :=
  match ring.entries with
  | head :: rest =>
    if ringTicks ≤ ring.entries.length then
      let folded := ({ ring with entries := rest } : InputRing).fold head
      { folded with entries := rest ++ [entry], droppedToOverflow := ring.droppedToOverflow + 1 }
    else { ring with entries := ring.entries ++ [entry] }
  | [] => { ring with entries := [entry] }

/-- Drops everything at or below `seq` into the horizon, and answers with the first it dropped. -/
def ack (seq : ℤ) : Option RingEntry × InputRing :=
  let acked := ring.entries.takeWhile (fun e => e.frame.seq ≤ seq)
  (acked.head?, acked.foldl fold { ring with entries := ring.entries.dropWhile (fun e => e.frame.seq ≤ seq) })

/-- Every retained frame, oldest first. -/
def frames : List InputFrame := ring.entries.map RingEntry.frame

/-- Rebuilds the horizon after a clock epoch change, from what is held now. -/
def reset (live : ActionStates) : InputRing :=
  { ring with entries := [], horizonTick := -1, heldAtHorizon := assertHeld live createActionStates }

end InputRing

/-! ### What leaves the ring -/

/-- Frames folded one after the other. -/
def foldFrames (a : ActionStates) (frames : List InputFrame) : ActionStates :=
  frames.foldl (fun a frame => a.foldEdges frame.actions) a

theorem foldFrames_append (a : ActionStates) (frames frames' : List InputFrame) :
    foldFrames a (frames ++ frames') = foldFrames (foldFrames a frames) frames' := List.foldl_append

theorem SameHeld.foldFrames : ∀ (frames : List InputFrame) {a b : ActionStates}, ActionStates.SameHeld a b →
    ActionStates.SameHeld (foldFrames a frames) (foldFrames b frames)
  | [], _, _, h => h
  | frame :: frames, _, _, h => SameHeld.foldFrames frames (h.foldEdges frame.actions)

/-- No action is held at a neutral axis. -/
def ActionStates.Plain (a : ActionStates) : Prop := ∀ action ∈ a.held, a.axis action ≠ 0

instance (a : ActionStates) : Decidable a.Plain := inferInstanceAs (Decidable (∀ action ∈ a.held, a.axis action ≠ 0))

section assertHeld
open ActionStates

theorem held_presses (action : String) : ∀ (held : List String) (a : ActionStates),
    (action ∈ (held.foldl (fun a action => a.applyEdge ⟨action, .press, none⟩) a).held ↔ action ∈ held ∨ action ∈ a.held) ∧
      (held.foldl (fun a action => a.applyEdge ⟨action, .press, none⟩) a).axis action =
        if action ∈ held then 1 else a.axis action
  | [], a => by simp
  | name :: held, a => by
    obtain ⟨hheld, haxis⟩ := held_presses action held (a.applyEdge ⟨name, .press, none⟩)
    rw [List.foldl_cons, hheld, haxis, mem_held_applyEdge, axis_applyEdge]
    simp only [List.mem_cons]
    refine ⟨by tauto, ?_⟩
    by_cases hname : action = name
    · simp [hname]
    · simp [hname]

theorem held_holds (action : String) : ∀ (values : List (String × ℚ)) (a : ActionStates),
    (action ∈ (values.foldl (fun a e => a.applyEdge ⟨e.1, .hold, some e.2⟩) a).held ↔ action ∈ a.held) ∧
      ((values.map Prod.fst).Nodup → (values.foldl (fun a e => a.applyEdge ⟨e.1, .hold, some e.2⟩) a).axis action =
        (OrderedMap.lookup action values).getD (a.axis action))
  | [], a => by simp
  | (name, v) :: values, a => by
    obtain ⟨hheld, haxis⟩ := held_holds action values (a.applyEdge ⟨name, .hold, some v⟩)
    rw [List.foldl_cons]
    refine ⟨by rw [hheld, mem_held_applyEdge], fun hnodup => ?_⟩
    rw [List.map_cons, List.nodup_cons] at hnodup
    rw [haxis hnodup.2, axis_applyEdge]
    by_cases hname : action = name
    · subst hname
      have hnone : OrderedMap.lookup action values = none := by
        cases hl : OrderedMap.lookup action values with
        | none => rfl
        | some w => exact absurd (List.mem_map.mpr ⟨_, OrderedMap.mem_of_lookup hl, rfl⟩) hnodup.1
      simp [hnone]
    · have hname' : ¬ name = action := fun h => hname h.symm
      simp [hname, hname']

theorem lookup_axisValues (a : ActionStates) (action : String) (d : ℚ) :
    (OrderedMap.lookup action a.axisValues).getD d = if a.axis action = 0 then d else a.axis action := by
  have h : OrderedMap.lookup action a.axisValues = (a.axes.get action).filter (fun v => v ≠ 0) :=
    a.axes.get_filter (fun _ v => v ≠ 0) action
  rw [h]
  unfold axis
  cases a.axes.get action with
  | none => rfl
  | some v =>
    by_cases hv : v = 0
    · rw [Option.filter_some_neg (by simpa using hv)]
      exact (if_pos hv).symm
    · rw [Option.filter_some_pos (by simpa using hv)]
      exact (if_neg hv).symm

theorem mem_held_assertHeld (a : ActionStates) (action : String) :
    action ∈ (assertHeld a createActionStates).held ↔ action ∈ a.held := by
  show action ∈ (a.axisValues.foldl (fun (a : ActionStates) e => a.applyEdge ⟨e.1, .hold, some e.2⟩) _).held ↔ _
  rw [(held_holds action _ _).1, heldActions, (held_presses action _ _).1]
  simp [createActionStates]

/-- The press of a held action writes its axis, and a neutral axis is not written over. -/
theorem axis_assertHeld (a : ActionStates) (action : String) : (assertHeld a createActionStates).axis action =
    if a.axis action = 0 then (if action ∈ a.held then 1 else 0) else a.axis action := by
  have hnodup : (a.axisValues.map Prod.fst).Nodup := a.axes.nodup.sublist (List.Sublist.map _ List.filter_sublist)
  show (a.axisValues.foldl (fun (a : ActionStates) e => a.applyEdge ⟨e.1, .hold, some e.2⟩) _).axis action = _
  rw [(held_holds action _ _).2 hnodup, lookup_axisValues, heldActions, (held_presses action _ _).2]
  rfl

/-- Where no action is held at a neutral axis, nothing is lost or gained on the way. -/
theorem sameHeld_assertHeld {a : ActionStates} (h : a.Plain) : SameHeld (assertHeld a createActionStates) a where
  held := mem_held_assertHeld a
  axis := by
    intro action
    rw [axis_assertHeld]
    split_ifs with haxis hheld
    · exact absurd haxis (h action hheld)
    · exact haxis.symm
    · rfl

/-- What the reset of the ring and the seeding of a replay ask of `assertHeld`. -/
structure Reasserted (held into : ActionStates) : Prop where
  sameHeld : SameHeld into held
  pressed : into.pressed = []
  released : into.released = []

/-- An action held at a neutral axis comes back at the axis of a bare press. -/
theorem reasserted_iff (a : ActionStates) : Reasserted a (assertHeld a createActionStates) ↔ a.Plain := by
  constructor
  · intro h action hheld haxis
    have hsame := h.sameHeld.axis action
    rw [axis_assertHeld, if_pos haxis, if_pos hheld, haxis] at hsame
    exact one_ne_zero hsame
  · exact fun h => ⟨sameHeld_assertHeld h, rfl, rfl⟩

/-- What happens to the fold: an edge, or the end of a tick. -/
inductive InputStep where
  | edge (input : InputAction)
  | advanceTick

def InputStep.apply (a : ActionStates) : InputStep → ActionStates
  | .edge input => a.applyEdge input
  | .advanceTick => a.advanceTick

/-- Over every run of the fold, its end is given back when and only when no action is then held at a neutral axis. -/
theorem reasserted_run_iff (steps : List InputStep) :
    Reasserted (steps.foldl InputStep.apply createActionStates)
      (assertHeld (steps.foldl InputStep.apply createActionStates) createActionStates) ↔
        (steps.foldl InputStep.apply createActionStates).Plain := reasserted_iff _

/-- A stick that returns to the middle while the key of the same action is down. -/
def stickReturned : List InputStep := [.edge ⟨"jump", .press, none⟩, .edge ⟨"jump", .hold, some 0⟩]

theorem stickReturned_not_reasserted : ¬ Reasserted (stickReturned.foldl InputStep.apply createActionStates)
    (assertHeld (stickReturned.foldl InputStep.apply createActionStates) createActionStates) := by
  intro h
  have haxis : (stickReturned.foldl InputStep.apply createActionStates).axis "jump" = 0 ∧
      (assertHeld (stickReturned.foldl InputStep.apply createActionStates) createActionStates).axis "jump" = 1 := by
    decide +kernel
  rw [← h.sameHeld.axis "jump", haxis.2] at haxis
  exact one_ne_zero haxis.1

end assertHeld

end Grove
