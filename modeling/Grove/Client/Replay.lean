import Grove.Client.Ring
import Grove.Lib.Run

/-! # The input a prediction folds

The input half of `packages/client/src/prediction.ts`: `advance` folds, into a fold of its own, the
frames the ring retains.  A resimulating advance seeds the fold from the ring's horizon; any other
goes on from where the last one stood.  What a step does to the world never reaches the fold. -/

namespace Grove

/-- Ticks one replay may simulate before it starts at the cap instead. -/
def maxReplayTicks : ℤ := ringTicks

/-- What the fold of a prediction depends on. -/
structure Replay where
  /-- The local player, once the roster carries them. -/
  player : Option PlayerId
  ring : InputRing
  /-- The client's next sequence number. -/
  seq : ℤ
  depictedTick : ℤ
  /-- Where the predicted world stands, or `-1`. -/
  predictedTick : ℤ
  actions : ActionStates
  cappedReplays : ℕ
deriving DecidableEq

namespace Replay

def new (player : Option PlayerId) : Replay := ⟨player, InputRing.new, 0, -1, -1, createActionStates, 0⟩

variable (r : Replay)

/-- The horizon, then every frame the authority already simulated. -/
def seedActions : ActionStates :=
  (r.ring.frames.takeWhile (fun frame => frame.tick ≤ r.depictedTick)).foldl
    (fun a frame => frame.actions.foldl ActionStates.applyEdge a.advanceTick)
    (assertHeld r.ring.heldAtHorizon createActionStates)

/-- One flush can stamp two frames; both apply, in send order. -/
def frameFor (frames : List InputFrame) (tick : ℤ) : Option InputFrame :=
  match frames.filter (fun frame => frame.tick = tick) with
  | [] => none
  | first :: rest => some { first with actions := (first :: rest).flatMap InputFrame.actions }

/-- The client's input pass of one tick. -/
def runInputPass (frames : List InputFrame) (actions : ActionStates) (tick : ℤ) : ActionStates × List InputDispatch :=
  match r.player with
  | none => (actions, [])
  | some player =>
    let (actions, edges) :=
      match frameFor frames tick with
      | none => (actions.advanceTick, [])
      | some frame =>
        let (actions, _, edges) := foldInputEdges player (fun (st : Unit) _ => (true, st)) frame.actions
          actions.advanceTick ()
        (actions, edges)
    (actions, edges ++ synthesizeHolds player actions)

/-- The ticks `first..last`. -/
def ticks (first last : ℤ) : List ℤ := (List.range (last + 1 - first).toNat).map (fun (i : ℕ) => first + i)

/-- Where an advance to `localTick` starts from, having stood at `tick`. -/
def start (tick localTick : ℤ) : ℤ :=
  if maxReplayTicks ≤ localTick - (tick + 1) then localTick - maxReplayTicks + 1 else tick + 1

/-- Simulates up to `localTick`; `resimulate` seeds the fold again. -/
def advance (localTick : ℤ) (resimulate : Bool) : Replay :=
  let r := if resimulate then { r with actions := r.seedActions, predictedTick := r.depictedTick } else r
  if r.predictedTick < 0 then r
  else
    let from' := start r.predictedTick localTick
    { r with
      cappedReplays := r.cappedReplays + (if from' = r.predictedTick + 1 then 0 else 1)
      actions := (ticks from' localTick).foldl (fun a tick => (r.runInputPass r.ring.frames a tick).1) r.actions
      predictedTick := max r.predictedTick localTick }

/-- A flush: the edges of one frame, stamped with the newest tick. -/
def push (tick : ℤ) (actions : List InputAction) (lead : ℚ) (epoch : ℕ) : Replay :=
  { r with ring := r.ring.push ⟨⟨tick, r.seq, actions⟩, lead, epoch⟩, seq := r.seq + 1 }

/-- What may happen to a prediction's input. -/
inductive Op where
  | push (tick : ℤ) (actions : List InputAction) (lead : ℚ) (epoch : ℕ)
  | ack (seq : ℤ)
  | depict (tick : ℤ)
  | advance (localTick : ℤ) (resimulate : Bool)
deriving DecidableEq

def step : Op → Replay
  | .push tick actions lead epoch => r.push tick actions lead epoch
  | .ack seq => { r with ring := (r.ring.ack seq).2 }
  | .depict tick => { r with depictedTick := tick }
  | .advance localTick resimulate => r.advance localTick resimulate

/-- The client's tick never goes back. -/
def InTime : ℤ → List Op → Prop
  | _, [] => True
  | now, .push tick .. :: ops | now, .advance tick _ :: ops => now ≤ tick ∧ InTime tick ops
  | now, .ack _ :: ops | now, .depict _ :: ops => InTime now ops

instance decidableInTime : ∀ now ops, Decidable (InTime now ops)
  | _, [] => inferInstanceAs (Decidable True)
  | now, .push tick .. :: ops | now, .advance tick _ :: ops =>
    have := decidableInTime tick ops
    inferInstanceAs (Decidable (now ≤ tick ∧ InTime tick ops))
  | now, .ack _ :: ops | now, .depict _ :: ops => decidableInTime now ops

/-! ### Frames by tick -/

section ticks
variable {frames : List InputFrame}

/-- Oldest first. -/
def Sorted (frames : List InputFrame) : Prop := frames.Pairwise (fun f g => f.tick ≤ g.tick)

theorem Sorted.takeWhile_eq : ∀ {frames : List InputFrame}, Sorted frames → ∀ (tick : ℤ),
    frames.takeWhile (fun f => f.tick ≤ tick) = frames.filter (fun f => f.tick ≤ tick)
  | [], _, _ => rfl
  | f :: frames, h, tick => by
    obtain ⟨hf, hrest⟩ := List.pairwise_cons.mp h
    by_cases hle : f.tick ≤ tick
    · rw [List.takeWhile_cons_of_pos (by simpa using hle), List.filter_cons_of_pos (by simpa using hle),
        Sorted.takeWhile_eq hrest]
    · rw [List.takeWhile_cons_of_neg (by simpa using hle), List.filter_cons_of_neg (by simpa using hle), eq_comm,
        List.filter_eq_nil_iff]
      intro g hg
      have := hf g hg
      simp only [decide_eq_true_eq]
      omega

/-- The frames of one tick stand behind those of the ticks before it. -/
theorem Sorted.filter_tick : ∀ {frames : List InputFrame}, Sorted frames → ∀ (tick : ℤ),
    frames.filter (fun f => f.tick < tick + 1) =
      frames.filter (fun f => f.tick < tick) ++ frames.filter (fun f => f.tick = tick)
  | [], _, _ => rfl
  | f :: frames, h, tick => by
    obtain ⟨hf, hrest⟩ := List.pairwise_cons.mp h
    have ih := Sorted.filter_tick hrest tick
    rcases lt_trichotomy f.tick tick with hlt | heq | hgt
    · rw [List.filter_cons_of_pos (by simp only [decide_eq_true_eq]; omega),
        List.filter_cons_of_pos (by simpa using hlt),
        List.filter_cons_of_neg (p := fun f : InputFrame => decide (f.tick = tick)) (by simpa using hlt.ne), ih,
        List.cons_append]
    · have hnone : frames.filter (fun g => g.tick < tick) = [] := by
        rw [List.filter_eq_nil_iff]
        intro g hg
        have := hf g hg
        simp only [decide_eq_true_eq]
        omega
      rw [List.filter_cons_of_pos (by simp only [decide_eq_true_eq]; omega),
        List.filter_cons_of_neg (by simp only [decide_eq_true_eq]; omega), List.filter_cons_of_pos (by simpa using heq),
        ih, hnone, List.nil_append, List.nil_append]
    · rw [List.filter_cons_of_neg (by simp only [decide_eq_true_eq]; omega),
        List.filter_cons_of_neg (by simp only [decide_eq_true_eq]; omega),
        List.filter_cons_of_neg (by simp only [decide_eq_true_eq]; omega), ih]

theorem Sorted.filter_range (h : Sorted frames) (first : ℤ) : ∀ n : ℕ,
    frames.filter (fun f => f.tick < first + n) = frames.filter (fun f => f.tick < first) ++
      ((List.range n).map (fun (i : ℕ) => first + i)).flatMap (fun tick => frames.filter (fun f => f.tick = tick))
  | 0 => by simp
  | n + 1 => by
    have ih := Sorted.filter_range h first n
    have hcast : first + ((n + 1 : ℕ) : ℤ) = first + n + 1 := by push_cast; ring
    rw [hcast, h.filter_tick, ih, List.range_succ, List.map_append, List.flatMap_append, List.append_assoc]
    simp

/-- No retained frame lies between where the fold stood and where it starts. -/
def NoneSkipped (frames : List InputFrame) (stood localTick : ℤ) : Prop :=
  ∀ f ∈ frames, ¬ (stood < f.tick ∧ f.tick < start stood localTick)

instance (frames : List InputFrame) (stood localTick : ℤ) : Decidable (NoneSkipped frames stood localTick) :=
  inferInstanceAs (Decidable (∀ f ∈ frames, _))

/-- The frames an advance steps over. -/
def stepped (frames : List InputFrame) (stood localTick : ℤ) : List InputFrame :=
  (ticks (start stood localTick) localTick).flatMap (fun tick => frames.filter (fun f => f.tick = tick))

theorem start_gt (stood localTick : ℤ) : stood < start stood localTick := by
  unfold start maxReplayTicks ringTicks
  split_ifs <;> omega

theorem start_le (stood localTick : ℤ) : start stood localTick ≤ max stood localTick + 1 := by
  unfold start maxReplayTicks ringTicks
  split_ifs <;> omega

theorem filter_stepped (h : Sorted frames) {stood localTick : ℤ} (hnone : NoneSkipped frames stood localTick) :
    frames.filter (fun f => f.tick ≤ max stood localTick) =
      frames.filter (fun f => f.tick ≤ stood) ++ stepped frames stood localTick := by
  have hgt := start_gt stood localTick
  have hle := start_le stood localTick
  have hbefore : frames.filter (fun f => f.tick ≤ stood) = frames.filter (fun f => f.tick < start stood localTick) := by
    refine List.filter_congr (fun f hf => ?_)
    have := hnone f hf
    rw [decide_eq_decide]
    omega
  have hafter : frames.filter (fun f => f.tick ≤ max stood localTick) =
      frames.filter (fun f => f.tick < start stood localTick + ((localTick + 1 - start stood localTick).toNat : ℕ)) := by
    refine List.filter_congr (fun f hf => ?_)
    have := hnone f hf
    rw [decide_eq_decide]
    have hunfold : start stood localTick = stood + 1 ∨ start stood localTick ≤ localTick := by
      unfold start maxReplayTicks ringTicks
      split_ifs
      · exact Or.inr (by omega)
      · exact Or.inl rfl
    omega
  rw [hbefore, hafter, h.filter_range]
  rfl

end ticks

/-! ### A run, watched -/

/-- A prediction, with what its fold was seeded with and the frames it folded since, and whether
those are the retained ones. -/
structure Watched where
  replay : Replay
  seed : ActionStates
  log : List InputFrame
  sound : Bool

namespace Watched

def new (player : Option PlayerId) : Watched := ⟨Replay.new player, createActionStates, [], false⟩

/-- What an advance folds of the ring. -/
def foldedBy (r : Replay) (stood localTick : ℤ) : List InputFrame :=
  if stood < 0 ∨ r.player = none then [] else stepped r.ring.frames stood localTick

/-- Whether the fold agrees with the ring after the operation, given whether it did before. -/
def carries (r : Replay) (sound : Bool) : Op → Bool
  -- A frame stamped with a tick already stepped is not folded; nor is one that leaves the ring first.
  | .push tick .. => sound && decide (r.predictedTick < tick) &&
      (r.ring.entries.length < ringTicks || (r.ring.frames.take 1).all (fun f => f.tick ≤ r.predictedTick))
  | .ack seq => sound && (r.ring.frames.takeWhile (fun f => f.seq ≤ seq)).all (fun f => f.tick ≤ r.predictedTick)
  | .depict _ => sound
  | .advance localTick false => sound && decide (NoneSkipped r.ring.frames r.predictedTick localTick)
  | .advance localTick true => decide (0 ≤ r.depictedTick) && r.player.isSome && decide r.ring.heldAtHorizon.Plain &&
      decide (NoneSkipped r.ring.frames r.depictedTick localTick)

def step (w : Watched) (op : Op) : Watched where
  replay := w.replay.step op
  seed :=
    match op with
    | .advance _ true => assertHeld w.replay.ring.heldAtHorizon createActionStates
    | _ => w.seed
  log :=
    match op with
    | .advance localTick true =>
      w.replay.ring.frames.takeWhile (fun f => f.tick ≤ w.replay.depictedTick) ++
        foldedBy w.replay w.replay.depictedTick localTick
    | .advance localTick false => w.log ++ foldedBy w.replay w.replay.predictedTick localTick
    | _ => w.log
  sound := carries w.replay w.sound op

end Watched

/-! ### What a tick folds -/

section fold
open ActionStates

/-- Merged frames fold as the frames one after the other. -/
theorem foldl_flatMap_sameHeld : ∀ (frames : List InputFrame) {a b : ActionStates}, SameHeld a b →
    SameHeld ((frames.flatMap InputFrame.actions).foldl applyEdge a) (foldFrames b frames)
  | [], _, _, h => h
  | frame :: frames, a, b, h => by
    rw [List.flatMap_cons, List.foldl_append]
    refine foldl_flatMap_sameHeld frames ?_
    exact SameHeld.foldl _ (h.trans (sameHeld_advanceTick b).symm)

theorem runInputPass_sameHeld {r : Replay} (hplayer : r.player ≠ none) (frames : List InputFrame)
    {a b : ActionStates} (h : SameHeld a b) (tick : ℤ) :
    SameHeld (r.runInputPass frames a tick).1 (foldFrames b (frames.filter (fun f => f.tick = tick))) := by
  have hadvance : SameHeld a.advanceTick b := (sameHeld_advanceTick a).trans h
  unfold runInputPass
  rcases hp : r.player with _ | player
  · exact absurd hp hplayer
  · simp only
    unfold frameFor
    rcases hf : frames.filter (fun frame => frame.tick = tick) with _ | ⟨first, rest⟩
    · rw [hf]
      exact hadvance
    · rw [hf]
      simp only [foldInputEdges_all]
      exact foldl_flatMap_sameHeld (first :: rest) hadvance

theorem runTicks_sameHeld {r : Replay} (hplayer : r.player ≠ none) (frames : List InputFrame) :
    ∀ (ticks : List ℤ) {a b : ActionStates}, SameHeld a b →
      SameHeld (ticks.foldl (fun a tick => (r.runInputPass frames a tick).1) a)
        (foldFrames b (ticks.flatMap (fun tick => frames.filter (fun f => f.tick = tick))))
  | [], _, _, h => h
  | tick :: ticks, a, b, h => by
    rw [List.flatMap_cons, foldFrames_append]
    exact runTicks_sameHeld hplayer frames ticks (runInputPass_sameHeld hplayer frames h tick)

theorem runTicks_noPlayer {r : Replay} (hplayer : r.player = none) (frames : List InputFrame) (a : ActionStates) :
    ∀ (ticks : List ℤ), ticks.foldl (fun a tick => (r.runInputPass frames a tick).1) a = a
  | [] => rfl
  | tick :: ticks => by
    have htick : (r.runInputPass frames a tick).1 = a := by
      unfold runInputPass
      rw [hplayer]
    rw [List.foldl_cons, htick]
    exact runTicks_noPlayer hplayer frames a ticks

end fold

/-! ### The invariant of a run -/

open ActionStates

/-- What holds of a watched prediction at tick `now`. -/
structure Watched.Ok (w : Watched) (now : ℤ) : Prop where
  sorted : Sorted w.replay.ring.frames
  seqs : w.replay.ring.frames.Pairwise (fun f g => f.seq < g.seq)
  issued : ∀ f ∈ w.replay.ring.frames, f.seq < w.replay.seq
  stamped : ∀ f ∈ w.replay.ring.frames, f.tick ≤ now
  folds : SameHeld w.replay.actions (foldFrames w.seed w.log)
  once : w.log.Nodup
  past : ∀ f ∈ w.log, f.tick ≤ w.replay.predictedTick
  /-- The log is what has left the ring since the seed, then the retained frames up to where the fold stands. -/
  kept : w.sound = true → 0 ≤ w.replay.predictedTick ∧ w.replay.player ≠ none ∧
    ∃ gone, w.log = gone ++ w.replay.ring.frames.filter (fun f => f.tick ≤ w.replay.predictedTick) ∧
      SameHeld w.replay.ring.heldAtHorizon (foldFrames w.seed gone)

theorem frames_push (ring : InputRing) (e : RingEntry) :
    (ring.entries.length < ringTicks ∧ (ring.push e).frames = ring.frames ++ [e.frame] ∧
        (ring.push e).heldAtHorizon = ring.heldAtHorizon) ∨
      ∃ f rest, ¬ ring.entries.length < ringTicks ∧ ring.frames = f :: rest ∧ (ring.push e).frames = rest ++ [e.frame] ∧
        (ring.push e).heldAtHorizon = foldFrames ring.heldAtHorizon [f] := by
  unfold InputRing.push InputRing.frames
  rcases hentries : ring.entries with _ | ⟨head, rest⟩
  · exact Or.inl ⟨by decide, rfl, rfl⟩
  · simp only
    split_ifs with hfull
    · refine Or.inr ⟨head.frame, rest.map RingEntry.frame, not_lt.mpr hfull, rfl, ?_, rfl⟩
      rw [List.map_append]
      rfl
    · refine Or.inl ⟨not_le.mp hfull, ?_, rfl⟩
      simp

theorem foldl_fold : ∀ (acked : List RingEntry) (ring : InputRing),
    (acked.foldl InputRing.fold ring).entries = ring.entries ∧
      (acked.foldl InputRing.fold ring).heldAtHorizon =
        foldFrames ring.heldAtHorizon (acked.map RingEntry.frame)
  | [], _ => ⟨rfl, rfl⟩
  | e :: acked, ring => foldl_fold acked (ring.fold e)

theorem frames_ack (ring : InputRing) (seq : ℤ) : (ring.ack seq).2.frames = ring.frames.dropWhile (fun f => f.seq ≤ seq) ∧
    (ring.ack seq).2.heldAtHorizon = foldFrames ring.heldAtHorizon (ring.frames.takeWhile (fun f => f.seq ≤ seq)) := by
  obtain ⟨hentries, hheld⟩ := foldl_fold (ring.entries.takeWhile (fun e => e.frame.seq ≤ seq))
    { ring with entries := ring.entries.dropWhile (fun e => e.frame.seq ≤ seq) }
  constructor
  · show ((ring.ack seq).2.entries).map RingEntry.frame = _
    have h : (ring.ack seq).2.entries = ring.entries.dropWhile (fun e => e.frame.seq ≤ seq) := hentries
    rw [h, InputRing.frames, List.dropWhile_map]
    rfl
  · have h : (ring.ack seq).2.heldAtHorizon =
        foldFrames ring.heldAtHorizon ((ring.entries.takeWhile (fun e => e.frame.seq ≤ seq)).map RingEntry.frame) := hheld
    rw [h, InputRing.frames, List.takeWhile_map]
    rfl

/-- What leaves the ring behind the fold was folded already. -/
theorem kept_prefix {gone removed rest log : List InputFrame} {stood : ℤ} {seed horizon horizon' : ActionStates}
    (hlog : log = gone ++ (removed ++ rest).filter (fun f => f.tick ≤ stood))
    (hhorizon : SameHeld horizon (foldFrames seed gone)) (hremoved : ∀ f ∈ removed, f.tick ≤ stood)
    (hhorizon' : horizon' = foldFrames horizon removed) :
    ∃ gone', log = gone' ++ rest.filter (fun f => f.tick ≤ stood) ∧ SameHeld horizon' (foldFrames seed gone') := by
  refine ⟨gone ++ removed, ?_, ?_⟩
  · rw [hlog, List.filter_append, List.filter_eq_self.mpr (fun f hf => by simpa using hremoved f hf), List.append_assoc]
  · rw [hhorizon', foldFrames_append]
    exact SameHeld.foldFrames removed hhorizon

theorem Watched.Ok.push {w : Watched} {now : ℤ} (h : w.Ok now) {tick : ℤ} (hnow : now ≤ tick)
    (actions : List InputAction) (lead : ℚ) (epoch : ℕ) : (w.step (.push tick actions lead epoch)).Ok tick := by
  have hstamped : ∀ f ∈ w.replay.ring.frames, f.tick ≤ tick := fun f hf => (h.stamped f hf).trans hnow
  have hpush := frames_push w.replay.ring ⟨⟨tick, w.replay.seq, actions⟩, lead, epoch⟩
  -- The frames afterwards: some at the front are gone, and the new one is at the end.
  obtain ⟨removed, rest, hframes, hframes', hheld, hfull⟩ : ∃ removed rest, w.replay.ring.frames = removed ++ rest ∧
      (w.step (.push tick actions lead epoch)).replay.ring.frames = rest ++ [⟨tick, w.replay.seq, actions⟩] ∧
      (w.step (.push tick actions lead epoch)).replay.ring.heldAtHorizon =
        foldFrames w.replay.ring.heldAtHorizon removed ∧
      ((w.step (.push tick actions lead epoch)).sound = true → ∀ f ∈ removed, f.tick ≤ w.replay.predictedTick) := by
    rcases hpush with ⟨-, hframes, hheld⟩ | ⟨f, rest, hfull, hentries, hframes, hheld⟩
    · exact ⟨[], _, rfl, hframes, hheld, fun _ f hf => by cases hf⟩
    · refine ⟨[f], rest, hentries, hframes, hheld, fun hsound g hg => ?_⟩
      rw [List.mem_singleton.mp hg]
      have hsound : carries w.replay w.sound (.push tick actions lead epoch) = true := hsound
      unfold carries at hsound
      rw [hentries] at hsound
      simp only [Bool.and_eq_true, Bool.or_eq_true, decide_eq_true_eq] at hsound
      rcases hsound.2 with hlt | hall
      · exact absurd hlt hfull
      · simpa using hall
  have hsub : rest.Sublist w.replay.ring.frames := hframes ▸ List.sublist_append_right removed rest
  have hreplay : (w.step (.push tick actions lead epoch)).replay.predictedTick = w.replay.predictedTick := rfl
  constructor
  · unfold Sorted
    rw [hframes', List.pairwise_append]
    refine ⟨h.sorted.sublist hsub, List.pairwise_singleton _ _, fun f hf g hg => ?_⟩
    rw [List.mem_singleton.mp hg]
    exact hstamped f (hsub.subset hf)
  · rw [hframes', List.pairwise_append]
    refine ⟨h.seqs.sublist hsub, List.pairwise_singleton _ _, fun f hf g hg => ?_⟩
    rw [List.mem_singleton.mp hg]
    exact h.issued f (hsub.subset hf)
  · rw [hframes']
    intro f hf
    show f.seq < w.replay.seq + 1
    rcases List.mem_append.mp hf with hf | hf
    · have := h.issued f (hsub.subset hf)
      omega
    · rw [List.mem_singleton.mp hf]
      exact lt_add_one _
  · rw [hframes']
    intro f hf
    rcases List.mem_append.mp hf with hf | hf
    · exact hstamped f (hsub.subset hf)
    · rw [List.mem_singleton.mp hf]
  · exact h.folds
  · exact h.once
  · exact h.past
  · intro hsound
    have hcarries : carries w.replay w.sound (.push tick actions lead epoch) = true := hsound
    unfold carries at hcarries
    simp only [Bool.and_eq_true, decide_eq_true_eq] at hcarries
    obtain ⟨hpos, hplayer, gone, hlog, hhorizon⟩ := h.kept hcarries.1.1
    refine ⟨hpos, hplayer, ?_⟩
    rw [hframes] at hlog
    obtain ⟨gone', hlog', hhorizon'⟩ := kept_prefix hlog hhorizon (hfull hsound) hheld
    refine ⟨gone', ?_, hhorizon'⟩
    rw [hframes', hreplay, List.filter_append, List.filter_cons_of_neg (by simpa using hcarries.1.2), List.filter_nil,
      List.append_nil]
    exact hlog'

theorem Watched.Ok.ack {w : Watched} {now : ℤ} (h : w.Ok now) (seq : ℤ) : (w.step (.ack seq)).Ok now := by
  obtain ⟨hframes, hheld⟩ := frames_ack w.replay.ring seq
  have hsub : (w.replay.ring.frames.dropWhile (fun f => f.seq ≤ seq)).Sublist w.replay.ring.frames :=
    List.dropWhile_sublist _
  have hframes' : (w.step (.ack seq)).replay.ring.frames = w.replay.ring.frames.dropWhile (fun f => f.seq ≤ seq) := hframes
  constructor
  · unfold Sorted
    rw [hframes']
    exact h.sorted.sublist hsub
  · rw [hframes']
    exact h.seqs.sublist hsub
  · rw [hframes']
    exact fun f hf => h.issued f (hsub.subset hf)
  · rw [hframes']
    exact fun f hf => h.stamped f (hsub.subset hf)
  · exact h.folds
  · exact h.once
  · exact h.past
  · intro hsound
    have hcarries : carries w.replay w.sound (.ack seq) = true := hsound
    unfold carries at hcarries
    rw [Bool.and_eq_true, List.all_eq_true] at hcarries
    obtain ⟨hpos, hplayer, gone, hlog, hhorizon⟩ := h.kept hcarries.1
    refine ⟨hpos, hplayer, ?_⟩
    rw [hframes']
    rw [← List.takeWhile_append_dropWhile (p := fun f : InputFrame => decide (f.seq ≤ seq))
      (l := w.replay.ring.frames)] at hlog
    exact kept_prefix hlog hhorizon (fun f hf => of_decide_eq_true (hcarries.2 f hf)) hheld

/-- What an advance folds, as the frames it steps over. -/
theorem advance_sameHeld {r : Replay} {stood localTick : ℤ} {a b : ActionStates} (hpos : 0 ≤ stood) (h : SameHeld a b) :
    SameHeld ((ticks (start stood localTick) localTick).foldl
        (fun a tick => (r.runInputPass r.ring.frames a tick).1) a)
      (foldFrames b (Watched.foldedBy r stood localTick)) := by
  unfold Watched.foldedBy
  by_cases hplayer : r.player = none
  · rw [if_pos (Or.inr hplayer), runTicks_noPlayer hplayer]
    exact h
  · rw [if_neg (by rintro (hlt | hnone); exacts [absurd hlt (not_lt.mpr hpos), hplayer hnone])]
    exact runTicks_sameHeld hplayer _ _ h

theorem mem_foldedBy {r : Replay} {stood localTick : ℤ} {f : InputFrame} (h : f ∈ Watched.foldedBy r stood localTick) :
    f ∈ r.ring.frames ∧ stood < f.tick ∧ f.tick ≤ localTick := by
  unfold Watched.foldedBy at h
  split_ifs at h with hnone
  · cases h
  · obtain ⟨tick, htick, hf⟩ := List.mem_flatMap.mp h
    obtain ⟨hmem, heq⟩ := List.mem_filter.mp hf
    obtain ⟨i, hi, rfl⟩ := List.mem_map.mp htick
    have hgt := start_gt stood localTick
    rw [List.mem_range] at hi
    simp only [decide_eq_true_eq] at heq
    exact ⟨hmem, by omega, by omega⟩

theorem nodup_foldedBy {r : Replay} (hnodup : r.ring.frames.Nodup) (stood localTick : ℤ) :
    (Watched.foldedBy r stood localTick).Nodup := by
  unfold Watched.foldedBy
  split_ifs
  · exact List.nodup_nil
  · unfold stepped ticks
    rw [List.nodup_flatMap]
    refine ⟨fun _ _ => hnodup.filter _, ?_⟩
    rw [List.pairwise_map]
    refine List.nodup_range.imp (fun hne f hf g => ?_)
    have hf' := (List.mem_filter.mp hf).2
    simp only [List.mem_filter, decide_eq_true_eq] at hf' g
    omega

theorem nodup_frames {frames : List InputFrame} (h : frames.Pairwise (fun f g => f.seq < g.seq)) : frames.Nodup :=
  h.imp (fun hlt heq => absurd hlt (by rw [heq]; exact lt_irrefl _))

/-- One advance of a fold that stands at `stood`, with what it has folded. -/
theorem advance_log {w : Watched} {now stood localTick : ℤ} {log : List InputFrame} (h : w.Ok now)
    (honce : log.Nodup) (hpast : ∀ f ∈ log, f.tick ≤ stood) :
    (log ++ Watched.foldedBy w.replay stood localTick).Nodup ∧
      ∀ f ∈ log ++ Watched.foldedBy w.replay stood localTick, f.tick ≤ max stood localTick := by
  constructor
  · rw [List.nodup_append]
    refine ⟨honce, nodup_foldedBy (nodup_frames h.seqs) _ _, ?_⟩
    rintro f hf g hg rfl
    have := hpast f hf
    have := (mem_foldedBy hg).2.1
    omega
  · intro f hf
    rcases List.mem_append.mp hf with hf | hf
    · exact (hpast f hf).trans (le_max_left _ _)
    · exact (mem_foldedBy hf).2.2.trans (le_max_right _ _)

theorem foldedBy_negative {r : Replay} {stood : ℤ} (h : stood < 0) (localTick : ℤ) :
    Watched.foldedBy r stood localTick = [] := if_pos (Or.inl h)

/-- An advance that goes on from where the fold stands. -/
theorem Watched.Ok.goOn {w : Watched} {now : ℤ} (h : w.Ok now) {localTick : ℤ} (hnow : now ≤ localTick) :
    (w.step (.advance localTick false)).Ok localTick := by
  have hstamped : ∀ f ∈ w.replay.ring.frames, f.tick ≤ localTick := fun f hf => (h.stamped f hf).trans hnow
  by_cases hneg : w.replay.predictedTick < 0
  · have hreplay : (w.step (.advance localTick false)).replay = w.replay := if_pos hneg
    have hlog : (w.step (.advance localTick false)).log = w.log := by
      show w.log ++ foldedBy w.replay w.replay.predictedTick localTick = w.log
      rw [foldedBy_negative hneg, List.append_nil]
    constructor
    · exact hreplay ▸ h.sorted
    · exact hreplay ▸ h.seqs
    · rw [hreplay]
      exact h.issued
    · rw [hreplay]
      exact hstamped
    · rw [hreplay, hlog]
      exact h.folds
    · exact hlog ▸ h.once
    · rw [hreplay, hlog]
      exact h.past
    · intro hsound
      have hcarries : carries w.replay w.sound (.advance localTick false) = true := hsound
      unfold carries at hcarries
      rw [Bool.and_eq_true] at hcarries
      exact absurd (h.kept hcarries.1).1 (not_le.mpr hneg)
  · have hreplay : (w.step (.advance localTick false)).replay = { w.replay with
        cappedReplays := w.replay.cappedReplays +
          (if start w.replay.predictedTick localTick = w.replay.predictedTick + 1 then 0 else 1)
        actions := (ticks (start w.replay.predictedTick localTick) localTick).foldl
          (fun a tick => (w.replay.runInputPass w.replay.ring.frames a tick).1) w.replay.actions
        predictedTick := max w.replay.predictedTick localTick } := if_neg hneg
    obtain ⟨honce, hpast⟩ := @advance_log w now _ localTick _ h h.once h.past
    constructor
    · rw [hreplay]
      exact h.sorted
    · rw [hreplay]
      exact h.seqs
    · rw [hreplay]
      exact h.issued
    · rw [hreplay]
      exact hstamped
    · rw [hreplay]
      show SameHeld _ (foldFrames w.seed (w.log ++ foldedBy w.replay w.replay.predictedTick localTick))
      rw [foldFrames_append]
      exact advance_sameHeld (not_lt.mp hneg) h.folds
    · exact honce
    · rw [hreplay]
      exact hpast
    · intro hsound
      have hcarries : carries w.replay w.sound (.advance localTick false) = true := hsound
      unfold carries at hcarries
      rw [Bool.and_eq_true, decide_eq_true_eq] at hcarries
      obtain ⟨hpos, hplayer, gone, hlog, hhorizon⟩ := h.kept hcarries.1
      rw [hreplay]
      refine ⟨hpos.trans (le_max_left _ _), hplayer, gone, ?_, hhorizon⟩
      show w.log ++ foldedBy w.replay w.replay.predictedTick localTick = _
      have hfolded : foldedBy w.replay w.replay.predictedTick localTick =
          stepped w.replay.ring.frames w.replay.predictedTick localTick :=
        if_neg (by rintro (hlt | hnone); exacts [hneg hlt, hplayer hnone])
      rw [hfolded, hlog, filter_stepped h.sorted hcarries.2, List.append_assoc]

/-- The fold seeded again: it holds the horizon and the frames up to the depicted tick. -/
def Watched.seeded (w : Watched) : Watched where
  replay := { w.replay with actions := w.replay.seedActions, predictedTick := w.replay.depictedTick }
  seed := assertHeld w.replay.ring.heldAtHorizon createActionStates
  log := w.replay.ring.frames.takeWhile (fun f => f.tick ≤ w.replay.depictedTick)
  sound := decide (0 ≤ w.replay.depictedTick) && w.replay.player.isSome && decide w.replay.ring.heldAtHorizon.Plain

theorem Watched.Ok.seeded {w : Watched} {now : ℤ} (h : w.Ok now) : w.seeded.Ok now where
  sorted := h.sorted
  seqs := h.seqs
  issued := h.issued
  stamped := h.stamped
  folds := SameHeld.refl _
  once := (nodup_frames h.seqs).sublist (List.takeWhile_sublist _)
  past := by
    unfold Watched.seeded
    rw [h.sorted.takeWhile_eq]
    exact fun f hf => of_decide_eq_true (List.mem_filter.mp hf).2
  kept := by
    intro hsound
    unfold Watched.seeded at hsound
    simp only [Bool.and_eq_true, decide_eq_true_eq] at hsound
    obtain ⟨⟨hpos, hplayer⟩, hplain⟩ := hsound
    refine ⟨hpos, Option.isSome_iff_ne_none.mp hplayer, [], ?_, (sameHeld_assertHeld hplain).symm⟩
    exact h.sorted.takeWhile_eq _

/-- A resimulating advance goes on from a fold seeded again. -/
theorem step_resimulate (w : Watched) (localTick : ℤ) :
    w.step (.advance localTick true) = w.seeded.step (.advance localTick false) := rfl

/-- The tick after the operation. -/
def Op.now (now : ℤ) : Op → ℤ
  | .push tick .. | .advance tick _ => tick
  | .ack _ | .depict _ => now

theorem inTime_cons {now : ℤ} {op : Op} {ops : List Op} (h : InTime now (op :: ops)) :
    now ≤ op.now now ∧ InTime (op.now now) ops := by
  cases op with
  | push | advance => exact h
  | ack | depict => exact ⟨le_refl _, h⟩

theorem Watched.Ok.step {w : Watched} {now : ℤ} (h : w.Ok now) {op : Op} (hnow : now ≤ op.now now) :
    (w.step op).Ok (op.now now) := by
  cases op with
  | push tick actions lead epoch => exact h.push hnow actions lead epoch
  | ack seq => exact h.ack seq
  | depict tick => exact { h with }
  | advance localTick resimulate =>
    cases resimulate with
    | false => exact h.goOn hnow
    | true =>
      rw [step_resimulate]
      exact h.seeded.goOn hnow

/-- The tick a run ends at. -/
def nowAfter : ℤ → List Op → ℤ
  | now, [] => now
  | now, op :: ops => nowAfter (op.now now) ops

theorem Watched.Ok.exec : ∀ (ops : List Op) {w : Watched} {now : ℤ}, w.Ok now → InTime now ops →
    (exec Watched.step w ops).Ok (nowAfter now ops)
  | [], _, _, h, _ => h
  | _ :: ops, _, _, h, htime => Watched.Ok.exec ops (h.step (inTime_cons htime).1) (inTime_cons htime).2

theorem Watched.ok_new (player : Option PlayerId) : (Watched.new player).Ok 0 where
  sorted := List.Pairwise.nil
  seqs := List.Pairwise.nil
  issued := fun f hf => by cases hf
  stamped := fun f hf => by cases hf
  folds := SameHeld.refl _
  once := List.nodup_nil
  past := fun f hf => by cases hf
  kept := fun h => by cases h

/-- **The replay folds what the ring retains.** -/
structure Watched.FoldsRetained (w : Watched) (localTick : ℤ) : Prop where
  /-- The fold is the horizon with the retained frames up to `localTick`. -/
  agrees : SameHeld w.replay.actions
    (foldFrames w.replay.ring.heldAtHorizon (w.replay.ring.frames.filter (fun f => f.tick ≤ localTick)))
  /-- It is its seed with the frames of the log, -/
  folds : SameHeld w.replay.actions (foldFrames w.seed w.log)
  /-- which has none twice -/
  once : w.log.Nodup
  /-- and skips none that is retained. -/
  all : ∀ f ∈ w.replay.ring.frames, f.tick ≤ localTick → f ∈ w.log

theorem nowAfter_append (ops : List Op) (localTick : ℤ) (resimulate : Bool) : ∀ now : ℤ,
    nowAfter now (ops ++ [.advance localTick resimulate]) = localTick := by
  induction ops with
  | nil => exact fun _ => rfl
  | cons op ops ih => exact fun now => ih (op.now now)

/-- A fold that stands anywhere after an advance stands at its tick. -/
theorem le_predictedTick_advance {r : Replay} {localTick : ℤ} {resimulate : Bool}
    (h : 0 ≤ (r.advance localTick resimulate).predictedTick) :
    localTick ≤ (r.advance localTick resimulate).predictedTick := by
  unfold advance at h ⊢
  simp only at h ⊢
  generalize (if resimulate = true then { r with actions := r.seedActions, predictedTick := r.depictedTick } else r) = r' at h ⊢
  by_cases hneg : r'.predictedTick < 0
  · rw [if_pos hneg] at h
    exact absurd h (not_le.mpr hneg)
  · rw [if_neg hneg]
    exact le_max_right _ _

/-- The fold of a sound advance. -/
theorem prediction_folds_retained (player : Option PlayerId) (ops : List Op) (localTick : ℤ) (resimulate : Bool)
    (htime : InTime 0 (ops ++ [.advance localTick resimulate]))
    (hsound : (exec Watched.step (Watched.new player) (ops ++ [.advance localTick resimulate])).sound = true) :
    (exec Watched.step (Watched.new player) (ops ++ [.advance localTick resimulate])).FoldsRetained localTick := by
  have hok := Watched.Ok.exec (ops ++ [.advance localTick resimulate]) (Watched.ok_new player) htime
  rw [nowAfter_append] at hok
  have hlast : (exec Watched.step (Watched.new player) (ops ++ [.advance localTick resimulate])).replay =
      (exec Watched.step (Watched.new player) ops).replay.advance localTick resimulate := by
    rw [exec_append]
    rfl
  obtain ⟨hpos, -, gone, hlog, hhorizon⟩ := hok.kept hsound
  generalize exec Watched.step (Watched.new player) (ops ++ [.advance localTick resimulate]) = w at *
  have hle : localTick ≤ w.replay.predictedTick := by
    rw [hlast] at hpos ⊢
    exact le_predictedTick_advance hpos
  have hall : w.log = gone ++ w.replay.ring.frames.filter (fun f => f.tick ≤ localTick) := by
    rw [hlog]
    congr 1
    refine List.filter_congr (fun f hf => ?_)
    have := hok.stamped f hf
    rw [decide_eq_decide]
    omega
  refine ⟨?_, hok.folds, hok.once, ?_⟩
  · have hfolds := hok.folds
    rw [hall, foldFrames_append] at hfolds
    exact hfolds.trans (SameHeld.foldFrames _ hhorizon.symm)
  · intro f hf hle
    rw [hall]
    exact List.mem_append_right _ (List.mem_filter.mpr ⟨hf, by simpa using hle⟩)

/-- A key pressed and released around an ack, over two replays. -/
def pressAndRelease : List Op :=
  [.depict 0, .push 1 [⟨"jump", .press, none⟩] 0 0, .advance 1 true, .push 2 [⟨"left", .press, none⟩] 0 0,
    .push 3 [⟨"jump", .release, none⟩] 0 0, .advance 3 false, .ack 1, .depict 2]

theorem prediction_folds_retained_pressAndRelease :
    (exec Watched.step (Watched.new (some "conn-1")) (pressAndRelease ++ [.advance 4 true])).replay.actions.held = ["left"] ∧
      (exec Watched.step (Watched.new (some "conn-1")) (pressAndRelease ++ [.advance 4 true])).FoldsRetained 4 :=
  ⟨by decide,
    prediction_folds_retained (some "conn-1") pressAndRelease 4 true (by decide) (by decide)⟩

/-- The run keeps to the client's tick, and its last advance leaves another fold than the ring's. -/
def Disagrees (ops : List Op) (localTick : ℤ) (resimulate : Bool) : Prop :=
  let w := exec Watched.step (Watched.new (some "conn-1")) (ops ++ [.advance localTick resimulate])
  InTime 0 (ops ++ [.advance localTick resimulate]) ∧ ¬ SameHeld w.replay.actions
    (foldFrames w.replay.ring.heldAtHorizon (w.replay.ring.frames.filter (fun f => f.tick ≤ localTick)))

/-- A press whose tick the cap jumps over. -/
def awayPress : List Op := [.depict 0, .push 1 [⟨"jump", .press, none⟩] 0 0]

/-- A press stamped with the tick just stepped. -/
def latePress : List Op := [.depict 0, .advance 5 true, .push 5 [⟨"jump", .press, none⟩] 0 0]

/-- A press acked before its tick is stepped. -/
def earlyAck : List Op := [.depict 0, .advance 1 true, .push 2 [⟨"jump", .press, none⟩] 0 0, .ack 0]

/-- An action held at a neutral axis when it leaves the ring. -/
def neutralHold : List Op := [.depict 2, .push 0 [⟨"jump", .press, none⟩, ⟨"jump", .hold, some 0⟩] 0 0, .ack 0]

theorem prediction_disagrees : Disagrees awayPress 60 true ∧ Disagrees latePress 6 false ∧ Disagrees earlyAck 2 false ∧
    Disagrees neutralHold 2 true := by
  refine ⟨⟨by decide, fun h => ?_⟩, ⟨by decide, fun h => ?_⟩, ⟨by decide, fun h => ?_⟩,
    ⟨by decide, fun h => ?_⟩⟩
  · exact absurd ((h.held "jump").mpr (by decide)) (by decide)
  · exact absurd ((h.held "jump").mpr (by decide)) (by decide)
  · exact absurd ((h.held "jump").mpr (by decide)) (by decide)
  · exact absurd (h.axis "jump") (by decide)

end Replay
end Grove
