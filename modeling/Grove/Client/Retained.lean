import Grove.Client.Replay
import Grove.Core.Numbers

/-! # What the input ring retains

A run of the input ring beside the log it stands for: the state that the last reset established, and every frame
pushed since (`RingLog`).  A frame leaves the ring by an ack or by overflow, and either way its edges go into the
horizon, so the horizon and the frames retained always fold to what the log folds to (`Retains`). -/

namespace Grove

/-- After a reset without live state everything is neutral. -/
def InputRing.rebuild (ring : InputRing) : Option ActionStates → InputRing
  | none => { ring with entries := [], horizonTick := -1, heldAtHorizon := createActionStates }
  | some live => ring.reset live

/-- A frame is covered by an ack; the number acked may be any. -/
def RingEntry.covered (upTo : JsNumber) (e : RingEntry) : Bool := (JsNumber.finite e.frame.seq).atMost upTo

/-- `ack`, of any number. -/
def InputRing.ackNumber (ring : InputRing) (upTo : JsNumber) : Option RingEntry × InputRing :=
  let acked := ring.entries.takeWhile (RingEntry.covered upTo)
  (acked.head?, acked.foldl InputRing.fold { ring with entries := ring.entries.dropWhile (RingEntry.covered upTo) })

/-- To the frames of a ring any number is a sequence number. -/
theorem exists_seq_covered (entries : List RingEntry) (upTo : JsNumber) :
    ∃ seq : ℤ, ∀ e ∈ entries, RingEntry.covered upTo e = decide (e.frame.seq ≤ seq) := by
  obtain ⟨low, hlow⟩ : ∃ low, ∀ e ∈ entries, low < e.frame.seq := by
    obtain ⟨low, hlow⟩ := (entries.map (fun e => e.frame.seq)).toFinset.bddBelow
    refine ⟨low - 1, fun e he => ?_⟩
    have := hlow (by simpa using ⟨e, he, rfl⟩)
    omega
  obtain ⟨high, hhigh⟩ : ∃ high, ∀ e ∈ entries, e.frame.seq ≤ high := by
    obtain ⟨high, hhigh⟩ := (entries.map (fun e => e.frame.seq)).toFinset.bddAbove
    exact ⟨high, fun e he => hhigh (by simpa using ⟨e, he, rfl⟩)⟩
  cases upTo with
  | finite q =>
    refine ⟨⌊q⌋, fun e _ => ?_⟩
    have hle : (e.frame.seq : ℚ) ≤ q ↔ e.frame.seq ≤ ⌊q⌋ := Int.le_floor.symm
    show (!decide (q < (e.frame.seq : ℚ))) = _
    rw [← decide_not]
    exact decide_eq_decide.mpr (not_lt.trans hle)
  | posInfinity => exact ⟨high, fun e he => (decide_eq_true (hhigh e he)).symm⟩
  | nan | negInfinity => exact ⟨low, fun e he => (decide_eq_false (not_le_of_gt (hlow e he))).symm⟩

theorem while_congr {p q : RingEntry → Bool} : ∀ {entries : List RingEntry}, (∀ e ∈ entries, p e = q e) →
    entries.takeWhile p = entries.takeWhile q ∧ entries.dropWhile p = entries.dropWhile q
  | [], _ => ⟨rfl, rfl⟩
  | e :: entries, h => by
    obtain ⟨htake, hdrop⟩ := while_congr fun e he => h e (List.mem_cons_of_mem _ he)
    rw [List.takeWhile_cons, List.takeWhile_cons, List.dropWhile_cons, List.dropWhile_cons,
      h e List.mem_cons_self, htake, hdrop]
    exact ⟨rfl, rfl⟩

theorem ackNumber_eq {ring : InputRing} {upTo : JsNumber} {seq : ℤ}
    (h : ∀ e ∈ ring.entries, RingEntry.covered upTo e = decide (e.frame.seq ≤ seq)) :
    ring.ackNumber upTo = ring.ack seq := by
  obtain ⟨htake, hdrop⟩ := while_congr h
  rw [InputRing.ackNumber, InputRing.ack, htake, hdrop]

inductive RingEvent where
  | push (entry : RingEntry)
  | ack (upTo : JsNumber)
  | reset (live : Option ActionStates)

/-- The ring, the state its last reset established, and the frames pushed since. -/
structure RingLog where
  ring : InputRing
  base : ActionStates
  pushed : List InputFrame

namespace RingLog

def new : RingLog := ⟨InputRing.new, createActionStates, []⟩

def step (s : RingLog) : RingEvent → RingLog
  | .push entry => { s with ring := s.ring.push entry, pushed := s.pushed ++ [entry.frame] }
  | .ack upTo => { s with ring := (s.ring.ackNumber upTo).2 }
  | .reset live => ⟨s.ring.rebuild live, (s.ring.rebuild live).heldAtHorizon, []⟩

/-- Frames are pushed in strictly increasing sequence. -/
def InSequence (s : RingLog) : RingEvent → Prop
  | .push entry => ∀ frame ∈ s.pushed, frame.seq < entry.frame.seq
  | .ack _ | .reset _ => True

instance (s : RingLog) : ∀ e, Decidable (s.InSequence e)
  | .push entry => inferInstanceAs (Decidable (∀ frame ∈ s.pushed, frame.seq < entry.frame.seq))
  | .ack _ | .reset _ => inferInstanceAs (Decidable True)

/-- What has left the ring since the reset is in the horizon, and the rest is retained. -/
structure Retains (s : RingLog) : Prop where
  split : ∃ gone, s.pushed = gone ++ s.ring.frames ∧ s.ring.heldAtHorizon = foldFrames s.base gone
  sequence : s.pushed.Pairwise (fun f f' => f.seq < f'.seq)
  bounded : s.ring.frames.length ≤ ringTicks

/-- A frame pushed goes behind the frames retained, the oldest of which may make room for it. -/
theorem Retains.push {s : RingLog} (h : s.Retains) {entry : RingEntry} (hseq : s.InSequence (.push entry)) :
    (s.step (.push entry)).Retains := by
  obtain ⟨gone, hpushed, hhorizon⟩ := h.split
  have hsequence : (s.pushed ++ [entry.frame]).Pairwise (fun f f' => f.seq < f'.seq) :=
    List.pairwise_append.mpr ⟨h.sequence, List.pairwise_singleton _ _, fun f hf f' hf' => by
      obtain rfl := List.mem_singleton.mp hf'
      exact hseq f hf⟩
  obtain ⟨hroom, hframes, hheld⟩ | ⟨f, rest, hfull, hold, hframes, hheld⟩ := Replay.frames_push s.ring entry
  · refine ⟨⟨gone, ?_, hheld.trans hhorizon⟩, hsequence, ?_⟩
    · show s.pushed ++ [entry.frame] = gone ++ (s.ring.push entry).frames
      rw [hframes, hpushed, List.append_assoc]
    · show (s.ring.push entry).frames.length ≤ ringTicks
      rw [hframes, List.length_append, List.length_singleton, InputRing.frames, List.length_map]
      exact hroom
  · refine ⟨⟨gone ++ [f], ?_, ?_⟩, hsequence, ?_⟩
    · show s.pushed ++ [entry.frame] = gone ++ [f] ++ (s.ring.push entry).frames
      rw [hframes, hpushed, hold]
      simp
    · show (s.ring.push entry).heldAtHorizon = foldFrames s.base (gone ++ [f])
      rw [hheld, hhorizon, ← foldFrames_append]
    · show (s.ring.push entry).frames.length ≤ ringTicks
      have hbounded := h.bounded
      rw [hold, List.length_cons] at hbounded
      rw [hframes, List.length_append, List.length_singleton]
      exact hbounded

/-- An ack moves the frames it covers from the front of the ring into the horizon. -/
theorem Retains.ack {s : RingLog} (h : s.Retains) (upTo : JsNumber) : (s.step (.ack upTo)).Retains := by
  obtain ⟨seq, hcovered⟩ := exists_seq_covered s.ring.entries upTo
  have hstep : s.step (.ack upTo) = { s with ring := (s.ring.ack seq).2 } := by
    rw [step, ackNumber_eq hcovered]
  obtain ⟨gone, hpushed, hhorizon⟩ := h.split
  obtain ⟨hframes, hheld⟩ := Replay.frames_ack s.ring seq
  rw [hstep]
  refine ⟨⟨gone ++ s.ring.frames.takeWhile (fun f => f.seq ≤ seq), ?_, ?_⟩, h.sequence, ?_⟩
  · show s.pushed = _ ++ (s.ring.ack seq).2.frames
    rw [hframes, List.append_assoc, List.takeWhile_append_dropWhile]
    exact hpushed
  · show (s.ring.ack seq).2.heldAtHorizon =
      foldFrames s.base (gone ++ s.ring.frames.takeWhile (fun f => f.seq ≤ seq))
    rw [hheld, hhorizon, ← foldFrames_append]
  · show (s.ring.ack seq).2.frames.length ≤ ringTicks
    rw [hframes]
    exact (List.dropWhile_sublist _).length_le.trans h.bounded

theorem reset_retains (s : RingLog) (live : Option ActionStates) : (s.step (.reset live)).Retains := by
  have hframes : (s.ring.rebuild live).frames = [] := by
    cases live <;> rfl
  exact ⟨⟨[], hframes.symm, rfl⟩, List.Pairwise.nil, by show (s.ring.rebuild live).frames.length ≤ _; simp [hframes]⟩

theorem Retains.step {s : RingLog} (h : s.Retains) (e : RingEvent) (he : s.InSequence e) : (s.step e).Retains := by
  cases e with
  | push entry => exact h.push he
  | ack upTo => exact h.ack upTo
  | reset live => exact s.reset_retains live

end RingLog
end Grove
