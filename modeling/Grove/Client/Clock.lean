import Grove.Core.Numbers
import Grove.Lib.Run

/-! # The client's clock

`packages/client/src/clock.ts` over exact numbers: time goes into one accumulator, ticks of three lengths come out of
it, and a controller moves the lead that the lengths steer towards.  What was integrated and what was stamped are
kept beside the clock (`ClockRun`), and `Kept` ties the four together. -/

namespace Grove.Client

/-- Ticks of headroom that the lead loop holds. -/
def headroomTarget : ℚ := 2

def leadMinTicks : ℚ := 1

/-- Seconds. -/
def leadMaxSeconds : ℚ := 1 / 4

/-- Seconds. -/
def maxFrameDt : ℚ := 1 / 10

def gain : ℚ := 1 / 4

/-- The fraction by which a tick may be shortened or lengthened. -/
def nudgeMax : ℚ := 1 / 50

/-- `clamp` of `packages/math`, whichever way the bounds stand. -/
def clamp (value low high : ℚ) : ℚ :=
  let lo := if low ≤ high then low else high
  let hi := if low ≤ high then high else low
  if value < lo then lo else if hi < value then hi else value

/-- The legal lead range. -/
def clampLead (seconds : JsNumber) (simRate : ℚ) : ℚ :=
  match seconds with
  | .finite q => clamp q (leadMinTicks / simRate) leadMaxSeconds
  | .nan | .posInfinity | .negInfinity => leadMinTicks / simRate

structure ClientClock where
  simRate : ℚ
  localTick : ℤ
  accumulator : ℚ
  lastNow : Option ℚ
  targetLeadSeconds : ℚ
  currentLeadSeconds : ℚ

namespace ClientClock

/-- The lead that the round trip seeds. -/
def seed (simRate : ℚ) (rttSeconds : JsNumber) : ℚ := clampLead rttSeconds simRate

def new (simRate : ℚ) (snapshotTick : ℤ) (rttSeconds : JsNumber) : ClientClock where
  simRate := simRate
  localTick := snapshotTick + ⌈seed simRate rttSeconds * simRate⌉
  accumulator := 0
  lastNow := none
  targetLeadSeconds := seed simRate rttSeconds
  currentLeadSeconds := seed simRate rttSeconds

variable (c : ClientClock)

def leadError : ℚ := c.targetLeadSeconds - c.currentLeadSeconds

def halfTick : ℚ := 1 / 2 / c.simRate

/-- A lead that is short is made up by short ticks. -/
def nudgeScale : ℚ :=
  if |c.leadError| ≤ c.halfTick then 1 else if 0 < c.leadError then 1 - nudgeMax else 1 + nudgeMax

/-- The length of the ticks of one frame. -/
def tickStep : ℚ := 1 / c.simRate * c.nudgeScale

/-- The time a frame integrates; the first has none before it. -/
def frameDt (now : ℚ) : ℚ := clamp (c.lastNow.elim 0 (now - ·)) 0 maxFrameDt

/-- The loop of `advance`: a tick for each `step` that the accumulator holds. -/
def stamp (step : ℚ) : ℕ → ClientClock → List ℤ → ClientClock × List ℤ
  | 0, c, out => (c, out)
  | fuel + 1, c, out =>
    if step ≤ c.accumulator then
      stamp step fuel
        { c with
          accumulator := c.accumulator - step
          localTick := c.localTick + 1
          currentLeadSeconds := c.currentLeadSeconds + (1 / c.simRate - step) }
        (out ++ [c.localTick + 1])
    else (c, out)

/-- One frame, and the tick indices it stamps. -/
def advance : JsNumber → ClientClock × List ℤ
  | .finite now =>
    let c' := { c with lastNow := some now, accumulator := c.accumulator + c.frameDt now }
    stamp c'.tickStep (⌊c'.accumulator / c'.tickStep⌋.toNat + 1) c' []
  | .nan | .posInfinity | .negInfinity => (c, [])

/-- Steers the target off one measurement; `1 / simRate` is the factor, where the source divides. -/
def sample (headroom leadAtSendTicks : JsNumber) : ClientClock :=
  let undelivered := JsNumber.sub .finite (.finite (c.targetLeadSeconds * c.simRate)) leadAtSendTicks
  let effectiveHeadroom := JsNumber.add .finite headroom undelivered
  let error := JsNumber.sub .finite (.finite headroomTarget) effectiveHeadroom
  let moved := JsNumber.mul .finite (JsNumber.mul .finite (.finite gain) error) (.finite (1 / c.simRate))
  { c with targetLeadSeconds := clampLead (JsNumber.add .finite (.finite c.targetLeadSeconds) moved) c.simRate }

end ClientClock

inductive ClockEvent where
  | advance (now : JsNumber)
  | sample (headroom leadAtSendTicks : JsNumber)

/-- A clock, the ticks it has stamped and the time it has integrated. -/
structure ClockRun where
  clock : ClientClock
  stamped : List ℤ
  integrated : ℚ

namespace ClockRun

def start (simRate : ℚ) (snapshotTick : ℤ) (rttSeconds : JsNumber) : ClockRun :=
  ⟨ClientClock.new simRate snapshotTick rttSeconds, [], 0⟩

def step (r : ClockRun) : ClockEvent → ClockRun
  | .advance now =>
    ⟨(r.clock.advance now).1, r.stamped ++ (r.clock.advance now).2,
      r.integrated + match now with
        | .finite now => r.clock.frameDt now
        | .nan | .posInfinity | .negInfinity => 0⟩
  | .sample headroom leadAtSendTicks => { r with clock := r.clock.sample headroom leadAtSendTicks }

end ClockRun

/-! ### One frame -/

theorem clamp_mem (value : ℚ) {low high : ℚ} (h : low ≤ high) : low ≤ clamp value low high ∧ clamp value low high ≤ high := by
  rw [clamp]
  simp only [h, if_true]
  split_ifs with hlow hhigh
  · exact ⟨le_rfl, h⟩
  · exact ⟨h, le_rfl⟩
  · exact ⟨not_lt.mp hlow, not_lt.mp hhigh⟩

theorem clampLead_mem {simRate : ℚ} (h : 4 ≤ simRate) (seconds : JsNumber) :
    1 / simRate ≤ clampLead seconds simRate ∧ clampLead seconds simRate ≤ leadMaxSeconds := by
  have hrange : leadMinTicks / simRate ≤ leadMaxSeconds := by
    rw [leadMinTicks, leadMaxSeconds]
    exact one_div_le_one_div_of_le (by norm_num) h
  cases seconds with
  | finite q => exact clamp_mem q hrange
  | nan | posInfinity | negInfinity => exact ⟨le_rfl, hrange⟩

namespace ClientClock

variable {c : ClientClock}

/-- The clock after `n` ticks of one length. -/
def stepped (c : ClientClock) (step : ℚ) (n : ℕ) : ClientClock :=
  { c with
    accumulator := c.accumulator - n * step
    localTick := c.localTick + n
    currentLeadSeconds := c.currentLeadSeconds + n * (1 / c.simRate - step) }

/-- The tick indices of a frame that takes `n`. -/
def indices (tick : ℤ) (n : ℕ) : List ℤ := (List.range n).map (fun i : ℕ => tick + 1 + (i : ℤ))

/-- The loop ends, having taken as many ticks as fit. -/
theorem stamp_eq {step : ℚ} (hstep : 0 < step) : ∀ (fuel : ℕ) (c : ClientClock) (out : List ℤ), 0 ≤ c.accumulator →
    c.accumulator < fuel * step →
    ∃ n : ℕ, stamp step fuel c out = (c.stepped step n, out ++ indices c.localTick n) ∧
      0 ≤ c.accumulator - n * step ∧ c.accumulator - n * step < step
  | 0, c, out, hacc, hfuel => by
    rw [Nat.cast_zero, zero_mul] at hfuel
    exact absurd hacc (not_le_of_gt hfuel)
  | fuel + 1, c, out, hacc, hfuel => by
    unfold stamp
    split_ifs with htake
    · rw [Nat.cast_succ] at hfuel
      obtain ⟨n, heq, hlow, hhigh⟩ := stamp_eq hstep fuel
        { c with
          accumulator := c.accumulator - step
          localTick := c.localTick + 1
          currentLeadSeconds := c.currentLeadSeconds + (1 / c.simRate - step) }
        (out ++ [c.localTick + 1]) (sub_nonneg.mpr htake) (by simp only; linarith)
      simp only at hlow hhigh
      refine ⟨n + 1, ?_, by push_cast; linarith, by push_cast; linarith⟩
      rw [heq, List.append_assoc]
      congr 1
      · simp only [stepped, mk.injEq, true_and]
        push_cast
        refine ⟨by ring, by ring, by ring⟩
      · rw [indices, indices, List.range_succ_eq_map, List.map_cons, List.map_map, List.singleton_append]
        simp only [Nat.cast_zero, add_zero]
        congr 2
        refine List.map_congr_left fun i _ => ?_
        simp only [Function.comp_apply, Nat.succ_eq_add_one]
        push_cast
        ring
    · refine ⟨0, ?_, by simpa using hacc, by simpa using htake⟩
      simp [stepped, indices]

theorem nudgeScale_mem (c : ClientClock) : 1 - nudgeMax ≤ c.nudgeScale ∧ c.nudgeScale ≤ 1 + nudgeMax := by
  rw [nudgeScale, nudgeMax]
  split_ifs <;> norm_num

/-- What a frame does: so many ticks of one length, with less than one left over. -/
theorem advance_eq (hrate : 0 < c.simRate) (hacc : 0 ≤ c.accumulator) (now : ℚ) :
    let c' := { c with lastNow := some now, accumulator := c.accumulator + c.frameDt now }
    0 ≤ c.frameDt now ∧ c.frameDt now ≤ maxFrameDt ∧ 0 < c.tickStep ∧
      ∃ n : ℕ, c.advance (.finite now) = (c'.stepped c.tickStep n, indices c.localTick n) ∧
        0 ≤ c.accumulator + c.frameDt now - n * c.tickStep ∧
        c.accumulator + c.frameDt now - n * c.tickStep < c.tickStep := by
  intro c'
  obtain ⟨hdt, hmax⟩ := clamp_mem (c.lastNow.elim 0 (now - ·)) (show (0 : ℚ) ≤ maxFrameDt by norm_num [maxFrameDt])
  have hstep : 0 < c.tickStep := by
    have hscale := (nudgeScale_mem c).1
    refine mul_pos (one_div_pos.mpr hrate) (lt_of_lt_of_le ?_ hscale)
    norm_num [nudgeMax]
  have htotal : 0 ≤ c'.accumulator := add_nonneg hacc hdt
  have hfuel : c'.accumulator < ((⌊c'.accumulator / c'.tickStep⌋.toNat + 1 : ℕ) : ℚ) * c'.tickStep := by
    have hfloor : 0 ≤ ⌊c'.accumulator / c'.tickStep⌋ := Int.floor_nonneg.mpr (div_nonneg htotal hstep.le)
    have hlt := (div_lt_iff₀ (show 0 < c'.tickStep from hstep)).mp (Int.lt_floor_add_one (c'.accumulator / c'.tickStep))
    have hcast : ((⌊c'.accumulator / c'.tickStep⌋.toNat : ℕ) : ℚ) = ⌊c'.accumulator / c'.tickStep⌋ := by
      exact_mod_cast Int.toNat_of_nonneg hfloor
    rw [Nat.cast_succ, hcast]
    exact hlt
  obtain ⟨n, heq, hlow, hhigh⟩ := stamp_eq hstep _ c' [] htotal hfuel
  exact ⟨hdt, hmax, hstep, n, heq, hlow, hhigh⟩

end ClientClock

/-! ### Every run -/

namespace ClockRun

/-- The ticks are in order without a gap, and the time they took is what was integrated less what is left over, give or
take what the nudge has made of the lead. -/
structure Kept (simRate : ℚ) (snapshotTick : ℤ) (seed : ℚ) (r : ClockRun) : Prop where
  rate : r.clock.simRate = simRate
  stamped : r.stamped = ClientClock.indices (snapshotTick + ⌈seed * simRate⌉) r.stamped.length
  tick : r.clock.localTick = snapshotTick + ⌈seed * simRate⌉ + r.stamped.length
  accounts : r.stamped.length / simRate = r.integrated - r.clock.accumulator + (r.clock.currentLeadSeconds - seed)
  target : 1 / simRate ≤ r.clock.targetLeadSeconds ∧ r.clock.targetLeadSeconds ≤ leadMaxSeconds
  accumulator : 0 ≤ r.clock.accumulator ∧ r.clock.accumulator < (1 + nudgeMax) / simRate

theorem kept_start {simRate : ℚ} (h : 4 ≤ simRate) (snapshotTick : ℤ) (rttSeconds : JsNumber) :
    Kept simRate snapshotTick (ClientClock.seed simRate rttSeconds) (start simRate snapshotTick rttSeconds) where
  rate := rfl
  stamped := rfl
  tick := by
    show snapshotTick + _ = snapshotTick + _ + ((0 : ℕ) : ℤ)
    rw [Nat.cast_zero, add_zero]
  accounts := by
    show ((0 : ℕ) : ℚ) / simRate = 0 - 0 + (ClientClock.seed simRate rttSeconds - ClientClock.seed simRate rttSeconds)
    rw [Nat.cast_zero, zero_div, sub_self, sub_self, add_zero]
  target := clampLead_mem h rttSeconds
  accumulator := ⟨le_rfl, div_pos (by norm_num [nudgeMax]) (by linarith)⟩

section step
variable {simRate seed : ℚ} {snapshotTick : ℤ} {r : ClockRun}

theorem indices_append (tick : ℤ) (n m : ℕ) :
    ClientClock.indices tick n ++ ClientClock.indices (tick + n) m = ClientClock.indices tick (n + m) := by
  rw [ClientClock.indices, ClientClock.indices, ClientClock.indices, List.range_add, List.map_append, List.map_map]
  congr 1
  refine List.map_congr_left fun i _ => ?_
  simp only [Function.comp_apply]
  push_cast
  ring

theorem length_indices (tick : ℤ) (n : ℕ) : (ClientClock.indices tick n).length = n := by
  rw [ClientClock.indices, List.length_map, List.length_range]

theorem Kept.advance (h : Kept simRate snapshotTick seed r) (hrate : 4 ≤ simRate) (now : ℚ) :
    Kept simRate snapshotTick seed (r.step (.advance (.finite now))) := by
  have hpos : 0 < r.clock.simRate := by
    rw [h.rate]
    linarith
  obtain ⟨hdt, -, hstep, n, heq, hlow, hhigh⟩ := ClientClock.advance_eq hpos h.accumulator.1 now
  have hr : r.step (.advance (.finite now)) =
      ⟨{ r.clock with lastNow := some now, accumulator := r.clock.accumulator + r.clock.frameDt now }.stepped
          r.clock.tickStep n, r.stamped ++ ClientClock.indices r.clock.localTick n, r.integrated + r.clock.frameDt now⟩ := by
    rw [step, heq]
  have hlength : (r.stamped ++ ClientClock.indices r.clock.localTick n).length = r.stamped.length + n := by
    rw [List.length_append, length_indices]
  rw [hr]
  refine ⟨h.rate, ?_, ?_, ?_, h.target, hlow, ?_⟩
  · show r.stamped ++ ClientClock.indices r.clock.localTick n = _
    rw [hlength, ← indices_append, ← h.stamped, h.tick]
  · show r.clock.localTick + (n : ℤ) = _
    rw [hlength, h.tick]
    push_cast
    ring
  · show ((r.stamped ++ ClientClock.indices r.clock.localTick n).length : ℚ) / simRate =
      r.integrated + r.clock.frameDt now - (r.clock.accumulator + r.clock.frameDt now - n * r.clock.tickStep) +
        (r.clock.currentLeadSeconds + n * (1 / r.clock.simRate - r.clock.tickStep) - seed)
    have haccounts := h.accounts
    rw [hlength, Nat.cast_add, add_div, haccounts, h.rate]
    ring
  · refine hhigh.trans_le ?_
    rw [ClientClock.tickStep, h.rate, one_div_mul_eq_div]
    exact div_le_div_of_nonneg_right (ClientClock.nudgeScale_mem r.clock).2 (by linarith)

theorem Kept.step (h : Kept simRate snapshotTick seed r) (hrate : 4 ≤ simRate) (e : ClockEvent) :
    Kept simRate snapshotTick seed (r.step e) := by
  cases e with
  | advance now =>
    cases now with
    | finite now => exact h.advance hrate now
    | nan | posInfinity | negInfinity =>
      -- a reading that is no number is discarded
      show Kept simRate snapshotTick seed ⟨r.clock, r.stamped ++ [], r.integrated + 0⟩
      rw [List.append_nil, add_zero]
      exact h
  | sample headroom leadAtSendTicks =>
    refine ⟨h.rate, h.stamped, h.tick, h.accounts, ?_, h.accumulator⟩
    show 1 / simRate ≤ clampLead _ r.clock.simRate ∧ clampLead _ r.clock.simRate ≤ leadMaxSeconds
    rw [h.rate]
    exact clampLead_mem hrate _

/-- Up to this rate a capped frame holds at most fifty shortened ticks. -/
def maxSteadyRate : ℚ := 2448 / 5

theorem Kept.leadError_advance (h : Kept simRate snapshotTick seed r) (hrate : 4 ≤ simRate) (now : ℚ) :
    ∃ n : ℕ, (r.step (.advance (.finite now))).clock.leadError =
        r.clock.leadError - n * (1 / simRate - r.clock.tickStep) ∧ (simRate ≤ maxSteadyRate → n ≤ 50) := by
  have hpos : 0 < simRate := by linarith
  obtain ⟨-, hmax, -, n, heq, hlow, -⟩ := ClientClock.advance_eq (h.rate ▸ hpos) h.accumulator.1 now
  refine ⟨n, ?_, fun hsteady => ?_⟩
  · show (r.clock.advance (.finite now)).1.leadError = _
    rw [heq]
    show r.clock.targetLeadSeconds - (r.clock.currentLeadSeconds + n * (1 / r.clock.simRate - r.clock.tickStep)) = _
    rw [ClientClock.leadError, h.rate]
    ring
  · have hstep : (1 - nudgeMax) / simRate ≤ r.clock.tickStep := by
      rw [ClientClock.tickStep, h.rate, one_div_mul_eq_div]
      exact div_le_div_of_nonneg_right (ClientClock.nudgeScale_mem r.clock).1 hpos.le
    have hticks : n * ((1 - nudgeMax) / simRate) ≤ n * r.clock.tickStep :=
      mul_le_mul_of_nonneg_left hstep (Nat.cast_nonneg n)
    have hroom : n * ((1 - nudgeMax) / simRate) < (1 + nudgeMax) / simRate + maxFrameDt := by
      linarith [h.accumulator.2]
    have hscaled : n * (1 - nudgeMax) < (1 + nudgeMax) + maxFrameDt * simRate := by
      have := mul_lt_mul_of_pos_right hroom hpos
      rwa [add_mul, mul_assoc, div_mul_cancel₀ _ hpos.ne', div_mul_cancel₀ _ hpos.ne'] at this
    have hlt : (n : ℚ) < 51 := by
      rw [nudgeMax, maxFrameDt] at hscaled
      rw [maxSteadyRate] at hsteady
      linarith
    have hlt' : n < 51 := by exact_mod_cast hlt
    omega

theorem Kept.error_advance (h : Kept simRate snapshotTick seed r) (hrate : 4 ≤ simRate) (now : JsNumber) :
    (|r.clock.leadError| ≤ 1 / 2 / simRate →
        (r.step (.advance now)).clock.leadError = r.clock.leadError) ∧
      (simRate ≤ maxSteadyRate → |(r.step (.advance now)).clock.leadError| ≤ |r.clock.leadError|) := by
  cases now with
  | nan | posInfinity | negInfinity => exact ⟨fun _ => rfl, fun _ => le_rfl⟩
  | finite now =>
    have hpos : 0 < simRate := by linarith
    obtain ⟨n, heq, hfifty⟩ := h.leadError_advance hrate now
    have hscale : r.clock.nudgeScale = if |r.clock.leadError| ≤ 1 / 2 / simRate then 1 else
        if 0 < r.clock.leadError then 1 - nudgeMax else 1 + nudgeMax := by
      rw [ClientClock.nudgeScale, ClientClock.halfTick, h.rate]
    rw [heq, ClientClock.tickStep, h.rate, hscale]
    constructor
    · intro hwithin
      rw [if_pos hwithin, mul_one, sub_self, mul_zero, sub_zero]
    · intro hsteady
      have hn : (n : ℚ) ≤ 50 := by exact_mod_cast hfifty hsteady
      have hn' : (0 : ℚ) ≤ n := Nat.cast_nonneg n
      have hbound : n * nudgeMax / simRate ≤ 1 / simRate := by
        refine div_le_div_of_nonneg_right ?_ hpos.le
        rw [nudgeMax]
        linarith
      have hnonneg : 0 ≤ n * nudgeMax / simRate := div_nonneg (mul_nonneg hn' (by norm_num [nudgeMax])) hpos.le
      have hhalf : 1 / simRate = 2 * (1 / 2 / simRate) := by ring
      split_ifs with hwithin hshort
      · rw [mul_one, sub_self, mul_zero, sub_zero]
      · -- short ticks make up at most a whole tick, and more than half a tick was missing
        rw [not_le, abs_of_pos hshort] at hwithin
        have hmade : n * (1 / simRate - 1 / simRate * (1 - nudgeMax)) = n * nudgeMax / simRate := by ring
        rw [hmade, abs_of_pos hshort]
        exact abs_le.mpr ⟨by linarith, by linarith⟩
      · rw [not_lt] at hshort
        rw [not_le, abs_of_nonpos hshort] at hwithin
        have hmade : n * (1 / simRate - 1 / simRate * (1 + nudgeMax)) = -(n * nudgeMax / simRate) := by ring
        rw [hmade, abs_of_nonpos hshort]
        exact abs_le.mpr ⟨by linarith, by linarith⟩

/-- From one sample to the next. -/
theorem Kept.error_advances (h : Kept simRate snapshotTick seed r) (hrate : 4 ≤ simRate) (nows : List JsNumber) :
    (|r.clock.leadError| ≤ 1 / 2 / simRate →
        (exec ClockRun.step r (nows.map .advance)).clock.leadError = r.clock.leadError) ∧
      (simRate ≤ maxSteadyRate →
        |(exec ClockRun.step r (nows.map .advance)).clock.leadError| ≤ |r.clock.leadError|) := by
  induction nows generalizing r with
  | nil => exact ⟨fun _ => rfl, fun _ => le_rfl⟩
  | cons now nows ih =>
    obtain ⟨hsame, hless⟩ := h.error_advance hrate now
    obtain ⟨hsame', hless'⟩ := ih (h.step hrate (.advance now))
    rw [List.map_cons, exec_cons]
    refine ⟨fun hwithin => ?_, fun hsteady => (hless' hsteady).trans (hless hsteady)⟩
    rw [hsame' (by rwa [hsame hwithin]), hsame hwithin]

end step

/-- **The clock's bookkeeping is exact**: at any rate of at least 4 the ticks stamped follow the seed without a gap,
their time is the time integrated less what is left, give or take what the nudge made of the lead, and the target stays
in its range; between two samples a lead within half a tick stays where it is, and up to `maxSteadyRate` the lead error
never grows. -/
theorem clock_exact {simRate : ℚ} (hrate : 4 ≤ simRate) (snapshotTick : ℤ) (rttSeconds : JsNumber)
    (es : List ClockEvent) :
    let seed := ClientClock.seed simRate rttSeconds
    let r := exec step (start simRate snapshotTick rttSeconds) es
    r.stamped = ClientClock.indices (snapshotTick + ⌈seed * simRate⌉) r.stamped.length ∧
      r.stamped.length / simRate = r.integrated - r.clock.accumulator + (r.clock.currentLeadSeconds - seed) ∧
      (1 / simRate ≤ r.clock.targetLeadSeconds ∧ r.clock.targetLeadSeconds ≤ leadMaxSeconds) ∧
      ∀ nows : List JsNumber,
        let r' := exec step r (nows.map .advance)
        (|r.clock.leadError| ≤ 1 / 2 / simRate → |r'.clock.leadError| ≤ 1 / 2 / simRate) ∧
          (simRate ≤ maxSteadyRate → |r'.clock.leadError| ≤ |r.clock.leadError|) := by
  intro seed r
  have hkept : Kept simRate snapshotTick seed (exec step (start simRate snapshotTick rttSeconds) es) :=
    @exec_invariant _ _ step (Kept simRate snapshotTick seed) (fun _ e h => h.step hrate e) _
      (kept_start hrate snapshotTick rttSeconds) es
  refine ⟨hkept.stamped, hkept.accounts, hkept.target, fun nows => ?_⟩
  obtain ⟨hsame, hless⟩ := hkept.error_advances hrate nows
  exact ⟨fun hwithin => by rwa [hsame hwithin], hless⟩

/-- Sixty ticks a second, and a frame of a twentieth of one. -/
theorem clock_exact_sixty :
    let es : List ClockEvent := [.advance (.finite 0), .advance (.finite (1 / 20)), .advance .nan]
    let r := exec step (start 60 1000 (.finite (1 / 10))) es
    r.stamped = ClientClock.indices (1000 + ⌈ClientClock.seed 60 (.finite (1 / 10)) * 60⌉) r.stamped.length ∧
      r.stamped.length / 60 = r.integrated - r.clock.accumulator +
        (r.clock.currentLeadSeconds - ClientClock.seed 60 (.finite (1 / 10))) := by
  intro es r
  obtain ⟨hstamped, haccounts, -⟩ := clock_exact (show (4 : ℚ) ≤ 60 by norm_num) 1000 (.finite (1 / 10)) es
  exact ⟨hstamped, haccounts⟩

/-- At 490 ticks a second a long frame takes fifty-one short ticks, and the lead is further off behind it than before. -/
theorem error_grows : ¬ ∀ (simRate : ℚ) (snapshotTick : ℤ) (rttSeconds : JsNumber) (es : List ClockEvent) (now : JsNumber),
    4 ≤ simRate →
    |(exec step (start simRate snapshotTick rttSeconds) (es ++ [.advance now])).clock.leadError| ≤
      |(exec step (start simRate snapshotTick rttSeconds) es).clock.leadError| := by
  intro h
  have hgrows := h 490 0 (.finite (1 / 10))
    [.advance (.finite 0), .advance (.finite (99 / 49000)), .sample (.finite (-1 / 50)) (.finite 49)]
    (.finite (1 / 10 + 99 / 49000)) (by norm_num)
  revert hgrows
  decide +kernel

end ClockRun

end Grove.Client
