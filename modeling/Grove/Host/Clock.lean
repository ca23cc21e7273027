import Grove.Core.Value
import Mathlib.Tactic

/-! # Real time into ticks

Two hosts run one policy: `Driver.pump` of `packages/glue/src/server/driver.ts` and `Clock::wake` of
`apps/grove/game-instance/src/clock.rs`, in exact arithmetic.  A wake turns the time since the last
one into steps, marks those that close a send interval, and sheds what is past the step cap.

A world may retune its rates in any step.  The first host hears of it in the middle of the loop; the
second runs the steps, and so hears of it, once the wake is over. -/

namespace Grove.HostClock

/-- The two rates; a host refuses any that is not positive. -/
structure Rates where
  sim : ℚ
  send : ℚ
  sim_pos : 0 < sim
  send_pos : 0 < send

/-- What the `k`-th step of a wake sets the rates to. -/
abbrev Retune := ℕ → Option Rates

/-- What one wake did. -/
structure Wake where
  /-- One entry for each step: whether it closes a send interval. -/
  drains : List Bool
  /-- The cap was hit with backlog left over. -/
  shed : Bool
  /-- The backlog that was shed. -/
  discarded : ℚ
deriving DecidableEq

namespace Wake

def none : Wake := ⟨[], false, 0⟩

def steps (w : Wake) : ℕ := w.drains.length

end Wake

/-- Slack on the accumulator's test. -/
def stepEpsilon : ℚ := 1 / 1000000000

/-- Wall-clock one wake may catch up before shedding. -/
def maxCatchupMs : ℚ := 250

/-! ### The host in process -/

structure Driver where
  rates : Rates
  accumulator : ℚ
  lastNow : Option ℚ
  sinceSend : ℕ
  shedCount : ℕ
  nowSeconds : ℚ

namespace Driver

def new (rates : Rates) : Driver := ⟨rates, 0, none, 0, 0, 0⟩

def maxStepsPerWake (simRate : ℚ) : ℕ := (max 1 ⌈maxCatchupMs / 1000 * simRate⌉).toNat

/-- `Math.round` takes a half up. -/
def ticksPerSend (simRate sendRate : ℚ) : ℕ :=
  if 0 < sendRate then (max 1 ⌊simRate / sendRate + 1 / 2⌋).toNat else 1

/-- The loop of `pump`, with `left` steps to the cap, at its `k`-th step. -/
def pumpLoop (dt owed : ℚ) (perSend : ℕ) (retune : Retune) : ℕ → ℕ → Driver → Driver × List Bool
  | 0, _, d => (d, [])
  | left + 1, k, d =>
    if owed ≤ d.accumulator then
      let sinceSend := d.sinceSend + 1
      let drain := decide (perSend ≤ sinceSend)
      let (d, drains) := pumpLoop dt owed perSend retune left (k + 1)
        { d with
          accumulator := d.accumulator - dt
          sinceSend := if drain then 0 else sinceSend
          rates := (retune k).getD d.rates }
      (d, drain :: drains)
    else (d, [])

/-- One wake: the time since the last reading, then the steps it owes. -/
def pump (d : Driver) (now : JsNumber) (retune : Retune) : Driver × Wake :=
  match now with
  | .finite now =>
    let dt := 1 / d.rates.sim
    let cap := maxStepsPerWake d.rates.sim
    let perSend := ticksPerSend d.rates.sim d.rates.send
    let owed := dt - stepEpsilon
    let (d, drains) := pumpLoop dt owed perSend retune cap 0
      { d with
        nowSeconds := now
        -- Clamped: a reading behind the last one must not rewind the accumulator.
        accumulator := d.accumulator + max 0 (now - d.lastNow.getD now)
        lastNow := some now }
    if drains.length = cap ∧ owed ≤ d.accumulator then
      ({ d with accumulator := 0, shedCount := d.shedCount + 1 }, ⟨drains, true, d.accumulator⟩)
    else (d, ⟨drains, false, 0⟩)
  -- Discarded, never stored.
  | .nan | .posInfinity | .negInfinity => (d, .none)

def setRates (d : Driver) (rates : Rates) : Driver := { d with rates := rates }

end Driver

/-! ### The host on a box -/

def maxU32 : ℕ := 2 ^ 32 - 1

/-- `as u32`, which saturates. -/
def asU32 (z : ℤ) : ℕ := min z.toNat maxU32

/-- `f64::round` takes a half away from zero. -/
def roundAway (q : ℚ) : ℤ := if 0 ≤ q then ⌊q + 1 / 2⌋ else -⌊-q + 1 / 2⌋

structure Clock where
  rates : Rates
  accumulator : ℚ
  lastNow : Option ℚ
  /-- A `u32`. -/
  sinceSend : ℕ
  shedCount : ℕ
  nowSeconds : ℚ

namespace Clock

def new (rates : Rates) : Clock := ⟨rates, 0, none, 0, 0, 0⟩

def maxStepsPerWake (simRate : ℚ) : ℕ := asU32 (max ⌈maxCatchupMs / 1000 * simRate⌉ 1)

def ticksPerSend (simRate sendRate : ℚ) : ℕ :=
  if sendRate ≤ 0 then 1 else max (asU32 (roundAway (simRate / sendRate))) 1

/-- The loop of `wake`, with `left` steps to the cap. -/
def wakeLoop (dt owed : ℚ) (perSend : ℕ) : ℕ → Clock → Clock × List Bool
  | 0, c => (c, [])
  | left + 1, c =>
    if owed ≤ c.accumulator then
      let sinceSend := (c.sinceSend + 1) % 2 ^ 32
      let drain := decide (perSend ≤ sinceSend)
      let (c, drains) := wakeLoop dt owed perSend left
        { c with
          accumulator := c.accumulator - dt
          sinceSend := if drain then 0 else sinceSend }
      (c, drain :: drains)
    else (c, [])

def wake (c : Clock) (now : JsNumber) : Clock × Wake :=
  match now with
  | .finite now =>
    let dt := 1 / c.rates.sim
    let cap := maxStepsPerWake c.rates.sim
    let perSend := ticksPerSend c.rates.sim c.rates.send
    let owed := dt - stepEpsilon
    let (c, drains) := wakeLoop dt owed perSend cap
      { c with
        nowSeconds := now
        accumulator := c.accumulator + max (now - c.lastNow.getD now) 0
        lastNow := some now }
    if drains.length = cap ∧ owed ≤ c.accumulator then
      ({ c with accumulator := 0, shedCount := (c.shedCount + 1) % 2 ^ 64 }, ⟨drains, true, c.accumulator⟩)
    else (c, ⟨drains, false, 0⟩)
  | .nan | .posInfinity | .negInfinity => (c, .none)

def setRates (c : Clock) (rates : Rates) : Clock := { c with rates := rates }

/-- The steps a wake owed, run by its caller from the `k`-th on. -/
def runSteps (retune : Retune) : ℕ → ℕ → Clock → Clock
  | 0, _, c => c
  | steps + 1, k, c => runSteps retune steps (k + 1) ((retune k).elim c c.setRates)

/-- One turn of the session's loop. -/
def turn (c : Clock) (now : JsNumber) (retune : Retune) : Clock × Wake :=
  let (c, wake) := c.wake now
  (runSteps retune wake.steps 0 c, wake)

end Clock

/-! ### Runs -/

inductive ClockEvent where
  | wake (now : JsNumber) (retune : Retune)
  | setRates (rates : Rates)

namespace Driver

/-- A driver with the wakes it has made, oldest first. -/
def step (s : Driver × List Wake) : ClockEvent → Driver × List Wake
  | .wake now retune => ((s.1.pump now retune).1, s.2 ++ [(s.1.pump now retune).2])
  | .setRates rates => (s.1.setRates rates, s.2)

def run (rates : Rates) (events : List ClockEvent) : Driver × List Wake := events.foldl step (new rates, [])

end Driver

namespace Clock

def step (s : Clock × List Wake) : ClockEvent → Clock × List Wake
  | .wake now retune => ((s.1.turn now retune).1, s.2 ++ [(s.1.turn now retune).2])
  | .setRates rates => (s.1.setRates rates, s.2)

def run (rates : Rates) (events : List ClockEvent) : Clock × List Wake := events.foldl step (new rates, [])

end Clock

/-- The step cap and the send interval are counts a `u32` holds. -/
def Rates.Fits (rates : Rates) : Prop :=
  ⌈maxCatchupMs / 1000 * rates.sim⌉ ≤ maxU32 ∧ ⌊rates.sim / rates.send + 1 / 2⌋ ≤ maxU32

/-- So are those of every rate it sets. -/
def ClockEvent.Fits : ClockEvent → Prop
  | .wake _ retune => ∀ k rates, retune k = some rates → rates.Fits
  | .setRates rates => rates.Fits

/-! ### The counts agree -/

theorem maxStepsPerWake_eq {rates : Rates} (h : rates.Fits) :
    Clock.maxStepsPerWake rates.sim = Driver.maxStepsPerWake rates.sim := by
  have hcap := h.1
  unfold Clock.maxStepsPerWake Driver.maxStepsPerWake asU32 maxU32 at *
  omega

theorem ticksPerSend_eq {rates : Rates} (h : rates.Fits) :
    Clock.ticksPerSend rates.sim rates.send = Driver.ticksPerSend rates.sim rates.send := by
  have hsend := h.2
  have hround : roundAway (rates.sim / rates.send) = ⌊rates.sim / rates.send + 1 / 2⌋ :=
    if_pos (div_pos rates.sim_pos rates.send_pos).le
  unfold Clock.ticksPerSend Driver.ticksPerSend
  rw [if_neg (not_le.mpr rates.send_pos), if_pos rates.send_pos, hround]
  unfold asU32 maxU32 at *
  omega

theorem ticksPerSend_pos (simRate sendRate : ℚ) : 0 < Driver.ticksPerSend simRate sendRate := by
  unfold Driver.ticksPerSend
  split_ifs <;> omega

theorem ticksPerSend_le {rates : Rates} (h : rates.Fits) : Driver.ticksPerSend rates.sim rates.send ≤ maxU32 := by
  have hsend := h.2
  unfold Driver.ticksPerSend maxU32 at *
  rw [if_pos rates.send_pos]
  omega

/-! ### One wake on both hosts -/

/-- The two clocks show the same, their rates apart, and the counter is one that a `u32` holds. -/
structure Level (d : Driver) (c : Clock) : Prop where
  accumulator : d.accumulator = c.accumulator
  lastNow : d.lastNow = c.lastNow
  nowSeconds : d.nowSeconds = c.nowSeconds
  sinceSend : d.sinceSend = c.sinceSend
  counted : c.sinceSend < maxU32

/-- The rates after the steps from the `k`-th on. -/
def retuned (retune : Retune) : ℕ → ℕ → Rates → Rates
  | 0, _, rates => rates
  | steps + 1, k, rates => retuned retune steps (k + 1) ((retune k).getD rates)

theorem runSteps_eq (retune : Retune) (steps k : ℕ) (c : Clock) :
    Clock.runSteps retune steps k c = { c with rates := retuned retune steps k c.rates } := by
  induction steps generalizing k c with
  | zero => rfl
  | succ steps ih =>
    rw [Clock.runSteps, ih, retuned]
    cases retune k <;> rfl

theorem fits_retuned {retune : Retune} (hretune : ∀ k rates, retune k = some rates → rates.Fits) {rates : Rates}
    (hrates : rates.Fits) (steps k : ℕ) : (retuned retune steps k rates).Fits := by
  induction steps generalizing k rates with
  | zero => exact hrates
  | succ steps ih =>
    rw [retuned]
    refine ih ?_ (k + 1)
    rcases hk : retune k with _ | next
    · exact hrates
    · exact hretune k next hk

/-- The loops do the same steps; the first one has the rates of the last step it ran. -/
theorem loop_level (dt owed : ℚ) {perSend : ℕ} (hperSend : perSend ≤ maxU32) (retune : Retune) (left k : ℕ) {d : Driver}
    {c : Clock} (h : Level d c) :
    (Driver.pumpLoop dt owed perSend retune left k d).2 = (Clock.wakeLoop dt owed perSend left c).2 ∧
      Level (Driver.pumpLoop dt owed perSend retune left k d).1 (Clock.wakeLoop dt owed perSend left c).1 ∧
      (Driver.pumpLoop dt owed perSend retune left k d).1.rates =
        retuned retune (Clock.wakeLoop dt owed perSend left c).2.length k d.rates ∧
      (Clock.wakeLoop dt owed perSend left c).1.rates = c.rates := by
  induction left generalizing k d c with
  | zero => exact ⟨rfl, h, rfl, rfl⟩
  | succ left ih =>
    rw [Driver.pumpLoop, Clock.wakeLoop, h.accumulator]
    split_ifs with howed
    · have hcounted := h.counted
      have hsince := h.sinceSend
      have hcount : (c.sinceSend + 1) % 2 ^ 32 = d.sinceSend + 1 := by
        unfold maxU32 at hcounted
        omega
      have hnext : Level
          { d with
            accumulator := c.accumulator - dt
            sinceSend := if decide (perSend ≤ d.sinceSend + 1) then 0 else d.sinceSend + 1
            rates := (retune k).getD d.rates }
          { c with
            accumulator := c.accumulator - dt
            sinceSend := if decide (perSend ≤ d.sinceSend + 1) then 0 else d.sinceSend + 1 } := by
        refine ⟨rfl, h.lastNow, h.nowSeconds, rfl, ?_⟩
        show (if decide (perSend ≤ d.sinceSend + 1) then 0 else d.sinceSend + 1) < maxU32
        split_ifs with hdrain
        · exact Nat.lt_of_le_of_lt (Nat.zero_le _) hcounted
        · exact lt_of_lt_of_le (not_le.mp (by simpa using hdrain)) hperSend
      obtain ⟨hdrains, hlevel, hrates, hkept⟩ := ih (k + 1) hnext
      simp only [hcount]
      exact ⟨congrArg _ hdrains, hlevel, hrates, hkept⟩
    · exact ⟨rfl, h, rfl, rfl⟩

/-- Level clocks of the same rates make the same wake and are level after it. -/
theorem pump_level {d : Driver} {c : Clock} (h : Level d c) (hrates : d.rates = c.rates) (hfits : c.rates.Fits)
    (now : JsNumber) (retune : Retune) : (d.pump now retune).2 = (c.turn now retune).2 ∧
      Level (d.pump now retune).1 (c.turn now retune).1 ∧
      (d.pump now retune).1.rates = (c.turn now retune).1.rates ∧
      (c.turn now retune).1.rates = retuned retune (c.turn now retune).2.steps 0 c.rates := by
  cases now with
  | finite now =>
    obtain ⟨rates, accumulator, lastNow, sinceSend, shedCount, nowSeconds⟩ := d
    subst hrates
    have hread : Level
        ⟨c.rates, accumulator + max 0 (now - lastNow.getD now), some now, sinceSend, shedCount, now⟩
        { c with
          nowSeconds := now
          accumulator := c.accumulator + max (now - c.lastNow.getD now) 0
          lastNow := some now } :=
      ⟨by rw [← h.accumulator, ← h.lastNow, max_comm], rfl, rfl, h.sinceSend, h.counted⟩
    obtain ⟨hdrains, hlevel, hloop, hkept⟩ := loop_level (1 / c.rates.sim) (1 / c.rates.sim - stepEpsilon)
      (ticksPerSend_le hfits) retune (Driver.maxStepsPerWake c.rates.sim) 0 hread
    unfold Driver.pump Clock.turn Clock.wake
    simp only [maxStepsPerWake_eq hfits, ticksPerSend_eq hfits, runSteps_eq]
    rw [hdrains, hlevel.accumulator]
    split_ifs with hshed
    · refine ⟨rfl, ⟨rfl, hlevel.lastNow, hlevel.nowSeconds, hlevel.sinceSend, hlevel.counted⟩, ?_, ?_⟩
      · exact hloop.trans (congrArg (retuned retune _ 0) hkept.symm)
      · exact congrArg _ hkept
    · refine ⟨rfl, ⟨hlevel.accumulator, hlevel.lastNow, hlevel.nowSeconds, hlevel.sinceSend, hlevel.counted⟩, ?_, ?_⟩
      · exact hloop.trans (congrArg (retuned retune _ 0) hkept.symm)
      · exact congrArg _ hkept
  | nan | posInfinity | negInfinity =>
    exact ⟨rfl, h, hrates, rfl⟩

/-- The two hosts after the same events, once each event's rates fit. -/
theorem run_level {rates : Rates} (hrates : rates.Fits) (events : List ClockEvent) (h : ∀ e ∈ events, e.Fits) :
    Level (Driver.run rates events).1 (Clock.run rates events).1 ∧
      (Driver.run rates events).1.rates = (Clock.run rates events).1.rates ∧
      (Clock.run rates events).1.rates.Fits ∧ (Driver.run rates events).2 = (Clock.run rates events).2 := by
  induction events using List.reverseRecOn with
  | nil => exact ⟨⟨rfl, rfl, rfl, rfl, (by decide : 0 < maxU32)⟩, rfl, hrates, rfl⟩
  | append_singleton events e ih =>
    obtain ⟨hlevel, hsame, hfits, hwakes⟩ := ih fun e he => h e (by simp [he])
    have he := h e (by simp)
    unfold Driver.run Clock.run at *
    rw [List.foldl_append, List.foldl_append]
    cases e with
    | wake now retune =>
      obtain ⟨hwake, hnext, hrates', hretuned⟩ := pump_level hlevel hsame hfits now retune
      refine ⟨hnext, hrates', ?_, ?_⟩
      · exact hretuned ▸ fits_retuned he hfits _ 0
      · exact congrArg₂ (fun ws w => ws ++ [w]) hwakes hwake
    | setRates rates =>
      exact ⟨⟨hlevel.accumulator, hlevel.lastNow, hlevel.nowSeconds, hlevel.sinceSend, hlevel.counted⟩, rfl, he, hwakes⟩

/-! ### The accounts of a run -/

/-- The flags of `steps` steps when `since` have passed and every `n`-th closes an interval. -/
def cadence (n since steps : ℕ) : List Bool := (List.range steps).map fun i => decide (n ∣ since + i + 1)

theorem cadence_succ (n since steps : ℕ) :
    cadence n since (steps + 1) = decide (n ∣ since + 1) :: cadence n (since + 1) steps := by
  unfold cadence
  rw [List.range_succ_eq_map, List.map_cons, List.map_map]
  congr 1
  refine List.map_congr_left fun i _ => ?_
  show decide (n ∣ since + (i + 1) + 1) = decide (n ∣ since + 1 + i + 1)
  rw [show since + (i + 1) + 1 = since + 1 + i + 1 by omega]

theorem cadence_add (n since steps more : ℕ) :
    cadence n since (steps + more) = cadence n since steps ++ cadence n (since + steps) more := by
  induction steps generalizing since with
  | zero => simp [cadence]
  | succ steps ih =>
    rw [Nat.succ_add, cadence_succ, cadence_succ, ih, List.cons_append,
      show since + 1 + steps = since + (steps + 1) by omega]

/-- Only how far into the interval it is matters. -/
theorem cadence_mod (n since steps : ℕ) : cadence n (since % n) steps = cadence n since steps := by
  refine List.map_congr_left fun i _ => decide_eq_decide.mpr ?_
  rw [Nat.dvd_iff_mod_eq_zero, Nat.dvd_iff_mod_eq_zero, add_assoc, add_assoc, Nat.mod_add_mod]

/-- The steps a loop takes are within its cap, are paid for, and carry the flags that are due. -/
theorem pumpLoop_paced (dt owed : ℚ) {n : ℕ} (left k : ℕ) {d : Driver} (hsince : d.sinceSend < n) {r : Driver × List Bool}
    (hr : r = Driver.pumpLoop dt owed n (fun _ => none) left k d) :
    r.2.length ≤ left ∧ d.accumulator = r.2.length * dt + r.1.accumulator ∧
      r.2 = cadence n d.sinceSend r.2.length ∧ r.1.sinceSend = (d.sinceSend + r.2.length) % n ∧
      r.1.rates = d.rates ∧ r.1.lastNow = d.lastNow := by
  subst hr
  induction left generalizing k d with
  | zero => simp [Driver.pumpLoop, cadence, Nat.mod_eq_of_lt hsince]
  | succ left ih =>
    rw [Driver.pumpLoop]
    split_ifs with howed
    · have hmod : (if decide (n ≤ d.sinceSend + 1) then 0 else d.sinceSend + 1) = (d.sinceSend + 1) % n := by
        by_cases hdrain : n ≤ d.sinceSend + 1
        · rw [if_pos (by simpa using hdrain), show d.sinceSend + 1 = n by omega, Nat.mod_self]
        · rw [if_neg (by simpa using hdrain), Nat.mod_eq_of_lt (by omega)]
      have hflag : decide (n ≤ d.sinceSend + 1) = decide (n ∣ d.sinceSend + 1) := by
        refine decide_eq_decide.mpr ⟨fun hle => ?_, fun hdvd => Nat.le_of_dvd (by omega) hdvd⟩
        rw [show d.sinceSend + 1 = n by omega]
      simp only [hmod, Option.getD_none]
      obtain ⟨hlength, hpaid, hflags, hnext, hrates, hlast⟩ := ih (k + 1)
        (d := { d with accumulator := d.accumulator - dt, sinceSend := (d.sinceSend + 1) % n }) (Nat.mod_lt _ (by omega))
      refine ⟨Nat.succ_le_succ hlength, ?_, ?_, ?_, hrates, hlast⟩
      · have hspent : d.accumulator - dt = _ := hpaid
        rw [List.length_cons, Nat.cast_succ]
        linarith
      · rw [List.length_cons, cadence_succ, ← hflag, ← cadence_mod n (d.sinceSend + 1), ← hflags]
      · rw [hnext, List.length_cons, Nat.mod_add_mod, Nat.add_right_comm, Nat.add_assoc]
    · simp [cadence, Nat.mod_eq_of_lt hsince]

/-- Wakes at these readings, the rates left alone. -/
def readingEvents (readings : List JsNumber) : List ClockEvent := readings.map fun now => .wake now fun _ => none

theorem readingEvents_fits (readings : List JsNumber) : ∀ e ∈ readingEvents readings, e.Fits := by
  intro e he
  obtain ⟨now, -, rfl⟩ := List.mem_map.mp he
  intro k rates hnone
  cases hnone

/-- The time from each reading that counts to the next, one that runs backwards adding none. -/
def elapsed : Option ℚ → List JsNumber → ℚ
  | _, [] => 0
  | last, .finite now :: readings => max 0 (now - last.getD now) + elapsed (some now) readings
  | last, _ :: readings => elapsed last readings

/-- The reading the next one is measured from. -/
def lastReading : Option ℚ → List JsNumber → Option ℚ
  | last, [] => last
  | _, .finite now :: readings => lastReading (some now) readings
  | last, _ :: readings => lastReading last readings

theorem elapsed_append (last : Option ℚ) (readings more : List JsNumber) :
    elapsed last (readings ++ more) = elapsed last readings + elapsed (lastReading last readings) more := by
  induction readings generalizing last with
  | nil => simp [elapsed, lastReading]
  | cons now readings ih =>
    cases now with
    | finite now => simp only [List.cons_append, elapsed, lastReading, ih, add_assoc]
    | nan | posInfinity | negInfinity => exact ih last

theorem lastReading_append (last : Option ℚ) (readings more : List JsNumber) :
    lastReading last (readings ++ more) = lastReading (lastReading last readings) more := by
  induction readings generalizing last with
  | nil => rfl
  | cons now readings ih => cases now <;> exact ih _

/-- The flags of all the steps so far, in order. -/
def flags (wakes : List Wake) : List Bool := wakes.flatMap Wake.drains

def totalSteps (wakes : List Wake) : ℕ := (wakes.map Wake.steps).sum

def totalDiscarded (wakes : List Wake) : ℚ := (wakes.map Wake.discarded).sum

/-- The accounts of a clock that ran at one pair of rates. -/
structure Paced (rates : Rates) (readings : List JsNumber) (accumulator : ℚ) (wakes : List Wake) : Prop where
  /-- The time that passed was stepped, is owed, or was shed. -/
  conserved : elapsed none readings = totalSteps wakes / rates.sim + accumulator + totalDiscarded wakes
  capped : ∀ w ∈ wakes, (w.steps : ℤ) ≤ max 1 ⌈1 / 4 * rates.sim⌉
  /-- Every so many steps close an interval, and no others. -/
  cadence : ∀ i < totalSteps wakes,
    (flags wakes)[i]? = some (decide (max 1 ⌊rates.sim / rates.send + 1 / 2⌋ ∣ (i : ℤ) + 1))
  onlyShed : ∀ w ∈ wakes, w.shed = false → w.discarded = 0

/-- What the driver keeps while its rates are left alone. -/
structure Pacing (rates : Rates) (readings : List JsNumber) (s : Driver × List Wake) : Prop where
  same : s.1.rates = rates
  lastNow : s.1.lastNow = lastReading none readings
  conserved : elapsed none readings = totalSteps s.2 / rates.sim + s.1.accumulator + totalDiscarded s.2
  capped : ∀ w ∈ s.2, w.steps ≤ Driver.maxStepsPerWake rates.sim
  flags : flags s.2 = cadence (Driver.ticksPerSend rates.sim rates.send) 0 (totalSteps s.2)
  sinceSend : s.1.sinceSend = totalSteps s.2 % Driver.ticksPerSend rates.sim rates.send
  onlyShed : ∀ w ∈ s.2, w.shed = false → w.discarded = 0

/-- A wake of so many steps, paid for out of the accumulator, with the flags that are due. -/
structure Pacing.Spent (d d' : Driver) (w : Wake) : Prop where
  rates : d'.rates = d.rates
  conserved : d.accumulator = w.steps / d.rates.sim + d'.accumulator + w.discarded
  capped : w.steps ≤ Driver.maxStepsPerWake d.rates.sim
  drains : w.drains = cadence (Driver.ticksPerSend d.rates.sim d.rates.send) d.sinceSend w.steps
  sinceSend : d'.sinceSend = (d.sinceSend + w.steps) % Driver.ticksPerSend d.rates.sim d.rates.send
  onlyShed : w.shed = false → w.discarded = 0

/-- One wake spends what the reading added. -/
theorem pump_spent {d : Driver} (hsince : d.sinceSend < Driver.ticksPerSend d.rates.sim d.rates.send) (now : ℚ) :
    Pacing.Spent { d with accumulator := d.accumulator + max 0 (now - d.lastNow.getD now) }
        (d.pump (.finite now) fun _ => none).1 (d.pump (.finite now) fun _ => none).2 ∧
      (d.pump (.finite now) fun _ => none).1.lastNow = some now := by
  obtain ⟨hlength, hpaid, hdrains, hnext, hrates, hlast⟩ := pumpLoop_paced (1 / d.rates.sim) (1 / d.rates.sim - stepEpsilon)
    (Driver.maxStepsPerWake d.rates.sim) 0
    (d := { d with
      nowSeconds := now
      accumulator := d.accumulator + max 0 (now - d.lastNow.getD now)
      lastNow := some now }) hsince rfl
  rw [mul_one_div] at hpaid
  simp only [Driver.pump]
  split_ifs with hshed
  · exact ⟨⟨hrates, by simpa [Wake.steps] using hpaid, hlength, hdrains, hnext, fun h => by cases h⟩, hlast⟩
  · exact ⟨⟨hrates, by simpa [Wake.steps] using hpaid, hlength, hdrains, hnext, fun _ => rfl⟩, hlast⟩

theorem totalSteps_append (wakes : List Wake) (w : Wake) : totalSteps (wakes ++ [w]) = totalSteps wakes + w.steps := by
  simp [totalSteps]

theorem totalDiscarded_append (wakes : List Wake) (w : Wake) :
    totalDiscarded (wakes ++ [w]) = totalDiscarded wakes + w.discarded := by
  simp [totalDiscarded]

theorem flags_append (wakes : List Wake) (w : Wake) : flags (wakes ++ [w]) = flags wakes ++ w.drains := by
  simp [flags]

/-- Every reading keeps the accounts. -/
theorem step_pacing {rates : Rates} {readings : List JsNumber} {s : Driver × List Wake} (h : Pacing rates readings s)
    (now : JsNumber) : Pacing rates (readings ++ [now]) (Driver.step s (.wake now fun _ => none)) := by
  obtain ⟨d, wakes⟩ := s
  obtain ⟨rfl, hlast, hconserved, hcapped, hflags, hsince, honly⟩ := h
  dsimp only at hlast hconserved hcapped hflags hsince honly
  have hwakes {w w' : Wake} (hw' : w' ∈ wakes ++ [w]) : w' ∈ wakes ∨ w' = w := by simpa using hw'
  rw [show Driver.step (d, wakes) (.wake now fun _ => none) =
    ((d.pump now fun _ => none).1, wakes ++ [(d.pump now fun _ => none).2]) from rfl]
  cases now with
  | finite now =>
    have hpos := ticksPerSend_pos d.rates.sim d.rates.send
    obtain ⟨hspent, hnow⟩ := pump_spent (d := d) (hsince ▸ Nat.mod_lt _ hpos) now
    generalize d.pump (.finite now) (fun _ => none) = r at hspent hnow
    refine ⟨hspent.rates, hnow.trans (by rw [lastReading_append]; rfl), ?_, ?_, ?_, ?_, ?_⟩
    · have hpaid := hspent.conserved
      dsimp only at hpaid
      show elapsed none (readings ++ [.finite now]) =
        totalSteps (wakes ++ [r.2]) / d.rates.sim + r.1.accumulator + totalDiscarded (wakes ++ [r.2])
      rw [elapsed_append, totalSteps_append, totalDiscarded_append, ← hlast, elapsed, elapsed, hconserved]
      push_cast
      rw [add_div]
      linarith
    · intro w hw
      rcases hwakes hw with hold | rfl
      · exact hcapped w hold
      · exact hspent.capped
    · show flags (wakes ++ [_]) = cadence _ 0 (totalSteps (wakes ++ [_]))
      rw [flags_append, totalSteps_append, cadence_add, ← hflags, hspent.drains, ← cadence_mod _ (0 + _)]
      rw [Nat.zero_add, ← hsince]
    · show _ = totalSteps (wakes ++ [_]) % _
      rw [totalSteps_append, hspent.sinceSend]
      dsimp only
      rw [hsince, Nat.mod_add_mod]
    · intro w hw
      rcases hwakes hw with hold | rfl
      · exact honly w hold
      · exact hspent.onlyShed
  | nan | posInfinity | negInfinity =>
    refine ⟨rfl, ?_, ?_, ?_, ?_, ?_, ?_⟩
    · rw [lastReading_append]
      exact hlast
    · show elapsed none (readings ++ [_]) = totalSteps (wakes ++ [_]) / _ + _ + totalDiscarded (wakes ++ [_])
      rw [elapsed_append, totalSteps_append, totalDiscarded_append, hconserved]
      simp [elapsed, Wake.none, Wake.steps, Driver.pump]
    · intro w hw
      rcases hwakes hw with hold | rfl
      · exact hcapped w hold
      · exact Nat.zero_le _
    · show flags (wakes ++ [_]) = cadence _ 0 (totalSteps (wakes ++ [_]))
      rw [flags_append, totalSteps_append, hflags]
      exact List.append_nil _
    · show _ = totalSteps (wakes ++ [_]) % _
      rw [totalSteps_append]
      exact hsince
    · intro w hw
      rcases hwakes hw with hold | rfl
      · exact honly w hold
      · exact fun _ => rfl

theorem run_pacing (rates : Rates) (readings : List JsNumber) :
    Pacing rates readings (Driver.run rates (readingEvents readings)) := by
  induction readings using List.reverseRecOn with
  | nil => exact ⟨rfl, rfl, by simp [elapsed, totalSteps, totalDiscarded, Driver.run, readingEvents, Driver.new], nofun, rfl, rfl, nofun⟩
  | append_singleton readings now ih =>
    have hrun : Driver.run rates (readingEvents (readings ++ [now])) =
        Driver.step (Driver.run rates (readingEvents readings)) (.wake now fun _ => none) := by
      unfold Driver.run readingEvents
      rw [List.map_append, List.foldl_append]
      rfl
    rw [hrun]
    exact step_pacing ih now

theorem Pacing.paced {rates : Rates} {readings : List JsNumber} {s : Driver × List Wake} (h : Pacing rates readings s) :
    Paced rates readings s.1.accumulator s.2 := by
  refine ⟨h.conserved, fun w hw => ?_, fun i hi => ?_, h.onlyShed⟩
  · have hcap := h.capped w hw
    unfold Driver.maxStepsPerWake at hcap
    rw [show maxCatchupMs / 1000 = 1 / 4 by norm_num [maxCatchupMs]] at hcap
    omega
  · rw [h.flags]
    simp only [HostClock.cadence, List.getElem?_map, List.getElem?_range hi, Option.map_some, Nat.zero_add]
    congr 1
    refine decide_eq_decide.mpr ?_
    unfold Driver.ticksPerSend
    rw [if_pos rates.send_pos, ← Int.natCast_dvd_natCast, Int.toNat_of_nonneg (by omega)]
    rfl

/-- While the cap and the send interval are counts a `u32` holds, both hosts make the same wakes, however
their rates are retuned, and both keep the accounts of a run whose rates are left alone. -/
theorem one_policy {rates : Rates} (hrates : rates.Fits) :
    (∀ events : List ClockEvent, (∀ e ∈ events, e.Fits) → (Clock.run rates events).2 = (Driver.run rates events).2) ∧
      ∀ readings : List JsNumber,
        Paced rates readings (Driver.run rates (readingEvents readings)).1.accumulator
          (Driver.run rates (readingEvents readings)).2 ∧
        Paced rates readings (Clock.run rates (readingEvents readings)).1.accumulator
          (Clock.run rates (readingEvents readings)).2 := by
  refine ⟨fun events hevents => (run_level hrates events hevents).2.2.2.symm, fun readings => ?_⟩
  have hdriver := (run_pacing rates readings).paced
  obtain ⟨hlevel, -, -, hwakes⟩ := run_level hrates (readingEvents readings) (readingEvents_fits readings)
  refine ⟨hdriver, ?_⟩
  rwa [← hwakes, ← hlevel.accumulator]

/-- The platform's own rates. -/
def sixty : Rates := ⟨60, 20, by norm_num, by norm_num⟩

theorem sixty_fits : sixty.Fits := by
  constructor <;> norm_num [sixty, maxCatchupMs, maxU32]

theorem one_policy_sixty :
    (Clock.run sixty [.wake (.finite 0) fun _ => none, .wake (.finite 1) fun _ => some sixty, .setRates sixty]).2 =
        (Driver.run sixty [.wake (.finite 0) fun _ => none, .wake (.finite 1) fun _ => some sixty, .setRates sixty]).2 ∧
      Paced sixty [.finite 0, .nan, .finite (-1)] (Clock.run sixty (readingEvents [.finite 0, .nan, .finite (-1)])).1.accumulator
        (Clock.run sixty (readingEvents [.finite 0, .nan, .finite (-1)])).2 := by
  refine ⟨(one_policy sixty_fits).1 _ fun e he => ?_, ((one_policy sixty_fits).2 _).2⟩
  simp only [List.mem_cons, List.not_mem_nil, or_false] at he
  rcases he with rfl | rfl | rfl
  · intro k rates hnone
    cases hnone
  · intro k rates hsome
    cases hsome
    exact sixty_fits
  · exact sixty_fits

/-- A loop that owes more than its cap stops at the cap. -/
theorem length_pumpLoop {dt owed : ℚ} (hdt : 0 ≤ dt) (n left k : ℕ) {d : Driver} (h : owed + left * dt ≤ d.accumulator) :
    (Driver.pumpLoop dt owed n (fun _ => none) left k d).2.length = left := by
  induction left generalizing k d with
  | zero => rfl
  | succ left ih =>
    rw [Nat.cast_succ] at h
    have howed : owed ≤ d.accumulator := by
      have hspent : 0 ≤ ((left : ℚ) + 1) * dt := by positivity
      linarith
    rw [Driver.pumpLoop, if_pos howed]
    refine congrArg Nat.succ (ih (k + 1) ?_)
    dsimp only
    linarith

theorem length_wakeLoop (dt owed : ℚ) (n left : ℕ) (c : Clock) : (Clock.wakeLoop dt owed n left c).2.length ≤ left := by
  induction left generalizing c with
  | zero => exact Nat.le_refl 0
  | succ left ih =>
    rw [Clock.wakeLoop]
    split_ifs
    · exact Nat.succ_le_succ (ih _)
    · exact Nat.zero_le _

/-- Rates whose step cap is more than a `u32` holds. -/
def tooFast : Rates := ⟨2 ^ 36, 2 ^ 36, by norm_num, by norm_num⟩

/-- The events of a second's wake at those rates. -/
def fastSecond : List ClockEvent :=
  [.wake (.finite 0) fun _ => none, .setRates tooFast, .wake (.finite 1) fun _ => none]

theorem sixty_owed : ¬ 1 / sixty.sim - stepEpsilon ≤ 0 := by
  norm_num [sixty, stepEpsilon]

theorem driver_first : (Driver.new sixty).pump (.finite 0) (fun _ => none) =
    ({ Driver.new sixty with lastNow := some 0 }, ⟨[], false, 0⟩) := by
  have hidle (n left : ℕ) (d : Driver) (hd : d.accumulator = 0) :
      Driver.pumpLoop (1 / sixty.sim) (1 / sixty.sim - stepEpsilon) n (fun _ => none) left 0 d = (d, []) := by
    cases left with
    | zero => rfl
    | succ left => rw [Driver.pumpLoop, hd, if_neg sixty_owed]
  simp only [Driver.pump, Driver.new, Option.getD_none, sub_self, max_self, add_zero]
  rw [hidle _ _ _ rfl, if_neg fun h => sixty_owed h.2]

theorem clock_first : (Clock.new sixty).turn (.finite 0) (fun _ => none) =
    ({ Clock.new sixty with lastNow := some 0 }, ⟨[], false, 0⟩) := by
  have hidle (n left : ℕ) (c : Clock) (hc : c.accumulator = 0) :
      Clock.wakeLoop (1 / sixty.sim) (1 / sixty.sim - stepEpsilon) n left c = (c, []) := by
    cases left with
    | zero => rfl
    | succ left => rw [Clock.wakeLoop, hc, if_neg sixty_owed]
  simp only [Clock.turn, Clock.wake, Clock.new, Option.getD_none, sub_self, max_self, add_zero]
  rw [hidle _ _ _ rfl, if_neg fun h => sixty_owed h.2]
  rfl

/-- No wake of the host on a box takes more steps than a `u32` holds. -/
theorem steps_turn_le (c : Clock) (now : JsNumber) (retune : Retune) : (c.turn now retune).2.steps ≤ maxU32 := by
  cases now with
  | finite now =>
    have hlength := length_wakeLoop (1 / c.rates.sim) (1 / c.rates.sim - stepEpsilon)
      (Clock.ticksPerSend c.rates.sim c.rates.send) (Clock.maxStepsPerWake c.rates.sim)
      { c with
        nowSeconds := now
        accumulator := c.accumulator + max (now - c.lastNow.getD now) 0
        lastNow := some now }
    have hcap : Clock.maxStepsPerWake c.rates.sim ≤ maxU32 := min_le_right _ _
    unfold Clock.turn Clock.wake
    dsimp only
    split_ifs with hshed
    · exact hlength.trans hcap
    · exact hlength.trans hcap
  | nan | posInfinity | negInfinity => exact Nat.zero_le _

theorem tooFast_cap : Driver.maxStepsPerWake tooFast.sim = 2 ^ 34 := by
  have hceil : ⌈maxCatchupMs / 1000 * tooFast.sim⌉ = 2 ^ 34 := by norm_num [maxCatchupMs, tooFast]
  rw [Driver.maxStepsPerWake, hceil]
  omega

theorem steps_pump (d : Driver) (now : ℚ) (retune : Retune) : (d.pump (.finite now) retune).2.steps =
    (Driver.pumpLoop (1 / d.rates.sim) (1 / d.rates.sim - stepEpsilon) (Driver.ticksPerSend d.rates.sim d.rates.send) retune
      (Driver.maxStepsPerWake d.rates.sim) 0
      { d with
        nowSeconds := now
        accumulator := d.accumulator + max 0 (now - d.lastNow.getD now)
        lastNow := some now }).2.length := by
  unfold Driver.pump
  dsimp only
  split_ifs with hshed
  · rfl
  · rfl

/-- After a second at those rates one host takes every step of its cap. -/
theorem steps_pump_tooFast {d : Driver} (hrates : d.rates = tooFast) (hzero : d.accumulator = 0) (hlast : d.lastNow = some 0) :
    (d.pump (.finite 1) fun _ => none).2.steps = 2 ^ 34 := by
  rw [steps_pump, length_pumpLoop, hrates, tooFast_cap]
  · rw [hrates]
    norm_num [tooFast]
  · simp only [hrates, tooFast_cap, hzero, hlast]
    norm_num [tooFast, stepEpsilon]

theorem fastSecond_apart : (Clock.run sixty fastSecond).2 ≠ (Driver.run sixty fastSecond).2 := by
  intro hsame
  have hdriver : ∃ w ∈ (Driver.run sixty fastSecond).2, w.steps = 2 ^ 34 := by
    simp only [Driver.run, fastSecond, List.foldl, Driver.step, driver_first]
    exact ⟨_, List.mem_append_right _ (List.mem_singleton_self _), steps_pump_tooFast rfl rfl rfl⟩
  have hclock : ∀ w ∈ (Clock.run sixty fastSecond).2, w.steps ≤ maxU32 := by
    simp only [Clock.run, fastSecond, List.foldl, Clock.step, clock_first, List.nil_append, List.cons_append,
      List.mem_cons, List.not_mem_nil, or_false, forall_eq_or_imp, forall_eq]
    exact ⟨Nat.zero_le _, steps_turn_le _ _ _⟩
  obtain ⟨w, hw, hsteps⟩ := hdriver
  have hle := hclock w (hsame ▸ hw)
  rw [hsteps] at hle
  exact absurd hle (by norm_num [maxU32])

end Grove.HostClock
