import Mathlib.Data.Rat.Floor

/-! # The sim's bounds

`packages/sim/src/constants.ts`.  Spans given in milliseconds become ticks through
`ticksFor`, in exact arithmetic; a rate is a positive rational. -/

namespace Grove

/-- Both sides of the tick window. -/
def inputWindowMs : ℕ := 250

/-- Milliseconds an opened session may go unjoined. -/
def joinDeadlineMs : ℕ := 5000

/-- Silence before held actions are released server-side. -/
def holdStaleMs : ℕ := 5000

/-- Input-frame token depth. -/
def inputBucketFrames : ℕ := 8

/-- Rate refusals on one connection before it is closed. -/
def rateBreachClose : ℕ := 64

/-- Token depth for `join-request` and `time-sync`. -/
def controlBucketFrames : ℕ := 4

def controlRefillMs : ℕ := 1000

/-- Distinct action names one connection may name. -/
def maxActionNames : ℕ := 64

/-- Longest accepted display name. -/
def maxNameLength : ℕ := 24

/-- Nesting past which a state value is dropped. -/
def maxStateDepth : ℕ := 64

/-- Unjoined connections held at once. -/
def maxUnjoinedConnections : ℕ := 32

/-- Ticks past the horizon that are clamped rather than refused. -/
def horizonClampTicks : ℤ := 2

/-- Structural ops one send may carry. -/
def maxStructuralOpsPerSend : ℕ := 2048

def ticksFor (ms : ℕ) (simRate : ℚ) : ℤ := max 1 ⌈(ms : ℚ) / 1000 * simRate⌉

/-- The tick window's lower bound. -/
def pastGraceTicks (simRate : ℚ) : ℤ := ticksFor inputWindowMs simRate

/-- The tick window's upper bound. -/
def futureHorizonTicks (simRate : ℚ) : ℤ := ticksFor inputWindowMs simRate

/-- Missing seqs one arrival may date. -/
def maxSeqGap (simRate : ℚ) : ℤ := pastGraceTicks simRate + futureHorizonTicks simRate + horizonClampTicks

def holdStaleTicks (simRate : ℚ) : ℤ := ticksFor holdStaleMs simRate

def controlRefillTicks (simRate : ℚ) : ℤ := ticksFor controlRefillMs simRate

def joinDeadlineTicks (simRate : ℚ) : ℤ := ticksFor joinDeadlineMs simRate

end Grove
