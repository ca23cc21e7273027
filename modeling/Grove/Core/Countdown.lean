import Grove.Core.Numbers
import Grove.Lib.Run

/-! # Countdowns

`Countdown` of `packages/core/src/runtime/wrappers.ts`: a few flags that five calls change, one of them from inside
another.  A setting is a construction or a `reset` that names seconds.  `Watched` keeps, for each setting, the
advances it ran for and the times `onZero` ran in it; a setting of no ticks is never reported (`onZero_once_iff`). -/

namespace Grove

/-- A count of ticks; one that is infinite or not a number is never used up.  Steps of one are exact below `2^53`, and
no run is as long. -/
inductive Ticks where
  | count (n : ℕ)
  | endless
deriving DecidableEq

/-- `Math.max(0, Math.round(seconds * simRate))`; `round` is the double nearest an exact product. -/
def ticksOf (round : ℚ → JsNumber) (simRate seconds : JsNumber) : Ticks :=
  match JsNumber.mul round seconds simRate with
  | .finite q => .count ⌊q + 1 / 2⌋.toNat
  | .negInfinity => .count 0
  | .posInfinity | .nan => .endless

structure Countdown where
  remainingTicks : Ticks
  running : Bool
  fired : Bool
  /-- The rate of the runtime it was built in, where there was one. -/
  rt : Option JsNumber
  /-- Whether the runtime's countdowns hold it. -/
  enrolled : Bool

def defaultSimRate : JsNumber := .finite 60

namespace Countdown

variable (round : ℚ → JsNumber) (c : Countdown)

def simRate : JsNumber := c.rt.getD defaultSimRate

def new (rt : Option JsNumber) (seconds : JsNumber) : Countdown :=
  ⟨ticksOf round (rt.getD defaultSimRate) seconds, false, false, rt, false⟩

inductive Call where
  | start
  | pause
  | reset (seconds : Option JsNumber)

def call : Call → Countdown
  | .start => { c with running := true, enrolled := c.rt.isSome || c.enrolled }
  | .pause => { c with running := false, enrolled := !c.rt.isSome && c.enrolled }
  | .reset none => { c with fired := false }
  | .reset (some seconds) => { c with remainingTicks := ticksOf round c.simRate seconds, fired := false }

/-- `advance` up to its callback, and whether that runs. -/
def tick : Countdown × Bool :=
  if !c.running || c.remainingTicks = .count 0 then (c, false)
  else
    match c.remainingTicks with
    | .endless => (c, false)
    | .count n =>
      let c := { c with remainingTicks := .count (n - 1) }
      if n - 1 = 0 && !c.fired then
        ({ c with fired := true, running := false, enrolled := !c.rt.isSome && c.enrolled }, true)
      else (c, false)

/-- `onZero` is what the callback calls. -/
def advance (onZero : List Call) : Countdown :=
  if c.tick.2 then onZero.foldl (call round) c.tick.1 else c.tick.1

/-! ### Settings -/

/-- What came of a setting: its ticks, the advances the countdown ran for in it, and how often `onZero` ran. -/
structure Setting where
  ticks : Ticks
  advances : ℕ
  reports : ℕ
deriving DecidableEq

namespace Setting

def new (ticks : Ticks) : Setting := ⟨ticks, 0, 0⟩

/-- Whether the advances have used up the ticks; a setting of none is used up by the first. -/
def usedUp (s : Setting) : Bool :=
  match s.ticks with
  | .count n => decide (max 1 n ≤ s.advances)
  | .endless => false

/-- One report when the ticks are used up, and none before. -/
def ReportsOnce (s : Setting) : Prop := s.reports = if s.usedUp then 1 else 0

instance (s : Setting) : Decidable s.ReportsOnce := inferInstanceAs (Decidable (_ = _))

/-- A setting of no ticks that was advanced. -/
def Missed (s : Setting) : Prop := s.ticks = .count 0 ∧ 0 < s.advances

instance (s : Setting) : Decidable s.Missed := inferInstanceAs (Decidable (_ ∧ _))

/-- What the code does report. -/
def Kept (s : Setting) : Prop := s.reports = if s.usedUp ∧ s.ticks ≠ .count 0 then 1 else 0

theorem Kept.reportsOnce_iff {s : Setting} (h : s.Kept) : s.ReportsOnce ↔ ¬ s.Missed := by
  obtain ⟨ticks, advances, reports⟩ := s
  rw [Kept] at h
  rw [ReportsOnce, Missed]
  cases ticks with
  | endless => simp_all [usedUp]
  | count n =>
    simp only [usedUp, decide_eq_true_eq, ne_eq, Ticks.count.injEq] at h ⊢
    split_ifs at h ⊢ <;> omega

end Setting

/-- A countdown with its settings, the newest apart. -/
structure Watched where
  countdown : Countdown
  setting : Setting
  earlier : List Setting

inductive Event where
  | call (c : Call)
  | advance (onZero : List Call)

namespace Watched

variable (w : Watched)

def new (rt : Option JsNumber) (seconds : JsNumber) : Watched :=
  ⟨.new round rt seconds, .new (ticksOf round (rt.getD defaultSimRate) seconds), []⟩

def call (c : Call) : Watched :=
  match c with
  | .reset (some seconds) =>
    ⟨w.countdown.call round c, .new (ticksOf round w.countdown.simRate seconds), w.setting :: w.earlier⟩
  | _ => { w with countdown := w.countdown.call round c }

def tick : Watched :=
  { w with
    countdown := w.countdown.tick.1
    setting :=
      { w.setting with
        advances := if w.countdown.running then w.setting.advances + 1 else w.setting.advances
        reports := if w.countdown.tick.2 then w.setting.reports + 1 else w.setting.reports } }

def step : Event → Watched
  | .call c => w.call round c
  | .advance onZero => if w.countdown.tick.2 then onZero.foldl (call round) w.tick else w.tick

def settings : List Setting := w.setting :: w.earlier

theorem countdown_call (c : Call) : (w.call round c).countdown = w.countdown.call round c := by
  cases c with
  | start => rfl
  | pause => rfl
  | reset seconds => cases seconds <;> rfl

theorem countdown_calls : ∀ (calls : List Call) (w : Watched),
    (calls.foldl (call round) w).countdown = calls.foldl (Countdown.call round) w.countdown
  | [], _ => rfl
  | c :: calls, w => by rw [List.foldl_cons, List.foldl_cons, countdown_calls calls, countdown_call]

/-- The countdown watched goes through the calls of the code. -/
theorem countdown_step (e : Event) : (w.step round e).countdown =
    match e with
    | .call c => w.countdown.call round c
    | .advance onZero => w.countdown.advance round onZero := by
  cases e with
  | call c => exact w.countdown_call round c
  | advance onZero =>
    show (if w.countdown.tick.2 then onZero.foldl (call round) w.tick else w.tick).countdown = w.countdown.advance round onZero
    rw [Countdown.advance]
    split_ifs
    · exact countdown_calls round onZero w.tick
    · rfl

/-! ### What holds between two calls -/

/-- The newest setting against the ticks that remain. -/
def Settled (c : Countdown) (s : Setting) : Prop :=
  match s.ticks with
  | .endless => c.remainingTicks = .endless ∧ s.reports = 0
  | .count n =>
    (s.reports = 0 ∧ s.advances < n ∧ c.remainingTicks = .count (n - s.advances) ∧ c.fired = false) ∨
    (s.reports = 0 ∧ n = 0 ∧ c.remainingTicks = .count 0) ∨
    (s.reports = 1 ∧ 0 < n ∧ n ≤ s.advances ∧ c.remainingTicks = .count 0)

structure Inv : Prop where
  settled : Settled w.countdown w.setting
  earlier : ∀ s ∈ w.earlier, s.Kept
  enrolled : w.countdown.running → w.countdown.rt.isSome → w.countdown.enrolled

variable {round} {w}

theorem Settled.kept {c : Countdown} {s : Setting} (h : Settled c s) : s.Kept := by
  obtain ⟨ticks, advances, reports⟩ := s
  cases ticks with
  | endless => exact h.2
  | count n =>
    simp only [Settled] at h
    simp only [Setting.Kept, Setting.usedUp, decide_eq_true_eq, ne_eq, Ticks.count.injEq]
    split_ifs <;> omega

theorem settled_new {c : Countdown} (h : c.fired = false) : Settled c (.new c.remainingTicks) := by
  unfold Settled Setting.new
  cases hticks : c.remainingTicks with
  | endless => exact ⟨rfl, rfl⟩
  | count n =>
    obtain rfl | hn := Nat.eq_zero_or_pos n
    · exact .inr (.inl ⟨rfl, rfl, rfl⟩)
    · exact .inl ⟨rfl, hn, rfl, h⟩

theorem Inv.kept (h : w.Inv) : ∀ s ∈ w.settings, s.Kept := by
  intro s hs
  obtain rfl | hs := List.mem_cons.mp hs
  · exact h.settled.kept
  · exact h.earlier s hs

theorem inv_new (rt : Option JsNumber) (seconds : JsNumber) : (new round rt seconds).Inv where
  settled := settled_new (c := .new round rt seconds) rfl
  earlier := by simp [new]
  enrolled := by simp [new, Countdown.new]

/-- A call that leaves the ticks as they are. -/
theorem Settled.call {c c' : Countdown} {s : Setting} (h : Settled c s) (hticks : c'.remainingTicks = c.remainingTicks)
    (hfired : c.fired = false → c'.fired = false) : Settled c' s := by
  unfold Settled at h ⊢
  rw [hticks]
  split at h
  · exact h
  · exact h.imp_left fun ⟨hreports, hlt, hremaining, hf⟩ => ⟨hreports, hlt, hremaining, hfired hf⟩

theorem Inv.call (h : w.Inv) (c : Call) : (w.call round c).Inv := by
  obtain ⟨hsettled, hearlier, henrolled⟩ := h
  cases c with
  | start => exact ⟨hsettled.call rfl id, hearlier, fun _ hrt => by simpa [Watched.call, Countdown.call] using .inl hrt⟩
  | pause => exact ⟨hsettled.call rfl id, hearlier, fun hrunning => by cases hrunning⟩
  | reset seconds =>
    cases seconds with
    | none => exact ⟨hsettled.call rfl fun _ => rfl, hearlier, henrolled⟩
    | some seconds =>
      exact ⟨settled_new (c := w.countdown.call round (.reset (some seconds))) rfl,
        List.forall_mem_cons.mpr ⟨hsettled.kept, hearlier⟩, henrolled⟩

theorem Inv.calls : ∀ (calls : List Call) {w : Watched}, w.Inv → (calls.foldl (Watched.call round) w).Inv
  | [], _, h => h
  | c :: calls, _, h => Inv.calls calls (h.call c)

theorem tick_paused {c : Countdown} (h : c.running = false) : c.tick = (c, false) := by
  unfold Countdown.tick
  rw [if_pos (by simp [h])]

theorem tick_zero {c : Countdown} (h : c.remainingTicks = .count 0) : c.tick = (c, false) := by
  unfold Countdown.tick
  rw [if_pos (by simp [h])]

theorem tick_endless {c : Countdown} (h : c.remainingTicks = .endless) : c.tick = (c, false) := by
  unfold Countdown.tick
  split_ifs
  · rfl
  · rw [h]

theorem tick_count {c : Countdown} {n : ℕ} (hrunning : c.running = true) (h : c.remainingTicks = .count (n + 2)) :
    c.tick = ({ c with remainingTicks := .count (n + 1) }, false) := by
  unfold Countdown.tick
  rw [if_neg (by simp [hrunning, h]), h]
  rfl

theorem tick_last {c : Countdown} (hrunning : c.running = true) (h : c.remainingTicks = .count 1) (hfired : c.fired = false) :
    c.tick = (⟨.count 0, false, true, c.rt, !c.rt.isSome && c.enrolled⟩, true) := by
  unfold Countdown.tick
  rw [if_neg (by simp [hrunning, h]), h]
  simp [hfired]

/-- A paused countdown is not advanced; a running one is, and reports with its last tick. -/
theorem Settled.tick {w : Watched} (h : Settled w.countdown w.setting) : Settled w.tick.countdown w.tick.setting := by
  obtain ⟨c, ⟨ticks, advances, reports⟩, earlier⟩ := w
  simp only at h
  cases hrunning : c.running with
  | false => simpa [Watched.tick, tick_paused hrunning, hrunning] using h
  | true =>
    cases ticks with
    | endless => simpa [Watched.tick, tick_endless h.1, Settled] using h
    | count n =>
      obtain ⟨rfl, hlt, hremaining, hfired⟩ | ⟨rfl, rfl, hremaining⟩ | ⟨rfl, hn, hle, hremaining⟩ := h
      · simp only at hlt hremaining
        obtain ⟨k, rfl⟩ := Nat.exists_eq_add_of_lt hlt
        rw [show advances + k + 1 - advances = k + 1 by omega] at hremaining
        cases k with
        | zero =>
          -- The last tick.
          simp only [Watched.tick, tick_last hrunning hremaining hfired, hrunning, if_true]
          exact .inr (.inr ⟨rfl, by omega, le_rfl, rfl⟩)
        | succ k =>
          simp only [Watched.tick, tick_count hrunning hremaining, hrunning, if_true]
          have hleft : advances + (k + 1) + 1 - (advances + 1) = k + 1 := by omega
          exact .inl ⟨rfl, by simp only; omega, by simp only [hleft], hfired⟩
      · simp only [Watched.tick, tick_zero hremaining]
        exact .inr (.inl ⟨rfl, rfl, hremaining⟩)
      · simp only [Watched.tick, tick_zero hremaining, hrunning, if_true]
        exact .inr (.inr ⟨rfl, hn, hle.trans (Nat.le_succ _), hremaining⟩)

theorem tick_enrolled {c : Countdown} (h : c.running → c.rt.isSome → c.enrolled) :
    c.tick.1.running → c.tick.1.rt.isSome → c.tick.1.enrolled := by
  unfold Countdown.tick
  split_ifs
  · exact h
  · split
    · exact h
    · dsimp only
      split_ifs
      · exact fun hrunning => by cases hrunning
      · exact h

theorem Inv.tick (h : w.Inv) : w.tick.Inv := ⟨h.settled.tick, h.earlier, tick_enrolled h.enrolled⟩

theorem Inv.step (h : w.Inv) (e : Event) : (w.step round e).Inv := by
  cases e with
  | call c => exact h.call c
  | advance onZero =>
    show Inv (if w.countdown.tick.2 then onZero.foldl (Watched.call round) w.tick else w.tick)
    split_ifs
    · exact Inv.calls onZero h.tick
    · exact h.tick

/-! ### The settings that are never reported -/

/-- No advance comes while the countdown is running in a setting of no ticks. -/
def HasTicks (w : Watched) : Event → Prop
  | .call _ => True
  | .advance _ => w.countdown.running → w.setting.ticks ≠ .count 0

instance (w : Watched) : DecidablePred (HasTicks w)
  | .call _ => inferInstanceAs (Decidable True)
  | .advance _ => inferInstanceAs (Decidable (_ → _))

/-- Every setting is told by the advances it ran for, and what is owed can come. -/
structure ReportsOnce (w : Watched) : Prop where
  reports : ∀ s ∈ w.settings, s.ReportsOnce
  enrolled : w.countdown.running → w.setting.reports = 0 → w.countdown.rt.isSome → w.countdown.enrolled

def Missed (w : Watched) : Prop := ∃ s ∈ w.settings, s.Missed

theorem Inv.reportsOnce_iff (h : w.Inv) : w.ReportsOnce ↔ ¬ w.Missed := by
  constructor
  · rintro hreports ⟨s, hs, hmissed⟩
    exact (h.kept s hs).reportsOnce_iff.mp (hreports.reports s hs) hmissed
  · intro hmissed
    exact ⟨fun s hs => (h.kept s hs).reportsOnce_iff.mpr fun hs' => hmissed ⟨s, hs, hs'⟩, fun hrunning _ => h.enrolled hrunning⟩

theorem missed_call (w : Watched) (c : Call) : (w.call round c).Missed ↔ w.Missed := by
  cases c with
  | start | pause => exact Iff.rfl
  | reset seconds =>
    cases seconds with
    | none => exact Iff.rfl
    | some seconds =>
      simp [Missed, settings, Watched.call, Setting.Missed, Setting.new]

theorem missed_calls : ∀ (calls : List Call) (w : Watched), (calls.foldl (Watched.call round) w).Missed ↔ w.Missed
  | [], _ => Iff.rfl
  | c :: calls, w => by rw [List.foldl_cons, missed_calls calls, missed_call]

theorem missed_tick (w : Watched) :
    w.tick.Missed ↔ w.Missed ∨ (w.countdown.running ∧ w.setting.ticks = .count 0) := by
  unfold Missed settings
  rw [List.exists_mem_cons_iff, List.exists_mem_cons_iff]
  simp only [Watched.tick, Setting.Missed]
  split_ifs with hrunning
  · by_cases hticks : w.setting.ticks = .count 0 <;> simp [hticks, hrunning]
  · simp [hrunning]

theorem missed_step (w : Watched) (e : Event) : (w.step round e).Missed ↔ w.Missed ∨ ¬ HasTicks w e := by
  cases e with
  | call c => simp [step, missed_call, HasTicks]
  | advance onZero =>
    have htick : (w.step round (.advance onZero)).Missed ↔ w.tick.Missed := by
      show Missed (if w.countdown.tick.2 then onZero.foldl (Watched.call round) w.tick else w.tick) ↔ _
      split_ifs
      · exact missed_calls onZero w.tick
      · exact Iff.rfl
    rw [htick, missed_tick, HasTicks]
    tauto

theorem missed_run : ∀ (es : List Event) (w : Watched),
    (exec (step round) w es).Missed ↔ w.Missed ∨ ¬ Meets (step round) HasTicks w es
  | [], w => by simp [Meets]
  | e :: es, w => by
    rw [exec_cons, missed_run es, missed_step, Meets]
    tauto

end Watched

/-- Over every run: `onZero` runs once for each setting whose ticks are used up and not before, and a running countdown
that owes it is enrolled, when and only when no setting of no ticks is advanced. -/
theorem onZero_once_iff (rt : Option JsNumber) (seconds : JsNumber) (es : List Event) :
    (exec (Watched.step round) (Watched.new round rt seconds) es).ReportsOnce ↔
      Meets (Watched.step round) Watched.HasTicks (Watched.new round rt seconds) es := by
  have hinv : (exec (Watched.step round) (Watched.new round rt seconds) es).Inv :=
    exec_invariant (fun _ e h => h.step e) (Watched.inv_new rt seconds) es
  have hnew : ¬ (Watched.new round rt seconds).Missed := by
    simp [Watched.Missed, Watched.settings, Watched.new, Setting.Missed, Setting.new]
  rw [hinv.reportsOnce_iff, Watched.missed_run]
  tauto

/-- `new Countdown(0)`, started and advanced. -/
theorem zero_not_reported : ¬ (exec (Watched.step .finite) (Watched.new .finite (some (.finite 60)) (.finite 0))
    [.call .start, .advance []]).ReportsOnce := by
  intro h
  have hrun : (exec (Watched.step .finite) (Watched.new .finite (some (.finite 60)) (.finite 0))
      [.call .start, .advance []]).setting = ⟨.count 0, 1, 0⟩ := by decide +kernel
  have hreports := h.reports _ List.mem_cons_self
  rw [hrun] at hreports
  exact absurd hreports (by decide)

end Countdown
end Grove
