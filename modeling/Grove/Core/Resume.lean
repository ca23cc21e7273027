import Grove.Core.ScopeTree
import Grove.Lib.Run

/-! # What resumes behind an engine awaitable

`resumeWith` of `packages/core/src/dispatch/ambient.ts`, over the job queue of promises.  An awaitable is the promise
`resumeWith` returns: when the promise it wraps settles, a job restores the ambient it was made under and settles
the awaitable, and only then is the code that waits for it queued, as a job of its own.

Jobs run one at a time, when no other code is running.  The code of a job or of a task may enter dispatches and guarded
callbacks, which set the ambient and put it back (`outer`), make awaitables, wait for one, and settle what one wraps. -/

namespace Grove

inductive Job where
  /-- The reaction `resumeWith` registered. -/
  | restore (awaitable : ℕ)
  /-- Code that waits for an awaitable. -/
  | resume (awaitable : ℕ)
  /-- A reaction to any other promise. -/
  | other
deriving DecidableEq

structure Jobs where
  /-- `currentInvocation`. -/
  current : Option ScopeId
  /-- The ambients that the dispatches and guarded callbacks under way are to put back. -/
  outer : List (Option ScopeId)
  running : Bool
  queue : List Job
  /-- What each awaitable's `made` is, in the order they were made. -/
  made : List (Option ScopeId)
  /-- The awaitables whose promise has settled, the last one first. -/
  settled : List ℕ
  /-- The awaitables that have settled themselves. -/
  restored : List ℕ
  /-- The awaitables waited for, in order. -/
  waiting : List ℕ
deriving DecidableEq

namespace Jobs

def create (current : Option ScopeId) : Jobs := ⟨current, [], false, [], [], [], [], []⟩

variable (s : Jobs)

def madeOf (a : ℕ) : Option ScopeId := (s.made[a]?).getD none

inductive Event where
  /-- The event loop starts a task. -/
  | task
  /-- The running code returns to the loop. -/
  | finish
  | enter (invocation : Option ScopeId)
  | leave
  | resumeWith
  | wait (awaitable : ℕ)
  /-- The promise an awaitable wraps settles. -/
  | settle (awaitable : ℕ)
  /-- A reaction to another promise is queued. -/
  | react
  /-- The next job runs. -/
  | job

def runJob : Jobs :=
  match s.queue with
  | [] => s
  | .restore a :: queue =>
    { s with
      current := s.madeOf a
      queue := queue ++ (s.waiting.filter (· = a)).map .resume
      waiting := s.waiting.filter (· ≠ a)
      restored := a :: s.restored }
  | .resume _ :: queue | .other :: queue => { s with queue := queue, running := true }

/-- What the running code does. -/
def runCode (s : Jobs) : Event → Jobs
  | .finish => if s.outer = [] then { s with running := false } else s
  | .enter invocation => { s with current := invocation, outer := s.current :: s.outer }
  | .leave =>
    match s.outer with
    | [] => s
    | current :: outer => { s with current := current, outer := outer }
  | .resumeWith => { s with made := s.made ++ [s.current] }
  | .wait a =>
    if a ∈ s.restored then { s with queue := s.queue ++ [.resume a] }
    else if a < s.made.length then { s with waiting := s.waiting ++ [a] }
    else s
  | .settle a =>
    if a < s.made.length ∧ a ∉ s.settled then { s with settled := a :: s.settled, queue := s.queue ++ [.restore a] } else s
  | .react => { s with queue := s.queue ++ [.other] }
  | .task | .job => s

def step (s : Jobs) (e : Event) : Jobs :=
  if s.running then s.runCode e
  else
    match e with
    | .task => if s.queue = [] then { s with running := true } else s
    | .job => s.runJob
    | _ => s

/-! ### The order in which promises settle -/

/-- The job queue has been emptied. -/
def Idle : Prop := s.running = false ∧ s.queue = []

/-- The ambient of the promise that settled last, `start` if none has. -/
def lastMade (start : Option ScopeId) : Option ScopeId :=
  match s.settled with
  | [] => start
  | a :: _ => s.madeOf a

/-- The awaitable that the step queues waiting code behind. -/
def queues (s : Jobs) : Event → Option ℕ
  | .wait a => if s.running ∧ a ∈ s.restored then some a else none
  | .job =>
    match s.queue with
    | .restore a :: _ => if s.running = false ∧ a ∈ s.waiting then some a else none
    | _ => none
  | _ => none

/-- Whether the step leaves the job queue empty, and no code running. -/
def empties (s : Jobs) : Event → Bool
  | .finish => s.running && decide (s.outer = []) && decide (s.queue = [])
  | .job =>
    match s.queue with
    | [.restore a] => !s.running && decide (a ∉ s.waiting)
    | _ => false
  | _ => false

/-- Where code is queued behind an awaitable, the promise that settled last was wrapped in the same invocation as it,
and where the queue empties, under the ambient there was at the start. -/
def InTurn (start : Option ScopeId) (s : Jobs) (e : Event) : Prop :=
  (∀ a ∈ s.queues e, s.lastMade start = s.madeOf a) ∧ (s.empties e = true → s.lastMade start = start)

instance (start : Option ScopeId) (s : Jobs) (e : Event) : Decidable (InTurn start s e) :=
  inferInstanceAs (Decidable ((∀ a ∈ s.queues e, s.lastMade start = s.madeOf a) ∧ (s.empties e = true → s.lastMade start = start)))

/-- **What `resumeWith` is for**, of a whole run: code that waits for an awaitable goes on in the invocation it was made
in, and when the job queue is empty the ambient is what it was before. -/
structure AmbientKept (start : Option ScopeId) (es : List Event) : Prop where
  resumes : ∀ {before after a}, es = before ++ .job :: after → (exec step (create start) before).running = false →
    (exec step (create start) before).queue.head? = some (.resume a) →
    (exec step (create start) (before ++ [.job])).current = (exec step (create start) (before ++ [.job])).madeOf a
  empties : ∀ {before after}, es = before ++ after → (exec step (create start) before).Idle →
    (exec step (create start) before).current = start

/-! ### The ambient the queue leads to -/

/-- The ambient once the running code has returned. -/
def base : Option ScopeId := (s.outer.getLast?).getD s.current

/-- The ambient after these jobs' restores. -/
def ambientAfter (madeOf : ℕ → Option ScopeId) : List Job → Option ScopeId → Option ScopeId
  | [], c => c
  | .restore a :: queue, _ => ambientAfter madeOf queue (madeOf a)
  | .resume _ :: queue, c | .other :: queue, c => ambientAfter madeOf queue c

structure Ordered (start : Option ScopeId) (s : Jobs) : Prop where
  bound : ∀ {a}, a ∈ s.settled → a < s.made.length
  queued : ∀ {a}, .restore a ∈ s.queue ∨ .resume a ∈ s.queue → a ∈ s.settled
  restored : ∀ {a}, a ∈ s.restored → a ∈ s.settled
  still : s.running = false → s.outer = []
  /-- The queue leads to the ambient of the promise that settled last. -/
  leads : ambientAfter s.madeOf s.queue s.base = s.lastMade start
  /-- What is queued behind an awaitable will find its ambient. -/
  finds : ∀ {before a after}, s.queue = before ++ .resume a :: after → ambientAfter s.madeOf before s.base = s.madeOf a
  idle : s.Idle → s.lastMade start = start

section

variable {s} {start : Option ScopeId}

theorem ambientAfter_append (madeOf : ℕ → Option ScopeId) (queue queue' : List Job) (c : Option ScopeId) :
    ambientAfter madeOf (queue ++ queue') c = ambientAfter madeOf queue' (ambientAfter madeOf queue c) := by
  induction queue generalizing c with
  | nil => rfl
  | cons j queue ih => cases j <;> exact ih _

theorem ambientAfter_resumes (madeOf : ℕ → Option ScopeId) (waiting : List ℕ) (c : Option ScopeId) :
    ambientAfter madeOf (waiting.map .resume) c = c := by
  induction waiting with
  | nil => rfl
  | cons a waiting ih => exact ih

theorem ambientAfter_congr {madeOf madeOf' : ℕ → Option ScopeId} {queue : List Job}
    (h : ∀ a, .restore a ∈ queue → madeOf' a = madeOf a) (c : Option ScopeId) :
    ambientAfter madeOf' queue c = ambientAfter madeOf queue c := by
  induction queue generalizing c with
  | nil => rfl
  | cons j queue ih =>
    have ih := ih (fun a ha => h a (List.mem_cons_of_mem _ ha))
    cases j with
    | restore a =>
      show ambientAfter madeOf' queue (madeOf' a) = ambientAfter madeOf queue (madeOf a)
      rw [h a List.mem_cons_self]
      exact ih _
    | resume | other => exact ih c

theorem ordered_create : Ordered start (create start) :=
  ⟨fun h => absurd h List.not_mem_nil, fun h => by rcases h with h | h <;> exact absurd h List.not_mem_nil,
    fun h => absurd h List.not_mem_nil, fun _ => rfl, rfl,
    fun h => absurd (congrArg List.length h) (by simp [create]), fun _ => rfl⟩

/-- More code at the end of the queue, behind an awaitable of the promise that settled last or behind none. -/
theorem finds_append {queue : List Job} {madeOf : ℕ → Option ScopeId} {c last : Option ScopeId}
    (hfinds : ∀ {before a after}, queue = before ++ .resume a :: after → ambientAfter madeOf before c = madeOf a)
    (hleads : ambientAfter madeOf queue c = last) {more : List Job}
    (hmore : ∀ {before a after}, more = before ++ .resume a :: after →
      ambientAfter madeOf before last = madeOf a) {before : List Job} {a : ℕ} {after : List Job}
    (h : queue ++ more = before ++ .resume a :: after) : ambientAfter madeOf before c = madeOf a := by
  rcases List.append_eq_append_iff.mp h with ⟨rest, rfl, hrest⟩ | ⟨rest, rfl, hrest⟩
  · rw [ambientAfter_append, hleads]
    exact hmore hrest
  · cases rest with
    | nil =>
      have := @hmore [] a after hrest.symm
      rw [List.append_nil] at hleads
      rw [hleads]
      exact this
    | cons j rest =>
      obtain ⟨hj, -⟩ := List.cons.inj hrest
      subst hj
      exact hfinds rfl

theorem base_enter (invocation : Option ScopeId) :
    ({ s with current := invocation, outer := s.current :: s.outer } : Jobs).base = s.base := by
  unfold base
  cases h : s.outer with
  | nil => rfl
  | cons c outer =>
    show ((s.current :: c :: outer).getLast?).getD invocation = ((c :: outer).getLast?).getD s.current
    rw [List.getLast?_cons_cons, List.getLast?_eq_some_getLast (List.cons_ne_nil c outer)]
    rfl

theorem base_leave {c : Option ScopeId} {outer : List (Option ScopeId)} (houter : s.outer = c :: outer) :
    ({ s with current := c, outer := outer } : Jobs).base = s.base := by
  unfold base
  rw [houter]
  cases outer with
  | nil => rfl
  | cons c' outer =>
    show ((c' :: outer).getLast?).getD c = ((c :: c' :: outer).getLast?).getD s.current
    rw [List.getLast?_cons_cons, List.getLast?_eq_some_getLast (List.cons_ne_nil c' outer)]
    rfl

/-- Where the running code changes neither the queue nor what is made, and leaves the base as it is. -/
theorem Ordered.code {t : Jobs} (h : Ordered start s) (hqueue : t.queue = s.queue) (hmade : t.made = s.made)
    (hsettled : t.settled = s.settled) (hrestored : t.restored = s.restored) (hrunning : t.running = true)
    (hbase : t.base = s.base) : Ordered start t := by
  have hmadeOf : t.madeOf = s.madeOf := by
    funext a
    unfold madeOf
    rw [hmade]
  have hlast : t.lastMade start = s.lastMade start := by
    unfold lastMade
    rw [hsettled, hmadeOf]
  refine ⟨fun ha => ?_, fun ha => ?_, fun ha => ?_, fun hr => ?_, ?_, fun hq => ?_, fun hi => ?_⟩
  · rw [hmade]
    exact h.bound (hsettled ▸ ha)
  · rw [hsettled]
    exact h.queued (hqueue ▸ ha)
  · rw [hsettled]
    exact h.restored (hrestored ▸ ha)
  · rw [hrunning] at hr
    cases hr
  · rw [hqueue, hmadeOf, hbase, hlast]
    exact h.leads
  · rw [hmadeOf, hbase]
    exact h.finds (hqueue.symm.trans hq)
  · have hr := hi.1
    rw [hrunning] at hr
    cases hr

/-- Making an awaitable gives a new one. -/
theorem Ordered.resumeWith (h : Ordered start s) (hrunning : s.running = true) :
    Ordered start { s with made := s.made ++ [s.current] } := by
  have hmadeOf : ∀ {a}, a ∈ s.settled → ({ s with made := s.made ++ [s.current] } : Jobs).madeOf a = s.madeOf a := by
    intro a ha
    show ((s.made ++ [s.current])[a]?).getD none = (s.made[a]?).getD none
    rw [List.getElem?_append_left (h.bound ha)]
  have hlast : ({ s with made := s.made ++ [s.current] } : Jobs).lastMade start = s.lastMade start := by
    unfold lastMade
    cases hs : s.settled with
    | nil => rfl
    | cons a settled => exact hmadeOf (by rw [hs]; exact List.mem_cons_self)
  refine ⟨fun ha => ?_, h.queued, h.restored, h.still, ?_, fun {before a after} hq => ?_, fun hi => ?_⟩
  · show _ < (s.made ++ [s.current]).length
    rw [List.length_append]
    exact Nat.lt_add_right _ (h.bound ha)
  · rw [hlast, ← h.leads]
    exact ambientAfter_congr (fun a ha => hmadeOf (h.queued (Or.inl ha))) _
  · change s.queue = before ++ .resume a :: after at hq
    rw [hmadeOf (h.queued (Or.inr (by rw [hq]; exact List.mem_append_right _ List.mem_cons_self))), ← h.finds hq]
    refine ambientAfter_congr (fun a ha => hmadeOf (h.queued (Or.inl ?_))) _
    rw [hq]
    exact List.mem_append_left _ ha
  · have hr := hi.1
    change s.running = false at hr
    rw [hrunning] at hr
    cases hr

/-- A job queued that restores nothing. -/
theorem Ordered.push (h : Ordered start s) (hrunning : s.running = true) {j : Job}
    (hj : j = .other ∨ ∃ a, j = .resume a ∧ a ∈ s.settled ∧ s.lastMade start = s.madeOf a) :
    Ordered start { s with queue := s.queue ++ [j] } := by
  refine ⟨h.bound, fun {a} ha => ?_, h.restored, h.still, ?_, fun hq => ?_, fun hi => ?_⟩
  · simp only [List.mem_append, List.mem_singleton] at ha
    rcases hj with rfl | ⟨b, rfl, hb, -⟩
    · rcases ha with (ha | ha) | (ha | ha)
      · exact h.queued (Or.inl ha)
      · cases ha
      · exact h.queued (Or.inr ha)
      · cases ha
    · rcases ha with (ha | ha) | (ha | ha)
      · exact h.queued (Or.inl ha)
      · cases ha
      · exact h.queued (Or.inr ha)
      · cases ha
        exact hb
  · show ambientAfter s.madeOf (s.queue ++ [j]) s.base = s.lastMade start
    rw [ambientAfter_append, h.leads]
    rcases hj with rfl | ⟨b, rfl, -⟩ <;> rfl
  · refine finds_append h.finds h.leads (fun {before a after} hmore => ?_) hq
    cases before with
    | cons j' before =>
      have hlen := congrArg List.length hmore
      simp at hlen
    | nil =>
      obtain ⟨rfl, -⟩ := List.cons.inj hmore
      rcases hj with hj | ⟨b, hb, -, hlast⟩
      · cases hj
      · cases hb
        exact hlast
  · have hr := hi.1
    change s.running = false at hr
    rw [hrunning] at hr
    cases hr

/-- A promise settles: its awaitable's ambient is the one the queue leads to. -/
theorem Ordered.settle (h : Ordered start s) (hrunning : s.running = true) {a : ℕ} (ha : a < s.made.length) :
    Ordered start { s with settled := a :: s.settled, queue := s.queue ++ [.restore a] } := by
  refine ⟨fun {b} hb => ?_, fun {b} hb => ?_, fun hb => List.mem_cons_of_mem _ (h.restored hb), h.still, ?_, fun hq => ?_,
    fun hi => ?_⟩
  · rcases List.mem_cons.mp hb with rfl | hb
    · exact ha
    · exact h.bound hb
  · simp only [List.mem_append, List.mem_singleton] at hb
    rcases hb with (hb | hb) | (hb | hb)
    · exact List.mem_cons_of_mem _ (h.queued (Or.inl hb))
    · cases hb
      exact List.mem_cons_self
    · exact List.mem_cons_of_mem _ (h.queued (Or.inr hb))
    · cases hb
  · show ambientAfter s.madeOf (s.queue ++ [.restore a]) s.base = s.madeOf a
    rw [ambientAfter_append]
    rfl
  · refine finds_append h.finds h.leads (fun {before b after} hmore => ?_) hq
    have hmem : Job.resume b ∈ [Job.restore a] := by
      rw [hmore]
      exact List.mem_append_right _ List.mem_cons_self
    cases List.mem_singleton.mp hmem
  · have hr := hi.1
    change s.running = false at hr
    rw [hrunning] at hr
    cases hr

theorem ordered_runCode (h : Ordered start s) (hrunning : s.running = true) {e : Event} (hturn : s.InTurn start e) :
    Ordered start (s.runCode e) := by
  cases e with
  | task | job => exact h
  | finish =>
    unfold runCode
    by_cases houter : s.outer = []
    · rw [if_pos houter]
      refine ⟨h.bound, h.queued, h.restored, fun _ => houter, h.leads, h.finds, fun hi => ?_⟩
      exact hturn.2 (by simp [empties, hrunning, houter, show s.queue = [] from hi.2])
    · rw [if_neg houter]
      exact h
  | enter invocation => exact h.code rfl rfl rfl rfl hrunning (base_enter invocation)
  | leave =>
    unfold runCode
    cases houter : s.outer with
    | nil => exact h
    | cons c outer => exact h.code rfl rfl rfl rfl hrunning (base_leave houter)
  | resumeWith => exact h.resumeWith hrunning
  | wait a =>
    simp only [runCode]
    split
    · rename_i ha
      exact h.push hrunning (Or.inr ⟨a, rfl, h.restored ha, hturn.1 a (by simp [queues, hrunning, ha])⟩)
    · split
      · exact h.code rfl rfl rfl rfl hrunning rfl
      · exact h
  | settle a =>
    simp only [runCode]
    split
    · rename_i ha
      exact h.settle hrunning ha.1
    · exact h
  | react => exact h.push hrunning (Or.inl rfl)

/-- Another job than a restore is next: the rest of the queue is as before. -/
theorem Ordered.pop (h : Ordered start s) {j : Job} {queue : List Job} (hqueue : s.queue = j :: queue)
    (hj : ∀ a, j ≠ .restore a) : Ordered start { s with queue := queue, running := true } := by
  have hskip : ∀ before, ambientAfter s.madeOf (j :: before) s.base = ambientAfter s.madeOf before s.base := by
    intro before
    cases j with
    | restore a => exact absurd rfl (hj a)
    | resume a => rfl
    | other => rfl
  refine ⟨h.bound, fun ha => h.queued ?_, h.restored, nofun, ?_, fun {before a after} hq => ?_, fun hi => nomatch hi.1⟩
  · rw [hqueue]
    exact ha.imp (List.mem_cons_of_mem _) (List.mem_cons_of_mem _)
  · have hleads := h.leads
    rw [hqueue, hskip] at hleads
    exact hleads
  · change queue = before ++ .resume a :: after at hq
    have hfinds := @Ordered.finds start s h (j :: before) a after (by rw [hqueue, hq]; rfl)
    rw [hskip] at hfinds
    exact hfinds

/-- An awaitable settles: what waits for it is queued at the end. -/
theorem Ordered.restore (h : Ordered start s) (hrunning : s.running = false) {a : ℕ} {queue : List Job}
    (hqueue : s.queue = .restore a :: queue) (hturn : s.InTurn start .job) :
    Ordered start
      { s with
        current := s.madeOf a
        queue := queue ++ (s.waiting.filter (· = a)).map .resume
        waiting := s.waiting.filter (· ≠ a)
        restored := a :: s.restored } := by
  have houter := h.still hrunning
  have hsettled : a ∈ s.settled := h.queued (Or.inl (by rw [hqueue]; exact List.mem_cons_self))
  have hleads : ambientAfter s.madeOf queue (s.madeOf a) = s.lastMade start := by
    have hleads := h.leads
    rw [hqueue] at hleads
    exact hleads
  have hbase : (s.outer.getLast?).getD (s.madeOf a) = s.madeOf a := by
    rw [houter]
    rfl
  refine ⟨h.bound, fun {b} hb => ?_, fun {b} hb => ?_, fun _ => houter, ?_, fun {before b after} hq => ?_, fun hi => ?_⟩
  · simp only [List.mem_append, List.mem_map, List.mem_filter] at hb
    rcases hb with (hb | ⟨_, _, hb⟩) | (hb | ⟨c, ⟨-, hc⟩, hb⟩)
    · exact h.queued (Or.inl (by rw [hqueue]; exact List.mem_cons_of_mem _ hb))
    · cases hb
    · exact h.queued (Or.inr (by rw [hqueue]; exact List.mem_cons_of_mem _ hb))
    · cases hb
      rw [of_decide_eq_true hc]
      exact hsettled
  · rcases List.mem_cons.mp hb with rfl | hb
    · exact hsettled
    · exact h.restored hb
  · show ambientAfter s.madeOf (queue ++ (s.waiting.filter (· = a)).map .resume) ((s.outer.getLast?).getD (s.madeOf a)) =
      s.lastMade start
    rw [hbase, ambientAfter_append, ambientAfter_resumes]
    exact hleads
  · show ambientAfter s.madeOf before ((s.outer.getLast?).getD (s.madeOf a)) = s.madeOf b
    rw [hbase]
    have hfinds : ∀ {before b after}, queue = before ++ .resume b :: after →
        ambientAfter s.madeOf before (s.madeOf a) = s.madeOf b := by
      intro before b after hq
      exact @Ordered.finds start s h (.restore a :: before) b after (by rw [hqueue, hq]; rfl)
    refine finds_append hfinds hleads (fun {before b after} hmore => ?_) hq
    -- What is queued now all waits for this awaitable.
    obtain ⟨waited, rest, hwaiting, rfl, hrest⟩ := List.map_eq_append_iff.mp hmore
    obtain ⟨c, rest', rfl, hc, -⟩ := List.map_eq_cons_iff.mp hrest
    injection hc with hc
    have hmem : c ∈ s.waiting.filter (· = a) := by
      rw [hwaiting]
      exact List.mem_append_right _ List.mem_cons_self
    obtain ⟨hmem, hca⟩ := List.mem_filter.mp hmem
    have hca : c = a := of_decide_eq_true hca
    rw [ambientAfter_resumes, ← hc, hca]
    rw [hca] at hmem
    exact hturn.1 a (by simp [queues, hqueue, hrunning, hmem])
  · have hempty : queue ++ (s.waiting.filter (· = a)).map Job.resume = [] := hi.2
    obtain ⟨rfl, hnone⟩ := List.append_eq_nil_iff.mp hempty
    have hno : a ∉ s.waiting := by
      intro hmem
      have hmem : a ∈ s.waiting.filter (· = a) := List.mem_filter.mpr ⟨hmem, decide_eq_true rfl⟩
      rw [List.map_eq_nil_iff.mp hnone] at hmem
      exact List.not_mem_nil hmem
    exact hturn.2 (by simp [empties, hqueue, hrunning, hno])

theorem ordered_step (h : Ordered start s) {e : Event} (hturn : s.InTurn start e) : Ordered start (s.step e) := by
  unfold step
  cases hrunning : s.running with
  | true => exact ordered_runCode h hrunning hturn
  | false =>
    rw [if_neg (by simp)]
    cases e with
    | task =>
      dsimp only
      split
      · exact ⟨h.bound, h.queued, h.restored, nofun, h.leads, h.finds, fun hi => nomatch hi.1⟩
      · exact h
    | job =>
      show Ordered start s.runJob
      unfold runJob
      split
      · exact h
      · exact h.restore hrunning ‹_› hturn
      · rename_i hqueue
        exact h.pop hqueue nofun
      · rename_i hqueue
        exact h.pop hqueue nofun
    | finish | enter | leave | resumeWith | wait | settle | react => exact h

/-- **Resumed code runs under its own invocation**, and the ambient is kept, in a run where whatever is queued behind an
awaitable is queued in the turn of its invocation's promises. -/
theorem ambient_kept (start : Option ScopeId) (es : List Event) (hturn : Meets step (InTurn start) (create start) es) :
    AmbientKept start es := by
  have hordered : ∀ {before after}, es = before ++ after → Ordered start (exec step (create start) before) := by
    intro before after hes
    rw [hes] at hturn
    have hstep : ∀ s e, Ordered start s → InTurn start s e → Ordered start (step s e) := fun _ _ h ht => ordered_step h ht
    exact Meets.invariant hstep ordered_create (Meets.append.mp hturn).1
  constructor
  · intro before after a hes hrunning hhead
    have h := hordered hes
    rw [exec_append, exec_cons, exec_nil]
    generalize exec step (create start) before = s at *
    obtain ⟨queue, hqueue⟩ : ∃ queue, s.queue = .resume a :: queue := by
      cases hq : s.queue with
      | nil =>
        rw [hq] at hhead
        cases hhead
      | cons j queue =>
        rw [hq] at hhead
        cases hhead
        exact ⟨queue, rfl⟩
    have hfound : ambientAfter s.madeOf [] s.base = s.madeOf a := h.finds (hqueue.trans (List.nil_append _).symm)
    have hbase : s.base = s.current := by
      unfold base
      rw [h.still hrunning]
      rfl
    have hstep : s.step .job = { s with queue := queue, running := true } := by
      simp [step, runJob, hrunning, hqueue]
    rw [hstep]
    exact hbase.symm.trans hfound
  · intro before after hes hidle
    have h := hordered hes
    generalize exec step (create start) before = s at *
    have hleads := h.leads
    rw [hidle.2, h.idle hidle] at hleads
    unfold base at hleads
    rw [h.still hidle.1] at hleads
    exact hleads

end

/-- Host scope 1's handler sleeps: a dispatch under no invocation runs it, it makes the awaitable of its sleep (0), and the
dispatcher that of its promise (1). -/
def sleeper (invocation : ScopeId) (a : ℕ) : List Event :=
  [.enter (some invocation), .resumeWith, .wait a, .leave, .resumeWith]

/-- It sleeps once, and its promise settles when it goes on. -/
theorem ambient_kept_once :
    AmbientKept none ([.task] ++ sleeper 1 0 ++ [.finish, .task, .settle 0, .finish, .job, .job, .settle 1, .finish, .job]) :=
  ambient_kept none _ (by decide)

/-- Two sleepers are due in one tick: the first goes on under the second's invocation. -/
theorem sleepers_mixed :
    ¬ AmbientKept none ([.task] ++ sleeper 1 0 ++ sleeper 2 2 ++ [.finish, .task, .settle 0, .settle 2, .finish, .job, .job, .job]) := by
  intro h
  have hresumes := @AmbientKept.resumes _ _ h
    ([.task] ++ sleeper 1 0 ++ sleeper 2 2 ++ [.finish, .task, .settle 0, .settle 2, .finish, .job, .job]) [] 0 rfl rfl rfl
  revert hresumes
  decide

end Jobs
end Grove
