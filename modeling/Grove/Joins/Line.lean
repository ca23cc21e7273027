import Grove.Lib.Run

/-! # What a joining player waits on

`apps/grove/server-manager/internal/joins/line.go`: a caller of `Join` and the one worker of `Run`.
Every step below is one critical section, one channel operation or one call across a seam, and a run
takes them in any order.  All that one join touches stands on its desk; the worker is at one desk at
a time. -/

namespace Grove
namespace Joins

/-- A join's job id, minted afresh by every call of `Join`. -/
abbrev JoinId := ℕ

/-- The session a placement names. -/
abbrev Session := ℕ

/-- What `Join` returns. -/
inductive Result where
  | placed (session : Session)
  | noCapacity
  | busy
  /-- The push failed. -/
  | failed
deriving DecidableEq

/-- Where a caller is in `Join`. -/
inductive Caller where
  | absent
  /-- Registered, and in `Push`; `sent` says whether the job is in the line yet. -/
  | pushing (sent : Bool)
  | selecting
  /-- It has its result, and `abandon` is still to run. -/
  | leaving (result : Result)
  | returned (result : Result)
deriving DecidableEq

/-- Where the worker is with the join it serves. -/
inductive Stage where
  /-- It has claimed the caller, and calls `Place`. -/
  | taken
  /-- It has the fleet's answer, `none` for a refusal. -/
  | placed (answer : Option Session)
  /-- The caller was gone, and it calls `Release`. -/
  | releasing (session : Session)
deriving DecidableEq

/-- One join. -/
structure Desk where
  caller : Caller
  /-- The map of waiting callers holds it. -/
  waiting : Bool
  /-- The waiter's flag. -/
  gone : Bool
  /-- What its channel buffers. -/
  answer : Option (Option Session)
  /-- `take` has claimed it. -/
  claimed : Bool
  /-- Its caller abandoned it before it was claimed. -/
  early : Bool
  /-- How often `Place` was called for it. -/
  calls : ℕ
  /-- The placements committed for it. -/
  committed : List Session
  /-- Those handed back through `Release`. -/
  released : List Session
deriving DecidableEq

namespace Desk

def new : Desk where
  caller := .absent
  waiting := false
  gone := false
  answer := none
  claimed := false
  early := false
  calls := 0
  committed := []
  released := []

variable (d : Desk)

/-- The caller is registered before the push. -/
def enter : Desk := if d.caller = .absent then { d with caller := .pushing false, waiting := true } else d

def enqueue : Desk := if d.caller = .pushing false then { d with caller := .pushing true } else d

/-- How `Push` returned. -/
inductive Pushed where
  | accepted
  | refused
  | failed

def pushed (outcome : Pushed) : Desk :=
  match d.caller, outcome with
  | .pushing true, .accepted => { d with caller := .selecting }
  | .pushing false, .refused => { d with caller := .leaving .busy }
  | .pushing _, .failed => { d with caller := .leaving .failed }
  | _, _ => d

/-- The select takes the answer. -/
def answered : Desk :=
  match d.caller, d.answer with
  | .selecting, some (some session) => { d with caller := .leaving (.placed session), answer := none }
  | .selecting, some none => { d with caller := .leaving .noCapacity, answer := none }
  | _, _ => d

/-- The select takes the end of the context, which it may do with an answer there to read. -/
def expire : Desk := if d.caller = .selecting then { d with caller := .leaving .noCapacity } else d

def abandon : Desk :=
  match d.caller with
  | .leaving result =>
    { d with
      caller := .returned result
      waiting := false
      gone := true
      early := d.early || !d.claimed }
  | _ => d

/-- `take`, of a caller that is waiting. -/
def claim : Desk := { d with waiting := false, claimed := true }

def place (answer : Option Session) : Desk :=
  { d with calls := d.calls + 1, committed := d.committed ++ answer.toList }

/-- The answer is handed over. -/
def deliver (answer : Option Session) : Desk := { d with answer := some answer }

def release (session : Session) : Desk := { d with released := d.released ++ [session] }

end Desk

inductive Worker where
  | idle
  | popped (id : JoinId)
  | serving (id : JoinId) (stage : Stage)
deriving DecidableEq

structure Line where
  /-- The jobs in the line; the worker is handed any of them. -/
  queue : List JoinId
  desks : JoinId → Desk
  worker : Worker

namespace Line

def new : Line := ⟨[], fun _ => .new, .idle⟩

inductive Event where
  | enter (id : JoinId)
  | enqueue (id : JoinId)
  | pushed (id : JoinId) (outcome : Desk.Pushed)
  | answered (id : JoinId)
  | expire (id : JoinId)
  | abandon (id : JoinId)
  /-- A job of another run of the service, or one whose push had failed. -/
  | stray (id : JoinId)
  | pop (id : JoinId)
  | take
  | place (answer : Option Session)
  | settle
  | release

variable (l : Line)

def atDesk (id : JoinId) (f : Desk → Desk) : Line := { l with desks := Function.update l.desks id (f (l.desks id)) }

/-- `settle`, and what `serve` does with its verdict. -/
def settle (id : JoinId) (answer : Option Session) : Line :=
  if (l.desks id).gone then
    match answer with
    | none => { l with worker := .idle }
    | some session => { l with worker := .serving id (.releasing session) }
  else { l.atDesk id (fun d => d.deliver answer) with worker := .idle }

def step (l : Line) : Event → Line
  | .enter id => l.atDesk id Desk.enter
  | .enqueue id =>
    if (l.desks id).caller = .pushing false then { l.atDesk id Desk.enqueue with queue := l.queue ++ [id] } else l
  | .pushed id outcome => l.atDesk id (fun d => d.pushed outcome)
  | .answered id => l.atDesk id Desk.answered
  | .expire id => l.atDesk id Desk.expire
  | .abandon id => l.atDesk id Desk.abandon
  | .stray id => { l with queue := l.queue ++ [id] }
  | .pop id =>
    if l.worker = .idle ∧ id ∈ l.queue then { l with queue := l.queue.erase id, worker := .popped id } else l
  | .take =>
    match l.worker with
    | .popped id =>
      -- A join whose caller has already gone costs no ranking.
      if (l.desks id).waiting then { l.atDesk id Desk.claim with worker := .serving id .taken }
      else { l with worker := .idle }
    | _ => l
  | .place answer =>
    match l.worker with
    | .serving id .taken => { l.atDesk id (fun d => d.place answer) with worker := .serving id (.placed answer) }
    | _ => l
  | .settle =>
    match l.worker with
    | .serving id (.placed answer) => l.settle id answer
    | _ => l
  | .release =>
    match l.worker with
    | .serving id (.releasing session) =>
      { l.atDesk id (fun d => d.release session) with worker := .idle }
    | _ => l

/-- No placement is in the channel of a caller that leaves without having read it. -/
def Read (l : Line) : Event → Prop
  | .abandon id => (l.desks id).answer.join = none
  | _ => True

instance (l : Line) (e : Event) : Decidable (l.Read e) := by
  cases e <;> unfold Read <;> infer_instance

end Line

/-! ### One desk -/

/-- The placement the worker holds. -/
def Stage.holds : Stage → Option Session
  | .taken => none
  | .placed answer => answer
  | .releasing session => some session

def Result.holds : Result → Option Session
  | .placed session => some session
  | .noCapacity | .busy | .failed => none

def Caller.holds : Caller → Option Session
  | .leaving result | .returned result => result.holds
  | .absent | .pushing _ | .selecting => none

namespace Desk

/-- Every placement committed for the join is in one place: handed back, with the worker, in the
channel or with the caller. -/
def held (d : Desk) (stage : Option Stage) : List Session :=
  d.released ++ (stage.bind Stage.holds).toList ++ d.answer.join.toList ++ d.caller.holds.toList

/-- What holds of a desk while the worker is at `stage` with it. -/
structure Ok (d : Desk) (stage : Option Stage) : Prop where
  held : d.held stage = d.committed
  one : d.committed.length ≤ 1
  /-- No one has claimed a waiting caller. -/
  waiting : d.waiting = true → stage = none ∧ d.claimed = false ∧ d.gone = false
  unclaimed : d.claimed = false → stage = none ∧ d.answer = none ∧ d.committed = [] ∧ d.calls = 0
  /-- It is written to at most once. -/
  channel : stage ≠ none → d.answer = none
  taken : stage = some .taken → d.committed = []
  gone : d.gone = true ↔ ∃ result, d.caller = .returned result
  early : d.early = true → d.claimed = false ∧ d.waiting = false ∧ d.gone = true
  absent : d.caller = .absent → d.claimed = false ∧ d.waiting = false

theorem ok_new : Desk.new.Ok none where
  held := rfl
  one := Nat.zero_le _
  waiting := by decide
  unclaimed := fun _ => ⟨rfl, rfl, rfl, rfl⟩
  channel := fun h => absurd rfl h
  taken := by decide
  gone := by simp [new]
  early := by decide
  absent := fun _ => ⟨rfl, rfl⟩

variable {d : Desk} {stage : Option Stage}

theorem Ok.not_gone (h : d.Ok stage) (hcaller : ∀ result, d.caller ≠ .returned result) : d.gone = false := by
  rw [Bool.eq_false_iff]
  intro hgone
  obtain ⟨result, hresult⟩ := h.gone.mp hgone
  exact hcaller result hresult

/-- A caller that goes on to another place, none of whose placements moves. -/
theorem Ok.moved (h : d.Ok stage) {caller : Caller} (hholds : caller.holds = d.caller.holds)
    (hfrom : ∀ result, d.caller ≠ .returned result) (hto : ∀ result, caller ≠ .returned result)
    (habsent : caller ≠ .absent) : ({ d with caller := caller } : Desk).Ok stage where
  held := by
    have hheld := h.held
    unfold Desk.held at hheld ⊢
    rwa [hholds]
  one := h.one
  waiting := h.waiting
  unclaimed := h.unclaimed
  channel := h.channel
  taken := h.taken
  gone := by
    refine ⟨fun hgone => ?_, fun ⟨result, hresult⟩ => absurd hresult (hto result)⟩
    change d.gone = true at hgone
    rw [h.not_gone hfrom] at hgone
    cases hgone
  early := h.early
  absent := fun hnew => absurd hnew habsent

theorem Ok.enter (h : d.Ok stage) : d.enter.Ok stage := by
  unfold Desk.enter
  split_ifs with habsent
  · obtain ⟨hstage, hanswer, hcommitted, hcalls⟩ := h.unclaimed (h.absent habsent).1
    have hgone : d.gone = false := h.not_gone (fun _ hresult => by rw [habsent] at hresult; cases hresult)
    have hmoved : ({ d with caller := .pushing false } : Desk).Ok stage :=
      h.moved (by rw [habsent]; rfl) (fun _ hresult => by rw [habsent] at hresult; cases hresult) nofun nofun
    exact { hmoved with
      waiting := fun _ => ⟨hstage, (h.absent habsent).1, hgone⟩
      early := fun hearly => by
        have hgone' := (h.early hearly).2.2
        rw [hgone] at hgone'
        cases hgone'
      absent := nofun }
  · exact h

theorem Ok.enqueue (h : d.Ok stage) : d.enqueue.Ok stage := by
  unfold Desk.enqueue
  split_ifs with hcaller
  · exact h.moved (by rw [hcaller]; rfl) (fun _ hresult => by rw [hcaller] at hresult; cases hresult) nofun nofun
  · exact h

theorem Ok.pushed (h : d.Ok stage) (outcome : Pushed) : (d.pushed outcome).Ok stage := by
  unfold Desk.pushed
  split
  · next hcaller =>
      exact h.moved (by rw [hcaller]; rfl) (fun _ hresult => by rw [hcaller] at hresult; cases hresult) nofun nofun
  · next hcaller =>
      exact h.moved (by rw [hcaller]; rfl) (fun _ hresult => by rw [hcaller] at hresult; cases hresult) nofun nofun
  · next hcaller =>
      exact h.moved (by rw [hcaller]; rfl) (fun _ hresult => by rw [hcaller] at hresult; cases hresult) nofun nofun
  · exact h

theorem Ok.expire (h : d.Ok stage) : d.expire.Ok stage := by
  unfold Desk.expire
  split_ifs with hcaller
  · exact h.moved (by rw [hcaller]; rfl) (fun _ hresult => by rw [hcaller] at hresult; cases hresult) nofun nofun
  · exact h

/-- The placement goes from the channel to the caller. -/
theorem Ok.answered (h : d.Ok stage) : d.answered.Ok stage := by
  have hread : ∀ {answer : Option Session} {result : Result}, d.caller = .selecting → d.answer = some answer →
      result.holds = answer → ({ d with caller := .leaving result, answer := none } : Desk).Ok stage := by
    intro answer result hcaller hanswer hresult
    have hgone : d.gone = false := h.not_gone (fun _ hresult => by rw [hcaller] at hresult; cases hresult)
    have hclaimed : d.claimed = true := by
      by_contra hnot
      have hnone := (h.unclaimed (by simpa using hnot)).2.1
      rw [hanswer] at hnone
      cases hnone
    exact
      { held := by
          have hheld := h.held
          unfold Desk.held at hheld ⊢
          rw [hcaller, hanswer] at hheld
          simpa [Caller.holds, hresult] using hheld
        one := h.one
        waiting := h.waiting
        unclaimed := fun hnot => by
          change d.claimed = false at hnot
          rw [hclaimed] at hnot
          cases hnot
        channel := fun _ => rfl
        taken := h.taken
        gone := by
          change d.gone = true ↔ _
          rw [hgone]
          simp
        early := h.early
        absent := nofun }
  unfold Desk.answered
  split
  · next hcaller hanswer => exact hread hcaller hanswer rfl
  · next hcaller hanswer => exact hread hcaller hanswer rfl
  · exact h

theorem Ok.abandon (h : d.Ok stage) : d.abandon.Ok stage := by
  unfold Desk.abandon
  split
  · next result hcaller =>
      exact
        { held := by
            have hheld := h.held
            unfold Desk.held at hheld ⊢
            rw [hcaller] at hheld
            exact hheld
          one := h.one
          waiting := nofun
          unclaimed := h.unclaimed
          channel := h.channel
          taken := h.taken
          gone := by simp
          early := fun hearly => by
            change (d.early || !d.claimed) = true at hearly
            refine ⟨?_, rfl, rfl⟩
            rcases (Bool.or_eq_true _ _).mp hearly with hearly | hclaimed
            · exact (h.early hearly).1
            · simpa using hclaimed
          absent := nofun }
  · exact h

/-! ### The worker at the desk -/

theorem Ok.claim (h : d.Ok stage) (hwaiting : d.waiting = true) : d.claim.Ok (some .taken) where
  held := by
    obtain ⟨hstage, hclaimed, -⟩ := h.waiting hwaiting
    have hheld := h.held
    unfold Desk.held at hheld ⊢
    rw [hstage] at hheld
    exact hheld
  one := h.one
  waiting := nofun
  unclaimed := nofun
  channel := fun _ => (h.unclaimed (h.waiting hwaiting).2.1).2.1
  taken := fun _ => (h.unclaimed (h.waiting hwaiting).2.1).2.2.1
  gone := h.gone
  early := fun hearly => by
    have hnot := (h.early hearly).2.1
    rw [hwaiting] at hnot
    cases hnot
  absent := fun habsent => by
    have hnot := (h.absent habsent).2
    rw [hwaiting] at hnot
    cases hnot

/-- A step at a claimed desk moves placements only. -/
theorem Ok.serve {at' : Stage} (h : d.Ok (some at')) {answer : Option (Option Session)} {calls : ℕ}
    {committed released : List Session}
    (hheld : ({ d with answer := answer, calls := calls, committed := committed, released := released } : Desk).held stage =
      committed)
    (hone : committed.length ≤ 1) (hchannel : stage ≠ none → answer = none) (htaken : stage = some .taken → committed = []) :
    ({ d with answer := answer, calls := calls, committed := committed, released := released } : Desk).Ok stage where
  held := hheld
  one := hone
  waiting := fun hwaiting => by
    cases (h.waiting hwaiting).1
  unclaimed := fun hclaimed => by
    cases (h.unclaimed hclaimed).1
  channel := hchannel
  taken := htaken
  gone := h.gone
  early := h.early
  absent := h.absent

theorem Ok.place (h : d.Ok (some .taken)) (answer : Option Session) : (d.place answer).Ok (some (.placed answer)) := by
  have hnone := h.taken rfl
  have hanswer := h.channel nofun
  refine h.serve ?_ ?_ (fun _ => hanswer) nofun
  · have hheld := h.held
    unfold Desk.held at hheld ⊢
    rw [hnone, hanswer] at hheld
    simp only [Option.bind_some, Stage.holds, Option.toList_none, List.append_nil, Option.join_none, List.append_eq_nil_iff] at hheld
    simp [hnone, hheld.1, hheld.2, hanswer, Stage.holds]
  · rw [hnone]
    cases answer <;> simp

theorem Ok.idle {answer : Option Session} (h : d.Ok (some (.placed answer))) (hnone : answer = none) : d.Ok none := by
  refine h.serve ?_ h.one (absurd rfl) nofun
  have hheld := h.held
  unfold Desk.held at hheld ⊢
  rw [hnone] at hheld
  exact hheld

theorem Ok.releasing {session : Session} (h : d.Ok (some (.placed (some session)))) : d.Ok (some (.releasing session)) :=
  h.serve h.held h.one (fun _ => h.channel nofun) nofun

/-- The placement goes from the worker to the channel. -/
theorem Ok.deliver {answer : Option Session} (h : d.Ok (some (.placed answer))) : (d.deliver answer).Ok none := by
  refine h.serve ?_ h.one (absurd rfl) nofun
  have hheld := h.held
  have hanswer := h.channel nofun
  unfold Desk.held at hheld ⊢
  rw [hanswer] at hheld
  simpa [Stage.holds] using hheld

theorem Ok.release {session : Session} (h : d.Ok (some (.releasing session))) : (d.release session).Ok none := by
  refine h.serve ?_ h.one (absurd rfl) nofun
  have hheld := h.held
  unfold Desk.held at hheld ⊢
  simpa [Stage.holds] using hheld

end Desk

/-! ### The whole line -/

/-- Where the worker is with a join. -/
def Worker.stage : Worker → JoinId → Option Stage
  | .serving id stage, id' => if id' = id then some stage else none
  | .idle, _ | .popped _, _ => none

namespace Line

def Ok (l : Line) : Prop := ∀ id, (l.desks id).Ok (l.worker.stage id)

variable {l : Line} {id : JoinId}

/-- A caller's step, beside a worker that stays where it is. -/
theorem Ok.atDesk (h : l.Ok) {f : Desk → Desk} (hf : (f (l.desks id)).Ok (l.worker.stage id)) : (l.atDesk id f).Ok := by
  intro id'
  show (Function.update l.desks id (f (l.desks id)) id').Ok (l.worker.stage id')
  rcases eq_or_ne id' id with rfl | hne
  · rwa [Function.update_self]
  · rw [Function.update_of_ne hne]
    exact h id'

/-- A worker's step: nothing changes at the other desks. -/
theorem Ok.serve (h : l.Ok) {f : Desk → Desk} {worker : Worker} (hf : (f (l.desks id)).Ok (worker.stage id))
    (hother : ∀ id' ≠ id, worker.stage id' = l.worker.stage id') : ({ l.atDesk id f with worker := worker } : Line).Ok := by
  intro id'
  show (Function.update l.desks id (f (l.desks id)) id').Ok (worker.stage id')
  rcases eq_or_ne id' id with rfl | hne
  · rwa [Function.update_self]
  · rw [Function.update_of_ne hne, hother id' hne]
    exact h id'

theorem stage_serving (id : JoinId) (stage : Stage) : (Worker.serving id stage).stage id = some stage := if_pos rfl

theorem stage_other {id' : JoinId} (hne : id' ≠ id) (stage : Stage) : (Worker.serving id stage).stage id' = none :=
  if_neg hne

theorem Ok.at (h : l.Ok) {stage : Stage} (hworker : l.worker = .serving id stage) : (l.desks id).Ok (some stage) := by
  have hid := h id
  rwa [hworker, stage_serving] at hid

theorem Ok.settle (h : l.Ok) {answer : Option Session} (hworker : l.worker = .serving id (.placed answer)) :
    (l.settle id answer).Ok := by
  have hdesk := h.at hworker
  have hidle : ∀ id' ≠ id, Worker.idle.stage id' = l.worker.stage id' := by
    intro id' hne
    rw [hworker, stage_other hne]
    rfl
  unfold Line.settle
  split_ifs with hgone
  · cases answer with
    | none =>
      have hserved : ({ l.atDesk id (fun d => d) with worker := .idle } : Line).Ok := h.serve (hdesk.idle rfl) hidle
      rwa [Line.atDesk, Function.update_eq_self] at hserved
    | some session =>
      have hserved : ({ l.atDesk id (fun d => d) with worker := .serving id (.releasing session) } : Line).Ok := by
        refine h.serve ?_ (fun id' hne => ?_)
        · rw [stage_serving]
          exact hdesk.releasing
        · rw [hworker, stage_other hne, stage_other hne]
      rwa [Line.atDesk, Function.update_eq_self] at hserved
  · exact h.serve hdesk.deliver hidle

theorem ok_step (l : Line) (e : Event) (h : l.Ok) : (l.step e).Ok := by
  cases e with
  | enter id => exact h.atDesk (h id).enter
  | enqueue id =>
    show (if _ then _ else _ : Line).Ok
    split_ifs
    · exact h.atDesk (h id).enqueue
    · exact h
  | pushed id outcome =>
    exact h.atDesk (f := fun d => d.pushed outcome) ((h id).pushed outcome)
  | answered id => exact h.atDesk (h id).answered
  | expire id => exact h.atDesk (h id).expire
  | abandon id => exact h.atDesk (h id).abandon
  | stray id => exact h
  | pop id =>
    show (if _ then _ else _ : Line).Ok
    split_ifs with hpop
    · intro id'
      have hid := h id'
      rwa [hpop.1] at hid
    · exact h
  | take =>
    simp only [step]
    split
    · rename_i id hworker
      split_ifs with hwaiting
      · refine h.serve ?_ (fun id' hne => ?_)
        · rw [stage_serving]
          exact (h id).claim hwaiting
        · rw [hworker, stage_other hne]
          rfl
      · intro id'
        have hid := h id'
        rwa [hworker] at hid
    · exact h
  | place answer =>
    simp only [step]
    split
    · rename_i id hworker
      refine h.serve ?_ (fun id' hne => ?_)
      · rw [stage_serving]
        exact (h.at hworker).place answer
      · rw [hworker, stage_other hne, stage_other hne]
    · exact h
  | settle =>
    simp only [step]
    split
    · rename_i id answer hworker
      exact h.settle hworker
    · exact h
  | release =>
    simp only [step]
    split
    · rename_i id session hworker
      refine h.serve (h.at hworker).release (fun id' hne => ?_)
      rw [hworker, stage_other hne]
      rfl
    · exact h

theorem ok_new : Line.new.Ok := fun _ => Desk.ok_new

/-! ### Where a placement ends -/

/-- No placement is in a channel that nothing reads. -/
def Unread (d : Desk) : Prop := d.gone = true → d.answer.join = none

/-- A desk whose channel and flag an operation leaves alone. -/
theorem Unread.still {d d' : Desk} (h : Unread d) (hgone : d'.gone = d.gone)
    (hanswer : d'.answer = d.answer ∨ d'.answer = none) : Unread d' := by
  intro hyes
  rcases hanswer with hanswer | hanswer
  · rw [hanswer]
    exact h (hgone ▸ hyes)
  · rw [hanswer]
    rfl

theorem unread_atDesk (h : ∀ id, Unread (l.desks id)) {f : Desk → Desk} (hf : Unread (f (l.desks id))) :
    ∀ id', Unread ((l.atDesk id f).desks id') := by
  intro id'
  show Unread (Function.update l.desks id (f (l.desks id)) id')
  rcases eq_or_ne id' id with rfl | hne
  · rwa [Function.update_self]
  · rw [Function.update_of_ne hne]
    exact h id'

theorem unread_step (l : Line) (e : Event) (h : ∀ id, Unread (l.desks id)) (hread : l.Read e) :
    ∀ id, Unread ((l.step e).desks id) := by
  cases e with
  | enter id =>
    refine unread_atDesk h ?_
    unfold Desk.enter
    split_ifs
    · exact (h id).still rfl (Or.inl rfl)
    · exact h id
  | enqueue id =>
    have henqueue : Unread (l.desks id).enqueue := by
      unfold Desk.enqueue
      split_ifs
      · exact (h id).still rfl (Or.inl rfl)
      · exact h id
    simp only [step]
    split_ifs
    · exact unread_atDesk h henqueue
    · exact h
  | pushed id outcome =>
    have hpushed : Unread ((l.desks id).pushed outcome) := by
      unfold Desk.pushed
      split
      · exact (h id).still rfl (Or.inl rfl)
      · exact (h id).still rfl (Or.inl rfl)
      · exact (h id).still rfl (Or.inl rfl)
      · exact h id
    exact unread_atDesk h (f := fun d => d.pushed outcome) hpushed
  | answered id =>
    refine unread_atDesk h ?_
    unfold Desk.answered
    split
    · exact (h id).still rfl (Or.inr rfl)
    · exact (h id).still rfl (Or.inr rfl)
    · exact h id
  | expire id =>
    refine unread_atDesk h ?_
    unfold Desk.expire
    split_ifs
    · exact (h id).still rfl (Or.inl rfl)
    · exact h id
  | abandon id =>
    refine unread_atDesk h ?_
    unfold Desk.abandon
    split
    · exact fun _ => hread
    · exact h id
  | stray id => exact h
  | pop id =>
    simp only [step]
    split_ifs
    · exact h
    · exact h
  | take =>
    simp only [step]
    split
    · rename_i id hworker
      split_ifs
      · exact unread_atDesk h ((h id).still rfl (Or.inl rfl))
      · exact h
    · exact h
  | place answer =>
    simp only [step]
    split
    · rename_i id hworker
      exact unread_atDesk h (f := fun d => d.place answer) ((h id).still rfl (Or.inl rfl))
    · exact h
  | settle =>
    simp only [step]
    split
    · rename_i id answer hworker
      unfold Line.settle
      split_ifs with hgone
      · cases answer <;> exact h
      · -- It is delivered to a caller that has not gone.
        exact unread_atDesk h (f := fun d => d.deliver answer) (fun hyes => absurd hyes hgone)
    · exact h
  | release =>
    simp only [step]
    split
    · rename_i id session hworker
      exact unread_atDesk h (f := fun d => d.release session) ((h id).still rfl (Or.inl rfl))
    · exact h

/-- What holds of one join in every run. -/
structure Committed (d : Desk) : Prop where
  /-- One placement at most is committed for it. -/
  one : d.committed.length ≤ 1
  /-- What `Join` returns was committed and is not handed back. -/
  returned : ∀ session, d.caller = .returned (.placed session) → d.committed = [session] ∧ d.released = []
  /-- What is handed back was committed, is handed back once, and no caller returns it. -/
  released : ∀ session ∈ d.released, d.committed = [session] ∧ d.released = [session] ∧
    ∀ session', d.caller ≠ .returned (.placed session')
  /-- A join whose caller had abandoned it before it was claimed causes no call of `Place`. -/
  early : d.early = true → d.calls = 0 ∧ d.committed = []

/-- Once its caller has returned and the worker is done with it, a placement is with the caller or
handed back. -/
def Settled (d : Desk) (stage : Option Stage) : Prop :=
  stage = none → (∃ result, d.caller = .returned result) →
    ∀ session ∈ d.committed, d.caller = .returned (.placed session) ∨ d.released = [session]

theorem committed_of_ok {d : Desk} {stage : Option Stage} (h : d.Ok stage) : Committed d := by
  have hlength : (d.held stage).length ≤ 1 := h.held ▸ h.one
  have hreturned : ∀ session, d.caller = .returned (.placed session) → d.committed = [session] ∧ d.released = [] := by
    intro session hcaller
    have hheld := h.held
    unfold Desk.held at hheld hlength
    rw [hcaller] at hheld hlength
    simp only [Caller.holds, Result.holds, Option.toList_some, List.length_append, List.length_singleton] at hlength
    have hreleased : d.released = [] := List.length_eq_zero_iff.mp (by omega)
    have hworker : (stage.bind Stage.holds).toList = [] := List.length_eq_zero_iff.mp (by omega)
    have hchannel : d.answer.join.toList = [] := List.length_eq_zero_iff.mp (by omega)
    rw [hreleased, hworker, hchannel] at hheld
    exact ⟨hheld.symm, hreleased⟩
  refine ⟨h.one, hreturned, fun session hsession => ?_, fun hearly => ?_⟩
  · have hheld := h.held
    unfold Desk.held at hheld hlength
    simp only [List.length_append] at hlength
    have hpos := List.length_pos_of_mem hsession
    obtain ⟨session', hreleased⟩ := List.length_eq_one_iff.mp (show d.released.length = 1 by omega)
    have hworker : (stage.bind Stage.holds).toList = [] := List.length_eq_zero_iff.mp (by omega)
    have hchannel : d.answer.join.toList = [] := List.length_eq_zero_iff.mp (by omega)
    have hcaller : d.caller.holds.toList = [] := List.length_eq_zero_iff.mp (by omega)
    obtain rfl : session = session' := by
      rw [hreleased] at hsession
      exact List.mem_singleton.mp hsession
    rw [hworker, hchannel, hcaller, hreleased] at hheld
    refine ⟨hheld.symm, hreleased, fun session' hplaced => ?_⟩
    rw [(hreturned session' hplaced).2] at hreleased
    cases hreleased
  · obtain ⟨-, -, hcommitted, hcalls⟩ := h.unclaimed (h.early hearly).1
    exact ⟨hcalls, hcommitted⟩

theorem settled_of_unread {d : Desk} {stage : Option Stage} (h : d.Ok stage) (hunread : Unread d) : Settled d stage := by
  rintro rfl ⟨result, hresult⟩ session hsession
  have hlength := h.one
  have hheld := h.held
  unfold Desk.held at hheld
  rw [hunread (h.gone.mpr ⟨result, hresult⟩), hresult] at hheld
  simp only [Option.bind_none, Option.toList_none, List.append_nil, Caller.holds] at hheld
  rw [← hheld, List.length_append] at hlength
  rw [← hheld] at hsession
  rcases List.mem_append.mp hsession with hsession | hsession
  · obtain ⟨session', hreleased⟩ := List.length_eq_one_iff.mp
      (show d.released.length = 1 by have := List.length_pos_of_mem hsession; omega)
    rw [hreleased] at hsession ⊢
    rw [List.mem_singleton.mp hsession]
    exact Or.inr rfl
  · cases result with
    | placed session' =>
      obtain rfl : session = session' := List.mem_singleton.mp hsession
      exact Or.inl hresult
    | noCapacity | busy | failed => cases hsession

/-- **No placement is stranded**, unless a caller leaves with one unread in its channel. -/
theorem none_stranded (events : List Event) :
    (∀ id, Committed ((exec Line.step Line.new events).desks id)) ∧
      (Meets Line.step Line.Read Line.new events → ∀ id,
        Settled ((exec Line.step Line.new events).desks id) ((exec Line.step Line.new events).worker.stage id)) := by
  have hok : (exec Line.step Line.new events).Ok := exec_invariant ok_step ok_new events
  refine ⟨fun id => committed_of_ok (hok id), fun hread id => ?_⟩
  have hstep : ∀ (l : Line) (e : Event), (∀ id, Unread (l.desks id)) → l.Read e → ∀ id, Unread ((l.step e).desks id) :=
    unread_step
  have hunread : ∀ id, Unread (Line.new.desks id) := fun _ hgone => by cases hgone
  exact settled_of_unread (hok id) (Meets.invariant hstep hunread hread id)

/-- One join is answered in time, and one gives up while it is being ranked. -/
def giveUp : List Event :=
  [.enter 0, .enqueue 0, .pushed 0 .accepted, .enter 1, .enqueue 1, .pushed 1 .accepted,
    .pop 0, .take, .place (some 7), .settle, .answered 0, .abandon 0,
    .pop 1, .take, .expire 1, .abandon 1, .place (some 8), .settle, .release]

theorem none_stranded_giveUp :
    Settled ((exec Line.step Line.new giveUp).desks 0) ((exec Line.step Line.new giveUp).worker.stage 0) ∧
      Settled ((exec Line.step Line.new giveUp).desks 1) ((exec Line.step Line.new giveUp).worker.stage 1) ∧
      ((exec Line.step Line.new giveUp).desks 1).released = [8] := by
  have hread : Meets Line.step Line.Read Line.new giveUp := by decide
  exact ⟨(none_stranded giveUp).2 hread 0, (none_stranded giveUp).2 hread 1, by decide⟩

/-- The answer is delivered, and the select takes the deadline. -/
def lateSelect : List Event :=
  [.enter 0, .enqueue 0, .pushed 0 .accepted, .pop 0, .take, .place (some 7), .settle, .expire 0, .abandon 0]

/-- The caller was answered and counts as gone: its placement is neither returned nor handed back. -/
theorem stranded_lateSelect :
    (exec Line.step Line.new lateSelect).worker = .idle ∧
      ((exec Line.step Line.new lateSelect).desks 0).caller = .returned .noCapacity ∧
      ((exec Line.step Line.new lateSelect).desks 0).committed = [7] ∧
      ((exec Line.step Line.new lateSelect).desks 0).released = [] ∧
      ¬ Settled ((exec Line.step Line.new lateSelect).desks 0) ((exec Line.step Line.new lateSelect).worker.stage 0) := by
  refine ⟨by decide, by decide, by decide, by decide, fun h => ?_⟩
  rcases h (by decide) ⟨.noCapacity, by decide⟩ 7 (by decide) with h | h
  · exact absurd h (by decide)
  · exact absurd h (by decide)

end Line

end Joins
end Grove
