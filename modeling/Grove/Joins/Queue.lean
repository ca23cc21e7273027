import Grove.Lib.Run

/-! # The line joins wait in

`apps/grove/server-manager/internal/joins/queue.go`: the contract of `Queue`, and the two lines that
are meant to keep it.  `Memory` is a buffered channel.  `Redis` is a list in a cache, pushed to by
concurrent calls of two commands each and popped by one worker.  A connection to the cache answers
every command it is given. -/

namespace Grove
namespace Joins

variable {α : Type}

/-! ### The contract -/

/-- What one call on a line answered. -/
inductive Answer (α : Type) where
  | accepted (job : α)
  /-- The line is already at its depth. -/
  | refused
  /-- The context ended. -/
  | ended
  | popped (job : α)
  /-- `ErrEmpty`: the wait ran out. -/
  | empty
deriving DecidableEq

/-- A line in arrival order: a push goes to its back and a pop takes its front. -/
def serveOne [DecidableEq α] (line : List α) : Answer α → Option (List α)
  | .accepted job => some (line ++ [job])
  | .popped job =>
    match line with
    | [] => none
    | front :: rest => if front = job then some rest else none
  | .refused | .ended | .empty => some line

def serveAll [DecidableEq α] : List α → List (Answer α) → Option (List α)
  | line, [] => some line
  | line, answer :: answers => (serveOne line answer).bind (fun line => serveAll line answers)

def Answer.pushed : Answer α → Option α
  | .accepted job => some job
  | .refused | .ended | .popped _ | .empty => none

def Answer.taken : Answer α → Option α
  | .popped job => some job
  | .accepted _ | .refused | .ended | .empty => none

/-- What the calls on a line answered, in order, and the jobs the worker asked for a place for. -/
structure Record (α : Type) where
  answers : List (Answer α)
  placed : List α

namespace Record

def new : Record α := ⟨[], []⟩

variable (r : Record α)

/-- The jobs that were accepted. -/
def accepted : List α := r.answers.filterMap Answer.pushed

def popped : List α := r.answers.filterMap Answer.taken

def note (answer : Answer α) : Record α := { r with answers := r.answers ++ [answer] }

/-- One turn of `Run`: the job is popped, then placed if its caller is still `there`. -/
def serve (job : α) (there : Bool) : Record α :=
  { answers := r.answers ++ [.popped job], placed := if there then r.placed ++ [job] else r.placed }

end Record

/-- The line answered as the contract has it, and holds `left`. -/
structure InOrder [DecidableEq α] (r : Record α) (left : List α) : Prop where
  contract : serveAll [] r.answers = some left
  /-- Every job is popped in the order it was accepted, once, or waits. -/
  once : r.popped ++ left = r.accepted
  /-- The worker places them in that order. -/
  placed : r.placed.Sublist r.popped

section contract
variable [DecidableEq α] {r : Record α} {left : List α}

theorem serveAll_append {line line' : List α} {answers : List (Answer α)} {answer : Answer α}
    (h : serveAll line answers = some line') :
    serveAll line (answers ++ [answer]) = serveOne line' answer := by
  induction answers generalizing line with
  | nil =>
    obtain rfl := Option.some.inj h
    rw [List.nil_append, serveAll]
    cases serveOne line answer <;> rfl
  | cons a answers ih =>
    rw [serveAll] at h
    obtain ⟨next, hnext, hrest⟩ := Option.bind_eq_some_iff.mp h
    rw [List.cons_append, serveAll, hnext, Option.bind_some]
    exact ih hrest

theorem inOrder_new : InOrder (Record.new : Record α) [] := ⟨rfl, rfl, List.Sublist.refl _⟩

/-- An answer that moves no job. -/
theorem InOrder.still (h : InOrder r left) {answer : Answer α} (hpushed : answer.pushed = none)
    (htaken : answer.taken = none) : InOrder (r.note answer) left where
  contract := by
    have hone : serveOne left answer = some left := by
      cases answer with
      | accepted job => cases hpushed
      | popped job => cases htaken
      | refused | ended | empty => rfl
    exact (serveAll_append h.contract).trans hone
  once := by
    unfold Record.popped Record.accepted Record.note
    simp only [List.filterMap_append, List.filterMap_cons, List.filterMap_nil, hpushed, htaken, List.append_nil]
    exact h.once
  placed := by
    unfold Record.popped Record.note
    simp only [List.filterMap_append, List.filterMap_cons, List.filterMap_nil, htaken, List.append_nil]
    exact h.placed

theorem InOrder.accept (h : InOrder r left) (job : α) : InOrder (r.note (.accepted job)) (left ++ [job]) where
  contract := serveAll_append h.contract
  once := by
    have hpopped : (r.note (.accepted job)).popped = r.popped := by
      simp [Record.popped, Record.note, Answer.taken]
    have haccepted : (r.note (.accepted job)).accepted = r.accepted ++ [job] := by
      simp [Record.accepted, Record.note, Answer.pushed]
    rw [hpopped, haccepted, ← h.once, List.append_assoc]
  placed := by
    have hpopped : (r.note (.accepted job)).popped = r.popped := by
      simp [Record.popped, Record.note, Answer.taken]
    rw [hpopped]
    exact h.placed

theorem InOrder.serve {job : α} (h : InOrder r (job :: left)) (there : Bool) : InOrder (r.serve job there) left where
  contract := by
    refine (serveAll_append h.contract).trans ?_
    exact if_pos rfl
  once := by
    have hpopped : (r.serve job there).popped = r.popped ++ [job] := by
      simp [Record.popped, Record.serve, Answer.taken]
    have haccepted : (r.serve job there).accepted = r.accepted := by
      simp [Record.accepted, Record.serve, Answer.pushed]
    rw [hpopped, haccepted, ← h.once, List.append_assoc, List.singleton_append]
  placed := by
    have hpopped : (r.serve job there).popped = r.popped ++ [job] := by
      simp [Record.popped, Record.serve, Answer.taken]
    rw [hpopped]
    cases there with
    | true => exact h.placed.append (List.Sublist.refl _)
    | false => exact h.placed.trans (List.sublist_append_left _ _)

end contract

/-! ### The line in memory -/

/-- A channel of `depth` jobs, front first. -/
structure Memory (α : Type) where
  depth : ℕ
  jobs : List α
  record : Record α

namespace Memory

def new (depth : ℕ) : Memory α := ⟨depth, [], .new⟩

/-- One call.  `ended` says whether its context has ended, and `picks` which of two ready cases the
runtime selects: the context's, if it is set. -/
inductive Call (α : Type) where
  | push (job : α) (ended picks : Bool)
  | pop (ended picks there : Bool)

variable (m : Memory α)

def push (job : α) (ended picks : Bool) : Memory α :=
  let ready := decide (m.jobs.length < m.depth)
  if ready ∧ !(ended ∧ picks) then { m with jobs := m.jobs ++ [job], record := m.record.note (.accepted job) }
  else if ended then { m with record := m.record.note .ended }
  -- Refused without adding.
  else { m with record := m.record.note .refused }

def pop (ended picks there : Bool) : Memory α :=
  match m.jobs with
  | [] =>
    -- It goes on waiting.
    if ended then { m with record := m.record.note .ended } else m
  | job :: rest =>
    if ended ∧ picks then { m with record := m.record.note .ended }
    else { m with jobs := rest, record := m.record.serve job there }

def step (m : Memory α) : Call α → Memory α
  | .push job ended picks => m.push job ended picks
  | .pop ended picks there => m.pop ended picks there

theorem inOrder_step [DecidableEq α] (m : Memory α) (call : Call α) (h : InOrder m.record m.jobs) :
    InOrder (m.step call).record (m.step call).jobs := by
  cases call with
  | push job ended picks =>
    unfold step push
    simp only
    split_ifs with hready hended
    · exact h.accept job
    · exact h.still rfl rfl
    · exact h.still rfl rfl
  | pop ended picks there =>
    unfold step pop
    rcases hjobs : m.jobs with _ | ⟨job, rest⟩
    · simp only
      rw [hjobs] at h
      split_ifs with hended
      · exact h.still rfl rfl
      · rw [hjobs]
        exact h
    · simp only
      rw [hjobs] at h
      split_ifs with hended
      · exact h.still rfl rfl
      · exact h.serve there

end Memory

/-! ### The line in a cache -/

/-- The list under one key, head first, as the server holds it. -/
structure Redis (α : Type) where
  depth : ℕ
  list : List α
  /-- The pushes between their two commands, by call. -/
  pushing : ℕ → Option α
  record : Record α

namespace Redis

def new (depth : ℕ) : Redis α := ⟨depth, [], fun _ => none, .new⟩

/-- One command as the server executes it. -/
inductive Call (α : Type) where
  /-- The first command of one push. -/
  | llen (call : ℕ) (job : α)
  /-- The second one. -/
  | lpush (call : ℕ)
  | blpop (there : Bool)

variable (q : Redis α)

/-- Refuses on the depth it read rather than on the one it causes. -/
def llen (call : ℕ) (job : α) : Redis α :=
  if q.depth ≤ q.list.length then { q with record := q.record.note .refused }
  else { q with pushing := Function.update q.pushing call (some job) }

/-- `LPUSH` inserts at the head. -/
def lpush (call : ℕ) : Redis α :=
  match q.pushing call with
  | none => q
  | some job =>
    { q with
      list := job :: q.list
      pushing := Function.update q.pushing call none
      record := q.record.note (.accepted job) }

/-- `BLPOP` removes the head, or answers null once it has waited. -/
def blpop (there : Bool) : Redis α :=
  match q.list with
  | [] => { q with record := q.record.note .empty }
  | job :: rest => { q with list := rest, record := q.record.serve job there }

def step (q : Redis α) : Call α → Redis α
  | .llen call job => q.llen call job
  | .lpush call => q.lpush call
  | .blpop there => q.blpop there

/-- Nothing waits behind what is popped. -/
def Alone (q : Redis α) : Call α → Prop
  | .blpop _ => q.list.length ≤ 1
  | .llen _ _ | .lpush _ => True

instance (q : Redis α) (call : Call α) : Decidable (q.Alone call) := by
  cases call <;> unfold Alone <;> infer_instance

theorem inOrder_step [DecidableEq α] (q : Redis α) (call : Call α) (h : InOrder q.record q.list.reverse)
    (halone : q.Alone call) : InOrder (q.step call).record (q.step call).list.reverse := by
  cases call with
  | llen call job =>
    unfold step llen
    split_ifs with hfull
    · exact h.still rfl rfl
    · exact h
  | lpush call =>
    show InOrder (q.lpush call).record (q.lpush call).list.reverse
    unfold lpush
    rcases hcall : q.pushing call with _ | job
    · exact h
    · simp only
      rw [List.reverse_cons]
      exact h.accept job
  | blpop there =>
    show InOrder (q.blpop there).record (q.blpop there).list.reverse
    unfold blpop
    rcases hlist : q.list with _ | ⟨job, rest⟩
    · simp only
      rw [hlist] at h
      exact h.still rfl rfl
    · -- The head is the front only because the list holds nothing else.
      have hrest : rest = [] := by
        unfold Alone at halone
        rw [hlist, List.length_cons] at halone
        exact List.eq_nil_of_length_eq_zero (by omega)
      subst hrest
      simp only
      rw [hlist] at h
      exact h.serve there

end Redis

/-! ### The order joins are answered in -/

/-- **Arrival order.**  The line in memory keeps it; the line in a cache does as long as no job waits
behind the one that is popped. -/
theorem joins_in_order [DecidableEq α] (depth : ℕ) :
    (∀ calls : List (Memory.Call α),
      let m := exec Memory.step (Memory.new depth) calls
      InOrder m.record m.jobs) ∧
    ∀ calls : List (Redis.Call α), Meets Redis.step Redis.Alone (Redis.new depth) calls →
      let q := exec Redis.step (Redis.new depth) calls
      InOrder q.record q.list.reverse := by
  constructor
  · intro calls
    have hstep : ∀ (m : Memory α) (call : Memory.Call α), InOrder m.record m.jobs →
        InOrder (m.step call).record (m.step call).jobs := Memory.inOrder_step
    exact exec_invariant hstep inOrder_new calls
  · intro calls hcalls
    have hstep : ∀ (q : Redis α) (call : Redis.Call α), InOrder q.record q.list.reverse → q.Alone call →
        InOrder (q.step call).record (q.step call).list.reverse := Redis.inOrder_step
    exact Meets.invariant hstep inOrder_new hcalls

/-- Two joins, the second one in the line only once the first has been popped. -/
theorem joins_in_order_apart :
    let calls := [.llen 0 "ada", .lpush 0, .blpop true, .llen 1 "bo", .lpush 1, .blpop true]
    let q := exec Redis.step (Redis.new 4) calls
    Meets Redis.step Redis.Alone (Redis.new 4 : Redis String) calls ∧ InOrder q.record q.list.reverse ∧
      q.record.placed = ["ada", "bo"] := by
  have hmeets : Meets Redis.step Redis.Alone (Redis.new 4 : Redis String)
      [.llen 0 "ada", .lpush 0, .blpop true, .llen 1 "bo", .lpush 1, .blpop true] := by decide
  exact ⟨hmeets, (joins_in_order 4).2 _ hmeets, by decide⟩

/-- Two joins wait, and the line in the cache answers the later one first. -/
theorem last_join_first :
    let q := exec Redis.step (Redis.new 4) [.llen 0 "ada", .lpush 0, .llen 1 "bo", .lpush 1, .blpop true]
    q.record.accepted = ["ada", "bo"] ∧ q.record.popped = ["bo"] ∧ q.record.placed = ["bo"] ∧
      ∀ left, ¬ InOrder q.record left := by
  refine ⟨by decide, by decide, by decide, fun left h => ?_⟩
  have hcontract := h.contract
  have hnone : serveAll [] (exec Redis.step (Redis.new 4)
      [.llen 0 "ada", .lpush 0, .llen 1 "bo", .lpush 1, .blpop true]).record.answers = none := by decide
  rw [hnone] at hcontract
  cases hcontract

end Joins
end Grove
