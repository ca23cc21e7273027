import Grove.Lib.Run
import Grove.Manager.State

/-! # Conditional writes

Every caller of the store reads, writes and deletes under one lock, so a run is a list of
calls.  A revision counts the writes of its key since the key was last released: a key
released is a key never written, and its next write lands on revision one.

`conditional_write_overwrites_shown`: a write against the revision its caller was shown
overwrites what it was shown, as long as nobody released the key in between.
`write_overwrites_unseen` is a caller whose revision one was another value's. -/

namespace Grove
namespace Manager

/-- `Delete`, in the rows of one game: `none` is `ErrNotFound`. -/
def Memory.delete (m : Memory) (key : String) : Option Memory :=
  if (m.state.get key).isNone then none
  else some
    { state := m.state.delete key
      spent := ⟨m.spent.keys - 1, m.spent.bytes - m.heldBytes key⟩ }

inductive StateCall where
  | read (key : String)
  | write (key : String) (w : StateWrite)
  | delete (key : String)
deriving DecidableEq

/-- One caller's call, under the game its token names. -/
structure StateRequest where
  caller : ℕ
  game : String
  call : StateCall
deriving DecidableEq

inductive StoreAnswer where
  | record (record : StateRecord)
  | written (revision : ℕ)
  | deleted
  | notFound
  | refused (error : StoreError)
deriving DecidableEq

namespace StateCall

def key : StateCall → String
  | read key | write key _ | delete key => key

def run (m : Memory) : StateCall → StoreAnswer × Memory
  | read key =>
    match m.read key with
    | some record => (.record record, m)
    | none => (.notFound, m)
  | write key w =>
    match m.write key w with
    | (.ok revision, m) => (.written revision, m)
    | (.error error, m) => (.refused error, m)
  | delete key =>
    match m.delete key with
    | some m => (.deleted, m)
    | none => (.notFound, m)

/-- What an answer tells its caller of the key: the record it holds, or that it holds none. -/
def shown (m : Memory) (call : StateCall) : Option (Option StateRecord) :=
  match call, (call.run m).1 with
  | _, .record record => some (some record)
  | write key w, .written revision => some (some ⟨key, w.value, revision⟩)
  | _, .deleted | _, .notFound => some none
  | _, _ => none

end StateCall

/-- The rows of every game: no key reaches a row without naming the game that owns it. -/
abbrev Games := String → Memory

def Games.step (s : Games) (r : StateRequest) : Games := Function.update s r.game (r.call.run (s r.game)).2

def Games.run (rs : List StateRequest) : Games := exec Games.step (fun _ => .new) rs

/-- A key holding nothing is at revision zero. -/
def revisionOf (seen : Option StateRecord) : ℕ := (seen.map StateRecord.revision).getD 0

/-- Call `r` is an applied write against the revision `e` showed the same caller, `mid` being
the calls of everybody in between. -/
structure Against (pre : List StateRequest) (e : StateRequest) (mid : List StateRequest) (r : StateRequest) (w : StateWrite)
    (seen : Option StateRecord) : Prop where
  caller : e.caller = r.caller
  game : e.game = r.game
  call : r.call = .write e.call.key w
  shown : e.call.shown (Games.run pre e.game) = some seen
  revision : w.ifRevision = some (revisionOf seen)
  applied : ∃ n, (r.call.run (Games.run (pre ++ e :: mid) r.game)).1 = .written n

/-- Nobody releases the key. -/
def Unreleased (rs : List StateRequest) (game key : String) : Prop :=
  ∀ r ∈ rs, r.game = game → r.call ≠ .delete key

instance (rs : List StateRequest) (game key : String) : Decidable (Unreleased rs game key) :=
  inferInstanceAs (Decidable (∀ r ∈ rs, r.game = game → r.call ≠ .delete key))

/-- No write of the key is applied, from the rows `s` on. -/
def Unwritten (s : Games) (rs : List StateRequest) (game key : String) : Prop :=
  ∀ before r after w, rs = before ++ r :: after → r.game = game → r.call = .write key w →
    ∃ error, (r.call.run (exec Games.step s before game)).1 = .refused error

/-! ### What a call does to a key -/

variable {m : Memory} {key : String}

theorem Memory.revisionAt_eq (m : Memory) (key : String) : m.revisionAt key = revisionOf (m.state.get key) := rfl

theorem Memory.delete_eq_some {m' : Memory} (h : m.delete key = some m') : m'.state = m.state.delete key := by
  unfold Memory.delete at h
  split at h
  · cases h
  · cases h
    rfl

/-- A call that does not release the key leaves its record alone, or moves it one revision on. -/
theorem run_key (m : Memory) (call : StateCall) (key : String) (h : call ≠ .delete key) :
    (call.run m).2.state.get key = m.state.get key ∧ (∀ w, call = .write key w → ∃ error, (call.run m).1 = .refused error) ∨
      (call.run m).2.revisionAt key = m.revisionAt key + 1 := by
  cases call with
  | read key' =>
    refine .inl ⟨?_, fun _ hcall => by cases hcall⟩
    simp only [StateCall.run]
    split <;> rfl
  | write key' w =>
    simp only [StateCall.run]
    obtain ⟨error, hwrite⟩ | ⟨m', hwrite, hstate, _⟩ := m.write_cases key' w
    · rw [hwrite]
      exact .inl ⟨rfl, fun _ _ => ⟨error, rfl⟩⟩
    · rw [hwrite]
      by_cases hkey : key = key'
      · subst hkey
        refine .inr ?_
        rw [revisionAt_set hstate, if_pos rfl]
      · refine .inl ⟨?_, ?_⟩
        · change m'.state.get key = _
          rw [hstate, OrderedMap.get_set_of_ne _ hkey]
        · rintro w' heq
          cases heq
          exact absurd rfl hkey
  | delete key' =>
    refine .inl ⟨?_, fun _ hcall => by cases hcall⟩
    have hne : key ≠ key' := fun heq => h (heq ▸ rfl)
    simp only [StateCall.run]
    cases hdelete : m.delete key' with
    | none => rfl
    | some m' =>
      change m'.state.get key = _
      rw [Memory.delete_eq_some hdelete, OrderedMap.get_delete_of_ne _ hne]

variable {s : Games} {game : String}

/-- The calls of others, while nobody releases the key: it moves on, or nobody wrote it. -/
theorem exec_key (rs : List StateRequest) (s : Games) (h : Unreleased rs game key) :
    ((exec Games.step s rs game).state.get key = (s game).state.get key ∧ Unwritten s rs game key) ∨
      (s game).revisionAt key < (exec Games.step s rs game).revisionAt key := by
  induction rs generalizing s with
  | nil =>
    refine .inl ⟨rfl, ?_⟩
    intro before r after w heq
    simp at heq
  | cons r rs ih =>
    have hrest := ih (s.step r) fun r' hr' => h r' (List.mem_cons_of_mem _ hr')
    rw [exec_cons]
    by_cases hgame : r.game = game
    · subst hgame
      have hkey := run_key (s r.game) r.call key (h r List.mem_cons_self rfl)
      have hstep : s.step r r.game = (r.call.run (s r.game)).2 := Function.update_self ..
      rw [← hstep] at hkey
      rcases hkey with ⟨hsame, hrefused⟩ | hnext
      · rw [Memory.revisionAt_eq, hsame, ← Memory.revisionAt_eq] at hrest
        rw [← hsame]
        refine hrest.imp_left fun ⟨hkept, hunwritten⟩ => ⟨by rw [hkept, hsame], ?_⟩
        intro before r' after w hsplit hgame' hcall
        cases before with
        | nil =>
          cases hsplit
          exact hrefused w hcall
        | cons first before =>
          cases hsplit
          exact hunwritten before r' after w rfl hgame' hcall
      · refine .inr ?_
        rcases hrest with ⟨hkept, _⟩ | hmore
        · have hsame : (exec Games.step (s.step r) rs r.game).revisionAt key = (s.step r r.game).revisionAt key :=
            congrArg revisionOf hkept
          omega
        · omega
    · have hstep : s.step r game = s game := Function.update_of_ne (Ne.symm hgame) ..
      rw [hstep] at hrest
      refine hrest.imp_left fun ⟨hkept, hunwritten⟩ => ⟨hkept, ?_⟩
      intro before r' after w hsplit hgame' hcall
      cases before with
      | nil =>
        cases hsplit
        exact absurd hgame' hgame
      | cons first before =>
        cases hsplit
        exact hunwritten before r' after w rfl hgame' hcall

/-- A record held is at a revision past zero. -/
def Counting (m : Memory) : Prop := ∀ key record, m.state.get key = some record → 0 < record.revision

theorem Counting.run {call : StateCall} (h : Counting m) : Counting (call.run m).2 := by
  cases call with
  | read key' =>
    simp only [StateCall.run]
    split <;> exact h
  | write key' w =>
    simp only [StateCall.run]
    obtain ⟨error, hwrite⟩ | ⟨m', hwrite, hstate, _⟩ := m.write_cases key' w
    · rw [hwrite]
      exact h
    · rw [hwrite]
      intro key record hget
      change m'.state.get key = _ at hget
      rw [hstate, OrderedMap.get_set] at hget
      split at hget
      · cases hget
        exact Nat.succ_pos _
      · exact h key record hget
  | delete key' =>
    simp only [StateCall.run]
    cases hdelete : m.delete key' with
    | none => exact h
    | some m' =>
      intro key record hget
      change m'.state.get key = _ at hget
      rw [Memory.delete_eq_some hdelete, OrderedMap.get_delete] at hget
      split at hget
      · cases hget
      · exact h key record hget

def CountingAll (s : Games) : Prop := ∀ game, Counting (s game)

theorem CountingAll.step {s : Games} (h : CountingAll s) (r : StateRequest) : CountingAll (s.step r) := by
  intro game
  by_cases hgame : game = r.game
  · subst hgame
    rw [Games.step, Function.update_self]
    exact (h r.game).run
  · rw [Games.step, Function.update_of_ne hgame]
    exact h game

theorem counting_run (rs : List StateRequest) : CountingAll (Games.run rs) := by
  have hstart : CountingAll fun _ => .new := fun _ _ _ h => by cases h
  exact exec_invariant (fun _ r h => h.step r) hstart rs

/-- A write applied against a revision found its key at that revision. -/
theorem revision_of_written {call : StateCall} {w : StateWrite} {n r : ℕ} (hcall : call = .write key w)
    (hrevision : w.ifRevision = some r) (h : (call.run m).1 = .written n) : r = m.revisionAt key := by
  subst hcall
  simp only [StateCall.run] at h
  obtain ⟨error, hwrite⟩ | ⟨m', hwrite, _, hat⟩ := m.write_cases key w
  · rw [hwrite] at h
    cases h
  · exact hat r hrevision

/-- What a call shows of its key is what the rows hold of it then. -/
theorem get_of_shown {call : StateCall} {seen : Option StateRecord} (h : call.shown m = some seen) :
    (call.run m).2.state.get call.key = seen := by
  cases call with
  | read key' =>
    simp only [StateCall.shown, StateCall.run, StateCall.key] at h ⊢
    cases hread : m.read key' with
    | none | some =>
      simp only [hread, Option.some.injEq] at h
      rw [← h]
      exact hread
  | write key' w =>
    simp only [StateCall.shown, StateCall.run, StateCall.key] at h ⊢
    obtain ⟨error, hwrite⟩ | ⟨m', hwrite, hstate, _⟩ := m.write_cases key' w
    · rw [hwrite] at h
      cases h
    · rw [hwrite] at h ⊢
      cases h
      change m'.state.get key' = _
      rw [hstate, OrderedMap.get_set_self]
  | delete key' =>
    simp only [StateCall.shown, StateCall.run, StateCall.key] at h ⊢
    cases hdelete : m.delete key' with
    | none =>
      simp only [hdelete, Option.some.injEq] at h
      rw [← h]
      unfold Memory.delete at hdelete
      split at hdelete
      case isTrue hnone => exact Option.isNone_iff_eq_none.mp hnone
      case isFalse => cases hdelete
    | some m' =>
      simp only [hdelete, Option.some.injEq] at h
      change m'.state.get key' = _
      rw [Memory.delete_eq_some hdelete, OrderedMap.get_delete_self, ← h]

/-- **A conditional write loses no update**: against the revision its caller was shown, it
overwrites what the caller was shown (a key shown absent is still or again absent, and any
other as long as nobody released it), and with no release in between no other write landed. -/
theorem conditional_write_overwrites_shown (pre mid : List StateRequest) (e r : StateRequest) {w : StateWrite}
    {seen : Option StateRecord} (h : Against pre e mid r w seen) :
    (seen = none ∨ Unreleased mid r.game e.call.key →
        (Games.run (pre ++ e :: mid) r.game).read e.call.key = seen) ∧
      (Unreleased mid r.game e.call.key → Unwritten (Games.run (pre ++ [e])) mid r.game e.call.key) := by
  obtain ⟨n, hwritten⟩ := h.applied
  have hat := revision_of_written h.call h.revision hwritten
  have hshown : (Games.run (pre ++ [e]) r.game).state.get e.call.key = seen := by
    rw [Games.run, exec_append, exec_cons, exec_nil, ← h.game, Games.step, Function.update_self]
    exact get_of_shown h.shown
  have hkept : Unreleased mid r.game e.call.key →
      (Games.run (pre ++ e :: mid) r.game).state.get e.call.key = seen ∧
        Unwritten (Games.run (pre ++ [e])) mid r.game e.call.key := by
    intro hfree
    have hexec : Games.run (pre ++ e :: mid) = exec Games.step (Games.run (pre ++ [e])) mid := by
      rw [List.append_cons, Games.run, exec_append]
      rfl
    rw [hexec] at hat ⊢
    rcases exec_key mid (Games.run (pre ++ [e])) hfree with ⟨hsame, hunwritten⟩ | hmoved
    · exact ⟨hsame.trans hshown, hunwritten⟩
    · rw [Memory.revisionAt_eq (Games.run (pre ++ [e]) r.game), hshown, hat] at hmoved
      exact absurd hmoved (Nat.lt_irrefl _)
  refine ⟨fun hwhich => ?_, fun hfree => (hkept hfree).2⟩
  rcases hwhich with rfl | hfree
  · -- revision zero is the revision of a key that holds nothing, and of no other
    have hzero : (Games.run (pre ++ e :: mid) r.game).revisionAt e.call.key = 0 := hat.symm
    rw [Memory.revisionAt_eq] at hzero
    cases hget : (Games.run (pre ++ e :: mid) r.game).state.get e.call.key with
    | none => exact hget
    | some record =>
      have hpos := counting_run _ _ _ _ hget
      rw [hget] at hzero
      exact absurd hzero (Nat.ne_of_gt hpos)
  · exact (hkept hfree).1

/-- One caller reads what another wrote, and writes against it while a third key changes. -/
theorem conditional_write_overwrites_shown_held :
    (Games.run ([⟨2, "g", .write "k" ⟨"a", none⟩⟩] ++ ⟨1, "g", .read "k"⟩ :: [⟨2, "g", .write "l" ⟨"b", none⟩⟩]) "g").read "k" =
      some ⟨"k", "a", 1⟩ :=
  (conditional_write_overwrites_shown [⟨2, "g", .write "k" ⟨"a", none⟩⟩] [⟨2, "g", .write "l" ⟨"b", none⟩⟩]
    ⟨1, "g", .read "k"⟩ ⟨1, "g", .write "k" ⟨"c", some 1⟩⟩ ⟨rfl, rfl, rfl, by decide, rfl, 2, by decide⟩).1 (.inr (by decide))

/-- A key released and written again is at revision one once more: the write of a caller shown
the old value there lands on the new one. -/
theorem write_overwrites_unseen : ¬ ∀ (pre mid : List StateRequest) (e r : StateRequest) (w : StateWrite)
    (seen : Option StateRecord), Against pre e mid r w seen →
      (Games.run (pre ++ e :: mid) r.game).read e.call.key = seen := by
  intro h
  have hunseen := h [⟨2, "g", .write "k" ⟨"a", none⟩⟩] [⟨2, "g", .delete "k"⟩, ⟨2, "g", .write "k" ⟨"b", none⟩⟩]
    ⟨1, "g", .read "k"⟩ ⟨1, "g", .write "k" ⟨"c", some 1⟩⟩ ⟨"c", some 1⟩ (some ⟨"k", "a", 1⟩)
    ⟨rfl, rfl, rfl, by decide, rfl, 2, by decide⟩
  revert hunseen
  decide

end Manager
end Grove
