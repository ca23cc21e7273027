import Grove.Lib.Run
import Grove.Lib.Totals

/-! # What the games of a process spend

`Memory.Write` and `Memory.Delete` of `apps/grove/game-manager/internal/store/memory.go`, over the rows of every
game.  A budget is carried beside the rows and adjusted by what a call changes; `Exact` compares it with them.  Keys
and values are bytes. -/

namespace Grove
namespace Manager
namespace Store

structure StateRecord where
  key : List UInt8
  value : List UInt8
  revision : ℤ
deriving DecidableEq

structure StateWrite where
  value : List UInt8
  ifRevision : Option ℤ

/-- The game first, so that no key reaches a row without naming the game that owns it. -/
structure Row where
  game : List UInt8
  name : List UInt8
deriving DecidableEq

structure Budget where
  keys : ℤ
  bytes : ℤ
deriving DecidableEq

structure Memory where
  state : OrderedMap Row StateRecord
  spent : OrderedMap (List UInt8) Budget

inductive StoreError where
  | notFound
  | stale
  | tooManyKeys
  | gameFull
deriving DecidableEq

def maxGameKeys : ℤ := 10000

def maxGameBytes : ℤ := 33554432

namespace Memory

def newMemory : Memory := ⟨.empty, .empty⟩

variable (m : Memory)

/-- What a game has spent; one never written has spent nothing. -/
def budget (game : List UInt8) : Budget := (m.spent.get game).getD ⟨0, 0⟩

def write (game key : List UInt8) (w : StateWrite) : Except StoreError ℤ × Memory :=
  let row : Row := ⟨game, key⟩
  let held := m.state.get row
  let heldLen : ℤ := (held.map fun record => (record.value.length : ℤ)).getD 0
  let current := (held.map StateRecord.revision).getD 0
  if w.ifRevision.isSome ∧ w.ifRevision ≠ some current then (.error .stale, m)
  else
    let spent := m.budget game
    if held.isNone ∧ maxGameKeys ≤ spent.keys then (.error .tooManyKeys, m)
    else if maxGameBytes < spent.bytes - heldLen + w.value.length then (.error .gameFull, m)
    else
      let next := current + 1
      let keys := if held.isNone then spent.keys + 1 else spent.keys
      (.ok next,
        { state := m.state.set row ⟨key, w.value, next⟩
          spent := m.spent.set game ⟨keys, spent.bytes + (w.value.length - heldLen)⟩ })

def delete (game key : List UInt8) : Except StoreError Unit × Memory :=
  match m.state.get ⟨game, key⟩ with
  | none => (.error .notFound, m)
  | some held =>
    let spent := m.budget game
    (.ok (),
      { state := m.state.delete ⟨game, key⟩
        spent := m.spent.set game ⟨spent.keys - 1, spent.bytes - held.value.length⟩ })

/-! ### Calls -/

inductive Call where
  | write (game key : List UInt8) (w : StateWrite)
  | delete (game key : List UInt8)

def Call.game : Call → List UInt8
  | .write game _ _ => game
  | .delete game _ => game

/-- The store after a call, and the error it returned. -/
def call : Call → Option StoreError × Memory
  | .write game key w =>
    match m.write game key w with
    | (.error error, m) => (some error, m)
    | (.ok _, m) => (none, m)
  | .delete game key =>
    match m.delete game key with
    | (.error error, m) => (some error, m)
    | (.ok _, m) => (none, m)

def step (c : Call) : Memory := (m.call c).2

/-- The rows of a game. -/
def rows (game : List UInt8) : List (Row × StateRecord) := m.state.entries.filter fun e => e.1.game = game

/-- What a call that returns no error makes of the store: one row is set or deleted, and its game's budget moves by
the difference. -/
inductive Applied : Call → Memory → Prop
  | written (game key : List UInt8) (w : StateWrite) (revision : ℤ)
      (hkeys : m.state.get ⟨game, key⟩ = none → (m.budget game).keys < maxGameKeys)
      (hbytes : (m.budget game).bytes - m.state.share (fun _ record => record.value.length) ⟨game, key⟩ +
        w.value.length ≤ maxGameBytes) :
      Applied (.write game key w)
        ⟨m.state.set ⟨game, key⟩ ⟨key, w.value, revision⟩,
          m.spent.set game ⟨(m.budget game).keys - m.state.share (fun _ _ => 1) ⟨game, key⟩ + 1,
            (m.budget game).bytes - m.state.share (fun _ record => record.value.length) ⟨game, key⟩ + w.value.length⟩⟩
  | deleted (game key : List UInt8) :
      Applied (.delete game key)
        ⟨m.state.delete ⟨game, key⟩,
          m.spent.set game ⟨(m.budget game).keys - m.state.share (fun _ _ => 1) ⟨game, key⟩,
            (m.budget game).bytes - m.state.share (fun _ record => record.value.length) ⟨game, key⟩⟩⟩

theorem write_cases (game key : List UInt8) (w : StateWrite) :
    (∃ error, m.write game key w = (.error error, m)) ∨
      ∃ revision m', m.write game key w = (.ok revision, m') ∧ m.Applied (.write game key w) m' := by
  unfold write
  dsimp only
  by_cases hstale : w.ifRevision.isSome ∧
      w.ifRevision ≠ some (((m.state.get ⟨game, key⟩).map StateRecord.revision).getD 0)
  · rw [if_pos hstale]
    exact .inl ⟨_, rfl⟩
  rw [if_neg hstale]
  by_cases hkeys : (m.state.get ⟨game, key⟩).isNone ∧ maxGameKeys ≤ (m.budget game).keys
  · rw [if_pos hkeys]
    exact .inl ⟨_, rfl⟩
  rw [if_neg hkeys]
  have hfew : m.state.get ⟨game, key⟩ = none → (m.budget game).keys < maxGameKeys :=
    fun hnone => lt_of_not_ge fun hle => hkeys ⟨by rw [hnone]; rfl, hle⟩
  by_cases hbytes : maxGameBytes < (m.budget game).bytes -
      m.state.share (fun _ record => record.value.length) ⟨game, key⟩ + w.value.length
  · exact .inl ⟨_, if_pos hbytes⟩
  · refine .inr ⟨_, _, if_neg hbytes, ?_⟩
    convert Applied.written (m := m) game key w _ hfew (not_lt.mp hbytes) using 4
    · cases hheld : m.state.get ⟨game, key⟩ with
      | none | some => simp [OrderedMap.share, hheld]
    · unfold OrderedMap.share
      ring

theorem call_cases (c : Call) :
    (∃ error, m.call c = (some error, m)) ∨ ∃ m', m.call c = (none, m') ∧ m.Applied c m' := by
  cases c with
  | write game key w =>
    rw [call]
    obtain ⟨error, h⟩ | ⟨revision, m', h, happlied⟩ := m.write_cases game key w
    · rw [h]
      exact .inl ⟨error, rfl⟩
    · rw [h]
      exact .inr ⟨m', rfl, happlied⟩
  | delete game key =>
    rw [call, delete]
    cases hheld : m.state.get ⟨game, key⟩ with
    | none => exact .inl ⟨_, rfl⟩
    | some held =>
      refine .inr ⟨_, rfl, ?_⟩
      have happlied := Applied.deleted (m := m) game key
      simpa only [OrderedMap.share, hheld, Option.map_some, Option.getD_some] using happlied

/-! ### Exact budgets -/

/-- The budgets are what the rows come to, and inside the bounds of a game. -/
structure Exact : Prop where
  keys : ∀ game, (m.budget game).keys = (m.rows game).length
  bytes : ∀ game, (m.budget game).bytes = ((m.rows game).map fun e => (e.2.value.length : ℤ)).sum
  keys_le : ∀ game, (m.budget game).keys ≤ maxGameKeys
  bytes_le : ∀ game, (m.budget game).bytes ≤ maxGameBytes

theorem exact_newMemory : newMemory.Exact where
  keys := fun _ => rfl
  bytes := fun _ => rfl
  keys_le := fun _ => show (0 : ℤ) ≤ maxGameKeys by decide
  bytes_le := fun _ => show (0 : ℤ) ≤ maxGameBytes by decide

variable {m}

/-- What the rows of a game come to, each counted as `f` counts it. -/
def amount (f : StateRecord → ℤ) (state : OrderedMap Row StateRecord) (game : List UInt8) : ℤ :=
  state.total fun row record => if row.game = game then f record else 0

theorem length_rows (m : Memory) (game : List UInt8) : ((m.rows game).length : ℤ) = amount (fun _ => 1) m.state game := by
  rw [amount, OrderedMap.total_ite (fun row : Row => row.game = game) (fun _ => 1)]
  simp [rows]

theorem bytes_rows (m : Memory) (game : List UInt8) : ((m.rows game).map fun e => (e.2.value.length : ℤ)).sum =
    amount (fun record => record.value.length) m.state game :=
  (OrderedMap.total_ite (fun row : Row => row.game = game) (fun record : StateRecord => (record.value.length : ℤ)) _).symm

/-- A row has no share in the amount of another game. -/
theorem share_ite (f : StateRecord → ℤ) (state : OrderedMap Row StateRecord) (row : Row) (game : List UInt8) :
    state.share (fun row record => if row.game = game then f record else 0) row =
      if row.game = game then state.share (fun _ => f) row else 0 := by
  unfold OrderedMap.share
  cases state.get row with
  | none | some => simp

theorem amount_set (f : StateRecord → ℤ) (state : OrderedMap Row StateRecord) (row : Row) (record : StateRecord)
    (game : List UInt8) : amount f (state.set row record) game =
      if row.game = game then amount f state game - state.share (fun _ => f) row + f record else amount f state game := by
  rw [amount, OrderedMap.total_set, share_ite]
  split_ifs
  · rfl
  · rw [sub_zero, add_zero, amount]

theorem amount_delete (f : StateRecord → ℤ) (state : OrderedMap Row StateRecord) (row : Row) (game : List UInt8) :
    amount f (state.delete row) game =
      if row.game = game then amount f state game - state.share (fun _ => f) row else amount f state game := by
  rw [amount, OrderedMap.total_delete, share_ite]
  split_ifs
  · rfl
  · rw [sub_zero, amount]

theorem budget_set (m : Memory) (state : OrderedMap Row StateRecord) (game game' : List UInt8) (b : Budget) :
    Memory.budget ⟨state, m.spent.set game b⟩ game' = if game = game' then b else m.budget game' := by
  unfold budget
  rw [OrderedMap.get_set]
  split_ifs with h h' h'
  · rfl
  · exact absurd h.symm h'
  · exact absurd h'.symm h
  · rfl

/-- A key that is held counts for one. -/
theorem share_one (state : OrderedMap Row StateRecord) (row : Row) :
    state.share (fun _ _ => 1) row = if state.get row = none then 0 else 1 := by
  unfold OrderedMap.share
  cases state.get row <;> rfl

/-- What a call makes of the rows of its game is what it makes of the budget. -/
theorem Applied.exact {c : Call} {m' : Memory} (h : m.Applied c m') (hexact : m.Exact) : m'.Exact := by
  obtain ⟨hkeys, hbytes, hkeysLe, hbytesLe⟩ := hexact
  simp only [length_rows] at hkeys
  simp only [bytes_rows] at hbytes
  cases h with
  | written game key w revision hfew hroom =>
    refine ⟨fun game' => ?_, fun game' => ?_, fun game' => ?_, fun game' => ?_⟩
    · rw [budget_set, length_rows, amount_set]
      split_ifs with h
      · rw [← h, ← hkeys]
      · exact hkeys game'
    · rw [budget_set, bytes_rows, amount_set]
      split_ifs with h
      · rw [← h, ← hbytes]
      · exact hbytes game'
    · rw [budget_set]
      split_ifs
      · rw [share_one]
        have hle := hkeysLe game
        split_ifs with hnone
        · have hlt := hfew hnone
          simp only
          omega
        · simp only
          omega
      · exact hkeysLe game'
    · rw [budget_set]
      split_ifs
      · exact hroom
      · exact hbytesLe game'
  | deleted game key =>
    refine ⟨fun game' => ?_, fun game' => ?_, fun game' => ?_, fun game' => ?_⟩
    · rw [budget_set, length_rows, amount_delete]
      split_ifs with h
      · rw [← h, ← hkeys]
      · exact hkeys game'
    · rw [budget_set, bytes_rows, amount_delete]
      split_ifs with h
      · rw [← h, ← hbytes]
      · exact hbytes game'
    · rw [budget_set]
      split_ifs
      · have hle := hkeysLe game
        rw [share_one]
        simp only
        split_ifs <;> omega
      · exact hkeysLe game'
    · rw [budget_set]
      split_ifs
      · have hle := hbytesLe game
        have hshare : 0 ≤ m.state.share (fun _ record => (record.value.length : ℤ)) ⟨game, key⟩ := by
          unfold OrderedMap.share
          cases m.state.get ⟨game, key⟩ with
          | none => exact le_rfl
          | some record => exact Int.natCast_nonneg _
        simp only
        omega
      · exact hbytesLe game'

/-! ### Calls apart from each other -/

/-- The rows and the budget of a game. -/
def SameGame (m m' : Memory) (game : List UInt8) : Prop :=
  m'.budget game = m.budget game ∧ ∀ name, m'.state.get ⟨game, name⟩ = m.state.get ⟨game, name⟩

theorem Applied.sameGame {c : Call} {m' : Memory} (h : m.Applied c m') {game : List UInt8} (hne : game ≠ c.game) :
    SameGame m m' game := by
  cases h with
  | written game' key w revision =>
    refine ⟨?_, fun name => OrderedMap.get_set_of_ne _ (fun heq => hne (congrArg Row.game heq)) _⟩
    rw [budget_set, if_neg fun heq => hne heq.symm]
  | deleted game' key =>
    refine ⟨?_, fun name => OrderedMap.get_delete_of_ne _ fun heq => hne (congrArg Row.game heq)⟩
    rw [budget_set, if_neg fun heq => hne heq.symm]

theorem Exact.step (h : m.Exact) (c : Call) : (m.step c).Exact := by
  rw [Memory.step]
  obtain ⟨error, hcall⟩ | ⟨m', hcall, happlied⟩ := m.call_cases c
  · rw [hcall]
    exact h
  · rw [hcall]
    exact happlied.exact h

/-- After any calls the budgets are exact and bounded, a call that returns an error changes nothing, and no call
changes another game. -/
theorem budgets_exact (calls : List Call) : (exec step newMemory calls).Exact ∧
    ∀ c, (((exec step newMemory calls).call c).1.isSome →
        ((exec step newMemory calls).call c).2 = exec step newMemory calls) ∧
      ∀ game ≠ c.game, SameGame (exec step newMemory calls) (step (exec step newMemory calls) c) game := by
  refine ⟨exec_invariant (fun _ c h => h.step c) exact_newMemory calls, fun c => ?_⟩
  generalize exec step newMemory calls = m
  rw [Memory.step]
  obtain ⟨error, hcall⟩ | ⟨m', hcall, happlied⟩ := m.call_cases c
  · rw [hcall]
    exact ⟨fun _ => rfl, fun game _ => ⟨rfl, fun _ => rfl⟩⟩
  · rw [hcall]
    exact ⟨nofun, fun game hne => happlied.sameGame hne⟩

end Memory
end Store
end Manager
end Grove
