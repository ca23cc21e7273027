import Grove.Lib.OrderedMap

/-! # The state of one game

`apps/grove/game-manager/internal/store/memory.go` and `server/state.go`: the rows of one game under
their keys, what a write spends, and what the two handlers a session calls answer.  A revision counts
the writes of its key. -/

namespace Grove
namespace Manager

structure StateRecord where
  key : String
  value : String
  revision : ℕ
deriving DecidableEq

structure StateWrite where
  value : String
  ifRevision : Option ℕ
deriving DecidableEq

/-- `ErrNotFound` is `Read`'s alone. -/
inductive StoreError where
  | stale
  | tooManyKeys
  | gameFull
deriving DecidableEq

structure Budget where
  keys : ℕ
  bytes : ℤ
deriving DecidableEq

/-- The rows of one game, and what they spend of its bounds. -/
structure Memory where
  state : OrderedMap String StateRecord
  spent : Budget

def maxGameKeys : ℕ := 10000

def maxGameBytes : ℤ := 33554432

def stateKeyMaxLen : ℕ := 256

namespace Memory

variable (m : Memory) (key : String)

def new : Memory := ⟨.empty, ⟨0, 0⟩⟩

def read : Option StateRecord := m.state.get key

/-- A key never written is at revision zero. -/
def revisionAt : ℕ := ((m.state.get key).map StateRecord.revision).getD 0

/-- The bytes the row of a key holds. -/
def heldBytes : ℤ := ((m.state.get key).map fun record => (record.value.utf8ByteSize : ℤ)).getD 0

def spentAfter (w : StateWrite) : Budget where
  keys := if (m.state.get key).isNone then m.spent.keys + 1 else m.spent.keys
  bytes := m.spent.bytes + (w.value.utf8ByteSize - m.heldBytes key)

def write (w : StateWrite) : Except StoreError ℕ × Memory :=
  if w.ifRevision.isSome ∧ w.ifRevision ≠ some (m.revisionAt key) then (.error .stale, m)
  else if (m.state.get key).isNone ∧ maxGameKeys ≤ m.spent.keys then (.error .tooManyKeys, m)
  else if maxGameBytes < m.spent.bytes - m.heldBytes key + w.value.utf8ByteSize then (.error .gameFull, m)
  else
    let next := m.revisionAt key + 1
    (.ok next,
      { state := m.state.set key ⟨key, w.value, next⟩
        spent := m.spentAfter key w })

/-- A refused write leaves the rows as they were; an applied one was against the revision its key is
at, and moves that key one past it. -/
theorem write_cases (w : StateWrite) :
    (∃ error, m.write key w = (.error error, m)) ∨
      ∃ m', m.write key w = (.ok (m.revisionAt key + 1), m') ∧
        m'.state = m.state.set key ⟨key, w.value, m.revisionAt key + 1⟩ ∧
        ∀ r, w.ifRevision = some r → r = m.revisionAt key := by
  unfold write
  split_ifs with hstale hkeys hbytes
  · exact .inl ⟨_, rfl⟩
  · exact .inl ⟨_, rfl⟩
  · exact .inl ⟨_, rfl⟩
  · refine .inr ⟨_, rfl, rfl, ?_⟩
    intro r hr
    by_contra hne
    refine hstale ⟨by rw [hr]; rfl, ?_⟩
    rw [hr]
    exact fun heq => hne (Option.some.inj heq)

end Memory

/-! ### The handlers -/

inductive Body where
  | record (record : StateRecord)
  | written (revision : ℕ)
  | error
deriving DecidableEq

structure Response where
  status : ℕ
  body : Body
deriving DecidableEq

/-- `stateKey`: the key a request names, bounded. -/
def stateKey (key : String) : Bool := !(key = "" || stateKeyMaxLen < key.utf8ByteSize)

def readState (m : Memory) (key : String) : Response :=
  if stateKey key then
    match m.read key with
    | none => ⟨404, .error⟩
    | some record => ⟨200, .record record⟩
  else ⟨400, .error⟩

def writeState (m : Memory) (key : String) (w : StateWrite) : Response × Memory :=
  if stateKey key then
    if w.value.utf8ByteSize = 0 then (⟨400, .error⟩, m)
    else
      match m.write key w with
      | (.error .stale, m) => (⟨409, .error⟩, m)
      | (.error .tooManyKeys, m) => (⟨413, .error⟩, m)
      | (.error .gameFull, m) => (⟨413, .error⟩, m)
      | (.ok revision, m) => (⟨200, .written revision⟩, m)
  else (⟨400, .error⟩, m)

/-- A read answers with no revision past the one its key is at. -/
theorem readState_record {m : Memory} {key : String} {record : StateRecord}
    (h : (readState m key).body = .record record) : record.revision = m.revisionAt key := by
  unfold readState at h
  split_ifs at h
  cases hrow : m.read key with
  | none =>
    rw [hrow] at h
    cases h
  | some row =>
    rw [hrow] at h
    cases h
    unfold Memory.revisionAt
    rw [show m.state.get key = some record from hrow]
    rfl

theorem readState_written (m : Memory) (key : String) (revision : ℕ) :
    (readState m key).body ≠ .written revision := by
  unfold readState
  split_ifs
  · cases m.read key <;> exact fun h => by cases h
  · exact fun h => by cases h

/-- A write the handler applied, or one that left everything as it was. -/
theorem writeState_cases (m : Memory) (key : String) (w : StateWrite) :
    (∃ status, writeState m key w = (⟨status, .error⟩, m)) ∨
      ∃ m', writeState m key w = (⟨200, .written (m.revisionAt key + 1)⟩, m') ∧
        m'.state = m.state.set key ⟨key, w.value, m.revisionAt key + 1⟩ ∧
        ∀ r, w.ifRevision = some r → r = m.revisionAt key := by
  unfold writeState
  split_ifs with hkey hvalue
  · exact .inl ⟨_, rfl⟩
  · rcases m.write_cases key w with ⟨error, hwrite⟩ | ⟨m', hwrite, hstate, hrevision⟩
    · rw [hwrite]
      cases error <;> exact .inl ⟨_, rfl⟩
    · rw [hwrite]
      exact .inr ⟨m', rfl, hstate, hrevision⟩
  · exact .inl ⟨_, rfl⟩

theorem revisionAt_set {m m' : Memory} {key : String} {record : StateRecord}
    (h : m'.state = m.state.set key record) (key' : String) :
    m'.revisionAt key' = if key' = key then record.revision else m.revisionAt key' := by
  unfold Memory.revisionAt
  rw [h, OrderedMap.get_set]
  split_ifs <;> rfl

end Manager
end Grove
