import Mathlib.Tactic

/-! # A stream with a consumer group

A log of entries under increasing ids, read by one group of consumers: `add` appends,
`trim` forgets entries from the front, `read` hands the first undelivered entry to a
consumer, which keeps it in the group's pending list until `ack`, and `claim` passes a
pending entry to another consumer, or forgets that it was pending when the entry itself has
been trimmed.  A stream without a group has delivered nothing: a group is created at the
front.

An entry is owed while some read or claim can still hand it out.  `Owes` follows a payload
rather than an id, and the lemmas say what each operation does to it: only `trim` and the
`ack` of an entry of that payload can end it. -/

namespace Grove

/-- What a group has delivered: the entries below `next`, those in `pending` not yet
acknowledged, each with the consumer that holds it. -/
structure ConsumerGroup where
  next : ℕ
  pending : List (ℕ × ℕ)
deriving DecidableEq, Repr

/-- A stream, its ids increasing and below the id of the next entry. -/
structure EntryStream (α : Type) where
  entries : List (ℕ × α)
  nextId : ℕ
  group : Option ConsumerGroup
  sorted : (entries.map Prod.fst).Pairwise (· < ·)
  bounded : ∀ e ∈ entries, e.1 < nextId

namespace EntryStream

variable {α : Type}

def empty : EntryStream α := ⟨[], 0, none, .nil, by simp⟩

variable (s : EntryStream α)

def add (a : α) : EntryStream α where
  entries := s.entries ++ [(s.nextId, a)]
  nextId := s.nextId + 1
  group := s.group
  sorted := by
    rw [List.map_append, List.pairwise_append]
    refine ⟨s.sorted, List.pairwise_singleton _ _, ?_⟩
    intro id hid id' hid'
    obtain ⟨e, he, rfl⟩ := List.mem_map.mp hid
    obtain rfl : id' = s.nextId := by simpa using hid'
    exact s.bounded e he
  bounded := by
    intro e he
    rcases List.mem_append.mp he with he | he
    · exact Nat.lt_succ_of_lt (s.bounded e he)
    · rw [List.mem_singleton.mp he]
      exact Nat.lt_succ_self _

/-- Forget `n` entries from the front, when the newest `maxlen` are not among them. -/
def trim (maxlen n : ℕ) : EntryStream α :=
  if maxlen + n ≤ s.entries.length then
    { s with
      entries := s.entries.drop n
      sorted := by rw [List.map_drop]; exact s.sorted.sublist (List.drop_sublist _ _)
      bounded := fun e he => s.bounded e (List.mem_of_mem_drop he) }
  else s

/-- The first undelivered entry. -/
def undelivered (g : ConsumerGroup) : Option (ℕ × α) := s.entries.find? fun e => g.next ≤ e.1

/-- Hand the first undelivered entry to a consumer; without a group there is none to read. -/
def read (consumer : ℕ) : Option ((ℕ × α) × EntryStream α) :=
  match s.group with
  | none => none
  | some g => (s.undelivered g).map fun e => (e, { s with group := some ⟨e.1 + 1, (e.1, consumer) :: g.pending⟩ })

/-- Pass a pending entry to a consumer, or forget it when it has been trimmed. -/
def claim (consumer id : ℕ) : Option (ℕ × α) × EntryStream α :=
  match s.group with
  | none => (none, s)
  | some g =>
    if id ∈ g.pending.map Prod.fst then
      match s.entries.find? (fun e => e.1 = id) with
      | some e =>
        (some e, { s with group := some { g with
          pending := g.pending.map fun p => if p.1 = id then (id, consumer) else p } })
      | none => (none, { s with group := some { g with pending := g.pending.filter fun p => p.1 ≠ id } })
    else (none, s)

def ack (id : ℕ) : EntryStream α :=
  { s with group := s.group.map fun g => { g with pending := g.pending.filter fun p => p.1 ≠ id } }

/-- Create the group at the front, where there is none. -/
def createGroup : EntryStream α := { s with group := some (s.group.getD ⟨0, []⟩) }

def destroyGroup : EntryStream α := { s with group := none }

/-- Some read or claim can still hand out the entry of this id. -/
def Owed (id : ℕ) : Prop :=
  match s.group with
  | none => True
  | some g => g.next ≤ id ∨ id ∈ g.pending.map Prod.fst

/-- Some entry of this payload is owed. -/
def Owes (a : α) : Prop := ∃ e ∈ s.entries, e.2 = a ∧ s.Owed e.1

variable {s} {s' : EntryStream α} {a b : α} {e : ℕ × α} {consumer id : ℕ}

/-- No two entries share an id. -/
theorem eq_of_id (s : EntryStream α) {e e' : ℕ × α} (he : e ∈ s.entries) (he' : e' ∈ s.entries) (h : e.1 = e'.1) : e = e' := by
  have hnodup : (s.entries.map Prod.fst).Nodup := s.sorted.imp Nat.ne_of_lt
  exact List.inj_on_of_nodup_map hnodup he he' h

theorem entries_of_read (h : s.read consumer = some (e, s')) : s'.entries = s.entries ∧ s'.nextId = s.nextId := by
  unfold EntryStream.read at h
  split at h
  · cases h
  · simp only [Option.map_eq_some_iff, Prod.mk.injEq] at h
    obtain ⟨_, _, _, rfl⟩ := h
    exact ⟨rfl, rfl⟩

@[simp] theorem entries_claim (s : EntryStream α) (consumer id : ℕ) :
    (s.claim consumer id).2.entries = s.entries ∧ (s.claim consumer id).2.nextId = s.nextId := by
  unfold EntryStream.claim
  split
  · exact ⟨rfl, rfl⟩
  · split
    · split <;> exact ⟨rfl, rfl⟩
    · exact ⟨rfl, rfl⟩

/-- A trim only forgets. -/
theorem trim_sub (s : EntryStream α) (maxlen n : ℕ) :
    (s.trim maxlen n).nextId = s.nextId ∧ ∀ e ∈ (s.trim maxlen n).entries, e ∈ s.entries := by
  unfold trim
  split
  · exact ⟨rfl, fun e he => List.mem_of_mem_drop he⟩
  · exact ⟨rfl, fun e he => he⟩

@[simp] theorem trim_zero (s : EntryStream α) (maxlen : ℕ) : s.trim maxlen 0 = s := by
  unfold trim
  split <;> rfl

theorem Owes.add (h : s.Owes a) (b : α) : (s.add b).Owes a := by
  obtain ⟨e, he, rfl, howed⟩ := h
  exact ⟨e, List.mem_append_left _ he, rfl, howed⟩

/-- An entry handed out stays owed, and nothing else stops being. -/
theorem owes_of_read (h : s.read consumer = some (e, s')) :
    e ∈ s.entries ∧ s'.Owes e.2 ∧ ∀ a, s.Owes a → s'.Owes a := by
  unfold EntryStream.read at h
  cases hg : s.group with
  | none =>
    rw [hg] at h
    cases h
  | some g =>
    simp only [hg, Option.map_eq_some_iff, Prod.mk.injEq] at h
    obtain ⟨first, hfind, rfl, rfl⟩ := h
    have hmem := List.mem_of_find?_eq_some hfind
    refine ⟨hmem, ⟨_, hmem, rfl, .inr (by simp)⟩, ?_⟩
    rintro a ⟨e', he', rfl, howed⟩
    refine ⟨e', he', rfl, ?_⟩
    simp only [Owed, hg] at howed
    -- an undelivered entry is the one handed out or stands behind it
    rcases howed with hnext | hpending
    · by_cases hsame : e'.1 = first.1
      · exact .inr (by simp [hsame])
      · refine .inl ?_
        obtain ⟨before, after, hsplit, hbefore⟩ := (List.find?_eq_some_iff_append.mp hfind).2
        rw [hsplit] at he'
        rcases List.mem_append.mp he' with hin | hin
        · have := hbefore e' hin
          simp only [Bool.not_eq_true', decide_eq_false_iff_not] at this
          exact absurd hnext this
        · rcases List.mem_cons.mp hin with rfl | hin
          · exact absurd rfl hsame
          · have hsorted := s.sorted
            rw [hsplit, List.map_append, List.map_cons, List.pairwise_append, List.pairwise_cons] at hsorted
            exact hsorted.2.1.1 _ (List.mem_map_of_mem hin)
    · exact .inr (List.mem_cons_of_mem _ hpending)

/-- A claim leaves every entry owed that was, the one it hands out among them. -/
theorem owes_of_claim (s : EntryStream α) (consumer id : ℕ) :
    (∀ e, (s.claim consumer id).1 = some e → e ∈ s.entries ∧ e.1 = id ∧ (s.claim consumer id).2.Owes e.2) ∧
      ∀ a, s.Owes a → (s.claim consumer id).2.Owes a := by
  unfold EntryStream.claim
  cases hg : s.group with
  | none => exact ⟨nofun, fun a h => h⟩
  | some g =>
    simp only
    split
    case isFalse => exact ⟨nofun, fun a h => h⟩
    case isTrue hpending =>
      cases hfind : s.entries.find? (fun e => e.1 = id) with
      | some e =>
        have hmem := List.mem_of_find?_eq_some hfind
        have hid : e.1 = id := by simpa using List.find?_some hfind
        have hfst : (g.pending.map fun p => if p.1 = id then (id, consumer) else p).map Prod.fst =
            g.pending.map Prod.fst := by
          rw [List.map_map]
          refine List.map_congr_left fun p _ => ?_
          by_cases hp : p.1 = id
          · simp [hp]
          · simp [hp]
        have howes : ∀ a, s.Owes a → Owes { s with group := some { g with
            pending := g.pending.map fun p => if p.1 = id then (id, consumer) else p } } a := by
          rintro a ⟨e', he', rfl, howed⟩
          refine ⟨e', he', rfl, ?_⟩
          simpa only [Owed, hg, hfst] using howed
        refine ⟨?_, howes⟩
        intro e' he'
        cases he'
        exact ⟨hmem, hid, howes e.2 ⟨e, hmem, rfl, by simpa only [Owed, hg, hid] using Or.inr hpending⟩⟩
      | none =>
        refine ⟨nofun, ?_⟩
        rintro a ⟨e', he', rfl, howed⟩
        refine ⟨e', he', rfl, ?_⟩
        have hne : e'.1 ≠ id := by simpa using List.find?_eq_none.mp hfind e' he'
        simp only [Owed, hg] at howed ⊢
        refine howed.imp_right fun hin => ?_
        obtain ⟨p, hp, heq⟩ := List.mem_map.mp hin
        exact List.mem_map.mpr ⟨p, List.mem_filter.mpr ⟨hp, by simp [heq, hne]⟩, heq⟩

/-- An acknowledgement ends what is owed of its own entry only. -/
theorem Owes.ack (h : s.Owes a) (hid : ∀ e ∈ s.entries, e.1 = id → e.2 ≠ a) : (s.ack id).Owes a := by
  obtain ⟨e, he, rfl, howed⟩ := h
  refine ⟨e, he, rfl, ?_⟩
  have hne : e.1 ≠ id := fun heq => hid e he heq rfl
  cases hg : s.group with
  | none => simp [Owed, EntryStream.ack, hg]
  | some g =>
    simp only [Owed, EntryStream.ack, hg, Option.map_some] at howed ⊢
    refine howed.imp_right fun hin => ?_
    obtain ⟨p, hp, heq⟩ := List.mem_map.mp hin
    exact List.mem_map.mpr ⟨p, List.mem_filter.mpr ⟨hp, by simp [heq, hne]⟩, heq⟩

/-- A group made anew delivers everything again. -/
theorem Owes.createGroup (h : s.Owes a) : s.createGroup.Owes a := by
  obtain ⟨e, he, rfl, howed⟩ := h
  refine ⟨e, he, rfl, ?_⟩
  cases hg : s.group with
  | none => simp [Owed, EntryStream.createGroup, hg]
  | some g => simpa [Owed, EntryStream.createGroup, hg] using howed

theorem Owes.destroyGroup (h : s.Owes a) : s.destroyGroup.Owes a := by
  obtain ⟨e, he, rfl, _⟩ := h
  exact ⟨e, he, rfl, trivial⟩

end EntryStream

end Grove
