import Mathlib.Tactic

/-! # Insertion-ordered finite maps

`OrderedMap κ ν` is a finite map that remembers the order in which its keys were first
written: `set` on a key already present replaces the value in place, on a new key it
appends, and `delete` forgets the key.  Distinctness of the keys is a field, so a map
with a repeated key cannot be built.

Reads are characterised by `get_set` and `get_delete`; `mem_entries_iff` connects an
iteration over the entries to `get`.  `addNew` is the companion for insertion-ordered
sets kept as lists. -/

namespace Grove

/-- A finite map with distinct keys, in the order the keys were first written. -/
structure OrderedMap (κ ν : Type) where
  entries : List (κ × ν)
  nodup : (entries.map Prod.fst).Nodup

namespace OrderedMap

variable {κ ν : Type} [DecidableEq κ]

instance [DecidableEq ν] : DecidableEq (OrderedMap κ ν) := fun m m' =>
  decidable_of_iff (m.entries = m'.entries) ⟨fun h => by cases m; cases m'; simp_all, fun h => by rw [h]⟩

instance : Inhabited (OrderedMap κ ν) := ⟨⟨[], List.nodup_nil⟩⟩

/-- The map with no entry. -/
def empty : OrderedMap κ ν := ⟨[], List.nodup_nil⟩

/-- The value under `k` in an entry list. -/
def lookup (k : κ) : List (κ × ν) → Option ν
  | [] => none
  | (k', v) :: rest => if k' = k then some v else lookup k rest

@[simp] theorem lookup_nil (k : κ) : lookup k ([] : List (κ × ν)) = none := rfl
@[simp] theorem lookup_cons (k k' : κ) (v : ν) (rest : List (κ × ν)) :
    lookup k ((k', v) :: rest) = if k' = k then some v else lookup k rest := rfl

/-- Replace in place, or append. -/
def setEntries (k : κ) (v : ν) : List (κ × ν) → List (κ × ν)
  | [] => [(k, v)]
  | (k', v') :: rest => if k' = k then (k, v) :: rest else (k', v') :: setEntries k v rest

theorem map_fst_setEntries (k : κ) (v : ν) : ∀ l : List (κ × ν),
    (setEntries k v l).map Prod.fst =
      if k ∈ l.map Prod.fst then l.map Prod.fst else l.map Prod.fst ++ [k]
  | [] => by simp [setEntries]
  | (k', v') :: rest => by
    have ih := map_fst_setEntries k v rest
    by_cases h : k' = k
    · simp [setEntries, h]
    · have h' : ¬ k = k' := Ne.symm h
      simp only [setEntries, h, if_false, List.map_cons, ih, List.mem_cons, h', false_or]
      split_ifs <;> simp

theorem nodup_setEntries (k : κ) (v : ν) {l : List (κ × ν)} (h : (l.map Prod.fst).Nodup) :
    ((setEntries k v l).map Prod.fst).Nodup := by
  rw [map_fst_setEntries]
  split_ifs with hk
  · exact h
  · refine List.nodup_append.mpr ⟨h, List.nodup_singleton k, ?_⟩
    intro a ha b hb
    rw [List.mem_singleton] at hb
    rintro rfl
    exact hk (hb ▸ ha)

variable (m : OrderedMap κ ν)

def get (k : κ) : Option ν := lookup k m.entries

def has (k : κ) : Bool := (m.get k).isSome

def set (k : κ) (v : ν) : OrderedMap κ ν := ⟨setEntries k v m.entries, nodup_setEntries k v m.nodup⟩

def delete (k : κ) : OrderedMap κ ν :=
  ⟨m.entries.filter (fun e => e.1 ≠ k),
    m.nodup.sublist (List.Sublist.map _ List.filter_sublist)⟩

def keys : List κ := m.entries.map Prod.fst

def values : List ν := m.entries.map Prod.snd

def size : ℕ := m.entries.length

/-- Keep the entries `p` accepts, in order. -/
def filter (p : κ → ν → Bool) : OrderedMap κ ν :=
  ⟨m.entries.filter (fun e => p e.1 e.2), m.nodup.sublist (List.Sublist.map _ List.filter_sublist)⟩

/-- Rewrite every value in place. -/
def mapValues (f : ν → ν) : OrderedMap κ ν :=
  ⟨m.entries.map (fun e => (e.1, f e.2)), by
    rw [List.map_map]
    exact m.nodup⟩

/-- Rewrite every value, which may change its type. -/
def map {ν' : Type} (f : κ → ν → ν') : OrderedMap κ ν' :=
  ⟨m.entries.map (fun e => (e.1, f e.1 e.2)), by
    rw [List.map_map]
    exact m.nodup⟩

/-- Set every pair of a list, in its order. -/
def setAll (l : List (κ × ν)) : OrderedMap κ ν := l.foldl (fun m e => m.set e.1 e.2) m

/-! ### Reads -/

theorem lookup_setEntries (k k' : κ) (v : ν) : ∀ l : List (κ × ν),
    lookup k' (setEntries k v l) = if k' = k then some v else lookup k' l
  | [] => by
    by_cases h : k' = k
    · simp [setEntries, h]
    · have h' : ¬ k = k' := Ne.symm h
      simp [setEntries, h, h']
  | (k₀, v₀) :: rest => by
    have ih := lookup_setEntries k k' v rest
    by_cases h : k₀ = k
    · subst h
      by_cases h' : k' = k₀
      · simp [setEntries, h']
      · have h'' : ¬ k₀ = k' := Ne.symm h'
        simp [setEntries, h', h'']
    · by_cases h' : k₀ = k'
      · subst h'
        simp [setEntries, h]
      · simp only [setEntries, h, if_false, lookup_cons, h', ih]

/-- A new key goes at the end. -/
theorem setEntries_of_none {k : κ} {v : ν} : ∀ {l : List (κ × ν)}, lookup k l = none →
    setEntries k v l = l ++ [(k, v)]
  | [], _ => rfl
  | (k', v') :: rest, h => by
    by_cases hk : k' = k
    · simp [hk] at h
    · simp only [lookup_cons, hk, if_false] at h
      simp only [setEntries, hk, if_false, List.cons_append, setEntries_of_none h]

theorem lookup_filter_ne (k k' : κ) : ∀ l : List (κ × ν),
    lookup k' (l.filter (fun e => e.1 ≠ k)) = if k' = k then none else lookup k' l
  | [] => by simp
  | (k₀, v₀) :: rest => by
    have ih := lookup_filter_ne k k' rest
    by_cases h : k₀ = k
    · subst h
      rw [List.filter_cons_of_neg (by simp), ih]
      by_cases h' : k' = k₀
      · simp [h']
      · have h'' : ¬ k₀ = k' := Ne.symm h'
        simp [h', h'']
    · rw [List.filter_cons_of_pos (by simpa using h)]
      by_cases h' : k₀ = k'
      · subst h'
        simp [h]
      · simp only [lookup_cons, h', if_false, ih]

@[simp] theorem get_empty (k : κ) : (empty : OrderedMap κ ν).get k = none := rfl

theorem get_set (k k' : κ) (v : ν) : (m.set k v).get k' = if k' = k then some v else m.get k' :=
  lookup_setEntries k k' v m.entries

@[simp] theorem get_set_self (k : κ) (v : ν) : (m.set k v).get k = some v := by simp [get_set]

theorem get_set_of_ne {k k' : κ} (h : k' ≠ k) (v : ν) : (m.set k v).get k' = m.get k' := by
  simp [get_set, h]

theorem get_delete (k k' : κ) : (m.delete k).get k' = if k' = k then none else m.get k' :=
  lookup_filter_ne k k' m.entries

@[simp] theorem get_delete_self (k : κ) : (m.delete k).get k = none := by simp [get_delete]

theorem get_delete_of_ne {k k' : κ} (h : k' ≠ k) : (m.delete k).get k' = m.get k' := by
  simp [get_delete, h]

@[simp] theorem has_iff (k : κ) : m.has k = true ↔ ∃ v, m.get k = some v := by
  simp [has, Option.isSome_iff_exists]

/-! ### Entries -/

theorem mem_of_lookup {k : κ} {v : ν} : ∀ {l : List (κ × ν)}, lookup k l = some v → (k, v) ∈ l
  | [], h => by cases h
  | (k', v') :: rest, h => by
    by_cases hk : k' = k
    · simp only [lookup_cons, hk, if_true, Option.some.injEq] at h
      simp [hk, h]
    · simp only [lookup_cons, hk, if_false] at h
      exact List.mem_cons_of_mem _ (mem_of_lookup h)

theorem lookup_of_mem {k : κ} {v : ν} : ∀ {l : List (κ × ν)}, (l.map Prod.fst).Nodup →
    (k, v) ∈ l → lookup k l = some v
  | [], _, h => by cases h
  | (k', v') :: rest, hnd, h => by
    rw [List.map_cons, List.nodup_cons] at hnd
    rcases List.mem_cons.mp h with h | h
    · obtain ⟨rfl, rfl⟩ := Prod.mk.inj h
      simp
    · have hk : k' ≠ k := fun e => hnd.1 (List.mem_map.mpr ⟨(k, v), h, e.symm⟩)
      simp only [lookup_cons, hk, if_false]
      exact lookup_of_mem hnd.2 h

/-- The entries are exactly the pairs `get` answers. -/
theorem mem_entries_iff {k : κ} {v : ν} : (k, v) ∈ m.entries ↔ m.get k = some v :=
  ⟨lookup_of_mem m.nodup, mem_of_lookup⟩

theorem mem_keys_iff {k : κ} : k ∈ m.keys ↔ ∃ v, m.get k = some v := by
  simp only [keys, List.mem_map, Prod.exists, exists_and_right, exists_eq_right]
  exact exists_congr fun v => m.mem_entries_iff

theorem get_filter (p : κ → ν → Bool) (k : κ) :
    (m.filter p).get k = (m.get k).filter (p k) := by
  cases h : (m.filter p).get k with
  | some v =>
    have hmem : (k, v) ∈ m.entries.filter (fun e => p e.1 e.2) :=
      (m.filter p).mem_entries_iff.mpr h
    rw [List.mem_filter] at hmem
    rw [m.mem_entries_iff.mp hmem.1]
    exact (Option.filter_some_pos hmem.2).symm
  | none =>
    cases hg : m.get k with
    | none => rfl
    | some v =>
      cases hp : p k v with
      | false => exact (Option.filter_some_neg hp).symm
      | true =>
        have : (k, v) ∈ (m.filter p).entries :=
          List.mem_filter.mpr ⟨m.mem_entries_iff.mpr hg, hp⟩
        rw [(m.filter p).mem_entries_iff, h] at this
        cases this

theorem lookup_map {ν' : Type} (f : κ → ν → ν') (k : κ) : ∀ l : List (κ × ν),
    lookup k (l.map (fun e => (e.1, f e.1 e.2))) = (lookup k l).map (f k)
  | [] => rfl
  | (k', v) :: rest => by
    rw [List.map_cons, lookup_cons, lookup_cons, lookup_map f k rest]
    by_cases h : k' = k
    · simp [h]
    · simp [h]

theorem get_mapValues (f : ν → ν) (k : κ) : (m.mapValues f).get k = (m.get k).map f :=
  lookup_map (fun _ => f) k m.entries

theorem get_map {ν' : Type} (f : κ → ν → ν') (k : κ) : (m.map f).get k = (m.get k).map (f k) :=
  lookup_map f k m.entries

theorem get_of_size_eq_zero (h : m.size = 0) (k : κ) : m.get k = none := by
  rw [get, List.length_eq_zero_iff.mp h]
  rfl

theorem mem_keys_iff_ne_none {k : κ} : k ∈ m.keys ↔ m.get k ≠ none := by
  rw [mem_keys_iff, Option.ne_none_iff_exists']

/-- A key the list does not write keeps its value. -/
theorem get_setAll_of_notMem {k : κ} {l : List (κ × ν)} (h : ∀ v, (k, v) ∉ l) :
    (m.setAll l).get k = m.get k := by
  induction l generalizing m with
  | nil => rfl
  | cons e l ih =>
    have hne : k ≠ e.1 := fun heq => h e.2 (heq ▸ List.mem_cons_self)
    have hrest := ih (m.set e.1 e.2) (fun v hv => h v (List.mem_cons_of_mem e hv))
    exact hrest.trans (get_set_of_ne m hne e.2)

/-- A key the list writes with one value only is set to it. -/
theorem get_setAll_of_mem {k : κ} {v : ν} {l : List (κ × ν)} (hmem : (k, v) ∈ l)
    (hone : ∀ v', (k, v') ∈ l → v' = v) : (m.setAll l).get k = some v := by
  induction l generalizing m with
  | nil => cases hmem
  | cons e l ih =>
    have hone' : ∀ v', (k, v') ∈ l → v' = v := fun v' hv' => hone v' (List.mem_cons_of_mem e hv')
    by_cases hlater : (k, v) ∈ l
    · exact ih (m.set e.1 e.2) hlater hone'
    · have he : e = (k, v) := (List.mem_cons.mp hmem).resolve_right hlater |>.symm
      have hnone : ∀ v', (k, v') ∉ l := fun v' hv' => hlater (hone' v' hv' ▸ hv')
      have hset := get_setAll_of_notMem (m.set e.1 e.2) hnone
      rw [he] at hset
      rw [he]
      exact hset.trans (get_set_self m k v)

end OrderedMap

/-! ### Insertion-ordered sets -/

/-- Add `a` at the end unless it is already there. -/
def addNew {α : Type} [DecidableEq α] (l : List α) (a : α) : List α :=
  if a ∈ l then l else l ++ [a]

section
variable {α : Type} [DecidableEq α]

@[simp] theorem mem_addNew {l : List α} {a b : α} : b ∈ addNew l a ↔ b ∈ l ∨ b = a := by
  unfold addNew
  split_ifs with h
  · exact ⟨Or.inl, fun hb => hb.elim id (fun e => e ▸ h)⟩
  · simp

theorem nodup_addNew {l : List α} (h : l.Nodup) (a : α) : (addNew l a).Nodup := by
  unfold addNew
  split_ifs with ha
  · exact h
  · refine List.nodup_append.mpr ⟨h, List.nodup_singleton a, ?_⟩
    intro b hb c hc
    rw [List.mem_singleton] at hc
    rintro rfl
    exact ha (hc ▸ hb)

end

end Grove
