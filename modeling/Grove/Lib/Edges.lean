import Grove.Lib.OrderedMap

/-! # The edges of a changing membership

A membership that changes from one list of members to the next leaves edges, an entry for each member that is new
and an exit for each that is gone.  The edges of one member alternate, an entry first, and all the edges in order
replay to the membership they lead to (`Replays`). -/

namespace Grove

variable {α : Type} [DecidableEq α]

/-- The members that came, and then those that went. -/
def edges (was now : List α) : List (α × Bool) :=
  (now.filter (· ∉ was)).map (·, true) ++ (was.filter (· ∉ now)).map (·, false)

/-- The edges of one member. -/
def edgesFor (a : α) (es : List (α × Bool)) : List Bool := (es.filter (fun e => e.1 = a)).map Prod.snd

/-- Entries and exits in turn, an entry first. -/
def Alternates (l : List Bool) : Prop := (∀ b ∈ l.head?, b = true) ∧ l.IsChain (· ≠ ·)

def takeEdge (s : List α) (e : α × Bool) : List α := if e.2 then addNew s e.1 else s.filter (· ≠ e.1)

/-- All the edges, applied to no members. -/
def replay (es : List (α × Bool)) : List α := es.foldl takeEdge []

theorem edgesFor_append (a : α) (es es' : List (α × Bool)) : edgesFor a (es ++ es') = edgesFor a es ++ edgesFor a es' := by
  rw [edgesFor, List.filter_append, List.map_append]
  rfl

/-- Who is in after a replay is who entered last. -/
theorem mem_replay {a : α} {es : List (α × Bool)} : a ∈ replay es ↔ (edgesFor a es).getLast? = some true := by
  induction es using List.reverseRecOn with
  | nil => simp [replay, edgesFor]
  | append_singleton es e ih =>
    obtain ⟨b, entered⟩ := e
    rw [replay, List.foldl_append, List.foldl_cons, List.foldl_nil, ← replay, edgesFor_append, takeEdge]
    by_cases hb : b = a
    · subst hb
      cases entered <;> simp [edgesFor]
    · have hnone : edgesFor a [(b, entered)] = [] := by simp [edgesFor, hb]
      rw [hnone, List.append_nil, ← ih]
      cases entered <;> simp [Ne.symm hb]

theorem alternates_append {l : List Bool} (h : Alternates l) {b : Bool} (hb : l.getLast? = some true ↔ b = false) :
    Alternates (l ++ [b]) := by
  obtain ⟨hhead, hchain⟩ := h
  cases hlast : l.getLast? with
  | none =>
    obtain rfl := List.getLast?_eq_none_iff.mp hlast
    have htrue : b = true := by simpa using hb
    exact ⟨by simpa using htrue, List.isChain_singleton b⟩
  | some c =>
    have hne : l ≠ [] := by
      rintro rfl
      cases hlast
    have hcb : c ≠ b := by
      rw [hlast, Option.some_inj] at hb
      cases c <;> cases b <;> simp_all
    refine ⟨?_, ?_⟩
    · rw [List.head?_append_of_ne_nil _ hne]
      exact hhead
    · refine List.isChain_append.mpr ⟨hchain, List.isChain_singleton b, fun x hx y hy => ?_⟩
      rw [hlast] at hx
      obtain rfl := Option.some_inj.mp hx
      obtain rfl := Option.some_inj.mp hy
      exact hcb

/-- One change leaves a member at most one edge. -/
theorem edgesFor_edges {was now : List α} (hwas : was.Nodup) (hnow : now.Nodup) (a : α) :
    edgesFor a (edges was now) = if a ∈ was ↔ a ∈ now then [] else [decide (a ∈ now)] := by
  have hfilter : ∀ {l : List α} {b : Bool}, l.Nodup → edgesFor a (l.map (·, b)) = if a ∈ l then [b] else [] := by
    intro l b hl
    rw [edgesFor, List.filter_map, List.map_map]
    have heq : l.filter ((fun e : α × Bool => decide (e.1 = a)) ∘ (·, b)) = l.filter (· = a) := rfl
    rw [heq, List.filter_eq, List.Nodup.count hl]
    split_ifs <;> simp
  rw [edges, edgesFor_append, hfilter (hnow.filter _), hfilter (hwas.filter _)]
  simp only [List.mem_filter, decide_eq_true_eq]
  by_cases h : a ∈ was <;> by_cases h' : a ∈ now <;> simp [h, h']

/-- The edges alternate for every member and replay to `now`. -/
def Replays (es : List (α × Bool)) (now : List α) : Prop :=
  ∀ a, Alternates (edgesFor a es) ∧ (a ∈ replay es ↔ a ∈ now)

theorem replays_nil : Replays ([] : List (α × Bool)) [] := fun _ =>
  ⟨⟨fun _ hb => absurd hb (by simp [edgesFor]), List.isChain_nil⟩, Iff.rfl⟩

theorem Replays.append {es : List (α × Bool)} {was now : List α} (h : Replays es was) (hwas : was.Nodup)
    (hnow : now.Nodup) : Replays (es ++ edges was now) now := by
  intro a
  obtain ⟨halternates, hmem⟩ := h a
  rw [mem_replay] at hmem
  rw [mem_replay, edgesFor_append, edgesFor_edges hwas hnow]
  split_ifs with hsame
  · rw [List.append_nil]
    exact ⟨halternates, hmem.trans hsame⟩
  · refine ⟨alternates_append halternates ?_, ?_⟩
    · rw [hmem, decide_eq_false_iff_not]
      tauto
    · rw [List.getLast?_concat, Option.some_inj, decide_eq_true_eq]

end Grove
