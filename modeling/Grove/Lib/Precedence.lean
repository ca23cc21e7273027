import Mathlib.Tactic

/-! # Which of two members of a list comes first

`[b, a].Sublist l` says that `b` stands before `a` in `l`.  In a list without repetitions one of two members stands
before the other, and that one has the smaller index. -/

namespace Grove

variable {κ : Type} {l : List κ} {a b : κ}

theorem not_sublist_swap (hl : l.Nodup) (h : [a, b].Sublist l) : ¬ [b, a].Sublist l := by
  induction l with
  | nil => simp at h
  | cons x xs ih =>
    obtain ⟨hx, hxs⟩ := List.nodup_cons.mp hl
    have second : ∀ {c d : κ}, [c, d].Sublist (x :: xs) → d ∈ xs := by
      intro c d hcd
      obtain hsub | ⟨r, hr, hsub⟩ := List.sublist_cons_iff.mp hcd
      · exact hsub.subset (List.mem_cons_of_mem c List.mem_cons_self)
      · obtain ⟨-, rfl⟩ := List.cons.inj hr
        exact hsub.subset List.mem_cons_self
    intro h'
    obtain hsub | ⟨r, hr, -⟩ := List.sublist_cons_iff.mp h
    · obtain hsub' | ⟨r', hr', -⟩ := List.sublist_cons_iff.mp h'
      · exact ih hxs hsub hsub'
      · obtain ⟨rfl, -⟩ := List.cons.inj hr'
        exact hx (second h)
    · obtain ⟨rfl, -⟩ := List.cons.inj hr
      exact hx (second h')

theorem sublist_pair_of_lt {i j : ℕ} (hij : i < j) (ha : l[i]? = some a) (hb : l[j]? = some b) :
    [a, b].Sublist l := by
  have hpairs : l.Pairwise fun x y => [x, y].Sublist l := List.pairwise_of_forall_sublist fun h => h
  obtain ⟨hi, rfl⟩ := List.getElem?_eq_some_iff.mp ha
  obtain ⟨hj, rfl⟩ := List.getElem?_eq_some_iff.mp hb
  exact List.pairwise_iff_getElem.mp hpairs i j hi hj hij

/-- What precedes an element of a list without repetitions. -/
theorem mem_front_iff {xs ys : List κ} (hl : (xs ++ a :: ys).Nodup) :
    b ∈ xs ↔ [b, a].Sublist (xs ++ a :: ys) := by
  constructor
  · intro hb
    exact (List.singleton_sublist.mpr hb).append (List.singleton_sublist.mpr List.mem_cons_self)
  · intro h
    rw [List.nodup_middle] at hl
    have ha : a ∉ xs ++ ys := (List.nodup_cons.mp hl).1
    obtain ⟨l₁, l₂, hsplit, h₁, h₂⟩ := List.sublist_append_iff.mp h
    match l₁, hsplit with
    | [], hsplit =>
      have hsub : [b, a].Sublist (a :: ys) := hsplit ▸ h₂
      obtain h' | ⟨r, hr, h'⟩ := List.sublist_cons_iff.mp hsub
      · exact absurd (List.mem_append_right xs (h'.subset (by simp))) ha
      · obtain ⟨-, rfl⟩ := List.cons.inj hr
        exact absurd (List.mem_append_right xs (h'.subset (by simp))) ha
    | x :: l, hsplit =>
      obtain ⟨rfl, -⟩ := List.cons.inj hsplit
      exact h₁.subset List.mem_cons_self

theorem pair_sublist_filter {p : κ → Bool} (ha : p a = true) (hb : p b = true) :
    [a, b].Sublist (l.filter p) ↔ [a, b].Sublist l :=
  ⟨fun h => h.trans List.filter_sublist, fun h => by simpa [ha, hb] using h.filter p⟩

theorem pair_total (ha : a ∈ l) (hb : b ∈ l) (hab : a ≠ b) : [a, b].Sublist l ∨ [b, a].Sublist l := by
  obtain ⟨i, hi, rfl⟩ := List.mem_iff_getElem.mp ha
  obtain ⟨j, hj, rfl⟩ := List.mem_iff_getElem.mp hb
  obtain hlt | rfl | hgt := Nat.lt_trichotomy i j
  · exact .inl (sublist_pair_of_lt hlt (List.getElem?_eq_getElem hi) (List.getElem?_eq_getElem hj))
  · exact absurd rfl hab
  · exact .inr (sublist_pair_of_lt hgt (List.getElem?_eq_getElem hj) (List.getElem?_eq_getElem hi))

/-! ### Lists put one after the other -/

section flatMap

variable {β : Type} {f : β → List κ} {bs : List β} {x y : β}

theorem pair_flatMap (h : [y, x].Sublist bs) (hb : b ∈ f y) (ha : a ∈ f x) : [b, a].Sublist (bs.flatMap f) := by
  have hpair : [b, a].Sublist ([y, x].flatMap f) := by
    rw [List.flatMap_cons, List.flatMap_singleton]
    exact (List.singleton_sublist.mpr hb).append (List.singleton_sublist.mpr ha)
  exact hpair.trans (h.flatMap f)

theorem sublist_flatMap (hx : x ∈ bs) : (f x).Sublist (bs.flatMap f) := by
  have hone := (List.singleton_sublist.mpr hx).flatMap f
  rwa [List.flatMap_singleton] at hone

end flatMap

/-! ### Indices -/

section index

variable [DecidableEq κ]

theorem idxOf_lt_of_pair (hl : l.Nodup) (h : [b, a].Sublist l) : l.idxOf b < l.idxOf a := by
  have hb : b ∈ l := h.subset List.mem_cons_self
  have ha : a ∈ l := h.subset (List.mem_cons_of_mem b List.mem_cons_self)
  obtain hlt | heq | hgt := Nat.lt_trichotomy (l.idxOf b) (l.idxOf a)
  · exact hlt
  · obtain rfl := (List.idxOf_inj hb).mp heq
    exact absurd h (not_sublist_swap hl h)
  · exact absurd h (not_sublist_swap hl (sublist_pair_of_lt hgt (List.getElem?_idxOf ha) (List.getElem?_idxOf hb)))

/-- The last member that passes is the one of greatest index. -/
theorem getLast?_filter_eq_some (hl : l.Nodup) {p : κ → Bool} :
    (l.filter p).getLast? = some a ↔ (a ∈ l ∧ p a = true) ∧ ∀ b ∈ l, p b = true → l.idxOf b ≤ l.idxOf a := by
  have top : ∀ {c}, (l.filter p).getLast? = some c →
      (c ∈ l ∧ p c = true) ∧ ∀ b ∈ l, p b = true → l.idxOf b ≤ l.idxOf c := by
    intro c hc
    refine ⟨List.mem_filter.mp (List.mem_of_getLast? hc), fun b hb hpb => ?_⟩
    obtain ⟨xs, hxs⟩ := List.getLast?_eq_some_iff.mp hc
    have hmem : b ∈ xs ++ [c] := hxs ▸ List.mem_filter.mpr ⟨hb, hpb⟩
    obtain hbefore | hlast := List.mem_append.mp hmem
    · have hpair : [b, c].Sublist (xs ++ [c]) := (List.singleton_sublist.mpr hbefore).append (.refl _)
      exact (idxOf_lt_of_pair hl ((hxs ▸ hpair).trans List.filter_sublist)).le
    · rw [List.mem_singleton.mp hlast]
  refine ⟨top, fun ⟨⟨ha, hpa⟩, hmax⟩ => ?_⟩
  cases hc : (l.filter p).getLast? with
  | none =>
    rw [List.getLast?_eq_none_iff] at hc
    exact absurd (List.mem_filter.mpr ⟨ha, hpa⟩) (hc ▸ List.not_mem_nil)
  | some c =>
    obtain ⟨⟨hcl, hpc⟩, hcmax⟩ := top hc
    have heq : l.idxOf c = l.idxOf a := le_antisymm (hmax c hcl hpc) (hcmax a ha hpa)
    rw [(List.idxOf_inj hcl).mp heq]

end index

end Grove
