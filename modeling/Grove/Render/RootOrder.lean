import Grove.Lib.Precedence
import Grove.Render.Transforms

/-! # The root order and its back index

`Indexed order back l`: the live entries of the root order are `l`, in order and each once, and the back
index finds them.  Appending, tombstoning and compacting keep it. -/

namespace Grove.Render

/-! ### The invariant -/

structure Indexed (order : List (Option ℕ)) (back : OrderedMap ℕ ℕ) (l : List ℕ) : Prop where
  live : order.reduceOption = l
  nodup : l.Nodup
  find : ∀ i k, back.get i = some k ↔ order[k]? = some (some i)

variable {order : List (Option ℕ)} {back : OrderedMap ℕ ℕ} {l : List ℕ} {i k : ℕ}

theorem indexed_empty : Indexed [] .empty [] := ⟨rfl, List.nodup_nil, by simp⟩

theorem Indexed.mem_iff (h : Indexed order back l) : i ∈ l ↔ ∃ k, back.get i = some k := by
  rw [← h.live, List.reduceOption_mem_iff, List.mem_iff_getElem?]
  exact exists_congr fun k => (h.find i k).symm

theorem Indexed.get_eq_none (h : Indexed order back l) : back.get i = none ↔ i ∉ l := by
  rw [h.mem_iff, ← Option.isSome_iff_exists]
  simp

theorem Indexed.push (h : Indexed order back l) (hi : i ∉ l) :
    Indexed (order ++ [some i]) (back.set i order.length) (l ++ [i]) where
  live := by rw [List.reduceOption_append, h.live]; rfl
  nodup := List.nodup_append'.mpr ⟨h.nodup, List.nodup_singleton i, by simpa using hi⟩
  find := by
    intro j m
    rw [OrderedMap.get_set]
    obtain rfl | hj := eq_or_ne j i
    · have hnone : ∀ m, order[m]? ≠ some (some j) := fun m hm =>
        hi (h.mem_iff.mpr ⟨m, (h.find j m).mpr hm⟩)
      rw [if_pos rfl, List.getElem?_append]
      split
      · next hm => simp [hnone m, (Nat.ne_of_gt hm)]
      · next hm =>
        rw [List.getElem?_singleton]
        simp only [Option.some.injEq]
        constructor
        · rintro rfl; simp
        · intro hif; split at hif <;> first | omega | simp at hif
    · rw [if_neg hj, h.find, List.getElem?_append]
      split
      · rfl
      · next hm =>
        rw [List.getElem?_singleton, List.getElem?_eq_none (Nat.le_of_not_lt hm)]
        split <;> simp [hj.symm]

theorem Indexed.blank (h : Indexed order back l) (hk : back.get i = some k) :
    Indexed (order.set k none) (back.delete i) (l.filter (· ≠ i)) := by
  have hat := (h.find i k).mp hk
  obtain ⟨hlt, hget⟩ := List.getElem?_eq_some_iff.mp hat
  have hset : order.set k none = order.take k ++ none :: order.drop (k + 1) :=
    List.set_eq_take_append_cons_drop.trans (if_pos hlt)
  have horder : order = order.take k ++ some i :: order.drop (k + 1) := by
    rw [← hget, List.getElem_cons_drop, List.take_append_drop]
  have hl : l = (order.take k).reduceOption ++ i :: (order.drop (k + 1)).reduceOption := by
    rw [← h.live]
    conv_lhs => rw [horder, List.reduceOption_append, List.reduceOption_cons_of_some]
  refine ⟨?_, h.nodup.filter _, fun j m => ?_⟩
  · have hnodup := h.nodup
    rw [hl, List.nodup_middle, List.nodup_cons, List.mem_append] at hnodup
    have hkeep : ∀ xs : List ℕ, i ∉ xs → xs.filter (· ≠ i) = xs := fun xs hxs =>
      List.filter_eq_self.mpr fun x hx => by simpa using ne_of_mem_of_not_mem hx hxs
    rw [hset, hl, List.filter_append, List.filter_cons_of_neg (by simp), hkeep _ fun hx => hnodup.1 (.inl hx),
      hkeep _ fun hx => hnodup.1 (.inr hx), List.reduceOption_append, List.reduceOption_cons_of_none]
  · rw [OrderedMap.get_delete, List.getElem?_set]
    obtain rfl | hj := eq_or_ne j i
    · rw [if_pos rfl]
      constructor
      · exact fun hm => absurd hm (by simp)
      · split
        · simp
        · next hkm =>
          intro hm
          exact absurd (Option.some.inj (hk.symm.trans ((h.find j m).mpr hm))) hkm
    · rw [if_neg hj, h.find]
      split
      · next hkm =>
        subst hkm
        rw [hat]
        simp [hj.symm]
      · rfl

/-! ### Compaction -/

/-- What the compaction has built from the entries it has seen. -/
theorem foldl_keepRoot : ∀ (seen rest : List (Option ℕ)) (m : OrderedMap ℕ ℕ),
    ((seen ++ rest).reduceOption).Nodup → (∀ i k, m.get i = some k → i ∈ seen.reduceOption →
      (seen.reduceOption)[k]? = some i) → (∀ i ∈ seen.reduceOption, ∃ k, m.get i = some k) →
    let acc := rest.foldl TransformStore.keepRoot (m, (seen.reduceOption).map some)
    acc.2 = ((seen ++ rest).reduceOption).map some ∧
      (∀ i ∉ rest.reduceOption, acc.1.get i = m.get i) ∧
      ∀ i ∈ (seen ++ rest).reduceOption, ∃ k, acc.1.get i = some k ∧ ((seen ++ rest).reduceOption)[k]? = some i
  | seen, [], m, _, hfound, hmem => by
    rw [List.append_nil]
    refine ⟨rfl, fun _ _ => rfl, fun i hi => ?_⟩
    obtain ⟨k, hk⟩ := hmem i hi
    exact ⟨k, hk, hfound i k hk hi⟩
  | seen, none :: rest, m, hnodup, hfound, hmem => by
    have hsame : (seen ++ [none]).reduceOption = seen.reduceOption := by
      rw [List.reduceOption_append]
      exact List.append_nil _
    have hsplit : seen ++ none :: rest = (seen ++ [none]) ++ rest := by simp
    have step := foldl_keepRoot (seen ++ [none]) rest m (hsplit ▸ hnodup)
      (by rw [hsame]; exact hfound) (by rw [hsame]; exact hmem)
    rw [hsame] at step
    rw [hsplit, List.reduceOption_cons_of_none]
    exact step
  | seen, some x :: rest, m, hnodup, hfound, hmem => by
    have hseen : (seen ++ [some x]).reduceOption = seen.reduceOption ++ [x] := by
      rw [List.reduceOption_append]
      rfl
    have hsplit : seen ++ some x :: rest = (seen ++ [some x]) ++ rest := by simp
    have hx : x ∉ seen.reduceOption ∧ x ∉ rest.reduceOption := by
      rw [List.reduceOption_append, List.reduceOption_cons_of_some, List.nodup_middle, List.nodup_cons,
        List.mem_append, not_or] at hnodup
      exact hnodup.1
    obtain ⟨hlive, hkept, hfind⟩ := foldl_keepRoot (seen ++ [some x]) rest
      (m.set x ((seen.reduceOption).map some).length) (hsplit ▸ hnodup)
      (by
        intro i k hk hi
        rw [OrderedMap.get_set] at hk
        rw [hseen] at hi ⊢
        obtain rfl | hix := eq_or_ne i x
        · rw [if_pos rfl, Option.some.injEq, List.length_map] at hk
          rw [← hk, List.getElem?_concat_length]
        · rw [if_neg hix] at hk
          have hi : i ∈ seen.reduceOption := by simpa [hix] using hi
          have hk' := hfound i k hk hi
          rw [List.getElem?_append_left (List.getElem?_eq_some_iff.mp hk').1, hk'])
      (by
        intro i hi
        rw [OrderedMap.get_set]
        split
        · exact ⟨_, rfl⟩
        · next hix =>
          rw [hseen] at hi
          exact hmem i (by simpa [hix] using hi))
    rw [hseen, List.map_append, List.map_singleton] at hlive hkept hfind
    rw [hsplit, List.reduceOption_cons_of_some]
    refine ⟨hlive, fun i hi => ?_, hfind⟩
    have hix : i ≠ x ∧ i ∉ rest.reduceOption := by
      simpa using hi
    exact (hkept i hix.2).trans (OrderedMap.get_set_of_ne _ hix.1 _)

theorem Indexed.compact (h : Indexed order back l) :
    Indexed (order.foldl TransformStore.keepRoot (back, [])).2
      (order.foldl TransformStore.keepRoot (back, [])).1 l := by
  obtain ⟨hlive, hkept, hfind⟩ := foldl_keepRoot [] order back
    (by simpa [h.live] using h.nodup) (by simp) (by simp)
  simp only [List.reduceOption_nil, List.map_nil, List.nil_append, h.live] at hlive hkept hfind
  rw [hlive]
  refine ⟨by simp [List.reduceOption], h.nodup, fun i k => ?_⟩
  rw [List.getElem?_map, Option.map_eq_some_iff]
  constructor
  · intro hk
    by_cases hi : i ∈ l
    · obtain ⟨m, hm, hat⟩ := hfind i hi
      obtain rfl := Option.some.inj (hk.symm.trans hm)
      exact ⟨i, hat, rfl⟩
    · rw [hkept i hi, h.get_eq_none.mpr hi] at hk
      simp at hk
  · rintro ⟨x, hat, hx⟩
    obtain rfl := Option.some.inj hx
    obtain ⟨m, hm, hat'⟩ := hfind x (List.mem_of_getElem? hat)
    have : k = m := by
      obtain ⟨hk, hxk⟩ := List.getElem?_eq_some_iff.mp hat
      obtain ⟨hm, hxm⟩ := List.getElem?_eq_some_iff.mp hat'
      exact (List.Nodup.getElem_inj_iff h.nodup).mp (hxk.trans hxm.symm)
    rw [this, hm]

/-! ### The store's operations on it -/

namespace TransformStore

variable {α : Type} {s : TransformStore α}

theorem indexed_addRoot (h : Indexed s.rootOrder s.rootAt l) (hi : i ∉ l) :
    Indexed (s.addRoot i).rootOrder (s.addRoot i).rootAt (l ++ [i]) := by
  have hnone : s.rootAt.has i = false := by
    simp [OrderedMap.has, h.get_eq_none.mpr hi]
  simp only [addRoot, hnone]
  exact h.push hi

theorem indexed_removeRoot (h : Indexed s.rootOrder s.rootAt l) (i : ℕ) :
    Indexed (s.removeRoot i).rootOrder (s.removeRoot i).rootAt (l.filter (· ≠ i)) := by
  unfold removeRoot
  cases hk : s.rootAt.get i with
  | none =>
    have hi := h.get_eq_none.mp hk
    have hsame : l.filter (· ≠ i) = l :=
      List.filter_eq_self.mpr fun x hx => by simpa using ne_of_mem_of_not_mem hx hi
    rwa [hsame]
  | some k =>
    have hblank := h.blank hk
    simp only
    split
    · exact hblank.compact
    · exact hblank

theorem rootRank_lt (h : Indexed s.rootOrder s.rootAt l) {a b : ℕ} (ha : a ∈ l) (hb : b ∈ l) :
    s.rootRank b < s.rootRank a ↔ [b, a].Sublist l := by
  obtain ⟨m, hm⟩ := h.mem_iff.mp ha
  obtain ⟨n, hn⟩ := h.mem_iff.mp hb
  have pair : ∀ {x y : ℕ} {i j : ℕ}, i < j → s.rootAt.get x = some i → s.rootAt.get y = some j →
      [x, y].Sublist l := by
    intro x y i j hij hx hy
    have hsub := (sublist_pair_of_lt hij ((h.find x i).mp hx) ((h.find y j).mp hy)).filterMap id
    simpa [← h.live, List.reduceOption] using hsub
  simp only [rootRank, hm, hn, Option.map_some, Option.getD_some]
  constructor
  · intro hlt
    exact pair (Int.ofNat_lt.mp hlt) hn hm
  · intro hsub
    obtain hlt | heq | hgt := lt_trichotomy n m
    · exact Int.ofNat_lt.mpr hlt
    · subst heq
      have hab : a = b := by
        have := (h.find a n).mp hm
        rw [(h.find b n).mp hn] at this
        exact (Option.some.inj (Option.some.inj this)).symm
      subst hab
      exact absurd hsub (not_sublist_swap h.nodup hsub)
    · exact absurd (pair hgt hm hn) (not_sublist_swap h.nodup hsub)

end TransformStore
end Grove.Render
