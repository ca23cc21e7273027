import Grove.Render.Answers
import Grove.Render.Core
import Grove.Render.Drains

/-! # The records and the tree agree

A slot has a record exactly when the tree has it in use, and a node is on the surface of its parent (`Sound`).  Every
call of the core keeps that and ends, so every loop of a run has the turns it needs. -/

namespace Grove.OrderedForest

variable {ι : Type} [DecidableEq ι] {F : OrderedForest ι} {c x : ι} {q : Option ι}

theorem mem_placed_place : x ∈ (F.place c q).placed ↔ x ∈ F.placed := by
  unfold place
  split
  · next h =>
    rw [move_placed, List.mem_append, List.mem_filter, List.mem_singleton, decide_eq_true_eq]
    constructor
    · rintro (⟨hx, -⟩ | rfl)
      · exact hx
      · exact h.1
    · intro hx
      by_cases hxc : x = c
      · exact .inr hxc
      · exact .inl ⟨hx, hxc⟩
  · exact Iff.rfl

/-- A node keeps its parent unless it is the one that is placed. -/
theorem parent_place : (F.place c q).parent x = F.parent x ∨ x = c ∧ (F.place c q).parent x = q := by
  unfold place
  split
  · rw [move_parent]
    by_cases hx : x = c
    · exact .inr ⟨hx, by rw [hx, Function.update_self]⟩
    · exact .inl (Function.update_of_ne hx _ _)
  · exact .inl rfl

theorem mem_placed_leave (h : F.children c = []) : x ∈ (F.leave c).placed ↔ x ∈ F.placed ∧ x ≠ c := by
  rw [leave, dif_pos h, fell_placed, List.mem_filter, decide_eq_true_eq]

/-- A new node under a parent, if it is given one, and behind all others. -/
theorem place_enter (hc : c ∉ F.placed) (hq : ∀ p, q = some p → p ∈ F.placed) :
    ((F.enter c).place c q).placed = F.placed ++ [c] ∧ ((F.enter c).place c q).parent = Function.update F.parent c q := by
  have hne : F.placed.filter (· ≠ c) = F.placed :=
    List.filter_eq_self.mpr fun x hx => by simpa using ne_of_mem_of_not_mem hx hc
  have hcond : c ∈ (F.plant c hc).placed ∧ ∀ p, q = some p → p ∈ (F.plant c hc).placed ∧ ¬ (F.plant c hc).Above c p := by
    rw [plant_placed]
    exact ⟨by simp, fun p hp => ⟨by simp [hq p hp], fun habove => hc (Above.mem habove (hq p hp))⟩⟩
  rw [enter, dif_pos hc, place, dif_pos hcond, move_placed, move_parent, plant_placed, plant_parent, List.filter_append, hne]
  simp

/-- A node that came last leaves the rest as it was. -/
theorem leave_last {G : OrderedForest ι} (hc : c ∉ F.placed) (hplaced : G.placed = F.placed ++ [c])
    (hparent : G.parent = Function.update F.parent c q) (hleaf : G.children c = []) : G.leave c = F := by
  rw [leave, dif_pos hleaf]
  ext1
  · rw [fell_placed, hplaced, List.filter_append,
      List.filter_eq_self.mpr fun x hx => by simpa using ne_of_mem_of_not_mem hx hc]
    simp
  · rw [fell_parent, hparent, Function.update_idem, ← F.parent_eq_none hc, Function.update_eq_self]

theorem parent_leave (h : F.children c = []) : (F.leave c).parent = Function.update F.parent c none := by
  rw [leave, dif_pos h, fell_parent]

end Grove.OrderedForest

namespace Grove.Render

/-- The records, by the surface of each, and the tree. -/
structure Sound (surf : ℕ → Option Surface) (s : TransformStore ℚ) (F : OrderedForest ℕ) : Prop where
  watched : ∃ changed, Watched notedAnew s F changed
  live : ∀ i, i ∈ F.placed ↔ (surf i).isSome
  surfaces : ∀ c p, F.parent c = some p → surf c = surf p

namespace Sound

variable {surf : ℕ → Option Surface} {s s' : TransformStore ℚ} {F : OrderedForest ℕ} {i p : ℕ}

theorem shaped (h : Sound surf s F) : Shaped s F := by
  obtain ⟨_, hwatched⟩ := h.watched
  exact hwatched.ready.1

theorem lt_count (h : Sound surf s F) (hi : (surf i).isSome) : i < s.count := h.shaped.bounded i ((h.live i).mpr hi)

theorem start : Sound (fun _ => none) .new .empty where
  watched := ⟨_, .new⟩
  live i := by simp [OrderedForest.empty]
  surfaces c p h := by simp [OrderedForest.empty] at h

/-- A call that means nothing for the tree. -/
theorem call (h : Sound surf s F) (c : Call ℚ) (hok : Proper F s c) (hcall : s.call c = some s') (hF : after F c = F) :
    Sound surf s' F where
  watched := by
    obtain ⟨_, hwatched⟩ := h.watched
    exact ⟨_, hF ▸ hwatched.call hok hcall⟩
  live := h.live
  surfaces := h.surfaces

theorem resolves (h : Sound surf s F) : ∃ s', s.resolve = some s' ∧ Sound surf s' F ∧ s'.count = s.count ∧
    ∀ x, x ∈ s'.resolvedChanged ↔ x ∈ s.resolvedChanged ∨ s'.value x ≠ s.value x := by
  obtain ⟨_, hwatched⟩ := h.watched
  obtain ⟨hs, hready⟩ := hwatched.ready
  obtain ⟨s', hresolve, htables, -, -, -, -, -, -, hchanged⟩ := hready.resolves hs
  exact ⟨s', hresolve, h.call .resolve trivial hresolve rfl, htables.count, hchanged⟩

theorem initSlot (h : Sound surf s F) (hi : surf i = none) (surface : Surface) :
    Sound (Function.update surf i (some surface)) (s.initSlot (.whole i)) (F.enter i) where
  watched := by
    obtain ⟨_, hwatched⟩ := h.watched
    have hfree : i ∉ F.placed := fun hmem => by simpa [hi] using (h.live i).mp hmem
    refine ⟨_, hwatched.call (c := .initSlot (.whole i)) ?_ rfl⟩
    intro j hj
    obtain rfl : i = j := Option.some.inj hj
    exact hfree
  live x := by
    rw [OrderedForest.mem_placed_enter, h.live]
    by_cases hx : x = i
    · simp [hx]
    · simp [hx]
  surfaces c q hq := by
    have hfree : i ∉ F.placed := fun hmem => by simpa [hi] using (h.live i).mp hmem
    rw [OrderedForest.enter, dif_pos hfree, OrderedForest.plant_parent] at hq
    obtain ⟨hc, hqmem⟩ := F.closed hq
    rw [Function.update_of_ne (ne_of_mem_of_not_mem hc hfree), Function.update_of_ne (ne_of_mem_of_not_mem hqmem hfree)]
    exact h.surfaces c q hq

theorem releaseSlot (h : Sound surf s F) (hi : F.children i = []) :
    Sound (Function.update surf i none) (s.releaseSlot (.whole i)) (F.leave i) where
  watched := by
    obtain ⟨_, hwatched⟩ := h.watched
    refine ⟨_, hwatched.call (c := .releaseSlot (.whole i)) ?_ rfl⟩
    intro j hj
    obtain rfl : i = j := Option.some.inj hj
    exact hi
  live x := by
    rw [OrderedForest.mem_placed_leave hi, h.live]
    by_cases hx : x = i
    · simp [hx]
    · simp [hx]
  surfaces c q hq := by
    rw [OrderedForest.parent_leave hi] at hq
    have hc : c ≠ i := by
      rintro rfl
      rw [Function.update_self] at hq
      cases hq
    rw [Function.update_of_ne hc] at hq
    have hqi : q ≠ i := by
      rintro rfl
      simpa [hi] using OrderedForest.mem_children.mpr hq
    rw [Function.update_of_ne hc, Function.update_of_ne hqi]
    exact h.surfaces c q hq

theorem placed (h : Sound surf s F) {G : OrderedForest ℕ} {q : Option ℕ} (hwatched : ∃ changed, Watched notedAnew s' G changed)
    (hG : G = F ∨ G = F.place i q) (hq : ∀ p, q = some p → surf i = surf p) : Sound surf s' G := by
  obtain rfl | rfl := hG
  · exact ⟨hwatched, h.live, h.surfaces⟩
  · refine ⟨hwatched, fun x => by rw [OrderedForest.mem_placed_place, h.live], fun c p hp => ?_⟩
    obtain hsame | ⟨rfl, hnew⟩ := F.parent_place (c := i) (q := q) (x := c)
    · exact h.surfaces c p (hsame ▸ hp)
    · exact hq p (hnew ▸ hp)

theorem link (h : Sound surf s F) (hi : (surf i).isSome) (hp : surf i = surf p) :
    Sound surf (s.link (.whole i) (.whole p)) (F.place i (some p)) := by
  obtain ⟨_, hwatched⟩ := h.watched
  have hlive : p ∈ F.placed := (h.live p).mpr (hp ▸ hi)
  have hproper : Proper F s (.link (.whole i) (.whole p)) := by
    intro c hc
    obtain rfl : i = c := Option.some.inj (has_eq_some.mp hc).1
    refine ⟨fun hnone => (h.live i).mpr hi, fun q hq _ => ⟨(h.live i).mpr hi, ?_⟩⟩
    obtain rfl : p = q := Option.some.inj (has_eq_some.mp hq).1
    exact hlive
  have hcall : Watched notedAnew (s.link (.whole i) (.whole p)) (linked F (.whole i) (.whole p)) _ :=
    hwatched.call hproper rfl
  have hlinked : linked F (.whole i) (.whole p) = F.place i (some p) := by
    have hnone : (.whole p : SlotNumber) ≠ NONE := by
      intro hnone
      have := SlotNumber.whole.inj hnone
      omega
    unfold linked
    exact if_neg hnone
  exact h.placed ⟨_, hlinked ▸ hcall⟩ (.inr rfl) fun q hq => Option.some.inj hq ▸ hp

theorem unlink (h : Sound surf s F) (i : ℕ) : ∃ G, Sound surf (s.unlink (.whole i)) G := by
  obtain ⟨_, hwatched⟩ := h.watched
  have hcall : Watched notedAnew (s.unlink (.whole i)) (unlinked F (.whole i)) _ :=
    hwatched.call (c := .unlink (.whole i)) trivial rfl
  have hunlinked : unlinked F (.whole i) = F ∨ unlinked F (.whole i) = F.place i none := by
    show (if F.parent i = none then F else F.place i none) = F ∨ (if F.parent i = none then F else F.place i none) = _
    split
    · exact .inl rfl
    · exact .inr rfl
  exact ⟨_, h.placed ⟨_, hcall⟩ hunlinked fun p hp => by cases hp⟩

theorem clear (h : Sound surf s F) : Sound (fun _ => none) s.clear .empty where
  watched := by
    obtain ⟨_, hwatched⟩ := h.watched
    exact ⟨_, hwatched.call (c := .clear) trivial rfl⟩
  live i := by simp [OrderedForest.empty]
  surfaces c p hp := by simp [OrderedForest.empty] at hp

theorem subtree (h : Sound surf s F) (hi : (surf i).isSome) :
    ∃ l, s.subtree (.whole i) true = some l ∧ F.Sweep i l [] := by
  have hcount := h.lt_count hi
  unfold TransformStore.subtree
  rw [has_whole_of_lt hcount]
  exact h.shaped.breadthFirst hcount (OrderedForest.Sweep.start F i) (Nat.le_refl _)

/-- What is before the head stays before it. -/
theorem breadthFirst_append (s : TransformStore ℚ) (xs : List ℕ) : ∀ (n : ℕ) (out pending : List ℕ),
    s.breadthFirst n (xs ++ out) pending = (s.breadthFirst n out pending).map (xs ++ ·)
  | n, out, [] => by cases n <;> rfl
  | 0, out, x :: rest => rfl
  | n + 1, out, x :: rest => by
    rw [TransformStore.breadthFirst, TransformStore.breadthFirst]
    cases s.kids x with
    | none => rfl
    | some cs =>
      simp only [List.append_assoc]
      exact breadthFirst_append s xs n (out ++ [x]) (rest ++ cs)

/-- Without its root, a subtree is what the walk meets after it. -/
theorem subtree_below (h : Sound surf s F) (hi : (surf i).isSome) (includeRoot : Bool) :
    ∃ l, s.subtree (.whole i) includeRoot = some l := by
  obtain ⟨l, hl, -⟩ := h.subtree hi
  cases includeRoot with
  | true => exact ⟨l, hl⟩
  | false =>
    have hcount := h.lt_count hi
    have hsweep : F.Sweep i ([] ++ [i]) (F.children i) := (OrderedForest.Sweep.start F i).next (.refl _) (.refl _)
    obtain ⟨l', hl', -⟩ := h.shaped.breadthFirst hcount hsweep (n := s.count) (by simp)
    rw [List.nil_append, ← List.append_nil [i], breadthFirst_append] at hl'
    obtain ⟨l'', hl'', -⟩ := Option.map_eq_some_iff.mp hl'
    refine ⟨l'', ?_⟩
    unfold TransformStore.subtree
    rw [has_whole_of_lt hcount]
    simp only [Bool.false_eq_true, if_false, h.shaped.kids_eq]
    exact hl''

end Sound
end Grove.Render
