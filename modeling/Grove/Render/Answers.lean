import Grove.Render.Runs

/-! # What the transform store answers about its tree

`Faithful s F` reads the store through its own functions: the sibling lists in both directions, the roots,
`insertedAfter` and `subtree`.  Every store whose links named slots in use answers as its forest does
(`tree_kept`); a link that names a released slot is taken, and then the roots hold a slot nobody uses. -/

namespace Grove.Render

open Threads (walk)

variable {α : Type} {s : TransformStore α} {F : OrderedForest ℕ} {a b i r : ℕ}

structure Faithful (s : TransformStore α) (F : OrderedForest ℕ) : Prop where
  parent : s.parent = F.parent
  acyclic : ∀ i, ¬ Relation.TransGen (fun c p => s.parent c = some p) i i
  children : ∀ i : ℕ, s.children (.whole i) = some (F.placed.filter fun c => decide (s.parent c = some i))
  backwards : ∀ i, walk s.prevSibling s.count (s.lastChild i) =
    some (F.placed.filter fun c => decide (s.parent c = some i)).reverse
  roots : s.roots = F.placed.filter fun c => decide (s.parent c = none)
  insertedAfter : ∀ a ∈ F.placed, ∀ b ∈ F.placed, s.parent a = s.parent b →
    s.insertedAfter a b = some (decide ([b, a].Sublist F.placed))
  subtree : ∀ i ∈ F.placed, ∃ l, s.subtree (.whole i) true = some l ∧ l.Nodup ∧
    (∀ d, d ∈ l ↔ Relation.ReflTransGen (fun c p => s.parent c = some p) d i) ∧
    ∀ xs d ys, l = xs ++ d :: ys → d = i ∨ ∃ p ∈ xs, s.parent d = some p

theorem has_whole_of_lt (hi : i < s.count) : s.has (.whole i) = some i := has_eq_some.mpr ⟨rfl, hi⟩

theorem Shaped.children_eq (h : Shaped s F) (i : ℕ) : s.children (.whole i) = some (F.children i) := by
  unfold TransformStore.children
  by_cases hi : i < s.count
  · rw [has_whole_of_lt hi]
    exact h.kids_eq i
  · have hout : s.has (.whole i) = none := Option.eq_none_iff_forall_not_mem.mpr fun j hj => by
      obtain ⟨hij, hlt⟩ := has_eq_some.mp hj
      exact hi (Option.some.inj hij ▸ hlt)
    have hnone : F.children i = [] := List.eq_nil_iff_forall_not_mem.mpr fun x hx =>
      hi (h.bounded i (F.closed (OrderedForest.mem_children.mp hx)).2)
    rw [hout, hnone]

theorem Shaped.backwards_eq (h : Shaped s F) (i : ℕ) :
    walk s.prevSibling s.count (s.lastChild i) = some (F.children i).reverse := by
  rw [h.wired.last i]
  exact (h.wired.threaded i).walk_prev (h.length_beneath (some i))

theorem Shaped.roots_eq (h : Shaped s F) : s.roots = F.roots := by
  unfold TransformStore.roots
  rw [h.wired.roots.live]
  refine List.filter_eq_self.mpr fun x hx => ?_
  obtain ⟨hmem, hpar⟩ := OrderedForest.mem_beneath.mp hx
  simp [h.bounded x hmem, h.parent_eq, hpar]

theorem Shaped.insertedAfter_eq (h : Shaped s F) (ha : a ∈ F.placed) (hb : b ∈ F.placed)
    (hab : F.parent a = F.parent b) :
    s.insertedAfter a b = some (decide ([b, a].Sublist F.placed)) := by
  have hfilter : ∀ t, F.parent a = t → ([b, a].Sublist (F.beneath t) ↔ [b, a].Sublist F.placed) := fun t ht =>
    pair_sublist_filter (by simpa using hab.symm.trans ht) (by simpa using ht)
  unfold TransformStore.insertedAfter
  rw [h.parent_eq]
  cases hp : F.parent a with
  | none =>
    have ha' : a ∈ F.beneath none := OrderedForest.mem_beneath.mpr ⟨ha, hp⟩
    have hb' : b ∈ F.beneath none := OrderedForest.mem_beneath.mpr ⟨hb, hab.symm.trans hp⟩
    refine congrArg some (decide_eq_decide.mpr ?_)
    rw [TransformStore.rootRank_lt h.wired.roots ha' hb', hfilter none hp]
  | some p =>
    obtain ⟨xs, ys, hlist⟩ := List.append_of_mem (OrderedForest.mem_children.mpr hp)
    have hthread := h.wired.threaded p
    rw [show F.beneath (some p) = xs ++ a :: ys from hlist] at hthread
    obtain ⟨hfront, hprev, -⟩ := (Threads.threaded_append none xs (a :: ys) none).mp hthread
    rw [Option.or_none] at hprev
    have hlength : xs.length ≤ s.count := by
      have := h.length_beneath (some p)
      rw [show F.beneath (some p) = xs ++ a :: ys from hlist, List.length_append] at this
      omega
    have hwalk := Threads.search_of_walk s.prevSibling (· == b) (hfront.walk_prev hlength)
    rw [← hprev] at hwalk
    have hnodup := F.nodup_beneath (some p)
    rw [show F.beneath (some p) = xs ++ a :: ys from hlist] at hnodup
    have hbefore : b ∈ xs ↔ [b, a].Sublist F.placed := by
      rw [mem_front_iff hnodup, ← hfilter (some p) hp, show F.beneath (some p) = xs ++ a :: ys from hlist]
    rw [hwalk]
    refine congrArg some (Bool.eq_iff_iff.mpr ?_)
    simp [hbefore]

/-- The breadth-first loop ends with a finished walk. -/
theorem Shaped.breadthFirst (h : Shaped s F) (hr : r < s.count) : ∀ {n : ℕ} {out pending : List ℕ},
    F.Sweep r out pending → s.count ≤ n + out.length →
    ∃ l, s.breadthFirst n out pending = some l ∧ F.Sweep r l []
  | n, out, [], hsweep, _ => ⟨out, by cases n <;> rfl, hsweep⟩
  | 0, out, x :: rest, hsweep, hn => by
    have hlength : (out ++ x :: rest).length ≤ s.count := length_le_of_bounded hsweep.nodup fun y hy => by
      obtain rfl | ⟨p, -, hp⟩ := hsweep.parents y hy
      · exact hr
      · exact h.bounded y (F.closed hp).1
    simp at hlength
    omega
  | n + 1, out, x :: rest, hsweep, hn => by
    rw [TransformStore.breadthFirst, h.kids_eq x]
    exact h.breadthFirst hr (hsweep.next (.refl _) (.refl _)) (by rw [List.length_append]; simp; omega)

theorem Shaped.faithful (h : Shaped s F) : Faithful s F where
  parent := h.parent_eq
  acyclic := by
    intro i hi
    obtain ⟨p, hp, habove⟩ := Relation.TransGen.head'_iff.mp hi
    rw [h.parent_eq] at hp habove
    exact OrderedForest.not_above_parent hp habove
  children := fun i => by rw [h.parent_eq]; exact h.children_eq i
  backwards := fun i => by rw [h.parent_eq]; exact h.backwards_eq i
  roots := by rw [h.parent_eq]; exact h.roots_eq
  insertedAfter := fun a ha b hb hab => h.insertedAfter_eq ha hb (by rwa [h.parent_eq] at hab)
  subtree := by
    intro i hi
    obtain ⟨l, hl, hsweep⟩ := h.breadthFirst (h.bounded i hi) (OrderedForest.Sweep.start F i) (Nat.le_refl _)
    refine ⟨l, ?_, by simpa using hsweep.nodup, fun d => ?_, ?_⟩
    · unfold TransformStore.subtree
      rw [has_whole_of_lt (h.bounded i hi)]
      exact hl
    · rw [h.parent_eq]
      exact hsweep.finished
    · rw [h.parent_eq]
      exact hsweep.ordered

/-! ### Runs -/

variable [AddMonoid α] [DecidableEq α] {ok : OrderedForest ℕ → TransformStore α → Call α → Prop}

theorem Reached.shaped (h : Reached ok s F) (hok : ∀ F s c, ok F s c → Permitted F s c) : Shaped s F := by
  induction h with
  | new => exact shaped_new
  | call _ hc hcall ih => exact ih.call (hok _ _ _ hc) hcall

/-- However calls follow one another, the store answers as its forest. -/
theorem tree_kept (h : Reached Permitted s F) : Faithful s F := (h.shaped fun _ _ _ hc => hc).faithful

/-- Two slots initialised and linked. -/
theorem linked_faithful : ∃ F, Faithful ((((.new : TransformStore ℤ).initSlot 0).initSlot 1).link 1 0) F := by
  have used : ∀ i : ℕ, i < 2 → i ∈ ((OrderedForest.empty.enter 0).enter 1).placed := by
    intro i hi
    rw [OrderedForest.mem_placed_enter, OrderedForest.mem_placed_enter]
    omega
  refine ⟨_, tree_kept (.call (c := .link 1 0) (.call (c := .initSlot 1) (.call (c := .initSlot 0) .new ?_ rfl)
    ?_ rfl) ?_ rfl)⟩
  · intro i _
    simp [OrderedForest.empty]
  · intro i hi
    obtain rfl : 1 = i := Option.some.inj hi
    show 1 ∉ (OrderedForest.empty.enter 0).placed
    simp [OrderedForest.mem_placed_enter, OrderedForest.empty]
  · intro c hc
    obtain ⟨hc, -⟩ := has_eq_some.mp hc
    obtain rfl : 1 = c := Option.some.inj hc
    refine ⟨fun h => absurd h (by decide), fun p hp _ => ?_⟩
    obtain ⟨hp, -⟩ := has_eq_some.mp hp
    obtain rfl : 0 = p := Option.some.inj hp
    exact ⟨used 1 (by omega), used 0 (by omega)⟩

/-- Links between any two numbers. -/
def AnyLink (F : OrderedForest ℕ) : Call α → Prop
  | .initSlot index => ∀ i, index.slot? = some i → i ∉ F.placed
  | .releaseSlot index => ∀ i, index.slot? = some i → F.children i = []
  | _ => True

/-- A released slot is linked to no parent, and becomes a root that nobody uses. -/
theorem released_slot_rooted :
    ¬ ∀ (s : TransformStore ℤ) (F : OrderedForest ℕ), Reached (fun F _ c => AnyLink F c) s F → Faithful s F := by
  intro hall
  have hfresh : (0 : ℕ) ∉ (OrderedForest.empty : OrderedForest ℕ).placed := by simp [OrderedForest.empty]
  have hplant : OrderedForest.empty.enter 0 = OrderedForest.empty.plant 0 hfresh := dif_pos hfresh
  have hleaf : (OrderedForest.empty.plant 0 hfresh).children 0 = [] := by
    simp [OrderedForest.children, OrderedForest.beneath, OrderedForest.empty]
  have hfell : (OrderedForest.empty.plant 0 hfresh).leave 0 = (OrderedForest.empty.plant 0 hfresh).fell 0 hleaf :=
    dif_pos hleaf
  have hnobody : ((OrderedForest.empty.plant 0 hfresh).fell 0 hleaf).placed = [] := by
    simp [OrderedForest.empty]
  have hstill : linked ((OrderedForest.empty.plant 0 hfresh).fell 0 hleaf) 0 NONE =
      (OrderedForest.empty.plant 0 hfresh).fell 0 hleaf := by
    have hout : 0 ∉ ((OrderedForest.empty.plant 0 hfresh).fell 0 hleaf).placed := by
      rw [hnobody]
      exact List.not_mem_nil
    unfold linked
    rw [show (0 : SlotNumber).slot? = some 0 from rfl]
    exact (if_pos rfl).trans (OrderedForest.place_of_notMem hout)
  have hrun : Reached (fun F _ c => AnyLink F c)
      ((((.new : TransformStore ℤ).initSlot 0).releaseSlot 0).link 0 NONE)
      (linked ((OrderedForest.empty.enter 0).leave 0) 0 NONE) := by
    refine .call (c := .link 0 NONE) (.call (c := .releaseSlot 0) (.call (c := .initSlot 0) .new ?_ rfl) ?_ rfl)
      trivial rfl
    · exact fun i _ => by simp [OrderedForest.empty]
    · intro i hi
      obtain rfl : 0 = i := Option.some.inj hi
      show (OrderedForest.empty.enter 0).children 0 = []
      rw [hplant, hleaf]
  rw [hplant, hfell, hstill] at hrun
  have hroots := (hall _ _ hrun).roots
  rw [hnobody] at hroots
  exact absurd hroots (by decide)

end Grove.Render
