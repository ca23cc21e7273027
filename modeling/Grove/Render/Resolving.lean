import Grove.Render.Runs

/-! # Resolving what is dirty

A slot is `Clean` when its resolved values are what its parent's and its own give.  A walk from a slot
leaves the slots beneath it clean and every other value as it was (`Walked`).  `Resolving` is the
invariant of the loop over the dirty slots: what is not clean is dirty, a dirty slot that the loop has
passed has a dirty one over it, and nothing composed has; so at its end nothing is dirty, and no slot was
composed twice. -/

namespace Grove.Render

open Threads (walk search)

variable {α : Type} [AddMonoid α] [DecidableEq α]
  {s s' s₀ : TransformStore α} {F : OrderedForest ℕ} {c i p r x : ℕ} {done stack : List ℕ}

namespace TransformStore

/-- The resolved position and visibility of a slot. -/
def value (s : TransformStore α) (i : ℕ) : Position α × Bool := (s.resolved i, s.resolvedVisible i)

def Clean (s : TransformStore α) (i : ℕ) : Prop := s.composed i = s.value i

end TransformStore

open TransformStore (value Clean)

omit [DecidableEq α] in
/-- What a slot resolves to depends on its own values and its parent's resolved ones. -/
theorem composed_congr (hpar : s'.parent i = s.parent i) (hpos : s'.pos i = s.pos i)
    (hvis : s'.visible i = s.visible i) (hbase : ∀ p, s.parent i = some p → s'.value p = s.value p) :
    s'.composed i = s.composed i := by
  unfold TransformStore.composed
  rw [hpar, hpos, hvis]
  cases hp : s.parent i with
  | none => rfl
  | some p =>
    obtain ⟨hx, hv⟩ := Prod.mk.inj (hbase p hp)
    simp only [hx, hv]

omit [DecidableEq α] in
theorem TransformStore.Clean.congr (h : Clean s i) (hpar : s'.parent i = s.parent i) (hpos : s'.pos i = s.pos i)
    (hvis : s'.visible i = s.visible i) (hown : s'.value i = s.value i)
    (hbase : ∀ p, s.parent i = some p → s'.value p = s.value p) : Clean s' i := by
  unfold Clean
  rw [composed_congr hpar hpos hvis hbase, hown]
  exact h

theorem value_compose (s : TransformStore α) (i : ℕ) :
    (s.compose i).value = Function.update s.value i (s.composed i) := by
  funext x
  unfold value TransformStore.compose
  obtain rfl | hx := eq_or_ne x i
  · simp
  · simp [Function.update_of_ne hx]

/-! ### The walk over a subtree -/

/-- From `s₀`, the slots of `done` were composed, each after its parent. -/
structure Walked (s₀ s : TransformStore α) (done : List ℕ) : Prop where
  tables : SameTables s₀ s
  pos : s.pos = s₀.pos
  visible : s.visible = s₀.visible
  visits : s.visits = s₀.visits ++ done
  dirty : ∀ x, x ∈ s.resolveDirty ↔ x ∈ s₀.resolveDirty ∧ x ∉ done
  kept : ∀ x ∉ done, s.value x = s₀.value x
  clean : ∀ x ∈ done, Clean s x
  changed : ∀ x, x ∈ s.resolvedChanged ↔ x ∈ s₀.resolvedChanged ∨ x ∈ done ∧ s.value x ≠ s₀.value x
  nodup : s₀.resolvedChanged.Nodup → s.resolvedChanged.Nodup

omit [DecidableEq α] in
theorem Walked.start (s : TransformStore α) : Walked s s [] where
  tables := .refl s
  pos := rfl
  visible := rfl
  visits := by simp
  dirty := by simp
  kept := fun _ _ => rfl
  clean := by simp
  changed := by simp
  nodup := fun h => h

theorem Walked.step (h : Walked s₀ s done) (hs : Shaped s F) (hsweep : F.Sweep r done (x :: stack)) :
    Walked s₀ (s.compose x) (done ++ [x]) := by
  have hx : x ∉ done := fun hmem =>
    (List.nodup_append'.mp hsweep.nodup).2.2 hmem List.mem_cons_self
  have hbelow : F.Above r x := hsweep.below x (by simp)
  have hvalue : ∀ y, y ≠ x → (s.compose x).value y = s.value y := fun y hy => by
    rw [value_compose, Function.update_of_ne hy]
  have hown : (s.compose x).value x = s.composed x := by
    rw [value_compose, Function.update_self]
  -- the parent of a slot composed by now is another slot than `x`
  have hparent : ∀ y ∈ done ++ [x], ∀ p, F.parent y = some p → p ≠ x := by
    rintro y hy p hp rfl
    obtain hy | hy := List.mem_append.mp hy
    · obtain rfl | ⟨q, hq, hyq⟩ := hsweep.parents y (List.mem_append_left _ hy)
      · exact OrderedForest.not_above_parent hp hbelow
      · exact hx (Option.some.inj (hyq.symm.trans hp) ▸ hq)
    · rw [List.mem_singleton.mp hy] at hp
      exact OrderedForest.not_above_parent hp (.refl F p)
  refine ⟨h.tables.trans (sameTables_compose s x), h.pos, h.visible, ?_, fun y => ?_, fun y hy => ?_, fun y hy => ?_,
    fun y => ?_, fun hnodup => ?_⟩
  · show s.visits ++ [x] = _
    rw [h.visits, List.append_assoc]
  · show y ∈ s.resolveDirty.filter (· ≠ x) ↔ _
    simp only [List.mem_filter, h.dirty y, decide_eq_true_eq, List.mem_append, List.mem_singleton]
    tauto
  · obtain ⟨hdone, hne⟩ : y ∉ done ∧ y ≠ x := by simpa using hy
    rw [hvalue y hne, h.kept y hdone]
  · have hbase : ∀ p, s.parent y = some p → (s.compose x).value p = s.value p := fun p hp =>
      hvalue p (hparent y hy p (hs.parent_eq ▸ hp))
    obtain hy | hy := List.mem_append.mp hy
    · exact (h.clean y hy).congr rfl rfl rfl (hvalue y (ne_of_mem_of_not_mem hy hx)) hbase
    · obtain rfl := List.mem_singleton.mp hy
      have hsame : (s.compose y).composed y = s.composed y := composed_congr rfl rfl rfl hbase
      exact hsame.trans hown.symm
  · have hchanged : y ∈ (s.compose x).resolvedChanged ↔
        y ∈ s.resolvedChanged ∨ y = x ∧ s.composed x ≠ s.value x := by
      unfold TransformStore.compose value
      simp only
      split <;> simp [*]
    rw [hchanged, h.changed, List.mem_append, List.mem_singleton]
    obtain rfl | hy := eq_or_ne y x
    · simp [hx, hown, h.kept y hx]
    · simp [hy, hvalue y hy]
  · have hlist : (s.compose x).resolvedChanged =
        if s.composed x ≠ s.value x then addNew s.resolvedChanged x else s.resolvedChanged := rfl
    rw [hlist]
    split
    · exact nodup_addNew (h.nodup hnodup) x
    · exact h.nodup hnodup

theorem Walked.run (hs : Shaped s₀ F) (hr : r < s₀.count) : ∀ {n : ℕ} {stack done : List ℕ} {s : TransformStore α},
    Walked s₀ s done → F.Sweep r done stack → s₀.count ≤ n + done.length →
    ∃ s' done', TransformStore.resolveStack n stack s = some s' ∧ Walked s₀ s' done' ∧ F.Sweep r done' []
  | n, [], done, s, h, hsweep, _ => ⟨s, done, by cases n <;> rfl, h, hsweep⟩
  | 0, x :: stack, done, s, h, hsweep, hn => by
    have hlength : (done ++ x :: stack).length ≤ s₀.count := length_le_of_bounded hsweep.nodup fun y hy => by
      obtain hyr | ⟨p, -, hp⟩ := hsweep.parents y hy
      · exact hyr ▸ hr
      · exact hs.bounded y (F.closed hp).1
    simp at hlength
    omega
  | n + 1, x :: stack, done, s, h, hsweep, hn => by
    have hstep := h.step (h.tables.shaped hs) hsweep
    rw [TransformStore.resolveStack, (hstep.tables.shaped hs).kids_eq x]
    refine Walked.run hs hr hstep (hsweep.next (.refl _) ?_) (by rw [List.length_append]; simp; omega)
    exact ((F.children x).reverse_perm.append_right stack).trans List.perm_append_comm

/-! ### The loop over the dirty slots -/

omit [AddMonoid α] [DecidableEq α] in
theorem Shaped.hasDirtyAncestor_eq (h : Shaped s F) (hi : i < s.count) : ∃ b, s.hasDirtyAncestor i = some b ∧
    (b = true ↔ ∃ a ∈ s.resolveDirty, a ≠ i ∧ F.Above a i) := by
  unfold TransformStore.hasDirtyAncestor
  rw [h.parent_eq]
  cases hp : F.parent i with
  | none =>
    have hsearch : ∀ pass, search F.parent pass s.count none = some false := by
      intro pass
      cases s.count <;> rfl
    refine ⟨false, hsearch _, ?_⟩
    simp only [Bool.false_eq_true, false_iff, not_exists, not_and]
    intro a _ hne habove
    obtain rfl | ⟨p, hp', -⟩ := OrderedForest.above_iff.mp habove
    · exact hne rfl
    · simp [hp] at hp'
  | some p =>
    obtain ⟨l, hmem, hwalk⟩ := h.exists_lineage (h.bounded p (F.closed hp).2)
    have hlineage := hwalk s.count (Nat.le_refl _)
    rw [h.parent_eq] at hlineage
    refine ⟨_, Threads.search_of_walk F.parent _ hlineage, ?_⟩
    rw [List.any_eq_true]
    constructor
    · rintro ⟨a, ha, hdirty⟩
      have habove := (hmem a).mp ha
      refine ⟨a, by simpa using hdirty, ?_, .of_above_parent hp habove⟩
      rintro rfl
      exact OrderedForest.not_above_parent hp habove
    · rintro ⟨a, hdirty, hne, habove⟩
      obtain rfl | ⟨q, hq, haq⟩ := OrderedForest.above_iff.mp habove
      · exact absurd rfl hne
      · obtain rfl := Option.some.inj (hp.symm.trans hq)
        exact ⟨a, (hmem a).mpr haq, by simpa using hdirty⟩

structure Resolving (F : OrderedForest ℕ) (s₀ s : TransformStore α) (rest : List ℕ) : Prop where
  tables : SameTables s₀ s
  pos : s.pos = s₀.pos
  visible : s.visible = s₀.visible
  bounded : ∀ d ∈ s.resolveDirty, d < s.count
  clean : ∀ x, Clean s x ∨ x ∈ s.resolveDirty ∧ x ∈ F.placed
  left : ∀ d ∈ s.resolveDirty, d ∈ rest ∨ ∃ a ∈ s.resolveDirty, a ≠ d ∧ F.Above a d
  once : s.visits.Nodup
  apart : ∀ v ∈ s.visits, ∀ d ∈ s.resolveDirty, ¬ F.Above d v
  kept : ∀ x ∉ s.visits, s.value x = s₀.value x
  changed : ∀ x, x ∈ s.resolvedChanged ↔ x ∈ s₀.resolvedChanged ∨ s.value x ≠ s₀.value x
  nodup : s.resolvedChanged.Nodup

omit [DecidableEq α] in
/-- A walk from a dirty slot with no dirty one over it. -/
theorem Resolving.walked {rest : List ℕ} (h : Resolving F s₀ s (i :: rest)) (hs : Shaped s F)
    (hi : i ∈ s.resolveDirty) (htop : ∀ a ∈ s.resolveDirty, a ≠ i → ¬ F.Above a i)
    (hwalk : Walked s s' done) (hsweep : F.Sweep i done []) : Resolving F s₀ s' rest := by
  have hdone : ∀ x, x ∈ done ↔ F.Above i x := fun x => hsweep.finished
  have hfar : ∀ v ∈ s.visits, v ∉ done := fun v hv hmem => h.apart v hv i hi ((hdone v).mp hmem)
  refine ⟨h.tables.trans hwalk.tables, hwalk.pos.trans h.pos, hwalk.visible.trans h.visible, fun d hd => ?_,
    fun x => ?_, fun d hd => ?_, ?_, fun v hv d hd => ?_, fun x hx => ?_, fun x => ?_, hwalk.nodup h.nodup⟩
  · exact (h.bounded d ((hwalk.dirty d).mp hd).1).trans_eq hwalk.tables.count.symm
  · by_cases hx : x ∈ done
    · exact .inl (hwalk.clean x hx)
    · have hbase : ∀ p, s.parent x = some p → s'.value p = s.value p := fun p hp =>
        hwalk.kept p fun hmem => hx ((hdone x).mpr
          (.of_above_parent (hs.parent_eq ▸ hp) ((hdone p).mp hmem)))
      refine (h.clean x).imp (fun hclean => ?_) fun hdirty => ⟨(hwalk.dirty x).mpr ⟨hdirty.1, hx⟩, hdirty.2⟩
      exact hclean.congr (by rw [hwalk.tables.parent]) (by rw [hwalk.pos]) (by rw [hwalk.visible])
        (hwalk.kept x hx) hbase
  · obtain ⟨hdirty, hout⟩ := (hwalk.dirty d).mp hd
    obtain hmem | ⟨a, ha, hne, habove⟩ := h.left d hdirty
    · refine .inl (List.mem_of_ne_of_mem ?_ hmem)
      rintro rfl
      exact hout ((hdone d).mpr (.refl F d))
    · refine .inr ⟨a, (hwalk.dirty a).mpr ⟨ha, fun hmem => ?_⟩, hne, habove⟩
      exact hout ((hdone d).mpr (((hdone a).mp hmem).trans habove))
  · rw [hwalk.visits, List.nodup_append']
    exact ⟨h.once, by simpa using hsweep.nodup, hfar⟩
  · obtain ⟨hdirty, hout⟩ := (hwalk.dirty d).mp hd
    rw [hwalk.visits] at hv
    obtain hv | hv := List.mem_append.mp hv
    · exact h.apart v hv d hdirty
    · -- `d` and `i` both stand over `v`, so one stands over the other
      intro habove
      obtain hdi | hid := habove.total ((hdone v).mp hv)
      · exact htop d hdirty (fun hd => hout ((hdone d).mpr (hd ▸ .refl F d))) hdi
      · exact hout ((hdone d).mpr hid)
  · rw [hwalk.visits, List.mem_append, not_or] at hx
    rw [hwalk.kept x hx.2, h.kept x hx.1]
  · rw [hwalk.changed, h.changed]
    by_cases hx : x ∈ done
    · rw [h.kept x fun hv => hfar x hv hx]
      simp [hx]
    · simp [hx, hwalk.kept x hx]

theorem Resolving.step {rest : List ℕ} (h : Resolving F s₀ s (i :: rest)) (hs : Shaped s F) :
    ∃ s', s.resolvePending i = some s' ∧ Resolving F s₀ s' rest := by
  unfold TransformStore.resolvePending
  split
  · next hi =>
    obtain ⟨b, hb, hiff⟩ := hs.hasDirtyAncestor_eq (h.bounded i hi)
    rw [hb]
    cases b with
    | true =>
      obtain ⟨a, ha, hne, habove⟩ := hiff.mp rfl
      refine ⟨s, rfl, { h with left := fun d hd => ?_ }⟩
      obtain hmem | hover := h.left d hd
      · obtain rfl | hmem := List.mem_cons.mp hmem
        · exact .inr ⟨a, ha, hne, habove⟩
        · exact .inl hmem
      · exact .inr hover
    | false =>
      obtain ⟨s', done, hrun, hwalk, hsweep⟩ := Walked.run hs (h.bounded i hi) (.start s)
        (OrderedForest.Sweep.start F i) (Nat.le_refl _)
      refine ⟨s', hrun, h.walked hs hi (fun a ha hne habove => ?_) hwalk hsweep⟩
      exact absurd (hiff.mpr ⟨a, ha, hne, habove⟩) (by simp)
  · next hi =>
    refine ⟨s, rfl, { h with left := fun d hd => ?_ }⟩
    exact (h.left d hd).imp_left fun hmem => List.mem_of_ne_of_mem (ne_of_mem_of_not_mem hd hi) hmem

theorem Resolving.run : ∀ {rest : List ℕ} {s : TransformStore α}, Resolving F s₀ s rest → Shaped s F →
    ∃ s', TransformStore.resolveAll rest s = some s' ∧ Resolving F s₀ s' []
  | [], s, h, _ => ⟨s, rfl, h⟩
  | i :: rest, s, h, hs => by
    obtain ⟨t, ht, hnext⟩ := h.step hs
    have hshape : Shaped t F := (sameTables_resolvePending ht).shaped hs
    rw [TransformStore.resolveAll, ht]
    exact hnext.run hshape

omit [DecidableEq α] in
/-- A dirty slot over each dirty slot is one too many. -/
theorem Resolving.nothing_left (h : Resolving F s₀ s []) (d : ℕ) : d ∉ s.resolveDirty := by
  have hover : ∀ d a, F.Above a d → a ∉ s.resolveDirty := by
    intro d
    induction d using F.founded.induction with
    | h d ih =>
      intro a ha hmem
      obtain rfl | ⟨p, hp, hap⟩ := OrderedForest.above_iff.mp ha
      · obtain hnil | ⟨b, hb, hne, hba⟩ := h.left a hmem
        · simp at hnil
        · obtain rfl | ⟨p, hp, hbp⟩ := OrderedForest.above_iff.mp hba
          · exact hne rfl
          · exact ih p hp b hbp hb
      · exact ih p hp a hap hmem
  exact hover d d (.refl F d)

/-! ### Full recomposition -/

omit [DecidableEq α] in
/-- Where every slot is clean, a slot's values are those along its path to the root. -/
theorem value_of_clean (hclean : ∀ x, Clean s x) : ∀ {n : ℕ} {i : ℕ} {path : List ℕ},
    walk s.parent n (some i) = some path →
    s.resolved i = (path.reverse.map s.pos).sum ∧ s.resolvedVisible i = path.all s.visible
  | 0, i, path, h => by simp [walk] at h
  | n + 1, i, path, h => by
    rw [Threads.walk_cons, Option.map_eq_some_iff] at h
    obtain ⟨above, habove, rfl⟩ := h
    have hi := hclean i
    unfold Clean TransformStore.composed value at hi
    rw [List.reverse_cons, List.map_append, List.sum_append, List.all_cons, List.map_singleton,
      List.sum_singleton]
    cases hp : s.parent i with
    | none =>
      rw [hp, Threads.walk_none] at habove
      obtain rfl := Option.some.inj habove
      simp only [hp] at hi
      obtain ⟨hpos, hvis⟩ := Prod.mk.inj hi
      exact ⟨by simpa using hpos.symm, by simpa using hvis.symm⟩
    | some p =>
      rw [hp] at habove
      obtain ⟨hpos, hvis⟩ := value_of_clean hclean habove
      simp only [hp] at hi
      obtain ⟨hpos', hvis'⟩ := Prod.mk.inj hi
      rw [← hpos', ← hvis', hpos, hvis]
      exact ⟨rfl, Bool.and_comm _ _⟩

end Grove.Render
