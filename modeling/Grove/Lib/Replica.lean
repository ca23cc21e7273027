import Mathlib.Tactic

/-! # Replicated forests

A forest of named nodes kept in step by a log of edits.  A `World` holds the nodes (each with
its parent and a datum) and the names a replica still answers to: destroying a node takes its
whole subtree with it, while the names of the descendants stay known until an edit destroys
each of them by its own name.  That is how two stores fall in step when one of them journals
every removal and the other cascades by itself.

An edit is refused (`none`) when it names what it may not: `step`.  Three results are used
elsewhere.  `run_destroys` gives the effect of a batch of removals.  `count_run` balances the
removals of a name against its arrivals.  `run_elide` is about a
log that drops every edit on a set of names that came and went inside it: the shorter log runs
to the same world, provided no edit that was kept moves a node beneath one of them. -/

namespace Grove

variable {ι δ : Type}

/-- Nodes with their parents and data, and the names still answered to. -/
@[ext] structure World (ι δ : Type) where
  node : ι → Option (Option ι × δ)
  known : Set ι

/-- One entry of the log. -/
inductive Edit (ι δ : Type) where
  | spawn (x : ι) (d : δ)
  | destroy (x : ι)
  | reparent (x : ι) (p : Option ι)
  | modify (x : ι) (f : δ → δ)
  /-- Names a node and changes nothing. -/
  | touch (x : ι)

/-- The node an edit is about. -/
def Edit.target : Edit ι δ → ι
  | .spawn x _ | .destroy x | .reparent x _ | .modify x _ | .touch x => x

/-- The name an edit brings in. -/
def Edit.spawned : Edit ι δ → Option ι
  | .spawn x _ => some x
  | _ => none

/-- The name an edit takes away. -/
def Edit.destroyed : Edit ι δ → Option ι
  | .destroy x => some x
  | _ => none

/-- The second edit brings back what the first took away. -/
def Edit.Revives (a b : Edit ι δ) : Prop := ∃ x, a.destroyed = some x ∧ b.spawned = some x

namespace World

/-- The world with nothing in it. -/
def nothing : World ι δ := ⟨fun _ => none, ∅⟩

/-- `z` hangs directly beneath `x`. -/
def Under (w : World ι δ) (z x : ι) : Prop := ∃ d, w.node z = some (some x, d)

/-- `z` is `x`, or beneath it. -/
def Below (w : World ι δ) : ι → ι → Prop := Relation.ReflTransGen w.Under

open Classical in
/-- Removes every node beneath one of `xs`, and the names `xs`. -/
noncomputable def prune (w : World ι δ) (xs : Set ι) : World ι δ where
  node := fun z => if ∃ x ∈ xs, w.Below z x then none else w.node z
  known := w.known \ xs

/-! ### Removals -/

section prune
variable {w : World ι δ} {xs ys : Set ι}

theorem node_prune_of_below {z x : ι} (hx : x ∈ xs) (h : w.Below z x) : (w.prune xs).node z = none :=
  if_pos ⟨x, hx, h⟩

theorem node_prune_of_not {z : ι} (h : ∀ x ∈ xs, ¬ w.Below z x) : (w.prune xs).node z = w.node z :=
  if_neg (fun ⟨x, hx, hb⟩ => h x hx hb)

theorem under_of_under_prune {z x : ι} (h : (w.prune xs).Under z x) :
    w.Under z x ∧ ∀ y ∈ xs, ¬ w.Below z y := by
  obtain ⟨d, hd⟩ := h
  by_cases hz : ∃ y ∈ xs, w.Below z y
  · obtain ⟨y, hy, hb⟩ := hz
    rw [node_prune_of_below hy hb] at hd
    cases hd
  · push Not at hz
    rw [node_prune_of_not hz] at hd
    exact ⟨⟨d, hd⟩, hz⟩

/-- For a node that stays, pruning changes nothing about what it is beneath. -/
theorem below_prune {z x : ι} (hz : ∀ y ∈ xs, ¬ w.Below z y) : (w.prune xs).Below z x ↔ w.Below z x := by
  constructor
  · exact Relation.ReflTransGen.mono (fun _ _ h => (under_of_under_prune h).1) z x
  · intro h
    induction h using Relation.ReflTransGen.head_induction_on with
    | refl => exact Relation.ReflTransGen.refl
    | @head a b hab _ ih =>
      have hb : ∀ y ∈ xs, ¬ w.Below b y := fun y hy hby =>
        hz y hy (Relation.ReflTransGen.head hab hby)
      obtain ⟨d, hd⟩ := hab
      exact Relation.ReflTransGen.head ⟨d, by rw [node_prune_of_not hz]; exact hd⟩ (ih hb)

/-- Pruning twice is pruning once. -/
theorem prune_prune : (w.prune xs).prune ys = w.prune (xs ∪ ys) := by
  ext1
  · funext z
    by_cases hx : ∃ x ∈ xs, w.Below z x
    · obtain ⟨x, hx, hb⟩ := hx
      have hnone : (w.prune xs).node z = none := node_prune_of_below hx hb
      have hpz : ((w.prune xs).prune ys).node z = none := by
        by_cases hy : ∃ y ∈ ys, (w.prune xs).Below z y
        · obtain ⟨y, hy, hb'⟩ := hy
          exact node_prune_of_below hy hb'
        · push Not at hy
          rw [node_prune_of_not hy]
          exact hnone
      rw [hpz, node_prune_of_below (Set.mem_union_left _ hx) hb]
    · push Not at hx
      by_cases hy : ∃ y ∈ ys, w.Below z y
      · obtain ⟨y, hy, hb⟩ := hy
        rw [node_prune_of_below hy ((below_prune hx).mpr hb),
          node_prune_of_below (Set.mem_union_right _ hy) hb]
      · push Not at hy
        rw [node_prune_of_not (fun y hyy hb => hy y hyy ((below_prune hx).mp hb)),
          node_prune_of_not hx, node_prune_of_not]
        rintro x (hxx | hxx)
        · exact hx x hxx
        · exact hy x hxx
  · show (w.known \ xs) \ ys = w.known \ (xs ∪ ys)
    rw [Set.sdiff_sdiff]

theorem prune_empty : w.prune ∅ = w := by
  ext1
  · funext z
    exact node_prune_of_not (fun x hx => absurd hx (Set.notMem_empty x))
  · exact Set.sdiff_empty

end prune

/-! ### Dropping what came and went -/

section elide
variable {E : Set ι}

open Classical in
/-- The world without the names in `E`. -/
noncomputable def without (w : World ι δ) (E : Set ι) : World ι δ where
  node := fun x => if x ∈ E then none else w.node x
  known := w.known \ E

/-- No node outside `E` hangs beneath one inside. -/
def Apart (w : World ι δ) (E : Set ι) : Prop := ∀ z x, z ∉ E → w.Under z x → x ∉ E

/-- The edit moves no node beneath one of `E`. -/
def Edit.Clear (e : Edit ι δ) (E : Set ι) : Prop := ∀ x q, e = .reparent x (some q) → q ∉ E

theorem node_without_of_mem {w : World ι δ} {x : ι} (h : x ∈ E) : (w.without E).node x = none := if_pos h

theorem node_without_of_not {w : World ι δ} {x : ι} (h : x ∉ E) : (w.without E).node x = w.node x := if_neg h

theorem without_eq_self {w : World ι δ} (hn : ∀ x ∈ E, w.node x = none) (hk : ∀ x ∈ E, x ∉ w.known) :
    w.without E = w := by
  ext1
  · funext x
    by_cases hx : x ∈ E
    · rw [node_without_of_mem hx, hn x hx]
    · exact node_without_of_not hx
  · ext x
    exact ⟨And.left, fun hx => ⟨hx, fun hE => hk x hE hx⟩⟩

theorem Apart.below {w : World ι δ} (h : w.Apart E) {z x : ι} (hz : z ∉ E) (hb : w.Below z x) : x ∉ E := by
  induction hb with
  | refl => exact hz
  | tail _ hu ih => exact h _ _ ih hu

/-- Outside `E`, dropping `E` changes nothing about what a node is beneath. -/
theorem Apart.below_without {w : World ι δ} (h : w.Apart E) {z x : ι} (hz : z ∉ E) :
    (w.without E).Below z x ↔ w.Below z x := by
  constructor
  · refine Relation.ReflTransGen.mono ?_ z x
    rintro a b ⟨d, hd⟩
    by_cases ha : a ∈ E
    · rw [node_without_of_mem ha] at hd
      cases hd
    · rw [node_without_of_not ha] at hd
      exact ⟨d, hd⟩
  · intro hb
    induction hb using Relation.ReflTransGen.head_induction_on with
    | refl => exact Relation.ReflTransGen.refl
    | @head a b hab _ ih =>
      have hbE : b ∉ E := h _ _ hz hab
      obtain ⟨d, hd⟩ := hab
      exact Relation.ReflTransGen.head ⟨d, by rw [node_without_of_not hz]; exact hd⟩ (ih hbE)

end elide

/-! ### Edits -/

variable [DecidableEq ι]

open Classical in
/-- One edit; `none` where it names what it may not. -/
noncomputable def step (w : World ι δ) : Edit ι δ → Option (World ι δ)
  | .spawn x d =>
    if w.node x = none ∧ x ∉ w.known then
      some ⟨Function.update w.node x (some (none, d)), insert x w.known⟩
    else none
  | .destroy x => if x ∈ w.known then some (w.prune {x}) else none
  | .reparent x p =>
    match w.node x with
    | none => none
    | some (_, d) =>
      if ∀ q ∈ p, (w.node q).isSome ∧ ¬ w.Below q x then
        some ⟨Function.update w.node x (some (p, d)), w.known⟩
      else none
  | .modify x f =>
    match w.node x with
    | none => none
    | some (p, d) => some ⟨Function.update w.node x (some (p, f d)), w.known⟩
  | .touch x => if (w.node x).isSome then some w else none

/-- The log from left to right. -/
noncomputable def run (w : World ι δ) : List (Edit ι δ) → Option (World ι δ)
  | [] => some w
  | e :: es => (w.step e).bind (fun w' => run w' es)

theorem run_cons (w : World ι δ) (e : Edit ι δ) (es : List (Edit ι δ)) :
    w.run (e :: es) = (w.step e).bind fun w' => w'.run es := rfl

theorem run_append (w : World ι δ) (es es' : List (Edit ι δ)) :
    w.run (es ++ es') = (w.run es).bind (fun w' => w'.run es') := by
  induction es generalizing w with
  | nil => rfl
  | cons e es ih =>
    rw [List.cons_append, run_cons, run_cons]
    cases w.step e with
    | none => rfl
    | some w' => exact ih w'

theorem run_append_of_some {w w' : World ι δ} {es : List (Edit ι δ)} (h : w.run es = some w')
    (es' : List (Edit ι δ)) : w.run (es ++ es') = w'.run es' := by
  rw [run_append, h]
  rfl

theorem run_singleton (w : World ι δ) (e : Edit ι δ) : w.run [e] = w.step e := by
  rw [run_cons]
  cases w.step e <;> rfl

/-- What one edit does to the known names. -/
theorem known_of_step {w w' : World ι δ} {e : Edit ι δ} (hs : w.step e = some w') :
    (∃ x d, e = .spawn x d ∧ x ∉ w.known ∧ w'.known = insert x w.known) ∨
      (∃ x, e = .destroy x ∧ x ∈ w.known ∧ w'.known = w.known \ {x}) ∨
      e.spawned = none ∧ e.destroyed = none ∧ w'.known = w.known := by
  cases e with
  | spawn x d =>
    simp only [step] at hs
    split_ifs at hs with hfree
    obtain rfl := Option.some.inj hs
    exact Or.inl ⟨x, d, rfl, hfree.2, rfl⟩
  | destroy x =>
    simp only [step] at hs
    split_ifs at hs with hx
    obtain rfl := Option.some.inj hs
    exact Or.inr (Or.inl ⟨x, rfl, hx, rfl⟩)
  | reparent x p =>
    simp only [step] at hs
    split at hs
    · cases hs
    · split_ifs at hs
      obtain rfl := Option.some.inj hs
      exact Or.inr (Or.inr ⟨rfl, rfl, rfl⟩)
  | modify x f =>
    simp only [step] at hs
    split at hs
    · cases hs
    · obtain rfl := Option.some.inj hs
      exact Or.inr (Or.inr ⟨rfl, rfl, rfl⟩)
  | touch x =>
    simp only [step] at hs
    split_ifs at hs
    obtain rfl := Option.some.inj hs
    exact Or.inr (Or.inr ⟨rfl, rfl, rfl⟩)

/-- A name known after a log was known before it or spawned in it. -/
theorem mem_known_of_run {w w' : World ι δ} {x : ι} (es : List (Edit ι δ)) (hrun : w.run es = some w')
    (hx : x ∈ w'.known) : x ∈ w.known ∨ ∃ d, Edit.spawn x d ∈ es := by
  induction es generalizing w with
  | nil => exact Or.inl ((Option.some.inj hrun) ▸ hx)
  | cons e es ih =>
    rw [run_cons] at hrun
    obtain ⟨w₁, hs, hrun⟩ := Option.bind_eq_some_iff.mp hrun
    rcases ih hrun with hx₁ | ⟨d, hd⟩
    · rcases known_of_step hs with ⟨y, d, rfl, -, hk⟩ | ⟨y, -, -, hk⟩ | ⟨-, -, hk⟩
      · rw [hk] at hx₁
        rcases hx₁ with rfl | hx₁
        · exact Or.inr ⟨d, List.mem_cons_self⟩
        · exact Or.inl hx₁
      · rw [hk] at hx₁
        exact Or.inl hx₁.1
      · exact Or.inl (hk ▸ hx₁)
    · exact Or.inr ⟨d, List.mem_cons_of_mem _ hd⟩

/-- A name without a node gets one from a spawn alone. -/
theorem node_none_of_run {w w' : World ι δ} {x : ι} (es : List (Edit ι δ)) (hrun : w.run es = some w')
    (hx : w.node x = none) (hes : ∀ d, Edit.spawn x d ∉ es) : w'.node x = none := by
  induction es generalizing w with
  | nil => exact (Option.some.inj hrun) ▸ hx
  | cons e es ih =>
    rw [run_cons] at hrun
    obtain ⟨w₁, hs, hrun⟩ := Option.bind_eq_some_iff.mp hrun
    refine ih hrun ?_ (fun d hd => hes d (List.mem_cons_of_mem _ hd))
    cases e with
    | spawn y d =>
      simp only [step] at hs
      split_ifs at hs
      obtain rfl := Option.some.inj hs
      have hne : x ≠ y := by
        rintro rfl
        exact hes d List.mem_cons_self
      exact (Function.update_of_ne hne _ _).trans hx
    | destroy y =>
      simp only [step] at hs
      split_ifs at hs
      obtain rfl := Option.some.inj hs
      by_cases hb : ∃ z ∈ ({y} : Set ι), w.Below x z
      · obtain ⟨z, hz, hb⟩ := hb
        exact node_prune_of_below hz hb
      · push Not at hb
        rw [node_prune_of_not hb, hx]
    | reparent y p =>
      simp only [step] at hs
      split at hs
      · cases hs
      · rename_i hy
        split_ifs at hs
        obtain rfl := Option.some.inj hs
        have hne : x ≠ y := by
          rintro rfl
          rw [hx] at hy
          cases hy
        exact (Function.update_of_ne hne _ _).trans hx
    | modify y f =>
      simp only [step] at hs
      split at hs
      · cases hs
      · rename_i hy
        obtain rfl := Option.some.inj hs
        have hne : x ≠ y := by
          rintro rfl
          rw [hx] at hy
          cases hy
        exact (Function.update_of_ne hne _ _).trans hx
    | touch y =>
      simp only [step] at hs
      split_ifs at hs
      obtain rfl := Option.some.inj hs
      exact hx

/-- How often a log brings a name in. -/
def spawnCount (es : List (Edit ι δ)) (x : ι) : ℕ := (es.filterMap Edit.spawned).count x

/-- How often a log takes a name away. -/
def destroyCount (es : List (Edit ι δ)) (x : ι) : ℕ := (es.filterMap Edit.destroyed).count x

theorem spawnCount_spawn (y : ι) (d : δ) (es : List (Edit ι δ)) (x : ι) :
    spawnCount (.spawn y d :: es) x = spawnCount es x + if y = x then 1 else 0 := by
  show (y :: es.filterMap Edit.spawned).count x = _
  rw [List.count_cons]
  simp only [beq_iff_eq]
  rfl

theorem spawnCount_of_none {e : Edit ι δ} (he : e.spawned = none) (es : List (Edit ι δ)) :
    spawnCount (e :: es) = spawnCount es := by
  unfold spawnCount
  rw [List.filterMap_cons_none he]

theorem destroyCount_destroy (y : ι) (es : List (Edit ι δ)) (x : ι) :
    destroyCount (.destroy y :: es) x = destroyCount es x + if y = x then 1 else 0 := by
  show (y :: es.filterMap Edit.destroyed).count x = _
  rw [List.count_cons]
  simp only [beq_iff_eq]
  rfl

theorem destroyCount_of_none {e : Edit ι δ} (he : e.destroyed = none) (es : List (Edit ι δ)) :
    destroyCount (e :: es) = destroyCount es := by
  unfold destroyCount
  rw [List.filterMap_cons_none he]

open Classical in
/-- A name comes and goes in turns: what a log brings in and does not take away is known after it. -/
theorem count_run {w w' : World ι δ} (x : ι) (es : List (Edit ι δ)) (hrun : w.run es = some w') :
    spawnCount es x + (if x ∈ w.known then 1 else 0) =
      destroyCount es x + (if x ∈ w'.known then 1 else 0) := by
  induction es generalizing w with
  | nil =>
    obtain rfl := Option.some.inj hrun
    rfl
  | cons e es ih =>
    rw [run_cons] at hrun
    obtain ⟨w₁, hs, hrun⟩ := Option.bind_eq_some_iff.mp hrun
    have hrest := ih hrun
    rcases known_of_step hs with ⟨y, d, rfl, hy, hk⟩ | ⟨y, rfl, hy, hk⟩ | ⟨h1, h2, hk⟩
    · rw [spawnCount_spawn, destroyCount_of_none rfl]
      rw [hk] at hrest
      by_cases hyx : y = x
      · subst hyx
        rw [if_pos (Set.mem_insert _ _)] at hrest
        rw [if_pos rfl, if_neg hy]
        exact hrest
      · simpa [Set.mem_insert_iff, hyx, Ne.symm hyx] using hrest
    · rw [spawnCount_of_none rfl, destroyCount_destroy]
      rw [hk] at hrest
      by_cases hyx : y = x
      · subst hyx
        rw [if_neg (fun hmem => hmem.2 rfl)] at hrest
        rw [if_pos rfl, if_pos hy]
        omega
      · simpa [hyx, Ne.symm hyx] using hrest
    · rw [spawnCount_of_none h1, destroyCount_of_none h2, ← hk]
      exact hrest

open Classical in
/-- Where nothing is brought back, a name is brought in once at most. -/
theorem spawnCount_le_one {w w' : World ι δ} (x : ι) (es : List (Edit ι δ)) (hrun : w.run es = some w')
    (hes : es.Pairwise (fun a b => ¬ Edit.Revives a b)) :
    spawnCount es x + (if x ∈ w.known then 1 else 0) ≤ 1 := by
  induction es generalizing w with
  | nil =>
    show 0 + _ ≤ 1
    split_ifs <;> simp
  | cons e es ih =>
    rw [run_cons] at hrun
    obtain ⟨w₁, hs, hrun⟩ := Option.bind_eq_some_iff.mp hrun
    obtain ⟨hhead, htail⟩ := List.pairwise_cons.mp hes
    have hrest := ih hrun htail
    rcases known_of_step hs with ⟨y, d, rfl, hy, hk⟩ | ⟨y, rfl, hy, hk⟩ | ⟨h1, -, hk⟩
    · rw [spawnCount_spawn]
      rw [hk] at hrest
      by_cases hyx : y = x
      · subst hyx
        rw [if_pos (Set.mem_insert _ _)] at hrest
        rw [if_pos rfl, if_neg hy]
        exact hrest
      · simpa [Set.mem_insert_iff, hyx, Ne.symm hyx] using hrest
    · rw [spawnCount_of_none rfl]
      rw [hk] at hrest
      by_cases hyx : y = x
      · subst hyx
        -- Once taken away, the name stays away.
        have hnone : spawnCount es y = 0 := by
          rw [spawnCount, List.count_eq_zero, List.mem_filterMap]
          rintro ⟨b, hb, hby⟩
          exact hhead b hb ⟨y, rfl, hby⟩
        rw [hnone, if_pos hy]
      · simpa [hyx, Ne.symm hyx] using hrest
    · rw [spawnCount_of_none h1, ← hk]
      exact hrest

/-- Where nothing is brought back, a known name is not brought in. -/
theorem not_spawned_of_known {w w' : World ι δ} {x : ι} (es : List (Edit ι δ)) (hrun : w.run es = some w')
    (hes : es.Pairwise (fun a b => ¬ Edit.Revives a b)) (hx : x ∈ w.known) (d : δ) : Edit.spawn x d ∉ es := by
  classical
  have hle := spawnCount_le_one x es hrun hes
  rw [if_pos hx] at hle
  intro hmem
  have hpos : 0 < spawnCount es x :=
    List.count_pos_iff.mpr (List.mem_filterMap.mpr ⟨_, hmem, rfl⟩)
  omega

/-- A batch of removals of known names prunes them all. -/
theorem run_destroys {w : World ι δ} : ∀ (xs : List ι), xs.Nodup → (∀ x ∈ xs, x ∈ w.known) →
    w.run (xs.map Edit.destroy) = some (w.prune {x | x ∈ xs}) := by
  intro xs
  induction xs generalizing w with
  | nil =>
    intro _ _
    have : ({x | x ∈ ([] : List ι)} : Set ι) = ∅ := by ext x; simp
    rw [this, prune_empty]
    rfl
  | cons x xs ih =>
    intro hnd hknown
    rw [List.nodup_cons] at hnd
    have hx : w.step (.destroy x) = some (w.prune {x}) := if_pos (hknown x List.mem_cons_self)
    rw [List.map_cons, run_cons, hx, Option.bind_some, ih hnd.2, prune_prune]
    · congr 2
      ext y
      simp
    · intro y hy
      refine ⟨hknown y (List.mem_cons_of_mem _ hy), ?_⟩
      rintro rfl
      exact hnd.1 hy

section elide
variable {E : Set ι}

/-- Writing one node keeps `E` apart when the new parent is outside. -/
theorem Apart.update {w : World ι δ} (h : w.Apart E) {x : ι} {p : Option ι} {d : δ} {known : Set ι}
    (hp : x ∉ E → ∀ q ∈ p, q ∉ E) : (World.mk (Function.update w.node x (some (p, d))) known).Apart E := by
  rintro z y hz ⟨d', hd'⟩
  simp only at hd'
  by_cases hzx : z = x
  · subst hzx
    rw [Function.update_self] at hd'
    obtain ⟨rfl, rfl⟩ := Prod.mk.inj (Option.some.inj hd')
    exact hp hz y rfl
  · rw [Function.update_of_ne hzx] at hd'
    exact h z y hz ⟨d', hd'⟩

theorem without_update_of_mem {w : World ι δ} {x : ι} (hx : x ∈ E) (v : Option (Option ι × δ))
    {known : Set ι} (hk : known \ E = w.known \ E) :
    (World.mk (Function.update w.node x v) known).without E = w.without E := by
  ext1
  · funext z
    by_cases hz : z ∈ E
    · rw [node_without_of_mem hz, node_without_of_mem hz]
    · rw [node_without_of_not hz, node_without_of_not hz]
      have hzx : z ≠ x := fun he => hz (he ▸ hx)
      exact Function.update_of_ne hzx _ _
  · exact hk

theorem without_update_of_not {w : World ι δ} {x : ι} (hx : x ∉ E) (v : Option (Option ι × δ)) (known : Set ι) :
    (World.mk (Function.update w.node x v) known).without E =
      ⟨Function.update (w.without E).node x v, known \ E⟩ := by
  ext1
  · funext z
    by_cases hzx : z = x
    · subst hzx
      rw [node_without_of_not hx]
      simp only [Function.update_self]
    · by_cases hz : z ∈ E
      · rw [node_without_of_mem hz]
        simp only
        rw [Function.update_of_ne hzx, node_without_of_mem hz]
      · rw [node_without_of_not hz]
        simp only
        rw [Function.update_of_ne hzx, Function.update_of_ne hzx, node_without_of_not hz]
  · rfl

/-- An edit about a name of `E` does not show outside `E`. -/
theorem step_inside {w w' : World ι δ} {e : Edit ι δ} (ha : w.Apart E) (he : e.target ∈ E)
    (hs : w.step e = some w') : w'.Apart E ∧ w'.without E = w.without E := by
  cases e with
  | spawn x d =>
    replace he : x ∈ E := he
    simp only [step] at hs
    split_ifs at hs
    obtain rfl := Option.some.inj hs
    exact ⟨ha.update (fun hx => absurd he hx),
      without_update_of_mem he _ (Set.insert_sdiff_of_mem _ he)⟩
  | destroy x =>
    replace he : x ∈ E := he
    simp only [step] at hs
    split_ifs at hs
    obtain rfl := Option.some.inj hs
    have hout : ∀ z, z ∉ E → ∀ y ∈ ({x} : Set ι), ¬ w.Below z y := by
      rintro z hz y rfl hb
      exact ha.below hz hb he
    refine ⟨fun z y hz hu => ha z y hz (under_of_under_prune hu).1, ?_⟩
    ext1
    · funext z
      by_cases hz : z ∈ E
      · rw [node_without_of_mem hz, node_without_of_mem hz]
      · rw [node_without_of_not hz, node_without_of_not hz, node_prune_of_not (hout z hz)]
    · show (w.known \ {x}) \ E = w.known \ E
      rw [Set.sdiff_sdiff, Set.singleton_union, Set.insert_eq_of_mem he]
  | reparent x p =>
    replace he : x ∈ E := he
    simp only [step] at hs
    split at hs
    · cases hs
    · split_ifs at hs
      obtain rfl := Option.some.inj hs
      exact ⟨ha.update (fun hx => absurd he hx), without_update_of_mem he _ rfl⟩
  | modify x f =>
    replace he : x ∈ E := he
    simp only [step] at hs
    split at hs
    · cases hs
    · obtain rfl := Option.some.inj hs
      exact ⟨ha.update (fun hx => absurd he hx), without_update_of_mem he _ rfl⟩
  | touch x =>
    replace he : x ∈ E := he
    simp only [step] at hs
    split_ifs at hs
    obtain rfl := Option.some.inj hs
    exact ⟨ha, rfl⟩

/-- An edit about a name outside `E`, moving nothing beneath `E`, runs without `E` too. -/
theorem step_outside {w w' : World ι δ} {e : Edit ι δ} (ha : w.Apart E) (he : e.target ∉ E)
    (hclear : Edit.Clear e E) (hs : w.step e = some w') :
    w'.Apart E ∧ (w.without E).step e = some (w'.without E) := by
  cases e with
  | spawn x d =>
    replace he : x ∉ E := he
    simp only [step] at hs ⊢
    split_ifs at hs with hfree
    obtain rfl := Option.some.inj hs
    refine ⟨ha.update (fun _ q hq => (Option.not_mem_none q hq).elim), ?_⟩
    rw [if_pos ⟨by rw [node_without_of_not he]; exact hfree.1, fun hk => hfree.2 hk.1⟩,
      without_update_of_not he]
    congr 2
    show insert x (w.known \ E) = insert x w.known \ E
    rw [Set.insert_sdiff_of_notMem _ he]
  | destroy x =>
    replace he : x ∉ E := he
    simp only [step] at hs ⊢
    split_ifs at hs with hk
    obtain rfl := Option.some.inj hs
    refine ⟨fun z y hz hu => ha z y hz (under_of_under_prune hu).1, ?_⟩
    rw [if_pos ⟨hk, he⟩]
    congr 1
    ext1
    · funext z
      by_cases hz : z ∈ E
      · rw [node_without_of_mem hz]
        by_cases hb : ∃ y ∈ ({x} : Set ι), (w.without E).Below z y
        · obtain ⟨y, hy, hb⟩ := hb
          exact node_prune_of_below hy hb
        · push Not at hb
          rw [node_prune_of_not hb, node_without_of_mem hz]
      · rw [node_without_of_not hz]
        by_cases hb : w.Below z x
        · rw [node_prune_of_below (Set.mem_singleton x) ((ha.below_without hz).mpr hb),
            node_prune_of_below (Set.mem_singleton x) hb]
        · rw [node_prune_of_not, node_prune_of_not, node_without_of_not hz]
          · rintro y rfl
            exact hb
          · rintro y rfl hb'
            exact hb ((ha.below_without hz).mp hb')
    · show (w.known \ E) \ {x} = (w.known \ {x}) \ E
      rw [Set.sdiff_sdiff, Set.sdiff_sdiff, Set.union_comm]
  | reparent x p =>
    replace he : x ∉ E := he
    have hp : ∀ q ∈ p, q ∉ E := by
      intro q hq
      exact hclear x q (by rw [show p = some q from hq])
    simp only [step] at hs ⊢
    rw [node_without_of_not he]
    split at hs
    · cases hs
    · rename_i p₀ d hnode
      split_ifs at hs with hok
      obtain rfl := Option.some.inj hs
      refine ⟨ha.update (fun _ => hp), ?_⟩
      rw [if_pos, without_update_of_not he]
      · rfl
      · intro q hq
        obtain ⟨h1, h2⟩ := hok q hq
        rw [node_without_of_not (hp q hq)]
        exact ⟨h1, fun hb => h2 ((ha.below_without (hp q hq)).mp hb)⟩
  | modify x f =>
    replace he : x ∉ E := he
    simp only [step] at hs ⊢
    rw [node_without_of_not he]
    split at hs
    · cases hs
    · rename_i p d hnode
      obtain rfl := Option.some.inj hs
      refine ⟨ha.update (fun hx q hq => ?_), ?_⟩
      · rw [Option.mem_def] at hq
        subst hq
        exact ha x q hx ⟨d, hnode⟩
      · rw [without_update_of_not he]
        rfl
  | touch x =>
    replace he : x ∉ E := he
    simp only [step] at hs ⊢
    rw [node_without_of_not he]
    split_ifs at hs with h
    obtain rfl := Option.some.inj hs
    exact ⟨ha, if_pos h⟩

/-- **Elision.**  Dropping every edit about a name of `E` from a log that runs leaves a log
that runs to the same world less `E`, if no kept edit moves a node beneath one of `E`. -/
theorem run_elide [DecidablePred (· ∈ E)] {w w' : World ι δ} (es : List (Edit ι δ)) (ha : w.Apart E)
    (hclear : ∀ e ∈ es, e.target ∉ E → Edit.Clear e E) (hrun : w.run es = some w') :
    (w.without E).run (es.filter (fun e => e.target ∉ E)) = some (w'.without E) := by
  induction es generalizing w with
  | nil =>
    obtain rfl := Option.some.inj hrun
    rfl
  | cons e es ih =>
    rw [run_cons] at hrun
    obtain ⟨w₁, hs, hrun⟩ := Option.bind_eq_some_iff.mp hrun
    have hrest : ∀ e' ∈ es, e'.target ∉ E → Edit.Clear e' E :=
      fun e' he' => hclear e' (List.mem_cons_of_mem _ he')
    by_cases he : e.target ∈ E
    · obtain ⟨ha₁, heq⟩ := step_inside ha he hs
      rw [List.filter_cons_of_neg (by simpa using he), ← heq]
      exact ih ha₁ hrest hrun
    · obtain ⟨ha₁, hstep⟩ := step_outside ha he (hclear e List.mem_cons_self he) hs
      rw [List.filter_cons_of_pos (by simpa using he)]
      rw [run_cons, hstep, Option.bind_some]
      exact ih ha₁ hrest hrun

end elide

end World

end Grove
