import Grove.Lib.Threads

/-! # Forests that remember the order of placement

The nodes in use are listed in the order each was last placed, so the children of a node, and the
roots, are read off that one list (`children`, `roots`).  A parent is in use, and no chain of parents
runs for ever: both are fields, so a cyclic forest cannot be built.

`Sweep F r done pending` is the invariant of a walk over the nodes beneath `r` that takes pending nodes
in any order and puts their children with the rest; `Sweep.finished` says what it has met. -/

namespace Grove

@[ext] structure OrderedForest (ι : Type) where
  placed : List ι
  parent : ι → Option ι
  nodup : placed.Nodup
  closed : ∀ {c p : ι}, parent c = some p → c ∈ placed ∧ p ∈ placed
  founded : WellFounded fun p c : ι => parent c = some p

namespace OrderedForest

variable {ι : Type}

/-- `a` is `d` or stands over it. -/
def Above (F : OrderedForest ι) (a d : ι) : Prop :=
  Relation.ReflTransGen (fun c p => F.parent c = some p) d a

variable {F : OrderedForest ι} {a b c d p r : ι}

theorem Above.refl (F : OrderedForest ι) (a : ι) : F.Above a a := Relation.ReflTransGen.refl

theorem Above.trans (hab : F.Above a b) (hbc : F.Above b c) : F.Above a c :=
  Relation.ReflTransGen.trans hbc hab

theorem Above.of_parent (h : F.parent c = some p) : F.Above p c := Relation.ReflTransGen.single h

theorem Above.of_above_parent (h : F.parent c = some p) (ha : F.Above a p) : F.Above a c :=
  Relation.ReflTransGen.head h ha

theorem above_iff : F.Above a c ↔ a = c ∨ ∃ p, F.parent c = some p ∧ F.Above a p := by
  constructor
  · intro h
    obtain rfl | ⟨p, hp, ha⟩ := Relation.ReflTransGen.cases_head h
    · exact .inl rfl
    · exact .inr ⟨p, hp, ha⟩
  · rintro (rfl | ⟨p, hp, ha⟩)
    · exact .refl F a
    · exact .of_above_parent hp ha

/-- No node stands over its own parent. -/
theorem not_above_parent (h : F.parent c = some p) : ¬ F.Above c p := by
  induction c using F.founded.induction generalizing p with
  | h c ih =>
    intro habove
    obtain rfl | ⟨q, hq, hcq⟩ := above_iff.mp habove
    · exact ih c h h (.refl F c)
    · exact ih p h hq ((Above.of_parent h).trans hcq)

/-- Of two nodes over a third, one stands over the other. -/
theorem Above.total (ha : F.Above a c) (hb : F.Above b c) : F.Above a b ∨ F.Above b a := by
  have unique : Relator.RightUnique fun c p : ι => F.parent c = some p := fun x y z hy hz =>
    Option.some.inj (hy.symm.trans hz)
  exact (Relation.ReflTransGen.total_of_right_unique unique ha hb).symm

theorem Above.mem (h : F.Above a c) (hc : c ∈ F.placed) : a ∈ F.placed := by
  induction h with
  | refl => exact hc
  | tail _ hstep _ => exact (F.closed hstep).2

theorem exists_root (F : OrderedForest ι) (c : ι) : ∃ r, F.parent r = none ∧ F.Above r c := by
  induction c using F.founded.induction with
  | h c ih =>
    cases hp : F.parent c with
    | none => exact ⟨c, hp, .refl F c⟩
    | some p =>
      obtain ⟨r, hroot, hrp⟩ := ih p hp
      exact ⟨r, hroot, .of_above_parent hp hrp⟩

theorem parent_eq_none (h : c ∉ F.placed) : F.parent c = none := by
  cases hp : F.parent c with
  | none => rfl
  | some p => exact absurd (F.closed hp).1 h

/-- The chain of parents of a node ends, and lists what stands over it. -/
theorem exists_lineage (F : OrderedForest ι) (c : ι) : ∃ l : List ι, l.Nodup ∧ (∀ a, a ∈ l ↔ F.Above a c) ∧
    ∀ n, l.length ≤ n → Threads.walk F.parent n (some c) = some l := by
  induction c using F.founded.induction with
  | h c ih =>
    cases hp : F.parent c with
    | none =>
      refine ⟨[c], List.nodup_singleton c, fun a => ?_, fun n hn => ?_⟩
      · simp [above_iff (c := c), hp]
      · obtain ⟨m, rfl⟩ := Nat.exists_eq_succ_of_ne_zero (n := n) (by simp at hn; omega)
        rw [Threads.walk_cons, hp, Threads.walk_none]
        rfl
    | some p =>
      obtain ⟨l, hnodup, hmem, hwalk⟩ := ih p hp
      have hc : c ∉ l := fun hc => not_above_parent hp ((hmem c).mp hc)
      refine ⟨c :: l, List.nodup_cons.mpr ⟨hc, hnodup⟩, fun a => ?_, fun n hn => ?_⟩
      · rw [above_iff (c := c), List.mem_cons, hmem, hp]
        simp
      · obtain ⟨m, rfl⟩ := Nat.exists_eq_succ_of_ne_zero (n := n) (by simp at hn; omega)
        rw [Threads.walk_cons, hp, hwalk m (Nat.le_of_succ_le_succ hn)]
        rfl

variable [DecidableEq ι]

/-- The nodes with the given parent, or without one. -/
def beneath (F : OrderedForest ι) (q : Option ι) : List ι := F.placed.filter fun x => decide (F.parent x = q)

def children (F : OrderedForest ι) (p : ι) : List ι := F.beneath (some p)

def roots (F : OrderedForest ι) : List ι := F.beneath none

theorem mem_beneath {q : Option ι} : c ∈ F.beneath q ↔ c ∈ F.placed ∧ F.parent c = q := by
  simp [beneath]

theorem mem_children : c ∈ F.children p ↔ F.parent c = some p :=
  mem_beneath.trans (and_iff_right_of_imp fun h => (F.closed h).1)

theorem nodup_beneath (F : OrderedForest ι) (q : Option ι) : (F.beneath q).Nodup := F.nodup.filter _

/-! ### Placing and removing nodes -/

def empty : OrderedForest ι where
  placed := []
  parent := fun _ => none
  nodup := List.nodup_nil
  closed := by simp
  founded := ⟨fun x => ⟨x, fun y h => by simp at h⟩⟩

/-- A new root, placed last. -/
def plant (F : OrderedForest ι) (i : ι) (hi : i ∉ F.placed) : OrderedForest ι where
  placed := F.placed ++ [i]
  parent := F.parent
  nodup := List.nodup_append.mpr ⟨F.nodup, List.nodup_singleton i, by
    rintro x hx y hy rfl
    exact hi (List.mem_singleton.mp hy ▸ hx)⟩
  closed := fun h => ⟨List.mem_append_left _ (F.closed h).1, List.mem_append_left _ (F.closed h).2⟩
  founded := F.founded

/-- A node without children leaves. -/
def fell (F : OrderedForest ι) (i : ι) (hi : F.children i = []) : OrderedForest ι where
  placed := F.placed.filter (· ≠ i)
  parent := Function.update F.parent i none
  nodup := F.nodup.filter _
  closed := by
    intro c p h
    obtain rfl | hc := eq_or_ne c i
    · simp at h
    · rw [Function.update_of_ne hc] at h
      have hp : p ≠ i := by
        rintro rfl
        have := mem_children.mpr h
        simp [hi] at this
      simp [hc, hp, F.closed h]
  founded := by
    refine Subrelation.wf (fun {p c} h => ?_) F.founded
    obtain rfl | hc := eq_or_ne c i
    · simp at h
    · rwa [Function.update_of_ne hc] at h

/-- A node goes beneath `p`, or among the roots, and is placed last. -/
def move (F : OrderedForest ι) (c : ι) (p : Option ι) (hc : c ∈ F.placed)
    (hp : ∀ q, p = some q → q ∈ F.placed ∧ ¬ F.Above c q) : OrderedForest ι where
  placed := F.placed.filter (· ≠ c) ++ [c]
  parent := Function.update F.parent c p
  nodup := List.nodup_append.mpr ⟨F.nodup.filter _, List.nodup_singleton c, by
    rintro x hx y hy rfl
    simp [List.mem_singleton.mp hy] at hx⟩
  closed := by
    intro x q h
    have hmem : ∀ y ∈ F.placed, y ∈ F.placed.filter (· ≠ c) ++ [c] := by
      intro y hy
      obtain rfl | hyc := eq_or_ne y c
      · simp
      · simp [hy, hyc]
    obtain rfl | hx := eq_or_ne x c
    · rw [Function.update_self] at h
      exact ⟨by simp, hmem q (hp q h).1⟩
    · rw [Function.update_of_ne hx] at h
      exact ⟨hmem x (F.closed h).1, hmem q (F.closed h).2⟩
  founded := by
    -- what is not beneath `c` keeps its parents, and then so does all that is
    have outside : ∀ x, ¬ F.Above c x → Acc (fun q y => Function.update F.parent c p y = some q) x := by
      intro x
      induction x using F.founded.induction with
      | h x ih =>
        intro hx
        have hne : x ≠ c := fun h => hx (h ▸ .refl F x)
        refine ⟨x, fun q hq => ?_⟩
        rw [Function.update_of_ne hne] at hq
        exact ih q hq fun hcq => hx (.of_above_parent hq hcq)
    have top : Acc (fun q y => Function.update F.parent c p y = some q) c := by
      refine ⟨c, fun q hq => ?_⟩
      rw [Function.update_self] at hq
      exact outside q (hp q hq).2
    refine ⟨fun x => ?_⟩
    induction x using F.founded.induction with
    | h x ih =>
      obtain rfl | hne := eq_or_ne x c
      · exact top
      · refine ⟨x, fun q hq => ?_⟩
        rw [Function.update_of_ne hne] at hq
        exact ih q hq

omit [DecidableEq ι] in
@[simp] theorem plant_placed {i : ι} {hi : i ∉ F.placed} : (F.plant i hi).placed = F.placed ++ [i] := rfl

omit [DecidableEq ι] in
@[simp] theorem plant_parent {i : ι} {hi : i ∉ F.placed} : (F.plant i hi).parent = F.parent := rfl

section ops

variable {i : ι} {hi : i ∉ F.placed} {hl : F.children i = []} {q : Option ι} {hc : c ∈ F.placed}
  {hq : ∀ x, q = some x → x ∈ F.placed ∧ ¬ F.Above c x}

@[simp] theorem fell_placed : (F.fell i hl).placed = F.placed.filter (· ≠ i) := rfl
@[simp] theorem fell_parent : (F.fell i hl).parent = Function.update F.parent i none := rfl
@[simp] theorem move_placed : (F.move c q hc hq).placed = F.placed.filter (· ≠ c) ++ [c] := rfl
@[simp] theorem move_parent : (F.move c q hc hq).parent = Function.update F.parent c q := rfl

theorem beneath_plant {t : Option ι} :
    (F.plant i hi).beneath t = F.beneath t ++ if none = t then [i] else [] := by
  unfold beneath
  rw [plant_placed, plant_parent, List.filter_append, List.filter_singleton, parent_eq_none hi]
  simp

/-- Writing the parent of a node that has left the list changes no selection from it. -/
theorem filter_update (c : ι) (q t : Option ι) (l : List ι) :
    (l.filter (· ≠ c)).filter (fun x => decide (Function.update F.parent c q x = t)) =
      (l.filter (fun x => decide (F.parent x = t))).filter (· ≠ c) := by
  rw [List.filter_filter, List.filter_filter]
  refine List.filter_congr fun x _ => ?_
  obtain rfl | hx := eq_or_ne x c
  · simp
  · simp [hx]

theorem beneath_fell {t : Option ι} : (F.fell i hl).beneath t = (F.beneath t).filter (· ≠ i) :=
  filter_update i none t F.placed

/-- A node not in use has nothing to leave. -/
theorem fell_of_notMem (h : i ∉ F.placed) : F.fell i hl = F := by
  refine OrderedForest.ext ?_ ?_
  · exact List.filter_eq_self.mpr fun x hx => by simpa using ne_of_mem_of_not_mem hx h
  · rw [fell_parent, ← parent_eq_none h, Function.update_eq_self]

theorem beneath_move {t : Option ι} :
    (F.move c q hc hq).beneath t = (F.beneath t).filter (· ≠ c) ++ if q = t then [c] else [] := by
  unfold beneath
  rw [move_placed, move_parent, List.filter_append, filter_update, List.filter_singleton,
    Function.update_self]
  simp

end ops

/-! ### The same, asked for of any node -/

open Classical in
/-- A node not yet in use becomes a root. -/
noncomputable def enter (F : OrderedForest ι) (i : ι) : OrderedForest ι :=
  if h : i ∉ F.placed then F.plant i h else F

open Classical in
/-- A node leaves unless it has children. -/
noncomputable def leave (F : OrderedForest ι) (i : ι) : OrderedForest ι :=
  if h : F.children i = [] then F.fell i h else F

open Classical in
/-- A node in use is moved unless that would close a cycle. -/
noncomputable def place (F : OrderedForest ι) (c : ι) (q : Option ι) : OrderedForest ι :=
  if h : c ∈ F.placed ∧ ∀ x, q = some x → x ∈ F.placed ∧ ¬ F.Above c x then F.move c q h.1 h.2 else F

theorem place_of_notMem {q : Option ι} (h : c ∉ F.placed) : F.place c q = F := dif_neg fun hq => h hq.1

theorem mem_placed_enter {i x : ι} : x ∈ (F.enter i).placed ↔ x ∈ F.placed ∨ x = i := by
  unfold enter
  split
  · simp
  · next h =>
    have hi : i ∈ F.placed := not_not.mp h
    exact (or_iff_left_of_imp fun hx => hx ▸ hi).symm

/-! ### Walks over a subtree -/

/-- `done` and `pending` between them hold every child of what is done. -/
structure Sweep (F : OrderedForest ι) (r : ι) (done pending : List ι) : Prop where
  nodup : (done ++ pending).Nodup
  below : ∀ x ∈ done ++ pending, F.Above r x
  parents : ∀ x ∈ done ++ pending, x = r ∨ ∃ p ∈ done, F.parent x = some p
  kids : ∀ x ∈ done, ∀ c, F.parent c = some x → c ∈ done ++ pending
  root : r ∈ done ++ pending
  ordered : ∀ xs x ys, done = xs ++ x :: ys → x = r ∨ ∃ p ∈ xs, F.parent x = some p

variable {done pending rest pending' : List ι} {x : ι}

omit [DecidableEq ι] in
theorem Sweep.start (F : OrderedForest ι) (r : ι) : Sweep F r [] [r] where
  nodup := by simp
  below := by simp [Above.refl]
  parents := by simp
  kids := by simp
  root := by simp
  ordered := by simp

/-- A pending node is taken, and its children are pending. -/
theorem Sweep.next (h : Sweep F r done pending) (hp : pending.Perm (x :: rest))
    (hp' : pending'.Perm (rest ++ F.children x)) : Sweep F r (done ++ [x]) pending' := by
  have hall : (done ++ [x] ++ pending').Perm ((done ++ pending) ++ F.children x) := by
    calc (done ++ [x] ++ pending').Perm (done ++ [x] ++ (rest ++ F.children x)) := hp'.append_left _
      _ = (done ++ (x :: rest)) ++ F.children x := by simp
      _ |>.Perm ((done ++ pending) ++ F.children x) := (hp.symm.append_left done).append_right _
  have hx : x ∈ done ++ pending := List.mem_append_right _ (hp.mem_iff.mpr List.mem_cons_self)
  have hxdone : x ∉ done := fun hxd =>
    (List.nodup_append'.mp h.nodup).2.2 hxd (hp.mem_iff.mpr List.mem_cons_self)
  have hmem : ∀ y, y ∈ done ++ [x] ++ pending' ↔ y ∈ done ++ pending ∨ F.parent y = some x := by
    intro y
    rw [hall.mem_iff, List.mem_append, mem_children]
  -- a child of `x` was not met before: what was met has its parent among what was done
  have hfresh : List.Disjoint (done ++ pending) (F.children x) := by
    intro y hy hyx
    rw [mem_children] at hyx
    obtain rfl | ⟨p, hpd, hpy⟩ := h.parents y hy
    · exact not_above_parent hyx (h.below x hx)
    · exact hxdone (Option.some.inj (hpy.symm.trans hyx) ▸ hpd)
  refine ⟨?_, ?_, ?_, ?_, ?_, ?_⟩
  · exact hall.nodup_iff.mpr (List.nodup_append'.mpr ⟨h.nodup, F.nodup_beneath _, hfresh⟩)
  · intro y hy
    obtain hy | hy := (hmem y).mp hy
    · exact h.below y hy
    · exact (h.below x hx).trans (.of_parent hy)
  · intro y hy
    obtain hy | hy := (hmem y).mp hy
    · exact (h.parents y hy).imp_right fun ⟨p, hpd, hpy⟩ => ⟨p, List.mem_append_left _ hpd, hpy⟩
    · exact .inr ⟨x, by simp, hy⟩
  · intro y hy c hcy
    refine (hmem c).mpr ?_
    obtain hy | hy := List.mem_append.mp hy
    · exact .inl (h.kids y hy c hcy)
    · exact .inr (List.mem_singleton.mp hy ▸ hcy)
  · exact (hmem r).mpr (.inl h.root)
  · intro xs y ys hsplit
    obtain ⟨rfl, rfl, rfl⟩ | ⟨zs, rfl⟩ : (xs = done ∧ y = x ∧ ys = []) ∨ ∃ zs, done = xs ++ y :: zs := by
      induction ys using List.reverseRecOn with
      | nil => exact .inl (by simpa [eq_comm] using List.append_inj' hsplit rfl)
      | append_singleton zs z _ =>
        refine .inr ⟨zs, ?_⟩
        rw [← List.cons_append, ← List.append_assoc] at hsplit
        exact (List.append_inj' hsplit rfl).1
    · exact h.parents y hx
    · exact h.ordered xs y zs rfl

omit [DecidableEq ι] in
/-- A walk with nothing pending has met the node it set out from and all beneath it. -/
theorem Sweep.finished (h : Sweep F r done []) : d ∈ done ↔ F.Above r d := by
  constructor
  · exact fun hd => h.below d (by simpa using hd)
  · intro habove
    induction d using F.founded.induction with
    | h d ih =>
      obtain rfl | ⟨p, hp, hrp⟩ := above_iff.mp habove
      · simpa using h.root
      · simpa using h.kids p (ih p hp hrp) d hp

end OrderedForest
end Grove
