import Grove.Lib.OrderedForest
import Grove.Lib.Precedence

/-! # The order a layered forest is painted in

Siblings are stacked by layer, and those of one layer in the order they were placed.  `paint` of a node paints its
children of negative layer, then the node, then its other children, and `paintAll` paints roots so one on the other.
What is painted of a node is what stands beneath it, each once, and two nodes are painted in the order that is read
where their branches part (`paint_over`, `paint_under`, `paint_beside`). -/

namespace Grove.OrderedForest

variable {ι κ : Type} [DecidableEq ι] [LinearOrder κ]

/-- By layer, those of one layer in the order they come in. -/
def stacked (layer : ι → κ) (l : List ι) : List ι := l.insertionSort fun a b => layer a ≤ layer b

/-- Of two siblings, `y` is the lower. -/
def Lower (F : OrderedForest ι) (layer : ι → κ) (y x : ι) : Prop :=
  layer y < layer x ∨ layer y = layer x ∧ [y, x].Sublist F.placed

section paint

variable [Zero κ]

def paintFrom (F : OrderedForest ι) (layer : ι → κ) : ℕ → ι → List ι
  | 0, _ => []
  | n + 1, i =>
    ((stacked layer (F.children i)).filter (layer · < 0)).flatMap (F.paintFrom layer n) ++
      i :: ((stacked layer (F.children i)).filter (0 ≤ layer ·)).flatMap (F.paintFrom layer n)

/-- A chain of parents is no longer than the list of the nodes in use. -/
def paint (F : OrderedForest ι) (layer : ι → κ) (i : ι) : List ι := F.paintFrom layer (F.placed.length + 1) i

/-- The roots that are kept, each with what is beneath it. -/
def paintAll (F : OrderedForest ι) (layer : ι → κ) (keep : ι → Bool) : List ι :=
  (stacked layer (F.roots.filter keep)).flatMap (F.paint layer)

end paint

variable {F : OrderedForest ι} {layer : ι → κ} {l : List ι} {a b c d i p q r x y : ι}

/-! ### Downward induction -/

open Classical in
/-- How many nodes stand at or beneath one. -/
noncomputable def room (F : OrderedForest ι) (i : ι) : ℕ := (F.placed.toFinset.filter (F.Above i)).card

theorem room_lt (h : F.parent c = some p) : F.room c < F.room p := by
  classical
  refine Finset.card_lt_card (Finset.ssubset_iff_of_subset ?_ |>.mpr ⟨p, ?_, ?_⟩)
  · exact fun x hx => Finset.mem_filter.mpr ⟨(Finset.mem_filter.mp hx).1,
      (Above.of_parent h).trans (Finset.mem_filter.mp hx).2⟩
  · exact Finset.mem_filter.mpr ⟨List.mem_toFinset.mpr (F.closed h).2, .refl F p⟩
  · exact fun hp => not_above_parent h (Finset.mem_filter.mp hp).2

theorem room_le (F : OrderedForest ι) (i : ι) : F.room i ≤ F.placed.length := by
  classical
  exact (Finset.card_le_card (Finset.filter_subset _ _)).trans F.placed.toFinset_card_le

/-- What passes from all children of a node to the node holds of every node. -/
theorem downward {P : ι → Prop} (h : ∀ i, (∀ c, F.parent c = some i → P c) → P i) (i : ι) : P i := by
  induction hn : F.room i using Nat.strong_induction_on generalizing i with
  | _ n ih => exact h i fun c hc => ih _ (hn ▸ room_lt hc) c rfl

/-! ### Stacking -/

omit [DecidableEq ι] in
theorem mem_stacked : x ∈ stacked layer l ↔ x ∈ l := List.mem_insertionSort _

omit [DecidableEq ι] in
theorem nodup_stacked (h : l.Nodup) : (stacked layer l).Nodup := (List.perm_insertionSort _ l).nodup_iff.mpr h

omit [DecidableEq ι] in
theorem pair_stacked (hy : y ∈ l) (hx : x ∈ l) (hlt : layer y < layer x) :
    [y, x].Sublist (stacked layer l) := by
  have hne : y ≠ x := by
    rintro rfl
    exact lt_irrefl _ hlt
  obtain h | h := pair_total (l := stacked layer l) (mem_stacked.mpr hy) (mem_stacked.mpr hx) hne
  · exact h
  · -- the other way round would not be sorted
    have : IsTrans ι fun a b => layer a ≤ layer b := ⟨fun _ _ _ => le_trans⟩
    have : Std.Total fun a b : ι => layer a ≤ layer b := ⟨fun _ _ => le_total _ _⟩
    have hsorted := (List.pairwise_insertionSort (fun a b => layer a ≤ layer b) l).sublist h
    exact absurd (List.pairwise_pair.mp hsorted) (not_le.mpr hlt)

omit [DecidableEq ι] in
/-- Nodes picked from those in use are stacked lower first. -/
theorem pair_stacked_of_lower {keep : ι → Bool} (hy : y ∈ F.placed.filter keep) (hx : x ∈ F.placed.filter keep)
    (h : F.Lower layer y x) : [y, x].Sublist (stacked layer (F.placed.filter keep)) := by
  obtain hlt | ⟨heq, hplaced⟩ := h
  · exact pair_stacked hy hx hlt
  · refine List.pair_sublist_insertionSort heq.le ?_
    exact (pair_sublist_filter (List.mem_filter.mp hy).2 (List.mem_filter.mp hx).2).mpr hplaced

omit [DecidableEq ι] in
/-! ### One node and what is beneath it -/

variable [Zero κ]

theorem paintFrom_eq : ∀ {n m : ℕ} {i : ι}, F.room i < n → F.room i < m →
    F.paintFrom layer n i = F.paintFrom layer m i
  | 0, _, _, hn, _ => absurd hn (Nat.not_lt_zero _)
  | _, 0, _, _, hm => absurd hm (Nat.not_lt_zero _)
  | n + 1, m + 1, i, hn, hm => by
    have hkid : ∀ c ∈ stacked layer (F.children i), F.paintFrom layer n c = F.paintFrom layer m c := fun c hc => by
      have hroom := room_lt (mem_children.mp (mem_stacked.mp hc))
      exact paintFrom_eq (by omega) (by omega)
    have hkids : ∀ keep : ι → Bool, ((stacked layer (F.children i)).filter keep).flatMap (F.paintFrom layer n) =
        ((stacked layer (F.children i)).filter keep).flatMap (F.paintFrom layer m) := fun keep =>
      List.flatMap_congr fun c hc => hkid c (List.mem_filter.mp hc).1
    rw [paintFrom, paintFrom, hkids, hkids]

/-- The children of negative layer, the node, and the others. -/
theorem paint_eq (F : OrderedForest ι) (layer : ι → κ) (i : ι) : F.paint layer i =
    ((stacked layer (F.children i)).filter (layer · < 0)).flatMap (F.paint layer) ++
      i :: ((stacked layer (F.children i)).filter (0 ≤ layer ·)).flatMap (F.paint layer) := by
  have hkids : ∀ keep : ι → Bool,
      ((stacked layer (F.children i)).filter keep).flatMap (F.paintFrom layer F.placed.length) =
        ((stacked layer (F.children i)).filter keep).flatMap (F.paint layer) := fun keep =>
    List.flatMap_congr fun c hc => by
      have hroom := room_lt (mem_children.mp (mem_stacked.mp (List.mem_filter.mp hc).1))
      have hle := F.room_le i
      exact paintFrom_eq (by omega) (by omega)
  rw [paint, paintFrom, hkids, hkids]

theorem mem_paint : x ∈ F.paint layer i ↔ F.Above i x := by
  induction i using F.downward with
  | h i ih =>
  have hkids : ∀ keep : ι → Bool, x ∈ ((stacked layer (F.children i)).filter keep).flatMap (F.paint layer) ↔
      ∃ c, F.parent c = some i ∧ keep c = true ∧ F.Above c x := by
    intro keep
    rw [List.mem_flatMap]
    constructor
    · rintro ⟨c, hc, hx⟩
      obtain ⟨hkid, hkeep⟩ := List.mem_filter.mp hc
      have hparent := mem_children.mp (mem_stacked.mp hkid)
      exact ⟨c, hparent, hkeep, (ih c hparent).mp hx⟩
    · rintro ⟨c, hparent, hkeep, hx⟩
      exact ⟨c, List.mem_filter.mpr ⟨mem_stacked.mpr (mem_children.mpr hparent), hkeep⟩, (ih c hparent).mpr hx⟩
  rw [paint_eq, List.mem_append, List.mem_cons, hkids, hkids]
  constructor
  · rintro (⟨c, hc, -, hx⟩ | rfl | ⟨c, hc, -, hx⟩)
    · exact (Above.of_parent hc).trans hx
    · exact .refl F x
    · exact (Above.of_parent hc).trans hx
  · intro hx
    obtain rfl | ⟨c, hcx, hc⟩ := Relation.ReflTransGen.cases_tail hx
    · exact .inr (.inl rfl)
    · obtain hneg | hpos := lt_or_ge (layer c) 0
      · exact .inl ⟨c, hc, by simpa using hneg, hcx⟩
      · exact .inr (.inr ⟨c, hc, by simpa using hpos, hcx⟩)

omit [DecidableEq ι] in
/-- Nothing stands beneath two siblings. -/
theorem sibling_eq (hp : F.parent a = F.parent b) (ha : F.Above a x) (hb : F.Above b x) : a = b := by
  have key : ∀ {c d : ι}, F.parent c = F.parent d → F.Above c d → c = d := by
    intro c d hcd h
    obtain rfl | ⟨q, hq, hcq⟩ := above_iff.mp h
    · rfl
    · exact absurd hcq (not_above_parent (hcd.trans hq))
  obtain h | h := ha.total hb
  · exact key hp h
  · exact (key hp.symm h).symm

/-! ### Where two branches part -/

/-- Where the branches of two nodes part, that of `b` is the lower. -/
inductive Before (F : OrderedForest ι) (layer : ι → κ) (b a : ι) : Prop where
  | under {c : ι} (hc : F.parent c = some a) (hneg : layer c < 0) (hb : F.Above c b)
  | over {c : ι} (hc : F.parent c = some b) (hpos : 0 ≤ layer c) (ha : F.Above c a)
  | beside {y x : ι} (hp : F.parent y = F.parent x) (h : F.Lower layer y x) (hb : F.Above y b) (ha : F.Above x a)

omit [Zero κ] in
theorem mem_side (hc : F.parent c = some p) {keep : ι → Bool} (hkeep : keep c = true) :
    c ∈ (stacked layer (F.children p)).filter keep :=
  List.mem_filter.mpr ⟨mem_stacked.mpr (mem_children.mpr hc), hkeep⟩

/-- A branch of negative layer is under the node it hangs from. -/
theorem paint_under (hc : F.parent c = some p) (hneg : layer c < 0) (hb : F.Above c b) :
    [b, p].Sublist (F.paint layer p) := by
  rw [paint_eq]
  refine (List.singleton_sublist.mpr ?_).append (List.singleton_sublist.mpr List.mem_cons_self)
  exact List.mem_flatMap.mpr ⟨c, mem_side hc (decide_eq_true hneg), mem_paint.mpr hb⟩

/-- A branch of another layer is over it. -/
theorem paint_over (hc : F.parent c = some p) (hpos : 0 ≤ layer c) (ha : F.Above c a) :
    [p, a].Sublist (F.paint layer p) := by
  rw [paint_eq]
  refine List.sublist_append_of_sublist_right (List.cons_sublist_cons.mpr (List.singleton_sublist.mpr ?_))
  exact List.mem_flatMap.mpr ⟨c, mem_side hc (decide_eq_true hpos), mem_paint.mpr ha⟩

/-- Of two branches of one node, the lower is painted first. -/
theorem paint_beside (hy : F.parent y = some p) (hx : F.parent x = some p) (h : F.Lower layer y x) (hb : F.Above y b)
    (ha : F.Above x a) : [b, a].Sublist (F.paint layer p) := by
  have hpair : [y, x].Sublist (stacked layer (F.children p)) :=
    pair_stacked_of_lower (mem_children.mpr hy) (mem_children.mpr hx) h
  have hb' : b ∈ F.paint layer y := mem_paint.mpr hb
  have ha' : a ∈ F.paint layer x := mem_paint.mpr ha
  have hle : layer y ≤ layer x := h.elim le_of_lt fun heq => heq.1.le
  rw [paint_eq]
  obtain hxneg | hxpos := lt_or_ge (layer x) 0
  · have hyneg := hle.trans_lt hxneg
    refine List.sublist_append_of_sublist_left (pair_flatMap ?_ hb' ha')
    exact (pair_sublist_filter (p := fun c => decide (layer c < 0)) (by simpa using hyneg) (by simpa using hxneg)).mpr hpair
  · obtain hyneg | hypos := lt_or_ge (layer y) 0
    · refine (List.singleton_sublist.mpr ?_).append (List.singleton_sublist.mpr (List.mem_cons_of_mem p ?_))
      · exact List.mem_flatMap.mpr ⟨y, mem_side hy (decide_eq_true hyneg), hb'⟩
      · exact List.mem_flatMap.mpr ⟨x, mem_side hx (decide_eq_true hxpos), ha'⟩
    · refine List.sublist_append_of_sublist_right ((pair_flatMap ?_ hb' ha').cons p)
      exact (pair_sublist_filter (p := fun c => decide (0 ≤ layer c)) (by simpa using hypos) (by simpa using hxpos)).mpr hpair

theorem paint_sublist (h : F.Above i d) : (F.paint layer d).Sublist (F.paint layer i) := by
  induction h with
  | refl => exact .refl _
  | @tail c p _ hc ih =>
    have hside : ∀ keep : ι → Bool, keep c = true → (F.paint layer c).Sublist
        (((stacked layer (F.children p)).filter keep).flatMap (F.paint layer)) := fun keep hkeep =>
      sublist_flatMap (mem_side hc hkeep)
    refine ih.trans ?_
    rw [paint_eq F layer p]
    obtain hneg | hpos := lt_or_ge (layer c) 0
    · exact List.sublist_append_of_sublist_left (hside _ (decide_eq_true hneg))
    · exact List.sublist_append_of_sublist_right ((hside _ (decide_eq_true hpos)).cons p)

/-! ### A whole surface -/

/-- Siblings painted one after the other paint no node twice. -/
theorem nodup_flatMap_paint (hl : l.Nodup) (hpar : ∀ a ∈ l, ∀ b ∈ l, F.parent a = F.parent b)
    (hpaint : ∀ c ∈ l, (F.paint layer c).Nodup) : (l.flatMap (F.paint layer)).Nodup := by
  refine List.nodup_flatMap.mpr ⟨hpaint, ?_⟩
  refine hl.imp_of_mem fun {a b} ha hb hab => ?_
  intro x hxa hxb
  exact hab (sibling_eq (hpar a ha b hb) (mem_paint.mp hxa) (mem_paint.mp hxb))

theorem nodup_paint (F : OrderedForest ι) (layer : ι → κ) (i : ι) : (F.paint layer i).Nodup := by
  induction i using F.downward with
  | h i ih =>
  have hparent : ∀ {keep : ι → Bool} {c}, c ∈ (stacked layer (F.children i)).filter keep → F.parent c = some i :=
    fun hc => mem_children.mp (mem_stacked.mp (List.mem_filter.mp hc).1)
  have hside : ∀ keep : ι → Bool, (((stacked layer (F.children i)).filter keep).flatMap (F.paint layer)).Nodup :=
    fun keep => nodup_flatMap_paint ((nodup_stacked (F.nodup_beneath _)).filter _)
      (fun a ha b hb => (hparent ha).trans (hparent hb).symm) fun c hc => ih c (hparent hc)
  -- the node is beneath none of its children
  have hself : ∀ keep : ι → Bool, i ∉ ((stacked layer (F.children i)).filter keep).flatMap (F.paint layer) := by
    intro keep hmem
    obtain ⟨c, hc, hi⟩ := List.mem_flatMap.mp hmem
    exact not_above_parent (hparent hc) (mem_paint.mp hi)
  rw [paint_eq]
  refine List.nodup_append'.mpr ⟨hside _, List.nodup_cons.mpr ⟨hself _, hside _⟩, fun x hneg hpos => ?_⟩
  obtain rfl | hpos := List.mem_cons.mp hpos
  · exact hself _ hneg
  · obtain ⟨c, hc, hxc⟩ := List.mem_flatMap.mp hneg
    obtain ⟨d, hd, hxd⟩ := List.mem_flatMap.mp hpos
    obtain rfl := sibling_eq ((hparent hc).trans (hparent hd).symm) (mem_paint.mp hxc) (mem_paint.mp hxd)
    have hlt := of_decide_eq_true (List.mem_filter.mp hc).2
    exact absurd (of_decide_eq_true (List.mem_filter.mp hd).2) (not_le.mpr hlt)

section all

variable {keep : ι → Bool}

theorem mem_roots : r ∈ F.roots.filter keep ↔ (r ∈ F.placed ∧ F.parent r = none) ∧ keep r = true := by
  rw [List.mem_filter, roots, mem_beneath]

theorem mem_paintAll : x ∈ F.paintAll layer keep ↔ ∃ r ∈ F.roots.filter keep, F.Above r x := by
  rw [paintAll, List.mem_flatMap]
  simp only [mem_stacked, mem_paint]

theorem nodup_paintAll (F : OrderedForest ι) (layer : ι → κ) (keep : ι → Bool) : (F.paintAll layer keep).Nodup := by
  refine nodup_flatMap_paint (nodup_stacked ((F.nodup_beneath _).filter _)) ?_ fun c _ => F.nodup_paint layer c
  intro a ha b hb
  rw [(mem_roots.mp (mem_stacked.mp ha)).1.2, (mem_roots.mp (mem_stacked.mp hb)).1.2]

theorem paint_sublist_paintAll (h : x ∈ F.paintAll layer keep) : (F.paint layer x).Sublist (F.paintAll layer keep) := by
  obtain ⟨r, hr, hrx⟩ := mem_paintAll.mp h
  exact (paint_sublist hrx).trans (sublist_flatMap (mem_stacked.mpr hr))

/-- Two nodes are painted in the order their branches part in. -/
theorem Before.pair (h : F.Before layer b a) (hb : b ∈ F.paintAll layer keep) (ha : a ∈ F.paintAll layer keep) :
    [b, a].Sublist (F.paintAll layer keep) := by
  obtain ⟨hc, hneg, hcb⟩ | ⟨hc, hpos, hca⟩ | ⟨hp, hlower, hyb, hxa⟩ := h
  · exact (paint_under hc hneg hcb).trans (paint_sublist_paintAll ha)
  · exact (paint_over hc hpos hca).trans (paint_sublist_paintAll hb)
  · next y x =>
    cases hpy : F.parent y with
    | some p =>
      have hpb : p ∈ F.paintAll layer keep := by
        obtain ⟨r, hr, hrb⟩ := mem_paintAll.mp hb
        refine mem_paintAll.mpr ⟨r, hr, ?_⟩
        -- the root of `b` is over the parent of `y`
        obtain hry | hyr := hrb.total hyb
        · obtain rfl | ⟨q, hq, hrq⟩ := above_iff.mp hry
          · rw [(mem_roots.mp hr).1.2] at hpy
            cases hpy
          · exact Option.some.inj (hq.symm.trans hpy) ▸ hrq
        · obtain rfl | ⟨q, hq, -⟩ := above_iff.mp hyr
          · rw [(mem_roots.mp hr).1.2] at hpy
            cases hpy
          · rw [(mem_roots.mp hr).1.2] at hq
            cases hq
      exact (paint_beside hpy (hp ▸ hpy) hlower hyb hxa).trans (paint_sublist_paintAll hpb)
    | none =>
      have hroot : ∀ {z e}, F.parent z = none → F.Above z e → e ∈ F.paintAll layer keep → z ∈ F.roots.filter keep := by
        intro z e hz hze he
        obtain ⟨r, hr, hre⟩ := mem_paintAll.mp he
        exact sibling_eq ((mem_roots.mp hr).1.2.trans hz.symm) hre hze ▸ hr
      have hstacked : [y, x].Sublist (stacked layer (F.roots.filter keep)) := by
        rw [roots, beneath, List.filter_filter]
        refine pair_stacked_of_lower ?_ ?_ hlower
        · rw [← List.filter_filter]
          exact hroot hpy hyb hb
        · rw [← List.filter_filter]
          exact hroot (hp ▸ hpy) hxa ha
      exact pair_flatMap hstacked (mem_paint.mpr hyb) (mem_paint.mpr hxa)

end all

end Grove.OrderedForest
