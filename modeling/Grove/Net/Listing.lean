import Grove.Net.Baseline

/-! # A snapshot lists parents before children

`ancestorsFirst` over any entity table.  The loop over its stack, step by step, is `Walks`; it ends, having listed
every entity that hangs from a root, and the sweep behind it lists the others.  Nothing is asked of the parent links:
a parent may be gone, and a chain of parents may be a cycle. -/

namespace Grove

/-- The loop over the stack, to its end: an id on top that was seen is dropped, and another is listed and its
children pushed. -/
inductive Walks (children : EntityId → List EntityId) : List EntityId → List EntityId → List EntityId → Prop
  | done (out : List EntityId) : Walks children [] out out
  | seen {id : EntityId} {stack out res : List EntityId} : id ∈ out → Walks children stack out res →
      Walks children (id :: stack) out res
  | visit {id : EntityId} {stack out res : List EntityId} : id ∉ out →
      Walks children (children id ++ stack) (out ++ [id]) res → Walks children (id :: stack) out res

/-- One live entity is the parent of another. -/
def LiveParent (rt : Runtime) (p c : EntityId) : Prop :=
  p ∈ rt.entities.ids ∧ c ∈ rt.entities.ids ∧ rt.entities.parentOf c = p

/-- No live entity is among its own ancestors. -/
def LiveAcyclic (rt : Runtime) : Prop := ∀ x, ¬ Relation.TransGen (LiveParent rt) x x

section walk
variable {rt : Runtime}

/-- With fuel for every entity not listed yet, the loop ends. -/
theorem walks_walkStack : ∀ (fuel : ℕ) {stack out : List EntityId}, Walking rt stack out →
    rt.entities.ids.length < fuel + out.length →
    Walks (listedChildren rt) stack out (walkStack (listedChildren rt) fuel stack out)
  | 0, _, _, h, hfuel => absurd h.length_out_le (by omega)
  | fuel + 1, [], out, _, _ => .done out
  | fuel + 1, id :: stack, out, h, hfuel => by
    obtain ⟨hout, hpop⟩ := h.pop
    unfold walkStack
    rw [if_neg hout]
    refine .visit hout (walks_walkStack fuel hpop ?_)
    rw [List.length_append, List.length_singleton]
    omega

/-- What the loop lists, from the roots on. -/
def walked (rt : Runtime) : List EntityId :=
  walkStack (listedChildren rt) (2 * rt.entities.ids.length + 1) (listedChildren rt noEntity) []

theorem walking_walked (rt : Runtime) : Walking rt [] (walked rt) :=
  walkStack_done _ (walking_start rt) (by simp only [List.length_nil]; omega)

theorem walks_walked (rt : Runtime) : Walks (listedChildren rt) (listedChildren rt noEntity) [] (walked rt) :=
  walks_walkStack _ (walking_start rt) (by simp only [List.length_nil]; omega)

theorem ancestorsFirst_eq (rt : Runtime) :
    ancestorsFirst rt = walked rt ++ rt.entities.ids.filter (fun id => id ∉ walked rt) := rfl

theorem mem_ancestorsFirst {x : EntityId} : x ∈ ancestorsFirst rt ↔ x ∈ rt.entities.ids := by
  rw [ancestorsFirst_eq, List.mem_append, List.mem_filter]
  have hwalked : x ∈ walked rt → x ∈ rt.entities.ids := fun hx => (((walking_walked rt).mem x).mp hx).1
  simp only [decide_eq_true_eq]
  tauto

theorem nodup_ancestorsFirst (rt : Runtime) : (ancestorsFirst rt).Nodup := by
  rw [ancestorsFirst_eq, List.nodup_append]
  refine ⟨(walking_walked rt).nodup, (nodup_ids rt).filter _, ?_⟩
  rintro x hx y hy rfl
  simp only [List.mem_filter, decide_eq_true_eq] at hy
  exact hy.2 hx

/-- The entity an id is listed beneath, when that is not the root. -/
theorem liveParent_eq {x : EntityId} (hne : liveParent rt x ≠ noEntity) :
    liveParent rt x = rt.entities.parentOf x ∧ liveParent rt x ∈ rt.entities.ids := by
  unfold liveParent at *
  simp only at *
  split_ifs at * with hmem
  · exact ⟨rfl, hmem⟩
  · exact absurd rfl hne

theorem liveParent_of_mem {x : EntityId} (h : rt.entities.parentOf x ∈ rt.entities.ids) :
    liveParent rt x = rt.entities.parentOf x := if_pos h

/-- An ancestor lies above, and a finite table without cycles has no endless way up. -/
theorem wellFounded_liveParent (h : LiveAcyclic rt) : WellFounded (LiveParent rt) := by
  have hsub : WellFounded (fun a b : {x // x ∈ rt.entities.ids} => Relation.TransGen (LiveParent rt) a.1 b.1) := by
    have htrans : IsTrans {x // x ∈ rt.entities.ids} (fun a b => Relation.TransGen (LiveParent rt) a.1 b.1) :=
      ⟨fun _ _ _ => Relation.TransGen.trans⟩
    have hirrefl : Std.Irrefl (fun a b : {x // x ∈ rt.entities.ids} => Relation.TransGen (LiveParent rt) a.1 b.1) :=
      ⟨fun a => h a.1⟩
    exact Finite.wellFounded_of_trans_of_irrefl _
  constructor
  have hin : ∀ a : {x // x ∈ rt.entities.ids}, Acc (LiveParent rt) a.1 := by
    intro a
    induction a using hsub.induction with
    | _ a ih => exact ⟨a.1, fun p hp => ih ⟨p, hp.1⟩ (Relation.TransGen.single hp)⟩
  intro x
  by_cases hx : x ∈ rt.entities.ids
  · exact hin ⟨x, hx⟩
  · exact ⟨x, fun p hp => absurd hp.2.1 hx⟩

/-- Without cycles, everything hangs from a root. -/
theorem mem_walked (h : LiveAcyclic rt) {x : EntityId} (hx : x ∈ rt.entities.ids) : x ∈ walked rt := by
  induction x using (wellFounded_liveParent h).induction with
  | _ x ih =>
    refine ((walking_walked rt).mem x).mpr ⟨hx, ?_⟩
    by_cases hroot : liveParent rt x = noEntity
    · exact .inl hroot
    · obtain ⟨heq, hmem⟩ := liveParent_eq hroot
      exact .inr (ih _ ⟨hmem, hx, heq.symm⟩ hmem)

end walk

/-- **A snapshot lists parents before children**: over any entity table the walk ends, and the list is of the live
ids, each once; and where no live entity is its own ancestor, a live parent comes before the entity. -/
theorem ancestorsFirst_orders (rt : Runtime) :
    (∃ out, Walks (listedChildren rt) (listedChildren rt noEntity) [] out ∧
        ancestorsFirst rt = out ++ rt.entities.ids.filter (fun id => id ∉ out)) ∧
      (ancestorsFirst rt).Perm rt.entities.ids ∧
      (LiveAcyclic rt → ∀ before x after, ancestorsFirst rt = before ++ x :: after →
        rt.entities.parentOf x ∈ rt.entities.ids → rt.entities.parentOf x ∈ before) := by
  refine ⟨⟨walked rt, walks_walked rt, rfl⟩, ?_, fun hacyclic before x after hsplit hparent => ?_⟩
  · exact (List.perm_ext_iff_of_nodup (nodup_ancestorsFirst rt) (nodup_ids rt)).mpr fun _ => mem_ancestorsFirst
  · have hall : ancestorsFirst rt = walked rt := by
      rw [ancestorsFirst_eq, List.filter_eq_nil_iff.mpr, List.append_nil]
      intro y hy
      simpa using mem_walked hacyclic hy
    have hfirst := (walking_walked rt).first before x after (hall ▸ hsplit)
    rw [liveParent_of_mem hparent] at hfirst
    exact hfirst.resolve_left (ne_noEntity_of_mem_ids hparent)

/-- A child that was spawned before its parent is listed behind it. -/
theorem ancestorsFirst_orders_adopted :
    let rt := (Runtime.new none (fun _ => []) 60).acts
      [.op (.spawn "coin" (.finite 0) (.finite 0) ""), .op (.spawn "cart" (.finite 0) (.finite 0) ""),
        .op (.attachTo 16777216 16777217)]
    LiveAcyclic rt ∧ ancestorsFirst rt = [16777217, 16777216] ∧
      ∀ before x after, ancestorsFirst rt = before ++ x :: after →
        rt.entities.parentOf x ∈ rt.entities.ids → rt.entities.parentOf x ∈ before := by
  intro rt
  have hids : rt.entities.ids = [16777216, 16777217] := by decide
  have hparents : rt.entities.parentOf 16777216 = 16777217 ∧ rt.entities.parentOf 16777217 = 0 := by decide
  have hlist : ancestorsFirst rt = [16777217, 16777216] := by decide
  -- the handle of a parent is the larger here
  have hlt : ∀ p c, LiveParent rt p c → c < p := by
    rintro p c ⟨hp, hc, heq⟩
    rw [hids, List.mem_pair] at hp hc
    obtain rfl | rfl := hc
    · rw [← heq, hparents.1]
      decide
    · rw [hparents.2] at heq
      obtain rfl | rfl := hp
      · exact absurd heq (by decide)
      · exact absurd heq (by decide)
  have hacyclic : LiveAcyclic rt := fun x hx => by
    have hmono : ∀ {p c}, Relation.TransGen (LiveParent rt) p c → c < p := by
      intro p c h
      induction h with
      | single h => exact hlt _ _ h
      | tail _ h ih => exact (hlt _ _ h).trans ih
    exact lt_irrefl _ (hmono hx)
  exact ⟨hacyclic, hlist, (ancestorsFirst_orders rt).2.2 hacyclic⟩

end Grove
