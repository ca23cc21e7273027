import Mathlib.Tactic

/-! # A receiver that may skip some of what it is offered

A sender offers elements one after another.  Some must be taken and the others may be skipped; once an
element is refused, none that comes after it is taken.  `Sheds` relates what was offered to what was taken,
`Accounted` is the shape of a record that keeps what became of each offer, and `Gapless` is what such a
record says of a receiver that has got no further than a prefix of what it took. -/

namespace Grove
namespace Shedding

variable {α : Type} {must : α → Bool}

/-- What is left of `offered` when elements that may be skipped are. -/
inductive Sheds (must : α → Bool) : List α → List α → Prop
  | nil : Sheds must [] []
  | keep {offered taken : List α} (x : α) (h : Sheds must offered taken) : Sheds must (offered ++ [x]) (taken ++ [x])
  | skip {offered taken : List α} {x : α} (hx : must x = false) (h : Sheds must offered taken) :
      Sheds must (offered ++ [x]) taken

theorem Sheds.filter {offered taken : List α} (h : Sheds must offered taken) :
    taken.filter must = offered.filter must := by
  induction h with
  | nil => rfl
  | keep x _ ih => rw [List.filter_append, List.filter_append, ih]
  | skip hx _ ih => rw [List.filter_append, ih, List.filter_singleton, hx]; simp

/-- A prefix of what was taken is what was taken of a prefix. -/
theorem Sheds.cut_short {offered taken : List α} (h : Sheds must offered taken) {handed : List α}
    (hcut : handed <+: taken) : ∃ before, before <+: offered ∧ Sheds must before handed := by
  induction h with
  | nil =>
    obtain rfl := List.prefix_nil.mp hcut
    exact ⟨[], List.nil_prefix, .nil⟩
  | keep x hsheds ih =>
    rcases List.prefix_concat_iff.mp (by simpa using hcut) with heq | hshort
    · subst heq
      exact ⟨_, List.prefix_rfl, by simpa using hsheds.keep x⟩
    · obtain ⟨before, hbefore, hs⟩ := ih hshort
      exact ⟨before, hbefore.trans (List.prefix_append _ _), hs⟩
  | skip hx _ ih =>
    obtain ⟨before, hbefore, hs⟩ := ih hcut
    exact ⟨before, hbefore.trans (List.prefix_append _ _), hs⟩

/-! ### What became of each offer -/

inductive Fate where
  | taken
  /-- Skipped, and the next one may be taken. -/
  | shed
  | refused
  /-- Offered to a receiver that had gone. -/
  | gone
deriving DecidableEq

def offeredOf (fates : List (α × Fate)) : List α := fates.map Prod.fst

def takenOf (fates : List (α × Fate)) : List α := offeredOf (fates.filter fun f => f.2 = .taken)

/-- Offers taken and shed, up to the first that was not; none is taken after it. -/
structure Accounted (must : α → Bool) (fates : List (α × Fate)) (ended : Prop) : Prop where
  split : ∃ live dead, fates = live ++ dead ∧
    (∀ f ∈ live, f.2 = .taken ∨ f.2 = .shed ∧ must f.1 = false) ∧
    (∀ f ∈ dead, f.2 = .refused ∨ f.2 = .gone) ∧ (dead ≠ [] → ended)

namespace Accounted

variable {fates : List (α × Fate)} {ended ended' : Prop}

theorem nil : Accounted must [] ended := ⟨[], [], rfl, by simp, by simp, fun h => absurd rfl h⟩

theorem mono (h : Accounted must fates ended) (hended : ended → ended') : Accounted must fates ended' := by
  obtain ⟨live, dead, hsplit, hlive, hdead, hend⟩ := h.split
  exact ⟨live, dead, hsplit, hlive, hdead, fun hne => hended (hend hne)⟩

/-- One more is taken, or shed, while none has been refused. -/
theorem snoc_live (h : Accounted must fates ended) (hended : ¬ended) {f : α × Fate}
    (hf : f.2 = .taken ∨ f.2 = .shed ∧ must f.1 = false) : Accounted must (fates ++ [f]) ended' := by
  obtain ⟨live, dead, rfl, hlive, -, hend⟩ := h.split
  have hnil : dead = [] := by
    by_contra hne
    exact hended (hend hne)
  subst hnil
  refine ⟨live ++ [f], [], by simp, ?_, by simp, fun hne => absurd rfl hne⟩
  intro g hg
  rcases List.mem_append.mp hg with hg | hg
  · exact hlive g hg
  · rw [List.mem_singleton.mp hg]
    exact hf

theorem snoc_dead (h : Accounted must fates ended) (hended' : ended') {f : α × Fate}
    (hf : f.2 = .refused ∨ f.2 = .gone) : Accounted must (fates ++ [f]) ended' := by
  obtain ⟨live, dead, rfl, hlive, hdead, -⟩ := h.split
  refine ⟨live, dead ++ [f], by simp, hlive, ?_, fun _ => hended'⟩
  intro g hg
  rcases List.mem_append.mp hg with hg | hg
  · exact hdead g hg
  · rw [List.mem_singleton.mp hg]
    exact hf

end Accounted

/-- **No gap.**  `handed` is as far as the receiver has got. -/
structure Gapless (must : α → Bool) (fates : List (α × Fate)) (handed : List α) (ended : Prop) : Prop where
  /-- Of what must be taken, a prefix was, in order. -/
  taken : handed.filter must <+: (offeredOf fates).filter must
  /-- Only what may be skipped is, ahead of the last one handed. -/
  skipped : ∃ before, before <+: offeredOf fates ∧ Sheds must before handed
  /-- A refusal is the end: nothing offered from it on is handed. -/
  refused : ∀ i f, fates[i]? = some f → f.2 = .refused →
    ended ∧ (∀ g ∈ fates.drop i, g.2 ≠ .taken) ∧
      ∃ before, before <+: offeredOf (fates.take i) ∧ Sheds must before handed

theorem sheds_live {live : List (α × Fate)} (h : ∀ f ∈ live, f.2 = .taken ∨ f.2 = .shed ∧ must f.1 = false) :
    Sheds must (offeredOf live) (takenOf live) := by
  induction live using List.reverseRecOn with
  | nil => exact .nil
  | append_singleton live f ih =>
    have hlive := ih fun g hg => h g (List.mem_append_left _ hg)
    unfold takenOf offeredOf at hlive ⊢
    rw [List.map_append, List.filter_append, List.map_append]
    rcases h f (List.mem_append_right _ (List.mem_singleton_self f)) with htaken | ⟨hshed, hmust⟩
    · rw [List.filter_singleton, htaken]
      exact hlive.keep f.1
    · rw [List.filter_singleton, hshed]
      simpa using hlive.skip hmust

theorem Accounted.gapless {fates : List (α × Fate)} {ended : Prop} (h : Accounted must fates ended) {handed : List α}
    (hhanded : handed <+: takenOf fates) : Gapless must fates handed ended := by
  obtain ⟨live, dead, rfl, hlive, hdead, hend⟩ := h.split
  have hnone : dead.filter (fun f => f.2 = .taken) = [] := by
    rw [List.filter_eq_nil_iff]
    intro f hf
    rcases hdead f hf with h | h <;> rw [h] <;> simp
  have htaken : takenOf (live ++ dead) = takenOf live := by
    unfold takenOf
    rw [List.filter_append, hnone, List.append_nil]
  rw [htaken] at hhanded
  obtain ⟨before, hbefore, hsheds⟩ := (sheds_live hlive).cut_short hhanded
  have hoffered : offeredOf live <+: offeredOf (live ++ dead) := by
    unfold offeredOf
    rw [List.map_append]
    exact List.prefix_append _ _
  refine ⟨?_, ⟨before, hbefore.trans hoffered, hsheds⟩, ?_⟩
  · rw [hsheds.filter]
    exact (hbefore.trans hoffered).filter must
  · intro i f hf hrefused
    have hpast : live.length ≤ i := by
      by_contra hlt
      rw [List.getElem?_append_left (not_le.mp hlt)] at hf
      rcases hlive f (List.mem_of_getElem? hf) with h | ⟨h, -⟩ <;> rw [h] at hrefused <;> cases hrefused
    rw [List.getElem?_append_right hpast] at hf
    refine ⟨hend (List.ne_nil_of_mem (List.mem_of_getElem? hf)), ?_, before, ?_, hsheds⟩
    · intro g hg
      have hmem : g ∈ dead := by
        rw [List.drop_append, List.drop_of_length_le hpast, List.nil_append] at hg
        exact List.mem_of_mem_drop hg
      rcases hdead g hmem with h | h <;> rw [h] <;> exact fun hne => by cases hne
    · refine hbefore.trans ?_
      unfold offeredOf
      rw [List.take_append, List.take_of_length_le hpast, List.map_append]
      exact List.prefix_append _ _

end Shedding
end Grove
