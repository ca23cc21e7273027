import Grove.Render.Tree

/-! # Runs of the transform store

`OrderedForest.after` is what a call means for the tree: the slots in use, in the order each was last
placed, and their parents.  `Reached ok s F` says that calls which `ok` allows led to `s`, and that they
mean `F`.  `Faithful s F` is what the store then answers about its tree. -/

namespace Grove.Render

open Threads (Threaded walk search)

variable {α : Type}

/-- The slot a number is, if it can be one. -/
def SlotNumber.slot? : SlotNumber → Option ℕ
  | .whole (.ofNat i) => some i
  | _ => none

theorem has_eq_some {s : TransformStore α} {n : SlotNumber} {i : ℕ} :
    s.has n = some i ↔ n.slot? = some i ∧ i < s.count := by
  unfold TransformStore.has SlotNumber.slot?
  split <;> simp +contextual [and_comm]

/-- What linking one number under another means. -/
noncomputable def linked (F : OrderedForest ℕ) (child parent : SlotNumber) : OrderedForest ℕ :=
  match child.slot? with
  | none => F
  | some c =>
    if parent = NONE then F.place c none
    else match parent.slot? with
      | none => F
      | some p => F.place c (some p)

noncomputable def unlinked (F : OrderedForest ℕ) (child : SlotNumber) : OrderedForest ℕ :=
  match child.slot? with
  | none => F
  | some c => if F.parent c = none then F else F.place c none

noncomputable def after (F : OrderedForest ℕ) : Call α → OrderedForest ℕ
  | .initSlot index =>
    match index.slot? with
    | none => F
    | some i => F.enter i
  | .releaseSlot index =>
    match index.slot? with
    | none => F
    | some i => F.leave i
  | .link child parent => linked F child parent
  | .unlink child => unlinked F child
  | .clear => .empty
  | _ => F

inductive Reached [AddMonoid α] [DecidableEq α] (ok : OrderedForest ℕ → TransformStore α → Call α → Prop) :
    TransformStore α → OrderedForest ℕ → Prop
  | new : Reached ok .new .empty
  | call {s s' : TransformStore α} {F : OrderedForest ℕ} {c : Call α} (h : Reached ok s F) (hok : ok F s c)
      (hcall : s.call c = some s') : Reached ok s' (after F c)

/-- Two numbers that address different slots, or one slot and none, address slots in use. -/
def Addressed (F : OrderedForest ℕ) (s : TransformStore α) (child parent : SlotNumber) : Prop :=
  ∀ c, s.has child = some c →
    (parent = NONE → c ∈ F.placed) ∧ ∀ p, s.has parent = some p → c ≠ p → c ∈ F.placed ∧ p ∈ F.placed

/-- A slot is initialised while unused and released when childless, and links are between slots in
use. -/
def Permitted (F : OrderedForest ℕ) (s : TransformStore α) : Call α → Prop
  | .initSlot index => ∀ i, index.slot? = some i → i ∉ F.placed
  | .releaseSlot index => ∀ i, index.slot? = some i → F.children i = []
  | .link child parent => Addressed F s child parent
  | _ => True

/-! ### The shape of the store -/

structure Shaped (s : TransformStore α) (F : OrderedForest ℕ) : Prop where
  wired : Wired s F.parent F.beneath
  bounded : ∀ i ∈ F.placed, i < s.count

variable {s s' : TransformStore α} {F : OrderedForest ℕ} {c i p : ℕ}

theorem length_le_of_bounded {l : List ℕ} {n : ℕ} (hl : l.Nodup) (hn : ∀ x ∈ l, x < n) : l.length ≤ n := by
  have hsub : l.toFinset ⊆ Finset.range n := fun x hx => by simpa using hn x (List.mem_toFinset.mp hx)
  have hcard := Finset.card_le_card hsub
  rwa [List.toFinset_card_of_nodup hl, Finset.card_range] at hcard

theorem Shaped.length_beneath (h : Shaped s F) (t : Option ℕ) : (F.beneath t).length ≤ s.count :=
  length_le_of_bounded (F.nodup_beneath t) fun x hx => h.bounded x (OrderedForest.mem_beneath.mp hx).1

theorem Shaped.parent_eq (h : Shaped s F) : s.parent = F.parent := h.wired.parent

theorem Shaped.kids_eq (h : Shaped s F) (i : ℕ) : s.kids i = some (F.children i) := by
  unfold TransformStore.kids
  rw [h.wired.first i]
  exact (h.wired.threaded i).walk_next (h.length_beneath (some i))

/-- The walk up from a slot is as long as the source allows. -/
theorem Shaped.exists_lineage (h : Shaped s F) (hi : i < s.count) : ∃ l : List ℕ,
    (∀ a, a ∈ l ↔ F.Above a i) ∧ ∀ n, s.count ≤ n → walk s.parent n (some i) = some l := by
  obtain ⟨l, hnodup, hmem, hwalk⟩ := F.exists_lineage i
  have hlength : l.length ≤ s.count := by
    refine length_le_of_bounded hnodup fun a ha => ?_
    obtain rfl | ⟨q, hq, haq⟩ := OrderedForest.above_iff.mp ((hmem a).mp ha)
    · exact hi
    · exact h.bounded a (haq.mem (F.closed hq).2)
  exact ⟨l, hmem, fun n hn => h.parent_eq ▸ hwalk n (hlength.trans hn)⟩

theorem Shaped.climbsTo_iff (h : Shaped s F) (hi : i < s.count) : s.climbsTo c i = true ↔ F.Above c i := by
  obtain ⟨l, hmem, hwalk⟩ := h.exists_lineage hi
  unfold TransformStore.climbsTo
  rw [Threads.search_of_walk s.parent _ (hwalk (s.count + 1) (Nat.le_succ _))]
  simp [hmem]

/-! ### Calls keep it -/

theorem Shaped.of_tables (h : Shaped s F) (hpar : s'.parent = s.parent) (hfirst : s'.firstChild = s.firstChild)
    (hlast : s'.lastChild = s.lastChild) (hnext : s'.nextSibling = s.nextSibling)
    (hprev : s'.prevSibling = s.prevSibling) (horder : s'.rootOrder = s.rootOrder) (hat : s'.rootAt = s.rootAt)
    (hcount : s'.count = s.count) : Shaped s' F :=
  ⟨h.wired.congr hpar hfirst hlast hnext hprev horder hat, hcount ▸ h.bounded⟩

theorem Shaped.detach (h : Shaped s F) (c : ℕ) :
    Wired (s.detach c) (Function.update F.parent c none) fun t => (F.beneath t).filter (· ≠ c) :=
  h.wired.detach fun _ hp => OrderedForest.mem_children.mpr hp

theorem count_removeRoot (s : TransformStore α) (i : ℕ) : (s.removeRoot i).count = s.count := by
  unfold TransformStore.removeRoot
  cases s.rootAt.get i with
  | none => rfl
  | some k =>
    simp only
    split <;> rfl

theorem count_addRoot (s : TransformStore α) (i : ℕ) : (s.addRoot i).count = s.count := by
  unfold TransformStore.addRoot
  split <;> rfl

theorem count_detach (s : TransformStore α) (c : ℕ) : (s.detach c).count = s.count := by
  unfold TransformStore.detach
  cases s.parent c with
  | none => exact count_removeRoot _ c
  | some p => rfl

theorem notMem_filter_ne {l : List ℕ} (c : ℕ) : c ∉ l.filter (· ≠ c) := by simp

theorem Shaped.initSlot [AddMonoid α] (h : Shaped s F) (hi : i ∉ F.placed) :
    Shaped (s.initSlot (.whole i)) (F.plant i hi) := by
  have hpar := OrderedForest.parent_eq_none hi
  have hkids : F.beneath (some i) = [] :=
    List.eq_nil_iff_forall_not_mem.mpr fun x hx => hi (F.closed (OrderedForest.mem_children.mp hx)).2
  have hgrown : Wired { s with count := if s.count ≤ i then i + 1 else s.count } F.parent F.beneath :=
    h.wired.congr rfl rfl rfl rfl rfl rfl rfl
  have hreset := hgrown.reset hpar hkids
  have hroot : i ∉ F.beneath none := fun hx => hi (OrderedForest.mem_beneath.mp hx).1
  refine ⟨?_, fun x hx => ?_⟩
  · have hlists : (F.plant i hi).beneath = fun t => F.beneath t ++ if none = t then [i] else [] :=
      funext fun _ => OrderedForest.beneath_plant
    have hmarked : Wired ({ s with count := if s.count ≤ i then i + 1 else s.count }.reset i |>.markMoved i)
        F.parent F.beneath := hreset.congr rfl rfl rfl rfl rfl rfl rfl
    rw [hlists]
    exact hmarked.addRoot hpar hroot
  · have hcount : (s.initSlot (.whole i)).count = if s.count ≤ i then i + 1 else s.count := count_addRoot _ i
    rw [hcount]
    obtain hx | hx := List.mem_append.mp hx
    · have := h.bounded x hx
      split <;> omega
    · rw [List.mem_singleton.mp hx]
      split <;> omega

theorem Shaped.releaseSlot [AddMonoid α] {n : SlotNumber} (h : Shaped s F) (hi : s.has n = some i)
    (hkids : F.children i = []) : Shaped (s.releaseSlot n) (F.fell i hkids) := by
  have hdetached := h.detach i
  have hempty : (F.beneath (some i)).filter (· ≠ i) = [] := by
    rw [show F.beneath (some i) = [] from hkids]
    rfl
  have hreset := hdetached.reset (Function.update_self i none F.parent) hempty
  unfold TransformStore.releaseSlot
  rw [hi]
  refine ⟨?_, fun x hx => ?_⟩
  · have hcleaned : Wired { (s.detach i).reset i with
        flushDirty := ((s.detach i).reset i).flushDirty.filter (· ≠ i)
        resolveDirty := ((s.detach i).reset i).resolveDirty.filter (· ≠ i)
        resolvedChanged := ((s.detach i).reset i).resolvedChanged.filter (· ≠ i) }
        (Function.update F.parent i none) (fun t => (F.beneath t).filter (· ≠ i)) :=
      hreset.congr rfl rfl rfl rfl rfl rfl rfl
    have hremoved := hcleaned.removeRoot i
    have hlists : (F.fell i hkids).beneath = fun t => if t = none
        then ((F.beneath none).filter (· ≠ i)).filter (· ≠ i) else (F.beneath t).filter (· ≠ i) := by
      funext t
      rw [OrderedForest.beneath_fell]
      split
      · next ht => rw [filter_ne_of_notMem (notMem_filter_ne i), ht]
      · rfl
    rw [hlists]
    exact hremoved
  · rw [count_removeRoot]
    exact (h.bounded x (List.mem_filter.mp hx).1).trans_eq (count_detach s i).symm

theorem Shaped.append (h : Shaped s F) (hc : c ∈ F.placed)
    (hp : ∀ x, some p = some x → x ∈ F.placed ∧ ¬ F.Above c x) :
    Shaped (s.append c p) (F.move c (some p) hc hp) := by
  refine ⟨?_, fun x hx => ?_⟩
  · have happended : Wired (s.append c p) (Function.update (Function.update F.parent c none) c (some p))
        fun t => (F.beneath t).filter (· ≠ c) ++ if some p = t then [c] else [] :=
      (h.detach c).appended (Function.update_self c none F.parent) fun t => notMem_filter_ne c
    have hlists : (F.move c (some p) hc hp).beneath =
        fun t => (F.beneath t).filter (· ≠ c) ++ if some p = t then [c] else [] :=
      funext fun _ => OrderedForest.beneath_move
    have hparents : Function.update (Function.update F.parent c none) c (some p) =
        Function.update F.parent c (some p) := Function.update_idem _ _ _
    rw [hparents] at happended
    rw [hlists]
    exact happended
  · have hcount : (s.append c p).count = s.count := count_detach s c
    rw [hcount]
    obtain hx | hx := List.mem_append.mp hx
    · exact h.bounded x (List.mem_filter.mp hx).1
    · exact List.mem_singleton.mp hx ▸ h.bounded c hc

theorem Shaped.uproot (h : Shaped s F) (hc : c ∈ F.placed) :
    Shaped (s.uproot c) (F.move c none hc (by simp)) := by
  have hdetached := h.detach c
  refine ⟨?_, fun x hx => ?_⟩
  · have hpar : (s.detach c).parent c = none := by
      rw [hdetached.parent, Function.update_self]
    have hcleared : Wired { s.detach c with parent := Function.update (s.detach c).parent c none }
        (Function.update F.parent c none) (fun t => (F.beneath t).filter (· ≠ c)) :=
      hdetached.congr (update_none_of_none hpar) rfl rfl rfl rfl rfl rfl
    have hrooted := hcleared.addRoot (Function.update_self c none F.parent) (notMem_filter_ne c)
    have hlists : (F.move c none hc (by simp)).beneath =
        fun t => (F.beneath t).filter (· ≠ c) ++ if none = t then [c] else [] :=
      funext fun _ => OrderedForest.beneath_move
    rw [hlists]
    exact hrooted.congr rfl rfl rfl rfl rfl rfl rfl
  · have hcount : (s.uproot c).count = s.count := (count_addRoot _ c).trans (count_detach s c)
    rw [hcount]
    obtain hx | hx := List.mem_append.mp hx
    · exact h.bounded x (List.mem_filter.mp hx).1
    · exact List.mem_singleton.mp hx ▸ h.bounded c hc

theorem shaped_new [AddMonoid α] : Shaped (.new : TransformStore α) .empty where
  wired := ⟨rfl, by simp [OrderedForest.beneath, OrderedForest.empty], fun t => List.nodup_nil, fun _ => rfl,
    fun _ => rfl, fun _ => trivial, fun _ _ => ⟨rfl, rfl⟩, indexed_empty⟩
  bounded := by simp [OrderedForest.empty]

theorem Shaped.free (h : Shaped s F) (hi : i ∉ F.placed) : s.parent i = none ∧ s.firstChild i = none ∧
    s.lastChild i = none ∧ s.nextSibling i = none ∧ s.prevSibling i = none := by
  have hpar := OrderedForest.parent_eq_none hi
  have hkids : F.beneath (some i) = [] :=
    List.eq_nil_iff_forall_not_mem.mpr fun x hx => hi (F.closed (OrderedForest.mem_children.mp hx)).2
  refine ⟨by rw [h.parent_eq, hpar], ?_, ?_, h.wired.loose i hpar⟩
  · rw [h.wired.first i, hkids]; rfl
  · rw [h.wired.last i, hkids]; rfl

/-- Resetting the slots of a list, seen in one table. -/
theorem foldl_reset [AddMonoid α] {β : Type} (lane : TransformStore α → ℕ → β) (v : β)
    (hlane : ∀ t j, lane (t.reset j) = Function.update (lane t) j v) (x : ℕ) : ∀ (l : List ℕ) (s : TransformStore α),
    lane (l.foldl (fun t j => t.reset j) s) x = if x ∈ l then v else lane s x
  | [], s => by simp
  | j :: l, s => by
    rw [List.foldl_cons, foldl_reset lane v hlane x l, hlane]
    by_cases hx : x ∈ l
    · rw [if_pos hx, if_pos (List.mem_cons_of_mem j hx)]
    · obtain rfl | hj := eq_or_ne x j
      · rw [if_neg hx, if_pos List.mem_cons_self, Function.update_self]
      · rw [if_neg hx, if_neg (by simp [hx, hj]), Function.update_of_ne hj]

theorem Shaped.clear [AddMonoid α] (h : Shaped s F) : Shaped s.clear .empty := by
  have hlane : ∀ lane : TransformStore α → ℕ → Option ℕ,
      (∀ t j, lane (t.reset j) = Function.update (lane t) j none) → (∀ x ∉ F.placed, lane s x = none) →
      ∀ x, lane ((List.range s.count).foldl (fun t j => t.reset j) s) x = none := by
    intro lane hreset hfree x
    rw [foldl_reset lane none hreset]
    split
    · rfl
    · next hx => exact hfree x fun hmem => hx (List.mem_range.mpr (h.bounded x hmem))
  have hpar : ∀ x, s.clear.parent x = none :=
    hlane (·.parent) (fun _ _ => rfl) fun x hx => (h.free hx).1
  have hfirst : ∀ x, s.clear.firstChild x = none :=
    hlane (·.firstChild) (fun _ _ => rfl) fun x hx => (h.free hx).2.1
  have hlast : ∀ x, s.clear.lastChild x = none :=
    hlane (·.lastChild) (fun _ _ => rfl) fun x hx => (h.free hx).2.2.1
  have hnext : ∀ x, s.clear.nextSibling x = none :=
    hlane (·.nextSibling) (fun _ _ => rfl) fun x hx => (h.free hx).2.2.2.1
  have hprev : ∀ x, s.clear.prevSibling x = none :=
    hlane (·.prevSibling) (fun _ _ => rfl) fun x hx => (h.free hx).2.2.2.2
  exact ⟨shaped_new.wired.congr (funext hpar) (funext hfirst) (funext hlast) (funext hnext) (funext hprev) rfl rfl,
    by simp [OrderedForest.empty]⟩

theorem notMem_of_has_none (h : Shaped s F) {n : SlotNumber} (hn : s.has n = none) (hslot : n.slot? = some i) :
    i ∉ F.placed := fun hmem => by
  have := has_eq_some.mpr ⟨hslot, h.bounded i hmem⟩
  simp [hn] at this

/-- A link is refused, makes a root or gives a parent, in the store as in the forest. -/
theorem Shaped.link_cases (h : Shaped s F) {child parent : SlotNumber} (hok : Addressed F s child parent) :
    (s.link child parent = s ∧ linked F child parent = F) ∨
    (∃ c hc, s.link child parent = s.uproot c ∧ linked F child parent = F.move c none hc (by simp)) ∨
    ∃ c p hc hp, s.link child parent = s.append c p ∧ linked F child parent = F.move c (some p) hc hp := by
  unfold TransformStore.link linked
  cases hc : s.has child with
  | none =>
    refine .inl ⟨rfl, ?_⟩
    -- out of range: such a slot is not in use either
    cases hslot : child.slot? with
    | none => rfl
    | some c =>
      simp only [OrderedForest.place_of_notMem (notMem_of_has_none h hc hslot)]
      cases parent.slot? <;> simp
  | some c =>
    obtain ⟨hslot, -⟩ := has_eq_some.mp hc
    obtain ⟨hroot, hpair⟩ := hok c hc
    simp only [hslot]
    split
    · next hnone => exact .inr (.inl ⟨c, hroot hnone, rfl, dif_pos ⟨hroot hnone, by simp⟩⟩)
    · cases hp : s.has parent with
      | none =>
        refine .inl ⟨rfl, ?_⟩
        cases hpslot : parent.slot? with
        | none => rfl
        | some p => exact dif_neg fun hq => notMem_of_has_none h hp hpslot (hq.2 p rfl).1
      | some p =>
        obtain ⟨hpslot, hplt⟩ := has_eq_some.mp hp
        simp only [hpslot]
        have hcycle : (c = p ∨ s.climbsTo c p = true) ↔ F.Above c p := by
          rw [h.climbsTo_iff hplt]
          exact or_iff_right_of_imp fun hcp => hcp ▸ .refl F c
        split
        · next hrefused => exact .inl ⟨rfl, dif_neg fun hq => (hq.2 p rfl).2 (hcycle.mp hrefused)⟩
        · next htaken =>
          obtain ⟨hcmem, hpmem⟩ := hpair p hp fun hcp => htaken (.inl hcp)
          have hto : ∀ x, some p = some x → x ∈ F.placed ∧ ¬ F.Above c x := by
            rintro x hx
            obtain rfl := Option.some.inj hx
            exact ⟨hpmem, fun habove => htaken (hcycle.mpr habove)⟩
          exact .inr (.inr ⟨c, p, hcmem, hto, rfl, dif_pos ⟨hcmem, hto⟩⟩)

theorem Shaped.link (h : Shaped s F) {child parent : SlotNumber} (hok : Addressed F s child parent) :
    Shaped (s.link child parent) (linked F child parent) := by
  obtain ⟨hs, hF⟩ | ⟨c, hc, hs, hF⟩ | ⟨c, p, hc, hp, hs, hF⟩ := h.link_cases hok
  · rwa [hs, hF]
  · rw [hs, hF]
    exact h.uproot hc
  · rw [hs, hF]
    exact h.append hc hp

/-- Unlinking does nothing, or links to no parent. -/
theorem Shaped.unlink_cases (h : Shaped s F) (child : SlotNumber) :
    (s.unlink child = s ∧ unlinked F child = F) ∨
    (Addressed F s child NONE ∧ s.unlink child = s.link child NONE ∧
      unlinked F child = linked F child NONE) := by
  unfold TransformStore.unlink unlinked
  cases hc : s.has child with
  | none =>
    refine .inl ⟨rfl, ?_⟩
    cases hslot : child.slot? with
    | none => rfl
    | some c => exact if_pos (OrderedForest.parent_eq_none (notMem_of_has_none h hc hslot))
  | some c =>
    obtain ⟨hslot, -⟩ := has_eq_some.mp hc
    simp only [hslot, h.parent_eq]
    split
    · exact .inl ⟨rfl, rfl⟩
    · next hpar =>
      obtain ⟨p, hp⟩ := Option.ne_none_iff_exists'.mp hpar
      refine .inr ⟨fun c' hc' => ?_, rfl, by simp [linked, hslot]⟩
      obtain rfl := Option.some.inj (hc.symm.trans hc')
      exact ⟨fun _ => (F.closed hp).1, fun q hq => absurd hq (by simp [TransformStore.has, NONE])⟩

theorem Shaped.unlink (h : Shaped s F) (child : SlotNumber) : Shaped (s.unlink child) (unlinked F child) := by
  obtain ⟨hs, hF⟩ | ⟨hok, hs, hF⟩ := h.unlink_cases child
  · rwa [hs, hF]
  · rw [hs, hF]
    exact h.link hok

/-- A number that is no slot is ignored; a fresh slot is initialised. -/
theorem initSlot_cases [AddMonoid α] (s : TransformStore α) {index : SlotNumber}
    (hok : ∀ i, index.slot? = some i → i ∉ F.placed) :
    (index.slot? = none ∧ s.initSlot index = s ∧ after F (.initSlot index : Call α) = F) ∨
    ∃ i hi, index.slot? = some i ∧ s.initSlot index = s.initSlot (.whole (i : ℕ)) ∧
      after F (.initSlot index : Call α) = F.plant i hi := by
  cases index with
  | other => exact .inl ⟨rfl, rfl, rfl⟩
  | whole z =>
    cases z with
    | ofNat i => exact .inr ⟨i, hok i rfl, rfl, rfl, dif_pos (hok i rfl)⟩
    | negSucc n => exact .inl ⟨rfl, rfl, rfl⟩

theorem Shaped.releaseSlot_cases [AddMonoid α] (h : Shaped s F) {index : SlotNumber}
    (hok : ∀ i, index.slot? = some i → F.children i = []) :
    (s.releaseSlot index = s ∧ after F (.releaseSlot index : Call α) = F) ∨
    ∃ i hi, s.has index = some i ∧ after F (.releaseSlot index : Call α) = F.fell i hi := by
  have hafter : after F (.releaseSlot index : Call α) =
      match index.slot? with
      | none => F
      | some i => F.leave i := rfl
  rw [hafter]
  unfold TransformStore.releaseSlot
  cases hslot : index.slot? with
  | none =>
    have hout : s.has index = none := Option.eq_none_iff_forall_not_mem.mpr fun i hi => by
      have := (has_eq_some.mp hi).1
      simp [hslot] at this
    exact .inl ⟨by rw [hout], rfl⟩
  | some i =>
    have hleave : F.leave i = F.fell i (hok i hslot) := dif_pos (hok i hslot)
    cases hi : s.has index with
    | none =>
      exact .inl ⟨rfl, hleave.trans (OrderedForest.fell_of_notMem (notMem_of_has_none h hi hslot))⟩
    | some j =>
      obtain rfl : i = j := Option.some.inj (hslot.symm.trans (has_eq_some.mp hi).1)
      exact .inr ⟨i, hok i hslot, rfl, hleave⟩

/-! ### What calls leave of the tree -/

/-- The fields that only the tree's own calls write. -/
structure SameTables (s s' : TransformStore α) : Prop where
  parent : s'.parent = s.parent
  firstChild : s'.firstChild = s.firstChild
  lastChild : s'.lastChild = s.lastChild
  nextSibling : s'.nextSibling = s.nextSibling
  prevSibling : s'.prevSibling = s.prevSibling
  rootOrder : s'.rootOrder = s.rootOrder
  rootAt : s'.rootAt = s.rootAt
  count : s'.count = s.count

theorem SameTables.refl (s : TransformStore α) : SameTables s s := ⟨rfl, rfl, rfl, rfl, rfl, rfl, rfl, rfl⟩

theorem SameTables.trans {t : TransformStore α} (h : SameTables s s') (h' : SameTables s' t) : SameTables s t :=
  ⟨h'.1.trans h.1, h'.2.trans h.2, h'.3.trans h.3, h'.4.trans h.4, h'.5.trans h.5, h'.6.trans h.6,
    h'.7.trans h.7, h'.8.trans h.8⟩

theorem SameTables.shaped (h : SameTables s s') (hs : Shaped s F) : Shaped s' F :=
  hs.of_tables h.1 h.2 h.3 h.4 h.5 h.6 h.7 h.8

theorem sameTables_markAllDirty (s : TransformStore α) : SameTables s s.markAllDirty := by
  have : ∀ (l : List ℕ) (t : TransformStore α), SameTables t (l.foldl TransformStore.markDirty t) := by
    intro l
    induction l with
    | nil => exact fun t => .refl t
    | cons j l ih =>
      intro t
      have hstep : SameTables t (t.markDirty j) := ⟨rfl, rfl, rfl, rfl, rfl, rfl, rfl, rfl⟩
      exact hstep.trans (ih (t.markDirty j))
  exact this (List.range s.count) s

section resolving

variable [AddMonoid α] [DecidableEq α]

theorem sameTables_compose (s : TransformStore α) (i : ℕ) : SameTables s (s.compose i) :=
  ⟨rfl, rfl, rfl, rfl, rfl, rfl, rfl, rfl⟩

theorem sameTables_resolveStack : ∀ {n : ℕ} {stack : List ℕ} {s s' : TransformStore α},
    TransformStore.resolveStack n stack s = some s' → SameTables s s'
  | n, [], s, s', h => by
    have hs : s = s' := by cases n <;> exact Option.some.inj h
    exact hs ▸ .refl s
  | 0, _ :: _, s, s', h => by simp [TransformStore.resolveStack] at h
  | n + 1, node :: stack, s, s', h => by
    rw [TransformStore.resolveStack] at h
    cases hkids : (s.compose node).kids node with
    | none => simp [hkids] at h
    | some cs =>
      simp only [hkids] at h
      exact (sameTables_compose s node).trans (sameTables_resolveStack h)

theorem sameTables_resolvePending (h : s.resolvePending i = some s') : SameTables s s' := by
  unfold TransformStore.resolvePending at h
  split at h
  · split at h
    · simp at h
    · exact Option.some.inj h ▸ .refl s
    · exact sameTables_resolveStack h
  · exact Option.some.inj h ▸ .refl s

theorem sameTables_resolveAll : ∀ {l : List ℕ} {s s' : TransformStore α},
    TransformStore.resolveAll l s = some s' → SameTables s s'
  | [], s, s', h => Option.some.inj h ▸ .refl s
  | i :: l, s, s', h => by
    rw [TransformStore.resolveAll] at h
    cases hi : s.resolvePending i with
    | none => simp [hi] at h
    | some t =>
      simp only [hi] at h
      exact (sameTables_resolvePending hi).trans (sameTables_resolveAll h)

theorem sameTables_resolve (h : s.resolve = some s') : SameTables s s' := by
  unfold TransformStore.resolve at h
  have hcleared : SameTables s { s with visits := [] } := ⟨rfl, rfl, rfl, rfl, rfl, rfl, rfl, rfl⟩
  split at h
  · exact Option.some.inj h ▸ hcleared
  · obtain ⟨t, ht, rfl⟩ := Option.map_eq_some_iff.mp h
    have hend : SameTables t { t with resolveDirty := [] } := ⟨rfl, rfl, rfl, rfl, rfl, rfl, rfl, rfl⟩
    exact (hcleared.trans (sameTables_resolveAll ht)).trans hend

/-- One permitted call keeps the shape. -/
theorem Shaped.call (h : Shaped s F) {c : Call α} (hok : Permitted F s c) (hcall : s.call c = some s') :
    Shaped s' (after F c) := by
  cases c with
  | initSlot index =>
    obtain rfl := Option.some.inj hcall
    obtain ⟨-, hs, hF⟩ | ⟨i, hi, -, hs, hF⟩ := initSlot_cases s hok
    · rwa [hs, hF]
    · rw [hs, hF]
      exact h.initSlot hi
  | releaseSlot index =>
    obtain rfl := Option.some.inj hcall
    obtain ⟨hs, hF⟩ | ⟨i, hi, hhas, hF⟩ := h.releaseSlot_cases hok
    · rwa [hs, hF]
    · rw [hF]
      exact h.releaseSlot hhas hi
  | setPosition index q =>
    obtain rfl := Option.some.inj hcall
    unfold TransformStore.setPosition
    split
    · exact h
    · exact h.of_tables rfl rfl rfl rfl rfl rfl rfl rfl
  | setVisible index v =>
    obtain rfl := Option.some.inj hcall
    unfold TransformStore.setVisible
    split
    · exact h
    · exact h.of_tables rfl rfl rfl rfl rfl rfl rfl rfl
  | link child parent => exact Option.some.inj hcall ▸ h.link hok
  | unlink child => exact Option.some.inj hcall ▸ h.unlink child
  | clear => exact Option.some.inj hcall ▸ h.clear
  | markFlushDirty index =>
    obtain rfl := Option.some.inj hcall
    unfold TransformStore.markFlushDirty
    split
    · exact h
    · exact h.of_tables rfl rfl rfl rfl rfl rfl rfl rfl
  | markAllDirty => exact Option.some.inj hcall ▸ (sameTables_markAllDirty s).shaped h
  | resolve => exact (sameTables_resolve hcall).shaped h
  | consumeFlushDirty | consumeResolvedDirty => exact Option.some.inj hcall ▸ h.of_tables rfl rfl rfl rfl rfl rfl rfl rfl

end resolving

end Grove.Render
