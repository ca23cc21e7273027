import Grove.Render.RootOrder

/-! # The sibling lists of the transform store

`Wired s par below` ties the tables of a store to a parent relation and to the list kept for each
parent, the roots' own at `none`.  Each edit of the source rewrites the lists in one way: `detach` drops a
slot from its list, `append` and `addRoot` put it behind the last, and `reset` touches nothing of a slot
that no list holds.  `Shaped s F` says that the lists are those of an ordered forest. -/

namespace Grove.Render

open Threads (Threaded setAt walk search setAt_of_ne)

variable {α : Type}

structure Wired (s : TransformStore α) (par : ℕ → Option ℕ) (below : Option ℕ → List ℕ) : Prop where
  parent : s.parent = par
  member : ∀ t x, x ∈ below t → par x = t
  nodup : ∀ t, (below t).Nodup
  first : ∀ p, s.firstChild p = (below (some p)).head?
  last : ∀ p, s.lastChild p = (below (some p)).getLast?
  threaded : ∀ p, Threaded s.nextSibling s.prevSibling none (below (some p)) none
  loose : ∀ i, par i = none → s.nextSibling i = none ∧ s.prevSibling i = none
  roots : Indexed s.rootOrder s.rootAt (below none)

variable {s : TransformStore α} {par : ℕ → Option ℕ} {below : Option ℕ → List ℕ} {c i p : ℕ}

theorem filter_ne_of_notMem {l : List ℕ} (h : c ∉ l) : l.filter (· ≠ c) = l :=
  List.filter_eq_self.mpr fun x hx => by simpa using ne_of_mem_of_not_mem hx h

theorem update_none_of_none {f : ℕ → Option ℕ} (h : f c = none) : Function.update f c none = f := by
  rw [← h, Function.update_eq_self]

/-! ### Edits -/

/-- Only the tables and the root order matter. -/
theorem Wired.congr {s' : TransformStore α} (h : Wired s par below) (hpar : s'.parent = s.parent)
    (hfirst : s'.firstChild = s.firstChild) (hlast : s'.lastChild = s.lastChild)
    (hnext : s'.nextSibling = s.nextSibling) (hprev : s'.prevSibling = s.prevSibling)
    (horder : s'.rootOrder = s.rootOrder) (hat : s'.rootAt = s.rootAt) : Wired s' par below := by
  obtain ⟨h₁, h₂, h₃, h₄, h₅, h₆, h₇, h₈⟩ := h
  refine ⟨?_, h₂, h₃, ?_, ?_, ?_, ?_, ?_⟩
  · rw [hpar, h₁]
  · rw [hfirst]; exact h₄
  · rw [hlast]; exact h₅
  · rw [hnext, hprev]; exact h₆
  · rw [hnext, hprev]; exact h₇
  · rw [horder, hat]; exact h₈

theorem removeRoot_tables (s : TransformStore α) (i : ℕ) :
    (s.removeRoot i).parent = s.parent ∧ (s.removeRoot i).firstChild = s.firstChild ∧
      (s.removeRoot i).lastChild = s.lastChild ∧ (s.removeRoot i).nextSibling = s.nextSibling ∧
      (s.removeRoot i).prevSibling = s.prevSibling := by
  unfold TransformStore.removeRoot
  cases s.rootAt.get i with
  | none => exact ⟨rfl, rfl, rfl, rfl, rfl⟩
  | some k =>
    simp only
    split <;> exact ⟨rfl, rfl, rfl, rfl, rfl⟩

theorem addRoot_tables (s : TransformStore α) (i : ℕ) :
    (s.addRoot i).parent = s.parent ∧ (s.addRoot i).firstChild = s.firstChild ∧
      (s.addRoot i).lastChild = s.lastChild ∧ (s.addRoot i).nextSibling = s.nextSibling ∧
      (s.addRoot i).prevSibling = s.prevSibling := by
  unfold TransformStore.addRoot
  split <;> exact ⟨rfl, rfl, rfl, rfl, rfl⟩

/-- A slot leaves the root order. -/
theorem Wired.removeRoot (h : Wired s par below) (i : ℕ) :
    Wired (s.removeRoot i) par fun t => if t = none then (below none).filter (· ≠ i) else below t := by
  obtain ⟨hpar, hfirst, hlast, hnext, hprev⟩ := removeRoot_tables s i
  refine ⟨hpar.trans h.parent, ?_, ?_, ?_, ?_, ?_, ?_, ?_⟩
  · intro t x hx
    split at hx
    · next ht => exact ht ▸ h.member none x (List.mem_filter.mp hx).1
    · exact h.member t x hx
  · intro t
    split
    · exact (h.nodup none).filter _
    · exact h.nodup t
  · simpa [hfirst] using h.first
  · simpa [hlast] using h.last
  · simpa [hnext, hprev] using h.threaded
  · simpa [hnext, hprev] using h.loose
  · simpa using TransformStore.indexed_removeRoot h.roots i

/-- A slot without a parent that is on no list joins the roots. -/
theorem Wired.addRoot (h : Wired s par below) (hpar : par c = none) (hc : c ∉ below none) :
    Wired (s.addRoot c) par fun t => below t ++ if none = t then [c] else [] := by
  obtain ⟨hparent, hfirst, hlast, hnext, hprev⟩ := addRoot_tables s c
  refine ⟨hparent.trans h.parent, ?_, ?_, ?_, ?_, ?_, ?_, ?_⟩
  · intro t x hx
    cases t with
    | none =>
      obtain hx | hx := List.mem_append.mp hx
      · exact h.member none x hx
      · exact List.mem_singleton.mp hx ▸ hpar
    | some q => exact h.member (some q) x (by simpa using hx)
  · intro t
    cases t with
    | none => exact List.nodup_append'.mpr ⟨h.nodup none, List.nodup_singleton c, by simpa using hc⟩
    | some q => simpa using h.nodup (some q)
  · simpa [hfirst] using h.first
  · simpa [hlast] using h.last
  · simpa [hnext, hprev] using h.threaded
  · simpa [hnext, hprev] using h.loose
  · simpa using TransformStore.indexed_addRoot h.roots hc

/-- `detach` drops the slot from whatever list holds it. -/
theorem Wired.detach (h : Wired s par below) (hall : ∀ p, par c = some p → c ∈ below (some p)) :
    Wired (s.detach c) (Function.update par c none) fun t => (below t).filter (· ≠ c) := by
  cases hp : par c with
  | none =>
    obtain ⟨hnext, hprev⟩ := h.loose c hp
    have hout : ∀ q, c ∉ below (some q) := fun q hq => by simp [h.member (some q) c hq] at hp
    obtain ⟨hpar, -, -, hnext', hprev'⟩ := removeRoot_tables s c
    have hpc : s.parent c = none := h.parent ▸ hp
    have hsame : s.detach c = s.removeRoot c := by
      have hall : s.detach c = { s.removeRoot c with
          prevSibling := Function.update (s.removeRoot c).prevSibling c none
          nextSibling := Function.update (s.removeRoot c).nextSibling c none
          parent := Function.update (s.removeRoot c).parent c none } := by
        unfold TransformStore.detach
        simp only [hnext, hprev, hpc]
        rfl
      rw [hall, hnext', hprev', hpar, update_none_of_none hnext, update_none_of_none hprev,
        update_none_of_none hpc, ← hnext', ← hprev', ← hpar]
    have hremoved := h.removeRoot c
    rw [hsame, update_none_of_none hp]
    have hlists : (fun t => if t = none then (below none).filter (· ≠ c) else below t) =
        fun t => (below t).filter (· ≠ c) := by
      funext t
      cases t with
      | none => simp
      | some q => exact (if_neg (by simp)).trans (filter_ne_of_notMem (hout q)).symm
    rwa [hlists] at hremoved
  | some p =>
    have hpc : s.parent c = some p := h.parent ▸ hp
    obtain ⟨xs, ys, hlist⟩ := List.append_of_mem (hall p hp)
    have hnodup := h.nodup (some p)
    have hthread := h.threaded p
    rw [hlist] at hnodup hthread
    obtain ⟨-, hprev, hnext, -⟩ := (Threads.threaded_append none xs (c :: ys) none).mp hthread
    rw [Option.or_none] at hprev hnext
    obtain ⟨hcx, hcy⟩ : c ∉ xs ∧ c ∉ ys := by
      rw [List.nodup_middle] at hnodup
      exact not_or.mp fun hc => (List.nodup_cons.mp hnodup).1 (List.mem_append.mpr hc)
    have hshort : (xs ++ c :: ys).filter (· ≠ c) = xs ++ ys := by
      rw [List.filter_append, List.filter_cons_of_neg (by simp), filter_ne_of_notMem hcx,
        filter_ne_of_notMem hcy]
    have hmem : ∀ x ∈ xs ++ ys, par x = some p := fun x hx =>
      h.member (some p) x (hlist ▸ by simp at hx ⊢; tauto)
    have hout : ∀ t, t ≠ some p → c ∉ below t := fun t ht hc => ht ((h.member t c hc).symm.trans hp)
    -- a slot with another parent is none of the three whose links are written
    have hfar : ∀ x, par x ≠ some p →
        (s.detach c).nextSibling x = s.nextSibling x ∧ (s.detach c).prevSibling x = s.prevSibling x := by
      intro x hx
      have hxc : x ≠ c := fun hxc => hx (hxc ▸ hp)
      have hlast : s.prevSibling c ≠ some x := by
        rw [hprev]
        exact Threads.getLast?_ne_of_notMem fun hxs => hx (hmem x (List.mem_append_left ys hxs))
      have hhead : s.nextSibling c ≠ some x := by
        rw [hnext]
        exact Threads.head?_ne_of_notMem fun hys => hx (hmem x (List.mem_append_right xs hys))
      unfold TransformStore.detach
      simp only [hpc, Function.update_of_ne hxc]
      exact ⟨setAt_of_ne _ _ hlast, setAt_of_ne _ _ hhead⟩
    have hremoved := hthread.removed hnodup
    refine ⟨?_, ?_, fun t => (h.nodup t).filter _, ?_, ?_, ?_, ?_, ?_⟩
    · unfold TransformStore.detach
      simp only [hpc]
      rw [h.parent]
    · intro t x hx
      obtain ⟨hx, hne⟩ := List.mem_filter.mp hx
      rw [Function.update_of_ne (by simpa using hne)]
      exact h.member t x hx
    · intro q
      unfold TransformStore.detach
      simp only [hpc]
      obtain rfl | hq := eq_or_ne q p
      · rw [hlist, hshort, h.first q, hlist]
        cases xs with
        | nil => simp [hnext]
        | cons x xs =>
          have hxc : x ≠ c := fun hxc => hcx (hxc ▸ List.mem_cons_self)
          simp [hxc, h.first q, hlist]
      · rw [filter_ne_of_notMem (hout (some q) (by simpa using hq))]
        split <;> simp [hq, h.first]
    · intro q
      unfold TransformStore.detach
      simp only [hpc]
      obtain rfl | hq := eq_or_ne q p
      · rw [hlist, hshort, h.last q, hlist]
        cases ys using List.reverseRecOn with
        | nil => simp [hprev]
        | append_singleton ys y _ =>
          have hyc : y ≠ c := fun hyc => hcy (hyc ▸ by simp)
          rw [← List.cons_append, ← List.append_assoc, ← List.append_assoc, List.getLast?_concat,
            List.getLast?_concat, if_neg (by simpa using hyc), h.last q, hlist, ← List.cons_append,
            ← List.append_assoc, List.getLast?_concat]
      · rw [filter_ne_of_notMem (hout (some q) (by simpa using hq))]
        split <;> simp [hq, h.last]
    · intro q
      obtain rfl | hq := eq_or_ne q p
      · rw [hlist, hshort]
        unfold TransformStore.detach
        simp only [hpc]
        exact hremoved
      · have hq' : some q ≠ some p := by simpa using hq
        rw [filter_ne_of_notMem (hout (some q) hq')]
        refine (h.threaded q).congr (fun x hx => ?_) (fun x hx => ?_)
        · exact (hfar x (h.member (some q) x hx ▸ hq')).1
        · exact (hfar x (h.member (some q) x hx ▸ hq')).2
    · intro x hx
      obtain rfl | hxc := eq_or_ne x c
      · unfold TransformStore.detach
        simp only [Function.update_self]
        exact ⟨trivial, trivial⟩
      · rw [Function.update_of_ne hxc] at hx
        obtain ⟨hn, hv⟩ := hfar x (by simp [hx])
        rw [hn, hv]
        exact h.loose x hx
    · rw [filter_ne_of_notMem (hout none (by simp))]
      unfold TransformStore.detach
      simp only [hpc]
      exact h.roots

/-- `link` on a detached slot puts it behind the last of its new list. -/
theorem Wired.appended {child : ℕ} (h : Wired (s.detach child) par below) (hpar : par child = none)
    (hout : ∀ t, child ∉ below t) :
    Wired (s.append child p) (Function.update par child (some p))
      fun t => below t ++ if some p = t then [child] else [] := by
  obtain ⟨hnext, hprev⟩ := h.loose child hpar
  have hlast := h.last p
  -- in either branch of the source the two sibling tables come to this
  have hprevious : (s.append child p).prevSibling =
      Function.update (s.detach child).prevSibling child (below (some p)).getLast? := by
    unfold TransformStore.append
    simp only [hlast, TransformStore.markMoved]
    split
    · next hnone => rw [hnone, update_none_of_none hprev]
    · rfl
  have hnexts : (s.append child p).nextSibling =
      setAt (s.detach child).nextSibling (below (some p)).getLast? (some child) := by
    rw [← hlast]
    rfl
  have hother : ∀ q, q ≠ p → (below (some q) ++ if some p = some q then [child] else []) = below (some q) := by
    intro q hq
    rw [if_neg (by simpa using hq.symm), List.append_nil]
  refine ⟨?_, ?_, ?_, ?_, ?_, ?_, ?_, ?_⟩
  · unfold TransformStore.append
    simp only [TransformStore.markMoved, h.parent]
  · intro t x hx
    obtain hx | hx := List.mem_append.mp hx
    · rw [Function.update_of_ne (ne_of_mem_of_not_mem hx (hout t))]
      exact h.member t x hx
    · split at hx
      · next ht => rw [List.mem_singleton.mp hx, Function.update_self, ht]
      · simp at hx
  · intro t
    split
    · exact List.nodup_append'.mpr ⟨h.nodup t, List.nodup_singleton child, by simpa using hout t⟩
    · simpa using h.nodup t
  · intro q
    unfold TransformStore.append
    simp only [TransformStore.markMoved, hlast]
    obtain rfl | hq := eq_or_ne q p
    · rw [if_pos rfl, List.head?_append]
      split
      · next hnone => simp [List.getLast?_eq_none_iff.mp hnone]
      · next hsome =>
        obtain ⟨x, hx⟩ := Option.ne_none_iff_exists'.mp fun hnone =>
          hsome (List.getLast?_eq_none_iff.mpr (List.head?_eq_none_iff.mp hnone))
        rw [h.first q, hx]
        rfl
    · rw [hother q hq]
      split
      · rw [Function.update_of_ne hq]; exact h.first q
      · exact h.first q
  · intro q
    unfold TransformStore.append
    simp only [TransformStore.markMoved]
    obtain rfl | hq := eq_or_ne q p
    · rw [if_pos rfl, List.getLast?_concat, Function.update_self]
    · rw [hother q hq, Function.update_of_ne hq]
      exact h.last q
  · intro q
    rw [hnexts, hprevious]
    obtain rfl | hq := eq_or_ne q p
    · rw [if_pos rfl]
      exact (h.threaded q).appended (h.nodup (some q)) (hout (some q)) hnext
    · rw [hother q hq]
      refine (h.threaded q).congr (fun x hx => setAt_of_ne _ _ fun hx' => ?_)
        (fun x hx => Function.update_of_ne (ne_of_mem_of_not_mem hx (hout (some q))) _ _)
      have hp := h.member (some p) x (List.mem_of_getLast? hx')
      exact hq (Option.some.inj ((h.member (some q) x hx).symm.trans hp))
  · intro x hx
    rw [hnexts, hprevious]
    obtain rfl | hxc := eq_or_ne x child
    · simp at hx
    · rw [Function.update_of_ne hxc] at hx ⊢
      rw [setAt_of_ne _ _ fun hx' => by
        have hp := h.member (some p) x (List.mem_of_getLast? hx')
        rw [hx] at hp
        simp at hp]
      exact h.loose x hx
  · rw [if_neg (by simp), List.append_nil]
    exact h.roots

/-- `reset` touches no link of a slot that is on no list and holds none. -/
theorem Wired.reset [AddMonoid α] (h : Wired s par below) (hpar : par i = none)
    (hkids : below (some i) = []) : Wired (s.reset i) par below := by
  obtain ⟨hnext, hprev⟩ := h.loose i hpar
  have hfirst : s.firstChild i = none := by rw [h.first i, hkids]; rfl
  have hlast : s.lastChild i = none := by rw [h.last i, hkids]; rfl
  have hparent : s.parent i = none := h.parent ▸ hpar
  exact h.congr (update_none_of_none hparent) (update_none_of_none hfirst) (update_none_of_none hlast)
    (update_none_of_none hnext) (update_none_of_none hprev) rfl rfl

end Grove.Render
