import Mathlib.Tactic

/-! # The tree unfolding of a graph

A graph is given by the children of each node, in order and with repetitions; nodes may be shared
and edges may lead back.  `Below v n w` says that the tree unfolding of `v` has `w` at depth `n`,
and `countWithin d v` counts what it holds below `v` down to depth `d`.  Where no inner node stands
`room` steps down (`Shallow`), the unfolding is finite: the count stops growing and no inner node
comes back to itself. -/

namespace Grove
namespace Unfolding

variable {ν : Type} (kids : ν → List ν)

inductive Below : ν → ℕ → ν → Prop where
  | here (v : ν) : Below v 0 v
  | under {v c w : ν} {n : ℕ} (hkid : c ∈ kids v) (h : Below c n w) : Below v (n + 1) w

/-- Repetitions count: a shared node is there once for each way down to it. -/
def countWithin : ℕ → ν → ℕ
  | 0, _ => 0
  | d + 1, v => ((kids v).map (fun c => 1 + countWithin d c)).sum

/-- Every inner node stands fewer than `room` steps down. -/
def Shallow (inner : ν → Prop) (room : ℕ) (v : ν) : Prop := ∀ n w, Below kids v n w → inner w → n < room

variable {kids} {inner : ν → Prop} {u v w : ν} {m n room d d' : ℕ}

theorem Below.trans (h : Below kids u m v) (h' : Below kids v n w) : Below kids u (m + n) w := by
  induction h with
  | here => rwa [Nat.zero_add]
  | under hkid _ ih =>
    rw [Nat.succ_add]
    exact .under hkid (ih h')

theorem below_kid {c : ν} (hkid : c ∈ kids v) : Below kids v 1 c := .under hkid (.here c)

/-- A node that comes back to itself stands at every multiple of the way round. -/
theorem Below.again (h : Below kids v n v) : ∀ k, Below kids v (k * n) v
  | 0 => by
    rw [Nat.zero_mul]
    exact .here v
  | k + 1 => by
    rw [Nat.succ_mul]
    exact (h.again k).trans h

theorem Shallow.acyclic (h : Shallow kids inner room v) (hv : inner v) : ¬ Below kids v (n + 1) v := by
  intro hround
  have hlt := h _ _ (hround.again room) hv
  exact absurd hlt (not_lt.mpr (Nat.le_mul_of_pos_right room n.succ_pos))

theorem Shallow.below (h : Shallow kids inner room v) (hw : Below kids v n w) : Shallow kids inner room w := by
  intro k x hx hinner
  have hlt := h _ _ (hw.trans hx) hinner
  omega

theorem Shallow.kid {c : ν} (h : Shallow kids inner (room + 1) v) (hkid : c ∈ kids v) :
    Shallow kids inner room c :=
  fun _ _ hw hinner => Nat.lt_of_succ_lt_succ (h _ _ (.under hkid hw) hinner)

theorem Shallow.node (h : ∀ c ∈ kids v, Shallow kids inner room c) : Shallow kids inner (room + 1) v := by
  intro n w hw hinner
  cases hw with
  | here => exact room.succ_pos
  | under hkid hw => exact Nat.succ_lt_succ (h _ hkid _ _ hw hinner)

/-- A leaf takes no room. -/
theorem Shallow.leaf (hkids : kids v = []) (hv : ¬ inner v) : Shallow kids inner room v := by
  intro n w hw hinner
  cases hw with
  | here => exact absurd hinner hv
  | under hkid _ =>
    rw [hkids] at hkid
    cases hkid

theorem countWithin_mono (h : d ≤ d') (v : ν) : countWithin kids d v ≤ countWithin kids d' v := by
  induction d generalizing d' v with
  | zero => exact Nat.zero_le _
  | succ d ih =>
    obtain ⟨d', rfl⟩ : ∃ e, d' = e + 1 := ⟨d' - 1, by omega⟩
    unfold countWithin
    exact List.sum_le_sum (fun c _ => Nat.add_le_add_left (ih (Nat.le_of_succ_le_succ h) c) 1)

/-- Below the last inner node there is nothing more to count. -/
theorem Shallow.countWithin_eq (hinner : ∀ v, kids v ≠ [] → inner v) :
    ∀ {room d : ℕ} {v : ν}, Shallow kids inner room v → room ≤ d → countWithin kids d v = countWithin kids room v
  | 0, d, v, h, _ => by
    have hkids : kids v = [] := by
      by_contra hne
      exact absurd (h 0 v (.here v) (hinner v hne)) (Nat.not_lt_zero 0)
    cases d with
    | zero => rfl
    | succ d =>
      unfold countWithin
      rw [hkids]
      rfl
  | room + 1, d, v, h, hle => by
    obtain ⟨d, rfl⟩ : ∃ e, d = e + 1 := ⟨d - 1, by omega⟩
    unfold countWithin
    congr 1
    refine List.map_congr_left (fun c hc => ?_)
    rw [(h.kid hc).countWithin_eq hinner (Nat.le_of_succ_le_succ hle)]

/-! ### Two graphs with one unfolding -/

section Related

variable {μ : Type} {kids' : μ → List μ} {R : ν → μ → Prop}

theorem exists_mem_of_forall₂ {l : List ν} {l' : List μ} (h : List.Forall₂ R l l') : v ∈ l → ∃ u ∈ l', R v u := by
  induction h with
  | nil => exact fun hv => absurd hv List.not_mem_nil
  | cons hhead _ ih =>
    intro hv
    rcases List.mem_cons.mp hv with rfl | hv
    · exact ⟨_, List.mem_cons_self, hhead⟩
    · obtain ⟨u, hu, hvu⟩ := ih hv
      exact ⟨u, List.mem_cons_of_mem _ hu, hvu⟩

/-- What stands below one of two related nodes is related to what stands there below the other. -/
theorem Below.related (hkids : ∀ v t, R v t → List.Forall₂ R (kids v) (kids' t)) (h : Below kids v n w) :
    ∀ {t : μ}, R v t → ∃ u, Below kids' t n u ∧ R w u := by
  induction h with
  | here v => exact fun {t} ht => ⟨t, .here t, ht⟩
  | under hkid _ ih =>
    intro t ht
    obtain ⟨c', hc', hrel⟩ := exists_mem_of_forall₂ (hkids _ _ ht) hkid
    obtain ⟨u, hu, hwu⟩ := ih hrel
    exact ⟨u, .under hc' hu, hwu⟩

theorem countWithin_related (hkids : ∀ v t, R v t → List.Forall₂ R (kids v) (kids' t)) :
    ∀ {d : ℕ} {v : ν} {t : μ}, R v t → countWithin kids d v = countWithin kids' d t
  | 0, _, _, _ => rfl
  | d + 1, v, t, h => by
    unfold countWithin
    refine congrArg List.sum (List.forall₂_eq_eq_eq ▸ ?_)
    rw [List.forall₂_map_left_iff, List.forall₂_map_right_iff]
    exact (hkids v t h).imp (fun c c' hc => by rw [countWithin_related hkids hc])

end Related

end Unfolding
end Grove
