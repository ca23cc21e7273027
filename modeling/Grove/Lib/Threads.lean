import Mathlib.Tactic

/-! # Lists threaded through pointers

A doubly linked list whose cells are kept in two tables, `next` and `prev`.  `walk` follows one table
from a start, for as many turns as it is given; `Threaded next prev b l a` says that the cells of `l`
are linked in that order, with `b` before the first and `a` after the last.  A cell is unlinked, and
linked behind the last, by writing a table at its neighbours (`setAt`); `Threaded.removed` and
`Threaded.appended` say what that does to the list. -/

namespace Grove.Threads

variable {ι : Type}

/-- The cells met from `start` on, `none` when they do not end within the given turns. -/
def walk (next : ι → Option ι) : ℕ → Option ι → Option (List ι)
  | _, none => some []
  | 0, some _ => none
  | n + 1, some x => (walk next n (next x)).map (x :: ·)

@[simp] theorem walk_none (next : ι → Option ι) (n : ℕ) : walk next n none = some [] := by
  cases n <;> rfl

theorem walk_cons (next : ι → Option ι) (n : ℕ) (x : ι) :
    walk next (n + 1) (some x) = (walk next n (next x)).map (x :: ·) := rfl

theorem length_le_of_walk {next : ι → Option ι} : ∀ {n : ℕ} {start : Option ι} {l : List ι},
    walk next n start = some l → l.length ≤ n
  | n, none, l, h => by
    rw [walk_none] at h
    obtain rfl := Option.some.inj h
    exact Nat.zero_le n
  | 0, some x, l, h => by simp [walk] at h
  | n + 1, some x, l, h => by
    rw [walk_cons, Option.map_eq_some_iff] at h
    obtain ⟨xs, hxs, rfl⟩ := h
    exact Nat.succ_le_succ (length_le_of_walk hxs)

/-- Whether a cell met from `start` on passes, looking no further once one does. -/
def search (next : ι → Option ι) (pass : ι → Bool) : ℕ → Option ι → Option Bool
  | _, none => some false
  | 0, some _ => none
  | n + 1, some x => if pass x then some true else search next pass n (next x)

theorem search_of_walk (next : ι → Option ι) (pass : ι → Bool) : ∀ {n : ℕ} {start : Option ι} {l : List ι},
    walk next n start = some l → search next pass n start = some (l.any pass)
  | n, none, l, h => by
    rw [walk_none] at h
    obtain rfl := Option.some.inj h
    cases n <;> rfl
  | 0, some x, l, h => by simp [walk] at h
  | n + 1, some x, l, h => by
    rw [walk_cons, Option.map_eq_some_iff] at h
    obtain ⟨xs, hxs, rfl⟩ := h
    rw [search, search_of_walk next pass hxs, List.any_cons]
    cases pass x <;> rfl

def Threaded (next prev : ι → Option ι) : Option ι → List ι → Option ι → Prop
  | _, [], _ => True
  | b, x :: xs, a => prev x = b ∧ next x = xs.head?.or a ∧ Threaded next prev (some x) xs a

variable {next prev next' prev' : ι → Option ι}

theorem threaded_append : ∀ (b : Option ι) (xs ys : List ι) (a : Option ι),
    Threaded next prev b (xs ++ ys) a ↔
      Threaded next prev b xs (ys.head?.or a) ∧ Threaded next prev (xs.getLast?.or b) ys a
  | b, [], ys, a => by simp [Threaded]
  | b, x :: xs, ys, a => by
    have hhead : (xs ++ ys).head?.or a = xs.head?.or (ys.head?.or a) := by
      rw [List.head?_append, Option.or_assoc]
    have hlast : (x :: xs).getLast?.or b = xs.getLast?.or (some x) := by
      rw [List.getLast?_cons]; cases xs.getLast? <;> rfl
    simp only [List.cons_append, Threaded, hhead, hlast, threaded_append (some x) xs ys a, and_assoc]

/-- Only the cells of the list matter. -/
theorem Threaded.congr {a : Option ι} : ∀ {b : Option ι} {l : List ι}, Threaded next prev b l a →
    (∀ x ∈ l, next' x = next x) → (∀ x ∈ l, prev' x = prev x) → Threaded next' prev' b l a
  | _, [], _, _, _ => trivial
  | b, x :: xs, h, hnext, hprev => by
    obtain ⟨hb, hx, hxs⟩ := h
    have hrest : Threaded next' prev' (some x) xs a :=
      hxs.congr (fun y hy => hnext y (List.mem_cons_of_mem x hy))
        (fun y hy => hprev y (List.mem_cons_of_mem x hy))
    exact ⟨(hprev x List.mem_cons_self).trans hb, (hnext x List.mem_cons_self).trans hx, hrest⟩

theorem Threaded.walk_next : ∀ {b : Option ι} {l : List ι} {n : ℕ}, Threaded next prev b l none →
    l.length ≤ n → walk next n l.head? = some l
  | _, [], n, _, _ => by simp
  | _, x :: xs, 0, _, hn => by simp at hn
  | _, x :: xs, n + 1, ⟨_, hx, hxs⟩, hn => by
    have hrest := hxs.walk_next (Nat.le_of_succ_le_succ hn)
    rw [List.head?_cons, walk_cons, hx, Option.or_none, hrest]
    rfl

theorem Threaded.walk_prev {a : Option ι} : ∀ {l : List ι} {n : ℕ}, Threaded next prev none l a →
    l.length ≤ n → walk prev n l.getLast? = some l.reverse := by
  intro l
  induction l using List.reverseRecOn generalizing a with
  | nil => simp
  | append_singleton xs x ih =>
    intro n h hn
    obtain ⟨hxs, hx, -⟩ := (threaded_append none xs [x] a).mp h
    rw [Option.or_none] at hx
    rw [List.length_append] at hn
    obtain ⟨m, rfl⟩ := Nat.exists_eq_succ_of_ne_zero (n := n) (by simp at hn; omega)
    have hrest := ih hxs (Nat.le_of_succ_le_succ hn)
    rw [List.getLast?_concat, walk_cons, hx, hrest]
    simp

/-! ### Writing at a cell that may be there -/

theorem getLast?_ne_of_notMem {l : List ι} {x : ι} (h : x ∉ l) : l.getLast? ≠ some x :=
  fun hx => h (List.mem_of_getLast? hx)

theorem head?_ne_of_notMem {l : List ι} {x : ι} (h : x ∉ l) : l.head? ≠ some x :=
  fun hx => h (List.mem_of_head? hx)

variable [DecidableEq ι]

def setAt (f : ι → Option ι) (at? v : Option ι) : ι → Option ι :=
  match at? with
  | none => f
  | some i => Function.update f i v

theorem setAt_of_ne (f : ι → Option ι) {at? : Option ι} (v : Option ι) {x : ι} (h : at? ≠ some x) :
    setAt f at? v x = f x := by
  cases at? with
  | none => rfl
  | some i =>
    have hx : x ≠ i := fun hx => h (congrArg some hx.symm)
    exact Function.update_of_ne hx v f

theorem setAt_self (f : ι → Option ι) (v : Option ι) (i : ι) : setAt f (some i) v i = v := by
  simp [setAt]

/-- What comes after the list is written at its last cell. -/
theorem Threaded.set_after {b a : Option ι} {l : List ι} (h : Threaded next prev b l a) (hl : l.Nodup)
    (a' : Option ι) : Threaded (setAt next l.getLast? a') prev b l a' := by
  induction l using List.reverseRecOn with
  | nil => trivial
  | append_singleton xs x ih =>
    have hx : x ∉ xs := by
      have := List.nodup_append.mp hl
      exact fun hmem => this.2.2 x hmem x (List.mem_singleton_self x) rfl
    obtain ⟨hxs, hprev, -⟩ := (threaded_append b xs [x] a).mp h
    rw [List.getLast?_concat, threaded_append]
    refine ⟨?_, hprev, setAt_self next a' x, trivial⟩
    exact hxs.congr (fun y hy => setAt_of_ne next a' fun hy' => hx (Option.some.inj hy' ▸ hy))
      (fun _ _ => rfl)

/-- What comes before the list is written at its first cell. -/
theorem Threaded.set_before {b a : Option ι} {l : List ι} (h : Threaded next prev b l a) (hl : l.Nodup)
    (b' : Option ι) : Threaded next (setAt prev l.head? b') b' l a := by
  cases l with
  | nil => trivial
  | cons x xs =>
    obtain ⟨-, hnext, hxs⟩ := h
    refine ⟨setAt_self prev b' x, hnext, hxs.congr (fun _ _ => rfl) fun y hy => ?_⟩
    exact setAt_of_ne prev b' fun hy' => (List.nodup_cons.mp hl).1 (Option.some.inj hy' ▸ hy)

/-- A cell is unlinked by pointing its neighbours at each other. -/
theorem Threaded.removed {xs ys : List ι} {c : ι} (h : Threaded next prev none (xs ++ c :: ys) none)
    (hl : (xs ++ c :: ys).Nodup) :
    Threaded (Function.update (setAt next (prev c) (next c)) c none)
      (Function.update (setAt prev (next c) (prev c)) c none) none (xs ++ ys) none := by
  obtain ⟨hxs, hprev, hnext, hys⟩ := (threaded_append none xs (c :: ys) none).mp h
  rw [Option.or_none] at hprev hnext
  rw [hprev, hnext]
  obtain ⟨hcx, hcy⟩ : c ∉ xs ∧ c ∉ ys := by
    rw [List.nodup_middle] at hl
    exact not_or.mp fun hc => (List.nodup_cons.mp hl).1 (List.mem_append.mpr hc)
  obtain ⟨hlx, hly, hdisj⟩ : xs.Nodup ∧ ys.Nodup ∧ List.Disjoint xs ys := by
    rw [List.nodup_middle] at hl
    exact List.nodup_append'.mp (List.nodup_cons.mp hl).2
  have hfront : Threaded (setAt next xs.getLast? ys.head?) (setAt prev ys.head? xs.getLast?) none xs ys.head? :=
    (hxs.set_after hlx ys.head?).congr (fun _ _ => rfl)
      (fun x hx => setAt_of_ne prev _ (head?_ne_of_notMem (hdisj hx)))
  have hback : Threaded (setAt next xs.getLast? ys.head?) (setAt prev ys.head? xs.getLast?)
      xs.getLast? ys none :=
    (hys.set_before hly xs.getLast?).congr
      (fun y hy => setAt_of_ne next _ (getLast?_ne_of_notMem fun hx => hdisj hx hy)) (fun _ _ => rfl)
  have hjoined := (threaded_append none xs ys none).mpr
    ⟨by rwa [Option.or_none], by rwa [Option.or_none]⟩
  have hne : ∀ x ∈ xs ++ ys, x ≠ c := by
    rintro x hx rfl
    exact (List.mem_append.mp hx).elim hcx hcy
  exact hjoined.congr (fun x hx => Function.update_of_ne (hne x hx) _ _)
    (fun x hx => Function.update_of_ne (hne x hx) _ _)

/-- A cell is linked behind the last. -/
theorem Threaded.appended {xs : List ι} {c : ι} (h : Threaded next prev none xs none) (hl : xs.Nodup)
    (hc : c ∉ xs) (hnext : next c = none) :
    Threaded (setAt next xs.getLast? (some c)) (Function.update prev c xs.getLast?) none (xs ++ [c]) none := by
  rw [threaded_append]
  refine ⟨?_, ?_, ?_, trivial⟩
  · exact (h.set_after hl (some c)).congr (fun _ _ => rfl)
      (fun x hx => Function.update_of_ne (ne_of_mem_of_not_mem hx hc) _ _)
  · rw [Option.or_none]
    exact Function.update_self c xs.getLast? prev
  · rw [setAt_of_ne next _ (getLast?_ne_of_notMem hc), hnext]
    rfl

end Grove.Threads
