import Grove.Core.Tweens

/-! # One live tween per property

A run of the tween engine whose setters start and cancel tweens, with a record of it beside it (`Playback`): the
tweens as they were started, every write, and what was cancelled.  `TweenBirth.plays` is what a tween should write.
`Tuned` is the invariant between two of the engine's own actions, in a walk or outside one; `tweens_tidy` reads
from it what holds of every run, and of a cancelled tween from then on. -/

namespace Grove

variable {V : Type}

/-- A tween as it was started. -/
structure TweenBirth (V : Type) where
  id : ℕ
  hostScopeId : ScopeId
  key : String
  prop : String
  fromValue : V
  toValue : V
  ticks : ℕ
  easing : Easing
  /-- The advances begun by then. -/
  birth : ℕ

namespace TweenBirth

/-- The `j`-th write. -/
def value (A : Arithmetic V) (r : TweenBirth V) (j : ℕ) : V :=
  A.lerp r.fromValue r.toValue (A.ease (min 1 ((j : ℚ) / r.ticks)) r.easing)

/-- The first `k` writes, one in each advance. -/
def plays (A : Arithmetic V) (r : TweenBirth V) (k : ℕ) : List (ℕ × V) :=
  (List.range k).map fun j => (r.birth + (j + 1), r.value A (j + 1))

theorem plays_succ (A : Arithmetic V) (r : TweenBirth V) (k : ℕ) :
    r.plays A (k + 1) = r.plays A k ++ [(r.birth + (k + 1), r.value A (k + 1))] := by
  unfold plays
  rw [List.range_succ, List.map_append, List.map_singleton]

theorem length_plays (A : Arithmetic V) (r : TweenBirth V) (k : ℕ) : (r.plays A k).length = k := by
  unfold plays
  rw [List.length_map, List.length_range]

/-- The table's tween is the one that was started. -/
structure Same (r : TweenBirth V) (tween : Tween V) : Prop where
  hostScopeId : tween.hostScopeId = r.hostScopeId
  key : tween.key = r.key
  prop : tween.prop = r.prop
  fromValue : tween.fromValue = r.fromValue
  toValue : tween.toValue = r.toValue
  ticks : tween.durationTicks = r.ticks
  easing : tween.easing = r.easing

theorem Same.value {r : TweenBirth V} {tween : Tween V} (h : r.Same tween) (A : Arithmetic V) :
    tween.value A = r.value A tween.elapsed := by
  unfold Tween.value TweenBirth.value Tween.progress
  rw [h.fromValue, h.toValue, h.ticks, h.easing]

end TweenBirth

/-- A run of an engine, and what became of its tweens. -/
structure Playback (V : Type) where
  head : Playhead V
  /-- The advances begun. -/
  advances : ℕ
  born : List (TweenBirth V)
  /-- The advance, the tween and the value, in the order they were written. -/
  writes : List (ℕ × ℕ × V)
  cancelled : List ℕ

namespace Playback

open Playhead (Event)

def init (simRate : ℚ) : Playback V := ⟨⟨⟨.empty, .empty, 1, simRate, []⟩, none⟩, 0, [], [], []⟩

/-- The live tweens that a call cancels. -/
def doomed (e : TweenEngine V) : Event V → List ℕ
  | .start key prop _ _ _ _ _ => (e.tweens.entries.filter (fun x => x.2.slot = propKey key prop)).map Prod.fst
  | .cancel id => (e.tweens.entries.filter (fun x => x.1 = id)).map Prod.fst
  | .cancelScope hostScopeId =>
    if hostScopeId = noScope then []
    else (e.tweens.entries.filter (fun x => x.2.hostScopeId = hostScopeId)).map Prod.fst
  | .advance => []
  | .returned => []

/-- The write that starts the setter now running. -/
def wrote (A : Arithmetic V) (n : ℕ) (p : Playhead V) : List (ℕ × ℕ × V) :=
  match p.walk with
  | none => []
  | some w => [(n, w.tween.id, w.tween.value A)]

def step (A : Arithmetic V) (P : Playback V) (e : Event V) : Playback V :=
  let P' := { P with head := P.head.step e, cancelled := P.cancelled ++ doomed P.head.engine e }
  match e with
  | .start key prop value toValue seconds hostScopeId easing =>
    { P' with
      born := P.born ++ [⟨P.head.engine.nextId, hostScopeId, key, prop, value, toValue,
        P.head.engine.durationTicks seconds, easing, P.advances⟩] }
  | .cancel _ => P'
  | .cancelScope _ => P'
  | .advance => { P' with advances := P.advances + 1, writes := P.writes ++ wrote A (P.advances + 1) P'.head }
  | .returned =>
    match P.head.walk with
    | none => P'
    | some _ => { P' with writes := P.writes ++ wrote A P.advances P'.head }

/-- The advances a tween wrote in, and what. -/
def writesOf (writes : List (ℕ × ℕ × V)) (id : ℕ) : List (ℕ × V) :=
  (writes.filter (fun x => decide (x.2.1 = id))).map fun x => (x.1, x.2.2)

/-- Whether a walk still has to come to a tween. -/
def waits : Option (ℕ × List ℕ) → ℕ → Bool
  | none, _ => false
  | some (horizon, seen), id => decide (id < horizon) && decide (id ∉ seen)

/-- Setters start and cancel tweens; they do not advance the engine. -/
def Calm (P : Playback V) : Event V → Prop
  | .advance => P.head.walk = none
  | _ => True

end Playback

open Playback (writesOf waits)

/-- Between two actions in the advance `n`: `walk` is the horizon and what the walk has seen, `current` the tween
whose setter runs. -/
structure Tuned (A : Arithmetic V) (e : TweenEngine V) (walk : Option (ℕ × List ℕ)) (current : Option (Tween V)) (n : ℕ)
    (born : List (TweenBirth V)) (writes : List (ℕ × ℕ × V)) (cancelled : List ℕ) : Prop where
  keyed : ∀ {id tween}, e.tweens.get id = some tween → tween.id = id ∧ id < e.nextId ∧ tween.cancelled = false
  rising : e.tweens.keys.Pairwise (· < ·)
  inverse : ∀ k id, e.byProp.get k = some id ↔ ∃ tween, e.tweens.get id = some tween ∧ tween.slot = k
  below : ∀ r ∈ born, r.id < e.nextId
  nodup : (born.map TweenBirth.id).Nodup
  sane : ∀ r ∈ born, 1 ≤ r.ticks ∧ r.birth ≤ n
  known : ∀ {id tween}, e.tweens.get id = some tween → ∃ r ∈ born, r.id = id ∧ r.Same tween ∧
    tween.elapsed + (if waits walk id then 1 else 0) + r.birth = n
  unfinished : ∀ {id tween}, e.tweens.get id = some tween →
    tween.elapsed < tween.durationTicks ∨ ∃ c, current = some c ∧ c.id = id
  walking : ∀ horizon seen, walk = some (horizon, seen) → horizon ≤ e.nextId ∧ (∀ x ∈ seen, x < e.nextId) ∧
    (∀ r ∈ born, horizon ≤ r.id ↔ r.birth = n) ∧
    ∀ x ∈ seen, ∀ id ∉ seen, (e.tweens.get id).isSome = true → x < id
  setting : ∀ c, current = some c → waits walk c.id = false ∧
    (∃ r ∈ born, r.id = c.id ∧ r.Same c ∧ c.elapsed + r.birth = n ∧ c.elapsed ≤ r.ticks) ∧
    (∀ tween, e.tweens.get c.id = some tween → tween = c) ∧ (c.id ∉ cancelled → (e.tweens.get c.id).isSome = true)
  ended : ∀ r ∈ born, r.id ∉ cancelled → e.tweens.get r.id = none →
    r.birth + r.ticks + (if waits walk r.id then 1 else 0) ≤ n
  exact : ∀ r ∈ born, r.id ∉ cancelled →
    writesOf writes r.id = r.plays A (min r.ticks (n - r.birth - if waits walk r.id then 1 else 0))
  gone : ∀ id ∈ cancelled, e.tweens.get id = none ∧ id < e.nextId
  promised : ∀ r ∈ born, r.id ∈ e.resolved ↔ e.tweens.get r.id = none
  resolved_lt : ∀ id ∈ e.resolved, id < e.nextId
  ordered : writes.Pairwise (fun x y => x.1 < y.1 ∨ x.1 = y.1 ∧ x.2.1 < y.2.1)
  past : ∀ x ∈ writes, x.1 ≤ n ∧ x.2.1 < e.nextId ∧
    (x.1 = n → ∀ horizon seen, walk = some (horizon, seen) → x.2.1 ∈ seen)
  begun : ∀ x ∈ writes, ∀ r ∈ born, r.id = x.2.1 → r.birth < x.1

namespace Tuned

variable {A : Arithmetic V} {e e' : TweenEngine V} {walk : Option (ℕ × List ℕ)} {current current' : Option (Tween V)} {n : ℕ}
  {born : List (TweenBirth V)} {writes : List (ℕ × ℕ × V)} {cancelled cancelled' : List ℕ} {id horizon : ℕ} {seen : List ℕ} {tween : Tween V}

theorem init (A : Arithmetic V) (simRate : ℚ) : Tuned A ⟨.empty, .empty, 1, simRate, []⟩ none none 0 [] [] [] where
  keyed := fun h => by simp at h
  rising := List.Pairwise.nil
  inverse := by simp
  below := by simp
  nodup := List.nodup_nil
  sane := by simp
  known := fun h => by simp at h
  unfinished := fun h => by simp at h
  walking := fun _ _ h => by cases h
  setting := fun _ h => by cases h
  ended := by simp
  exact := by simp
  gone := by simp
  promised := by simp
  resolved_lt := by simp
  ordered := List.Pairwise.nil
  past := by simp
  begun := by simp

theorem writesOf_append (writes writes' : List (ℕ × ℕ × V)) (id : ℕ) :
    writesOf (writes ++ writes') id = writesOf writes id ++ writesOf writes' id := by
  unfold Playback.writesOf
  rw [List.filter_append, List.map_append]

theorem writesOf_singleton (n k id : ℕ) (v : V) : writesOf [(n, k, v)] id = if k = id then [(n, v)] else [] := by
  unfold Playback.writesOf
  rw [List.filter_singleton]
  by_cases hk : k = id <;> simp [hk]

/-- Which tweens were cancelled matters, not in which order. -/
theorem congr_cancelled (h : Tuned A e walk current n born writes cancelled)
    (hmem : ∀ id, id ∈ cancelled' ↔ id ∈ cancelled) : Tuned A e walk current n born writes cancelled' :=
  { h with
    setting := fun c hc =>
      let ⟨h₁, h₂, h₃, h₄⟩ := h.setting c hc
      ⟨h₁, h₂, h₃, fun hout => h₄ fun hin => hout ((hmem c.id).mpr hin)⟩
    ended := fun r hr hc => h.ended r hr fun hin => hc ((hmem r.id).mpr hin)
    exact := fun r hr hc => h.exact r hr fun hin => hc ((hmem r.id).mpr hin)
    gone := fun id hid => h.gone id ((hmem id).mp hid) }

/-! ### Leaving the table -/

/-- A tween leaves the table and the index, its promise resolved. -/
theorem drop (h : Tuned A e walk current n born writes cancelled) (hget : e.tweens.get id = some tween)
    (hgets : ∀ k, e'.tweens.get k = if k = id then none else e.tweens.get k)
    (hkeys : e'.tweens.keys.Sublist e.tweens.keys)
    (hprops : ∀ k, e'.byProp.get k = if k = tween.slot then none else e.byProp.get k)
    (hnext : e'.nextId = e.nextId) (hresolved : e'.resolved = e.resolved ++ [id])
    (hcurrent : ∀ c, current = some c → current' = some c ∨ c.id = id)
    (hsetting : ∀ c, current' = some c → current = some c ∧ (c.id = id → id ∈ cancelled'))
    (hcancelled : ∀ k, k ∈ cancelled → k ∈ cancelled') (hnew : ∀ k, k ∈ cancelled' → k ∈ cancelled ∨ k = id)
    (hended : ∀ r ∈ born, r.id = id → id ∉ cancelled' → r.birth + r.ticks + (if waits walk id then 1 else 0) ≤ n) :
    Tuned A e' walk current' n born writes cancelled' := by
  have hlive : ∀ {k t}, e'.tweens.get k = some t → k ≠ id ∧ e.tweens.get k = some t := by
    intro k t hk
    rw [hgets] at hk
    split_ifs at hk with hkid
    exact ⟨hkid, hk⟩
  have hslot : e.byProp.get tween.slot = some id := (h.inverse _ _).mpr ⟨tween, hget, rfl⟩
  refine ⟨fun hk => ?_, h.rising.sublist hkeys, fun k k' => ?_, hnext ▸ h.below, h.nodup, h.sane,
    fun hk => h.known (hlive hk).2, fun hk => ?_, fun horizon seen hw => ?_, fun c hc => ?_,
    fun r hr hc hk => ?_, fun r hr hc => h.exact r hr fun hin => hc (hcancelled _ hin), fun k hk => ?_, fun r hr => ?_,
    fun k hk => ?_, h.ordered, hnext ▸ h.past, h.begun⟩
  · rw [hnext]
    exact h.keyed (hlive hk).2
  · rw [hprops]
    constructor
    · intro hk
      split_ifs at hk with hks
      obtain ⟨t, ht, hts⟩ := (h.inverse k k').mp hk
      have hne : k' ≠ id := by
        rintro rfl
        obtain rfl := Option.some.inj (hget.symm.trans ht)
        exact hks hts.symm
      exact ⟨t, by rw [hgets, if_neg hne]; exact ht, hts⟩
    · rintro ⟨t, ht, hts⟩
      obtain ⟨hne, ht⟩ := hlive ht
      have hk := (h.inverse k k').mpr ⟨t, ht, hts⟩
      rw [if_neg fun hks => hne (by rw [hks, hslot] at hk; exact (Option.some.inj hk).symm)]
      exact hk
  · obtain ⟨hne, ht⟩ := hlive hk
    refine (h.unfinished ht).imp_right ?_
    rintro ⟨c, hc, hck⟩
    exact ⟨c, (hcurrent c hc).resolve_right fun heq => hne (hck.symm.trans heq), hck⟩
  · obtain ⟨h₁, h₂, h₃, h₄⟩ := h.walking horizon seen hw
    refine ⟨hnext ▸ h₁, hnext ▸ h₂, h₃, fun x hx k hk hsome => h₄ x hx k hk ?_⟩
    obtain ⟨t, ht⟩ := Option.isSome_iff_exists.mp hsome
    rw [(hlive ht).2]
    rfl
  · obtain ⟨hc, hout⟩ := hsetting c hc
    obtain ⟨h₁, h₂, h₃, h₄⟩ := h.setting c hc
    refine ⟨h₁, h₂, fun t ht => h₃ t (hlive ht).2, fun hnot => ?_⟩
    have hne : c.id ≠ id := fun heq => hnot (by rw [heq]; exact hout heq)
    rw [hgets, if_neg hne]
    exact h₄ fun hin => hnot (hcancelled _ hin)
  · by_cases hid : r.id = id
    · rw [hid]
      exact hended r hr hid (hid ▸ hc)
    · rw [hgets, if_neg hid] at hk
      exact h.ended r hr (fun hin => hc (hcancelled _ hin)) hk
  · rw [hgets, hnext]
    obtain hk | rfl := hnew k hk
    · exact ⟨by split_ifs <;> [rfl; exact (h.gone k hk).1], (h.gone k hk).2⟩
    · exact ⟨if_pos rfl, (h.keyed hget).2.1⟩
  · rw [hresolved, hgets, List.mem_append, List.mem_singleton, h.promised r hr]
    by_cases hid : r.id = id <;> simp [hid]
  · rw [hresolved] at hk
    rw [hnext]
    obtain hk | hk := List.mem_append.mp hk
    · exact h.resolved_lt k hk
    · rw [List.mem_singleton.mp hk]
      exact (h.keyed hget).2.1

theorem keys_delete_sublist {κ ν : Type} [DecidableEq κ] (m : OrderedMap κ ν) (k : κ) : (m.delete k).keys.Sublist m.keys :=
  List.filter_sublist.map Prod.fst

theorem get_cancel (e : TweenEngine V) (id k : ℕ) :
    (e.cancel id).tweens.get k = if k = id then none else e.tweens.get k := by
  unfold TweenEngine.cancel
  cases hget : e.tweens.get id with
  | none =>
    split_ifs with hk
    · rw [hk, hget]
    · rfl
  | some tween => exact OrderedMap.get_delete _ _ _

/-- Cancelling an id that is not live does nothing. -/
theorem cancel_none (hget : e.tweens.get id = none) : e.cancel id = e := by
  unfold TweenEngine.cancel
  rw [hget]

theorem cancel (h : Tuned A e walk current n born writes cancelled) (hget : e.tweens.get id = some tween) :
    Tuned A (e.cancel id) walk current n born writes (cancelled ++ [id]) := by
  have hslot : e.byProp.get tween.slot = some id := (h.inverse _ _).mpr ⟨tween, hget, rfl⟩
  unfold TweenEngine.cancel
  rw [hget]
  refine h.drop hget (fun k => OrderedMap.get_delete _ _ _) (keys_delete_sublist _ _) (fun k => ?_) rfl rfl
    (fun _ hc => .inl hc) (fun _ hc => ⟨hc, fun _ => by simp⟩) (fun k hk => List.mem_append_left _ hk)
    (fun k hk => by simpa using hk) fun r _ _ hout => absurd (by simp) hout
  simp only [hslot, if_true]
  exact OrderedMap.get_delete _ _ _

/-- Cancelling several live tweens, one after the other. -/
theorem cancelAll (h : Tuned A e walk current n born writes cancelled) {ids : List ℕ} (hnodup : ids.Nodup)
    (hlive : ∀ id ∈ ids, ∃ tween, e.tweens.get id = some tween) :
    Tuned A (ids.foldl (fun e id => e.cancel id) e) walk current n born writes (cancelled ++ ids) := by
  induction ids generalizing e cancelled with
  | nil => simpa using h
  | cons id ids ih =>
    obtain ⟨hid, hnodup⟩ := List.nodup_cons.mp hnodup
    obtain ⟨tween, hget⟩ := hlive id List.mem_cons_self
    rw [List.foldl_cons, List.append_cons]
    refine ih (h.cancel hget) hnodup fun k hk => ?_
    have hne : k ≠ id := ne_of_mem_of_not_mem hk hid
    rw [get_cancel, if_neg hne]
    exact hlive k (List.mem_cons_of_mem id hk)

theorem mem_filter_ids {m : OrderedMap ℕ (Tween V)} {q : ℕ × Tween V → Bool} {k : ℕ} :
    k ∈ (m.entries.filter q).map Prod.fst ↔ ∃ tween, m.get k = some tween ∧ q (k, tween) = true := by
  rw [List.mem_map]
  constructor
  · rintro ⟨⟨k', tween⟩, hmem, rfl⟩
    obtain ⟨hmem, hq⟩ := List.mem_filter.mp hmem
    exact ⟨tween, m.mem_entries_iff.mp hmem, hq⟩
  · rintro ⟨tween, hget, hq⟩
    exact ⟨(k, tween), List.mem_filter.mpr ⟨m.mem_entries_iff.mpr hget, hq⟩, rfl⟩

theorem cancelScope (h : Tuned A e walk current n born writes cancelled) (host : ScopeId) :
    Tuned A (e.cancelScope host) walk current n born writes (cancelled ++ Playback.doomed e (.cancelScope host)) := by
  unfold TweenEngine.cancelScope Playback.doomed
  simp only
  split_ifs
  · rwa [List.append_nil]
  · refine h.cancelAll (e.tweens.nodup.sublist (List.filter_sublist.map Prod.fst)) fun id hid => ?_
    obtain ⟨tween, hget, -⟩ := mem_filter_ids.mp hid
    exact ⟨tween, hget⟩

/-- Cancelling one tween, live or not. -/
theorem cancelOne (h : Tuned A e walk current n born writes cancelled) (id : ℕ) :
    Tuned A (e.cancel id) walk current n born writes (cancelled ++ Playback.doomed e (.cancel id)) := by
  have hmem : ∀ k, k ∈ Playback.doomed e (.cancel id) ↔ k = id ∧ ∃ tween, e.tweens.get id = some tween := by
    intro k
    refine mem_filter_ids.trans ⟨fun ⟨tween, hget, hk⟩ => ?_, fun ⟨hk, tween, hget⟩ => ?_⟩
    · obtain rfl := of_decide_eq_true hk
      exact ⟨rfl, tween, hget⟩
    · exact ⟨tween, hk ▸ hget, decide_eq_true hk⟩
  cases hget : e.tweens.get id with
  | none =>
    rw [cancel_none hget]
    refine h.congr_cancelled fun k => ?_
    rw [List.mem_append, hmem, hget]
    simp
  | some tween =>
    refine (h.cancel hget).congr_cancelled fun k => ?_
    rw [List.mem_append, List.mem_append, hmem, hget, List.mem_singleton]
    simp

/-! ### Entering the table -/

theorem add (h : Tuned A e walk current n born writes cancelled) {key prop : String} {value toValue : V} {ticks : ℕ}
    {host : ScopeId} {easing : Easing} (hticks : 1 ≤ ticks) (hfree : e.byProp.get (propKey key prop) = none) :
    Tuned A
      { e with
        tweens := e.tweens.set e.nextId ⟨e.nextId, host, key, prop, value, toValue, 0, ticks, easing, false⟩
        byProp := e.byProp.set (propKey key prop) e.nextId
        nextId := e.nextId + 1 }
      walk current n (born ++ [⟨e.nextId, host, key, prop, value, toValue, ticks, easing, n⟩]) writes cancelled := by
  set fresh : Tween V := ⟨e.nextId, host, key, prop, value, toValue, 0, ticks, easing, false⟩ with hfresh
  set r₀ : TweenBirth V := ⟨e.nextId, host, key, prop, value, toValue, ticks, easing, n⟩ with hr₀
  have hnone : e.tweens.get e.nextId = none := by
    cases hget : e.tweens.get e.nextId with
    | none => rfl
    | some tween => exact absurd (h.keyed hget).2.1 (Nat.lt_irrefl _)
  have hgets : ∀ k, (e.tweens.set e.nextId fresh).get k = if k = e.nextId then some fresh else e.tweens.get k :=
    fun k => OrderedMap.get_set _ _ _ _
  have hold : ∀ r ∈ born, (e.tweens.set e.nextId fresh).get r.id = e.tweens.get r.id := fun r hr => by
    rw [hgets, if_neg (Nat.ne_of_lt (h.below r hr))]
  have hwaits : waits walk e.nextId = false := by
    cases hw : walk with
    | none => rfl
    | some w => simp [Playback.waits, (h.walking w.1 w.2 hw).1]
  have hborn : ∀ {q : TweenBirth V → Prop}, (∀ r ∈ born, q r) → q r₀ → ∀ r ∈ born ++ [r₀], q r := by
    intro q hall hnew r hr
    obtain hr | hr := List.mem_append.mp hr
    · exact hall r hr
    · exact List.mem_singleton.mp hr ▸ hnew
  refine ⟨fun hk => ?_, ?_, fun k id => ?_, hborn (fun r hr => Nat.lt_succ_of_lt (h.below r hr)) (Nat.lt_succ_self _), ?_,
    hborn h.sane ⟨hticks, Nat.le_refl n⟩, fun {id tween} hk => ?_, fun {id tween} hk => ?_, fun horizon seen hw => ?_,
    fun c hc => ?_, hborn (fun r hr hc hk => h.ended r hr hc (hold r hr ▸ hk)) fun _ hk => ?_,
    hborn h.exact fun _ => ?_, fun id hid => ?_, hborn (fun r hr => hold r hr ▸ h.promised r hr) ?_,
    fun id hid => Nat.lt_succ_of_lt (h.resolved_lt id hid), h.ordered, fun x hx => ?_,
    fun x hx => hborn (h.begun x hx) fun hid => ?_⟩
  · rw [hgets] at hk
    split_ifs at hk with hid
    · exact Option.some.inj hk ▸ ⟨hid.symm, hid ▸ Nat.lt_succ_self _, rfl⟩
    · exact ⟨(h.keyed hk).1, Nat.lt_succ_of_lt (h.keyed hk).2.1, (h.keyed hk).2.2⟩
  · have hkeys : (e.tweens.set e.nextId fresh).keys = e.tweens.keys ++ [e.nextId] := by
      show (OrderedMap.setEntries e.nextId fresh e.tweens.entries).map Prod.fst = _
      rw [OrderedMap.setEntries_of_none hnone, List.map_append]
      rfl
    rw [hkeys]
    refine List.pairwise_append.mpr ⟨h.rising, List.pairwise_singleton _ _, fun k hk k' hk' => ?_⟩
    obtain ⟨tween, hget⟩ := e.tweens.mem_keys_iff.mp hk
    exact List.mem_singleton.mp hk' ▸ (h.keyed hget).2.1
  · rw [OrderedMap.get_set]
    split_ifs with hk
    · constructor
      · intro hid
        exact ⟨fresh, by rw [hgets, if_pos (Option.some.inj hid).symm], hk.symm⟩
      · rintro ⟨tween, hget, hslot⟩
        rw [hgets] at hget
        split_ifs at hget with hid
        · rw [hid]
        · have := (h.inverse k id).mpr ⟨tween, hget, hslot⟩
          rw [hk, hfree] at this
          cases this
    · rw [h.inverse]
      refine exists_congr fun tween => and_congr_left fun hslot => ?_
      rw [hgets]
      split_ifs with hid
      · rw [hid, hnone]
        refine iff_of_false (by simp) fun heq => hk ?_
        rw [← hslot, ← Option.some.inj heq]
        rfl
      · rfl
  · rw [List.map_append, List.map_singleton]
    refine List.nodup_append.mpr ⟨h.nodup, List.nodup_singleton _, fun a ha b hb => ?_⟩
    obtain ⟨r, hr, rfl⟩ := List.mem_map.mp ha
    rw [List.mem_singleton.mp hb]
    exact Nat.ne_of_lt (h.below r hr)
  · rw [hgets] at hk
    split_ifs at hk with hid
    · obtain rfl := Option.some.inj hk
      refine ⟨r₀, List.mem_append_right _ List.mem_cons_self, hid.symm, ⟨rfl, rfl, rfl, rfl, rfl, rfl, rfl⟩, ?_⟩
      rw [hid, hwaits]
      simp [hfresh, hr₀]
    · obtain ⟨r, hr, hknown⟩ := h.known hk
      exact ⟨r, List.mem_append_left _ hr, hknown⟩
  · rw [hgets] at hk
    split_ifs at hk with hid
    · exact Option.some.inj hk ▸ .inl hticks
    · exact h.unfinished hk
  · obtain ⟨h₁, h₂, h₃, h₄⟩ := h.walking horizon seen hw
    refine ⟨Nat.le_succ_of_le h₁, fun x hx => Nat.lt_succ_of_lt (h₂ x hx), hborn h₃ (iff_of_true h₁ rfl),
      fun x hx id hid hsome => ?_⟩
    rw [hgets] at hsome
    split_ifs at hsome with hk
    · exact hk ▸ h₂ x hx
    · exact h₄ x hx id hid hsome
  · obtain ⟨h₁, ⟨r, hr, hrid, hrest⟩, h₃, h₄⟩ := h.setting c hc
    have hne : c.id ≠ e.nextId := hrid ▸ Nat.ne_of_lt (h.below r hr)
    rw [hgets, if_neg hne]
    exact ⟨h₁, ⟨r, List.mem_append_left _ hr, hrid, hrest⟩, h₃, h₄⟩
  · rw [hgets, if_pos rfl] at hk
    cases hk
  · have hquiet : writesOf writes e.nextId = [] := by
      unfold Playback.writesOf
      rw [List.filter_eq_nil_iff.mpr fun x hx => by simpa using Nat.ne_of_lt (h.past x hx).2.1]
      rfl
    rw [hquiet]
    simp [TweenBirth.plays, hr₀]
  · have hlt := (h.gone id hid).2
    rw [hgets, if_neg (Nat.ne_of_lt hlt)]
    exact ⟨(h.gone id hid).1, Nat.lt_succ_of_lt hlt⟩
  · rw [hgets, if_pos rfl]
    exact iff_of_false (fun hin => Nat.lt_irrefl _ (h.resolved_lt _ hin)) (by simp)
  · exact ⟨(h.past x hx).1, Nat.lt_succ_of_lt (h.past x hx).2.1, (h.past x hx).2.2⟩
  · exact absurd hid.symm (Nat.ne_of_lt (h.past x hx).2.1)

theorem start (h : Tuned A e walk current n born writes cancelled) (key prop : String) (value toValue : V) (seconds : ℚ)
    (host : ScopeId) (easing : Easing) :
    Tuned A (e.start key prop value toValue seconds host easing) walk current n
      (born ++ [⟨e.nextId, host, key, prop, value, toValue, e.durationTicks seconds, easing, n⟩]) writes
      (cancelled ++ Playback.doomed e (.start key prop value toValue seconds host easing)) := by
  have hticks : 1 ≤ e.durationTicks seconds := le_max_left _ _
  have hmem : ∀ k, k ∈ Playback.doomed e (.start key prop value toValue seconds host easing) ↔
      e.byProp.get (propKey key prop) = some k := by
    intro k
    rw [h.inverse]
    refine mem_filter_ids.trans (exists_congr fun tween => ?_)
    rw [decide_eq_true_eq]
  unfold TweenEngine.start
  cases hprop : e.byProp.get (propKey key prop) with
  | none =>
    refine (h.add hticks hprop).congr_cancelled fun k => ?_
    rw [List.mem_append, hmem, hprop]
    simp
  | some existing =>
    obtain ⟨tween, hget, hslot⟩ := (h.inverse _ _).mp hprop
    have hcancel : e.cancel existing =
        { e with
          tweens := e.tweens.delete existing
          byProp := e.byProp.delete (propKey key prop)
          resolved := e.resolved ++ [existing] } := by
      unfold TweenEngine.cancel
      rw [hget]
      simp [hslot, hprop]
    have hkeep : (e.cancel existing).nextId = e.nextId ∧
        (e.cancel existing).durationTicks seconds = e.durationTicks seconds := by
      rw [hcancel]
      exact ⟨rfl, rfl⟩
    have hfree : (e.cancel existing).byProp.get (propKey key prop) = none := by
      rw [hcancel]
      exact OrderedMap.get_delete_self _ _
    simp only
    rw [← hkeep.1, ← hkeep.2]
    refine ((h.cancel hget).add (hkeep.2 ▸ hticks) hfree).congr_cancelled fun k => ?_
    rw [List.mem_append, List.mem_append, hmem, hprop, List.mem_singleton, Option.some.injEq, eq_comm (a := existing)]

/-! ### The walk -/

/-- The walk has passed a tween that it was not to come to. -/
theorem passed (h : Tuned A e (some (horizon, seen)) none n born writes cancelled) (hid : horizon ≤ id)
    (hlt : id < e.nextId) (hlater : ∀ k ∉ seen ++ [id], (e.tweens.get k).isSome = true → id < k) :
    Tuned A e (some (horizon, seen ++ [id])) none n born writes cancelled := by
  have hwaits : ∀ k, waits (some (horizon, seen ++ [id])) k = waits (some (horizon, seen)) k := by
    intro k
    by_cases hk : k = id
    · subst hk
      simp [Playback.waits, hid]
    · simp [Playback.waits, hk]
  have hsub : ∀ {k}, k ∉ seen ++ [id] → k ∉ seen := fun hk hin => hk (List.mem_append_left _ hin)
  refine { h with
    known := fun hk => hwaits _ ▸ h.known hk
    walking := fun horizon' seen' hw => ?_
    setting := fun _ hc => by cases hc
    ended := fun r => hwaits r.id ▸ h.ended r
    exact := fun r => hwaits r.id ▸ h.exact r
    past := fun x hx => ⟨(h.past x hx).1, (h.past x hx).2.1, fun hn horizon' seen' hw => ?_⟩ }
  · cases hw
    obtain ⟨h₁, h₂, h₃, h₄⟩ := h.walking horizon seen rfl
    refine ⟨h₁, fun x hx => ?_, h₃, fun x hx k hk hsome => ?_⟩
    · obtain hx | hx := List.mem_append.mp hx
      · exact h₂ x hx
      · exact List.mem_singleton.mp hx ▸ hlt
    · obtain hx | hx := List.mem_append.mp hx
      · exact h₄ x hx k (hsub hk) hsome
      · exact List.mem_singleton.mp hx ▸ hlater k hk hsome
  · cases hw
    exact List.mem_append_left _ ((h.past x hx).2.2 hn horizon seen rfl)

/-- The walk comes to a tween: one more tick of it has elapsed, and its setter is called. -/
theorem stepped (h : Tuned A e (some (horizon, seen)) none n born writes cancelled) (hget : e.tweens.get id = some tween)
    (hseen : id ∉ seen) (hid : id < horizon) (hlater : ∀ k ∉ seen ++ [id], (e.tweens.get k).isSome = true → id < k) :
    Tuned A { e with tweens := e.tweens.set id { tween with elapsed := tween.elapsed + 1 } }
      (some (horizon, seen ++ [id])) (some { tween with elapsed := tween.elapsed + 1 }) n born
      (writes ++ [(n, id, { tween with elapsed := tween.elapsed + 1 }.value A)]) cancelled := by
  set next : Tween V := { tween with elapsed := tween.elapsed + 1 } with hnext
  obtain ⟨hown, hlt, hflag⟩ := h.keyed hget
  obtain ⟨r₀, hr₀, hr₀id, hsame, helapsed⟩ := h.known hget
  have hunder : tween.elapsed < tween.durationTicks :=
    (h.unfinished hget).resolve_right fun ⟨c, hc, _⟩ => by cases hc
  have hwaiting : waits (some (horizon, seen)) id = true := by simp [Playback.waits, hid, hseen]
  rw [hwaiting, if_pos rfl] at helapsed
  have hdone : waits (some (horizon, seen ++ [id])) id = false := by simp [Playback.waits]
  have hwaits : ∀ k, k ≠ id → waits (some (horizon, seen ++ [id])) k = waits (some (horizon, seen)) k := by
    intro k hk
    simp [Playback.waits, hk]
  have hgets : ∀ k, (e.tweens.set id next).get k = if k = id then some next else e.tweens.get k :=
    fun k => OrderedMap.get_set _ _ _ _
  have hsome : ∀ k, ((e.tweens.set id next).get k).isSome = (e.tweens.get k).isSome := by
    intro k
    rw [hgets]
    split_ifs with hk
    · rw [hk, hget]
      rfl
    · rfl
  have hnone : ∀ {k}, (e.tweens.set id next).get k = none ↔ e.tweens.get k = none := by
    intro k
    rw [← Option.not_isSome_iff_eq_none, ← Option.not_isSome_iff_eq_none, hsome]
  have huniq : ∀ r ∈ born, r.id = id → r = r₀ := fun r hr hrid =>
    List.inj_on_of_nodup_map h.nodup hr hr₀ (hrid.trans hr₀id.symm)
  have hwrites : ∀ k, writesOf (writes ++ [(n, id, next.value A)]) k =
      writesOf writes k ++ if id = k then [(n, next.value A)] else [] := by
    intro k
    rw [writesOf_append, writesOf_singleton]
  refine ⟨fun {k t} hk => ?_, ?_, fun k k' => ?_, h.below, h.nodup, h.sane, fun {k t} hk => ?_, fun {k t} hk => ?_,
    fun horizon' seen' hw => ?_, fun c hc => ?_, fun r hr hc hk => ?_, fun r hr hc => ?_, fun k hk => ?_, fun r hr => ?_,
    h.resolved_lt, ?_, fun x hx => ?_, fun x hx r hr hrid => ?_⟩
  · rw [hgets] at hk
    split_ifs at hk with heq
    · exact Option.some.inj hk ▸ ⟨hown.trans heq.symm, heq ▸ hlt, hflag⟩
    · exact h.keyed hk
  · show ((OrderedMap.setEntries id next e.tweens.entries).map Prod.fst).Pairwise _
    have hmem : id ∈ e.tweens.entries.map Prod.fst := e.tweens.mem_keys_iff.mpr ⟨tween, hget⟩
    rw [OrderedMap.map_fst_setEntries, if_pos hmem]
    exact h.rising
  · rw [h.inverse]
    show _ ↔ ∃ t, (e.tweens.set id next).get k' = some t ∧ _
    by_cases heq : k' = id
    · rw [hgets, if_pos heq, heq, hget]
      constructor
      · rintro ⟨t, ht, hslot⟩
        rw [← Option.some.inj ht] at hslot
        exact ⟨next, rfl, hslot⟩
      · rintro ⟨t, ht, hslot⟩
        exact ⟨tween, rfl, by rw [← Option.some.inj ht] at hslot; exact hslot⟩
    · rw [hgets, if_neg heq]
  · rw [hgets] at hk
    split_ifs at hk with heq
    · obtain rfl := Option.some.inj hk
      refine ⟨r₀, hr₀, hr₀id.trans heq.symm, ⟨hsame.1, hsame.2, hsame.3, hsame.4, hsame.5, hsame.6, hsame.7⟩, ?_⟩
      rw [heq, hdone]
      show tween.elapsed + 1 + (if false = true then 1 else 0) + r₀.birth = n
      simpa using helapsed
    · rw [hwaits k heq]
      exact h.known hk
  · rw [hgets] at hk
    split_ifs at hk with heq
    · exact .inr ⟨next, rfl, hown.trans heq.symm⟩
    · exact .inl ((h.unfinished hk).resolve_right fun ⟨c, hc, _⟩ => by cases hc)
  · cases hw
    obtain ⟨h₁, h₂, h₃, h₄⟩ := h.walking horizon seen rfl
    refine ⟨h₁, fun x hx => ?_, h₃, fun x hx k hk hk' => ?_⟩
    · obtain hx | hx := List.mem_append.mp hx
      · exact h₂ x hx
      · exact List.mem_singleton.mp hx ▸ hlt
    · rw [hsome] at hk'
      obtain hx | hx := List.mem_append.mp hx
      · exact h₄ x hx k (fun hin => hk (List.mem_append_left _ hin)) hk'
      · exact List.mem_singleton.mp hx ▸ hlater k hk hk'
  · obtain rfl := Option.some.inj hc
    have hcid : next.id = id := hown
    rw [hcid, hdone, hgets, if_pos rfl]
    refine ⟨rfl, ⟨r₀, hr₀, hr₀id, ⟨hsame.1, hsame.2, hsame.3, hsame.4, hsame.5, hsame.6, hsame.7⟩, helapsed, ?_⟩,
      fun t ht => (Option.some.inj ht).symm, fun _ => rfl⟩
    show tween.elapsed + 1 ≤ r₀.ticks
    rw [← hsame.ticks]
    exact hunder
  · rw [hnone] at hk
    have hne : r.id ≠ id := by
      rintro heq
      rw [heq, hget] at hk
      cases hk
    rw [hwaits r.id hne]
    exact h.ended r hr hc hk
  · rw [hwrites]
    by_cases heq : id = r.id
    · obtain rfl := huniq r hr heq.symm
      have hold := h.exact r hr hc
      have hticks := hsame.ticks
      rw [← heq, hwaiting, if_pos rfl, show min r.ticks (n - r.birth - 1) = tween.elapsed by omega] at hold
      rw [if_pos heq, ← heq, hold, hdone,
        show min r.ticks (n - r.birth - if false = true then 1 else 0) = tween.elapsed + 1 by simp; omega,
        TweenBirth.plays_succ]
      have hsame' : r.Same next := ⟨hsame.1, hsame.2, hsame.3, hsame.4, hsame.5, hsame.6, hsame.7⟩
      rw [hsame'.value A, show r.birth + (tween.elapsed + 1) = n by omega]
    · rw [if_neg heq, List.append_nil, hwaits r.id (Ne.symm heq)]
      exact h.exact r hr hc
  · exact ⟨hnone.mpr (h.gone k hk).1, (h.gone k hk).2⟩
  · exact (h.promised r hr).trans hnone.symm
  · refine List.pairwise_append.mpr ⟨h.ordered, List.pairwise_singleton _ _, fun x hx y hy => ?_⟩
    obtain rfl := List.mem_singleton.mp hy
    obtain ⟨hle, -, hin⟩ := h.past x hx
    obtain hlt | heq := Nat.lt_or_eq_of_le hle
    · exact .inl hlt
    · refine .inr ⟨heq, ?_⟩
      exact (h.walking horizon seen rfl).2.2.2 _ (hin heq horizon seen rfl) id hseen (by rw [hget]; rfl)
  · obtain hx | hx := List.mem_append.mp hx
    · refine ⟨(h.past x hx).1, (h.past x hx).2.1, fun hn horizon' seen' hw => ?_⟩
      cases hw
      exact List.mem_append_left _ ((h.past x hx).2.2 hn horizon seen rfl)
    · obtain rfl := List.mem_singleton.mp hx
      refine ⟨Nat.le_refl n, hlt, fun _ horizon' seen' hw => ?_⟩
      cases hw
      exact List.mem_append_right _ List.mem_cons_self
  · obtain hx | hx := List.mem_append.mp hx
    · exact h.begun x hx r hr hrid
    · obtain rfl := List.mem_singleton.mp hx
      obtain rfl := huniq r hr hrid
      show r.birth < n
      omega

/-- The walk is over. -/
theorem walked (h : Tuned A e (some (horizon, seen)) none n born writes cancelled)
    (hall : ∀ {k t}, e.tweens.get k = some t → k ∈ seen) : Tuned A e none none n born writes cancelled := by
  have hlive : ∀ {k t}, e.tweens.get k = some t → waits (some (horizon, seen)) k = false := fun hk => by
    simp [Playback.waits, hall hk]
  refine { h with
    known := fun {k t} hk => ?_
    walking := fun _ _ hw => by cases hw
    setting := fun _ hc => by cases hc
    ended := fun r hr hc hk => ?_
    exact := fun r hr hc => ?_
    past := fun x hx => ⟨(h.past x hx).1, (h.past x hx).2.1, fun _ _ _ hw => by cases hw⟩ }
  · have := h.known hk
    rwa [hlive hk] at this
  · have := h.ended r hr hc hk
    exact Nat.le_trans (Nat.add_le_add_left (Nat.zero_le _) _) this
  · rw [h.exact r hr hc]
    cases hget : e.tweens.get r.id with
    | some t =>
      rw [hlive hget]
      rfl
    | none =>
      have hended := h.ended r hr hc hget
      congr 1
      show min r.ticks _ = min r.ticks (n - r.birth - 0)
      omega

/-- **The walk goes on** to the next tween, or is over; `rest` is what it has not looked at. -/
theorem next {rest : List (ℕ × Tween V)} (h : Tuned A e (some (horizon, seen)) none n born writes cancelled)
    (hrising : (rest.map Prod.fst).Pairwise (· < ·)) (hrest : ∀ x ∈ rest, x ∈ e.tweens.entries)
    (hall : ∀ {k t}, e.tweens.get k = some t → k ∉ seen → (k, t) ∈ rest) :
    Tuned A (Playhead.next e horizon rest seen).engine
      ((Playhead.next e horizon rest seen).walk.map fun w => (w.horizon, w.seen))
      ((Playhead.next e horizon rest seen).walk.map Stepping.tween) n born
      (writes ++ Playback.wrote A n (Playhead.next e horizon rest seen)) cancelled := by
  induction rest generalizing seen with
  | nil =>
    have hover := h.walked fun {k t} hk => by_contra fun hout => List.not_mem_nil (hall hk hout)
    simpa [Playhead.next, Playback.wrote] using hover
  | cons x rest ih =>
    obtain ⟨id, tween⟩ := x
    obtain ⟨hfirst, hrising⟩ := List.pairwise_cons.mp hrising
    have hget : e.tweens.get id = some tween := e.tweens.mem_entries_iff.mp (hrest _ List.mem_cons_self)
    obtain ⟨hown, hlt, hflag⟩ := h.keyed hget
    have hrest' : ∀ x ∈ rest, x ∈ e.tweens.entries := fun x hx => hrest x (List.mem_cons_of_mem _ hx)
    have htail : ∀ {k t}, e.tweens.get k = some t → k ∉ seen → k ≠ id → (k, t) ∈ rest := fun hk hout hne =>
      (List.mem_cons.mp (hall hk hout)).resolve_left fun heq => hne (congrArg Prod.fst heq)
    have hlater : ∀ k ∉ seen ++ [id], (e.tweens.get k).isSome = true → id < k := by
      intro k hk hsome
      obtain ⟨t, ht⟩ := Option.isSome_iff_exists.mp hsome
      have hne : k ≠ id := fun heq => hk (List.mem_append_right _ (List.mem_singleton.mpr heq))
      have hmem := htail ht (fun hin => hk (List.mem_append_left _ hin)) hne
      exact hfirst k (List.mem_map.mpr ⟨(k, t), hmem, rfl⟩)
    unfold Playhead.next
    by_cases hseen : id ∈ seen
    · rw [if_pos hseen]
      exact ih h hrising hrest' fun hk hout => htail hk hout fun heq => hout (heq ▸ hseen)
    · by_cases hpast : horizon ≤ id
      · rw [if_neg hseen, if_pos (.inr (hown.symm ▸ hpast))]
        refine ih (h.passed hpast hlt hlater) hrising hrest' fun hk hout => ?_
        rw [List.mem_append, List.mem_singleton, not_or] at hout
        exact htail hk hout.1 hout.2
      · obtain rfl := hown
        rw [if_neg hseen, if_neg (by simp [hflag, hpast])]
        exact h.stepped hget hseen (Nat.lt_of_not_le hpast) hlater

/-- An advance begins: all live tweens wait for it. -/
theorem advance (h : Tuned A e none none n born writes cancelled) :
    Tuned A e (some (e.nextId, [])) none (n + 1) born writes cancelled := by
  have hwaits : ∀ {k}, k < e.nextId → waits (some (e.nextId, [])) k = true := fun hk => by simp [Playback.waits, hk]
  refine { h with
    sane := fun r hr => ⟨(h.sane r hr).1, Nat.le_succ_of_le (h.sane r hr).2⟩
    known := fun {k t} hk => ?_
    walking := fun horizon seen hw => ?_
    setting := fun _ hc => by cases hc
    ended := fun r hr hc hk => ?_
    exact := fun r hr hc => ?_
    past := fun x hx => ⟨Nat.le_succ_of_le (h.past x hx).1, (h.past x hx).2.1, fun hn _ _ _ => ?_⟩ }
  · obtain ⟨r, hr, hid, hsame, helapsed⟩ := h.known hk
    refine ⟨r, hr, hid, hsame, ?_⟩
    rw [hwaits (h.keyed hk).2.1, if_pos rfl]
    simp only [Playback.waits, Bool.false_eq_true, if_false] at helapsed
    omega
  · cases hw
    refine ⟨Nat.le_refl _, by simp, fun r hr => iff_of_false (Nat.not_le.mpr (h.below r hr)) ?_, by simp⟩
    exact Nat.ne_of_lt (Nat.lt_succ_of_le (h.sane r hr).2)
  · rw [hwaits (h.below r hr), if_pos rfl]
    exact Nat.succ_le_succ (h.ended r hr hc hk)
  · rw [h.exact r hr hc, hwaits (h.below r hr), if_pos rfl]
    congr 1
    show min r.ticks (n - r.birth - 0) = min r.ticks (n + 1 - r.birth - 1)
    omega
  · have := (h.past x hx).1
    omega

/-! ### A setter returns -/

theorem delete_none {κ ν : Type} [DecidableEq κ] {m : OrderedMap κ ν} {k : κ} (hget : m.get k = none) : m.delete k = m := by
  have hsame : m.entries.filter (fun x => x.1 ≠ k) = m.entries := by
    refine List.filter_eq_self.mpr fun x hx => decide_eq_true fun hk => ?_
    have := m.mem_entries_iff.mp hx
    rw [hk, hget] at this
    cases this
  cases m
  exact (OrderedMap.mk.injEq _ _ _ _).mpr hsame

theorem one_le_progress (hticks : 1 ≤ tween.durationTicks) : 1 ≤ tween.progress ↔ tween.durationTicks ≤ tween.elapsed := by
  unfold Tween.progress
  have hpos : (0 : ℚ) < tween.durationTicks := by exact_mod_cast hticks
  rw [le_min_iff, and_iff_right (le_refl _), one_le_div hpos]
  exact_mod_cast Iff.rfl

/-- The setter of a tween returns: it is done, or waits for the next advance. -/
theorem settled (h : Tuned A e (some (horizon, seen)) (some tween) n born writes cancelled) :
    Tuned A (if 1 ≤ tween.progress then e.finish tween else e) (some (horizon, seen)) none n born writes cancelled := by
  obtain ⟨hwaits, ⟨r, hr, hrid, hsame, helapsed, hle⟩, hown, hlive⟩ := h.setting tween rfl
  have hticks : 1 ≤ tween.durationTicks := hsame.ticks ▸ (h.sane r hr).1
  have hborn : ∀ r' ∈ born, r'.id = tween.id → r' = r := fun r' hr' hid =>
    List.inj_on_of_nodup_map h.nodup hr' hr (hid.trans hrid.symm)
  split_ifs with hdone <;> rw [one_le_progress hticks] at hdone
  · have hended : ∀ r' ∈ born, r'.id = tween.id → tween.id ∉ cancelled →
        r'.birth + r'.ticks + (if waits (some (horizon, seen)) tween.id then 1 else 0) ≤ n := by
      intro r' hr' hid _
      obtain rfl := hborn r' hr' hid
      rw [hwaits, if_neg (by simp), ← hsame.ticks]
      omega
    unfold TweenEngine.finish
    cases hget : e.tweens.get tween.id with
    | some t =>
      obtain rfl := hown t hget
      have hslot : e.byProp.get t.slot = some t.id := (h.inverse _ _).mpr ⟨t, hget, rfl⟩
      refine h.drop hget (fun k => OrderedMap.get_delete _ _ _) (keys_delete_sublist _ _) (fun k => ?_) rfl rfl
        (fun c hc => .inr (Option.some.inj hc ▸ rfl)) (fun _ hc => by cases hc) (fun _ hk => hk) (fun _ hk => .inl hk) hended
      simp only [hslot, if_true]
      exact OrderedMap.get_delete _ _ _
    | none =>
      -- its setter, or one of those that it called, had it cancelled
      have hindex : ¬ e.byProp.get tween.slot = some tween.id := fun hslot => by
        obtain ⟨t, ht, -⟩ := (h.inverse _ _).mp hslot
        rw [hget] at ht
        cases ht
      rw [if_neg hindex, delete_none hget]
      refine { h with
        unfinished := fun {k t} hk => .inl ?_
        setting := fun _ hc => by cases hc
        promised := fun r' hr' => ?_
        resolved_lt := fun k hk => ?_ }
      · refine (h.unfinished hk).resolve_right ?_
        rintro ⟨c, hc, hck⟩
        obtain rfl := Option.some.inj hc
        rw [hck] at hget
        cases hget.symm.trans hk
      · rw [List.mem_append, List.mem_singleton, h.promised r' hr']
        exact or_iff_left_of_imp fun hid => hid ▸ hget
      · obtain hk | hk := List.mem_append.mp hk
        · exact h.resolved_lt k hk
        · rw [List.mem_singleton.mp hk, ← hrid]
          exact h.below r hr
  · refine { h with
      unfinished := fun {k t} hk => .inl ?_
      setting := fun _ hc => by cases hc }
    obtain hlt | ⟨c, hc, hck⟩ := h.unfinished hk
    · exact hlt
    · obtain rfl := Option.some.inj hc
      rw [hown t (hck ▸ hk)]
      exact Nat.lt_of_not_le hdone

end Tuned

/-! ### Runs -/

namespace Playback

open Playhead (Event)

variable {A : Arithmetic V} {P : Playback V}

/-- The walk under way, and the tween whose setter runs. -/
def walk (P : Playback V) : Option (ℕ × List ℕ) := P.head.walk.map fun w => (w.horizon, w.seen)

def current (P : Playback V) : Option (Tween V) := P.head.walk.map Stepping.tween

/-- The invariant, of the run so far. -/
def InTune (A : Arithmetic V) (P : Playback V) : Prop :=
  Tuned A P.head.engine P.walk P.current P.advances P.born P.writes P.cancelled

/-- The walk goes on from the entries of the table. -/
theorem goes_on {e : TweenEngine V} {horizon n : ℕ} {seen : List ℕ} {born : List (TweenBirth V)}
    {writes : List (ℕ × ℕ × V)} {cancelled : List ℕ}
    (h : Tuned A e (some (horizon, seen)) none n born writes cancelled) :
    Playback.InTune A ⟨Playhead.next e horizon e.tweens.entries seen, n, born,
      writes ++ wrote A n (Playhead.next e horizon e.tweens.entries seen), cancelled⟩ :=
  h.next h.rising (fun _ hx => hx) fun hk _ => e.tweens.mem_entries_iff.mpr hk

/-- An advance of an empty table returns at once, as the walk over it would. -/
theorem step_advance (e : TweenEngine V) :
    Playhead.step ⟨e, none⟩ .advance = Playhead.next e e.nextId e.tweens.entries [] := by
  unfold Playhead.step
  split_ifs with hsize
  · rw [List.eq_nil_of_length_eq_zero hsize]
    rfl
  · rfl

/-- **One call.** -/
theorem InTune.step (h : P.InTune A) {ev : Event V} (hcalm : P.Calm ev) : (P.step A ev).InTune A := by
  cases ev with
  | start key prop value toValue seconds host easing => exact Tuned.start h key prop value toValue seconds host easing
  | cancel id => exact Tuned.cancelOne h id
  | cancelScope host => exact Tuned.cancelScope h host
  | advance =>
    obtain ⟨⟨e, w⟩, n, born, writes, cancelled⟩ := P
    obtain rfl : w = none := hcalm
    unfold Playback.step doomed
    simp only
    rw [step_advance, List.append_nil]
    exact goes_on (Tuned.advance h)
  | returned =>
    obtain ⟨⟨e, w⟩, n, born, writes, cancelled⟩ := P
    unfold Playback.step doomed
    simp only
    rw [List.append_nil]
    cases w with
    | none => exact h
    | some w => exact goes_on (Tuned.settled h)

/-- What holds of a run. -/
structure Tidy (A : Arithmetic V) (P : Playback V) : Prop where
  /-- The index and the table are inverse. -/
  inverse : ∀ k id, P.head.engine.byProp.get k = some id ↔
    ∃ tween, P.head.engine.tweens.get id = some tween ∧ tween.slot = k
  single : ∀ id tween id' tween', P.head.engine.tweens.get id = some tween →
    P.head.engine.tweens.get id' = some tween' → tween.slot = tween'.slot → id = id'
  /-- Advance after advance, and in each by ascending id. -/
  ordered : P.writes.Pairwise (fun x y => x.1 < y.1 ∨ x.1 = y.1 ∧ x.2.1 < y.2.1)
  nodup : (P.born.map TweenBirth.id).Nodup
  /-- None is stepped by the advance it was started in. -/
  begun : ∀ x ∈ P.writes, ∀ r ∈ P.born, r.id = x.2.1 → r.birth < x.1
  /-- One write in each advance, from the one after its start to its last; the advance under way may still have to
  come to it. -/
  exact : ∀ r ∈ P.born, r.id ∉ P.cancelled →
    writesOf P.writes r.id = r.plays A (min r.ticks (P.advances - r.birth - if waits P.walk r.id then 1 else 0))
  /-- All of them, when as many advances are over. -/
  complete : ∀ r ∈ P.born, r.id ∉ P.cancelled → P.walk = none → r.birth + r.ticks ≤ P.advances →
    (writesOf P.writes r.id).length = r.ticks ∧
      (writesOf P.writes r.id).getLast? = some (r.birth + r.ticks, A.lerp r.fromValue r.toValue (A.ease 1 r.easing))
  /-- A promise is resolved by then if the tween was cancelled, or the setter of its last write has returned. -/
  promised : ∀ r ∈ P.born, r.id ∈ P.head.engine.resolved ↔ r.id ∈ P.cancelled ∨
    (writesOf P.writes r.id).length = r.ticks ∧ ∀ c, P.current = some c → c.id ≠ r.id

theorem InTune.tidy (h : P.InTune A) : P.Tidy A where
  inverse := h.inverse
  single := by
    intro id tween id' tween' hget hget' hslot
    have hid := (h.inverse tween.slot id).mpr ⟨tween, hget, rfl⟩
    have hid' := (h.inverse tween.slot id').mpr ⟨tween', hget', hslot.symm⟩
    exact Option.some.inj (hid.symm.trans hid')
  ordered := h.ordered
  nodup := h.nodup
  begun := h.begun
  exact := h.exact
  complete := by
    intro r hr hc hover hlong
    have hticks := (h.sane r hr).1
    have hexact := h.exact r hr hc
    rw [hover, show min r.ticks (P.advances - r.birth - if waits none r.id then 1 else 0) = r.ticks by
      simp [waits]; omega] at hexact
    rw [hexact]
    refine ⟨r.length_plays A _, ?_⟩
    obtain ⟨k, hk⟩ : ∃ k, r.ticks = k + 1 := ⟨r.ticks - 1, by omega⟩
    have hone : min 1 (((k + 1 : ℕ) : ℚ) / r.ticks) = 1 := by
      rw [hk, div_self (by positivity), min_self]
    rw [hk, TweenBirth.plays_succ, List.getLast?_append, List.getLast?_singleton, TweenBirth.value, hone]
    rfl
  promised := by
    intro r hr
    rw [h.promised r hr]
    by_cases hc : r.id ∈ P.cancelled
    · exact iff_of_true (h.gone r.id hc).1 (.inl hc)
    have hlength : (writesOf P.writes r.id).length =
        min r.ticks (P.advances - r.birth - if waits P.walk r.id then 1 else 0) := by
      rw [h.exact r hr hc, r.length_plays]
    rw [or_iff_right hc, hlength]
    constructor
    · intro hnone
      have hended := h.ended r hr hc hnone
      refine ⟨by omega, fun c hcur heq => ?_⟩
      have hlive := (h.setting c hcur).2.2.2 (heq ▸ hc)
      rw [heq, hnone] at hlive
      cases hlive
    · rintro ⟨hall, hcur⟩
      cases hget : P.head.engine.tweens.get r.id with
      | none => rfl
      | some tween =>
        obtain ⟨r', hr', hid, hsame, helapsed⟩ := h.known hget
        obtain rfl := List.inj_on_of_nodup_map h.nodup hr' hr hid
        have hunder := (h.unfinished hget).resolve_right fun ⟨c, hc, hid⟩ => hcur c hc hid
        have hticks := hsame.ticks
        omega

/-! ### After a cancel -/

theorem next_live {e : TweenEngine V} {horizon : ℕ} : ∀ {rest : List (ℕ × Tween V)} {seen : List ℕ} {w : Stepping V},
    (Playhead.next e horizon rest seen).walk = some w → ∃ x ∈ rest, x.2.id = w.tween.id
  | [], _, _, h => by cases h
  | (id, tween) :: rest, seen, w, h => by
    unfold Playhead.next at h
    split_ifs at h
    · obtain ⟨x, hx, hid⟩ := next_live h
      exact ⟨x, List.mem_cons_of_mem _ hx, hid⟩
    · obtain ⟨x, hx, hid⟩ := next_live h
      exact ⟨x, List.mem_cons_of_mem _ hx, hid⟩
    · obtain rfl := Option.some.inj h
      exact ⟨(id, tween), List.mem_cons_self, rfl⟩

/-- A walk over a table that is part of a tuned one does not write to a cancelled tween. -/
theorem quiet {e : TweenEngine V} {w : Option (ℕ × List ℕ)} {c : Option (Tween V)} {n m horizon : ℕ} {seen : List ℕ}
    {born : List (TweenBirth V)} {writes : List (ℕ × ℕ × V)} {cancelled : List ℕ} {id : ℕ}
    (h : Tuned A e w c n born writes cancelled) (hid : id ∈ cancelled) :
    writesOf (writes ++ wrote A m (Playhead.next e horizon e.tweens.entries seen)) id = writesOf writes id := by
  rw [Tuned.writesOf_append]
  cases hw : (Playhead.next e horizon e.tweens.entries seen).walk with
  | none => simp [wrote, hw, writesOf]
  | some s =>
    obtain ⟨⟨k, tween⟩, hmem, hown⟩ := next_live hw
    have hget := e.tweens.mem_entries_iff.mp hmem
    have hne : s.tween.id ≠ id := by
      rw [← hown, (h.keyed hget).1]
      rintro rfl
      rw [(h.gone _ hid).1] at hget
      cases hget
    simp only [wrote, hw]
    rw [Tuned.writesOf_singleton, if_neg hne, List.append_nil]

end Playback

end Grove
