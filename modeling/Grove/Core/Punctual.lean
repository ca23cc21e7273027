import Grove.Core.TimerRewind

/-! # When timers fire

A run of a heap whose callbacks start and cancel timers, with a record of it beside it (`Ledger`): the timers as
they were created, what fired in which advance, and what was cancelled.  `Birth.schedule` is when a timer should
fire.  `Timely` is the invariant between two firings: a live timer's residue is the way to its next turn, and what
has fired with what is still to fire in this advance is the schedule.  `timers_punctual` reads it off. -/

namespace Grove

namespace TimerHeap

/-- The ids of the timers that `fireDue` fires. -/
def fires : TimerHeap → List Timer → List ℕ
  | _, [] => []
  | h, timer :: rest =>
    if timer.object ∈ h.cancelled then fires h rest
    else
      match timer.kind with
      | .every => if timer.fn.isSome then [timer.id] else fires (h.reload timer) rest
      | .after =>
        if timer.fn.isSome then [timer.id] else fires { h with timers := h.timers.delete timer.id } rest
      | .sleep => timer.id :: fires { h with timers := h.timers.delete timer.id } rest

end TimerHeap

/-- A timer as it was created. -/
structure Birth where
  id : ℕ
  kind : TimerKind
  hostScopeId : ScopeId
  ticks : ℤ
  /-- The advances begun by then. -/
  birth : ℕ
deriving DecidableEq

namespace Birth

/-- Whether it is due in the advance `m`. -/
def dueIn (r : Birth) (m : ℕ) : Bool :=
  decide (r.birth < m) &&
    match r.kind with
    | .every => decide (r.ticks ∣ (m : ℤ) - r.birth)
    | .after => decide ((m : ℤ) - r.birth = r.ticks)
    | .sleep => decide ((m : ℤ) - r.birth = r.ticks)

/-- The advances it is due in, of the first `n`. -/
def schedule (r : Birth) (n : ℕ) : List ℕ := (List.range (n + 1)).filter r.dueIn

end Birth

/-- A run of a heap, and what became of its timers. -/
structure Ledger where
  clock : Clock
  /-- The advances begun. -/
  advances : ℕ
  born : List Birth
  /-- The advance and the timer, in the order they fired. -/
  fired : List (ℕ × ℕ)
  cancelled : List ℕ

namespace Ledger

open Clock (Event)

def init (simRate : ℚ) : Ledger := ⟨⟨⟨.empty, 1, simRate, 0, []⟩, [], []⟩, 0, [], [], []⟩

/-- The timer a call creates, if its duration is one. -/
def bornBy (L : Ledger) (kind : TimerKind) (seconds : JsNumber) (hostScopeId : ScopeId) : List Birth :=
  match L.clock.heap.toTicks seconds with
  | none => []
  | some ticks => [⟨L.clock.heap.nextId, kind, hostScopeId, ticks, L.advances⟩]

def step (L : Ledger) (e : Event) : Ledger :=
  let L' := { L with clock := L.clock.step e }
  match e with
  | .after seconds hostScopeId _ _ => { L' with born := L.born ++ L.bornBy .after seconds hostScopeId }
  | .every seconds hostScopeId _ _ => { L' with born := L.born ++ L.bornBy .every seconds hostScopeId }
  | .sleep seconds hostScopeId _ => { L' with born := L.born ++ L.bornBy .sleep seconds hostScopeId }
  | .cancel id => { L' with cancelled := L.cancelled ++ (L.born.map Birth.id).filter (· = id) }
  | .cancelScope hostScopeId =>
    if hostScopeId = noScope then L'
    else { L' with cancelled := L.cancelled ++ (L.born.filter (·.hostScopeId = hostScopeId)).map Birth.id }
  | .advance =>
    let h := L.clock.heap.tick
    { L' with
      advances := L.advances + 1
      fired := L.fired ++ (h.fires h.dueTimers).map ((L.advances + 1, ·)) }
  | .returned =>
    match L.clock.due with
    | [] => L'
    | due :: _ => { L' with fired := L.fired ++ (L.clock.heap.fires due).map ((L.advances, ·)) }

/-- The timers of the running advance that are still to be fired. -/
def pending (L : Ledger) : List Timer := L.clock.due.headD []

/-- The advances in which a timer fired. -/
def turns (fired : List (ℕ × ℕ)) (id : ℕ) : List ℕ := (fired.filter (fun x => decide (x.2 = id))).map Prod.fst

/-- Whether the running advance still has to come to a timer. -/
def awaited (due : List Timer) (id : ℕ) : Bool := due.any (fun d => decide (d.id = id))

/-- Callbacks create and cancel timers; they do not advance the heap. -/
def Calm (L : Ledger) : Event → Prop
  | .advance => L.clock.due = []
  | _ => True

end Ledger

/-! ### A timer and its birth -/

/-- The residue of a live timer leads to its next turn. -/
structure Birth.Fits (r : Birth) (t : Timer) (n : ℕ) : Prop where
  kind : t.kind = r.kind
  hostScopeId : t.hostScopeId = r.hostScopeId
  callback : r.kind ≠ .sleep → t.fn.isSome = true
  interval : r.kind = .every → t.interval = r.ticks
  remaining : 0 ≤ t.remaining
  once : r.kind ≠ .every → (n : ℤ) - r.birth + t.remaining = r.ticks
  often : r.kind = .every → r.ticks ∣ (n : ℤ) - r.birth + t.remaining ∧ t.remaining ≤ r.ticks

namespace Birth

variable {r : Birth} {t : Timer} {n : ℕ}

theorem schedule_succ (r : Birth) (n : ℕ) :
    r.schedule (n + 1) = r.schedule n ++ if r.dueIn (n + 1) then [n + 1] else [] := by
  unfold schedule
  rw [List.range_succ, List.filter_append, List.filter_singleton]
  cases r.dueIn (n + 1) <;> rfl

theorem schedule_birth (r : Birth) : r.schedule r.birth = [] := by
  refine List.filter_eq_nil_iff.mpr fun m hm => ?_
  have hle : ¬ r.birth < m := by
    rw [List.mem_range] at hm
    omega
  simp [dueIn, hle]

theorem dueIn_once (hkind : r.kind ≠ .every) (m : ℕ) :
    r.dueIn m = true ↔ r.birth < m ∧ (m : ℤ) - r.birth = r.ticks := by
  unfold dueIn
  cases hr : r.kind with
  | every => exact absurd hr hkind
  | after | sleep => simp

theorem dueIn_every (hkind : r.kind = .every) (m : ℕ) :
    r.dueIn m = true ↔ r.birth < m ∧ r.ticks ∣ (m : ℤ) - r.birth := by
  unfold dueIn
  rw [hkind]
  simp

/-- A timer is due in the next advance when one tick of it remains. -/
theorem Fits.due_next (h : r.Fits t n) (hbirth : r.birth ≤ n) (hrest : 1 ≤ t.remaining) :
    r.dueIn (n + 1) = true ↔ t.remaining = 1 := by
  by_cases hkind : r.kind = .every
  · obtain ⟨hdvd, hle⟩ := h.often hkind
    rw [dueIn_every hkind]
    have hsplit : (n : ℤ) - r.birth + t.remaining = ((n + 1 : ℕ) : ℤ) - r.birth + (t.remaining - 1) := by
      push_cast
      omega
    rw [hsplit] at hdvd
    constructor
    · rintro ⟨-, hnext⟩
      have hrem : r.ticks ∣ t.remaining - 1 := (dvd_add_right hnext).mp hdvd
      have := Int.eq_zero_of_dvd_of_nonneg_of_lt (by omega) (by omega) hrem
      omega
    · intro hone
      rw [hone, sub_self, add_zero] at hdvd
      exact ⟨by omega, hdvd⟩
  · have := h.once hkind
    rw [dueIn_once hkind]
    push_cast
    omega

end Birth

/-! ### The invariant -/

open Ledger (turns awaited)

/-- Between two firings of the advance `n`, with `due` still to be fired. -/
structure Timely (h : TimerHeap) (due : List Timer) (n : ℕ) (born : List Birth) (fired : List (ℕ × ℕ))
    (cancelled : List ℕ) : Prop where
  ok : h.Ok
  below : ∀ r ∈ born, r.id < h.nextId
  nodup : (born.map Birth.id).Nodup
  sane : ∀ r ∈ born, 1 ≤ r.ticks ∧ r.birth ≤ n
  known : ∀ {k t}, h.timers.get k = some t → ∃ r ∈ born, r.id = k ∧ r.Fits t n
  waiting : ∀ {k t}, h.timers.get k = some t → (t.remaining = 0 ↔ ∃ d ∈ due, d.object = t.object)
  live : ∀ d ∈ due, d.object ∈ h.cancelled ∨
    ∃ t, h.timers.get d.id = some t ∧ t.object = d.object ∧ t.kind = d.kind ∧ t.fn = d.fn
  dropped : ∀ d ∈ due, d.object ∈ h.cancelled → d.id ∈ cancelled
  due_lt : ∀ d ∈ due, d.id < h.nextId ∧ d.object < h.nextObject
  sorted : due.Pairwise (fun d d' => d.id < d'.id)
  running : ∀ r ∈ born, r.id ∉ cancelled → (∃ t, h.timers.get r.id = some t) ∨
    r.kind ≠ .every ∧ r.birth + r.ticks ≤ n ∧ ∀ d ∈ due, d.id ≠ r.id
  gone : ∀ id ∈ cancelled, h.timers.get id = none ∧ (∀ d ∈ due, d.id = id → d.object ∈ h.cancelled) ∧ id < h.nextId
  exact : ∀ r ∈ born, r.id ∉ cancelled →
    turns fired r.id ++ (if awaited due r.id then [n] else []) = r.schedule n
  ordered : fired.Pairwise (fun x y => x.1 < y.1 ∨ x.1 = y.1 ∧ x.2 < y.2)
  past : ∀ x ∈ fired, x.1 ≤ n ∧ x.2 < h.nextId ∧ (x.1 = n → ∀ d ∈ due, x.2 < d.id)

namespace Timely

variable {h h' : TimerHeap} {d : Timer} {due rest : List Timer} {n : ℕ} {born : List Birth} {fired : List (ℕ × ℕ)}
  {cancelled : List ℕ}

theorem init (simRate : ℚ) : Timely ⟨.empty, 1, simRate, 0, []⟩ [] 0 [] [] [] where
  ok := ⟨fun hk => by simp at hk, fun hk => by simp at hk, fun hk => by simp at hk, fun hk => by simp at hk,
    fun hk => by simp at hk, by simp⟩
  below := by simp
  nodup := List.nodup_nil
  sane := by simp
  known := fun hk => by simp at hk
  waiting := fun hk => by simp at hk
  live := by simp
  dropped := by simp
  due_lt := by simp
  sorted := List.Pairwise.nil
  running := by simp
  gone := by simp
  exact := by simp
  ordered := List.Pairwise.nil
  past := by simp

theorem awaited_cons (d : Timer) (rest : List Timer) (id : ℕ) :
    awaited (d :: rest) id = (decide (d.id = id) || awaited rest id) := rfl

theorem turns_append (fired fired' : List (ℕ × ℕ)) (id : ℕ) :
    turns (fired ++ fired') id = turns fired id ++ turns fired' id := by
  unfold turns
  rw [List.filter_append, List.map_append]

theorem turns_singleton (n k id : ℕ) : turns [(n, k)] id = if k = id then [n] else [] := by
  unfold turns
  rw [List.filter_singleton]
  by_cases hk : k = id <;> simp [hk]

/-! ### One firing -/

/-- A cancelled timer is passed over. -/
theorem skip (h₀ : Timely h (d :: rest) n born fired cancelled) (hd : d.object ∈ h.cancelled) :
    Timely h rest n born fired cancelled where
  ok := h₀.ok
  below := h₀.below
  nodup := h₀.nodup
  sane := h₀.sane
  known := h₀.known
  waiting := by
    intro k t hget
    rw [h₀.waiting hget]
    constructor
    · rintro ⟨d', hd', hobject⟩
      obtain rfl | hd' := List.mem_cons.mp hd'
      · exact absurd (hobject ▸ hd) (h₀.ok.live hget)
      · exact ⟨d', hd', hobject⟩
    · exact fun ⟨d', hd', hobject⟩ => ⟨d', List.mem_cons_of_mem d hd', hobject⟩
  live := fun d' hd' => h₀.live d' (List.mem_cons_of_mem d hd')
  dropped := fun d' hd' => h₀.dropped d' (List.mem_cons_of_mem d hd')
  due_lt := fun d' hd' => h₀.due_lt d' (List.mem_cons_of_mem d hd')
  sorted := (List.pairwise_cons.mp h₀.sorted).2
  running := fun r hr hc => (h₀.running r hr hc).imp_right fun ⟨hkind, hle, hall⟩ =>
    ⟨hkind, hle, fun d' hd' => hall d' (List.mem_cons_of_mem d hd')⟩
  gone := fun id hid =>
    let ⟨hnone, hall, hlt⟩ := h₀.gone id hid
    ⟨hnone, fun d' hd' => hall d' (List.mem_cons_of_mem d hd'), hlt⟩
  exact := by
    intro r hr hc
    have hne : d.id ≠ r.id := fun heq => hc (heq ▸ h₀.dropped d List.mem_cons_self hd)
    rw [← h₀.exact r hr hc, awaited_cons, decide_eq_false hne, Bool.false_or]
  ordered := h₀.ordered
  past := fun x hx =>
    let ⟨hle, hlt, hall⟩ := h₀.past x hx
    ⟨hle, hlt, fun hn d' hd' => hall hn d' (List.mem_cons_of_mem d hd')⟩

/-- What firing the head of the due list leaves, whatever becomes of its entry in the heap. -/
theorem fire (h₀ : Timely h (d :: rest) n born fired cancelled) (hd : d.object ∉ h.cancelled) (hok : h'.Ok)
    (hid : h'.nextId = h.nextId) (hobject : h'.nextObject = h.nextObject) (hcancelled : h'.cancelled = h.cancelled)
    (hother : ∀ k, k ≠ d.id → h'.timers.get k = h.timers.get k)
    (hown : ∀ t, h'.timers.get d.id = some t → t.object = d.object ∧ t.remaining ≠ 0 ∧ ∃ r ∈ born, r.id = d.id ∧ r.Fits t n)
    (hrunning : ∀ r ∈ born, r.id = d.id → (∃ t, h'.timers.get d.id = some t) ∨
      r.kind ≠ .every ∧ r.birth + r.ticks ≤ n) :
    Timely h' rest n born (fired ++ [(n, d.id)]) cancelled := by
  have hlater : ∀ d' ∈ rest, d.id < d'.id := (List.pairwise_cons.mp h₀.sorted).1
  have hmem : ∀ d' ∈ rest, d' ∈ d :: rest := fun d' hd' => List.mem_cons_of_mem d hd'
  obtain ⟨t₀, hget₀, hobject₀, -, -⟩ := (h₀.live d List.mem_cons_self).resolve_left hd
  -- the object of another live timer is not the one fired
  have hapart : ∀ {k t}, k ≠ d.id → h.timers.get k = some t → t.object ≠ d.object := fun hk hget heq =>
    hk (h₀.ok.distinct hget hget₀ (heq.trans hobject₀.symm))
  refine ⟨hok, hid ▸ h₀.below, h₀.nodup, h₀.sane, fun {k t} hget => ?_, fun {k t} hget => ?_, fun d' hd' => ?_,
    fun d' hd' => ?_, fun d' hd' => ?_, (List.pairwise_cons.mp h₀.sorted).2, fun r hr hc => ?_, fun id hc => ?_,
    fun r hr hc => ?_, ?_, fun x hx => ?_⟩
  · obtain rfl | hk := eq_or_ne k d.id
    · exact (hown t hget).2.2
    · exact h₀.known (hother k hk ▸ hget)
  · obtain rfl | hk := eq_or_ne k d.id
    · obtain ⟨hobj, hrest, -⟩ := hown t hget
      refine iff_of_false hrest fun ⟨d', hd', hobj'⟩ => ?_
      obtain hdrop | ⟨t', hget', hobj'', -⟩ := h₀.live d' (hmem d' hd')
      · exact hd (hobj ▸ hobj' ▸ hdrop)
      · have heq := h₀.ok.distinct hget' hget₀ (by rw [hobj'', hobj', hobj, hobject₀])
        exact absurd (hlater d' hd') (by omega)
    · rw [hother k hk] at hget
      rw [h₀.waiting hget]
      constructor
      · rintro ⟨d', hd', hobj⟩
        obtain rfl | hd' := List.mem_cons.mp hd'
        · exact absurd hobj.symm (hapart hk hget)
        · exact ⟨d', hd', hobj⟩
      · exact fun ⟨d', hd', hobj⟩ => ⟨d', hmem d' hd', hobj⟩
  · rw [hcancelled, hother d'.id (Nat.ne_of_gt (hlater d' hd'))]
    exact h₀.live d' (hmem d' hd')
  · rw [hcancelled]
    exact h₀.dropped d' (hmem d' hd')
  · rw [hid, hobject]
    exact h₀.due_lt d' (hmem d' hd')
  · by_cases heq : r.id = d.id
    · obtain ⟨t, ht⟩ | ⟨hkind, hle⟩ := hrunning r hr heq
      · exact .inl ⟨t, heq ▸ ht⟩
      · exact .inr ⟨hkind, hle, fun d' hd' => heq ▸ Nat.ne_of_gt (hlater d' hd')⟩
    · rw [hother r.id heq]
      exact (h₀.running r hr hc).imp_right fun ⟨hkind, hle, hall⟩ => ⟨hkind, hle, fun d' hd' => hall d' (hmem d' hd')⟩
  · obtain ⟨hnone, hall, hlt⟩ := h₀.gone id hc
    have hne : id ≠ d.id := fun heq => hd (hall d List.mem_cons_self heq.symm)
    rw [hother id hne, hcancelled, hid]
    exact ⟨hnone, fun d' hd' => hall d' (hmem d' hd'), hlt⟩
  · rw [← h₀.exact r hr hc, turns_append, turns_singleton, awaited_cons]
    by_cases heq : d.id = r.id
    · have hrest : awaited rest r.id = false := by
        refine List.any_eq_false.mpr fun d' hd' => ?_
        have := hlater d' hd'
        simp only [decide_eq_true_eq]
        omega
      simp [heq, hrest]
    · simp [heq]
  · refine List.pairwise_append.mpr ⟨h₀.ordered, List.pairwise_singleton _ _, fun x hx y hy => ?_⟩
    obtain rfl := List.mem_singleton.mp hy
    obtain ⟨hle, -, hall⟩ := h₀.past x hx
    obtain hlt | heq := Nat.lt_or_eq_of_le hle
    · exact .inl hlt
    · exact .inr ⟨heq, hall heq d List.mem_cons_self⟩
  · rw [hid]
    obtain hx | hx := List.mem_append.mp hx
    · obtain ⟨hle, hlt, hall⟩ := h₀.past x hx
      exact ⟨hle, hlt, fun hn d' hd' => hall hn d' (hmem d' hd')⟩
    · obtain rfl := List.mem_singleton.mp hx
      exact ⟨Nat.le_refl n, (h₀.due_lt d List.mem_cons_self).1, fun _ => hlater⟩

theorem fire_every (h₀ : Timely h (d :: rest) n born fired cancelled) (hd : d.object ∉ h.cancelled)
    (hkind : d.kind = .every) : Timely (h.reload d) rest n born (fired ++ [(n, d.id)]) cancelled := by
  obtain ⟨t₀, hget₀, hobject₀, hkind₀, -⟩ := (h₀.live d List.mem_cons_self).resolve_left hd
  obtain ⟨r₀, hr₀, hid₀, hfits⟩ := h₀.known hget₀
  have hzero : t₀.remaining = 0 := (h₀.waiting hget₀).mpr ⟨d, List.mem_cons_self, hobject₀.symm⟩
  have hevery : r₀.kind = .every := by rw [← hfits.kind, hkind₀, hkind]
  have hget : ∀ k, (h.reload d).timers.get k = (h.timers.get k).map
      (fun t => if t.object = d.object then { t with remaining := t.remaining + t.interval } else t) := fun k =>
    OrderedMap.get_mapValues _ _ _
  refine h₀.fire hd (h₀.ok.kept.reload d).toOk rfl rfl rfl (fun k hk => ?_) (fun t ht => ?_) (fun r _ _ => .inl ?_)
  · rw [hget]
    cases hk' : h.timers.get k with
    | none => rfl
    | some t =>
      have hne : t.object ≠ d.object := fun heq => hk (h₀.ok.distinct hk' hget₀ (heq.trans hobject₀.symm))
      rw [Option.map_some, if_neg hne]
  · rw [hget, hget₀, Option.map_some, if_pos hobject₀] at ht
    obtain rfl := Option.some.inj ht
    have hticks := (h₀.sane r₀ hr₀).1
    have hinterval := hfits.interval hevery
    obtain ⟨hdvd, -⟩ := hfits.often hevery
    rw [hzero, add_zero] at hdvd
    refine ⟨hobject₀, ?_, r₀, hr₀, hid₀, hfits.kind, hfits.hostScopeId, hfits.callback, hfits.interval, ?_,
      fun hne => absurd hevery hne, fun _ => ⟨?_, ?_⟩⟩
    · simp only [hzero, hinterval]; omega
    · simp only [hzero, hinterval]; omega
    · simp only [hzero, hinterval, zero_add]
      exact dvd_add_self_right.mpr hdvd
    · simp only [hzero, hinterval, zero_add]; omega
  · rw [hget, hget₀]
    exact ⟨_, rfl⟩

theorem fire_once (h₀ : Timely h (d :: rest) n born fired cancelled) (hd : d.object ∉ h.cancelled)
    (hkind : d.kind ≠ .every) :
    Timely { h with timers := h.timers.delete d.id } rest n born (fired ++ [(n, d.id)]) cancelled := by
  obtain ⟨t₀, hget₀, hobject₀, hkind₀, -⟩ := (h₀.live d List.mem_cons_self).resolve_left hd
  obtain ⟨r₀, hr₀, hid₀, hfits⟩ := h₀.known hget₀
  have hzero : t₀.remaining = 0 := (h₀.waiting hget₀).mpr ⟨d, List.mem_cons_self, hobject₀.symm⟩
  have honce : r₀.kind ≠ .every := by rw [← hfits.kind, hkind₀]; exact hkind
  refine h₀.fire hd (h₀.ok.kept.delete d.id).toOk rfl rfl rfl (fun k hk => OrderedMap.get_delete_of_ne _ hk)
    (fun t ht => ?_) (fun r hr heq => .inr ?_)
  · rw [OrderedMap.get_delete_self] at ht
    cases ht
  · obtain rfl : r = r₀ := List.inj_on_of_nodup_map h₀.nodup hr hr₀ (heq.trans hid₀.symm)
    have := hfits.once honce
    exact ⟨honce, by omega⟩

/-- The loop of an advance, up to the next callback. -/
theorem fireDue : ∀ {due : List Timer} {h : TimerHeap} {fired : List (ℕ × ℕ)}, Timely h due n born fired cancelled →
    Timely (h.fireDue due).1 ((h.fireDue due).2.getD []) n born (fired ++ (h.fires due).map ((n, ·))) cancelled
  | [], h, fired, h₀ => by simpa [TimerHeap.fireDue, TimerHeap.fires] using h₀
  | d :: rest, h, fired, h₀ => by
    rw [TimerHeap.fireDue, TimerHeap.fires]
    by_cases hd : d.object ∈ h.cancelled
    · rw [if_pos hd, if_pos hd]
      exact (h₀.skip hd).fireDue
    rw [if_neg hd, if_neg hd]
    obtain ⟨t, hget, -, hkind, hfn⟩ := (h₀.live d List.mem_cons_self).resolve_left hd
    obtain ⟨r, -, -, hfits⟩ := h₀.known hget
    have hcallback : d.kind ≠ .sleep → d.fn.isSome = true := fun hne => by
      rw [← hfn]
      exact hfits.callback fun hsleep => hne (by rw [← hkind, hfits.kind, hsleep])
    cases hk : d.kind with
    | every =>
      simp only [hcallback (by simp [hk])]
      exact h₀.fire_every hd hk
    | after =>
      simp only [hcallback (by simp [hk])]
      exact h₀.fire_once hd (by simp [hk])
    | sleep =>
      have hnext := (h₀.fire_once hd (by simp [hk])).fireDue
      simpa [List.append_assoc] using hnext

theorem mem_dueTimers {h : TimerHeap} {d : Timer} : d ∈ h.dueTimers ↔ (∃ k, h.timers.get k = some d) ∧ d.remaining ≤ 0 := by
  unfold TimerHeap.dueTimers
  rw [List.mem_mergeSort, List.mem_filter, decide_eq_true_eq]
  refine and_congr_left fun _ => ?_
  constructor
  · intro hmem
    obtain ⟨⟨k, t⟩, hentry, rfl⟩ := List.mem_map.mp hmem
    exact ⟨k, (OrderedMap.mem_entries_iff _).mp hentry⟩
  · rintro ⟨k, hget⟩
    exact List.mem_map.mpr ⟨(k, d), (OrderedMap.mem_entries_iff _).mpr hget, rfl⟩

theorem sorted_dueTimers {h : TimerHeap} (hok : h.Ok) : h.dueTimers.Pairwise (fun d d' => d.id < d'.id) := by
  have hle : h.dueTimers.Pairwise (fun d d' => d.id ≤ d'.id) := by
    have hsorted : h.dueTimers.Pairwise (fun a b => decide (a.id ≤ b.id)) :=
      List.pairwise_mergeSort (fun a b c hab hbc => by simp at *; omega) (fun a b => by simp; omega)
        (h.timers.values.filter (fun t => t.remaining ≤ 0))
    exact hsorted.imp fun hab => by simpa using hab
  have hids : (h.timers.values.map Timer.id) = h.timers.keys := by
    unfold OrderedMap.values OrderedMap.keys
    rw [List.map_map]
    exact List.map_congr_left fun e he => hok.keyed ((OrderedMap.mem_entries_iff _).mp he)
  have hnodup : (h.dueTimers.map Timer.id).Nodup := by
    have hperm := (List.mergeSort_perm (h.timers.values.filter (fun t => t.remaining ≤ 0))
      (fun a b => decide (a.id ≤ b.id))).map Timer.id
    refine hperm.nodup_iff.mpr ?_
    exact (List.Sublist.map Timer.id List.filter_sublist).nodup (hids ▸ h.timers.nodup)
  exact (hle.and (List.pairwise_map.mp hnodup)).imp fun hab => Nat.lt_of_le_of_ne hab.1 hab.2

/-- A new advance begins. -/
theorem tick (h₀ : Timely h [] n born fired cancelled) : Timely h.tick h.tick.dueTimers (n + 1) born fired cancelled := by
  have hget : ∀ k, h.tick.timers.get k = (h.timers.get k).map (fun t => { t with remaining := t.remaining - 1 }) := fun k =>
    OrderedMap.get_mapValues _ _ _
  have hback : ∀ {k t'}, h.tick.timers.get k = some t' →
      ∃ t, h.timers.get k = some t ∧ t' = { t with remaining := t.remaining - 1 } ∧ 1 ≤ t.remaining := by
    intro k t' hk
    rw [hget] at hk
    obtain ⟨t, ht, rfl⟩ := Option.map_eq_some_iff.mp hk
    obtain ⟨r, -, -, hfits⟩ := h₀.known ht
    have hne : t.remaining ≠ 0 := fun hzero => by
      obtain ⟨d, hd, -⟩ := (h₀.waiting ht).mp hzero
      simp at hd
    have := hfits.remaining
    exact ⟨t, ht, rfl, by omega⟩
  have hok : h.tick.Ok := h₀.ok.kept.tick.toOk
  have hknown : ∀ {k t}, h.tick.timers.get k = some t → ∃ r ∈ born, r.id = k ∧ r.Fits t (n + 1) := by
    intro k t' hk
    obtain ⟨t, ht, rfl, hrest⟩ := hback hk
    obtain ⟨r, hr, hid, hfits⟩ := h₀.known ht
    have hway : ((n + 1 : ℕ) : ℤ) - r.birth + (t.remaining - 1) = (n : ℤ) - r.birth + t.remaining := by
      push_cast
      omega
    refine ⟨r, hr, hid, hfits.kind, hfits.hostScopeId, hfits.callback, hfits.interval, by simp only; omega,
      fun hkind => hway.trans (hfits.once hkind), fun hkind => ?_⟩
    obtain ⟨hdvd, hle⟩ := hfits.often hkind
    exact ⟨hway ▸ hdvd, by simp only; omega⟩
  refine ⟨hok, h₀.below, h₀.nodup, fun r hr => ?_, hknown, fun {k t'} hk => ?_, fun d hd => ?_, fun d hd hc => ?_,
    fun d hd => ?_, sorted_dueTimers hok, fun r hr hc => ?_, fun id hc => ?_, fun r hr hc => ?_, h₀.ordered, fun x hx => ?_⟩
  · obtain ⟨hticks, hbirth⟩ := h₀.sane r hr
    exact ⟨hticks, by omega⟩
  · obtain ⟨r, -, -, hfits⟩ := hknown hk
    have hnonneg := hfits.remaining
    constructor
    · intro hzero
      exact ⟨t', mem_dueTimers.mpr ⟨⟨k, hk⟩, by omega⟩, rfl⟩
    · rintro ⟨d, hd, hobject⟩
      obtain ⟨⟨k', hk'⟩, hle⟩ := mem_dueTimers.mp hd
      obtain rfl := hok.distinct hk' hk hobject
      obtain rfl := Option.some.inj (hk.symm.trans hk')
      omega
  · obtain ⟨⟨k, hk⟩, -⟩ := mem_dueTimers.mp hd
    exact .inr ⟨d, (hok.keyed hk).symm ▸ hk, rfl, rfl, rfl⟩
  · obtain ⟨⟨k, hk⟩, -⟩ := mem_dueTimers.mp hd
    exact absurd hc (hok.live hk)
  · obtain ⟨⟨k, hk⟩, -⟩ := mem_dueTimers.mp hd
    exact ⟨(hok.keyed hk).symm ▸ hok.below hk, hok.object_lt hk⟩
  · obtain ⟨t, ht⟩ | ⟨hkind, hle, -⟩ := h₀.running r hr hc
    · exact .inl ⟨{ t with remaining := t.remaining - 1 }, by rw [hget, ht]; rfl⟩
    · by_cases hlive : ∃ t, h.tick.timers.get r.id = some t
      · exact .inl hlive
      · refine .inr ⟨hkind, by push_cast; omega, fun d hd heq => ?_⟩
        obtain ⟨⟨k, hk⟩, -⟩ := mem_dueTimers.mp hd
        exact hlive ⟨d, heq ▸ (hok.keyed hk).symm ▸ hk⟩
  · obtain ⟨hnone, -, hlt⟩ := h₀.gone id hc
    have hnone' : h.tick.timers.get id = none := by rw [hget, hnone]; rfl
    refine ⟨hnone', fun d hd heq => ?_, hlt⟩
    obtain ⟨⟨k, hk⟩, -⟩ := mem_dueTimers.mp hd
    rw [← heq, hok.keyed hk, hk] at hnone'
    cases hnone'
  · have hbefore := h₀.exact r hr hc
    obtain ⟨-, hbirth⟩ := h₀.sane r hr
    rw [show awaited [] r.id = false from rfl, if_neg (by simp), List.append_nil] at hbefore
    rw [hbefore, Birth.schedule_succ]
    congr 1
    have hiff : awaited h.tick.dueTimers r.id = true ↔ r.dueIn (n + 1) = true := by
      unfold Ledger.awaited
      rw [List.any_eq_true]
      obtain ⟨t, ht⟩ | ⟨hkind, hle, -⟩ := h₀.running r hr hc
      · obtain ⟨r', hr', hid, hfits⟩ := h₀.known ht
        obtain rfl := List.inj_on_of_nodup_map h₀.nodup hr' hr hid
        have hlive : h.tick.timers.get r'.id = some { t with remaining := t.remaining - 1 } := by rw [hget, ht]; rfl
        obtain ⟨t', ht', heq, hrest⟩ := hback hlive
        obtain rfl := Option.some.inj (ht.symm.trans ht')
        rw [hfits.due_next hbirth hrest]
        constructor
        · rintro ⟨d, hd, hid⟩
          obtain ⟨⟨k, hk⟩, hle⟩ := mem_dueTimers.mp hd
          rw [← hok.keyed hk, of_decide_eq_true hid, hlive] at hk
          obtain rfl := Option.some.inj hk
          simp only at hle
          omega
        · intro hone
          exact ⟨_, mem_dueTimers.mpr ⟨⟨_, hlive⟩, by simp only; omega⟩, by simpa using h₀.ok.keyed ht⟩
      · -- it has had its turn: it is neither due nor live
        refine iff_of_false ?_ ?_
        · rintro ⟨d, hd, heq⟩
          obtain ⟨⟨k, hk⟩, -⟩ := mem_dueTimers.mp hd
          obtain ⟨t, ht, -, hrest⟩ := hback hk
          obtain ⟨r', hr', hid, hfits⟩ := h₀.known ht
          obtain rfl := List.inj_on_of_nodup_map h₀.nodup hr' hr
            (hid.trans ((hok.keyed hk).symm.trans (of_decide_eq_true heq)))
          have := hfits.once hkind
          omega
        · rw [Birth.dueIn_once hkind]
          push_cast
          omega
    by_cases hdue : r.dueIn (n + 1) = true
    · rw [hdue, hiff.mpr hdue]
    · rw [Bool.eq_false_iff.mpr hdue, Bool.eq_false_iff.mpr fun ha => hdue (hiff.mp ha)]
  · obtain ⟨hle, hlt, -⟩ := h₀.past x hx
    exact ⟨by omega, hlt, fun heq => by omega⟩

/-! ### Creating and cancelling -/

/-- A timer is created. -/
theorem add (h₀ : Timely h due n born fired cancelled) {timer : ℕ → ℕ → Timer} {kind : TimerKind} {host : ScopeId}
    {ticks : ℤ} (hticks : 1 ≤ ticks) (hid : ∀ object id, (timer object id).object = object ∧ (timer object id).id = id)
    (hfits : Birth.Fits ⟨h.nextId, kind, host, ticks, n⟩ (timer h.nextObject h.nextId) n)
    (hremaining : (timer h.nextObject h.nextId).remaining = ticks) :
    Timely (h.add timer) due n (born ++ [⟨h.nextId, kind, host, ticks, n⟩]) fired cancelled := by
  have hget : ∀ k, (h.add timer).timers.get k =
      if k = h.nextId then some (timer h.nextObject h.nextId) else h.timers.get k := fun k => OrderedMap.get_set _ _ _ _
  have hfresh : ∀ {k t}, h.timers.get k = some t → k ≠ h.nextId := fun hk => Nat.ne_of_lt (h₀.ok.below hk)
  have hnext : (h.add timer).nextId = h.nextId + 1 := rfl
  have hmem : ∀ r, r ∈ born ++ [⟨h.nextId, kind, host, ticks, n⟩] ↔ r ∈ born ∨ r = ⟨h.nextId, kind, host, ticks, n⟩ := by
    intro r
    rw [List.mem_append, List.mem_singleton]
  refine ⟨(h₀.ok.kept.add hid).toOk, fun r hr => ?_, ?_, fun r hr => ?_, fun {k t} hk => ?_, fun {k t} hk => ?_,
    fun d hd => ?_, h₀.dropped, fun d hd => ?_, h₀.sorted, fun r hr hc => ?_, fun id hc => ?_, fun r hr hc => ?_,
    h₀.ordered, fun x hx => ?_⟩
  · obtain hr | rfl := (hmem r).mp hr
    · exact (h₀.below r hr).trans (Nat.lt_succ_self _)
    · exact Nat.lt_succ_self _
  · rw [List.map_append, List.nodup_append']
    refine ⟨h₀.nodup, List.nodup_singleton _, fun id hid hid' => ?_⟩
    obtain ⟨r, hr, rfl⟩ := List.mem_map.mp hid
    have := h₀.below r hr
    simp at hid'
    omega
  · obtain hr | rfl := (hmem r).mp hr
    · exact h₀.sane r hr
    · exact ⟨hticks, Nat.le_refl n⟩
  · rw [hget] at hk
    split_ifs at hk with hkey
    · obtain rfl := Option.some.inj hk
      exact ⟨_, (hmem _).mpr (.inr rfl), hkey.symm, hfits⟩
    · obtain ⟨r, hr, hrk, hrfits⟩ := h₀.known hk
      exact ⟨r, (hmem r).mpr (.inl hr), hrk, hrfits⟩
  · rw [hget] at hk
    split_ifs at hk with hkey
    · obtain rfl := Option.some.inj hk
      refine iff_of_false (by omega) fun ⟨d, hd, hobject⟩ => ?_
      have := (h₀.due_lt d hd).2
      rw [hobject, (hid _ _).1] at this
      omega
    · exact h₀.waiting hk
  · refine (h₀.live d hd).imp_right fun ⟨t, ht, hrest⟩ => ⟨t, ?_, hrest⟩
    rw [hget, if_neg (hfresh ht)]
    exact ht
  · obtain ⟨hlt, hlt'⟩ := h₀.due_lt d hd
    exact ⟨hlt.trans (Nat.lt_succ_self _), hlt'.trans (Nat.lt_succ_self _)⟩
  · obtain hr | rfl := (hmem r).mp hr
    · rw [hget, if_neg (Nat.ne_of_lt (h₀.below r hr))]
      exact h₀.running r hr hc
    · exact .inl ⟨_, by rw [hget, if_pos rfl]⟩
  · obtain ⟨hnone, hall, hlt⟩ := h₀.gone id hc
    rw [hget, if_neg (Nat.ne_of_lt hlt)]
    exact ⟨hnone, hall, hlt.trans (Nat.lt_succ_self _)⟩
  · obtain hr | rfl := (hmem r).mp hr
    · exact h₀.exact r hr hc
    · have hnever : turns fired h.nextId = [] := by
        unfold Ledger.turns
        rw [List.filter_eq_nil_iff.mpr fun x hx => by
          have := (h₀.past x hx).2.1
          simp only [decide_eq_true_eq]
          omega]
        rfl
      have hout : awaited due h.nextId = false := List.any_eq_false.mpr fun d hd => by
        have := (h₀.due_lt d hd).1
        simp only [decide_eq_true_eq]
        omega
      rw [hnever, hout, Birth.schedule_birth]
      rfl
  · obtain ⟨hle, hlt, hall⟩ := h₀.past x hx
    exact ⟨hle, hlt.trans (Nat.lt_succ_self _), hall⟩

/-- An id is spent on a duration that is none. -/
theorem skipId (h₀ : Timely h due n born fired cancelled) :
    Timely { h with nextId := h.nextId + 1 } due n born fired cancelled :=
  { h₀ with
    ok := h₀.ok.kept.skipId.toOk
    below := fun r hr => (h₀.below r hr).trans (Nat.lt_succ_self _)
    due_lt := fun d hd => ⟨(h₀.due_lt d hd).1.trans (Nat.lt_succ_self _), (h₀.due_lt d hd).2⟩
    gone := fun id hc => ⟨(h₀.gone id hc).1, (h₀.gone id hc).2.1, (h₀.gone id hc).2.2.trans (Nat.lt_succ_self _)⟩
    past := fun x hx => ⟨(h₀.past x hx).1, (h₀.past x hx).2.1.trans (Nat.lt_succ_self _), (h₀.past x hx).2.2⟩ }

/-- Timers are cancelled. -/
theorem cut (h₀ : Timely h due n born fired cancelled) {ids : List ℕ} (hok : h'.Ok) (hid : h'.nextId = h.nextId)
    (hobject : h'.nextObject = h.nextObject)
    (htimers : ∀ k t, h'.timers.get k = some t ↔ h.timers.get k = some t ∧ k ∉ ids)
    (hcancelled : ∀ o, o ∈ h'.cancelled ↔ o ∈ h.cancelled ∨ ∃ k t, k ∈ ids ∧ h.timers.get k = some t ∧ t.object = o)
    (hids : ∀ k ∈ ids, ∃ r ∈ born, r.id = k) : Timely h' due n born fired (cancelled ++ ids) := by
  have hnot : ∀ {id}, id ∉ cancelled ++ ids → id ∉ cancelled ∧ id ∉ ids := fun h =>
    ⟨fun hc => h (List.mem_append_left _ hc), fun hc => h (List.mem_append_right _ hc)⟩
  refine ⟨hok, hid ▸ h₀.below, h₀.nodup, h₀.sane, fun {k t} hk => h₀.known ((htimers k t).mp hk).1,
    fun {k t} hk => h₀.waiting ((htimers k t).mp hk).1, fun d hd => ?_, fun d hd hc => ?_, ?_, h₀.sorted,
    fun r hr hc => ?_, fun id hc => ?_, fun r hr hc => ?_, h₀.ordered, ?_⟩
  · obtain hc | ⟨t, ht, hrest⟩ := h₀.live d hd
    · exact .inl ((hcancelled _).mpr (.inl hc))
    · by_cases hk : d.id ∈ ids
      · exact .inl ((hcancelled _).mpr (.inr ⟨d.id, t, hk, ht, hrest.1⟩))
      · exact .inr ⟨t, (htimers _ _).mpr ⟨ht, hk⟩, hrest⟩
  · obtain hc | ⟨k, t, hk, ht, hobj⟩ := (hcancelled _).mp hc
    · exact List.mem_append_left _ (h₀.dropped d hd hc)
    · obtain hc | ⟨t', ht', hobj', -⟩ := h₀.live d hd
      · exact List.mem_append_left _ (h₀.dropped d hd hc)
      · obtain rfl := h₀.ok.distinct ht ht' (hobj.trans hobj'.symm)
        exact List.mem_append_right _ hk
  · rw [hid, hobject]
    exact h₀.due_lt
  · obtain ⟨hc, hk⟩ := hnot hc
    exact (h₀.running r hr hc).imp_left fun ⟨t, ht⟩ => ⟨t, (htimers _ _).mpr ⟨ht, hk⟩⟩
  · rw [hid]
    obtain hc | hk := List.mem_append.mp hc
    · obtain ⟨hnone, hall, hlt⟩ := h₀.gone id hc
      refine ⟨Option.eq_none_iff_forall_not_mem.mpr fun t ht => ?_, fun d hd heq => (hcancelled _).mpr (.inl (hall d hd heq)),
        hlt⟩
      rw [((htimers id t).mp ht).1] at hnone
      cases hnone
    · refine ⟨Option.eq_none_iff_forall_not_mem.mpr fun t ht => ((htimers id t).mp ht).2 hk, fun d hd heq => ?_, ?_⟩
      · obtain hc | ⟨t, ht, hobj, -⟩ := h₀.live d hd
        · exact (hcancelled _).mpr (.inl hc)
        · exact (hcancelled _).mpr (.inr ⟨d.id, t, heq ▸ hk, ht, hobj⟩)
      · obtain ⟨r, hr, rfl⟩ := hids id hk
        exact h₀.below r hr
  · exact h₀.exact r hr (hnot hc).1
  · rw [hid]
    exact h₀.past

theorem cancel (h₀ : Timely h due n born fired cancelled) (id : ℕ) :
    Timely (h.cancel id) due n born fired (cancelled ++ (born.map Birth.id).filter (· = id)) := by
  have hids : ∀ k, k ∈ (born.map Birth.id).filter (· = id) ↔ k = id ∧ ∃ r ∈ born, r.id = k := by
    intro k
    rw [List.mem_filter, List.mem_map, decide_eq_true_eq, and_comm]
  have hkept := h₀.ok.kept.cancel id
  unfold TimerHeap.cancel at hkept ⊢
  cases hget : h.timers.get id with
  | none =>
    refine h₀.cut h₀.ok rfl rfl (fun k t => ?_) (fun o => ?_) fun k hk => ((hids k).mp hk).2
    · refine (and_iff_left_of_imp fun ht hk => ?_).symm
      rw [((hids k).mp hk).1, hget] at ht
      cases ht
    · refine (or_iff_left fun ⟨k, t, hk, ht, _⟩ => ?_).symm
      rw [((hids k).mp hk).1, hget] at ht
      cases ht
  | some timer =>
    rw [hget] at hkept
    obtain ⟨r, hr, hrid, -⟩ := h₀.known hget
    refine h₀.cut hkept.toOk rfl rfl (fun k t => ?_) (fun o => ?_) fun k hk => ((hids k).mp hk).2
    · show (h.timers.delete id).get k = some t ↔ _
      rw [OrderedMap.get_delete, hids]
      split_ifs with hk
      · exact iff_of_false (by simp) fun hand => hand.2 ⟨hk, r, hr, hrid.trans hk.symm⟩
      · simp [hk]
    · show o ∈ timer.object :: h.cancelled ↔ _
      rw [List.mem_cons, or_comm]
      refine or_congr_right ⟨?_, ?_⟩
      · rintro rfl
        exact ⟨id, timer, (hids id).mpr ⟨rfl, r, hr, hrid⟩, hget, rfl⟩
      · rintro ⟨k, t, hk, ht, rfl⟩
        rw [((hids k).mp hk).1, hget] at ht
        rw [Option.some.inj ht]

theorem cancelScope (h₀ : Timely h due n born fired cancelled) {host : ScopeId} (hhost : host ≠ noScope) :
    Timely (h.cancelScope host) due n born fired
      (cancelled ++ (born.filter (·.hostScopeId = host)).map Birth.id) := by
  have hids : ∀ {k t}, h.timers.get k = some t →
      (k ∈ (born.filter (·.hostScopeId = host)).map Birth.id ↔ t.hostScopeId = host) := by
    intro k t ht
    obtain ⟨r, hr, hrk, hfits⟩ := h₀.known ht
    rw [List.mem_map]
    constructor
    · rintro ⟨r', hr', hrk'⟩
      obtain ⟨hr', heq⟩ := List.mem_filter.mp hr'
      obtain rfl := List.inj_on_of_nodup_map h₀.nodup hr' hr (hrk'.trans hrk.symm)
      rw [hfits.hostScopeId]
      exact of_decide_eq_true heq
    · intro heq
      exact ⟨r, List.mem_filter.mpr ⟨hr, by simpa [← hfits.hostScopeId] using heq⟩, hrk⟩
  have hkept := h₀.ok.kept.cancelScope host
  unfold TimerHeap.cancelScope at hkept ⊢
  rw [if_neg hhost] at hkept ⊢
  refine h₀.cut hkept.toOk rfl rfl (fun k t => ?_) (fun o => ?_) fun k hk => ?_
  · show (h.timers.filter (fun _ t => t.hostScopeId ≠ host)).get k = some t ↔ _
    rw [OrderedMap.get_filter, Option.filter_eq_some_iff, decide_eq_true_eq]
    exact and_congr_right fun ht => (not_congr (hids ht)).symm
  · show o ∈ ((h.timers.values.filter (fun t => t.hostScopeId = host)).map Timer.object) ++ h.cancelled ↔ _
    rw [List.mem_append, or_comm, List.mem_map]
    refine or_congr_right ⟨?_, ?_⟩
    · rintro ⟨t, ht, rfl⟩
      obtain ⟨hmem, heq⟩ := List.mem_filter.mp ht
      obtain ⟨⟨k, t⟩, hentry, rfl⟩ := List.mem_map.mp hmem
      have hget := (OrderedMap.mem_entries_iff _).mp hentry
      exact ⟨k, t, (hids hget).mpr (of_decide_eq_true heq), hget, rfl⟩
    · rintro ⟨k, t, hk, ht, rfl⟩
      exact ⟨t, List.mem_filter.mpr ⟨List.mem_map.mpr ⟨(k, t), (OrderedMap.mem_entries_iff _).mpr ht, rfl⟩,
        decide_eq_true ((hids ht).mp hk)⟩, rfl⟩
  · obtain ⟨r, hr, rfl⟩ := List.mem_map.mp hk
    exact ⟨r, (List.mem_filter.mp hr).1, rfl⟩

end Timely

/-! ### Runs -/

namespace Ledger

variable {L : Ledger}

/-- Between two calls: at most one advance is under way. -/
structure Steady (L : Ledger) : Prop where
  timely : Timely L.clock.heap L.pending L.advances L.born L.fired L.cancelled
  one : L.clock.due.length ≤ 1

theorem heap_fire (c : Clock) (heap : TimerHeap) (due : List Timer) :
    (c.fire heap due []).heap = (heap.fireDue due).1 ∧
      (c.fire heap due []).due.headD [] = (heap.fireDue due).2.getD [] ∧ (c.fire heap due []).due.length ≤ 1 := by
  unfold Clock.fire
  split <;> rename_i heq <;> rw [heq] <;> simp

/-- A created timer is steady from the start. -/
theorem Steady.created (h : L.Steady) {kind : TimerKind} {seconds : JsNumber} {host : ScopeId}
    (timer : ℤ → ℕ → ℕ → Timer) {heap bad : TimerHeap}
    (hheap : heap = match L.clock.heap.toTicks seconds with | none => bad | some ticks => L.clock.heap.add (timer ticks))
    (hbad : Timely bad L.pending L.advances L.born L.fired L.cancelled)
    (htimer : ∀ ticks object id, (timer ticks object id).object = object ∧ (timer ticks object id).id = id ∧
      (timer ticks object id).kind = kind ∧ (timer ticks object id).hostScopeId = host ∧
      (timer ticks object id).remaining = ticks ∧ (kind ≠ .sleep → (timer ticks object id).fn.isSome = true) ∧
      (kind = .every → (timer ticks object id).interval = ticks)) :
    Timely heap L.pending L.advances (L.born ++ L.bornBy kind seconds host) L.fired L.cancelled := by
  unfold bornBy
  cases hticks : L.clock.heap.toTicks seconds with
  | none =>
    rw [hticks] at hheap
    rw [hheap, List.append_nil]
    exact hbad
  | some ticks =>
    rw [hticks] at hheap
    rw [hheap]
    have hone : 1 ≤ ticks := by
      cases seconds with
      | finite q =>
        obtain rfl := Option.some.inj hticks
        exact le_max_left _ _
      | nan | posInfinity | negInfinity => cases hticks
    obtain ⟨-, -, hkind, hhost, hremaining, hcallback, hinterval⟩ := htimer ticks L.clock.heap.nextObject L.clock.heap.nextId
    refine h.timely.add hone (fun object id => ⟨(htimer ticks object id).1, (htimer ticks object id).2.1⟩) ?_ hremaining
    exact ⟨hkind, hhost, hcallback, hinterval, by omega, fun _ => by simp [hremaining],
      fun _ => by simp [hremaining]⟩

/-- **One call.** -/
theorem Steady.step (h : L.Steady) {e : Clock.Event} (he : L.Calm e) : (L.step e).Steady := by
  cases e with
  | after seconds host owner fn =>
    exact ⟨h.created (fun ticks object id => ⟨object, id, .after, host, ticks, 0, some fn, none, owner⟩) rfl
      h.timely.skipId fun _ _ _ => ⟨rfl, rfl, rfl, rfl, rfl, fun _ => rfl, fun hk => by cases hk⟩, h.one⟩
  | every seconds host owner fn =>
    exact ⟨h.created (fun ticks object id => ⟨object, id, .every, host, ticks, ticks, some fn, none, owner⟩) rfl
      h.timely.skipId fun _ _ _ => ⟨rfl, rfl, rfl, rfl, rfl, fun _ => rfl, fun _ => rfl⟩, h.one⟩
  | sleep seconds host resolve =>
    exact ⟨h.created (fun ticks object id => ⟨object, id, .sleep, host, ticks, 0, none, some resolve, none⟩) rfl
      h.timely fun _ _ _ => ⟨rfl, rfl, rfl, rfl, rfl, fun hk => absurd rfl hk, fun hk => by cases hk⟩, h.one⟩
  | cancel id => exact ⟨h.timely.cancel id, h.one⟩
  | cancelScope host =>
    unfold Ledger.step
    simp only
    split_ifs with hhost
    · have hsame : L.clock.heap.cancelScope host = L.clock.heap := if_pos hhost
      exact ⟨by simpa [Clock.step, hsame, pending] using h.timely, h.one⟩
    · exact ⟨h.timely.cancelScope hhost, h.one⟩
  | advance =>
    have hnone : L.clock.due = [] := he
    have hidle : L.pending = [] := by rw [pending, hnone]; rfl
    have htimely := h.timely
    rw [hidle] at htimely
    obtain ⟨hheap, hdue, hlen⟩ := heap_fire L.clock L.clock.heap.tick L.clock.heap.tick.dueTimers
    have hstep : (L.step .advance).clock = L.clock.fire L.clock.heap.tick L.clock.heap.tick.dueTimers [] := by
      show L.clock.step .advance = _
      rw [Clock.step, hnone]
    refine ⟨?_, by rw [hstep]; exact hlen⟩
    unfold pending
    rw [hstep, hheap, hdue]
    exact htimely.tick.fireDue
  | returned =>
    cases hdue : L.clock.due with
    | nil =>
      have hsame : L.step .returned = L := by
        unfold Ledger.step
        simp only [hdue, Clock.step]
      rw [hsame]
      exact h
    | cons due outer =>
      have houter : outer = [] := by
        have := h.one
        rw [hdue] at this
        exact List.eq_nil_of_length_eq_zero (by simpa using this)
      subst houter
      have htimely := h.timely
      rw [show L.pending = due by rw [pending, hdue]; rfl] at htimely
      obtain ⟨hheap, hnext, hlen⟩ := heap_fire L.clock L.clock.heap due
      have hstep : (L.step .returned).clock = L.clock.fire L.clock.heap due [] := by
        unfold Ledger.step
        simp only [hdue, Clock.step]
      have hfired : (L.step .returned).fired = L.fired ++ (L.clock.heap.fires due).map ((L.advances, ·)) := by
        unfold Ledger.step
        simp only [hdue]
      have hrest : (L.step .returned).advances = L.advances ∧ (L.step .returned).born = L.born ∧
          (L.step .returned).cancelled = L.cancelled := by
        unfold Ledger.step
        simp only [hdue, true_and]
      refine ⟨?_, by rw [hstep]; exact hlen⟩
      unfold pending
      rw [hstep, hheap, hnext, hfired, hrest.1, hrest.2.1, hrest.2.2]
      exact htimely.fireDue

end Ledger

end Grove
