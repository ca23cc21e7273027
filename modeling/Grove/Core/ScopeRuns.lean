import Grove.Core.ScopeTree

/-! # The scope tree's indexes

An invocation of an existing host is in both indexes while it is alive, and a dead one is in neither.  Every way an
invocation ends takes a set of invocations out of the live ones and out of both indexes (`Ended`). -/

namespace Grove
namespace ScopeTree

variable {t t' t'' : ScopeTree} {id hostId : ScopeId} {s : InvocationScope}

/-- The invocation is not dead. -/
def Live (t : ScopeTree) (id : ScopeId) (s : InvocationScope) : Prop := t.scope id = some s ∧ s.dead = false

/-- **The indexes agree.** -/
structure IndexesAgree (t : ScopeTree) : Prop where
  live : ∀ {id s l}, t.scope id = some s → s.dead = false → t.hostScopes.get s.hostId = some l →
    id ∈ l ∧ id ∈ t.invocations
  dead : ∀ {id s}, t.scope id = some s → s.dead = true →
    id ∉ t.invocations ∧ ∀ {h l}, t.hostScopes.get h = some l → id ∉ l

/-- Ids are below the next one, and each index holds live invocations, all of those of an existing host. -/
structure Ok (t : ScopeTree) : Prop where
  fresh : ∀ {id s}, t.Live id s → id < t.nextId ∧ s.hostId < t.nextId
  hosts : ∀ {h l}, t.hostScopes.get h = some l → h < t.nextId
  listed : ∀ {id s l}, t.Live id s → t.hostScopes.get s.hostId = some l → id ∈ l ∧ id ∈ t.invocations
  members : ∀ {h l id}, t.hostScopes.get h = some l → id ∈ l → ∃ s, t.Live id s ∧ s.hostId = h
  invocations : ∀ {id}, id ∈ t.invocations → ∃ s, t.Live id s

theorem Ok.agree (h : t.Ok) : t.IndexesAgree := by
  refine ⟨fun hs hdead hl => h.listed ⟨hs, hdead⟩ hl, fun {id s} hs hdead => ⟨fun hmem => ?_, fun hl hmem => ?_⟩⟩
  · obtain ⟨s', hs', hdead'⟩ := h.invocations hmem
    rw [hs] at hs'
    cases hs'
    rw [hdead] at hdead'
    cases hdead'
  · obtain ⟨s', ⟨hs', hdead'⟩, -⟩ := h.members hl hmem
    rw [hs] at hs'
    cases hs'
    rw [hdead] at hdead'
    cases hdead'

theorem ok_createHostScope (h : t.Ok) : t.createHostScope.2.Ok := by
  have hget : ∀ {k l}, t.createHostScope.2.hostScopes.get k = some l →
      k = t.nextId ∧ l = [] ∨ k ≠ t.nextId ∧ t.hostScopes.get k = some l := by
    intro k l hl
    change (t.hostScopes.set t.nextId []).get k = some l at hl
    rw [OrderedMap.get_set] at hl
    by_cases hk : k = t.nextId
    · rw [if_pos hk] at hl
      exact Or.inl ⟨hk, (Option.some.inj hl).symm⟩
    · rw [if_neg hk] at hl
      exact Or.inr ⟨hk, hl⟩
  constructor
  case fresh =>
    intro id s hs
    obtain ⟨hid, hhost⟩ := h.fresh hs
    exact ⟨Nat.lt_succ_of_lt hid, Nat.lt_succ_of_lt hhost⟩
  case hosts =>
    intro k l hl
    rcases hget hl with ⟨rfl, -⟩ | ⟨-, hl⟩
    · exact Nat.lt_succ_self _
    · exact Nat.lt_succ_of_lt (h.hosts hl)
  case listed =>
    intro id s l hs hl
    rcases hget hl with ⟨hhost, -⟩ | ⟨-, hl⟩
    -- A live invocation's host was made before.
    · exact absurd (h.fresh hs).2 (by rw [hhost]; exact lt_irrefl _)
    · exact h.listed hs hl
  case members =>
    intro k l id hl hmem
    rcases hget hl with ⟨-, rfl⟩ | ⟨-, hl⟩
    · exact absurd hmem List.not_mem_nil
    · exact h.members hl hmem
  case invocations => exact fun hmem => h.invocations hmem

/-- The invocation that `createInvocation` makes. -/
def made (t : ScopeTree) (hostId : ScopeId) (tick : ℤ) (key : ConcurrencyKey) (owner : Option GuardOwner) : InvocationScope :=
  ⟨t.nextId, hostId, tick, owner, false, key⟩

section

variable (hostId : ScopeId) (tick : ℤ) (key : ConcurrencyKey) (owner : Option GuardOwner)

theorem live_createInvocation (h : t.Ok) :
    (t.createInvocation hostId tick key owner).2.Live id s ↔
      id = t.nextId ∧ s = t.made hostId tick key owner ∨ t.Live id s := by
  have hscope : (t.createInvocation hostId tick key owner).2.scope id =
      if id = t.nextId then some (t.made hostId tick key owner) else t.scope id := rfl
  unfold Live
  rw [hscope]
  by_cases hid : id = t.nextId
  · rw [if_pos hid]
    have hold : ¬ t.Live id s := fun hs => absurd (h.fresh hs).1 (by rw [hid]; exact lt_irrefl _)
    constructor
    · rintro ⟨hs, -⟩
      exact Or.inl ⟨hid, (Option.some.inj hs).symm⟩
    · rintro (⟨-, rfl⟩ | hs)
      · exact ⟨rfl, rfl⟩
      · exact absurd hs hold
  · rw [if_neg hid]
    exact ⟨Or.inr, fun hs => hs.resolve_left (fun e => hid e.1)⟩

theorem get_createInvocation (k : ScopeId) :
    (t.createInvocation hostId tick key owner).2.hostScopes.get k =
      if k = hostId then (t.hostScopes.get k).map (· ++ [t.nextId]) else t.hostScopes.get k := by
  unfold createInvocation
  simp only
  by_cases hk : k = hostId
  · subst hk
    rw [if_pos rfl]
    cases hget : t.hostScopes.get k with
    | none => exact hget
    | some l => exact OrderedMap.get_set_self _ _ _
  · rw [if_neg hk]
    cases t.hostScopes.get hostId with
    | none => rfl
    | some l => exact OrderedMap.get_set_of_ne _ hk _

theorem ok_createInvocation (h : t.Ok) (hhost : hostId < t.nextId) : (t.createInvocation hostId tick key owner).2.Ok := by
  have hinv : (t.createInvocation hostId tick key owner).2.invocations = t.invocations ++ [t.nextId] := rfl
  have hnext : (t.createInvocation hostId tick key owner).2.nextId = t.nextId + 1 := rfl
  constructor
  case fresh =>
    intro id s hs
    rw [hnext]
    rcases (live_createInvocation hostId tick key owner h).mp hs with ⟨rfl, rfl⟩ | hs
    · exact ⟨Nat.lt_succ_self _, Nat.lt_succ_of_lt hhost⟩
    · exact ⟨Nat.lt_succ_of_lt (h.fresh hs).1, Nat.lt_succ_of_lt (h.fresh hs).2⟩
  case hosts =>
    intro k l hl
    rw [hnext]
    rw [get_createInvocation] at hl
    by_cases hk : k = hostId
    · rw [hk]
      exact Nat.lt_succ_of_lt hhost
    · rw [if_neg hk] at hl
      exact Nat.lt_succ_of_lt (h.hosts hl)
  case listed =>
    intro id s l hs hl
    rw [get_createInvocation] at hl
    rw [hinv]
    rcases (live_createInvocation hostId tick key owner h).mp hs with ⟨rfl, rfl⟩ | hs
    · rw [if_pos (show (t.made hostId tick key owner).hostId = hostId from rfl)] at hl
      obtain ⟨l₀, -, rfl⟩ := Option.map_eq_some_iff.mp hl
      simp
    · by_cases hk : s.hostId = hostId
      · rw [if_pos hk] at hl
        obtain ⟨l₀, hl₀, rfl⟩ := Option.map_eq_some_iff.mp hl
        obtain ⟨hmem, hmem'⟩ := h.listed hs hl₀
        exact ⟨List.mem_append_left _ hmem, List.mem_append_left _ hmem'⟩
      · rw [if_neg hk] at hl
        obtain ⟨hmem, hmem'⟩ := h.listed hs hl
        exact ⟨hmem, List.mem_append_left _ hmem'⟩
  case members =>
    intro k l id hl hmem
    rw [get_createInvocation] at hl
    by_cases hk : k = hostId
    · rw [if_pos hk] at hl
      obtain ⟨l₀, hl₀, rfl⟩ := Option.map_eq_some_iff.mp hl
      rcases List.mem_append.mp hmem with hmem | hmem
      · obtain ⟨s, hs, hs'⟩ := h.members hl₀ hmem
        exact ⟨s, (live_createInvocation hostId tick key owner h).mpr (Or.inr hs), hs'⟩
      · rw [List.mem_singleton.mp hmem]
        exact ⟨_, (live_createInvocation hostId tick key owner h).mpr (Or.inl ⟨rfl, rfl⟩), hk.symm⟩
    · rw [if_neg hk] at hl
      obtain ⟨s, hs, hs'⟩ := h.members hl hmem
      exact ⟨s, (live_createInvocation hostId tick key owner h).mpr (Or.inr hs), hs'⟩
  case invocations =>
    intro id hmem
    rw [hinv] at hmem
    rcases List.mem_append.mp hmem with hmem | hmem
    · obtain ⟨s, hs⟩ := h.invocations hmem
      exact ⟨s, (live_createInvocation hostId tick key owner h).mpr (Or.inr hs)⟩
    · rw [List.mem_singleton.mp hmem]
      exact ⟨_, (live_createInvocation hostId tick key owner h).mpr (Or.inl ⟨rfl, rfl⟩)⟩

end

/-! ### Ending invocations -/

/-- The invocations `K` are no longer live, and in neither index; hosts may be gone. -/
structure Ended (K : ScopeId → Prop) (t t' : ScopeTree) : Prop where
  nextId : t'.nextId = t.nextId
  live : ∀ {id s}, t'.Live id s ↔ t.Live id s ∧ ¬ K id
  hosts : ∀ {h l'}, t'.hostScopes.get h = some l' → ∃ l, t.hostScopes.get h = some l ∧ ∀ i, i ∈ l' ↔ i ∈ l ∧ ¬ K i
  invocations : ∀ {h l'} {i}, t'.hostScopes.get h = some l' → i ∈ l' → i ∈ t.invocations → i ∈ t'.invocations
  left : ∀ {i}, i ∈ t'.invocations → i ∈ t.invocations ∧ ¬ K i

theorem Ended.refl (t : ScopeTree) : Ended (fun _ => False) t t :=
  ⟨rfl, by simp, fun h => ⟨_, h, by simp⟩, fun _ _ h => h, fun h => ⟨h, id⟩⟩

theorem Ended.ok {K : ScopeId → Prop} (he : Ended K t t') (h : t.Ok) : t'.Ok := by
  constructor
  case fresh =>
    intro id s hs
    rw [he.nextId]
    exact h.fresh (he.live.mp hs).1
  case hosts =>
    intro k l hl
    obtain ⟨l₀, hl₀, -⟩ := he.hosts hl
    rw [he.nextId]
    exact h.hosts hl₀
  case listed =>
    intro id s l hs hl
    obtain ⟨hs, hK⟩ := he.live.mp hs
    obtain ⟨l₀, hl₀, hmem⟩ := he.hosts hl
    obtain ⟨hin, hin'⟩ := h.listed hs hl₀
    have hin := (hmem id).mpr ⟨hin, hK⟩
    exact ⟨hin, he.invocations hl hin hin'⟩
  case members =>
    intro k l id hl hmem
    obtain ⟨l₀, hl₀, hiff⟩ := he.hosts hl
    obtain ⟨hmem, hK⟩ := (hiff id).mp hmem
    obtain ⟨s, hs, hhost⟩ := h.members hl₀ hmem
    exact ⟨s, he.live.mpr ⟨hs, hK⟩, hhost⟩
  case invocations =>
    intro id hmem
    obtain ⟨hmem, hK⟩ := he.left hmem
    obtain ⟨s, hs⟩ := h.invocations hmem
    exact ⟨s, he.live.mpr ⟨hs, hK⟩⟩

theorem Ended.trans {K K' : ScopeId → Prop} (he : Ended K t t') (he' : Ended K' t' t'') :
    Ended (fun i => K i ∨ K' i) t t'' := by
  constructor
  case nextId => exact he'.nextId.trans he.nextId
  case live =>
    intro id s
    rw [he'.live, he.live, not_or, and_assoc]
  case hosts =>
    intro k l hl
    obtain ⟨l', hl', hiff'⟩ := he'.hosts hl
    obtain ⟨l₀, hl₀, hiff⟩ := he.hosts hl'
    refine ⟨l₀, hl₀, fun i => ?_⟩
    rw [hiff', hiff, not_or, and_assoc]
  case invocations =>
    intro k l i hl hi hmem
    obtain ⟨l', hl', hiff'⟩ := he'.hosts hl
    exact he'.invocations hl hi (he.invocations hl' ((hiff' i).mp hi).1 hmem)
  case left =>
    intro i hmem
    obtain ⟨hmem, hK'⟩ := he'.left hmem
    obtain ⟨hmem, hK⟩ := he.left hmem
    exact ⟨hmem, not_or.mpr ⟨hK, hK'⟩⟩

theorem live_markDead {id' : ScopeId} : (t.markDead id).Live id' s ↔ t.Live id' s ∧ ¬ id' = id := by
  unfold Live markDead
  dsimp only
  by_cases hid : id' = id
  · rw [if_pos hid]
    constructor
    · rintro ⟨hs, hdead⟩
      obtain ⟨s₀, -, rfl⟩ := Option.map_eq_some_iff.mp hs
      cases hdead
    · exact fun hs => absurd hid hs.2
  · rw [if_neg hid]
    simp [hid]

/-- Dead already or unknown, nothing happens. -/
theorem endInvocation_dead (hdead : ∀ s, ¬ t.Live id s) : t.endInvocation id = t := by
  unfold endInvocation
  split
  · rfl
  · rename_i s hs
    cases hd : s.dead with
    | true => rfl
    | false => exact absurd ⟨hs, hd⟩ (hdead s)

theorem dropFromHost_scope (t : ScopeTree) (hostId id : ScopeId) : (t.dropFromHost hostId id).scope = t.scope ∧
    (t.dropFromHost hostId id).nextId = t.nextId ∧ (t.dropFromHost hostId id).invocations = t.invocations := by
  unfold dropFromHost
  split <;> exact ⟨rfl, rfl, rfl⟩

theorem get_dropFromHost (t : ScopeTree) (hostId id k : ScopeId) : (t.dropFromHost hostId id).hostScopes.get k =
    if k = hostId then (t.hostScopes.get k).map (fun l => l.filter (· ≠ id)) else t.hostScopes.get k := by
  unfold dropFromHost
  by_cases hk : k = hostId
  · subst hk
    rw [if_pos rfl]
    cases hget : t.hostScopes.get k with
    | none => exact hget
    | some l => exact OrderedMap.get_set_self _ _ _
  · rw [if_neg hk]
    cases t.hostScopes.get hostId with
    | none => rfl
    | some l => exact OrderedMap.get_set_of_ne _ hk _

theorem ended_endInvocation (h : t.Ok) (id : ScopeId) : Ended (· = id) t (t.endInvocation id) := by
  by_cases hlive : ∃ s, t.Live id s
  · obtain ⟨s, hs, hdead⟩ := hlive
    have hend : t.endInvocation id = ((t.markDead id).dropFromHost s.hostId id).dropInvocation id := by
      unfold endInvocation
      rw [hs]
      simp [hdead]
    obtain ⟨hscope, hnext, hinv⟩ := (t.markDead id).dropFromHost_scope s.hostId id
    have hget : ∀ k, ((t.markDead id).dropFromHost s.hostId id).hostScopes.get k =
        if k = s.hostId then (t.hostScopes.get k).map (fun l => l.filter (· ≠ id)) else t.hostScopes.get k :=
      (t.markDead id).get_dropFromHost s.hostId id
    rw [hend]
    constructor
    case nextId => exact hnext
    case live =>
      intro id' s'
      have hsame : (((t.markDead id).dropFromHost s.hostId id).dropInvocation id).Live id' s' ↔ (t.markDead id).Live id' s' := by
        unfold Live dropInvocation
        rw [hscope]
      rw [hsame, live_markDead]
    case hosts =>
      intro k l hl
      change ((t.markDead id).dropFromHost s.hostId id).hostScopes.get k = some l at hl
      rw [hget] at hl
      by_cases hk : k = s.hostId
      · rw [if_pos hk] at hl
        obtain ⟨l₀, hl₀, rfl⟩ := Option.map_eq_some_iff.mp hl
        exact ⟨l₀, hl₀, by simp⟩
      · rw [if_neg hk] at hl
        refine ⟨l, hl, fun i => ⟨fun hi => ⟨hi, ?_⟩, And.left⟩⟩
        -- It is in no other host's list.
        rintro rfl
        obtain ⟨s', ⟨hs', -⟩, hhost⟩ := h.members hl hi
        rw [hs] at hs'
        cases hs'
        exact hk hhost.symm
    case invocations =>
      intro k l i hl hi hmem
      change ((t.markDead id).dropFromHost s.hostId id).hostScopes.get k = some l at hl
      rw [hget] at hl
      show i ∈ List.filter _ _
      rw [hinv]
      refine List.mem_filter.mpr ⟨hmem, ?_⟩
      simp only [ne_eq, decide_not, Bool.not_eq_true', decide_eq_false_iff_not]
      by_cases hk : k = s.hostId
      · rw [if_pos hk] at hl
        obtain ⟨l₀, -, rfl⟩ := Option.map_eq_some_iff.mp hl
        simpa using (List.mem_filter.mp hi).2
      · rw [if_neg hk] at hl
        rintro rfl
        obtain ⟨s', ⟨hs', -⟩, hhost⟩ := h.members hl hi
        rw [hs] at hs'
        cases hs'
        exact hk hhost.symm
    case left =>
      intro i hmem
      change i ∈ ((t.markDead id).dropFromHost s.hostId id).invocations.filter (· ≠ id) at hmem
      rw [hinv] at hmem
      obtain ⟨hmem, hne⟩ := List.mem_filter.mp hmem
      exact ⟨hmem, of_decide_eq_true hne⟩
  · rw [endInvocation_dead (fun s hs => hlive ⟨s, hs⟩)]
    refine ⟨rfl, fun {id' s} => ?_, fun hl => ⟨_, hl, fun i => ?_⟩, fun _ _ hmem => hmem, fun {i} hmem => ⟨hmem, ?_⟩⟩
    · exact ⟨fun hs => ⟨hs, fun e => hlive ⟨s, e ▸ hs⟩⟩, And.left⟩
    · refine ⟨fun hi => ⟨hi, ?_⟩, And.left⟩
      rintro rfl
      obtain ⟨s, hs, -⟩ := h.members hl hi
      exact hlive ⟨s, hs⟩
    · rintro rfl
      exact hlive (h.invocations hmem)

theorem foldl_markDead (l : List ScopeId) (t : ScopeTree) :
    (l.foldl markDead t).nextId = t.nextId ∧ ∀ {id s}, (l.foldl markDead t).Live id s → t.Live id s := by
  induction l generalizing t with
  | nil => exact ⟨rfl, id⟩
  | cons id l ih =>
    obtain ⟨hnext, hlive⟩ := ih (t.markDead id)
    exact ⟨hnext, fun hs => (live_markDead.mp (hlive hs)).1⟩

theorem live_clear (hs : t.clear.Live id s) : t.Live id s :=
  (foldl_markDead (t.hostScopes.entries.map Prod.snd).flatten t).2 hs

/-- No host exists afterwards, so no invocation has to be in an index. -/
theorem ok_clear (h : t.Ok) : t.clear.Ok := by
  have hnext : t.clear.nextId = t.nextId := (foldl_markDead (t.hostScopes.entries.map Prod.snd).flatten t).1
  have hget : ∀ {k l}, t.clear.hostScopes.get k ≠ some l := nofun
  refine ⟨fun hs => ?_, fun hl => absurd hl hget, fun _ hl => absurd hl hget, fun hl => absurd hl hget,
    fun hmem => absurd hmem List.not_mem_nil⟩
  rw [hnext]
  exact h.fresh (live_clear hs)

/-! ### Finding a running invocation -/

end ScopeTree
end Grove
