import Grove.Sim.Seats

/-! # The registry and the roster

Between any two calls the roster is the players of the registered sessions, each once and never
more than the world takes; the unjoined stay under their cap; and nothing the sim holds is a closed
session's.  The host mints a connection id afresh for every connection (`OpensFresh`); everything
else about the calls is arbitrary. -/

namespace Grove

namespace Sim

/-- No connection is opened under an id still registered. -/
def OpensFresh (s : Sim) : Call → Prop
  | .opened connectionId _ => s.registry.get connectionId = none
  | _ => True

/-- The registry, the roster and the buffer agree. -/
structure Registry (s : Sim) : Prop where
  players : ∀ player, player ∈ s.rt.playerManager.players ↔
    ∃ ref ∈ s.live, (s.sessions ref).livePlayer = some player
  apart : ∀ ref ∈ s.live, ∀ ref' ∈ s.live, ∀ player player', (s.sessions ref).livePlayer = some player →
    (s.sessions ref').livePlayer = some player' → player.id = player'.id → ref = ref'
  capacity : s.rt.playerManager.players.length ≤ s.config.maxPlayers
  unjoined : (s.live.filter (fun ref => !(s.sessions ref).joined)).length ≤ maxUnjoinedConnections
  /-- So no pending join and no held request is a closed session's. -/
  opened : ∀ ref ∈ s.live, (s.sessions ref).closed = false
  frames : ∀ e ∈ s.buffer.waiting, e.session ∈ s.live ∧ (s.sessions e.session).livePlayer.isSome

/-- What carries `Registry` through a run. -/
structure Enrolled (s : Sim) : Prop where
  seats : Seats s
  registered : ∀ ref < s.next, (s.sessions ref).closed = false →
    ∃ connectionId, s.registry.get connectionId = some ref
  rostered : ∀ ref player, (s.sessions ref).player = some player → player ∈ s.rt.playerManager.players
  enrolled : ∀ player ∈ s.rt.playerManager.players, ∃ ref, (s.sessions ref).player = some player
  capacity : s.rt.playerManager.players.length ≤ s.config.maxPlayers
  unjoined : (s.live.filter (fun ref => !(s.sessions ref).joined)).length ≤ maxUnjoinedConnections
  frames : ∀ e ∈ s.buffer.waiting, (∃ connectionId, s.registry.get connectionId = some e.session) ∧
    (s.sessions e.session).player.isSome

section registry
variable {s s' : Sim}

/-- A seated player's session is registered. -/
theorem Enrolled.known (h : Enrolled s) {ref : SessionRef} {player : Player}
    (hp : (s.sessions ref).player = some player) : ∃ connectionId, s.registry.get connectionId = some ref := by
  refine h.registered ref ?_ (h.seats.seated ref player hp).1
  by_contra hge
  rw [(h.seats.fresh ref (Nat.le_of_not_lt hge)).1] at hp
  cases hp

theorem Enrolled.livePlayer (h : Enrolled s) {ref : SessionRef} {player : Player} :
    (s.sessions ref).livePlayer = some player ↔ (s.sessions ref).player = some player := by
  unfold Session.livePlayer
  split_ifs with hclosed
  · constructor
    · intro hnone
      cases hnone
    · intro hp
      rw [(h.seats.seated ref player hp).1] at hclosed
      cases hclosed
  · rfl

theorem Enrolled.registry (h : Enrolled s) : Registry s where
  players := by
    intro player
    constructor
    · intro hp
      obtain ⟨ref, href⟩ := h.enrolled player hp
      exact ⟨ref, mem_live.mpr (h.known href), h.livePlayer.mpr href⟩
    · rintro ⟨ref, -, href⟩
      exact h.rostered ref player (h.livePlayer.mp href)
  apart := by
    intro ref _ ref' _ player player' hp hp' hid
    exact h.seats.apart ref ref' player player' (h.livePlayer.mp hp) (h.livePlayer.mp hp') hid
  capacity := h.capacity
  unjoined := h.unjoined
  opened := by
    intro ref href
    obtain ⟨c, hc⟩ := mem_live.mp href
    exact (h.seats.named c ref hc).2.2
  frames := by
    intro e he
    obtain ⟨hreg, hp⟩ := h.frames e he
    obtain ⟨player, hplayer⟩ := Option.isSome_iff_exists.mp hp
    refine ⟨mem_live.mpr hreg, ?_⟩
    rw [h.livePlayer.mpr hplayer]
    rfl

/-! ### The moves -/

/-- Fewer unjoined: the registry lost entries at most, and nobody left the world but those it lost. -/
theorem unjoined_le (hsub : s'.live.Sublist s.live)
    (hjoined : ∀ ref ∈ s'.live, (s.sessions ref).joined = true → (s'.sessions ref).joined = true) :
    (s'.live.filter (fun ref => !(s'.sessions ref).joined)).length ≤
      (s.live.filter (fun ref => !(s.sessions ref).joined)).length := by
  rw [← List.countP_eq_length_filter, ← List.countP_eq_length_filter]
  refine (List.countP_mono_left (fun ref href hout => ?_)).trans hsub.countP_le
  rw [Bool.not_eq_true'] at hout ⊢
  cases hin : (s.sessions ref).joined with
  | false => rfl
  | true =>
    rw [hjoined ref href hin] at hout
    cases hout

theorem Enrolled.idle (h : Enrolled s) (hidle : Idle s s') : Enrolled s' where
  seats := h.seats.idle hidle
  registered := by
    intro ref hlt hopen
    rw [(hidle.sessions ref).closed] at hopen
    rw [hidle.registry]
    exact h.registered ref (hidle.next ▸ hlt) hopen
  rostered := by
    intro ref player hp
    rw [(hidle.sessions ref).player] at hp
    rw [hidle.playerManager]
    exact h.rostered ref player hp
  enrolled := by
    intro player hp
    rw [hidle.playerManager] at hp
    obtain ⟨ref, href⟩ := h.enrolled player hp
    exact ⟨ref, by rw [(hidle.sessions ref).player]; exact href⟩
  capacity := by
    rw [hidle.playerManager, hidle.config]
    exact h.capacity
  unjoined := by
    have hlive : s'.live = s.live := congrArg OrderedMap.values hidle.registry
    refine (unjoined_le (hlive ▸ List.Sublist.refl _) (fun ref _ hin => ?_)).trans h.unjoined
    unfold Session.joined at hin ⊢
    rw [(hidle.sessions ref).player]
    exact hin
  frames := by
    intro e he
    rw [hidle.registry, (hidle.sessions e.session).player]
    rcases hidle.waiting e he with he | hnew
    · exact h.frames e he
    · exact hnew

/-- The cap was checked before the connection was taken. -/
theorem Enrolled.opened (h : Enrolled s) (connectionId : ConnectionId) (identity : Option PlayerId)
    (hfresh : s.registry.get connectionId = none) (hroom : s.openRefusal identity = none) :
    Enrolled (s.register connectionId identity) := by
  have hkeep : ∀ c ref, s.registry.get c = some ref →
      (s.registry.set connectionId s.next).get c = some ref ∧
        Function.update s.sessions s.next (Session.new connectionId identity s.rt.tick) ref = s.sessions ref := by
    intro c ref hc
    have hne : c ≠ connectionId := by
      rintro rfl
      rw [hfresh] at hc
      cases hc
    exact ⟨by rw [OrderedMap.get_set_of_ne _ hne]; exact hc,
      Function.update_of_ne (Nat.ne_of_lt (h.seats.named c ref hc).1) _ _⟩
  have hplayer : ∀ ref player, ((s.register connectionId identity).sessions ref).player = some player →
      (s.sessions ref).player = some player := by
    intro ref player hp
    change (Function.update s.sessions s.next _ ref).player = some player at hp
    rw [Function.update_apply] at hp
    split_ifs at hp with hx
    · cases hp
    · exact hp
  constructor
  · exact h.seats.opened connectionId identity
  · intro ref hlt hopen
    rcases Nat.lt_succ_iff_lt_or_eq.mp hlt with hlt | rfl
    · change (Function.update s.sessions s.next _ ref).closed = false at hopen
      rw [Function.update_of_ne (Nat.ne_of_lt hlt)] at hopen
      obtain ⟨c, hc⟩ := h.registered ref hlt hopen
      exact ⟨c, (hkeep c ref hc).1⟩
    · exact ⟨connectionId, OrderedMap.get_set_self _ _ _⟩
  · exact fun ref player hp => h.rostered ref player (hplayer ref player hp)
  · intro player hp
    obtain ⟨ref, href⟩ := h.enrolled player hp
    obtain ⟨c, hc⟩ := h.known href
    refine ⟨ref, ?_⟩
    show (Function.update s.sessions s.next _ ref).player = some player
    rw [(hkeep c ref hc).2]
    exact href
  · exact h.capacity
  · have hcap : (s.live.filter (fun ref => !(s.sessions ref).joined)).length < maxUnjoinedConnections := by
      unfold openRefusal at hroom
      simp only at hroom
      split_ifs at hroom with hfull
      exact Nat.lt_of_not_le hfull
    have hlive : (s.register connectionId identity).live = s.live ++ [s.next] := by
      show ((s.registry.set connectionId s.next).entries).map Prod.snd = s.registry.entries.map Prod.snd ++ [s.next]
      rw [show (s.registry.set connectionId s.next).entries = s.registry.entries ++ [(connectionId, s.next)] from
        OrderedMap.setEntries_of_none hfresh]
      rw [List.map_append]
      rfl
    rw [hlive, List.filter_append, List.length_append]
    have hold : s.live.filter (fun ref => !((s.register connectionId identity).sessions ref).joined) =
        s.live.filter (fun ref => !(s.sessions ref).joined) := by
      refine List.filter_congr (fun ref href => ?_)
      obtain ⟨c, hc⟩ := mem_live.mp href
      exact congrArg (fun session => !Session.joined session) (hkeep c ref hc).2
    have hone := List.length_filter_le (fun ref => !((s.register connectionId identity).sessions ref).joined) [s.next]
    rw [hold]
    rw [List.length_singleton] at hone
    omega
  · intro e he
    obtain ⟨⟨c, hc⟩, hp⟩ := h.frames e he
    refine ⟨⟨c, (hkeep c e.session hc).1⟩, ?_⟩
    show (Function.update s.sessions s.next _ e.session).player.isSome
    rw [(hkeep c e.session hc).2]
    exact hp

theorem Enrolled.entered (h : Enrolled s) {ref : SessionRef} (request : JoinRequest) (handler : List Runtime.Act)
    (hreg : ∃ connectionId, s.registry.get connectionId = some ref) (hopen : (s.sessions ref).closed = false)
    (hout : (s.sessions ref).player = none)
    (hroom : s.rt.playerManager.players.length < s.config.maxPlayers)
    (hfree : (s.rt.playerManager.byId (s.sessions ref).playerId).isSome = false) :
    Enrolled (s.enter ref request handler) := by
  have hplayers : (s.enter ref request handler).rt.playerManager.players =
      s.rt.playerManager.players ++ [s.entrant ref request] :=
    congrArg PlayerManager.players (enter_rt s ref request handler).1
  constructor
  · exact h.seats.entered request handler hreg hopen hout hfree
  · intro x hlt hxopen
    rw [(enter_standing s ref request handler x).1] at hxopen
    exact h.registered x hlt hxopen
  · intro x player hp
    rw [enter_player] at hp
    rw [hplayers, List.mem_append, List.mem_singleton]
    split_ifs at hp with hx
    · exact Or.inr (Option.some.inj hp).symm
    · exact Or.inl (h.rostered x player hp)
  · intro player hp
    rw [hplayers, List.mem_append, List.mem_singleton] at hp
    rcases hp with hp | rfl
    · obtain ⟨x, hx⟩ := h.enrolled player hp
      refine ⟨x, ?_⟩
      rw [enter_player, if_neg (fun he => by rw [he, hout] at hx; cases hx)]
      exact hx
    · exact ⟨ref, by rw [enter_player, if_pos rfl]⟩
  · rw [hplayers, List.length_append, List.length_singleton]
    exact hroom
  · have hlive : (s.enter ref request handler).live = s.live := rfl
    refine (unjoined_le (hlive ▸ List.Sublist.refl _) (fun x _ hin => ?_)).trans h.unjoined
    unfold Session.joined at hin ⊢
    rw [enter_player]
    split_ifs
    · rfl
    · exact hin
  · intro e he
    obtain ⟨hc, hp⟩ := h.frames e he
    refine ⟨hc, ?_⟩
    rw [enter_player]
    split_ifs
    · rfl
    · exact hp

theorem Enrolled.released (h : Enrolled s) {ref : SessionRef} (onLeave : List Runtime.Act) (hlt : ref < s.next)
    (hopen : (s.sessions ref).closed = false) : Enrolled (s.release ref onLeave) := by
  have hv := release_vacated onLeave hopen
  obtain ⟨own, hown⟩ := h.registered ref hlt hopen
  have howner := (h.seats.named own ref hown).2.1
  -- a session registered under another id is another session, and stays
  have hreg : ∀ c x, (s.release ref onLeave).registry.get c = some x ↔ s.registry.get c = some x ∧ x ≠ ref := by
    intro c x
    rw [hv.registry, OrderedMap.get_delete, howner]
    by_cases hc : c = own
    · rw [if_pos hc, hc, hown]
      simp [eq_comm]
    · rw [if_neg hc]
      refine ⟨fun hx => ⟨hx, ?_⟩, And.left⟩
      rintro rfl
      exact hc ((h.seats.named c x hx).2.1.symm.trans howner)
  have hplayer : ∀ x player, ((s.release ref onLeave).sessions x).player = some player ↔
      x ≠ ref ∧ (s.sessions x).player = some player := by
    intro x player
    rw [hv.player]
    split_ifs with hx
    · simp [hx]
    · simp [hx]
  -- the roster loses the leaving player
  have hroster : ∀ player, player ∈ (s.release ref onLeave).rt.playerManager.players ↔
      player ∈ s.rt.playerManager.players ∧ ∀ leaving, (s.sessions ref).player = some leaving → player.id ≠ leaving.id := by
    intro player
    cases hin : (s.sessions ref).player with
    | none =>
      rw [release_of_none onLeave hopen hin]
      simp [shut, put]
    | some leaving =>
      rw [(release_rt onLeave hopen hin (h.seats.listed ref leaving hin)).1]
      simp [PlayerManager.remove]
  constructor
  · exact h.seats.released onLeave hopen
  · intro x hx hxopen
    rw [hv.closed] at hxopen
    split_ifs at hxopen with hxr
    obtain ⟨c, hc⟩ := h.registered x (hv.next ▸ hx) hxopen
    exact ⟨c, (hreg c x).mpr ⟨hc, hxr⟩⟩
  · intro x player hp
    obtain ⟨hx, hp⟩ := (hplayer x player).mp hp
    refine (hroster player).mpr ⟨h.rostered x player hp, fun leaving hin he => ?_⟩
    exact hx (h.seats.apart x ref player leaving hp hin he)
  · intro player hp
    obtain ⟨hp, hstays⟩ := (hroster player).mp hp
    obtain ⟨x, hx⟩ := h.enrolled player hp
    refine ⟨x, (hplayer x player).mpr ⟨?_, hx⟩⟩
    rintro rfl
    exact hstays player hx rfl
  · rw [hv.config]
    cases hin : (s.sessions ref).player with
    | none =>
      rw [release_of_none onLeave hopen hin]
      exact h.capacity
    | some leaving =>
      rw [(release_rt onLeave hopen hin (h.seats.listed ref leaving hin)).1]
      exact (List.length_filter_le _ _).trans h.capacity
  · have hsub : (s.release ref onLeave).live.Sublist s.live := by
      unfold live
      rw [hv.registry]
      exact List.Sublist.map _ List.filter_sublist
    refine (unjoined_le hsub (fun x hx hin => ?_)).trans h.unjoined
    obtain ⟨c, hc⟩ := mem_live.mp hx
    unfold Session.joined at hin ⊢
    rw [hv.player, if_neg ((hreg c x).mp hc).2]
    exact hin
  · intro e he
    rw [hv.buffer] at he
    obtain ⟨he, hne⟩ := s.buffer.mem_waiting_dropSession he
    obtain ⟨⟨c, hc⟩, hp⟩ := h.frames e he
    exact ⟨⟨c, (hreg c e.session).mpr ⟨hc, hne⟩⟩, by rw [hv.player, if_neg hne]; exact hp⟩

theorem Enrolled.move (h : Enrolled s) (hmove : Move s s') : Enrolled s' := by
  cases hmove with
  | idle hidle => exact h.idle hidle
  | entered ref request handler hreg hopen hout hroom hfree =>
    exact h.entered request handler hreg hopen hout hroom hfree
  | released ref onLeave hlt hopen => exact h.released onLeave hlt hopen

/-! ### The calls -/

theorem Enrolled.step (h : Enrolled s) {call : Call} (hfresh : OpensFresh s call) : Enrolled (s.step call) := by
  refine step_keeps (fun _ _ h => h.move) h.seats.bounded (fun s₁ hbeside => ?_)
  have hseats := h.seats.beside hbeside
  cases hbeside with
  | still => exact h
  | opened connectionId identity hroom => exact h.opened connectionId identity hfresh hroom
  | saved | filed | noted | taken =>
    -- The records, the orders and the output are none of the registry's business.
    exact ⟨hseats, h.registered, h.rostered, h.enrolled, h.capacity, h.unjoined, h.frames⟩

end registry

/-- **The registry invariant.**  Whatever the calls of a run whose connections are opened under
fresh ids, the registry, the roster and the buffer agree after each. -/
theorem registry_kept (config : SimConfig) (facadeMembers : HostKey → List String) (simRate : ℚ)
    (visuals : RenderManifest) (boot : List Runtime.Act) (calls : List Call)
    (hfresh : Meets Sim.step OpensFresh (new config facadeMembers simRate visuals boot) calls) :
    Registry (exec Sim.step (new config facadeMembers simRate visuals boot) calls) := by
  have hstep : ∀ s call, Enrolled s → OpensFresh s call → Enrolled (Sim.step s call) := fun _ _ h hcond => h.step hcond
  have hplayers : (new config facadeMembers simRate visuals boot).rt.playerManager.players = [] :=
    congrArg PlayerManager.players (Runtime.acts_frame boot _).playerManager
  have hnew : Enrolled (new config facadeMembers simRate visuals boot) := by
    constructor
    · exact seats_new config facadeMembers simRate visuals boot
    · exact fun _ h => absurd h (Nat.not_lt_zero _)
    · exact fun _ _ h => by cases h
    · intro player hp
      rw [hplayers] at hp
      cases hp
    · rw [hplayers]
      exact Nat.zero_le _
    · exact Nat.zero_le _
    · exact fun _ h => by cases h
  exact (Meets.invariant hstep hnew hfresh).registry

instance (s : Sim) : ∀ call, Decidable (OpensFresh s call)
  | .opened connectionId _ => inferInstanceAs (Decidable (s.registry.get connectionId = none))
  | .saved .. | .record .. | .frame .. | .closed .. | .stepOnce .. | .sweepJoinDeadline | .drain .. | .takeOutput
  | .close _ | .declareVisuals _ | .setSimRate _ => inferInstanceAs (Decidable True)

/-- A named and an unnamed peer join; the unnamed one leaves and another takes its place. -/
def comings : List Batch :=
  [{ Batch.quiet with opened := [("c1", some "u"), ("c2", none)], frames := [("c1", some joining, []), ("c2", some joining, [])] },
    { Batch.quiet with records := [("c1", some [], [])], drain := true },
    { Batch.quiet with opened := [("c3", none)], frames := [("c3", some joining, [])], closed := [("c2", [])] }]

theorem registry_kept_comings : Registry (exec Sim.step lobby (batchCalls comings)) ∧
    (exec Sim.step lobby (batchCalls comings)).rt.playerManager.ids = ["u", "c3"] :=
  ⟨registry_kept _ _ _ _ _ (batchCalls comings) (by decide +kernel), by decide +kernel⟩

end Sim

end Grove
