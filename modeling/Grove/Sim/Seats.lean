import Grove.Sim.Moves

/-! # Who sits where

The invariant of the session table: a registered connection is open and is the one its session
names, an admitted player has its own seat, its own host record and its place on the roster, and no
two sessions hold one player (`Seats`). -/

namespace Grove

namespace Sim

/-- Every admitted player has one session, one record and one place on the roster. -/
structure Seats (s : Sim) : Prop where
  keyed : s.rt.hosts.Keyed
  named : ∀ connectionId ref, s.registry.get connectionId = some ref →
    ref < s.next ∧ (s.sessions ref).connectionId = connectionId ∧ (s.sessions ref).closed = false
  fresh : ∀ ref, s.next ≤ ref → (s.sessions ref).player = none ∧ s.history.held ref = none
  seated : ∀ ref player, (s.sessions ref).player = some player →
    (s.sessions ref).closed = false ∧ player.id = (s.sessions ref).playerId ∧ (s.history.held ref).isSome
  hosted : ∀ ref player, (s.sessions ref).player = some player → ∃ rid, s.rt.hosts.get (.player player.id) = some rid
  listed : ∀ ref player, (s.sessions ref).player = some player → player.id ∈ s.rt.playerManager.ids
  apart : ∀ ref ref' player player', (s.sessions ref).player = some player →
    (s.sessions ref').player = some player' → player.id = player'.id → ref = ref'

/-! ### What entering does -/

section enter
variable (s : Sim) (ref : SessionRef) (request : JoinRequest) (handler : List Runtime.Act)

/-- The player an admission makes. -/
def entrant : Player :=
  s.rt.playerManager.fresh (s.sessions ref).playerId (sanitizeName s.config.unicode request.name)

theorem enter_session : ∃ admission, (s.enter ref request handler).sessions = Function.update s.sessions ref
    { s.sessions ref with
      player := some (s.entrant ref request)
      admission := admission
      pendingJoin := some request } := ⟨_, rfl⟩

theorem enter_player (x : SessionRef) : ((s.enter ref request handler).sessions x).player =
    if x = ref then some (s.entrant ref request) else (s.sessions x).player := by
  obtain ⟨admission, h⟩ := enter_session s ref request handler
  rw [h, Function.update_apply]
  split_ifs <;> rfl

/-- An admission changes nothing else of who a session is. -/
theorem enter_standing (x : SessionRef) :
    ((s.enter ref request handler).sessions x).closed = (s.sessions x).closed ∧
      ((s.enter ref request handler).sessions x).identity = (s.sessions x).identity ∧
      ((s.enter ref request handler).sessions x).connectionId = (s.sessions x).connectionId := by
  obtain ⟨admission, h⟩ := enter_session s ref request handler
  rw [h, Function.update_apply]
  split_ifs with hx
  · rw [hx]
    exact ⟨rfl, rfl, rfl⟩
  · exact ⟨rfl, rfl, rfl⟩

theorem enter_rt : (s.enter ref request handler).rt.playerManager =
      s.rt.playerManager.create (s.sessions ref).playerId (sanitizeName s.config.unicode request.name) ∧
    (s.rt.hosts.ensure (.player (s.sessions ref).playerId)).Extends (s.enter ref request handler).rt.hosts :=
  Runtime.joinPlayer_spec s.world (s.sessions ref).playerId (sanitizeName s.config.unicode request.name) handler

end enter

/-! ### What a release does -/

theorem destroyOwned_entities (rt : Runtime) (id : PlayerId) :
    ∃ entities, destroyOwned rt id = { rt with entities := entities } := by
  have hfold : ∀ (ids : List EntityId) (rt : Runtime),
      ∃ entities, ids.foldl (fun rt x => rt.destroy x) rt = { rt with entities := entities } := by
    intro ids
    induction ids with
    | nil => exact fun rt => ⟨rt.entities, rfl⟩
    | cons x ids ih =>
      intro rt
      obtain ⟨entities, h⟩ := ih (rt.destroy x)
      exact ⟨entities, h⟩
  exact hfold _ rt

section release
variable {s : Sim} {ref : SessionRef} (onLeave : List Runtime.Act)

theorem release_of_none (hopen : (s.sessions ref).closed = false) (hout : (s.sessions ref).player = none) :
    s.release ref onLeave = s.shut ref := by
  unfold release
  rw [if_neg (by simp [hopen]), hout]

theorem release_of_player {player : Player} (hopen : (s.sessions ref).closed = false)
    (hin : (s.sessions ref).player = some player) :
    s.release ref onLeave = (s.shut ref).releasePlayer ref player onLeave := by
  unfold release
  rw [if_neg (by simp [hopen]), hin]

/-- The session closed, unregistered and without its player; who the others are is as it was. -/
structure Vacated (s s' : Sim) (ref : SessionRef) : Prop where
  player : ∀ x, (s'.sessions x).player = if x = ref then none else (s.sessions x).player
  closed : ∀ x, (s'.sessions x).closed = if x = ref then true else (s.sessions x).closed
  identity : ∀ x, (s'.sessions x).identity = (s.sessions x).identity
  connectionId : ∀ x, (s'.sessions x).connectionId = (s.sessions x).connectionId
  registry : s'.registry = s.registry.delete (s.sessions ref).connectionId
  next : s'.next = s.next
  held : s'.history.held = s.history.held
  unread : s'.history.unread = s.history.unread
  acked : s'.history.acked = s.history.acked
  handed : s'.history.handed = s.history.handed
  config : s'.config = s.config
  buffer : s'.buffer = s.buffer.dropSession ref

/-- The record is all a captured departure changes. -/
theorem captureDeparture_frame (s : Sim) (ref : SessionRef) (identity : Option PlayerId) (record : Option HostRecord) :
    (s.captureDeparture ref identity record).sessions = s.sessions ∧
      (s.captureDeparture ref identity record).registry = s.registry ∧
      (s.captureDeparture ref identity record).next = s.next ∧
      (s.captureDeparture ref identity record).rt = s.rt ∧
      (s.captureDeparture ref identity record).history.held = s.history.held ∧
      (s.captureDeparture ref identity record).history.unread = s.history.unread ∧
      (s.captureDeparture ref identity record).history.acked = s.history.acked ∧
      (s.captureDeparture ref identity record).history.handed = s.history.handed ∧
      (s.captureDeparture ref identity record).config = s.config ∧
      (s.captureDeparture ref identity record).buffer = s.buffer := by
  unfold captureDeparture
  cases record with
  | none => exact ⟨rfl, rfl, rfl, rfl, rfl, rfl, rfl, rfl, rfl, rfl⟩
  | some record =>
    simp only
    split_ifs
    · exact ⟨rfl, rfl, rfl, rfl, rfl, rfl, rfl, rfl, rfl, rfl⟩
    · exact ⟨rfl, rfl, rfl, rfl, rfl, rfl, rfl, rfl, rfl, rfl⟩

theorem releasePlayer_sessions (s : Sim) (ref : SessionRef) (player : Player) :
    (s.releasePlayer ref player onLeave).sessions =
      Function.update s.sessions ref { s.sessions ref with player := none } :=
  (captureDeparture_frame (s.vacate ref player onLeave) ref (s.sessions ref).identity
    (s.lastRecord player onLeave)).1

theorem releasePlayer_rt (s : Sim) (ref : SessionRef) (player : Player) :
    (s.releasePlayer ref player onLeave).rt = s.departing player onLeave :=
  (captureDeparture_frame (s.vacate ref player onLeave) ref (s.sessions ref).identity
    (s.lastRecord player onLeave)).2.2.2.1

theorem release_vacated (hopen : (s.sessions ref).closed = false) : Vacated s (s.release ref onLeave) ref := by
  have hshut : ∀ x, (s.shut ref).sessions x =
      if x = ref then { s.sessions ref with closed := true } else s.sessions x :=
    fun x => Function.update_apply _ _ _ x
  cases hplayer : (s.sessions ref).player with
  | none =>
    rw [release_of_none onLeave hopen hplayer]
    refine ⟨fun x => ?_, fun x => ?_, fun x => ?_, fun x => ?_, rfl, rfl, rfl, rfl, rfl, rfl, rfl, rfl⟩
    all_goals
      rw [hshut]
      split_ifs with hx
    · exact hplayer
    all_goals first
      | rfl
      | rw [hx]
  | some player =>
    rw [release_of_player onLeave hopen hplayer]
    obtain ⟨-, hreg, hnext, -, hheld, hunread, hacked, hhanded, hconfig, hbuffer⟩ := captureDeparture_frame
      ((s.shut ref).vacate ref player onLeave) ref ((s.shut ref).sessions ref).identity
      ((s.shut ref).lastRecord player onLeave)
    have hsessions : ∀ x, ((s.shut ref).releasePlayer ref player onLeave).sessions x =
        if x = ref then { s.sessions ref with closed := true, player := none } else s.sessions x := by
      intro x
      rw [releasePlayer_sessions, Function.update_apply]
      split_ifs with hx
      · rw [hshut, if_pos rfl]
      · rw [hshut, if_neg hx]
    refine ⟨fun x => ?_, fun x => ?_, fun x => ?_, fun x => ?_, hreg, hnext, hheld, hunread, hacked,
      hhanded, hconfig, hbuffer⟩
    all_goals
      rw [hsessions]
      split_ifs with hx
    all_goals first
      | rfl
      | rw [hx]

/-- The world after a release is the one the leave left. -/
theorem release_rt {player : Player} (hopen : (s.sessions ref).closed = false)
    (hin : (s.sessions ref).player = some player) (hlisted : player.id ∈ s.rt.playerManager.ids) :
    (s.release ref onLeave).rt.playerManager = s.rt.playerManager.remove player.id ∧
      Runtime.Loses s.rt.hosts (s.release ref onLeave).rt.hosts player.id := by
  obtain ⟨entities, hentities⟩ := destroyOwned_entities s.world player.id
  rw [release_of_player onLeave hopen hin, releasePlayer_rt]
  have howned : player.id ∈ (destroyOwned s.world player.id).playerManager.ids := by
    rw [hentities]
    exact hlisted
  have hleave := Runtime.leavePlayer_spec onLeave howned
  rw [hentities] at hleave
  unfold departing
  rw [show destroyOwned (s.shut ref).world player.id = destroyOwned s.world player.id from rfl, hentities]
  exact hleave

end release

/-! ### The invariant -/

section seats
variable {s s' : Sim}

theorem Seats.idle (h : Seats s) (hidle : Idle s s') : Seats s' where
  keyed := hidle.hosts.keyed h.keyed
  named := by
    intro connectionId ref hreg
    rw [hidle.registry] at hreg
    rw [hidle.next, (hidle.sessions ref).connectionId, (hidle.sessions ref).closed]
    exact h.named connectionId ref hreg
  fresh := by
    intro ref hle
    rw [(hidle.sessions ref).player, hidle.held]
    exact h.fresh ref (hidle.next ▸ hle)
  seated := by
    intro ref player hp
    rw [(hidle.sessions ref).player] at hp
    rw [(hidle.sessions ref).closed, (hidle.sessions ref).playerId, hidle.held]
    exact h.seated ref player hp
  hosted := by
    intro ref player hp
    rw [(hidle.sessions ref).player] at hp
    obtain ⟨rid, hrid⟩ := h.hosted ref player hp
    exact ⟨rid, hidle.hosts.player _ rid hrid⟩
  listed := by
    intro ref player hp
    rw [(hidle.sessions ref).player] at hp
    rw [hidle.playerManager]
    exact h.listed ref player hp
  apart := by
    intro ref ref' player player' hp hp'
    rw [(hidle.sessions ref).player] at hp
    rw [(hidle.sessions ref').player] at hp'
    exact h.apart ref ref' player player' hp hp'

/-- A new connection has nobody yet. -/
theorem Seats.opened (h : Seats s) (connectionId : ConnectionId) (identity : Option PlayerId) :
    Seats (s.register connectionId identity) := by
  have hplayer : ∀ ref player,
      (Function.update s.sessions s.next (Session.new connectionId identity s.rt.tick) ref).player = some player →
        ref ≠ s.next ∧ (s.sessions ref).player = some player := by
    intro ref player hp
    rw [Function.update_apply] at hp
    split_ifs at hp with hx
    · cases hp
    · exact ⟨hx, hp⟩
  constructor
  · exact h.keyed
  · intro c ref hreg
    show ref < s.next + 1 ∧ (Function.update s.sessions s.next _ ref).connectionId = c ∧
      (Function.update s.sessions s.next _ ref).closed = false
    change (s.registry.set connectionId s.next).get c = some ref at hreg
    rw [OrderedMap.get_set] at hreg
    split_ifs at hreg with hc
    · obtain rfl := Option.some.inj hreg
      rw [Function.update_self]
      exact ⟨Nat.lt_succ_self _, hc.symm, rfl⟩
    · obtain ⟨hlt, hconn, hopen⟩ := h.named c ref hreg
      rw [Function.update_of_ne (Nat.ne_of_lt hlt)]
      exact ⟨Nat.lt_succ_of_lt hlt, hconn, hopen⟩
  · intro ref hle
    have hlt : s.next < ref := hle
    show (Function.update s.sessions s.next _ ref).player = none ∧ _
    rw [Function.update_of_ne (Nat.ne_of_gt hlt)]
    exact h.fresh ref (Nat.le_of_lt hlt)
  · intro ref player hp
    obtain ⟨hne, hp⟩ := hplayer ref player hp
    show (Function.update s.sessions s.next _ ref).closed = false ∧
      player.id = (Function.update s.sessions s.next _ ref).playerId ∧ _
    rw [Function.update_of_ne hne]
    exact h.seated ref player hp
  · intro ref player hp
    exact h.hosted ref player (hplayer ref player hp).2
  · intro ref player hp
    exact h.listed ref player (hplayer ref player hp).2
  · intro ref ref' player player' hp hp'
    exact h.apart ref ref' player player' (hplayer ref player hp).2 (hplayer ref' player' hp').2

/-- The admission found the id free, so the new player is nobody else's. -/
theorem Seats.entered (h : Seats s) {ref : SessionRef} (request : JoinRequest) (handler : List Runtime.Act)
    (hreg : ∃ connectionId, s.registry.get connectionId = some ref) (hopen : (s.sessions ref).closed = false)
    (hout : (s.sessions ref).player = none)
    (hfree : (s.rt.playerManager.byId (s.sessions ref).playerId).isSome = false) :
    Seats (s.enter ref request handler) := by
  obtain ⟨c, hc⟩ := hreg
  have hlt := (h.named c ref hc).1
  have hstanding := enter_standing s ref request handler
  have hid : ∀ x, ((s.enter ref request handler).sessions x).playerId = (s.sessions x).playerId :=
    fun x => Session.playerId_congr (hstanding x).2.1 (hstanding x).2.2
  obtain ⟨hpm, hhosts⟩ := enter_rt s ref request handler
  have hfresh : (s.sessions ref).playerId ∉ s.rt.playerManager.ids := by
    rw [← PlayerManager.byId_isSome, hfree]
    exact Bool.false_ne_true
  -- a player seated after the entry is the entrant, or was seated before
  have hplayer : ∀ x player, ((s.enter ref request handler).sessions x).player = some player →
      (x = ref ∧ player.id = (s.sessions ref).playerId) ∨ (x ≠ ref ∧ (s.sessions x).player = some player) := by
    intro x player hp
    rw [enter_player] at hp
    split_ifs at hp with hx
    · rw [← Option.some.inj hp]
      exact Or.inl ⟨hx, rfl⟩
    · exact Or.inr ⟨hx, hp⟩
  have hheld : (s.enter ref request handler).history.held =
      Function.update s.history.held ref (some (s.records.has (s.keyOf ref))) := rfl
  constructor
  · exact hhosts.keyed ((HostTable.ensure_extends s.rt.hosts _).keyed h.keyed)
  · intro c' x hx
    rw [(hstanding x).1, (hstanding x).2.2]
    exact h.named c' x hx
  · intro x hle
    have hx : x ≠ ref := Nat.ne_of_gt (lt_of_lt_of_le hlt hle)
    rw [enter_player, if_neg hx, hheld, Function.update_of_ne hx]
    exact h.fresh x hle
  · intro x player hp
    rw [(hstanding x).1, hid, hheld]
    rcases hplayer x player hp with ⟨rfl, he⟩ | ⟨hx, hp⟩
    · rw [Function.update_self]
      exact ⟨hopen, he, rfl⟩
    · rw [Function.update_of_ne hx]
      exact h.seated x player hp
  · intro x player hp
    rcases hplayer x player hp with ⟨rfl, he⟩ | ⟨hx, hp⟩
    · obtain ⟨rid, hrid⟩ := Option.isSome_iff_exists.mp
        (HostTable.isSome_get_ensure s.rt.hosts (.player (s.sessions x).playerId))
      rw [he]
      exact ⟨rid, hhosts.player _ rid hrid⟩
    · obtain ⟨rid, hrid⟩ := h.hosted x player hp
      exact ⟨rid, hhosts.player _ rid ((HostTable.ensure_extends s.rt.hosts _).player _ rid hrid)⟩
  · intro x player hp
    rw [hpm, PlayerManager.ids_create, List.mem_append, List.mem_singleton]
    rcases hplayer x player hp with ⟨rfl, he⟩ | ⟨hx, hp⟩
    · exact Or.inr he
    · exact Or.inl (h.listed x player hp)
  · intro x x' player player' hp hp' hsame
    rcases hplayer x player hp with ⟨hx, he⟩ | ⟨-, hs⟩ <;>
      rcases hplayer x' player' hp' with ⟨hx', he'⟩ | ⟨-, hs'⟩
    · rw [hx, hx']
    · exact absurd (by rw [← he, hsame]; exact h.listed x' player' hs') hfresh
    · exact absurd (by rw [← he', ← hsame]; exact h.listed x player hs) hfresh
    · exact h.apart x x' player player' hs hs' hsame

theorem Seats.released (h : Seats s) {ref : SessionRef} (onLeave : List Runtime.Act)
    (hopen : (s.sessions ref).closed = false) : Seats (s.release ref onLeave) := by
  have hv := release_vacated onLeave hopen
  have hid : ∀ x, ((s.release ref onLeave).sessions x).playerId = (s.sessions x).playerId :=
    fun x => Session.playerId_congr (hv.identity x) (hv.connectionId x)
  have hplayer : ∀ x player, ((s.release ref onLeave).sessions x).player = some player →
      x ≠ ref ∧ (s.sessions x).player = some player := by
    intro x player hp
    rw [hv.player] at hp
    split_ifs at hp with hx
    exact ⟨hx, hp⟩
  -- what is left of the world for the players that stay
  have hworld : (s.rt.hosts.Keyed → (s.release ref onLeave).rt.hosts.Keyed) ∧
      ∀ x player, x ≠ ref → (s.sessions x).player = some player →
        (∃ rid, (s.release ref onLeave).rt.hosts.get (.player player.id) = some rid) ∧
          player.id ∈ (s.release ref onLeave).rt.playerManager.ids := by
    cases hin : (s.sessions ref).player with
    | none =>
      rw [release_of_none onLeave hopen hin]
      exact ⟨fun hk => hk, fun x player _ hp => ⟨h.hosted x player hp, h.listed x player hp⟩⟩
    | some leaving =>
      obtain ⟨hpm, hlost⟩ := release_rt onLeave hopen hin (h.listed ref leaving hin)
      refine ⟨hlost.keyed, fun x player hx hp => ?_⟩
      have hne : player.id ≠ leaving.id := fun he => hx (h.apart x ref player leaving hp hin he)
      obtain ⟨rid, hrid⟩ := h.hosted x player hp
      refine ⟨⟨rid, hlost.player _ rid hne hrid⟩, ?_⟩
      rw [hpm, PlayerManager.mem_ids_remove]
      exact ⟨h.listed x player hp, hne⟩
  constructor
  · exact hworld.1 h.keyed
  · intro c x hreg
    rw [hv.registry, OrderedMap.get_delete] at hreg
    split_ifs at hreg with hc
    obtain ⟨hlt, hconn, hx⟩ := h.named c x hreg
    have hne : x ≠ ref := by
      rintro rfl
      exact hc hconn.symm
    rw [hv.next, hv.connectionId, hv.closed, if_neg hne]
    exact ⟨hlt, hconn, hx⟩
  · intro x hle
    rw [hv.next] at hle
    obtain ⟨hp, hheld⟩ := h.fresh x hle
    rw [hv.player, hv.held, hp, hheld]
    exact ⟨ite_self _, rfl⟩
  · intro x player hp
    obtain ⟨hx, hp⟩ := hplayer x player hp
    rw [hv.closed, if_neg hx, hid, hv.held]
    exact h.seated x player hp
  · intro x player hp
    obtain ⟨hx, hp⟩ := hplayer x player hp
    exact (hworld.2 x player hx hp).1
  · intro x player hp
    obtain ⟨hx, hp⟩ := hplayer x player hp
    exact (hworld.2 x player hx hp).2
  · intro x x' player player' hp hp'
    exact h.apart x x' player player' (hplayer x player hp).2 (hplayer x' player' hp').2

theorem Seats.bounded (h : Seats s) : Bounded s := fun c ref hreg => (h.named c ref hreg).1

theorem Seats.move (h : Seats s) (hmove : Move s s') : Seats s' := by
  cases hmove with
  | idle hidle => exact h.idle hidle
  | entered ref request handler hreg hopen hout hroom hfree => exact h.entered request handler hreg hopen hout hfree
  | released ref onLeave hlt hopen => exact h.released onLeave hopen

theorem Seats.beside (h : Seats s) {call : Call} (hbeside : Beside s call s') : Seats s' := by
  cases hbeside with
  | still => exact h
  | opened connectionId identity => exact h.opened connectionId identity
  | _ => exact ⟨h.keyed, h.named, h.fresh, h.seated, h.hosted, h.listed, h.apart⟩

end seats

theorem seats_new (config : SimConfig) (facadeMembers : HostKey → List String) (simRate : ℚ)
    (visuals : RenderManifest) (boot : List Runtime.Act) : Seats (new config facadeMembers simRate visuals boot) where
  keyed := (Runtime.acts_frame boot _).hosts.keyed (fun _ _ h => by cases h)
  named := fun _ _ h => by cases h
  fresh := fun _ _ => ⟨rfl, rfl⟩
  seated := fun _ _ h => by cases h
  hosted := fun _ _ h => by cases h
  listed := fun _ _ h => by cases h
  apart := fun _ _ _ _ h => by cases h

/-! ### What an index names -/

section turns
open PlayerManager
variable {s s' : Sim} {pm : PlayerManager}

/-- A move turns the roster, or leaves it. -/
theorem Seats.turns (h : Seats s) (hmove : Move s s') :
    Relation.ReflTransGen Turn s.rt.playerManager s'.rt.playerManager := by
  cases hmove with
  | idle hidle => rw [hidle.playerManager]
  | entered ref request handler hreg hopen hout hroom hfree =>
    rw [(enter_rt s ref request handler).1]
    exact .single (.create _ _ hfree)
  | released ref onLeave hlt hopen =>
    cases hin : (s.sessions ref).player with
    | none =>
      rw [release_of_none onLeave hopen hin]
      exact .refl
    | some player =>
      rw [(release_rt onLeave hopen hin (h.listed ref player hin)).1]
      exact .single (.remove _ _)

/-- The roster of a run, from `pm` on. -/
def Turned (pm : PlayerManager) (s : Sim) : Prop := Seats s ∧ Relation.ReflTransGen Turn pm s.rt.playerManager

theorem Turned.step (h : Turned pm s) (call : Call) : Turned pm (s.step call) :=
  step_keeps (fun _ _ h hmove => ⟨h.1.move hmove, h.2.trans (h.1.turns hmove)⟩) h.1.bounded
    (fun s₁ hbeside => ⟨h.1.beside hbeside, by cases hbeside <;> exact h.2⟩)

theorem Turned.exec (h : Seats s) (calls : List Call) : Turned s.rt.playerManager (exec Sim.step s calls) :=
  exec_invariant (fun _ call h => h.step call) ⟨h, .refl⟩ calls

/-- **An index is one player's for good.**  The players of any moment have ids of their own and indices that rise in
join order, and none of them has the index of another player of an earlier moment, gone or not. -/
theorem index_for_good (config : SimConfig) (facadeMembers : HostKey → List String) (simRate : ℚ)
    (visuals : RenderManifest) (boot : List Runtime.Act) (calls rest : List Call) :
    let s := exec Sim.step (new config facadeMembers simRate visuals boot) calls
    let later := (exec Sim.step s rest).rt.playerManager
    later.Numbered ∧ ∀ p' ∈ later.players, (p' ∈ s.rt.playerManager.players ∨ s.rt.playerManager.nextIndex ≤ p'.index) ∧
      ∀ p ∈ s.rt.playerManager.players, p.index = p'.index → p = p' := by
  intro s later
  have hboot : (new config facadeMembers simRate visuals boot).rt.playerManager = .empty :=
    (Runtime.acts_frame boot _).playerManager
  have hs := Turned.exec (seats_new config facadeMembers simRate visuals boot) calls
  have hlater := Turned.exec hs.1 rest
  have hnumbered : ∀ {pm : PlayerManager}, Relation.ReflTransGen Turn .empty pm → pm.Numbered := by
    intro pm hturns
    induction hturns with
    | refl => exact ⟨List.nodup_nil, .nil, nofun⟩
    | tail _ hturn ih => exact ih.turn hturn
  rw [hboot] at hs
  refine ⟨hnumbered (hs.2.trans hlater.2), fun p' hp' => ⟨(onward hlater.2).2 p' hp', fun p hp hindex => ?_⟩⟩
  rcases (onward hlater.2).2 p' hp' with hbefore | hnew
  · have hnodup : (s.rt.playerManager.players.map Player.index).Nodup := List.pairwise_map.mpr ((hnumbered hs.2).rising.imp ne_of_lt)
    exact List.inj_on_of_nodup_map hnodup hp hbefore hindex
  · exact absurd ((hnumbered hs.2).below p hp) (by omega)

end turns

end Sim

end Grove
