import Grove.Core.Minting
import Grove.Sim.HierarchyRuns
import Grove.Sim.Slots

/-! # The placed world

What `loadGame` of `packages/core/src/runtime/load-game.ts` builds.  An instantiation names only what it has minted
itself, and is one group of engine calls, whatever ends it (`instantiate_acts`); a load is then a run of acts, which the
strictest replica follows (`load_replays`). -/

namespace Grove
namespace Runtime

/-- A script to attach: its class and what is recorded of its instance. -/
abbrev Attachment := ScriptClass × ScriptInstance

def attachToGame : List Attachment → Runtime → Runtime × Option LoadError
  | [], rt => (rt, none)
  | (klass, inst) :: rest, rt =>
    match rt.attach .game klass inst with
    | (rt, some err) => (rt, some err)
    | (rt, none) => attachToGame rest rt

/-- The scripts of the game, then the placed world. -/
def loadGame (rt : Runtime) (gameScripts : List Attachment) (templates : TemplateRegistry Attachment)
    (entities : List (PlacedEntity Attachment)) : Runtime × Option (InstantiateError LoadError) :=
  match attachToGame gameScripts rt with
  | (rt, some err) => (rt, some (.refused err))
  | (rt, none) =>
    match calls.instantiatePlaced templates maxTemplateNodes rt OrderedMap.empty entities with
    | (rt, .error err) => (rt, some err)
    | (rt, .ok _) => (rt, none)

def Op.isSpawn : Op → Bool
  | .spawn _ _ _ _ => true
  | _ => false

/-! ### Calls in order -/

/-- Calls with `n` spawns lead from `rt₀` to `rt`; none throws, and each names what is there. -/
def Goes (v : View) (rt₀ : Runtime) (n : ℕ) (rt : Runtime) : Prop :=
  ∃ ops, ops.countP Op.isSpawn = n ∧ ∀ more, stepAll (ops ++ more) rt₀ = stepAll more rt ∧
    (OpsMeet (fun rt op => op.Names v rt) more rt → OpsMeet (fun rt op => op.Names v rt) (ops ++ more) rt₀)

/-- The same, but the last may throw. -/
def Ends (v : View) (rt₀ : Runtime) (n : ℕ) (rt : Runtime) : Prop :=
  ∃ ops, ops.countP Op.isSpawn = n ∧ stepAll ops rt₀ = rt ∧ OpsMeet (fun rt op => op.Names v rt) ops rt₀

section calls
variable {v : View} {rt₀ rt rt' rt'' : Runtime} {n : ℕ}

theorem Goes.refl (v : View) (rt : Runtime) : Goes v rt 0 rt := ⟨[], rfl, fun _ => ⟨rfl, fun h => h⟩⟩

theorem Goes.ends (h : Goes v rt₀ n rt) : Ends v rt₀ n rt := by
  obtain ⟨ops, hcount, hops⟩ := h
  rw [← List.append_nil ops] at hcount
  exact ⟨ops ++ [], hcount, (hops []).1, (hops []).2 trivial⟩

theorem Goes.call (h : Goes v rt₀ n rt) (op : Op) (hnames : op.Names v rt) :
    bif (rt.step op).2 then Ends v rt₀ (n + [op].countP Op.isSpawn) (rt.step op).1
    else Goes v rt₀ (n + [op].countP Op.isSpawn) (rt.step op).1 := by
  obtain ⟨ops, rfl, hops⟩ := h
  rcases hstep : rt.step op with ⟨rt', _ | _⟩
  · refine ⟨ops ++ [op], List.countP_append, fun more => ?_⟩
    have hone : stepAll (op :: more) rt = stepAll more rt' := by rw [stepAll, hstep]
    rw [List.append_assoc]
    refine ⟨(hops _).1.trans hone, fun hmore => (hops _).2 ⟨hnames, fun _ => ?_⟩⟩
    rw [hstep]
    exact hmore
  · have hone : stepAll [op] rt = rt' := by rw [stepAll, hstep]
    refine ⟨ops ++ [op], List.countP_append, (hops _).1.trans hone, (hops _).2 ⟨hnames, fun hok => ?_⟩⟩
    rw [hstep] at hok
    cases hok

theorem Goes.write {α : Type} (h : Goes v rt₀ n rt) (field : Option α) (op : α → Op) (f : α → SimTransformStore)
    (hop : ∀ a, (op a).isSpawn = false ∧ (op a).Names v rt ∧ rt.step (op a) = ({ rt with transforms := f a }, false)) :
    Goes v rt₀ n { rt with transforms := field.elim rt.transforms f } := by
  cases field with
  | none => exact h
  | some a =>
    obtain ⟨hspawn, hnames, hstep⟩ := hop a
    have hcall := h.call (op a) hnames
    rw [hstep, List.countP_singleton, hspawn] at hcall
    exact hcall

theorem Goes.applyTransform (h : Goes v rt₀ n rt) (id : EntityId) (t : EntityTransform) : Goes v rt₀ n (rt.applyTransform id t) := by
  let c := rt.transforms.cells (handleIndex id)
  have h := h.write t.z (Op.setPosition id c.posX c.posY) _ fun _ => ⟨rfl, trivial, rfl⟩
  have h := h.write t.rotation (Op.setRotation id) _ fun _ => ⟨rfl, trivial, rfl⟩
  have h := h.write t.scale (Op.setScale id) _ fun _ => ⟨rfl, trivial, rfl⟩
  have h := h.write t.opacity (Op.setOpacity id) _ fun _ => ⟨rfl, trivial, rfl⟩
  exact h.write t.layer (Op.setLayer id) _ fun _ => ⟨rfl, trivial, rfl⟩

/-- What is minted is there, and the calls that name it name nothing else. -/
theorem keeps_calls (v : View) (rt₀ : Runtime) :
    calls.Keeps (fun name => v.tags = true → isSay name = false) (Goes v rt₀)
      (fun n rt id => Goes v rt₀ n rt ∧ (rt.entities.record id).isSome) (Ends v rt₀) where
  ends := Goes.ends
  forget h := h.1
  spawn {n rt} template x y ownerId h := by
    have hcall := h.call (.spawn template x y ownerId) trivial
    simp only [step, calls] at hcall ⊢
    cases hspawn : rt.spawn template x y ownerId with
    | error err =>
      rw [hspawn] at hcall
      exact hcall
    | ok spawned =>
      obtain ⟨id, rt'⟩ := spawned
      rw [hspawn] at hcall
      refine ⟨hcall, ?_⟩
      unfold Runtime.spawn at hspawn
      split at hspawn
      · cases hspawn
      · rename_i hcreate
        obtain ⟨rfl, rfl⟩ := Prod.mk.inj (Except.ok.inj hspawn)
        show (Entities.record _ _).isSome
        rw [Entities.record_create hcreate, if_pos rfl]
        rfl
  applyTransform {n rt id} t h := ⟨h.1.applyTransform id t, h.2⟩
  attachToEntity {n rt id} attachment h := by
    have hcall := h.1.call (.attachToEntity id attachment.1 attachment.2) fun _ _ => h.2
    have hkept := (attachToEntity_sameSlots rt id attachment.1 attachment.2).isSome id
    simp only [step, calls] at hcall ⊢
    rcases hattach : rt.attachToEntity id attachment.1 attachment.2 with ⟨rt', _ | err⟩
    · rw [hattach] at hcall hkept
      exact ⟨hcall, hkept.trans h.2⟩
    · rw [hattach] at hcall
      exact hcall
  tag {n rt id name} hplain h := ⟨h.1.call (.tag id name) ⟨hplain, fun _ _ => h.2⟩, h.2⟩
  attachTo {n rt} id parent h := by
    have hcall := h.call (.attachTo id parent) trivial
    simp only [step, calls] at hcall ⊢
    cases hmove : rt.attachTo id parent with
    | error | ok =>
      rw [hmove] at hcall
      exact hcall

/-! ### Acts in order -/

/-- Acts lead from `rt` to `rt'`: none makes more spawns than an instantiation may, and each call names what is there. -/
def Acts (v : View) (maxNodes : WithTop ℕ) (rt rt' : Runtime) : Prop :=
  ∃ as, rt' = rt.acts as ∧ (∀ a ∈ as, WorldCalls.Within maxNodes (a.ops.countP Op.isSpawn)) ∧
    Meets act (ActMeets fun rt op => op.Names v rt) rt as

variable {templates : TemplateRegistry Attachment} {maxNodes : WithTop ℕ}

theorem Acts.trans (h : Acts v maxNodes rt rt') (h' : Acts v maxNodes rt' rt'') : Acts v maxNodes rt rt'' := by
  obtain ⟨as, rfl, hwithin, hmeets⟩ := h
  obtain ⟨as', rfl, hwithin', hmeets'⟩ := h'
  refine ⟨as ++ as', List.foldl_append.symm, fun a ha => ?_, Meets.append.mpr ⟨hmeets, hmeets'⟩⟩
  exact (List.mem_append.mp ha).elim (hwithin a) (hwithin' a)

theorem Acts.op (op : Op) (hnames : op.Names v rt) : Acts v maxNodes rt (rt.step op).1 := by
  refine ⟨[.op op], rfl, fun a ha => ?_, hnames, trivial⟩
  obtain rfl := List.mem_singleton.mp ha
  have hone : [op].countP Op.isSpawn ≤ 1 := List.countP_le_length
  exact le_max_of_le_left (WithTop.coe_le_coe.mpr hone)

/-- Calls outside a group are acts of their own, up to the one that throws. -/
theorem acts_of_ops : ∀ (ops : List Op) {rt : Runtime}, OpsMeet (fun rt op => op.Names v rt) ops rt →
    Acts v maxNodes rt (stepAll ops rt)
  | [], _, _ => ⟨[], rfl, fun _ ha => by simp at ha, trivial⟩
  | op :: ops, rt, h => by
    have hop : Acts v maxNodes rt (rt.step op).1 := Acts.op op h.1
    have hrest := h.2
    unfold stepAll
    split
    next rt' heq =>
      rw [heq] at hop hrest
      exact hop.trans (acts_of_ops ops (hrest rfl))
    next rt' heq =>
      rw [heq] at hop
      exact hop

theorem Ends.acts (h : Ends v rt n rt') : Acts v maxNodes rt rt' := by
  obtain ⟨ops, -, rfl, hnames⟩ := h
  exact acts_of_ops ops hnames

/-- What an instantiation does inside its group is one group of calls, wherever it ends. -/
theorem mint_group (rt : Runtime) (template : String) (opts : InstantiateOptions Attachment)
    (htags : ∀ tag ∈ opts.tags, v.tags = true → isSay tag = false) :
    ∃ ops : List Op, WorldCalls.Within maxNodes (ops.countP Op.isSpawn) ∧
      ActMeets (fun rt op => op.Names v rt) rt (.group ops) ∧
      calls.endGroup (calls.mint templates maxNodes (calls.beginGroup rt) template opts).1 = rt.act (.group ops) := by
  have hmint : ∃ n, WorldCalls.Within maxNodes n ∧ Ends v (calls.beginGroup rt) n
      (calls.mint templates maxNodes (calls.beginGroup rt) template opts).1 :=
    (keeps_calls v _).mint template opts htags (Goes.refl v _)
  obtain ⟨n, hn, ops, rfl, hops, hnames⟩ := hmint
  refine ⟨ops, hn, hnames, ?_⟩
  rw [← hops]
  rfl

/-- An instantiation, refused or not, is one group, or a spawn and what places it. -/
theorem instantiate_acts (rt : Runtime) (template : String) (opts : InstantiateOptions Attachment)
    (htags : ∀ tag ∈ opts.tags, v.tags = true → isSay tag = false) :
    Acts v maxNodes rt (calls.instantiate templates maxNodes rt template opts).1 := by
  unfold WorldCalls.instantiate
  split_ifs
  · have hspawn := (keeps_calls v rt).spawnNode template opts.x opts.y opts.ownerId opts.transform (Goes.refl v rt)
    split
    next rt' err heq =>
      rw [heq] at hspawn
      exact hspawn.acts
    next rt' root heq =>
      rw [heq] at hspawn
      exact hspawn.1.ends.acts
  · obtain ⟨ops, hwithin, hnames, hgroup⟩ := mint_group rt template opts htags
    exact ⟨[.group ops], hgroup, fun a ha => List.mem_singleton.mp ha ▸ hwithin, hnames, trivial⟩

theorem instantiatePlaced_acts : ∀ (records : List (PlacedEntity Attachment)) (rt : Runtime) (minted : OrderedMap String EntityId),
    (∀ record ∈ records, ∀ tag ∈ record.tags, v.tags = true → isSay tag = false) →
    Acts v maxNodes rt (calls.instantiatePlaced templates maxNodes rt minted records).1
  | [], rt, _, _ => acts_of_ops [] trivial
  | record :: rest, rt, minted, htags => by
    have hrest := fun r hr => htags r (List.mem_cons_of_mem record hr)
    have hmade : Acts v maxNodes rt (calls.instantiate templates maxNodes rt (record.template.getD "")
        ⟨some ((record.transform.bind EntityTransform.x).getD (.finite 0)),
          some ((record.transform.bind EntityTransform.y).getD (.finite 0)), none, record.tags, record.scripts,
          record.transform⟩).1 := instantiate_acts rt _ _ (htags record List.mem_cons_self)
    unfold WorldCalls.instantiatePlaced
    simp only
    split
    next rt₁ err heq =>
      rw [heq] at hmade
      exact hmade
    next rt₁ entity heq =>
      rw [heq] at hmade
      split
      next => exact hmade.trans (instantiatePlaced_acts rest rt₁ _ hrest)
      next parent _ =>
        have hmoved : Acts v maxNodes rt₁ (rt₁.step (.attachTo entity parent)).1 := Acts.op _ trivial
        simp only [step] at hmoved
        simp only [calls]
        split at hmoved <;> rename_i hmove <;> rw [hmove]
        · exact hmade.trans (hmoved.trans (instantiatePlaced_acts rest _ _ hrest))
        · exact hmade

theorem attachToGame_acts (v : View) : ∀ (scripts : List Attachment) (rt : Runtime), Acts v maxNodes rt (attachToGame scripts rt).1
  | [], rt => acts_of_ops [] trivial
  | (klass, inst) :: rest, rt => by
    have hattach : Acts v maxNodes rt (rt.attach .game klass inst).1 := Acts.op (.attach .game klass inst) trivial
    unfold attachToGame
    rcases hcall : rt.attach .game klass inst with ⟨rt', _ | err⟩ <;> rw [hcall] at hattach
    · exact hattach.trans (attachToGame_acts v rest rt')
    · exact hattach

theorem loadGame_acts (rt : Runtime) (gameScripts : List Attachment) (templates : TemplateRegistry Attachment)
    (entities : List (PlacedEntity Attachment))
    (htags : ∀ record ∈ entities, ∀ tag ∈ record.tags, v.tags = true → isSay tag = false) :
    Acts v maxTemplateNodes rt (rt.loadGame gameScripts templates entities).1 := by
  have hattached : Acts v maxTemplateNodes rt (attachToGame gameScripts rt).1 := attachToGame_acts v gameScripts rt
  unfold loadGame
  rcases hcall : attachToGame gameScripts rt with ⟨rt₁, _ | err⟩ <;> rw [hcall] at hattached
  · have hplaced : Acts v maxTemplateNodes rt₁
        (calls.instantiatePlaced templates maxTemplateNodes rt₁ OrderedMap.empty entities).1 := instantiatePlaced_acts entities rt₁ _ htags
    dsimp only
    rcases hcall : calls.instantiatePlaced templates maxTemplateNodes rt₁ OrderedMap.empty entities with ⟨rt₂, err | minted⟩ <;>
      rw [hcall] at hplaced <;> exact hattached.trans hplaced
  · exact hattached

end calls

theorem forest_new (v : View) (persisted : Option SessionRecords) (facadeMembers : HostKey → List String) (simRate : ℚ) :
    (new persisted facadeMembers simRate).forest v = World.nothing := by
  have hnone : ∀ x, (new persisted facadeMembers simRate).entities.record x = none := Entities.record_empty
  ext1
  · funext x
    exact forest_node_of_none (hnone x)
  · ext x
    show (Entities.record _ x).isSome = true ↔ False
    rw [hnone]
    simp

/-- **A load.**  Whatever its manifest declares, and wherever a refusal ends it, it does what acts do, each within the bound
on one instantiation; what stands is a forest, no group is open, and the strictest replica, from nothing, follows the
journal to it. -/
theorem load_replays (v : View) (persisted : Option SessionRecords) (facadeMembers : HostKey → List String) (simRate : ℚ)
    (gameScripts : List Attachment) (templates : TemplateRegistry Attachment) (entities : List (PlacedEntity Attachment))
    (htags : ∀ record ∈ entities, ∀ tag ∈ record.tags, v.tags = true → isSay tag = false) :
    let start := new persisted facadeMembers simRate
    let rt := (start.loadGame gameScripts templates entities).1
    (∃ as, rt = start.acts as ∧ ∀ a ∈ as, a.ops.countP Op.isSpawn ≤ maxTemplateNodes) ∧
      rt.entities.Coherent ∧ rt.channels.group = none ∧
      World.nothing.run (edits v rt.channels.journal) = some (rt.forest v) := by
  intro start rt
  obtain ⟨as, hacts, hwithin, hnames⟩ := loadGame_acts start gameScripts templates entities htags
  obtain ⟨hs, js, hadvances⟩ := acts_advances as (new_sound v persisted facadeMembers simRate) hnames
  rw [← show rt = start.acts as from hacts] at hs hadvances
  refine ⟨⟨as, hacts, fun a ha => WorldCalls.within_maxTemplateNodes.mp (hwithin a ha)⟩, hs.linked.coherent, hs.group.mpr hadvances.depth, ?_⟩
  rw [← forest_new v persisted facadeMembers simRate, show rt.channels.journal = js from hadvances.journal]
  exact hadvances.replay

/-- A wall of the map. -/
theorem load_replays_wall :
    let rt := ((new none (fun _ => []) 60).loadGame [] ⟨OrderedMap.empty, nofun⟩ [⟨"a", none, none, none, ["wall"], []⟩]).1
    World.nothing.run (edits ⟨true, true⟩ rt.channels.journal) = some (rt.forest ⟨true, true⟩) :=
  (load_replays ⟨true, true⟩ none (fun _ => []) 60 [] ⟨OrderedMap.empty, nofun⟩ [⟨"a", none, none, none, ["wall"], []⟩]
    (by decide)).2.2.2

/-! ### One entry -/

/-- While a group is open, nothing comes to the queue. -/
def Open (rt rt' : Runtime) : Prop := rt'.channels.structural = rt.channels.structural ∧ rt'.channels.group.isSome

theorem mark_open {rt rt' : Runtime} (h : rt.channels.group.isSome) (op : SingleStructuralOp)
    (hc : rt'.channels = rt.channels.markStructural op) : Open rt rt' := by
  obtain ⟨ops, hops⟩ := Option.isSome_iff_exists.mp h
  rw [Open, hc, ReplicationChannels.markStructural, hops]
  exact ⟨rfl, rfl⟩

theorem Calm.open {rt rt' : Runtime} (hc : Calm rt rt') (h : rt.channels.group.isSome) : Open rt rt' :=
  ⟨hc.structural, hc.group ▸ h⟩

theorem step_open (rt : Runtime) (op : Op) (h : rt.channels.group.isSome) : Open rt (rt.step op).1 := by
  cases op with
  | spawn template x y ownerId =>
    simp only [step, spawn]
    cases rt.entities.create template ownerId with
    | error err => exact ⟨rfl, h⟩
    | ok created => exact mark_open h _ rfl
  | attachTo id parent =>
    simp only [step, attachTo]
    rcases rt.entities.attachTo id parent with err | _ | entities
    · exact ⟨rfl, h⟩
    · exact ⟨rfl, h⟩
    · exact mark_open h _ rfl
  | detach id =>
    simp only [step, detach]
    split
    · exact ⟨rfl, h⟩
    · exact mark_open h _ rfl
  | tag | untag | bubble => exact mark_open h _ rfl
  | writeState rid field v => exact (writeState_calm rt rid field v).open h
  | attachToEntity id klass inst =>
    have hc := attach_calm rt (.entity id) klass inst
    simp only [step, attachToEntity]
    rcases hcall : rt.attach (.entity id) klass inst with ⟨rt', _ | err⟩ <;> rw [hcall] at hc
    · cases inst.script with
      | none => exact hc.open h
      | some script =>
        have hmark : Open rt' (rt'.markStructural (.attach id script inst.props)) := mark_open (hc.open h).2 _ rfl
        exact ⟨hmark.1.trans hc.structural, hmark.2⟩
    · exact hc.open h
  | attach key klass inst => exact (attach_calm rt key klass inst).open h
  | _ => exact ⟨rfl, h⟩

theorem stepAll_open (ops : List Op) (rt : Runtime) : rt.channels.group.isSome → Open rt (stepAll ops rt) := by
  refine stepAll_chain (R := fun rt rt' => rt.channels.group.isSome → Open rt rt') (fun _ h => ⟨rfl, h⟩) ?_ step_open ops rt
  intro _ _ _ h h' hgroup
  have hopen := h hgroup
  exact ⟨(h' hopen.2).1.trans hopen.1, (h' hopen.2).2⟩

/-- A group comes to the queue as one entry, or none. -/
theorem group_once {rt : Runtime} (h : rt.channels.groupDepth = 0) (ops : List Op) : ∃ entry : List StructuralOp,
    entry.length ≤ 1 ∧ (rt.act (.group ops)).channels.structural = rt.channels.structural ++ entry := by
  have hopen : Open { rt with channels := rt.channels.beginGroup } _ := stepAll_open ops _ (by simp [ReplicationChannels.beginGroup, h])
  have hkept := hopen.1
  simp only [act, ReplicationChannels.endGroup]
  split_ifs
  · exact ⟨[], Nat.zero_le 1, by rw [hkept, List.append_nil]; rfl⟩
  · exact ⟨[], Nat.zero_le 1, by rw [List.append_nil]; exact hkept⟩
  · refine ⟨_, ?_, congrArg (· ++ _) hkept⟩
    split <;> simp

theorem spawnNode_once {rt : Runtime} (h : rt.channels.group = none) (template : String) (x y : Option JsNumber)
    (ownerId : Option String) (transform : Option EntityTransform) : ∃ entry : List StructuralOp, entry.length ≤ 1 ∧
      (calls.spawnNode rt template x y ownerId transform).1.channels.structural = rt.channels.structural ++ entry := by
  simp only [WorldCalls.spawnNode, calls, Runtime.spawn]
  cases rt.entities.create template (ownerId.getD "") with
  | error err => exact ⟨[], Nat.zero_le 1, (List.append_nil _).symm⟩
  | ok created =>
    refine ⟨[.single (.spawn created.1 template)], le_rfl, ?_⟩
    have hmark : (rt.channels.markStructural (.spawn created.1 template)).structural =
        rt.channels.structural ++ [.single (.spawn created.1 template)] := by rw [ReplicationChannels.markStructural, h]
    cases transform <;> exact hmark

/-- **An instantiation at any moment of any run**, accepted or refused half way, takes the world where a longer run takes it, by
acts within the bound, and what it journals is one entry at most, which crosses the wire whole. -/
theorem instantiate_once (persisted : Option SessionRecords) (facadeMembers : HostKey → List String) (simRate : ℚ)
    (run : List Draining.Call) (templates : TemplateRegistry Attachment) (template : String) (opts : InstantiateOptions Attachment) :
    let s := exec Draining.step (Draining.start persisted facadeMembers simRate) run
    let rt := (calls.instantiate templates maxTemplateNodes s.rt template opts).1
    (∃ as : List Act, (∀ a ∈ as, a.ops.countP Op.isSpawn ≤ maxTemplateNodes) ∧ exec Draining.step s (as.map .act) = { s with rt := rt }) ∧
      rt.channels.group = none ∧
      ∃ entry : List StructuralOp, entry.length ≤ 1 ∧ rt.channels.structural = s.rt.channels.structural ++ entry := by
  intro s rt
  obtain ⟨hs, hadvances⟩ := Draining.reached persisted facadeMembers simRate run
  have hdepth : s.rt.channels.groupDepth = 0 := hadvances.depth
  have hplain : ∀ tag ∈ opts.tags, bare.tags = true → isSay tag = false := fun _ _ h => by cases h
  obtain ⟨as, hacts, hwithin, -⟩ : Acts bare maxTemplateNodes s.rt rt := instantiate_acts s.rt template opts hplain
  obtain ⟨hs', js, hadvances'⟩ := Draining.run_advances (as.map .act) hs
  rw [Draining.exec_acts, ← hacts] at hs' hadvances'
  refine ⟨⟨as, fun a ha => WorldCalls.within_maxTemplateNodes.mp (hwithin a ha), by rw [Draining.exec_acts, ← hacts]⟩,
    hs'.group.mpr (hadvances'.depth.trans hdepth), ?_⟩
  show ∃ entry, _ ∧ (calls.instantiate templates maxTemplateNodes s.rt template opts).1.channels.structural = _
  unfold WorldCalls.instantiate
  split_ifs
  · obtain ⟨entry, hlength, hentry⟩ := spawnNode_once (hs.group.mpr hdepth) template opts.x opts.y opts.ownerId opts.transform
    refine ⟨entry, hlength, ?_⟩
    rw [← hentry]
    split
    next heq => rw [heq]
    next heq => rw [heq]
  · obtain ⟨ops, -, -, hgroup⟩ : ∃ ops : List Op, _ ∧ _ ∧
        calls.endGroup (calls.mint templates maxTemplateNodes (calls.beginGroup s.rt) template opts).1 = s.rt.act (.group ops) :=
      mint_group s.rt template opts hplain
    show ∃ entry : List StructuralOp, _ ∧ (calls.endGroup _).channels.structural = _
    rw [hgroup]
    exact group_once hdepth ops

end Runtime
end Grove
