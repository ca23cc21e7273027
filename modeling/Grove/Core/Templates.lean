import Grove.Core.Runtime
import Grove.Project.Closing

/-! # Templates

`packages/core/src/world/templates.ts`: the registry, and the instantiation of a template as one journaled group.
The calls that an instantiation makes on its world are taken apart from it (`WorldCalls`), since what it builds
depends on them only through what they answer; `Runtime.calls` is the runtime's own.  A call that throws leaves the
world as it left it.  `maxNodes` is the bound on the entities of one instantiation; `⊤` leaves it out. -/

namespace Grove

/-- Entities one instantiation may mint. -/
def maxTemplateNodes : ℕ := 256

/-- A placement, every field of it optional. -/
structure EntityTransform where
  x : Option JsNumber
  y : Option JsNumber
  z : Option JsNumber
  rotation : Option JsNumber
  scale : Option JsNumber
  opacity : Option JsNumber
  layer : Option JsNumber
deriving DecidableEq

structure TemplateChild where
  template : String
  transform : Option EntityTransform
deriving DecidableEq

/-- A template: what to attach to each instance, and what to mint below. -/
structure TemplateDef (κ : Type) where
  id : String
  scripts : List κ
  children : List TemplateChild

/-- The templates a world can spawn, by id. -/
structure TemplateRegistry (κ : Type) where
  byId : OrderedMap String (TemplateDef κ)
  named : ∀ {id d}, byId.get id = some d → d.id = id

structure InstantiateOptions (κ : Type) where
  x : Option JsNumber
  y : Option JsNumber
  ownerId : Option String
  tags : List String
  scripts : List κ
  transform : Option EntityTransform

structure PlacedEntity (κ : Type) where
  id : String
  template : Option String
  parent : Option String
  transform : Option EntityTransform
  tags : List String
  scripts : List κ

/-- Why an instantiation threw; `ε` is why a call on the world did. -/
inductive InstantiateError (ε : Type) where
  | refused (err : ε)
  | nestsDeeper (id : String)
  | mintsMore (id : String)
deriving DecidableEq

/-- The calls an instantiation makes on a world. -/
structure WorldCalls (σ κ ε : Type) where
  spawn : σ → String → JsNumber → JsNumber → String → σ × Except ε EntityId
  /-- Every authored field but `x` and `y`. -/
  applyTransform : σ → EntityId → EntityTransform → σ
  attachToEntity : σ → EntityId → κ → σ × Option ε
  attachTo : σ → EntityId → EntityId → σ × Option ε
  tag : σ → EntityId → String → σ
  /-- The owner a live record names, or the empty string. -/
  ownerId : σ → EntityId → String
  beginGroup : σ → σ
  endGroup : σ → σ

namespace TemplateRegistry

variable {κ : Type}

/-- A repeated id is fatal. -/
def from_ : List (TemplateDef κ) → TemplateRegistry κ → Except String (TemplateRegistry κ)
  | [], r => .ok r
  | d :: rest, r =>
    if r.byId.has d.id then .error ("two templates claim the id \"" ++ d.id ++ "\"")
    else
      from_ rest
        { byId := r.byId.set d.id d
          named := fun {id d'} h => by
            rw [OrderedMap.get_set] at h
            split_ifs at h with hid
            · rw [← Option.some.inj h, hid]
            · exact r.named h }

def get (r : TemplateRegistry κ) (id : String) : Option (TemplateDef κ) := r.byId.get id

/-- What `readTemplates` collects of a manifest's templates. -/
def childTable (r : TemplateRegistry κ) : ChildTable := r.byId.map fun _ d => d.children.map TemplateChild.template

end TemplateRegistry

namespace WorldCalls

variable {σ κ ε : Type} (w : WorldCalls σ κ ε) (templates : TemplateRegistry κ) (maxNodes : WithTop ℕ)

def spawnNode (s : σ) (template : String) (x y : Option JsNumber) (ownerId : Option String)
    (transform : Option EntityTransform) : σ × Except ε EntityId :=
  match w.spawn s template (x.getD (.finite 0)) (y.getD (.finite 0)) (ownerId.getD "") with
  | (s, .error err) => (s, .error err)
  | (s, .ok id) =>
    match transform with
    | none => (s, .ok id)
    | some transform => (w.applyTransform s id transform, .ok id)

def attachAll (s : σ) (id : EntityId) : List κ → σ × Option ε
  | [] => (s, none)
  | attachment :: rest =>
    match w.attachToEntity s id attachment with
    | (s, some err) => (s, some err)
    | (s, none) => attachAll s id rest

/-- The scripts of the template a child names. -/
def scriptsOf (template : String) : List κ := (templates.get template).elim [] TemplateDef.scripts

mutual

/-- Mints what hangs beneath an entity; `minted` is the budget spent. -/
def mintChildren (s : σ) (parent : EntityId) (d : TemplateDef κ) (depth minted : ℕ) :
    σ × Except (InstantiateError ε) ℕ :=
  if d.children.length = 0 then (s, .ok minted)
  else if h : maxTemplateDepth ≤ depth then (s, .error (.nestsDeeper d.id))
  else mintEach s parent (w.ownerId s parent) d d.children depth (Nat.lt_of_not_le h) minted
termination_by (2 * (maxTemplateDepth - depth) + 1, 0)

def mintEach (s : σ) (parent : EntityId) (ownerId : String) (d : TemplateDef κ) (children : List TemplateChild)
    (depth : ℕ) (hdepth : depth < maxTemplateDepth) (minted : ℕ) : σ × Except (InstantiateError ε) ℕ :=
  match children with
  | [] => (s, .ok minted)
  | child :: rest =>
    if maxNodes < ((minted + 1 : ℕ) : WithTop ℕ) then (s, .error (.mintsMore d.id))
    else
      match w.spawnNode s child.template (child.transform.bind EntityTransform.x) (child.transform.bind EntityTransform.y)
          (some ownerId) child.transform with
      | (s, .error err) => (s, .error (.refused err))
      | (s, .ok entity) =>
        match w.attachAll s entity (scriptsOf templates child.template) with
        | (s, some err) => (s, .error (.refused err))
        | (s, none) =>
          -- after the scripts, so the reparent op follows this node's own attach ops
          match w.attachTo s entity parent with
          | (s, some err) => (s, .error (.refused err))
          | (s, none) =>
            match templates.get child.template with
            | none => mintEach s parent ownerId d rest depth hdepth (minted + 1)
            | some childDef =>
              match mintChildren s entity childDef (depth + 1) (minted + 1) with
              | (s, .error err) => (s, .error err)
              | (s, .ok minted) => mintEach s parent ownerId d rest depth hdepth minted
termination_by (2 * (maxTemplateDepth - depth), children.length)

end

/-- What an instantiation does inside its group. -/
def mint (s : σ) (template : String) (opts : InstantiateOptions κ) : σ × Except (InstantiateError ε) EntityId :=
  match w.spawnNode s template opts.x opts.y opts.ownerId opts.transform with
  | (s, .error err) => (s, .error (.refused err))
  | (s, .ok root) =>
    match w.attachAll s root (scriptsOf templates template) with
    | (s, some err) => (s, .error (.refused err))
    | (s, none) =>
      match w.attachAll s root opts.scripts with
      | (s, some err) => (s, .error (.refused err))
      | (s, none) =>
        let s := opts.tags.foldl (fun s tag => w.tag s root tag) s
        match templates.get template with
        | none => (s, .ok root)
        | some d =>
          match w.mintChildren templates maxNodes s root d 1 1 with
          | (s, .error err) => (s, .error err)
          | (s, .ok _) => (s, .ok root)

/-- Mints a template's whole subtree and answers its root. -/
def instantiate (s : σ) (template : String) (opts : InstantiateOptions κ) : σ × Except (InstantiateError ε) EntityId :=
  if (templates.get template).isNone ∧ opts.scripts.length = 0 ∧ opts.tags.length = 0 then
    match w.spawnNode s template opts.x opts.y opts.ownerId opts.transform with
    | (s, .error err) => (s, .error (.refused err))
    | (s, .ok root) => (s, .ok root)
  else
    let minted := w.mint templates maxNodes (w.beginGroup s) template opts
    (w.endGroup minted.1, minted.2)

/-- Builds the placed world a manifest declares, parents before children. -/
def instantiatePlaced (s : σ) (minted : OrderedMap String EntityId) :
    List (PlacedEntity κ) → σ × Except (InstantiateError ε) (OrderedMap String EntityId)
  | [] => (s, .ok minted)
  | record :: rest =>
    let opts : InstantiateOptions κ :=
      { x := some ((record.transform.bind EntityTransform.x).getD (.finite 0))
        y := some ((record.transform.bind EntityTransform.y).getD (.finite 0))
        ownerId := none
        tags := record.tags
        scripts := record.scripts
        transform := record.transform }
    match w.instantiate templates maxNodes s (record.template.getD "") opts with
    | (s, .error err) => (s, .error err)
    | (s, .ok entity) =>
      let minted := minted.set record.id entity
      match record.parent.bind minted.get with
      | none => instantiatePlaced s minted rest
      | some parent =>
        match w.attachTo s entity parent with
        | (s, some err) => (s, .error (.refused err))
        | (s, none) => instantiatePlaced s minted rest

end WorldCalls

/-! ### The runtime's calls -/

namespace Runtime

variable (rt : Runtime)

/-- The authored fields written one by one. -/
def applyTransform (id : EntityId) (transform : EntityTransform) : Runtime :=
  let t := rt.transforms
  let t := transform.z.elim t fun z => t.setPosition id (t.cells (handleIndex id)).posX (t.cells (handleIndex id)).posY z
  let t := transform.rotation.elim t (t.setRotation id)
  let t := transform.scale.elim t (t.setScale id)
  let t := transform.opacity.elim t (t.setOpacity id)
  let t := transform.layer.elim t (t.setLayer id)
  { rt with transforms := t }

/-- The calls of a runtime; an attachment is a class and what is recorded of its instance. -/
def calls : WorldCalls Runtime (ScriptClass × ScriptInstance) LoadError where
  spawn rt template x y ownerId :=
    match rt.spawn template x y ownerId with
    | .error err => (rt, .error err)
    | .ok (id, rt) => (rt, .ok id)
  applyTransform rt id transform := rt.applyTransform id transform
  attachToEntity rt id attachment := rt.attachToEntity id attachment.1 attachment.2
  attachTo rt id parent :=
    match rt.attachTo id parent with
    | .error err => (rt, some err)
    | .ok rt => (rt, none)
  tag rt id name := rt.tag id name
  ownerId rt id := (rt.entities.record id).elim "" EntityRecord.ownerId
  beginGroup rt := { rt with channels := rt.channels.beginGroup }
  endGroup rt := { rt with channels := rt.channels.endGroup }

end Runtime
end Grove
