import Grove.Core.Numbers
import Grove.Render.NodeStore
import Grove.Render.Runs

/-! # The renderer's core

`core/renderer-core.ts` over its two stores and a backend: the records (`NodeStore`), the transforms (`Transforms`,
the tree of `TransformStore` with the lanes it resolves nothing of), and a `SceneSink` that takes calls and answers
sizes and surface visibility.  A function with a loop of the transform store in it is `none` when that loop has not
ended; one that throws answers its error, and what it had done stays. -/

namespace Grove.Render

/-! ### What a caller passes -/

structure Vec3Like where
  x : JsNumber
  y : JsNumber
  z : Option JsNumber := none

/-- The transform fields a create and a patch both carry. -/
structure TransformFields where
  position : Option Vec3Like := none
  rotation : Option JsNumber := none
  scale : Option Vec3Like := none
  anchor : Option Vec3Like := none
  alpha : Option JsNumber := none
  visible : Option Bool := none
  tint : Option JsNumber := none

structure NodeDesc extends TransformFields where
  kind : NodeKind
  surface : Option Surface := none
  texture : String := ""
  text : String := ""
  style : Option TextStyle := none
  uiAnchor : Option UiAnchor := none
  layer : Option JsNumber := none
  neverCull : Option Bool := none
  parent : Option NodeId := none

/-- A patch without its `id` and `parent`. -/
structure PatchFields extends TransformFields where
  layer : Option JsNumber := none
  texture : Option String := none
  text : Option String := none

structure NodePatch extends PatchFields where
  id : NodeId
  parent : Option NodeId := none

structure CameraInput where
  x : JsNumber
  y : JsNumber
  zoom : JsNumber
  framing : Option Framing := none

structure CoreConfig where
  design : Size JsNumber
  canvas : Size JsNumber
  scaleMode : ScaleMode
  letterbox : Bool
  cullMargin : JsNumber
  enabledSurfaces : List Surface

structure RendererError where
  code : String
  message : String
deriving DecidableEq

namespace RendererError

def surfaceName : Surface → String
  | .editorSpace => "editorSpace"
  | .world => "world"
  | .ui => "ui"
  | .editorOverlay => "editorOverlay"
  | .editorUi => "editorUi"

def surfaceDisabled (surface : Surface) : RendererError :=
  ⟨"surface-disabled", "surface '" ++ surfaceName surface ++ "' is not in enabledSurfaces; check isSurfaceEnabled() first"⟩

def textOnWorldSurface : RendererError :=
  ⟨"text-node-on-world-surface", "kind: 'text' is UI-only; for world text call createTextAsset(name, text) and " ++
    "create a sprite node with that texture"⟩

def emptyTexture : RendererError := ⟨"invalid-node-desc", "a sprite node needs a non-empty texture name"⟩

def crossSurfaceParent (child parent : Surface) : RendererError :=
  ⟨"cross-surface-parent",
    "cannot parent a '" ++ surfaceName child ++ "' node to a '" ++ surfaceName parent ++ "' node"⟩

def cycle : RendererError := ⟨"cycle", "that parenting would make a node its own ancestor"⟩

/-- A `RangeError`, which has no code. -/
def full : RendererError := ⟨"", "NodeStore is full: all 16777216 slots are live"⟩

end RendererError

/-! ### The transforms -/

/-- One slot of the lanes that neither inherit nor link; the defaults are those of `#reset`. -/
structure NodeLanes where
  rotation : ℚ := 0
  scale : Position ℚ := (1, 1, 1)
  alpha : ℚ := 1
  anchorX : ℚ := 1 / 2
  anchorY : ℚ := 1 / 2
  tint : ℚ := 16777215
  neverCull : Bool := false
  culled : Bool := false

structure Transforms where
  store : TransformStore ℚ
  lanes : ℕ → NodeLanes

namespace Transforms

variable (t : Transforms)

def new : Transforms := ⟨.new, fun _ => {}⟩

def initSlot (i : ℕ) : Transforms := ⟨t.store.initSlot (.whole i), Function.update t.lanes i {}⟩

def releaseSlot (i : ℕ) : Transforms :=
  if i < t.store.count then ⟨t.store.releaseSlot (.whole i), Function.update t.lanes i {}⟩ else t

def clear : Transforms := ⟨t.store.clear, fun i => if i < t.store.count then {} else t.lanes i⟩

/-- A setter of one slot's own lanes. -/
def write (i : ℕ) (f : NodeLanes → NodeLanes) : Transforms :=
  if i < t.store.count then ⟨t.store.markFlushDirty (.whole i), Function.update t.lanes i (f (t.lanes i))⟩ else t

def setRotation (i : ℕ) (degrees : ℚ) : Transforms := t.write i fun lanes => { lanes with rotation := degrees }

def setScale (i : ℕ) (scale : Position ℚ) : Transforms := t.write i fun lanes => { lanes with scale := scale }

def setAlpha (i : ℕ) (alpha : ℚ) : Transforms := t.write i fun lanes => { lanes with alpha := alpha }

def setAnchor (i : ℕ) (x y : ℚ) : Transforms := t.write i fun lanes => { lanes with anchorX := x, anchorY := y }

def setTint (i : ℕ) (tint : ℚ) : Transforms := t.write i fun lanes => { lanes with tint := tint }

def setNeverCull (i : ℕ) (neverCull : Bool) : Transforms := t.write i fun lanes => { lanes with neverCull := neverCull }

/-- Dirties nothing. -/
def setCulled (i : ℕ) (culled : Bool) : Transforms :=
  if i < t.store.count then { t with lanes := Function.update t.lanes i { t.lanes i with culled := culled } } else t

def setPosition (i : ℕ) (p : Position ℚ) : Transforms := { t with store := t.store.setPosition (.whole i) p }

def setVisible (i : ℕ) (visible : Bool) : Transforms := { t with store := t.store.setVisible (.whole i) visible }

def link (child parent : ℕ) : Transforms := { t with store := t.store.link (.whole child) (.whole parent) }

def unlink (child : ℕ) : Transforms := { t with store := t.store.unlink (.whole child) }

def markFlushDirty (i : ℕ) : Transforms := { t with store := t.store.markFlushDirty (.whole i) }

def resolve : Option Transforms := t.store.resolve.map fun store => { t with store := store }

def laneAt (i : ℕ) : NodeLanes := if i < t.store.count then t.lanes i else {}

def resolvedAt (i : ℕ) : Position ℚ := if i < t.store.count then t.store.resolved i else 0

def resolvedVisible (i : ℕ) : Bool := if i < t.store.count then t.store.resolvedVisible i else false

def parent (i : ℕ) : Option ℕ := if i < t.store.count then t.store.parent i else none

/-- A field that is absent writes nothing. -/
def whenSome {β : Type} (t : Transforms) (value : Option β) (f : Transforms → β → Transforms) : Transforms :=
  match value with
  | none => t
  | some v => f t v

/-- `#writeTransformFields`. -/
def writeFields (i : ℕ) (fields : TransformFields) : Transforms :=
  let t := t.whenSome fields.position fun t v =>
    t.setPosition i (v.x.finiteOr 0, v.y.finiteOr 0, (v.z.getD (.finite 0)).finiteOr 0)
  let t := t.whenSome fields.rotation fun t v => t.setRotation i (v.finiteOr 0)
  let t := t.whenSome fields.scale fun t v =>
    t.setScale i (v.x.finiteOr 1, v.y.finiteOr 1, (v.z.getD (.finite 1)).finiteOr 1)
  let t := t.whenSome fields.anchor fun t v => t.setAnchor i (v.x.finiteOr (1 / 2)) (v.y.finiteOr (1 / 2))
  let t := t.whenSome fields.alpha fun t v => t.setAlpha i (v.finiteOr 1)
  let t := t.whenSome fields.visible fun t v => t.setVisible i v
  t.whenSome fields.tint fun t v => t.setTint i (v.finiteOr 16777215)

end Transforms

/-! ### The backend -/

/-- A call of the sink; `parentIndex` is `none` for `NO_PARENT`. -/
inductive SinkCall where
  | create (index : ℕ) (record : NodeRecord) (parentIndex : Option ℕ)
  | reparent (index : ℕ) (record : NodeRecord) (parentIndex : Option ℕ)
  | destroySubtree (subtree : List ℕ)
  | write (index : ℕ) (record : NodeRecord)
  | setRenderable (index : ℕ) (renderable : Bool)
  | setTexture (index : ℕ) (record : NodeRecord)
  | setText (index : ℕ) (text : String)
  | setLayer (index : ℕ) (layer : JsNumber)
  | applyView (camera : CameraState) (scaleMode : ScaleMode) (canvas design : Size JsNumber) (stage : Bounds)
      (letterbox : Bool)
  | setSurfaceVisible (surface : Surface) (visible : Bool)
  | clearAll

/-- What a backend implements. -/
structure SceneSink (σ : Type) where
  apply : σ → SinkCall → σ
  sizeOf : σ → ℕ → NodeRecord → Size ℚ
  surfaceVisible : σ → Surface → Bool

/-- What each backend object was last told to draw, where it was told since it was created. -/
def SinkCall.told (told : ℕ → Option Bool) : SinkCall → ℕ → Option Bool
  | .create index _ _ => Function.update told index none
  | .destroySubtree subtree => fun i => if i ∈ subtree then none else told i
  | .setRenderable index renderable => Function.update told index (some renderable)
  | .clearAll => fun _ => none
  | _ => told

/-! ### The core -/

structure RendererCore (σ : Type) where
  nodes : StackedTable NodeRecord
  xf : Transforms
  sink : σ
  /-- What each backend object was last told to draw. -/
  told : ℕ → Option Bool
  config : CoreConfig
  camera : CameraState
  stage : Bounds
  viewport : Bounds
  /-- The viewport the last cull pass decided against. -/
  culledViewport : Bounds
  cullAll : Bool

namespace RendererCore

variable {σ : Type} (S : SceneSink σ) (trig : Trig) (core : RendererCore σ)

def tell (call : SinkCall) : RendererCore σ := { core with sink := S.apply core.sink call, told := call.told core.told }

/-! ### The view -/

def recomputeRects : RendererCore σ :=
  { core with
    stage := stageRect core.camera.framing core.config.scaleMode core.config.canvas core.config.design
    viewport := worldViewport core.camera core.config.scaleMode core.config.letterbox core.config.canvas core.config.design }

def applyView : RendererCore σ :=
  core.tell S (.applyView core.camera core.config.scaleMode core.config.canvas core.config.design core.stage
    core.config.letterbox)

def new (sink : σ) (config : CoreConfig) : RendererCore σ :=
  recomputeRects
    { nodes := .empty, xf := .new, sink, told := fun _ => none, config, camera := defaultCamera, stage := ⟨0, 0, 0, 0⟩,
      viewport := ⟨0, 0, 0, 0⟩, culledViewport := ⟨0, 0, 0, 0⟩, cullAll := true }

def setCanvasSize (width height : JsNumber) : RendererCore σ :=
  (recomputeRects { core with config := { core.config with
    canvas := ⟨JsNumber.max (.finite 0) width, JsNumber.max (.finite 0) height⟩ } }).applyView S

def setCamera (camera : CameraInput) : RendererCore σ :=
  (recomputeRects { core with camera :=
    ⟨camera.x.finiteOr 0, camera.y.finiteOr 0, positiveOr camera.zoom 1, camera.framing.getD .stage⟩ }).applyView S

/-- A disabled surface is a silent no-op. -/
def setSurfaceVisible (surface : Surface) (visible : Bool) : RendererCore σ :=
  if surface ∈ core.config.enabledSurfaces then
    { core.tell S (.setSurfaceVisible surface visible) with cullAll := true }
  else core

/-! ### Creating and destroying -/

/-- A dead parent is no parent. -/
def resolveParent (parent : Option NodeId) (surface : Surface) : Except RendererError (Option ℕ) :=
  match parent with
  | none => .ok none
  | some id =>
    match core.nodes.indexOf id with
    | none => .ok none
    | some parentIndex =>
      match core.nodes.recordAt parentIndex with
      | none => .ok none
      | some record =>
        if record.surface ≠ surface then .error (.crossSurfaceParent surface record.surface) else .ok (some parentIndex)

def recordOf (desc : NodeDesc) (surface : Surface) : NodeRecord where
  kind := desc.kind
  surface := surface
  texture := if desc.kind = .sprite then desc.texture else ""
  text := if desc.kind = .text then desc.text else ""
  style := if desc.kind = .text then desc.style else none
  uiAnchor := desc.uiAnchor
  layer := desc.layer.getD (.finite 0)

/-- The transform of a node just allocated. -/
def placeNew (xf : Transforms) (index : ℕ) (desc : NodeDesc) (parentIndex : Option ℕ) : Transforms :=
  let xf := (xf.initSlot index).writeFields index desc.toTransformFields
  let xf := xf.whenSome desc.neverCull fun xf v => xf.setNeverCull index v
  xf.whenSome parentIndex fun xf p => xf.link index p

def createNode (desc : NodeDesc) : Except RendererError (NodeId × RendererCore σ) :=
  let surface := desc.surface.getD .world
  if surface ∉ core.config.enabledSurfaces then .error (.surfaceDisabled surface)
  else if desc.kind = .text ∧ isCameraTransformed surface = true then .error .textOnWorldSurface
  else if desc.kind = .sprite ∧ desc.texture = "" then .error .emptyTexture
  else
    match core.resolveParent desc.parent surface with
    | .error e => .error e
    | .ok parentIndex =>
      match core.nodes.create (recordOf desc surface) with
      | none => .error .full
      | some (id, nodes) =>
        let index := handleIndex id
        .ok (id, tell S { core with nodes := nodes, xf := placeNew core.xf index desc parentIndex }
          (.create index (recordOf desc surface) parentIndex))

def release (slot : ℕ) : RendererCore σ :=
  { core with xf := core.xf.releaseSlot slot, nodes := core.nodes.releaseAt slot }

/-- Deepest first. -/
def destroyAt (index : ℕ) : Option (RendererCore σ) :=
  match core.xf.store.subtree (.whole index) true with
  | none => none
  | some subtree => some (subtree.reverse.foldl release (core.tell S (.destroySubtree subtree)))

def destroyNode (id : NodeId) : Option (RendererCore σ) :=
  match core.nodes.indexOf id with
  | none => some core
  | some index => core.destroyAt S index

/-- One turn of `clear` of a surface: roots only, since a destroy cascades. -/
def clearRoot (surface : Surface) (slot : ℕ) : Option (RendererCore σ) :=
  match core.nodes.recordAt slot with
  | none => some core
  | some record =>
    if record.surface = surface ∧ core.xf.parent slot = none then core.destroyNode S (core.nodes.idAt slot) else some core

def clearRoots (surface : Surface) : List ℕ → RendererCore σ → Option (RendererCore σ)
  | [], core => some core
  | slot :: slots, core =>
    match core.clearRoot S surface slot with
    | none => none
    | some core => clearRoots surface slots core

def clear (surface : Option Surface) : Option (RendererCore σ) :=
  match surface with
  | none => some { core.tell S .clearAll with nodes := core.nodes.clear, xf := core.xf.clear }
  | some surface => clearRoots S surface core.nodes.liveIndices core

/-! ### Patches -/

def putRecord (index : ℕ) (record : NodeRecord) : RendererCore σ :=
  { core with nodes := core.nodes.modifyAt index fun _ => record }

def putLayer (index : ℕ) (layer : Option JsNumber) : RendererCore σ :=
  match layer, core.nodes.recordAt index with
  | some v, some record =>
    (core.putRecord index { record with layer := .finite (v.finiteOr 0) }).tell S
      (.setLayer index (.finite (v.finiteOr 0)))
  | _, _ => core

/-- A texture on a node that is no sprite is ignored. -/
def putTexture (index : ℕ) (texture : Option String) : RendererCore σ :=
  match texture, core.nodes.recordAt index with
  | some v, some record =>
    if record.kind = .sprite then
      let core := (core.putRecord index { record with texture := v }).tell S (.setTexture index { record with texture := v })
      { core with xf := core.xf.markFlushDirty index }
    else core
  | _, _ => core

def putText (index : ℕ) (text : Option String) : RendererCore σ :=
  match text, core.nodes.recordAt index with
  | some v, some record =>
    if record.kind = .text then
      let core := (core.putRecord index { record with text := v }).tell S (.setText index v)
      { core with xf := core.xf.markFlushDirty index }
    else core
  | _, _ => core

/-- Every field a patch sets, of a live slot. -/
def applyPatchAt (index : ℕ) (patch : PatchFields) : RendererCore σ :=
  let core := { core with xf := core.xf.writeFields index patch.toTransformFields }
  ((core.putLayer S index patch.layer).putTexture S index patch.texture).putText S index patch.text

def setNodeText (id : NodeId) (text : String) : RendererCore σ :=
  match core.nodes.indexOf id with
  | none => core
  | some index => core.putText S index (some text)

/-! ### Parents -/

def relink (index : ℕ) (parentIndex : Option ℕ) : Transforms :=
  match parentIndex with
  | none => core.xf.unlink index
  | some p => core.xf.link index p

/-- Relinks a slot and, when asked, rewrites its position so that the resolved one survives. -/
def relinkAt (index : ℕ) (parentIndex : Option ℕ) (keepResolvedPosition : Bool) : Option (RendererCore σ) :=
  if keepResolvedPosition then
    match core.xf.resolve with
    | none => none
    | some xf =>
      let want := xf.resolvedAt index
      match parentIndex with
      | none => some { core with xf := (xf.unlink index).setPosition index want }
      | some p =>
        match (xf.link index p).resolve with
        | none => none
        | some xf => some { core with xf := xf.setPosition index (want - xf.resolvedAt p) }
  else some { core with xf := core.relink index parentIndex }

def attachAt (index : ℕ) (parent : NodeId) (keepResolvedPosition : Bool) :
    Option (RendererCore σ × Option RendererError) :=
  match core.nodes.indexOf parent with
  | none => some (core, none)
  | some parentIndex =>
    match core.nodes.recordAt index, core.nodes.recordAt parentIndex with
    | some childRecord, some parentRecord =>
      if childRecord.surface ≠ parentRecord.surface then
        some (core, some (.crossSurfaceParent childRecord.surface parentRecord.surface))
      else if core.xf.store.isAncestorOf (.whole index) (.whole parentIndex) = true then some (core, some .cycle)
      else
        match core.relinkAt index (some parentIndex) keepResolvedPosition with
        | none => none
        | some core => some (core.tell S (.reparent index childRecord (some parentIndex)), none)
    | _, _ => some (core, none)

def detachAt (index : ℕ) (keepResolvedPosition : Bool) : Option (RendererCore σ) :=
  if core.xf.parent index = none then some core
  else
    match core.relinkAt index none keepResolvedPosition with
    | none => none
    | some core =>
      match core.nodes.recordAt index with
      | none => some core
      | some record => some (core.tell S (.reparent index record none))

def attachNode (child parent : NodeId) (keepResolvedPosition : Bool) : Option (RendererCore σ × Option RendererError) :=
  match core.nodes.indexOf child with
  | none => some (core, none)
  | some index => core.attachAt S index parent keepResolvedPosition

def detachNode (child : NodeId) (keepResolvedPosition : Bool) : Option (RendererCore σ) :=
  match core.nodes.indexOf child with
  | none => some core
  | some index => core.detachAt S index keepResolvedPosition

/-- The parent field of a patch: `NO_NODE` detaches, keeping the resolved position. -/
def patchParent (index : ℕ) (parent : Option NodeId) : Option (RendererCore σ × Option RendererError) :=
  match parent with
  | none => some (core, none)
  | some p => if p = 0 then (core.detachAt S index true).map fun core => (core, none) else core.attachAt S index p false

/-- A throw ends the loop and what was applied before it stays. -/
def updateNodes : List NodePatch → RendererCore σ → Option (RendererCore σ × Option RendererError)
  | [], core => some (core, none)
  | patch :: patches, core =>
    match core.nodes.indexOf patch.id with
    | none => updateNodes patches core
    | some index =>
      match core.patchParent S index patch.parent with
      | none => none
      | some (core, some e) => some (core, some e)
      | some (core, none) => updateNodes patches (core.applyPatchAt S index patch.toPatchFields)

def updateSubtree (root : NodeId) (patch : PatchFields) (includeRoot : Bool) : Option (RendererCore σ) :=
  match core.nodes.indexOf root with
  | none => some core
  | some index =>
    match core.xf.store.subtree (.whole index) includeRoot with
    | none => none
    | some slots => some (slots.foldl (fun core slot =>
      if (core.nodes.recordAt slot).isSome then core.applyPatchAt S slot patch else core) core)

/-! ### Culling -/

def localBoundsAt (index : ℕ) : Bounds :=
  match core.nodes.recordAt index with
  | none => emptyLocalBounds
  | some record =>
    if record.kind = .group then emptyLocalBounds
    else
      let lanes := core.xf.laneAt index
      spriteLocalBounds (S.sizeOf core.sink index record) lanes.scale.1 lanes.scale.2.1 lanes.anchorX lanes.anchorY

def worldBoundsAt (index : ℕ) : Bounds :=
  worldAabb trig (core.localBoundsAt S index) (core.xf.laneAt index).rotation (core.xf.resolvedAt index).1
    (core.xf.resolvedAt index).2.1

/-- The cull decision for one slot, against a viewport. -/
def shouldDrawIn (viewport : Bounds) (index : ℕ) : Bool :=
  match core.nodes.recordAt index with
  | none => false
  | some record =>
    if record.kind = .group then true
    else if !isCameraTransformed record.surface then true
    else if (core.xf.laneAt index).neverCull then true
    else if !S.surfaceVisible core.sink record.surface then true
    else isVisibleInViewport (core.worldBoundsAt S trig index) viewport core.config.cullMargin

def shouldDraw (index : ℕ) : Bool := core.shouldDrawIn S trig core.viewport index

def cull (index : ℕ) : RendererCore σ :=
  let draw := core.shouldDraw S trig index
  tell S { core with xf := core.xf.setCulled index !draw } (.setRenderable index draw)

/-- `cull` of a slot the flush has not decided yet. -/
def cullOnce (acc : RendererCore σ × List ℕ) (index : ℕ) : RendererCore σ × List ℕ :=
  if index ∈ acc.2 then acc else (acc.1.cull S trig index, index :: acc.2)

def writeAt (index : ℕ) : RendererCore σ :=
  match core.nodes.recordAt index with
  | none => core
  | some record => core.tell S (.write index record)

def drainResolved : RendererCore σ :=
  { core with xf := { core.xf with store := core.xf.store.consumeResolvedDirty.2 } }

/-- The cull pass, after what was dirty. -/
def cullPass (dirty : List ℕ) : RendererCore σ :=
  let core :=
    if core.culledViewport = core.viewport then core
    else { core with culledViewport := core.viewport, cullAll := true }
  if core.cullAll then
    (core.nodes.liveIndices.foldl (cull S trig) { core with cullAll := false }).drainResolved
  else
    let first := dirty.foldl (cullOnce S trig) (core, [])
    (first.1.xf.store.consumeResolvedDirty.1.foldl (cullOnce S trig) (first.1.drainResolved, first.2)).1

def flush : Option (RendererCore σ) :=
  match core.xf.resolve with
  | none => none
  | some xf =>
    let dirty := xf.store.consumeFlushDirty.1
    let core := { core with xf := { xf with store := xf.store.consumeFlushDirty.2 } }
    some ((dirty.foldl (writeAt S) core).cullPass S trig dirty)

/-- One slot of a rebuild. -/
def recreate (slot : ℕ) : RendererCore σ :=
  match core.nodes.recordAt slot with
  | none => core
  | some record => core.tell S (.create slot record (core.xf.parent slot))

def recreateAll : List ℕ → RendererCore σ → Option (RendererCore σ)
  | [], core => some core
  | root :: roots, core =>
    match core.xf.store.subtree (.whole root) true with
    | none => none
    | some slots => recreateAll roots (slots.foldl (recreate S) core)

def rebuildScene : Option (RendererCore σ) :=
  match recreateAll S core.xf.store.roots (core.tell S .clearAll) with
  | none => none
  | some core =>
    flush S trig { core with xf := { core.xf with store := core.xf.store.markAllDirty }, cullAll := true }

/-- A read of resolved values between flushes. -/
def query : Option (RendererCore σ) := core.xf.resolve.map fun xf => { core with xf := xf }

end RendererCore

/-! ### Runs -/

inductive SceneEvent where
  | createNode (desc : NodeDesc)
  | destroyNode (id : NodeId)
  | updateNodes (patches : List NodePatch)
  | updateSubtree (root : NodeId) (patch : PatchFields) (includeRoot : Bool)
  | setNodeText (id : NodeId) (text : String)
  | attachNode (child parent : NodeId) (keepResolvedPosition : Bool)
  | detachNode (child : NodeId) (keepResolvedPosition : Bool)
  | clear (surface : Option Surface)
  | setCamera (camera : CameraInput)
  | setCanvasSize (width height : JsNumber)
  | setSurfaceVisible (surface : Surface) (visible : Bool)
  | query
  | rebuildScene
  | flush

namespace RendererCore

variable {σ : Type} (S : SceneSink σ) (trig : Trig)

/-- One call of a renderer; a caller goes on after a throw. -/
def step (core : RendererCore σ) : SceneEvent → Option (RendererCore σ)
  | .createNode desc =>
    match core.createNode S desc with
    | .ok (_, core) => some core
    | .error _ => some core
  | .destroyNode id => core.destroyNode S id
  | .updateNodes patches => (updateNodes S patches core).map Prod.fst
  | .updateSubtree root patch includeRoot => core.updateSubtree S root patch includeRoot
  | .setNodeText id text => some (core.setNodeText S id text)
  | .attachNode child parent keep => (core.attachNode S child parent keep).map Prod.fst
  | .detachNode child keep => core.detachNode S child keep
  | .clear surface => core.clear S surface
  | .setCamera camera => some (core.setCamera S camera)
  | .setCanvasSize width height => some (core.setCanvasSize S width height)
  | .setSurfaceVisible surface visible => some (core.setSurfaceVisible S surface visible)
  | .query => core.query
  | .rebuildScene => core.rebuildScene S trig
  | .flush => core.flush S trig

def run : List SceneEvent → RendererCore σ → Option (RendererCore σ)
  | [], core => some core
  | e :: es, core =>
    match core.step S trig e with
    | none => none
    | some core => run es core

end RendererCore
end Grove.Render
