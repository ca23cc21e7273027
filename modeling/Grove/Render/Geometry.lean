import Grove.Core.Value

/-! # Rectangles, views and projections of the renderer

`bounds.ts`, `viewport.ts`, `projection.ts` and `surfaces.ts` of `packages/renderer/src`, with the rectangles of
`packages/math`.  Numbers are exact; `Trig` is what a turn that is not a quarter's reads of `packages/math`. -/

namespace Grove.Render

/-- `positiveOr` of `packages/math`: the value when finite and positive, else the default. -/
def positiveOr : JsNumber → ℚ → ℚ
  | .finite q, d => if 0 < q then q else d
  | .nan, d | .posInfinity, d | .negInfinity, d => d

structure Size (α : Type) where
  width : α
  height : α
deriving DecidableEq

structure Bounds where
  left : ℚ
  right : ℚ
  top : ℚ
  bottom : ℚ
deriving DecidableEq

namespace Bounds

def width (b : Bounds) : ℚ := |b.right - b.left|

def height (b : Bounds) : ℚ := |b.bottom - b.top|

/-- Edges that touch count. -/
def overlap (a b : Bounds) : Bool :=
  if max a.left a.right < min b.left b.right ∨ max b.left b.right < min a.left a.right then false
  else decide (min b.top b.bottom ≤ max a.top a.bottom) && decide (min a.top a.bottom ≤ max b.top b.bottom)

/-- Each edge moves away from the interior. -/
def expand (b : Bounds) (margin : ℚ) : Bounds :=
  let xUp := if b.left ≤ b.right then margin else -margin
  let yUp := if b.bottom ≤ b.top then margin else -margin
  ⟨b.left - xUp, b.right + xUp, b.top + yUp, b.bottom - yUp⟩

end Bounds

/-! ### Surfaces -/

inductive Surface where
  | editorSpace
  | world
  | ui
  | editorOverlay
  | editorUi
deriving DecidableEq

/-- Every surface, bottom to top. -/
def SURFACE_ORDER : List Surface := [.editorSpace, .world, .ui, .editorOverlay, .editorUi]

def surfaceOrder (surface : Surface) : ℤ := SURFACE_ORDER.idxOf surface

def isCameraTransformed : Surface → Bool
  | .editorSpace | .world | .editorOverlay => true
  | .ui | .editorUi => false

/-! ### The stage and the viewport -/

inductive Framing where
  | stage
  | free
deriving DecidableEq

inductive ScaleMode where
  | fit
  | fill
  | expand
deriving DecidableEq

structure CameraState where
  x : ℚ
  y : ℚ
  zoom : ℚ
  framing : Framing

def defaultCamera : CameraState := ⟨0, 0, 1, .stage⟩

section stage
variable (framing : Framing) (scaleMode : ScaleMode) (letterbox : Bool) (canvas design : Size JsNumber)

/-- Scale from design px to CSS px. -/
def fitScale : ℚ :=
  if framing = .free ∨ scaleMode = .expand then 1
  else
    let cw := positiveOr canvas.width 0
    let ch := positiveOr canvas.height 0
    let dw := positiveOr design.width 0
    let dh := positiveOr design.height 0
    if cw = 0 ∨ ch = 0 ∨ dw = 0 ∨ dh = 0 then 1
    else
      let scale := if scaleMode = .fill then max (cw / dw) (ch / dh) else min (cw / dw) (ch / dh)
      positiveOr (.finite scale) 1

def isLetterboxed : Bool := decide (framing = .stage) && decide (scaleMode = .fit) && letterbox

def stageRect : Bounds :=
  let cw := positiveOr canvas.width 0
  let ch := positiveOr canvas.height 0
  if framing = .free then ⟨0, cw, 0, ch⟩
  else
    let scale := fitScale framing scaleMode canvas design
    let sw := positiveOr design.width 0 * scale
    let sh := positiveOr design.height 0 * scale
    let left := (cw - sw) / 2
    let top := (ch - sh) / 2
    ⟨left, left + sw, top, top + sh⟩

def visibleRect : Bounds :=
  if isLetterboxed framing scaleMode letterbox then stageRect framing scaleMode canvas design
  else ⟨0, positiveOr canvas.width 0, 0, positiveOr canvas.height 0⟩

end stage

/-- The largest half extent a viewport may report. -/
def maxHalfExtent : ℚ := 9007199254740991

def safeHalfExtent (value : ℚ) : ℚ := if value < 0 then 0 else if maxHalfExtent < value then maxHalfExtent else value

section camera
variable (camera : CameraState) (scaleMode : ScaleMode) (letterbox : Bool) (canvas design : Size JsNumber)

/-- The world-space rectangle on screen. -/
def worldViewport : Bounds :=
  let zoom := positiveOr (.finite camera.zoom) 1
  let half : ℚ × ℚ :=
    if isLetterboxed camera.framing scaleMode letterbox then
      (safeHalfExtent (positiveOr design.width 0 / (2 * zoom)), safeHalfExtent (positiveOr design.height 0 / (2 * zoom)))
    else
      let rect := visibleRect camera.framing scaleMode letterbox canvas design
      let perWorldUnit := 2 * fitScale camera.framing scaleMode canvas design * zoom
      (safeHalfExtent (rect.width / perWorldUnit), safeHalfExtent (rect.height / perWorldUnit))
  ⟨camera.x - half.1, camera.x + half.1, camera.y + half.2, camera.y - half.2⟩

def cameraScale : ℚ :=
  positiveOr (.finite (fitScale camera.framing scaleMode canvas design * positiveOr (.finite camera.zoom) 1)) 1

def worldToScreen (x y : ℚ) : ℚ × ℚ :=
  let s := cameraScale camera scaleMode canvas design
  (positiveOr canvas.width 0 / 2 + (x - camera.x) * s, positiveOr canvas.height 0 / 2 + (camera.y - y) * s)

end camera

inductive UiAnchor where
  | topLeft
  | topCenter
  | topRight
  | middleLeft
  | center
  | middleRight
  | bottomLeft
  | bottomCenter
  | bottomRight
deriving DecidableEq

/-- Fractional position of an anchor within the stage; `y` runs down. -/
def uiAnchorFraction : UiAnchor → ℚ × ℚ
  | .topLeft => (0, 0)
  | .topCenter => (1 / 2, 0)
  | .topRight => (1, 0)
  | .middleLeft => (0, 1 / 2)
  | .center => (1 / 2, 1 / 2)
  | .middleRight => (1, 1 / 2)
  | .bottomLeft => (0, 1)
  | .bottomCenter => (1 / 2, 1)
  | .bottomRight => (1, 1)

def edge (lo hi fraction : ℚ) : ℚ := if fraction = 0 then lo else if fraction = 1 then hi else lo + (hi - lo) * fraction

def uiAnchorOrigin (anchor : UiAnchor) (stage : Bounds) : ℚ × ℚ :=
  (edge stage.left stage.right (uiAnchorFraction anchor).1, edge stage.top stage.bottom (uiAnchorFraction anchor).2)

def uiToScreen (x y : ℚ) (anchor : UiAnchor) (stage : Bounds) (scale : ℚ) : ℚ × ℚ :=
  let s := positiveOr (.finite scale) 1
  let origin := uiAnchorOrigin anchor stage
  (origin.1 + x * s, origin.2 + y * s)

/-! ### Boxes of art -/

/-- Of an angle in degrees that is no multiple of 90. -/
structure Trig where
  cos : ℚ → ℚ
  sin : ℚ → ℚ

/-- The quarter turn an angle names. -/
def quarterTurn (degrees : ℚ) : Option ℤ :=
  let quarters := degrees / 90
  if quarters.den = 1 then some ((quarters.num.tmod 4 + 4).tmod 4) else none

def cosDeg (trig : Trig) (degrees : ℚ) : ℚ :=
  match quarterTurn degrees with
  | some 0 => 1
  | some 1 | some 3 => 0
  | some 2 => -1
  | _ => trig.cos degrees

def sinDeg (trig : Trig) (degrees : ℚ) : ℚ :=
  match quarterTurn degrees with
  | some 0 | some 2 => 0
  | some 1 => 1
  | some 3 => -1
  | _ => trig.sin degrees

/-- The art's rectangle about the node, `y` up; the anchor runs down inside the art. -/
def spriteLocalBounds (size : Size ℚ) (scaleX scaleY anchorX anchorY : ℚ) : Bounds :=
  let w := size.width * scaleX
  let h := size.height * scaleY
  let left := -anchorX * w
  let right := left + w
  let top := anchorY * h
  let bottom := top - h
  ⟨min left right, max left right, max top bottom, min top bottom⟩

def emptyLocalBounds : Bounds := ⟨0, 0, 0, 0⟩

/-- A local rectangle turned about the node, then moved to where it resolves. -/
def worldAabb (trig : Trig) (localBounds : Bounds) (degrees worldX worldY : ℚ) : Bounds :=
  let minX := min localBounds.left localBounds.right
  let maxX := max localBounds.left localBounds.right
  let minY := min localBounds.bottom localBounds.top
  let maxY := max localBounds.bottom localBounds.top
  let cx := (minX + maxX) / 2
  let cy := (minY + maxY) / 2
  let hx := (maxX - minX) / 2
  let hy := (maxY - minY) / 2
  let c := cosDeg trig degrees
  let s := sinDeg trig degrees
  let halfW := |c| * hx + |s| * hy
  let halfH := |s| * hx + |c| * hy
  let centerX := worldX + (cx * c - cy * s)
  let centerY := worldY + (cx * s + cy * c)
  ⟨centerX - halfW, centerX + halfW, centerY + halfH, centerY - halfH⟩

def isVisibleInViewport (worldBounds viewport : Bounds) (cullMargin : JsNumber) : Bool :=
  worldBounds.overlap (viewport.expand (positiveOr cullMargin 0))

end Grove.Render
