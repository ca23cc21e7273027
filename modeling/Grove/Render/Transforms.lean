import Mathlib.Data.List.ReduceOption
import Grove.Lib.OrderedMap
import Grove.Lib.OrderedForest

/-! # The renderer's transform store

Slots in a tree: every slot has a position and a visibility of its own, and those resolved down from its
root.  The tree is kept in intrusive sibling lists, the roots in an array whose left entries are
tombstones (`rootOrder`), and three sets say what is stale: `resolveDirty` (a whole subtree), `flushDirty`
(one slot's locals) and `resolvedChanged`.

`NONE` in a tree table is `none` here.  Positions are added in any additive monoid, so addition is exact.
A loop the source leaves unbounded has as many turns as there are slots, and is `none` when they do not
do. -/

namespace Grove.Render

/-- A number passed for a slot. -/
inductive SlotNumber where
  | whole (i : ℤ)
  /-- A fraction, an infinity or a NaN. -/
  | other
deriving DecidableEq

def NONE : SlotNumber := .whole (-1)

instance (n : ℕ) : OfNat SlotNumber n := ⟨.whole n⟩

/-- Along `x`, `y` and `z`. -/
abbrev Position (α : Type) : Type := α × α × α

structure TransformStore (α : Type) where
  pos : ℕ → Position α
  resolved : ℕ → Position α
  visible : ℕ → Bool
  resolvedVisible : ℕ → Bool
  parent : ℕ → Option ℕ
  firstChild : ℕ → Option ℕ
  lastChild : ℕ → Option ℕ
  prevSibling : ℕ → Option ℕ
  nextSibling : ℕ → Option ℕ
  rootOrder : List (Option ℕ)
  rootAt : OrderedMap ℕ ℕ
  rootHoles : ℕ
  resolveDirty : List ℕ
  flushDirty : List ℕ
  resolvedChanged : List ℕ
  count : ℕ
  /-- The slots the last resolve composed, where the source counts them. -/
  visits : List ℕ

namespace TransformStore

open Threads (walk search setAt)

variable {α : Type} (s : TransformStore α)

/-- The slot a number addresses, when `#has` accepts it. -/
def has : SlotNumber → Option ℕ
  | .whole (.ofNat i) => if i < s.count then some i else none
  | _ => none

/-! ### The roots -/

def addRoot (i : ℕ) : TransformStore α :=
  if s.rootAt.has i then s
  else { s with rootAt := s.rootAt.set i s.rootOrder.length, rootOrder := s.rootOrder ++ [some i] }

/-- One turn of the compaction: a live entry moves up. -/
def keepRoot (acc : OrderedMap ℕ ℕ × List (Option ℕ)) : Option ℕ → OrderedMap ℕ ℕ × List (Option ℕ)
  | none => acc
  | some i => (acc.1.set i acc.2.length, acc.2 ++ [some i])

def compactRoots : TransformStore α :=
  let acc := s.rootOrder.foldl keepRoot (s.rootAt, [])
  { s with rootAt := acc.1, rootOrder := acc.2, rootHoles := 0 }

def removeRoot (i : ℕ) : TransformStore α :=
  match s.rootAt.get i with
  | none => s
  | some k =>
    let s' := { s with rootOrder := s.rootOrder.set k none, rootAt := s.rootAt.delete i,
                       rootHoles := s.rootHoles + 1 }
    if s'.rootHoles > s'.rootAt.size then s'.compactRoots else s'

def roots : List ℕ :=
  s.rootOrder.reduceOption.filter fun i => decide (i < s.count) && decide (s.parent i = none)

/-! ### Links -/

def detach (child : ℕ) : TransformStore α :=
  let prev := s.prevSibling child
  let next := s.nextSibling child
  let s' := { s with nextSibling := setAt s.nextSibling prev next, prevSibling := setAt s.prevSibling next prev }
  let s' := match s.parent child with
    | some p =>
      { s' with
        firstChild := if s.firstChild p = some child then Function.update s.firstChild p next else s.firstChild
        lastChild := if s.lastChild p = some child then Function.update s.lastChild p prev else s.lastChild }
    | none => s'.removeRoot child
  { s' with
    prevSibling := Function.update s'.prevSibling child none
    nextSibling := Function.update s'.nextSibling child none
    parent := Function.update s'.parent child none }

/-- Locals were written, and the subtree's resolved values move with them. -/
def markMoved (i : ℕ) : TransformStore α :=
  { s with flushDirty := addNew s.flushDirty i, resolveDirty := addNew s.resolveDirty i }

def setPosition (index : SlotNumber) (p : Position α) : TransformStore α :=
  match s.has index with
  | none => s
  | some i => { s with pos := Function.update s.pos i p }.markMoved i

def setVisible (index : SlotNumber) (v : Bool) : TransformStore α :=
  match s.has index with
  | none => s
  | some i => { s with visible := Function.update s.visible i v }.markMoved i

/-- The loop of `isAncestorOf`; its countdown runs to zero inclusive. -/
def climbsTo (ancestor node : ℕ) : Bool :=
  (search s.parent (· == ancestor) (s.count + 1) (some node)).getD false

def isAncestorOf (ancestor node : SlotNumber) : Bool :=
  match s.has ancestor, s.has node with
  | some a, some n => s.climbsTo a n
  | _, _ => false

/-- `link` past its checks, to a parent. -/
def append (child p : ℕ) : TransformStore α :=
  let s' := s.detach child
  let last := s'.lastChild p
  { s' with
    parent := Function.update s'.parent child (some p)
    firstChild := if last = none then Function.update s'.firstChild p (some child) else s'.firstChild
    nextSibling := setAt s'.nextSibling last (some child)
    prevSibling := if last = none then s'.prevSibling else Function.update s'.prevSibling child last
    lastChild := Function.update s'.lastChild p (some child) }.markMoved child

/-- `link` past its checks, to no parent. -/
def uproot (child : ℕ) : TransformStore α :=
  let s' := s.detach child
  ({ s' with parent := Function.update s'.parent child none }.addRoot child).markMoved child

def link (child parent : SlotNumber) : TransformStore α :=
  match s.has child with
  | none => s
  | some c =>
    if parent = NONE then s.uproot c
    else match s.has parent with
      | none => s
      | some p => if c = p ∨ s.climbsTo c p = true then s else s.append c p

def unlink (child : SlotNumber) : TransformStore α :=
  match s.has child with
  | none => s
  | some c => if s.parent c = none then s else s.link child NONE

/-! ### Reading the tree -/

/-- The sibling loop over the children of a slot. -/
def kids (i : ℕ) : Option (List ℕ) := walk s.nextSibling s.count (s.firstChild i)

def children (index : SlotNumber) : Option (List ℕ) :=
  match s.has index with
  | none => some []
  | some i => s.kids i

/-- The breadth-first loop: `out` is what is before the head, then the rest. -/
def breadthFirst : ℕ → List ℕ → List ℕ → Option (List ℕ)
  | _, out, [] => some out
  | 0, _, _ :: _ => none
  | n + 1, out, node :: rest =>
    match s.kids node with
    | none => none
    | some cs => breadthFirst n (out ++ [node]) (rest ++ cs)

def subtree (index : SlotNumber) (includeRoot : Bool) : Option (List ℕ) :=
  match s.has index with
  | none => some []
  | some i =>
    if includeRoot then s.breadthFirst s.count [] [i]
    else match s.kids i with
      | none => none
      | some cs => s.breadthFirst s.count [] cs

/-- A slot's place in the root order, `-1` when it has none. -/
def rootRank (i : ℕ) : ℤ := ((s.rootAt.get i).map Int.ofNat).getD (-1)

def insertedAfter (a b : ℕ) : Option Bool :=
  match s.parent a with
  | none => some (decide (s.rootRank b < s.rootRank a))
  | some _ => search s.prevSibling (· == b) s.count (s.prevSibling a)

/-! ### The dirty sets -/

def hasDirtyAncestor (i : ℕ) : Option Bool :=
  search s.parent (fun a => decide (a ∈ s.resolveDirty)) s.count (s.parent i)

def markFlushDirty (index : SlotNumber) : TransformStore α :=
  match s.has index with
  | none => s
  | some i => { s with flushDirty := addNew s.flushDirty i }

def consumeFlushDirty : List ℕ × TransformStore α := (s.flushDirty, { s with flushDirty := [] })

def consumeResolvedDirty : List ℕ × TransformStore α := (s.resolvedChanged, { s with resolvedChanged := [] })

/-- One turn of `markAllDirty`. -/
def markDirty (i : ℕ) : TransformStore α :=
  { s with
    flushDirty := addNew s.flushDirty i
    resolveDirty := if s.parent i = none then addNew s.resolveDirty i else s.resolveDirty }

def markAllDirty : TransformStore α := (List.range s.count).foldl markDirty s

/-! ### Slots -/

variable [AddMonoid α]

def new : TransformStore α where
  pos := fun _ => 0
  resolved := fun _ => 0
  visible := fun _ => false
  resolvedVisible := fun _ => false
  parent := fun _ => none
  firstChild := fun _ => none
  lastChild := fun _ => none
  prevSibling := fun _ => none
  nextSibling := fun _ => none
  rootOrder := []
  rootAt := .empty
  rootHoles := 0
  resolveDirty := []
  flushDirty := []
  resolvedChanged := []
  count := 0
  visits := []

def reset (i : ℕ) : TransformStore α :=
  { s with
    pos := Function.update s.pos i 0
    resolved := Function.update s.resolved i 0
    visible := Function.update s.visible i true
    resolvedVisible := Function.update s.resolvedVisible i true
    parent := Function.update s.parent i none
    firstChild := Function.update s.firstChild i none
    lastChild := Function.update s.lastChild i none
    prevSibling := Function.update s.prevSibling i none
    nextSibling := Function.update s.nextSibling i none }

def initSlot : SlotNumber → TransformStore α
  | .whole (.ofNat i) =>
    let s' := { s with count := if s.count ≤ i then i + 1 else s.count }.reset i
    { s' with flushDirty := addNew s'.flushDirty i, resolveDirty := addNew s'.resolveDirty i }.addRoot i
  | _ => s

def releaseSlot (index : SlotNumber) : TransformStore α :=
  match s.has index with
  | none => s
  | some i =>
    let s' := (s.detach i).reset i
    { s' with
      flushDirty := s'.flushDirty.filter (· ≠ i)
      resolveDirty := s'.resolveDirty.filter (· ≠ i)
      resolvedChanged := s'.resolvedChanged.filter (· ≠ i) }.removeRoot i

def clear : TransformStore α :=
  { (List.range s.count).foldl (fun t i => t.reset i) s with
    count := 0, rootOrder := [], rootAt := .empty, rootHoles := 0
    resolveDirty := [], flushDirty := [], resolvedChanged := [] }

/-! ### Resolving -/

variable [DecidableEq α]

/-- The position a slot resolves to, from its parent's resolved one. -/
def composed (i : ℕ) : Position α × Bool :=
  let base := match s.parent i with
    | none => (0, true)
    | some p => (s.resolved p, s.resolvedVisible p)
  (base.1 + s.pos i, base.2 && s.visible i)

/-- One turn of the walk: a slot is composed. -/
def compose (i : ℕ) : TransformStore α :=
  let v := s.composed i
  { s with
    resolveDirty := s.resolveDirty.filter (· ≠ i)
    visits := s.visits ++ [i]
    resolved := Function.update s.resolved i v.1
    resolvedVisible := Function.update s.resolvedVisible i v.2
    resolvedChanged :=
      if v ≠ (s.resolved i, s.resolvedVisible i) then addNew s.resolvedChanged i else s.resolvedChanged }

/-- `#resolveFrom`, the top of the stack first. -/
def resolveStack : ℕ → List ℕ → TransformStore α → Option (TransformStore α)
  | _, [], s => some s
  | 0, _ :: _, _ => none
  | n + 1, node :: stack, s =>
    let s' := s.compose node
    match s'.kids node with
    | none => none
    | some cs => resolveStack n (cs.reverse ++ stack) s'

def resolveFrom (i : ℕ) : Option (TransformStore α) := resolveStack s.count [i] s

/-- One turn of the loop over the pending slots. -/
def resolvePending (i : ℕ) : Option (TransformStore α) :=
  if i ∈ s.resolveDirty then
    match s.hasDirtyAncestor i with
    | none => none
    | some true => some s
    | some false => s.resolveFrom i
  else some s

def resolveAll : List ℕ → TransformStore α → Option (TransformStore α)
  | [], s => some s
  | i :: pending, s =>
    match s.resolvePending i with
    | none => none
    | some s' => resolveAll pending s'

def resolve : Option (TransformStore α) :=
  let s' := { s with visits := [] }
  if s.resolveDirty = [] then some s'
  else (resolveAll s.resolveDirty s').map fun s'' => { s'' with resolveDirty := [] }

end TransformStore

/-! ### Calls -/

inductive Call (α : Type) where
  | initSlot (index : SlotNumber)
  | releaseSlot (index : SlotNumber)
  | setPosition (index : SlotNumber) (p : Position α)
  | setVisible (index : SlotNumber) (v : Bool)
  | link (child parent : SlotNumber)
  | unlink (child : SlotNumber)
  | clear
  | markFlushDirty (index : SlotNumber)
  | markAllDirty
  | resolve
  | consumeFlushDirty
  | consumeResolvedDirty

namespace TransformStore

variable {α : Type} [AddMonoid α] [DecidableEq α]

/-- What a call leaves, `none` when a loop of it has not ended in the turns it is given. -/
def call (s : TransformStore α) : Call α → Option (TransformStore α)
  | .initSlot index => some (s.initSlot index)
  | .releaseSlot index => some (s.releaseSlot index)
  | .setPosition index p => some (s.setPosition index p)
  | .setVisible index v => some (s.setVisible index v)
  | .link child parent => some (s.link child parent)
  | .unlink child => some (s.unlink child)
  | .clear => some s.clear
  | .markFlushDirty index => some (s.markFlushDirty index)
  | .markAllDirty => some s.markAllDirty
  | .resolve => s.resolve
  | .consumeFlushDirty => some s.consumeFlushDirty.2
  | .consumeResolvedDirty => some s.consumeResolvedDirty.2

end TransformStore
end Grove.Render
