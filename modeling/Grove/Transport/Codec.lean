import Grove.Core.Value

/-! # The wire codec

`packages/transport/src/codec.ts`.  A message is a leaf or a reference into the heap it was built
in, so an object may be shared and may reach itself.  `admitMessage` walks it with an explicit
stack and builds the tree that `JSON.stringify` is given; `admitDecoded` checks what `JSON.parse`
returns.

The source writes a child's copy into its parent's before it is filled, and nothing reads the
parent's until the walk ends; here the copy is written when the child's frame is popped. -/

namespace Grove
namespace JsonCodec

/-! ### Failures -/

inductive TransportErrorCode where
  | encodeRejected
  | malformedFrame
  | frameTooLarge
  | frameTooDeep
  | pollutionKey
  | unsupportedValue
deriving DecidableEq

structure TransportError where
  code : TransportErrorCode
  message : String
deriving DecidableEq

/-- Nesting depth refused on both directions. -/
def maxDepth : ℕ := 128

/-- Byte ceiling on a frame that is decoded. -/
def maxFrameBytes : ℕ := 4194304

/-- How many values one message may expand to. -/
def maxNodes : ℕ := 1000000

/-! ### Messages -/

/-- An object's identity. -/
abbrev ObjectId := ℕ

inductive MessageValue where
  | undefined
  | null
  | boolean (b : Bool)
  | number (n : JsNumber)
  | negativeZero
  | string (s : String)
  | function
  | symbol
  | bigint (n : ℤ)
  | reference (id : ObjectId)
deriving DecidableEq

/-- An own enumerable property under a string key. -/
inductive Property where
  | data (value : MessageValue)
  /-- With no getter it reads as `undefined`. -/
  | accessor (getter : Bool)
deriving DecidableEq

/-- What an object is, other than an array or a plain one. -/
inductive Exotic where
  | noPrototype
  | instance (name : Option String)
deriving DecidableEq

inductive MessageObject where
  /-- What reading each index gives; `none` is a hole. -/
  | array (slots : List (Option MessageValue))
  /-- Its prototype is `Object.prototype`; the own keys in the order `Object.keys` lists them. -/
  | plain (entries : List (String × Property)) (distinct : (entries.map Prod.fst).Nodup)
  | exotic (kind : Exotic)

/-- The objects a message may reach. -/
abbrev Heap := ObjectId → MessageObject

/-- What stands under one key of a container. -/
inductive Child where
  | hole
  | value (v : MessageValue)
  | accessor (getter : Bool)
deriving DecidableEq

def Property.child : Property → Child
  | .data v => .value v
  | .accessor getter => .accessor getter

/-- What the walk finds there; a hole stands for `null`. -/
def Child.read : Child → MessageValue
  | .hole => .null
  | .value v => v
  | .accessor _ => .undefined

theorem Child.read_value (v : MessageValue) : (Child.value v).read = v := rfl

def MessageObject.isArray : MessageObject → Bool
  | .array _ => true
  | .plain .. | .exotic _ => false

/-- `keysOf`, each key with what it leads to. -/
def MessageObject.children : MessageObject → List (String × Child)
  | .array slots => slots.zipIdx.map (fun (slot, i) => (toString i, slot.elim .hole .value))
  | .plain entries _ => entries.map (fun (key, property) => (key, property.child))
  | .exotic _ => []

/-! ### The walk of `encode` -/

/-- Where in the message a rejection happened. -/
def at' (path : String) : String := if path = "" then "the message root" else path

def rejected (path message : String) : TransportError := ⟨.encodeRejected, at' path ++ message⟩

def Exotic.describe : Exotic → String
  | .noPrototype => "a prototype-less object"
  | .instance none => "a non-plain object"
  | .instance (some name) => if name = "Object" then "a non-plain object" else "a " ++ name ++ " instance"

/-- `none` for a container, which the walk goes into. -/
def admitLeaf (heap : Heap) (value : MessageValue) (path : String) : Except TransportError (Option JsonValue) :=
  let unsendable (what : String) := Except.error (rejected path (" is " ++ what ++ ", which cannot cross a wire. " ++
    "Payloads are plain values only; encode entity and player references to their ids before sending."))
  match value with
  | .string s => .ok (some (.string s))
  | .boolean b => .ok (some (.boolean b))
  | .number .nan => .error (rejected path (" is NaN, which JSON silently encodes as null: send a null, a sentinel, " ++
      "or omit the field."))
  | .number .posInfinity => .error (rejected path " is Infinity, which JSON silently encodes as null.")
  | .number .negInfinity => .error (rejected path " is -Infinity, which JSON silently encodes as null.")
  | .number (.finite q) => .ok (some (.number q))
  | .negativeZero => .ok (some (.number 0))
  | .undefined => .error (rejected path (" is undefined, which JSON DROPS: the peer would receive a frame with the key " ++
      "missing. Send null if the absence is meaningful."))
  | .function => unsendable "a function"
  | .symbol => unsendable "a symbol"
  | .bigint n => unsendable ("a BigInt (" ++ toString n ++ "n)")
  | .null => .ok (some .null)
  | .reference id =>
    match heap id with
    | .exotic kind => .error (rejected path (" is " ++ kind.describe ++ "; the wire would deliver something other than " ++
        "what was sent. Send a plain object of plain values."))
    | .array _ | .plain .. => .ok none

/-- A container part-way through the walk: its copy, and what is still to be filled in. -/
structure Pending where
  source : ObjectId
  isArray : Bool
  /-- The key it stands under in the frame below. -/
  key : String
  path : String
  copy : List (String × JsonValue)
  todo : List (String × Child)

/-- Where a child sits. -/
def Pending.leafPath (frame : Pending) (key : String) : String :=
  if frame.isArray then frame.path ++ "[" ++ key ++ "]" else frame.path ++ "." ++ key

def Pending.setChild (frame : Pending) (key : String) (value : JsonValue) : Pending :=
  { frame with copy := frame.copy ++ [(key, value)] }

/-- The copy once every key is filled in. -/
def Pending.value (frame : Pending) : JsonValue :=
  if frame.isArray then .array (frame.copy.map Prod.snd) else .object frame.copy

def Pending.start (heap : Heap) (source : ObjectId) (key path : String) : Pending where
  source := source
  isArray := (heap source).isArray
  key := key
  path := path
  copy := []
  todo := (heap source).children

/-- The stack, top frame first; the containers on it; how many values were met. -/
structure Walk where
  top : Pending
  below : List Pending
  opened : List ObjectId
  nodes : ℕ

inductive Progress where
  | more (w : Walk)
  | done (value : JsonValue)

/-- Pushes the frame of a container. -/
def Walk.enter (heap : Heap) (w : Walk) (key : String) (id : ObjectId) : Except TransportError Walk :=
  let path := w.top.leafPath key
  if id ∈ w.opened then .error (rejected path " is a circular reference, which JSON cannot encode.")
  else if maxDepth ≤ w.below.length + 1 then
    .error (rejected path (" nests deeper than " ++ toString maxDepth ++ " levels, past what a wire decoder will walk. " ++
      "Flatten the payload."))
  else .ok { w with top := .start heap id key path, below := w.top :: w.below, opened := id :: w.opened }

/-- One value under `key` of the top frame. -/
def Walk.visit (heap : Heap) (w : Walk) (key : String) (child : Child) : Except TransportError Walk :=
  let path := w.top.leafPath key
  if maxNodes < w.nodes then
    .error ⟨.encodeRejected, "the message expands to more than " ++ toString maxNodes ++ " values. An object referenced " ++
      "from several places is copied once per reference, exactly as a wire would deliver it, so sharing one object " ++
      "across a few levels multiplies rather than adds. Send ids instead of repeating the object."⟩
  else if child = .hole then .ok { w with top := w.top.setChild key .null }
  else if !w.top.isArray ∧ key ∈ reservedKeys then
    .error (rejected path (" uses the reserved key \"" ++ key ++ "\", which a decoder must refuse because it poisons any " ++
      "recursive merge downstream: and an own \"__proto__\" key would not even survive the copy. Rename the field."))
  else if !w.top.isArray ∧ child = .accessor true then
    .error (rejected path (" is a getter; a wire carries data, not computation, and invoking it could throw or mutate " ++
      "mid-encode."))
  else
    match admitLeaf heap child.read path with
    | .error e => .error e
    | .ok (some leaf) => .ok { w with top := w.top.setChild key leaf }
    | .ok none =>
      match child.read with
      | .reference id => w.enter heap key id
      | _ => .ok w

/-- One turn of the loop. -/
def Walk.step (heap : Heap) (w : Walk) : Except TransportError Progress :=
  match w.top.todo with
  | [] =>
    match w.below with
    | [] => .ok (.done w.top.value)
    | parent :: below =>
      .ok (.more ⟨parent.setChild w.top.key w.top.value, below, w.opened.erase w.top.source, w.nodes⟩)
  | (key, child) :: todo =>
    (Walk.visit heap { w with top := { w.top with todo := todo }, nodes := w.nodes + 1 } key child).map .more

/-! ### Each turn makes progress -/

/-- Only a container is gone into. -/
theorem reference_of_admitLeaf {heap : Heap} {v : MessageValue} {path : String}
    (h : admitLeaf heap v path = .ok none) : ∃ id, v = .reference id := by
  cases v with
  | reference id => exact ⟨id, rfl⟩
  | number n => cases n <;> cases h
  | _ => cases h

theorem enter_cases {heap : Heap} {w w' : Walk} {key : String} {id : ObjectId} (h : w.enter heap key id = .ok w') :
    id ∉ w.opened ∧ w.below.length + 1 < maxDepth ∧ w' = { w with
      top := .start heap id key (w.top.leafPath key), below := w.top :: w.below, opened := id :: w.opened } := by
  unfold Walk.enter at h
  simp only at h
  split_ifs at h with hopened hdeep
  exact ⟨hopened, not_le.mp hdeep, (Except.ok.inj h).symm⟩

/-- The child is a leaf, written into the copy. -/
structure Walk.Filled (heap : Heap) (w : Walk) (key : String) (child : Child) (w' : Walk) (leaf : JsonValue) : Prop where
  step : w' = { w with top := w.top.setChild key leaf }
  taken : child = .hole ∧ leaf = .null ∨
    child ≠ .hole ∧ (w.top.isArray = false → key ∉ reservedKeys ∧ child ≠ .accessor true) ∧
      admitLeaf heap child.read (w.top.leafPath key) = .ok (some leaf)

/-- The child is a container, whose frame is pushed. -/
structure Walk.Entered (heap : Heap) (w : Walk) (key : String) (child : Child) (w' : Walk) (id : ObjectId) : Prop where
  step : w' = { w with
    top := .start heap id key (w.top.leafPath key), below := w.top :: w.below, opened := id :: w.opened }
  container : child = .value (.reference id)
  named : w.top.isArray = false → key ∉ reservedKeys
  admitted : admitLeaf heap (.reference id) (w.top.leafPath key) = .ok none
  fresh : id ∉ w.opened
  room : w.below.length + 1 < maxDepth

theorem visit_cases {heap : Heap} {w w' : Walk} {key : String} {child : Child}
    (h : Walk.visit heap w key child = .ok w') : w.nodes ≤ maxNodes ∧
      ((∃ leaf, w.Filled heap key child w' leaf) ∨ ∃ id, w.Entered heap key child w' id) := by
  unfold Walk.visit at h
  simp only at h
  split_ifs at h with hmax hhole hkey hget
  · exact ⟨not_lt.mp hmax, Or.inl ⟨.null, (Except.ok.inj h).symm, Or.inl ⟨hhole, rfl⟩⟩⟩
  · have hkey' : w.top.isArray = false → key ∉ reservedKeys := fun ha hk => hkey ⟨by rw [ha]; rfl, hk⟩
    have hget' : w.top.isArray = false → child ≠ .accessor true := fun ha hc => hget ⟨by rw [ha]; rfl, hc⟩
    refine ⟨not_lt.mp hmax, ?_⟩
    rcases hleaf : admitLeaf heap child.read (w.top.leafPath key) with e | _ | leaf
    · rw [hleaf] at h
      cases h
    · obtain ⟨id, hid⟩ := reference_of_admitLeaf hleaf
      rw [hleaf, hid] at h
      obtain ⟨hfresh, hroom, hstep⟩ := enter_cases h
      have hchild : child = .value (.reference id) := by
        cases child with
        | hole => cases hid
        | value v => exact congrArg Child.value hid
        | accessor g => cases hid
      exact Or.inr ⟨id, hstep, hchild, hkey', hid ▸ hleaf, hfresh, hroom⟩
    · rw [hleaf] at h
      exact Or.inl ⟨leaf, (Except.ok.inj h).symm, Or.inr ⟨hhole, fun ha => ⟨hkey' ha, hget' ha⟩, hleaf⟩⟩

/-- A turn pops a frame, ends the walk or visits a value. -/
theorem step_more {heap : Heap} {w w' : Walk} (h : w.step heap = .ok (.more w')) :
    (∃ parent below, w.top.todo = [] ∧ w.below = parent :: below ∧
      w' = ⟨parent.setChild w.top.key w.top.value, below, w.opened.erase w.top.source, w.nodes⟩) ∨
    ∃ key child todo, w.top.todo = (key, child) :: todo ∧
      Walk.visit heap { w with top := { w.top with todo := todo }, nodes := w.nodes + 1 } key child = .ok w' := by
  unfold Walk.step at h
  rcases htodo : w.top.todo with _ | ⟨⟨key, child⟩, todo⟩
  · rw [htodo] at h
    rcases hbelow : w.below with _ | ⟨parent, below⟩
    · rw [hbelow] at h
      cases h
    · rw [hbelow] at h
      simp only [Except.ok.injEq, Progress.more.injEq] at h
      exact Or.inl ⟨parent, below, rfl, rfl, h.symm⟩
  · rw [htodo] at h
    simp only at h
    refine Or.inr ⟨key, child, todo, rfl, ?_⟩
    rcases hvisit : Walk.visit heap { w with top := { w.top with todo := todo }, nodes := w.nodes + 1 } key child with e | w''
    · rw [hvisit] at h
      cases h
    · rw [hvisit] at h
      cases h
      rfl

theorem step_decreases {heap : Heap} {w w' : Walk} (h : w.step heap = .ok (.more w')) :
    Prod.Lex (· < ·) (· < ·) (maxNodes - w'.nodes, w'.below.length) (maxNodes - w.nodes, w.below.length) := by
  rcases step_more h with ⟨parent, below, -, hbelow, rfl⟩ | ⟨key, child, todo, -, hvisit⟩
  · refine Prod.Lex.right _ ?_
    rw [hbelow]
    exact Nat.lt_succ_self _
  · refine Prod.Lex.left _ _ ?_
    obtain ⟨hmax, ⟨leaf, hfill⟩ | ⟨id, henter⟩⟩ := visit_cases hvisit
    · rw [hfill.step]
      simp only at hmax ⊢
      omega
    · rw [henter.step]
      simp only at hmax ⊢
      omega

/-- The loop: it ends, for a turn meets a new value or pops a frame. -/
def Walk.run (heap : Heap) (w : Walk) : Except TransportError JsonValue :=
  match _ : w.step heap with
  | .error e => .error e
  | .ok (.done value) => .ok value
  | .ok (.more w') => Walk.run heap w'
termination_by (maxNodes - w.nodes, w.below.length)
decreasing_by exact step_decreases (by assumption)

/-- The source's `admit`: validates a message and returns a copy of it. -/
def admitMessage (heap : Heap) (root : MessageValue) : Except TransportError JsonValue :=
  match admitLeaf heap root "" with
  | .error e => .error e
  | .ok (some leaf) => .ok leaf
  | .ok none =>
    match root with
    | .reference id => Walk.run heap ⟨.start heap id "" "", [], [id], 0⟩
    | _ => .ok .null

/-! ### The check of `decode` -/

/-- What `JSON.parse` returns; a numeric literal may overflow. -/
inductive ParsedValue where
  | null
  | boolean (b : Bool)
  | number (n : JsNumber)
  | string (s : String)
  | array (items : List ParsedValue)
  | object (entries : List (String × ParsedValue))

namespace ParsedValue

def isArray : ParsedValue → Bool
  | .array _ => true
  | _ => false

def isContainer : ParsedValue → Bool
  | .array _ | .object _ => true
  | _ => false

def nonFinite : ParsedValue → Bool
  | .number (.finite _) => false
  | .number _ => true
  | _ => false

/-- `Object.keys`, each with its value. -/
def entries : ParsedValue → List (String × ParsedValue)
  | .array items => items.zipIdx.map (fun (item, i) => (toString i, item))
  | .object entries => entries
  | _ => []

mutual

def ofJson : JsonValue → ParsedValue
  | .null => .null
  | .boolean b => .boolean b
  | .number q => .number (.finite q)
  | .string s => .string s
  | .array items => .array (ofItems items)
  | .object entries => .object (ofEntries entries)

def ofItems : List JsonValue → List ParsedValue
  | [] => []
  | v :: rest => ofJson v :: ofItems rest

def ofEntries : List (String × JsonValue) → List (String × ParsedValue)
  | [] => []
  | (k, v) :: rest => (k, ofJson v) :: ofEntries rest

end

end ParsedValue

/-- The first refusal among a node's own entries. -/
def checkEntries (isArray : Bool) : List (String × ParsedValue) → Option TransportError
  | [] => none
  | (key, value) :: rest =>
    if !isArray ∧ key ∈ reservedKeys then
      some ⟨.pollutionKey, "Frame carries a \"" ++ key ++ "\" key, which poisons any recursive merge downstream. " ++
        "Rejected, not stripped: a frame carrying it IS a malformed frame."⟩
    else if value.nonFinite then
      some ⟨.unsupportedValue, "Frame carries a non-finite number at \"" ++ key ++
        "\" (a numeric literal that overflows float64)."⟩
    else checkEntries isArray rest

/-- The containers of a node, last first, as they are pushed. -/
def pushed (node : ParsedValue) (depth : ℕ) : List (ParsedValue × ℕ) :=
  ((node.entries.filter (fun e => e.2.isContainer)).map (fun e => (e.2, depth + 1))).reverse

/-- What is left to walk. -/
noncomputable def stackSize (stack : List (ParsedValue × ℕ)) : ℕ := (stack.map (fun e => sizeOf e.1)).sum

theorem sum_sizeOf_items : ∀ (items : List ParsedValue) (n : ℕ),
    (((items.zipIdx n).map (fun e => sizeOf e.1)).sum) ≤ sizeOf items
  | [], _ => Nat.zero_le _
  | item :: items, n => by
    have ih := sum_sizeOf_items items (n + 1)
    simp only [List.zipIdx_cons, List.map_cons, List.sum_cons, List.cons.sizeOf_spec]
    omega

theorem sum_sizeOf_entries : ∀ (entries : List (String × ParsedValue)),
    ((entries.map (fun e => sizeOf e.2)).sum) ≤ sizeOf entries
  | [] => Nat.zero_le _
  | (key, value) :: entries => by
    have ih := sum_sizeOf_entries entries
    simp only [List.map_cons, List.sum_cons, List.cons.sizeOf_spec, Prod.mk.sizeOf_spec]
    omega

theorem sum_filter_le {α : Type} (p : α → Bool) (f : α → ℕ) :
    ∀ l : List α, ((l.filter p).map f).sum ≤ (l.map f).sum
  | [] => Nat.le_refl _
  | a :: l => by
    have ih := sum_filter_le p f l
    rw [List.filter_cons, List.map_cons, List.sum_cons]
    split_ifs
    · rw [List.map_cons, List.sum_cons]
      omega
    · omega

theorem stackSize_pushed (node : ParsedValue) (depth : ℕ) : stackSize (pushed node depth) < sizeOf node := by
  have hpushed : stackSize (pushed node depth) ≤ (node.entries.map (fun e => sizeOf e.2)).sum := by
    unfold stackSize pushed
    rw [List.map_reverse, List.sum_reverse, List.map_map]
    exact sum_filter_le _ _ _
  refine lt_of_le_of_lt hpushed ?_
  cases node with
  | array items =>
    have hsum := sum_sizeOf_items items 0
    simp only [ParsedValue.entries, List.map_map, Function.comp_def, ParsedValue.array.sizeOf_spec]
    omega
  | object entries =>
    have hsum := sum_sizeOf_entries entries
    simp only [ParsedValue.entries, ParsedValue.object.sizeOf_spec]
    omega
  | null => decide
  | boolean | number | string => simp [ParsedValue.entries]

/-- The loop over a decoded frame's containers, the one on top first. -/
def admitStack : List (ParsedValue × ℕ) → Except TransportError Unit
  | [] => .ok ()
  | (node, depth) :: rest =>
    if maxDepth < depth then
      .error ⟨.frameTooDeep, "Frame nests deeper than " ++ toString maxDepth ++ " levels. Well-formed, but a walk over " ++
        "it is unbounded work on an untrusted path, so it is refused with the frame intact."⟩
    else
      match checkEntries node.isArray node.entries with
      | some e => .error e
      | none => admitStack (pushed node depth ++ rest)
termination_by stack => stackSize stack
decreasing_by
  have hpushed := stackSize_pushed node depth
  simp only [stackSize, List.map_append, List.sum_append, List.map_cons, List.sum_cons] at hpushed ⊢
  omega

/-- Refuses a decoded frame with a pollution key, a value `encode` would refuse, or over-nesting. -/
def admitDecoded (root : ParsedValue) : Except TransportError Unit :=
  if root.nonFinite then
    .error ⟨.unsupportedValue, "Frame is a non-finite number (a numeric literal that overflows float64)."⟩
  else if root.isContainer then admitStack [(root, 1)]
  else .ok ()

/-! ### The two directions -/

inductive Frame where
  | text (s : String)
  | binary (bytes : ℕ)

/-- UTF-8 bytes; a pair of surrogates is one character past `0xffff`. -/
def utf8ByteLength (text : String) : ℕ :=
  (text.toList.map (fun c =>
    if c.toNat < 0x80 then 1 else if c.toNat < 0x800 then 2 else if c.toNat < 0x10000 then 3 else 4)).sum

def byteLength : Frame → ℕ
  | .text s => utf8ByteLength s
  | .binary bytes => bytes

/-- `stringify` is `JSON.stringify` on a validated tree. -/
def encode (stringify : JsonValue → String) (heap : Heap) (message : MessageValue) : Except TransportError Frame :=
  (admitMessage heap message).map (fun value => .text (stringify value))

/-- `parse` is `JSON.parse`, with the message it throws. -/
def decode (parse : String → Except String ParsedValue) : Frame → Except TransportError ParsedValue
  | .binary _ => .error ⟨.malformedFrame, "jsonCodec decodes string frames; received a Uint8Array instance. A binary " ++
      "frame means the peer is running a different codec, which one codec per process rules out."⟩
  | .text s =>
    let bytes := utf8ByteLength s
    if maxFrameBytes < bytes then
      .error ⟨.frameTooLarge, "Frame is " ++ toString bytes ++ " bytes, over the " ++ toString maxFrameBytes ++
        "-byte decode cap."⟩
    else
      match parse s with
      | .error cause => .error ⟨.malformedFrame, "Frame is not valid JSON: " ++ cause⟩
      | .ok parsed => (admitDecoded parsed).map (fun _ => parsed)

end JsonCodec
end Grove
