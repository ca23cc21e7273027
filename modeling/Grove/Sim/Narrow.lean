import Grove.Lib.OrderedMap
import Grove.Math.SlotTable
import Grove.Sim.Constants
import Grove.Transport.JsonText

/-! # Narrowing an inbound frame

`asClientEnvelope` of `packages/sim/src/sim.ts` and the check it makes for each kind, on what the
codec decoded.  A check reads a property that is absent as `undefined`, here `none`. -/

namespace Grove
open JsonCodec (ParsedValue)

/-! ### The wire form of an envelope -/

namespace InputPhase

def wire : InputPhase → String
  | .press => "press"
  | .release => "release"
  | .hold => "hold"

end InputPhase

/-- An optional property: absent, not undefined. -/
def optionalField (key : String) (value : Option JsonValue) : List (String × JsonValue) :=
  value.elim [] (fun v => [(key, v)])

def InputAction.toJson (a : InputAction) : JsonValue :=
  .object ([("action", .string a.action), ("on", .string a.on.wire)] ++ optionalField "value" (a.value.map .number))

def Interaction.toJson : Interaction → JsonValue
  | .press widget screen =>
    .object ([("kind", .string "press"), ("widget", .string widget)] ++ optionalField "screen" (screen.map .string))
  | .click netId => .object [("kind", .string "click"), ("netId", .number netId)]
  | .hoverEnter netId => .object [("kind", .string "hover-enter"), ("netId", .number netId)]
  | .hoverExit netId => .object [("kind", .string "hover-exit"), ("netId", .number netId)]

def GameRequest.toJson (r : GameRequest) : JsonValue :=
  .object ([("name", .string r.name)] ++ optionalField "data" (r.data.map .object))

/-- The object an envelope is. -/
def ClientToServer.toJson : ClientToServer → JsonValue
  | .joinRequest r => .object [("kind", .string "join-request"), ("protocolVersion", .number r.protocolVersion),
      ("name", .string r.name), ("clientSentMs", .number r.clientSentMs), ("projectId", .string r.projectId),
      ("projectHash", .string r.projectHash), ("bundleHash", .string r.bundleHash)]
  | .input frame => .object [("kind", .string "input"), ("tick", .number frame.tick), ("seq", .number frame.seq),
      ("actions", .array (frame.actions.map InputAction.toJson))]
  | .interaction tick events => .object [("kind", .string "interaction"), ("tick", .number tick),
      ("events", .array (events.map Interaction.toJson))]
  | .request tick requests => .object [("kind", .string "request"), ("tick", .number tick),
      ("requests", .array (requests.map GameRequest.toJson))]
  | .timeSync sync => .object [("kind", .string "time-sync"), ("clientSentMs", .number sync.clientSentMs)]

/-- The message a frame decodes to. -/
def ClientToServer.message (e : ClientToServer) : ParsedValue := .ofJson e.toJson

/-! ### Bounds -/

/-- Actions one input frame may carry. -/
def maxActionsPerFrame : ℕ := 32

/-- Longest accepted action name. -/
def maxActionNameLength : ℕ := 64

/-- Interactions one frame may carry. -/
def maxInteractionsPerFrame : ℕ := 16

/-- Longest accepted widget or screen name. -/
def maxWidgetNameLength : ℕ := 64

/-- Requests one frame may carry, a bound both ends share. -/
def maxRequestsPerFrame : ℕ := 16

/-- Longest accepted request name. -/
def maxRequestNameLength : ℕ := 64

/-- Values one request payload may hold. -/
def maxRequestPayloadNodes : ℕ := 256

/-- Longest accepted identity string. -/
def maxIdentityLength : ℕ := 128

/-- The `length` of a string, in UTF-16 units. -/
def utf16Length (s : String) : ℕ := (s.toList.map (fun c => if c.toNat < 0x10000 then 1 else 2)).sum

/-- A name both ends accept. -/
def boundedName (max : ℕ) (s : String) : Bool := s ≠ "" && utf16Length s ≤ max

def safeInteger (q : ℚ) : Bool := q.den = 1 && |q.num| ≤ maxSafeInteger

/-! ### Reading a message -/

/-- The property under a key. -/
def JsonCodec.ParsedValue.field (v : ParsedValue) (key : String) : Option ParsedValue :=
  match v with
  | .object entries => OrderedMap.lookup key entries
  | _ => none

def isSafeInteger : Option ParsedValue → Bool
  | some (.number (.finite q)) => safeInteger q
  | _ => false

def isFinite : Option ParsedValue → Bool
  | some (.number (.finite _)) => true
  | _ => false

def isNumber : Option ParsedValue → Bool
  | some (.number _) => true
  | _ => false

def isString : Option ParsedValue → Bool
  | some (.string _) => true
  | _ => false

/-- A string that is not empty and not too long. -/
def isName (max : ℕ) : Option ParsedValue → Bool
  | some (.string s) => boundedName max s
  | _ => false

/-- An array of at most `max` items, each of which `check` accepts. -/
def isArrayOf (max : ℕ) (check : ParsedValue → Bool) : Option ParsedValue → Bool
  | some (.array items) => items.length ≤ max && items.all check
  | _ => false

/-! ### The payload -/

/-- The keys of one node, with the count so far; `none` once one of them is refused. -/
def checkPayload (isArray : Bool) : List (String × ParsedValue) → ℕ → Option ℕ
  | [], nodes => some nodes
  | (key, child) :: rest, nodes =>
    if !isArray ∧ key ∈ reservedKeys then none
    else if maxRequestPayloadNodes < nodes + 1 then none
    else if child.nonFinite then none
    else checkPayload isArray rest (nodes + 1)

/-- The loop over the payload's nodes, the one on top first. -/
def admissibleNodes : List ParsedValue → ℕ → Bool
  | [], _ => true
  | node :: rest, nodes =>
    match checkPayload node.isArray node.entries nodes with
    | none => false
    | some nodes => admissibleNodes ((node.entries.map Prod.snd).reverse ++ rest) nodes
termination_by stack => (stack.map sizeOf).sum
decreasing_by
  have hsize : ((node.entries.map Prod.snd).map sizeOf).sum < sizeOf node := by
    cases node with
    | array items =>
      have hsum := JsonCodec.sum_sizeOf_items items 0
      simp only [JsonCodec.ParsedValue.entries, List.map_map, Function.comp_def, ParsedValue.array.sizeOf_spec]
      omega
    | object entries =>
      have hsum := JsonCodec.sum_sizeOf_entries entries
      simp only [JsonCodec.ParsedValue.entries, List.map_map, Function.comp_def, ParsedValue.object.sizeOf_spec]
      omega
    | null => decide
    | boolean b => simp [JsonCodec.ParsedValue.entries]
    | number n => simp [JsonCodec.ParsedValue.entries]
    | string s => simp [JsonCodec.ParsedValue.entries]
  simp only [List.map_append, List.map_reverse, List.sum_append, List.sum_reverse, List.map_cons, List.sum_cons]
  omega

/-- Whether a payload's graph fits the node bound, with no reserved key and no non-finite number. -/
def isAdmissiblePayload (payload : ParsedValue) : Bool := admissibleNodes [payload] 0

/-! ### One check for each kind -/

def isInputAction (a : ParsedValue) : Bool :=
  isName maxActionNameLength (a.field "action") &&
    (match a.field "on" with
      | some (.string on) => on = "press" || on = "release" || on = "hold"
      | _ => false) &&
    ((a.field "value").isNone || isFinite (a.field "value"))

def isInputFrame (m : ParsedValue) : Bool :=
  isSafeInteger (m.field "tick") && isSafeInteger (m.field "seq") &&
    isArrayOf maxActionsPerFrame isInputAction (m.field "actions")

def isWidgetName (value : Option ParsedValue) : Bool := isName maxWidgetNameLength value

def isInteraction (e : ParsedValue) : Bool :=
  match e.field "kind" with
  | some (.string kind) =>
    if kind = "press" then
      isWidgetName (e.field "widget") && ((e.field "screen").isNone || isWidgetName (e.field "screen"))
    else if kind = "click" ∨ kind = "hover-enter" ∨ kind = "hover-exit" then
      match e.field "netId" with
      | some (.number (.finite q)) => safeInteger q && 0 ≤ q
      | _ => false
    else false
  | _ => false

def isInteractionFrame (m : ParsedValue) : Bool :=
  isSafeInteger (m.field "tick") && isArrayOf maxInteractionsPerFrame isInteraction (m.field "events")

def isGameRequest (r : ParsedValue) : Bool :=
  isName maxRequestNameLength (r.field "name") &&
    (match r.field "data" with
      | none => true
      | some (.object entries) => isAdmissiblePayload (.object entries)
      | some _ => false)

def isRequestFrame (m : ParsedValue) : Bool :=
  isSafeInteger (m.field "tick") && isArrayOf maxRequestsPerFrame isGameRequest (m.field "requests")

/-- An identity field: short enough to compare, and it may be empty. -/
def isIdentityString : Option ParsedValue → Bool
  | some (.string s) => utf16Length s ≤ maxIdentityLength
  | _ => false

def isJoinRequest (m : ParsedValue) : Bool :=
  isNumber (m.field "protocolVersion") && isString (m.field "name") && isFinite (m.field "clientSentMs") &&
    isIdentityString (m.field "projectId") && isIdentityString (m.field "projectHash") &&
    isIdentityString (m.field "bundleHash")

def isTimeSync (m : ParsedValue) : Bool := isFinite (m.field "clientSentMs")

/-- The message itself, where it is one a client may send. -/
def asClientEnvelope (message : ParsedValue) : Option ParsedValue :=
  match message.field "kind" with
  | some (.string kind) =>
    let accepted :=
      if kind = "join-request" then isJoinRequest message
      else if kind = "input" then isInputFrame message
      else if kind = "interaction" then isInteractionFrame message
      else if kind = "request" then isRequestFrame message
      else if kind = "time-sync" then isTimeSync message
      else false
    if accepted then some message else none
  | _ => none

/-! ### Which frames are accepted -/

/-- A node whose keys are free is only counted. -/
theorem checkPayload_eq {isArray : Bool} : ∀ {entries : List (String × ParsedValue)} {nodes : ℕ},
    (∀ e ∈ entries, (isArray = false → e.1 ∉ reservedKeys) ∧ e.2.nonFinite = false) → nodes ≤ maxRequestPayloadNodes →
      checkPayload isArray entries nodes =
        if nodes + entries.length ≤ maxRequestPayloadNodes then some (nodes + entries.length) else none
  | [], nodes, _, hn => by simp [checkPayload, hn]
  | (key, child) :: rest, nodes, h, hn => by
    obtain ⟨hkey, hfinite⟩ := h _ List.mem_cons_self
    have hkey' : ¬ ((!isArray) = true ∧ key ∈ reservedKeys) :=
      fun ⟨ha, hk⟩ => hkey (by simpa using ha) hk
    rw [checkPayload, if_neg hkey']
    by_cases hmax : maxRequestPayloadNodes < nodes + 1
    · rw [if_pos hmax, if_neg (by simp only [List.length_cons]; omega)]
    · rw [if_neg hmax, hfinite, if_neg (by simp),
        checkPayload_eq (fun e he => h e (List.mem_cons_of_mem _ he)) (by omega)]
      simp only [List.length_cons]
      have : nodes + 1 + rest.length = nodes + (rest.length + 1) := by omega
      rw [this]

/-- The loop counts every value on the stack. -/
theorem admissibleNodes_iff (l : List JsonValue) (nodes : ℕ) (hl : ∀ v ∈ l, v.unreserved = true)
    (hn : nodes ≤ maxRequestPayloadNodes) : admissibleNodes (l.map ParsedValue.ofJson) nodes = true ↔
      nodes + (l.map JsonValue.valuesBelow).sum ≤ maxRequestPayloadNodes := by
  induction h : (l.map (fun v => v.valuesBelow + 1)).sum using Nat.strong_induction_on generalizing l nodes with
  | _ size ih =>
    cases l with
    | nil => simp [admissibleNodes, hn]
    | cons v rest =>
      have hv := hl v List.mem_cons_self
      have hbelow := valuesBelow_eq v
      have hlength : (ParsedValue.ofJson v).entries.length = v.nested.length := by
        have := congrArg List.length (entries_ofJson v)
        simpa using this
      have hcount : v.nested.length ≤ v.valuesBelow := by
        rw [hbelow, List.sum_map_add]
        simp
      rw [List.map_cons, admissibleNodes, checkPayload_eq (entries_free hv) hn, hlength]
      simp only [List.map_cons, List.sum_cons] at h ⊢
      by_cases hmax : nodes + v.nested.length ≤ maxRequestPayloadNodes
      · rw [if_pos hmax]
        simp only
        rw [entries_ofJson, ← List.map_reverse, ← List.map_append]
        have hsum : ((v.nested.reverse ++ rest).map JsonValue.valuesBelow).sum + v.nested.length =
            v.valuesBelow + (rest.map JsonValue.valuesBelow).sum := by
          rw [List.map_append, List.sum_append, List.map_reverse, List.sum_reverse, hbelow, List.sum_map_add]
          simp only [List.map_const', List.sum_replicate, smul_eq_mul, mul_one]
          omega
        have hnew : ∀ w ∈ v.nested.reverse ++ rest, w.unreserved = true := by
          intro w hw
          rcases List.mem_append.mp hw with hw | hw
          · exact unreserved_nested hv (List.mem_reverse.mp hw)
          · exact hl w (List.mem_cons_of_mem _ hw)
        have hless : ((v.nested.reverse ++ rest).map (fun w => w.valuesBelow + 1)).sum < size := by
          rw [List.map_append, List.sum_append, List.map_reverse, List.sum_reverse, ← hbelow]
          omega
        rw [ih _ hless _ _ hnew hmax rfl]
        omega
      · rw [if_neg hmax]
        constructor
        · intro hfalse
          cases hfalse
        · intro hle
          omega

/-- A payload without a reserved key is admissible exactly when it holds few enough values. -/
theorem isAdmissiblePayload_iff {v : JsonValue} (h : v.unreserved = true) :
    isAdmissiblePayload (.ofJson v) = true ↔ v.valuesBelow ≤ maxRequestPayloadNodes := by
  have := admissibleNodes_iff [v] 0 (by simpa using h) (Nat.zero_le _)
  simpa [isAdmissiblePayload] using this

/-- An integer a double holds exactly. -/
def SafeInteger (n : ℤ) : Prop := |n| ≤ maxSafeInteger

instance (n : ℤ) : Decidable (SafeInteger n) := inferInstanceAs (Decidable (|n| ≤ maxSafeInteger))

theorem isSafeInteger_iff (n : ℤ) : isSafeInteger (some (.ofJson (.number n))) = true ↔ SafeInteger n := by
  rw [ofJson_number]
  simp only [isSafeInteger, safeInteger, Rat.den_intCast, Rat.num_intCast, SafeInteger, decide_true, Bool.true_and]
  exact decide_eq_true_iff

theorem isArrayOf_iff {α : Type} {max : ℕ} {check : ParsedValue → Bool} {f : α → JsonValue} {l : List α} :
    isArrayOf max check (some (.ofJson (.array (l.map f)))) = true ↔
      l.length ≤ max ∧ ∀ x ∈ l, check (.ofJson (f x)) = true := by
  simp [isArrayOf, ParsedValue.ofJson, ofItems_eq_map]

theorem field_ofJson (entries : List (String × JsonValue)) (key : String) :
    (ParsedValue.ofJson (.object entries)).field key = (OrderedMap.lookup key entries).map ParsedValue.ofJson := by
  rw [ParsedValue.ofJson, ofEntries_eq_map]
  show OrderedMap.lookup key (entries.map (fun e => (e.1, ParsedValue.ofJson e.2))) = _
  induction entries with
  | nil => rfl
  | cons e entries ih =>
    rw [List.map_cons, OrderedMap.lookup, OrderedMap.lookup, ih]
    split_ifs <;> rfl

theorem isInputAction_iff (a : InputAction) :
    isInputAction (.ofJson a.toJson) = true ↔ boundedName maxActionNameLength a.action = true := by
  rcases a with ⟨action, on, value⟩
  cases on <;> cases value <;>
    simp [isInputAction, InputAction.toJson, field_ofJson, optionalField, InputPhase.wire,
      ofJson_string, ofJson_number, isName, isFinite]

namespace Interaction

/-- Its names are ones the server accepts. -/
def Fits : Interaction → Prop
  | .press widget screen => boundedName maxWidgetNameLength widget = true ∧
      ∀ s ∈ screen, boundedName maxWidgetNameLength s = true
  | .click netId | .hoverEnter netId | .hoverExit netId => SafeInteger netId

instance : ∀ i : Interaction, Decidable i.Fits
  | .press widget screen => inferInstanceAs (Decidable (boundedName maxWidgetNameLength widget = true ∧
      ∀ s ∈ screen, boundedName maxWidgetNameLength s = true))
  | .click netId | .hoverEnter netId | .hoverExit netId => inferInstanceAs (Decidable (SafeInteger netId))

end Interaction

theorem isInteraction_iff (i : Interaction) : isInteraction (.ofJson i.toJson) = true ↔ i.Fits := by
  cases i with
  | press widget screen =>
    cases screen <;>
      simp [isInteraction, Interaction.toJson, field_ofJson, optionalField, ofJson_string,
        isName, isWidgetName, Interaction.Fits]
  | click netId | hoverEnter netId | hoverExit netId =>
    simp [isInteraction, Interaction.toJson, field_ofJson, ofJson_string, ofJson_number,
      safeInteger, Interaction.Fits, SafeInteger]

/-- Its payload has no reserved key, as `requestFields` leaves it. -/
def GameRequest.Unreserved (r : GameRequest) : Prop := ∀ data ∈ r.data, (JsonValue.object data).unreserved = true

/-- Its name is one the server accepts and its payload is small enough. -/
def GameRequest.Fits (r : GameRequest) : Prop := boundedName maxRequestNameLength r.name = true ∧
  ∀ data ∈ r.data, (JsonValue.object data).valuesBelow ≤ maxRequestPayloadNodes

instance (r : GameRequest) : Decidable r.Fits := inferInstanceAs (Decidable (_ ∧ ∀ data ∈ r.data, _))

theorem isGameRequest_iff {r : GameRequest} (h : r.Unreserved) : isGameRequest (.ofJson r.toJson) = true ↔ r.Fits := by
  rcases r with ⟨name, data⟩
  cases data with
  | none =>
    simp [isGameRequest, GameRequest.toJson, field_ofJson, optionalField, ofJson_string,
      isName, GameRequest.Fits]
  | some entries =>
    have hpayload := isAdmissiblePayload_iff (h entries rfl)
    rw [ofJson_entries] at hpayload
    have hname : (ParsedValue.ofJson (GameRequest.toJson ⟨name, some entries⟩)).field "name" = some (.string name) := by
      rw [GameRequest.toJson, field_ofJson]
      rfl
    have hdata : (ParsedValue.ofJson (GameRequest.toJson ⟨name, some entries⟩)).field "data" =
        some (.object (ParsedValue.ofEntries entries)) := by
      rw [GameRequest.toJson, field_ofJson]
      rfl
    rw [isGameRequest, hname, hdata]
    simp [isName, GameRequest.Fits, hpayload]

/-- The server takes the frame as it was sent. -/
def ClientToServer.Accepted (e : ClientToServer) : Prop := asClientEnvelope e.message = some e.message

theorem accepted_input (frame : InputFrame) : (ClientToServer.input frame).Accepted ↔
    SafeInteger frame.tick ∧ SafeInteger frame.seq ∧ frame.actions.length ≤ maxActionsPerFrame ∧
      ∀ a ∈ frame.actions, boundedName maxActionNameLength a.action = true := by
  simp only [ClientToServer.Accepted, asClientEnvelope, ClientToServer.message, ClientToServer.toJson, field_ofJson,
    OrderedMap.lookup]
  simp [ofJson_string, isInputFrame, field_ofJson, isArrayOf_iff, isSafeInteger_iff,
    isInputAction_iff, and_assoc]

theorem accepted_interaction (tick : ℤ) (events : List Interaction) : (ClientToServer.interaction tick events).Accepted ↔
    SafeInteger tick ∧ events.length ≤ maxInteractionsPerFrame ∧ ∀ i ∈ events, i.Fits := by
  simp only [ClientToServer.Accepted, asClientEnvelope, ClientToServer.message, ClientToServer.toJson, field_ofJson,
    OrderedMap.lookup]
  simp [ofJson_string, isInteractionFrame, field_ofJson, isArrayOf_iff,
    isSafeInteger_iff, isInteraction_iff]

theorem accepted_request {tick : ℤ} {requests : List GameRequest} (h : ∀ r ∈ requests, r.Unreserved) :
    (ClientToServer.request tick requests).Accepted ↔
      SafeInteger tick ∧ requests.length ≤ maxRequestsPerFrame ∧ ∀ r ∈ requests, r.Fits := by
  have hall : (∀ r ∈ requests, isGameRequest (.ofJson r.toJson) = true) ↔ ∀ r ∈ requests, r.Fits :=
    forall₂_congr (fun r hr => isGameRequest_iff (h r hr))
  simp only [ClientToServer.Accepted, asClientEnvelope, ClientToServer.message, ClientToServer.toJson, field_ofJson,
    OrderedMap.lookup]
  simp [ofJson_string, isRequestFrame, field_ofJson, isArrayOf_iff, isSafeInteger_iff,
    hall]

end Grove
