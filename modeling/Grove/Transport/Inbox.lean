import Grove.Lib.Run

/-! # One end's inbox

`FrameInbox` of `packages/transport/src/inbox.ts`: frames and the terminal marker in one queue, consumed from
a head index.  `Inbox.turn` is one pass of the loop of `drain`, up to the call into a handler: what a handler
does there (queue, register, dispose, drain again, throw) happens between two turns, so a drain that is under
way has no state of its own (`Traced.stack` only counts them).

`inbox_delivers` is what holds after any such interleaving: what arrived is what was consumed followed by what
is queued. -/

namespace Grove
namespace FrameInbox

variable {F M E : Type}

/-- What the inbox uses of a codec. -/
structure FrameCodec (F M E : Type) where
  byteLength : F → ℕ
  decode : F → Except E M

structure Policy (F M E : Type) extends FrameCodec F M E where
  /-- `⊤` is `Infinity`. -/
  maxRetainedBytes : WithTop ℚ

inductive Item (F : Type) where
  | frame (frame : F)
  | closeMarker
deriving DecidableEq

/-- An inbox entry; `due` counts down. -/
structure Queued (F : Type) where
  item : Item F
  bytes : ℕ
  due : ℕ
deriving DecidableEq

/-- A handler function, by identity. -/
abbrev Handler := ℕ

structure Inbox (F : Type) where
  entries : List (Queued F)
  /-- Where the undelivered entries start. -/
  head : ℕ
  onMessage : Option Handler
  onClose : Option Handler
  closeFired : Bool
  queuedBytes : ℕ

def Inbox.create : Inbox F := ⟨[], 0, none, none, false, 0⟩

namespace Inbox

variable (box : Inbox F)

/-- The entries not consumed yet. -/
def pending : List (Queued F) := box.entries.drop box.head

/-! ### The operations -/

/-- Whether the retention cap turns this frame away. -/
def refuses (policy : Policy F M E) (frame : F) : Prop :=
  box.onMessage = none ∧ policy.maxRetainedBytes < ((box.queuedBytes + policy.byteLength frame : ℕ) : ℚ)

instance (policy : Policy F M E) (frame : F) : Decidable (box.refuses policy frame) :=
  inferInstanceAs (Decidable (_ ∧ _))

/-- Queues an arrived frame; `none` when it was dropped and reported. -/
def enqueue (policy : Policy F M E) (frame : F) (due : ℕ) : Option (Inbox F) :=
  let bytes := policy.byteLength frame
  if box.refuses policy frame then none
  else some { box with queuedBytes := box.queuedBytes + bytes, entries := box.entries ++ [⟨.frame frame, bytes, due⟩] }

def queueClose (due : ℕ) : Inbox F := { box with entries := box.entries ++ [⟨.closeMarker, 0, due⟩] }

/-- One pump pass. -/
def age : Inbox F :=
  { box with entries := box.entries.take box.head ++ (box.entries.drop box.head).map (fun e => { e with due := e.due - 1 }) }

/-- Reclaims the consumed prefix. -/
def compact : Inbox F :=
  if box.head = 0 then box
  else if box.entries.length ≤ box.head then { box with entries := [], head := 0 }
  else if 1024 ≤ box.head ∧ box.entries.length ≤ box.head * 2 then { box with entries := box.entries.drop box.head, head := 0 }
  else box

/-- `none` when a handler is registered already. -/
def registerMessage (handler : Handler) : Option (Inbox F) :=
  if box.onMessage.isSome then none else some { box with onMessage := some handler }

def registerClose (handler : Handler) : Option (Inbox F) :=
  if box.onClose.isSome then none else some { box with onClose := some handler }

/-- What the disposer of a registration does. -/
def disposeMessage (handler : Handler) : Inbox F :=
  if box.onMessage = some handler then { box with onMessage := none } else box

def disposeClose (handler : Handler) : Inbox F :=
  if box.onClose = some handler then { box with onClose := none } else box

end Inbox

/-! ### One pass of the drain -/

/-- Where one pass of the loop ends: out of it, or with an entry consumed. -/
inductive Turn (F M E : Type) where
  | left (box : Inbox F)
  /-- A second marker. -/
  | skipped (next : Queued F) (box : Inbox F)
  | closing (next : Queued F) (box : Inbox F) (handler : Handler)
  | message (next : Queued F) (box : Inbox F) (handler : Handler) (m : M)
  /-- The frame does not decode, and the drain is over. -/
  | failed (next : Queued F) (box : Inbox F) (error : E)

namespace Inbox

variable (codec : FrameCodec F M E) (box : Inbox F)

def turn : Turn F M E :=
  match box.entries[box.head]? with
  | none => .left box.compact
  | some next =>
    if 0 < next.due then .left box.compact
    else
      match next.item with
      | .closeMarker =>
        match box.onClose with
        | none => .left box.compact
        | some handler =>
          if box.closeFired then .skipped next { box with head := box.head + 1 }
          else .closing next { box with head := box.head + 1, closeFired := true } handler
      | .frame frame =>
        match box.onMessage with
        | none => .left box.compact
        | some handler =>
          let taken := { box with head := box.head + 1, queuedBytes := box.queuedBytes - next.bytes }
          match codec.decode frame with
          | .error e => .failed next taken e
          | .ok m => .message next taken handler m

/-- Whether a drain would stop at once. -/
def Idle : Prop :=
  ∀ next ∈ box.pending.head?, 0 < next.due ∨
    (next.item = .closeMarker ∧ box.onClose = none) ∨ ((∃ frame, next.item = .frame frame) ∧ box.onMessage = none)

/-! ### What an operation does to the queue -/

variable {codec} {box}

/-- Everything but the array and its head. -/
structure Same (box box' : Inbox F) : Prop where
  pending : box'.pending = box.pending
  onMessage : box'.onMessage = box.onMessage
  onClose : box'.onClose = box.onClose
  closeFired : box'.closeFired = box.closeFired
  queuedBytes : box'.queuedBytes = box.queuedBytes
  head : box'.head ≤ box'.entries.length

theorem same_compact (h : box.head ≤ box.entries.length) : Same box box.compact := by
  unfold compact
  split_ifs with hzero hall hhalf
  · exact ⟨rfl, rfl, rfl, rfl, rfl, h⟩
  · refine ⟨?_, rfl, rfl, rfl, rfl, Nat.le_refl _⟩
    unfold pending
    rw [List.drop_of_length_le hall]
    rfl
  · exact ⟨rfl, rfl, rfl, rfl, rfl, Nat.zero_le _⟩
  · exact ⟨rfl, rfl, rfl, rfl, rfl, h⟩

theorem pending_snoc {e : Queued F} (h : box.head ≤ box.entries.length) :
    (box.entries ++ [e]).drop box.head = box.pending ++ [e] := List.drop_append_of_le_length h

theorem pending_age (h : box.head ≤ box.entries.length) :
    box.age.pending = box.pending.map (fun e => { e with due := e.due - 1 }) := by
  unfold pending age
  have hlength : (box.entries.take box.head).length = box.head := List.length_take_of_le h
  conv_lhs => rw [List.drop_append, hlength, Nat.sub_self, List.drop_zero]
  rw [List.drop_of_length_le hlength.le]
  rfl

/-- The entry at the head, consumed. -/
structure Taken (next : Queued F) (box box' : Inbox F) : Prop where
  pending : box.pending = next :: box'.pending
  due : next.due = 0
  onMessage : box'.onMessage = box.onMessage
  onClose : box'.onClose = box.onClose
  head : box'.head ≤ box'.entries.length
  shorter : box'.entries.length - box'.head < box.entries.length - box.head

theorem pending_of_getElem {next : Queued F} (h : box.entries[box.head]? = some next) :
    box.head < box.entries.length ∧ box.pending = next :: box.entries.drop (box.head + 1) := by
  obtain ⟨hlt, hget⟩ := List.getElem?_eq_some_iff.mp h
  refine ⟨hlt, ?_⟩
  unfold pending
  rw [List.drop_eq_getElem_cons hlt, hget]

/-- What one pass of the loop does. -/
inductive TurnSpec (codec : FrameCodec F M E) (box : Inbox F) : Turn F M E → Prop where
  | left (hidle : box.Idle) : TurnSpec codec box (.left box.compact)
  | skipped {next : Queued F} {box' : Inbox F} (htaken : Taken next box box') (hitem : next.item = .closeMarker)
      (hfired : box.closeFired = true) (hfired' : box'.closeFired = true) (hbytes : box'.queuedBytes = box.queuedBytes) :
      TurnSpec codec box (.skipped next box')
  | closing {next : Queued F} {box' : Inbox F} {handler : Handler} (htaken : Taken next box box')
      (hitem : next.item = .closeMarker) (hfired : box.closeFired = false) (hfired' : box'.closeFired = true)
      (hbytes : box'.queuedBytes = box.queuedBytes) (hhandler : box.onClose = some handler) :
      TurnSpec codec box (.closing next box' handler)
  | message {next : Queued F} {box' : Inbox F} {handler : Handler} {frame : F} {m : M} (htaken : Taken next box box')
      (hitem : next.item = .frame frame) (hfired : box'.closeFired = box.closeFired)
      (hbytes : box'.queuedBytes = box.queuedBytes - next.bytes) (hhandler : box.onMessage = some handler)
      (hdecode : codec.decode frame = .ok m) : TurnSpec codec box (.message next box' handler m)
  | failed {next : Queued F} {box' : Inbox F} {frame : F} {e : E} (htaken : Taken next box box')
      (hitem : next.item = .frame frame) (hfired : box'.closeFired = box.closeFired)
      (hbytes : box'.queuedBytes = box.queuedBytes - next.bytes) (hdecode : codec.decode frame = .error e) :
      TurnSpec codec box (.failed next box' e)

theorem turn_spec (codec : FrameCodec F M E) (box : Inbox F) : TurnSpec codec box (box.turn codec) := by
  unfold turn
  rcases hget : box.entries[box.head]? with _ | next
  · refine .left (fun next hnext => ?_)
    unfold pending at hnext
    rw [List.drop_of_length_le (List.getElem?_eq_none_iff.mp hget)] at hnext
    cases hnext
  · obtain ⟨hlt, hpending⟩ := pending_of_getElem hget
    have hidle : 0 < next.due ∨ (next.item = .closeMarker ∧ box.onClose = none) ∨
        ((∃ frame, next.item = .frame frame) ∧ box.onMessage = none) → box.Idle := by
      intro h next' hnext'
      rw [hpending] at hnext'
      obtain rfl : next = next' := Option.some.inj hnext'
      exact h
    have htaken : ∀ {box' : Inbox F}, box'.entries = box.entries → box'.head = box.head + 1 →
        box'.onMessage = box.onMessage → box'.onClose = box.onClose → next.due = 0 → Taken next box box' := by
      intro box' hentries hhead hmessage hclose hdue
      refine ⟨?_, hdue, hmessage, hclose, ?_, ?_⟩
      · rw [hpending]
        unfold pending
        rw [hentries, hhead]
      · rw [hentries, hhead]
        exact hlt
      · rw [hentries, hhead]
        omega
    simp only
    by_cases hdue : 0 < next.due
    · rw [if_pos hdue]
      exact .left (hidle (Or.inl hdue))
    rw [if_neg hdue]
    have hzero : next.due = 0 := Nat.eq_zero_of_not_pos hdue
    rcases hitem : next.item with frame | _
    · rcases hmessage : box.onMessage with _ | handler
      · exact .left (hidle (Or.inr (Or.inr ⟨⟨frame, hitem⟩, hmessage⟩)))
      · simp only
        rcases hdecode : codec.decode frame with e | m
        · exact .failed (htaken rfl rfl hmessage.symm rfl hzero) hitem rfl rfl hdecode
        · exact .message (htaken rfl rfl hmessage.symm rfl hzero) hitem rfl rfl hmessage hdecode
    · rcases hclose : box.onClose with _ | handler
      · exact .left (hidle (Or.inr (Or.inl ⟨hitem, hclose⟩)))
      · simp only
        rcases hfired : box.closeFired with _ | _
        · exact .closing (htaken rfl rfl rfl hclose.symm hzero) hitem hfired rfl rfl hclose
        · exact .skipped (htaken rfl rfl rfl hclose.symm hzero) hitem hfired rfl rfl

end Inbox

end FrameInbox
end Grove
