import Grove.Lib.Unfolding
import Grove.Transport.Codec

/-! # What the codec refuses, and what it sends

`Fault` lists what a message may not hold anywhere in its tree unfolding; `Copies` relates a message
to the tree that is sent for it.  `WalkOk` is the invariant of the walk: every frame is filled with
copies of the children before its next one, and the nodes counted are the values met so far. -/

namespace Grove
namespace JsonCodec

open Unfolding

/-! ### The tree unfolding of a message -/

/-- The values a message holds directly. -/
def kids (heap : Heap) : MessageValue → List MessageValue
  | .reference id => (heap id).children.map (fun e => e.2.read)
  | _ => []

def MessageValue.IsReference (v : MessageValue) : Prop := ∃ id, v = .reference id

theorem isReference_of_kids {heap : Heap} {v : MessageValue} (h : kids heap v ≠ []) : v.IsReference := by
  cases v with
  | reference id => exact ⟨id, rfl⟩
  | _ => exact absurd rfl h

/-- A value no wire carries. -/
def Inadmissible (heap : Heap) : MessageValue → Prop
  | .undefined | .function | .symbol | .bigint _ => True
  | .number .nan | .number .posInfinity | .number .negInfinity => True
  | .number (.finite _) | .null | .boolean _ | .negativeZero | .string _ => False
  | .reference id => ∃ kind, heap id = .exotic kind

/-- What the tree unfolding of a message may not contain. -/
inductive Fault (heap : Heap) (m : MessageValue) : Prop where
  | leaf {n : ℕ} {w : MessageValue} (h : Below (kids heap) m n w) (hw : Inadmissible heap w)
  | key {n : ℕ} {id : ObjectId} {entries : List (String × Property)} {distinct : (entries.map Prod.fst).Nodup}
      {key : String} {property : Property} (h : Below (kids heap) m n (.reference id))
      (hplain : heap id = .plain entries distinct) (hentry : (key, property) ∈ entries)
      (hkey : key ∈ reservedKeys ∨ ∃ getter, property = .accessor getter)
  | cycle {n k : ℕ} {w : MessageValue} (h : Below (kids heap) m n w) (hround : Below (kids heap) w (k + 1) w)
  /-- More than `maxNodes` values below the root. -/
  | many {d : ℕ} (h : maxNodes < countWithin (kids heap) d m)
  /-- The container at depth `n` is nested in `n` others. -/
  | deep {n : ℕ} {id : ObjectId} (h : Below (kids heap) m n (.reference id)) (hdeep : maxDepth ≤ n)

mutual

/-- The tree sent for a message: `-0` is `0`, a hole is `null`, a shared object is copied. -/
inductive Copies (heap : Heap) : MessageValue → JsonValue → Prop where
  | null : Copies heap .null .null
  | boolean (b : Bool) : Copies heap (.boolean b) (.boolean b)
  | number (q : ℚ) : Copies heap (.number (.finite q)) (.number q)
  | negativeZero : Copies heap .negativeZero (.number 0)
  | string (s : String) : Copies heap (.string s) (.string s)
  | array {id : ObjectId} {slots : List (Option MessageValue)} {copied : List (String × JsonValue)}
      (h : heap id = .array slots) (hkids : CopiesChildren heap (heap id).children copied) :
      Copies heap (.reference id) (.array (copied.map Prod.snd))
  | object {id : ObjectId} {entries : List (String × Property)} {distinct : (entries.map Prod.fst).Nodup}
      {copied : List (String × JsonValue)} (h : heap id = .plain entries distinct)
      (hkeys : ∀ e ∈ (heap id).children, e.1 ∉ reservedKeys) (hkids : CopiesChildren heap (heap id).children copied) :
      Copies heap (.reference id) (.object copied)

inductive CopiesChildren (heap : Heap) : List (String × Child) → List (String × JsonValue) → Prop where
  | nil : CopiesChildren heap [] []
  | hole {key : String} {children : List (String × Child)} {copied : List (String × JsonValue)}
      (h : CopiesChildren heap children copied) : CopiesChildren heap ((key, .hole) :: children) ((key, .null) :: copied)
  | value {key : String} {v : MessageValue} {t : JsonValue} {children : List (String × Child)}
      {copied : List (String × JsonValue)} (hv : Copies heap v t) (h : CopiesChildren heap children copied) :
      CopiesChildren heap ((key, .value v) :: children) ((key, t) :: copied)

end

variable {heap : Heap}

/-- One child, copied. -/
def CopiesChild (heap : Heap) (child : Child) (t : JsonValue) : Prop :=
  child = .hole ∧ t = .null ∨ ∃ v, child = .value v ∧ Copies heap v t

theorem CopiesChildren.snoc {key : String} {child : Child} {t : JsonValue} (ht : CopiesChild heap child t)
    {children : List (String × Child)} : ∀ {copied : List (String × JsonValue)},
      CopiesChildren heap children copied → CopiesChildren heap (children ++ [(key, child)]) (copied ++ [(key, t)]) := by
  induction children with
  | nil =>
    intro copied h
    cases h
    rcases ht with ⟨rfl, rfl⟩ | ⟨v, rfl, hv⟩
    · exact .hole .nil
    · exact .value hv .nil
  | cons e children ih =>
    intro copied h
    cases h with
    | hole h => exact .hole (ih h)
    | value hv h => exact .value hv (ih h)

theorem CopiesChildren.mem {e : String × Child} {children : List (String × Child)} :
    ∀ {copied : List (String × JsonValue)}, CopiesChildren heap children copied → e ∈ children →
      ∃ t, CopiesChild heap e.2 t := by
  induction children with
  | nil =>
    intro copied _ he
    cases he
  | cons e' children ih =>
    intro copied h he
    cases h with
    | hole h =>
      rcases List.mem_cons.mp he with rfl | he
      · exact ⟨.null, Or.inl ⟨rfl, rfl⟩⟩
      · exact ih h he
    | value hv h =>
      rcases List.mem_cons.mp he with rfl | he
      · exact ⟨_, Or.inr ⟨_, rfl, hv⟩⟩
      · exact ih h he

/-- What a copied message holds is copied. -/
theorem Copies.kid {v c : MessageValue} {t : JsonValue} (h : Copies heap v t) (hc : c ∈ kids heap v) :
    ∃ t', Copies heap c t' := by
  have hchild : ∀ {id : ObjectId} {copied : List (String × JsonValue)}, CopiesChildren heap (heap id).children copied →
      c ∈ kids heap (.reference id) → ∃ t', Copies heap c t' := by
    intro id copied hkids hc
    obtain ⟨e, he, rfl⟩ := List.mem_map.mp hc
    obtain ⟨t', ⟨hhole, -⟩ | ⟨w, hw, hcopies⟩⟩ := hkids.mem he
    · rw [hhole]
      exact ⟨.null, .null⟩
    · rw [hw]
      exact ⟨t', hcopies⟩
  cases h with
  | array _ hkids => exact hchild hkids hc
  | object _ _ hkids => exact hchild hkids hc
  | _ => cases hc

theorem copies_of_below {v w : MessageValue} {n : ℕ} (hw : Below (kids heap) v n w) :
    ∀ {t : JsonValue}, Copies heap v t → ∃ t', Copies heap w t' := by
  induction hw with
  | here => exact fun h => ⟨_, h⟩
  | under hkid _ ih =>
    intro t h
    obtain ⟨t', ht'⟩ := h.kid hkid
    exact ih ht'

theorem Copies.admissible {v : MessageValue} {t : JsonValue} (h : Copies heap v t) : ¬ Inadmissible heap v := by
  cases h with
  | array hslots | object hslots => exact fun ⟨_, hkind⟩ => by cases hslots.symm.trans hkind
  | _ => exact id

/-- A message that is copied whole, within both bounds, has no fault. -/
theorem not_fault {m : MessageValue} {t : JsonValue} (h : Copies heap m t)
    (hshallow : Shallow (kids heap) MessageValue.IsReference maxDepth m)
    (hcount : countWithin (kids heap) maxDepth m ≤ maxNodes) : ¬ Fault heap m := by
  intro hfault
  cases hfault with
  | leaf hbelow hbad =>
    obtain ⟨t', ht'⟩ := copies_of_below hbelow h
    exact ht'.admissible hbad
  | @key n id entries distinct key property hbelow hplain hentry hkey =>
    have hmem : (key, property.child) ∈ (heap id).children := by
      rw [hplain]
      exact List.mem_map.mpr ⟨_, hentry, rfl⟩
    obtain ⟨t', ht'⟩ := copies_of_below hbelow h
    cases ht' with
    | array hslots => cases hslots.symm.trans hplain
    | object _ hkeys hkids =>
      rcases hkey with hkey | ⟨getter, rfl⟩
      · exact hkeys _ hmem hkey
      · obtain ⟨t'', ⟨hhole, -⟩ | ⟨w, hw, -⟩⟩ := hkids.mem hmem
        · cases hhole
        · cases hw
  | @cycle n k w hbelow hround =>
    have hw : w.IsReference := by
      cases hround with
      | under hkid _ => exact isReference_of_kids (List.ne_nil_of_mem hkid)
    exact (hshallow.below hbelow).acyclic hw hround
  | @many d hmany =>
    have hle : countWithin (kids heap) d m ≤ _ := countWithin_mono (le_max_left d maxDepth) m
    rw [hshallow.countWithin_eq (fun _ => isReference_of_kids) (le_max_right d maxDepth)] at hle
    exact absurd hmany (not_lt.mpr (hle.trans hcount))
  | deep hbelow hdeep => exact absurd (hshallow _ _ hbelow ⟨_, rfl⟩) (not_lt.mpr hdeep)

/-! ### The leaves -/

theorem admitLeaf_error {v : MessageValue} {path : String} {e : TransportError}
    (h : admitLeaf heap v path = .error e) : e.code = .encodeRejected ∧ Inadmissible heap v := by
  cases v with
  | number n =>
    cases n with
    | finite q => cases h
    | nan | posInfinity | negInfinity =>
      cases h
      exact ⟨rfl, trivial⟩
  | reference id =>
    unfold admitLeaf at h
    simp only at h
    rcases hid : heap id with slots | ⟨entries, distinct⟩ | kind
    · rw [hid] at h
      cases h
    · rw [hid] at h
      cases h
    · rw [hid] at h
      cases h
      exact ⟨rfl, kind, hid⟩
  | undefined | function | symbol | bigint n =>
    cases h
    exact ⟨rfl, trivial⟩
  | null | boolean b | negativeZero | string s => cases h

theorem admitLeaf_leaf {v : MessageValue} {path : String} {t : JsonValue}
    (h : admitLeaf heap v path = .ok (some t)) : Copies heap v t ∧ ¬ v.IsReference := by
  cases v with
  | number n =>
    cases n with
    | finite q =>
      cases h
      exact ⟨.number q, fun ⟨_, h⟩ => by cases h⟩
    | nan | posInfinity | negInfinity => cases h
  | reference id =>
    unfold admitLeaf at h
    simp only at h
    rcases hid : heap id with slots | ⟨entries, distinct⟩ | kind <;> rw [hid] at h <;> cases h
  | null =>
    cases h
    exact ⟨.null, fun ⟨_, h⟩ => by cases h⟩
  | boolean b =>
    cases h
    exact ⟨.boolean b, fun ⟨_, h⟩ => by cases h⟩
  | negativeZero =>
    cases h
    exact ⟨.negativeZero, fun ⟨_, h⟩ => by cases h⟩
  | string s =>
    cases h
    exact ⟨.string s, fun ⟨_, h⟩ => by cases h⟩
  | undefined | function | symbol | bigint n => cases h

theorem admitLeaf_container {id : ObjectId} {path : String} (h : admitLeaf heap (.reference id) path = .ok none)
    (kind : Exotic) : heap id ≠ .exotic kind := by
  intro hid
  unfold admitLeaf at h
  simp only [hid] at h
  cases h

/-! ### The invariant of the walk -/

/-- The children whose copies the frame holds. -/
def Pending.filled (heap : Heap) (frame : Pending) : List (String × Child) :=
  (heap frame.source).children.take frame.copy.length

/-- A frame with `level` frames below it, filled up to the children `waiting`. -/
structure FrameOk (heap : Heap) (level : ℕ) (frame : Pending) (waiting : List (String × Child)) : Prop where
  split : (heap frame.source).children = frame.filled heap ++ waiting ++ frame.todo
  copied : CopiesChildren heap (frame.filled heap) frame.copy
  shallow : ∀ e ∈ frame.filled heap, Shallow (kids heap) MessageValue.IsReference (maxDepth - (level + 1)) e.2.read
  named : frame.isArray = false → ∀ e ∈ frame.filled heap ++ waiting, e.1 ∉ reservedKeys
  isArray : frame.isArray = (heap frame.source).isArray
  plain : ∀ kind, heap frame.source ≠ .exotic kind
  room : level < maxDepth

/-- The stack from `frame` down: each frame waits for the one above it. -/
def StackOk (heap : Heap) (root : ObjectId) : List Pending → Pending → List (String × Child) → Prop
  | [], frame, waiting => FrameOk heap 0 frame waiting ∧ frame.source = root
  | parent :: below, frame, waiting =>
    FrameOk heap (below.length + 1) frame waiting ∧
      StackOk heap root below parent [(frame.key, .value (.reference frame.source))]

/-- The values met under the children a frame is filled with. -/
def filledCount (heap : Heap) (level : ℕ) (frame : Pending) : ℕ :=
  ((frame.filled heap).map (fun e => 1 + countWithin (kids heap) (maxDepth - (level + 1)) e.2.read)).sum

/-- The values met so far: under the filled children, and the containers on the stack. -/
def met (heap : Heap) : List Pending → Pending → ℕ
  | [], frame => filledCount heap 0 frame
  | parent :: below, frame => filledCount heap (below.length + 1) frame + 1 + met heap below parent

structure WalkOk (heap : Heap) (root : ObjectId) (w : Walk) : Prop where
  stack : StackOk heap root w.below w.top []
  opened : w.opened = (w.top :: w.below).map Pending.source
  nodes : w.nodes = met heap w.below w.top
  bound : w.nodes ≤ maxNodes

variable {root : ObjectId}

theorem StackOk.frame {below : List Pending} {frame : Pending} {waiting : List (String × Child)}
    (h : StackOk heap root below frame waiting) : FrameOk heap below.length frame waiting := by
  cases below with
  | nil | cons => exact h.1

/-- Only the top frame changes. -/
theorem StackOk.replace {below : List Pending} {frame frame' : Pending} {waiting waiting' : List (String × Child)}
    (h : StackOk heap root below frame waiting) (hframe : FrameOk heap below.length frame' waiting')
    (hsource : frame'.source = frame.source) (hkey : frame'.key = frame.key) :
    StackOk heap root below frame' waiting' := by
  cases below with
  | nil => exact ⟨hframe, hsource.trans h.2⟩
  | cons parent below =>
    refine ⟨hframe, ?_⟩
    rw [hkey, hsource]
    exact h.2

theorem mem_kids {id : ObjectId} {e : String × Child} (h : e ∈ (heap id).children) : e.2.read ∈ kids heap (.reference id) :=
  List.mem_map.mpr ⟨e, h, rfl⟩

/-- Every container of the stack holds the top one. -/
theorem StackOk.below_top : ∀ {below : List Pending} {frame : Pending} {waiting : List (String × Child)},
    StackOk heap root below frame waiting → ∀ f ∈ frame :: below,
      ∃ n, Below (kids heap) (.reference f.source) n (.reference frame.source)
  | [], frame, _, _, f, hf => by
    obtain rfl := List.mem_singleton.mp hf
    exact ⟨0, .here _⟩
  | parent :: below, frame, waiting, h, f, hf => by
    rcases List.mem_cons.mp hf with rfl | hf
    · exact ⟨0, .here _⟩
    · obtain ⟨n, hn⟩ := below_top h.2 f hf
      have hparent := h.2.frame.split
      have hkid : MessageValue.reference frame.source ∈ kids heap (.reference parent.source) :=
        mem_kids (e := (frame.key, .value (.reference frame.source))) (by rw [hparent]; simp)
      exact ⟨n + 1, hn.trans (below_kid hkid)⟩

theorem StackOk.root_below : ∀ {below : List Pending} {frame : Pending} {waiting : List (String × Child)},
    StackOk heap root below frame waiting → Below (kids heap) (.reference root) below.length (.reference frame.source)
  | [], frame, _, h => by
    rw [h.2]
    exact .here _
  | parent :: below, frame, waiting, h => by
    have hparent := h.2.frame.split
    have hkid : MessageValue.reference frame.source ∈ kids heap (.reference parent.source) :=
      mem_kids (e := (frame.key, .value (.reference frame.source))) (by rw [hparent]; simp)
    exact (root_below h.2).trans (below_kid hkid)

/-- The values under a container, one level at a time. -/
theorem countWithin_reference (d : ℕ) (id : ObjectId) : countWithin (kids heap) (d + 1) (.reference id) =
    ((heap id).children.map (fun e => 1 + countWithin (kids heap) d e.2.read)).sum := by
  show ((kids heap (.reference id)).map _).sum = _
  unfold kids
  rw [List.map_map]
  rfl

/-- What is met from a frame up stands under the root, with what is met from it down. -/
theorem StackOk.count_le : ∀ {below : List Pending} {frame : Pending} {waiting : List (String × Child)} {x : ℕ},
    StackOk heap root below frame waiting →
      filledCount heap below.length frame + x ≤ countWithin (kids heap) (maxDepth - below.length) (.reference frame.source) →
        met heap below frame + x ≤ countWithin (kids heap) maxDepth (.reference root)
  | [], frame, _, x, h, hx => by
    rw [← h.2]
    exact hx
  | parent :: below, frame, waiting, x, h, hx => by
    have hparent := h.2.frame
    have hroom := hparent.room
    have hcount : filledCount heap below.length parent + (1 + (filledCount heap (below.length + 1) frame + x)) ≤
        countWithin (kids heap) (maxDepth - below.length) (.reference parent.source) := by
      obtain ⟨d, hd⟩ : ∃ d, maxDepth - below.length = d + 1 := ⟨maxDepth - below.length - 1, by omega⟩
      have hd' : maxDepth - (below.length + 1) = d := by omega
      rw [List.length_cons, hd'] at hx
      have hfilled : filledCount heap below.length parent =
          ((parent.filled heap).map (fun e => 1 + countWithin (kids heap) d e.2.read)).sum := by
        unfold filledCount
        rw [hd']
      rw [hd, countWithin_reference, hparent.split, hfilled]
      simp only [List.map_append, List.sum_append, List.map_cons, List.map_nil, List.sum_cons, List.sum_nil,
        Child.read_value]
      omega
    have ih := count_le h.2 hcount
    show filledCount heap (below.length + 1) frame + 1 + met heap below parent + x ≤ _
    omega

/-! ### Filling a frame -/

theorem filled_setChild {frame : Pending} {e : String × Child} {rest : List (String × Child)}
    (h : (heap frame.source).children = frame.filled heap ++ e :: rest) (t : JsonValue) :
    (frame.setChild e.1 t).filled heap = frame.filled heap ++ [e] := by
  have hlt : frame.copy.length < (heap frame.source).children.length := by
    have hlen := congrArg List.length h
    unfold Pending.filled at hlen
    rw [List.length_append, List.length_cons, List.length_take] at hlen
    omega
  show (heap frame.source).children.take (frame.copy ++ [(e.1, t)]).length = _
  rw [List.length_append, List.length_singleton, List.take_add_one]
  congr 1
  have hlen : (frame.filled heap).length = frame.copy.length := by
    unfold Pending.filled
    rw [List.length_take]
    omega
  rw [h, List.getElem?_append_right (by omega), hlen, Nat.sub_self]
  rfl

theorem FrameOk.advance {level : ℕ} {frame : Pending} {e : String × Child} {todo : List (String × Child)}
    (h : FrameOk heap level frame []) (htodo : frame.todo = e :: todo)
    (hkey : frame.isArray = false → e.1 ∉ reservedKeys) : FrameOk heap level { frame with todo := todo } [e] where
  split := by
    have hsplit := h.split
    rw [htodo, List.append_nil] at hsplit
    rw [List.append_assoc]
    exact hsplit
  copied := h.copied
  shallow := h.shallow
  named := by
    intro ha e' he'
    rcases List.mem_append.mp he' with he' | he'
    · exact h.named ha e' (List.mem_append_left _ he')
    · rw [List.mem_singleton.mp he']
      exact hkey ha
  isArray := h.isArray
  plain := h.plain
  room := h.room

theorem FrameOk.fill {level : ℕ} {frame : Pending} {e : String × Child} {t : JsonValue}
    (h : FrameOk heap level frame [e]) (ht : CopiesChild heap e.2 t)
    (hshallow : Shallow (kids heap) MessageValue.IsReference (maxDepth - (level + 1)) e.2.read) :
    FrameOk heap level (frame.setChild e.1 t) [] := by
  have hsplit : (heap frame.source).children = frame.filled heap ++ e :: frame.todo := by
    have hsplit := h.split
    rwa [List.append_assoc] at hsplit
  have hfilled := filled_setChild hsplit t
  constructor
  · rw [hfilled, List.append_nil, List.append_assoc]
    exact hsplit
  · rw [hfilled]
    exact h.copied.snoc ht
  · rw [hfilled]
    intro e' he'
    rcases List.mem_append.mp he' with he' | he'
    · exact h.shallow e' he'
    · rw [List.mem_singleton.mp he']
      exact hshallow
  · rw [hfilled, List.append_nil]
    exact h.named
  · exact h.isArray
  · exact h.plain
  · exact h.room

theorem filledCount_setChild {level : ℕ} {frame : Pending} {e : String × Child} {t : JsonValue}
    (h : FrameOk heap level frame [e]) (n : ℕ) : filledCount heap n (frame.setChild e.1 t) =
      filledCount heap n frame + (1 + countWithin (kids heap) (maxDepth - (n + 1)) e.2.read) := by
  have hsplit : (heap frame.source).children = frame.filled heap ++ e :: frame.todo := by
    have hsplit := h.split
    rwa [List.append_assoc] at hsplit
  unfold filledCount
  rw [filled_setChild hsplit t]
  simp

theorem met_setChild {below : List Pending} {frame : Pending} {e : String × Child} {t : JsonValue}
    (h : FrameOk heap below.length frame [e]) : met heap below (frame.setChild e.1 t) =
      met heap below frame + (1 + countWithin (kids heap) (maxDepth - (below.length + 1)) e.2.read) := by
  cases below with
  | nil => exact filledCount_setChild h 0
  | cons parent below =>
    show filledCount heap (below.length + 1) _ + 1 + met heap below parent =
      filledCount heap (below.length + 1) frame + 1 + met heap below parent + _
    rw [filledCount_setChild h, List.length_cons]
    omega

theorem frameOk_start {level : ℕ} {id : ObjectId} (hplain : ∀ kind, heap id ≠ .exotic kind) (hroom : level < maxDepth)
    (key path : String) : FrameOk heap level (.start heap id key path) [] where
  split := rfl
  copied := .nil
  shallow := fun e he => by cases he
  named := fun _ e he => by cases he
  isArray := rfl
  plain := hplain
  room := hroom

theorem FrameOk.entries {level : ℕ} {frame : Pending} {waiting : List (String × Child)}
    (h : FrameOk heap level frame waiting) (ha : frame.isArray = false) :
    ∃ entries distinct, heap frame.source = .plain entries distinct := by
  have harray := h.isArray
  rw [ha] at harray
  rcases hid : heap frame.source with slots | ⟨entries, distinct⟩ | kind
  · rw [hid] at harray
    cases harray
  · exact ⟨entries, distinct, rfl⟩
  · exact absurd hid (h.plain kind)

/-- A frame with nothing left is a copy of its container. -/
theorem FrameOk.whole {level : ℕ} {frame : Pending} (h : FrameOk heap level frame []) (htodo : frame.todo = []) :
    (heap frame.source).children = frame.filled heap ∧ Copies heap (.reference frame.source) frame.value := by
  have hsplit := h.split
  rw [htodo, List.append_nil, List.append_nil] at hsplit
  refine ⟨hsplit, ?_⟩
  have hcopied := h.copied
  rw [← hsplit] at hcopied
  unfold Pending.value
  cases ha : frame.isArray with
  | true =>
    have harray := h.isArray
    rw [ha] at harray
    rcases hid : heap frame.source with slots | ⟨entries, distinct⟩ | kind
    · exact .array hid hcopied
    · rw [hid] at harray
      cases harray
    · rw [hid] at harray
      cases harray
  | false =>
    obtain ⟨entries, distinct, hid⟩ := h.entries ha
    refine .object hid (fun e he => h.named ha e ?_) hcopied
    rw [List.append_nil, ← hsplit]
    exact he

/-- A whole frame, `level` deep, leaves no container past the depth. -/
theorem FrameOk.whole_shallow {level : ℕ} {frame : Pending} (h : FrameOk heap level frame []) (htodo : frame.todo = []) :
    Shallow (kids heap) MessageValue.IsReference (maxDepth - level) (.reference frame.source) := by
  have hroom := h.room
  have hlevel : maxDepth - level = maxDepth - (level + 1) + 1 := by omega
  rw [hlevel]
  refine Shallow.node (fun c hc => ?_)
  obtain ⟨e, he, rfl⟩ := List.mem_map.mp hc
  rw [(h.whole htodo).1] at he
  exact h.shallow e he

theorem FrameOk.whole_count {level : ℕ} {frame : Pending} (h : FrameOk heap level frame []) (htodo : frame.todo = []) :
    countWithin (kids heap) (maxDepth - level) (.reference frame.source) = filledCount heap level frame := by
  have hroom := h.room
  have hlevel : maxDepth - level = maxDepth - (level + 1) + 1 := by omega
  rw [hlevel, countWithin_reference, (h.whole htodo).1]
  rfl

/-! ### The turns of the walk -/

/-- The frame below takes the copy of the one that is popped. -/
theorem WalkOk.pop {w : Walk} {parent : Pending} {below : List Pending} (h : WalkOk heap root w)
    (htodo : w.top.todo = []) (hbelow : w.below = parent :: below) :
    WalkOk heap root ⟨parent.setChild w.top.key w.top.value, below, w.opened.erase w.top.source, w.nodes⟩ := by
  have htop : FrameOk heap w.below.length w.top [] := h.stack.frame
  have hstack := h.stack
  have hnodes := h.nodes
  have hopened := h.opened
  rw [hbelow] at htop hstack hnodes hopened
  rw [List.length_cons] at htop
  have hparent : FrameOk heap below.length parent [(w.top.key, .value (.reference w.top.source))] := hstack.2.frame
  have hfill : FrameOk heap below.length (parent.setChild w.top.key w.top.value) [] :=
    hparent.fill (e := (w.top.key, .value (.reference w.top.source)))
      (Or.inr ⟨_, rfl, (htop.whole htodo).2⟩) (htop.whole_shallow htodo)
  refine ⟨hstack.2.replace hfill rfl rfl, ?_, ?_, h.bound⟩
  · show w.opened.erase w.top.source = _
    rw [hopened, List.map_cons, List.erase_cons_head]
    rfl
  · show w.nodes = met heap below (parent.setChild w.top.key w.top.value)
    rw [met_setChild (e := (w.top.key, .value (.reference w.top.source))) hparent, Child.read_value,
      htop.whole_count htodo, hnodes]
    show filledCount heap (below.length + 1) w.top + 1 + met heap below parent = _
    omega

/-- The walk meets a new child of the top frame. -/
theorem WalkOk.visit {w w' : Walk} {key : String} {child : Child} {todo : List (String × Child)}
    (h : WalkOk heap root w) (htodo : w.top.todo = (key, child) :: todo)
    (hvisit : Walk.visit heap { w with top := { w.top with todo := todo }, nodes := w.nodes + 1 } key child = .ok w') :
    WalkOk heap root w' := by
  have htop : FrameOk heap w.below.length w.top [] := h.stack.frame
  obtain ⟨hmax, ⟨leaf, hstep, htaken⟩ | ⟨id, hstep, hcontainer, hnamed, hadmitted, hfresh, hroom⟩⟩ := visit_cases hvisit
  · have hkey : w.top.isArray = false → key ∉ reservedKeys := by
      intro ha
      rcases htaken with ⟨hhole, -⟩ | ⟨-, hchecked, -⟩
      · -- Only an array has holes.
        obtain ⟨entries, distinct, hid⟩ := htop.entries ha
        have hmem : (key, child) ∈ (heap w.top.source).children := by
          rw [htop.split, htodo]
          simp
        rw [hid, hhole] at hmem
        obtain ⟨⟨key', property⟩, -, heq⟩ := List.mem_map.mp hmem
        cases property <;> cases heq
      · exact (hchecked ha).1
    have hadvance : FrameOk heap w.below.length { w.top with todo := todo } [(key, child)] :=
      htop.advance htodo hkey
    have hchild : CopiesChild heap child leaf ∧ ¬ child.read.IsReference := by
      rcases htaken with ⟨rfl, rfl⟩ | ⟨hhole, -, hleaf⟩
      · exact ⟨Or.inl ⟨rfl, rfl⟩, fun ⟨_, hr⟩ => by cases hr⟩
      · obtain ⟨hcopies, hreference⟩ := admitLeaf_leaf hleaf
        cases child with
        | hole => exact absurd rfl hhole
        | value v => exact ⟨Or.inr ⟨v, rfl, hcopies⟩, hreference⟩
        | accessor g => exact absurd trivial hcopies.admissible
    have hkids : kids heap child.read = [] := by
      by_contra hne
      exact hchild.2 (isReference_of_kids hne)
    have hfill := hadvance.fill (e := (key, child)) hchild.1 (Shallow.leaf hkids hchild.2)
    have hzero : countWithin (kids heap) (maxDepth - (w.below.length + 1)) child.read = 0 := by
      rw [(Shallow.leaf hkids hchild.2 : Shallow _ _ 0 _).countWithin_eq (fun _ => isReference_of_kids) (Nat.zero_le _)]
      rfl
    subst hstep
    refine ⟨h.stack.replace hfill rfl rfl, h.opened, ?_, hmax⟩
    show w.nodes + 1 = met heap w.below (({ w.top with todo := todo } : Pending).setChild key leaf)
    rw [met_setChild (e := (key, child)) hadvance, hzero, h.nodes]
    have hsame : met heap w.below { w.top with todo := todo } = met heap w.below w.top := by
      cases w.below <;> rfl
    rw [hsame]
  · subst hstep
    have hadvance : FrameOk heap w.below.length { w.top with todo := todo } [(key, child)] :=
      htop.advance htodo hnamed
    rw [hcontainer] at hadvance
    have hstart := frameOk_start (admitLeaf_container hadmitted) (show w.below.length + 1 < maxDepth from hroom) key
      (({ w.top with todo := todo } : Pending).leafPath key)
    refine ⟨⟨hstart, h.stack.replace hadvance rfl rfl⟩, ?_, ?_, hmax⟩
    · show id :: w.opened = _
      rw [h.opened]
      rfl
    · show w.nodes + 1 = filledCount heap (w.below.length + 1) _ + 1 + met heap w.below { w.top with todo := todo }
      have hsame : met heap w.below { w.top with todo := todo } = met heap w.below w.top := by
        cases w.below <;> rfl
      rw [hsame, h.nodes]
      show _ = 0 + 1 + _
      omega

theorem WalkOk.more {w w' : Walk} (h : WalkOk heap root w) (hstep : w.step heap = .ok (.more w')) :
    WalkOk heap root w' := by
  rcases step_more hstep with ⟨parent, below, htodo, hbelow, rfl⟩ | ⟨key, child, todo, htodo, hvisit⟩
  · exact h.pop htodo hbelow
  · exact h.visit htodo hvisit

/-- Every refusal of the walk has its fault. -/
theorem WalkOk.refused {w : Walk} {e : TransportError} (h : WalkOk heap root w) (hstep : w.step heap = .error e) :
    e.code = .encodeRejected ∧ Fault heap (.reference root) := by
  have htop : FrameOk heap w.below.length w.top [] := h.stack.frame
  have hbelow := h.stack.root_below
  unfold Walk.step at hstep
  rcases htodo : w.top.todo with _ | ⟨⟨key, child⟩, todo⟩
  · rw [htodo] at hstep
    rcases hb : w.below with _ | ⟨parent, below⟩ <;> rw [hb] at hstep <;> cases hstep
  · rw [htodo] at hstep
    simp only at hstep
    have hsplit := htop.split
    rw [htodo, List.append_nil] at hsplit
    have hmem : (key, child) ∈ (heap w.top.source).children := by
      rw [hsplit]
      simp
    have hread : Below (kids heap) (.reference root) (w.below.length + 1) child.read :=
      hbelow.trans (below_kid (mem_kids hmem))
    rcases hvisit : Walk.visit heap { w with top := { w.top with todo := todo }, nodes := w.nodes + 1 } key child with e' | w'
    · rw [hvisit] at hstep
      obtain rfl : e' = e := Except.error.inj hstep
      unfold Walk.visit at hvisit
      simp only at hvisit
      split_ifs at hvisit with hmax hhole hkey hget
      · refine ⟨by rw [← Except.error.inj hvisit], .many (d := maxDepth) ?_⟩
        have hroom := htop.room
        have hone : filledCount heap w.below.length w.top + 1 ≤
            countWithin (kids heap) (maxDepth - w.below.length) (.reference w.top.source) := by
          have hlevel : maxDepth - w.below.length = maxDepth - (w.below.length + 1) + 1 := by omega
          rw [hlevel, countWithin_reference, hsplit]
          unfold filledCount
          simp only [List.map_append, List.sum_append, List.map_cons, List.sum_cons]
          omega
        have hcount := h.stack.count_le hone
        rw [← h.nodes] at hcount
        exact lt_of_lt_of_le hmax hcount
      · obtain ⟨entries, distinct, hid⟩ := htop.entries (by simpa using hkey.1)
        rw [hid] at hmem
        obtain ⟨⟨key', property⟩, hentry, heq⟩ := List.mem_map.mp hmem
        obtain ⟨rfl, -⟩ := Prod.mk.inj heq
        exact ⟨by rw [← Except.error.inj hvisit]; rfl, .key hbelow hid hentry (Or.inl hkey.2)⟩
      · obtain ⟨entries, distinct, hid⟩ := htop.entries (by simpa using hget.1)
        rw [hid] at hmem
        obtain ⟨⟨key', property⟩, hentry, heq⟩ := List.mem_map.mp hmem
        obtain ⟨rfl, hproperty⟩ := Prod.mk.inj heq
        refine ⟨by rw [← Except.error.inj hvisit]; rfl, .key hbelow hid hentry (Or.inr ⟨true, ?_⟩)⟩
        cases property with
        | data v => cases hproperty.trans hget.2
        | accessor g => exact congrArg _ (Child.accessor.inj (hproperty.trans hget.2))
      · rcases hleaf : admitLeaf heap child.read (({ w.top with todo := todo } : Pending).leafPath key) with e'' | _ | leaf
        · rw [hleaf] at hvisit
          obtain ⟨hcode, hbad⟩ := admitLeaf_error hleaf
          exact ⟨by rw [← Except.error.inj hvisit]; exact hcode, .leaf hread hbad⟩
        · obtain ⟨id, hid⟩ := reference_of_admitLeaf hleaf
          rw [hleaf, hid] at hvisit
          rw [hid] at hread
          unfold Walk.enter at hvisit
          simp only at hvisit
          split_ifs at hvisit with hopened hdeep
          · refine ⟨by rw [← Except.error.inj hvisit]; rfl, ?_⟩
            rw [h.opened] at hopened
            obtain ⟨frame, hframe, rfl⟩ := List.mem_map.mp hopened
            obtain ⟨n, hn⟩ := h.stack.below_top frame hframe
            have hkid : MessageValue.reference frame.source ∈ kids heap (.reference w.top.source) := hid ▸ mem_kids hmem
            exact .cycle hread (hn.trans (below_kid hkid))
          · exact ⟨by rw [← Except.error.inj hvisit]; rfl, .deep hread hdeep⟩
        · rw [hleaf] at hvisit
          cases hvisit
    · rw [hvisit] at hstep
      cases hstep

/-- What the walk ends with is the copy of its root. -/
theorem WalkOk.done {w : Walk} {t : JsonValue} (h : WalkOk heap root w) (hstep : w.step heap = .ok (.done t)) :
    Copies heap (.reference root) t ∧ Shallow (kids heap) MessageValue.IsReference maxDepth (.reference root) ∧
      countWithin (kids heap) maxDepth (.reference root) ≤ maxNodes := by
  unfold Walk.step at hstep
  rcases htodo : w.top.todo with _ | ⟨⟨key, child⟩, todo⟩
  · rw [htodo] at hstep
    rcases hb : w.below with _ | ⟨parent, below⟩
    · rw [hb] at hstep
      simp only [Except.ok.injEq, Progress.done.injEq] at hstep
      subst hstep
      have hstack := h.stack
      have hnodes := h.nodes
      rw [hb] at hstack hnodes
      have htop := hstack.1
      rw [← hstack.2]
      refine ⟨(htop.whole htodo).2, htop.whole_shallow htodo, ?_⟩
      have hcount := htop.whole_count htodo
      rw [Nat.sub_zero] at hcount
      rw [hcount]
      exact (le_of_eq hnodes.symm).trans h.bound
    · rw [hb] at hstep
      cases hstep
  · rw [htodo] at hstep
    simp only at hstep
    rcases hvisit : Walk.visit heap { w with top := { w.top with todo := todo }, nodes := w.nodes + 1 } key child with e' | w'
    · rw [hvisit] at hstep
      cases hstep
    · rw [hvisit] at hstep
      cases hstep

/-- The run lemma: a walk fails on a fault, or ends with a copy. -/
theorem run_spec (heap : Heap) (root : ObjectId) (w : Walk) (h : WalkOk heap root w) :
    (∀ e, w.run heap = .error e → e.code = .encodeRejected ∧ Fault heap (.reference root)) ∧
      ∀ t, w.run heap = .ok t → Copies heap (.reference root) t ∧
        Shallow (kids heap) MessageValue.IsReference maxDepth (.reference root) ∧
          countWithin (kids heap) maxDepth (.reference root) ≤ maxNodes := by
  induction w using Walk.run.induct heap with
  | case1 w e hstep =>
    have hrun : w.run heap = .error e := by
      rw [Walk.run]
      split <;> simp_all
    rw [hrun]
    refine ⟨?_, fun t ht => by cases ht⟩
    intro e' he'
    obtain rfl := Except.error.inj he'
    exact h.refused hstep
  | case2 w t hstep =>
    have hrun : w.run heap = .ok t := by
      rw [Walk.run]
      split <;> simp_all
    rw [hrun]
    refine ⟨fun e he => (by cases he), ?_⟩
    intro t' ht'
    obtain rfl := Except.ok.inj ht'
    exact h.done hstep
  | case3 w w' hstep ih =>
    have hrun : w.run heap = w'.run heap := by
      rw [Walk.run]
      split <;> simp_all
    rw [hrun]
    exact ih (h.more hstep)

theorem walkOk_start {id : ObjectId} (hplain : ∀ kind, heap id ≠ .exotic kind) :
    WalkOk heap id ⟨.start heap id "" "", [], [id], 0⟩ where
  stack := ⟨frameOk_start hplain (by decide) "" "", rfl⟩
  opened := rfl
  nodes := rfl
  bound := Nat.zero_le _

/-- The walk of a whole message. -/
theorem admit_spec (heap : Heap) (m : MessageValue) :
    (∀ e, admitMessage heap m = .error e → e.code = .encodeRejected ∧ Fault heap m) ∧
      ∀ t, admitMessage heap m = .ok t → Copies heap m t ∧
        Shallow (kids heap) MessageValue.IsReference maxDepth m ∧ ¬ Fault heap m := by
  unfold admitMessage
  rcases hleaf : admitLeaf heap m "" with e | _ | leaf
  · refine ⟨?_, fun t ht => by cases ht⟩
    intro e' he'
    obtain rfl := Except.error.inj he'
    obtain ⟨hcode, hbad⟩ := admitLeaf_error hleaf
    exact ⟨hcode, .leaf (.here m) hbad⟩
  · obtain ⟨id, rfl⟩ := reference_of_admitLeaf hleaf
    obtain ⟨herror, hok⟩ := run_spec heap id _ (walkOk_start (admitLeaf_container hleaf))
    refine ⟨herror, fun t ht => ?_⟩
    obtain ⟨hcopies, hshallow, hcount⟩ := hok t ht
    exact ⟨hcopies, hshallow, not_fault hcopies hshallow hcount⟩
  · refine ⟨fun e he => (by cases he), ?_⟩
    intro t ht
    obtain rfl : leaf = t := Except.ok.inj ht
    obtain ⟨hcopies, hreference⟩ := admitLeaf_leaf hleaf
    have hkids : kids heap m = [] := by
      by_contra hne
      exact hreference (isReference_of_kids hne)
    have hshallow : Shallow _ _ maxDepth _ := Shallow.leaf hkids hreference
    refine ⟨hcopies, hshallow, not_fault hcopies hshallow ?_⟩
    rw [(Shallow.leaf hkids hreference : Shallow _ _ 0 _).countWithin_eq (fun _ => isReference_of_kids) (Nat.zero_le _)]
    exact Nat.zero_le _

end JsonCodec
end Grove
