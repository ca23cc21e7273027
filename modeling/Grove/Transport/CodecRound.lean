import Grove.Transport.CodecWalk

/-! # The codec's round trip

The tree sent for a message passes the check of `decode`, and comes back as itself. -/

namespace Grove
namespace JsonCodec

open Unfolding

variable {heap : Heap}

/-! ### What `decode` accepts -/

theorem CopiesChildren.of_copied {e : String × JsonValue} {children : List (String × Child)} :
    ∀ {copied : List (String × JsonValue)}, CopiesChildren heap children copied → e ∈ copied →
      ∃ child, (e.1, child) ∈ children ∧ CopiesChild heap child e.2 := by
  induction children with
  | nil =>
    intro copied h he
    cases h
    cases he
  | cons e' children ih =>
    intro copied h he
    cases h with
    | hole h =>
      rcases List.mem_cons.mp he with rfl | he
      · exact ⟨.hole, List.mem_cons_self, Or.inl ⟨rfl, rfl⟩⟩
      · obtain ⟨child, hmem, hchild⟩ := ih h he
        exact ⟨child, List.mem_cons_of_mem _ hmem, hchild⟩
    | value hv h =>
      rcases List.mem_cons.mp he with rfl | he
      · exact ⟨_, List.mem_cons_self, Or.inr ⟨_, rfl, hv⟩⟩
      · obtain ⟨child, hmem, hchild⟩ := ih h he
        exact ⟨child, List.mem_cons_of_mem _ hmem, hchild⟩

theorem mem_ofItems {node : ParsedValue} : ∀ {items : List JsonValue}, node ∈ ParsedValue.ofItems items →
    ∃ t ∈ items, node = .ofJson t
  | [], h => by cases h
  | t :: items, h => by
    rcases List.mem_cons.mp h with rfl | h
    · exact ⟨t, List.mem_cons_self, rfl⟩
    · obtain ⟨t', ht', rfl⟩ := mem_ofItems h
      exact ⟨t', List.mem_cons_of_mem _ ht', rfl⟩

theorem mem_ofEntries {e : String × ParsedValue} : ∀ {entries : List (String × JsonValue)},
    e ∈ ParsedValue.ofEntries entries → ∃ t, (e.1, t) ∈ entries ∧ e.2 = .ofJson t
  | [], h => by cases h
  | (k, t) :: entries, h => by
    rcases List.mem_cons.mp h with rfl | h
    · exact ⟨t, List.mem_cons_self, rfl⟩
    · obtain ⟨t', ht', heq⟩ := mem_ofEntries h
      exact ⟨t', List.mem_cons_of_mem _ ht', heq⟩

/-- A decoded tree of no more than `room` levels, each child of which is a copy of a message. -/
def Sent (heap : Heap) (room : ℕ) (node : ParsedValue) : Prop :=
  ∃ v t, node = .ofJson t ∧ Copies heap v t ∧ Shallow (kids heap) MessageValue.IsReference room v

theorem Sent.finite {room : ℕ} {node : ParsedValue} (h : Sent heap room node) : node.nonFinite = false := by
  obtain ⟨v, t, rfl, -, -⟩ := h
  cases t <;> rfl

theorem Sent.reference {v : MessageValue} {t : JsonValue} (h : Copies heap v t)
    (hcontainer : (ParsedValue.ofJson t).isContainer = true) : v.IsReference := by
  cases h with
  | array | object => exact ⟨_, rfl⟩
  | _ => cases hcontainer

/-- What a sent container holds was sent, one level less of it, under a key the wire carries. -/
theorem Sent.entry {room : ℕ} {node : ParsedValue} (h : Sent heap (room + 1) node) {e : String × ParsedValue}
    (he : e ∈ node.entries) : Sent heap room e.2 ∧ (node.isArray = false → e.1 ∉ reservedKeys) := by
  obtain ⟨v, t, rfl, hcopies, hshallow⟩ := h
  have hkid : ∀ {id : ObjectId} {child : Child} {key : String} {t' : JsonValue},
      Shallow (kids heap) MessageValue.IsReference (room + 1) (.reference id) → (key, child) ∈ (heap id).children →
        CopiesChild heap child t' → Sent heap room (.ofJson t') := by
    intro id child key t' hshallow hmem hchild
    have hread := hshallow.kid (mem_kids hmem)
    rcases hchild with ⟨rfl, rfl⟩ | ⟨w, rfl, hw⟩
    · exact ⟨.null, .null, rfl, .null, hread⟩
    · exact ⟨w, t', rfl, hw, hread⟩
  cases hcopies with
  | array _ hkids =>
    obtain ⟨⟨item, i⟩, hitem, rfl⟩ := List.mem_map.mp he
    obtain ⟨t', ht', heq⟩ := mem_ofItems (List.fst_mem_of_mem_zipIdx hitem)
    obtain ⟨⟨key, t''⟩, hcopied, rfl⟩ := List.mem_map.mp ht'
    obtain ⟨child, hmem, hchild⟩ := hkids.of_copied hcopied
    refine ⟨?_, fun ha => by cases ha⟩
    rw [show item = _ from heq]
    exact hkid hshallow hmem hchild
  | object _ hkeys hkids =>
    obtain ⟨t', ht', heq⟩ := mem_ofEntries he
    obtain ⟨child, hmem, hchild⟩ := hkids.of_copied ht'
    refine ⟨?_, fun _ => hkeys _ hmem⟩
    rw [heq]
    exact hkid hshallow hmem hchild
  | _ => cases he

theorem checkEntries_none {isArray : Bool} : ∀ {entries : List (String × ParsedValue)},
    (∀ e ∈ entries, e.2.nonFinite = false ∧ (isArray = false → e.1 ∉ reservedKeys)) → checkEntries isArray entries = none
  | [], _ => rfl
  | (key, value) :: entries, h => by
    obtain ⟨hfinite, hkey⟩ := h _ List.mem_cons_self
    unfold checkEntries
    rw [if_neg, if_neg]
    · exact checkEntries_none (fun e he => h e (List.mem_cons_of_mem _ he))
    · simpa using hfinite
    · rintro ⟨ha, hreserved⟩
      exact hkey (by simpa using ha) hreserved

/-- The walk of `decode` over what was sent refuses nothing. -/
theorem admitStack_sent (heap : Heap) (stack : List (ParsedValue × ℕ))
    (h : ∀ e ∈ stack, e.1.isContainer = true ∧ ∃ room, room + e.2 = maxDepth + 1 ∧ Sent heap room e.1) :
    admitStack stack = .ok () := by
  induction stack using admitStack.induct with
  | case1 => rw [admitStack]
  | case2 node depth rest hdeep =>
    obtain ⟨hcontainer, room, hroom, v, t, hnode, hcopies, hshallow⟩ := h _ List.mem_cons_self
    have hpos : 0 < room := hshallow 0 v (.here v) (Sent.reference hcopies (hnode ▸ hcontainer))
    simp only at hroom
    omega
  | case3 node depth rest hdeep e hcheck =>
    obtain ⟨hcontainer, room, hroom, hsent⟩ := h _ List.mem_cons_self
    obtain ⟨room, rfl⟩ : ∃ r, room = r + 1 := ⟨room - 1, by simp only at hroom; omega⟩
    have hnone : checkEntries node.isArray node.entries = none :=
      checkEntries_none (fun e he => ⟨(hsent.entry he).1.finite, (hsent.entry he).2⟩)
    rw [hnone] at hcheck
    cases hcheck
  | case4 node depth rest hdeep hcheck ih =>
    rw [admitStack, if_neg hdeep, hcheck]
    refine ih ?_
    intro e he
    rcases List.mem_append.mp he with he | he
    · obtain ⟨hcontainer, room, hroom, hsent⟩ := h _ List.mem_cons_self
      simp only at hroom
      obtain ⟨room, rfl⟩ : ∃ r, room = r + 1 := ⟨room - 1, by omega⟩
      obtain ⟨e', he', rfl⟩ := List.mem_map.mp (List.mem_reverse.mp he)
      obtain ⟨hentry, hcontainer'⟩ := List.mem_filter.mp he'
      exact ⟨hcontainer', room, by simp only; omega, (hsent.entry hentry).1⟩
    · exact h e (List.mem_cons_of_mem _ he)

theorem admitDecoded_sent {node : ParsedValue} (h : Sent heap maxDepth node) : admitDecoded node = .ok () := by
  unfold admitDecoded
  rw [if_neg (by rw [h.finite]; decide)]
  split_ifs with hcontainer
  · refine admitStack_sent heap [(node, 1)] (fun e he => ?_)
    rw [List.mem_singleton.mp he]
    exact ⟨hcontainer, maxDepth, rfl, h⟩
  · rfl

/-! ### The round trip -/

theorem decode_text {parse : String → Except String ParsedValue} {s : String} {parsed value : ParsedValue}
    (hparse : parse s = .ok parsed) (h : decode parse (.text s) = .ok value) : value = parsed := by
  unfold decode at h
  simp only at h
  split_ifs at h
  rw [hparse] at h
  simp only at h
  rcases hwalk : admitDecoded parsed with e | u
  · rw [hwalk] at h
    cases h
  · rw [hwalk] at h
    exact (Except.ok.inj h).symm

/-- An array with a hole, and one object in it twice. -/
def sharedHeap : Heap
  | 0 => .array [none, some (.reference 1), some (.reference 1)]
  | _ => .plain [("x", .data .negativeZero)] (by decide)

/-- What is sent for it. -/
def sharedCopy : JsonValue := .array [.null, .object [("x", .number 0)], .object [("x", .number 0)]]

theorem copies_leaf_object {t : JsonValue} (h : Copies sharedHeap (.reference 1) t) : t = .object [("x", .number 0)] := by
  cases h with
  | array hslots => cases hslots
  | object _ _ hkids =>
    cases hkids with
    | value hv h =>
      cases hv
      cases h
      rfl

theorem copies_sharedHeap {t : JsonValue} (h : Copies sharedHeap (.reference 0) t) : t = sharedCopy := by
  cases h with
  | object hplain => cases hplain
  | array _ hkids =>
    cases hkids with
    | hole h =>
      cases h with
      | value hv h =>
        obtain rfl := copies_leaf_object hv
        cases h with
        | value hv h =>
          obtain rfl := copies_leaf_object hv
          cases h
          rfl

end JsonCodec
end Grove
