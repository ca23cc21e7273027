import Grove.Transport.CodecRound
import Grove.Transport.JsonText

/-! # The codec's two directions

Which frames of `encode` does `decode` accept, and which values of `decode` does `encode`?  The walks
refuse the same depths, keys and numbers.  The byte cap is `decode`'s alone, and the cap on the values of a
message is `encode`'s alone: these two are all that lies between the directions. -/

namespace Grove
namespace JsonCodec

open Unfolding

variable {heap : Heap}

/-! ### What was decoded, as a message -/

/-- The message `v` is the value that `JSON.parse` returned. -/
inductive Holds (heap : Heap) : MessageValue → ParsedValue → Prop where
  | null : Holds heap .null .null
  | boolean (b : Bool) : Holds heap (.boolean b) (.boolean b)
  | number (n : JsNumber) : Holds heap (.number n) (.number n)
  | negativeZero : Holds heap .negativeZero (.number (.finite 0))
  | string (s : String) : Holds heap (.string s) (.string s)
  | array {id : ObjectId} {values : List MessageValue} {items : List ParsedValue}
      (h : heap id = .array (values.map some)) (hitems : List.Forall₂ (Holds heap) values items) :
      Holds heap (.reference id) (.array items)
  | object {id : ObjectId} {keys : List String} {values : List MessageValue} {items : List ParsedValue}
      {distinct : (((keys.zip values).map (fun e => (e.1, Property.data e.2))).map Prod.fst).Nodup}
      (h : heap id = .plain ((keys.zip values).map (fun e => (e.1, .data e.2))) distinct)
      (hlength : keys.length = values.length) (hitems : List.Forall₂ (Holds heap) values items) :
      Holds heap (.reference id) (.object (keys.zip items))

namespace ParsedValue

/-- The values it holds directly. -/
def inside (node : ParsedValue) : List ParsedValue := node.entries.map Prod.snd

mutual

/-- How many values it holds, itself apart. -/
def valuesBelow : ParsedValue → ℕ
  | .array items => valuesOfItems items
  | .object entries => valuesOfEntries entries
  | .null | .boolean _ | .number _ | .string _ => 0

def valuesOfItems : List ParsedValue → ℕ
  | [] => 0
  | v :: rest => v.valuesBelow + 1 + valuesOfItems rest

def valuesOfEntries : List (String × ParsedValue) → ℕ
  | [] => 0
  | (_, v) :: rest => v.valuesBelow + 1 + valuesOfEntries rest

end

theorem inside_array (items : List ParsedValue) : inside (.array items) = items := by
  unfold inside entries
  rw [List.map_map]
  exact List.zipIdx_map_fst 0 items

theorem inside_object (entries : List (String × ParsedValue)) : inside (.object entries) = entries.map Prod.snd := rfl

theorem inside_zip {keys : List String} {items : List ParsedValue} (h : keys.length = items.length) :
    inside (.object (keys.zip items)) = items := by
  rw [inside_object]
  exact List.map_snd_zip h.ge

theorem valuesOfItems_eq : ∀ items : List ParsedValue,
    valuesOfItems items = (items.map (fun v => 1 + v.valuesBelow)).sum
  | [] => rfl
  | v :: items => by
    rw [valuesOfItems, valuesOfItems_eq items, List.map_cons, List.sum_cons, Nat.add_comm v.valuesBelow]

theorem valuesOfEntries_eq : ∀ entries : List (String × ParsedValue),
    valuesOfEntries entries = ((entries.map Prod.snd).map (fun v => 1 + v.valuesBelow)).sum
  | [] => rfl
  | (_, v) :: entries => by
    rw [valuesOfEntries, valuesOfEntries_eq entries, List.map_cons, List.map_cons, List.sum_cons,
      Nat.add_comm v.valuesBelow]

theorem valuesBelow_eq (node : ParsedValue) :
    node.valuesBelow = (node.inside.map (fun v => 1 + v.valuesBelow)).sum := by
  cases node with
  | array items => rw [valuesBelow, valuesOfItems_eq, inside_array]
  | object entries => rw [valuesBelow, valuesOfEntries_eq, inside_object]
  | null | boolean b | number n | string s => rfl

theorem isContainer_of_inside {node : ParsedValue} (h : node.inside ≠ []) : node.isContainer = true := by
  cases node with
  | array items => rfl
  | object entries => rfl
  | null | boolean b | number n | string s => exact absurd rfl h

/-- A tree of no more than `room` levels is counted within them. -/
theorem countWithin_inside : ∀ {room : ℕ} {node : ParsedValue},
    Shallow inside (fun t => t.isContainer = true) room node → countWithin inside room node = node.valuesBelow
  | 0, node, h => by
    have hinside : node.inside = [] := by
      by_contra hne
      exact absurd (h 0 node (.here node) (isContainer_of_inside hne)) (Nat.not_lt_zero 0)
    rw [valuesBelow_eq, hinside]
    rfl
  | room + 1, node, h => by
    rw [valuesBelow_eq]
    unfold countWithin
    congr 1
    refine List.map_congr_left (fun c hc => ?_)
    rw [countWithin_inside (h.kid hc)]

end ParsedValue

/-! ### What `decode` accepts is clean -/

/-- Nothing under the node is refused on decoding. -/
structure Clean (room : ℕ) (node : ParsedValue) : Prop where
  shallow : Shallow ParsedValue.inside (fun t => t.isContainer = true) room node
  finite : ∀ n t, Below ParsedValue.inside node (n + 1) t → t.nonFinite = false
  named : ∀ n entries, Below ParsedValue.inside node n (.object entries) → ∀ e ∈ entries, e.1 ∉ reservedKeys

theorem checkEntries_eq_none {isArray : Bool} : ∀ {entries : List (String × ParsedValue)},
    checkEntries isArray entries = none → ∀ e ∈ entries, e.2.nonFinite = false ∧ (isArray = false → e.1 ∉ reservedKeys)
  | [], _, _, he => absurd he List.not_mem_nil
  | (key, value) :: entries, h, e, he => by
    unfold checkEntries at h
    split_ifs at h with hkey hfinite
    rcases List.mem_cons.mp he with rfl | he
    · exact ⟨by simpa using hfinite, fun harray hreserved => hkey ⟨by rw [harray]; rfl, hreserved⟩⟩
    · exact checkEntries_eq_none h e he

theorem Clean.leaf {room : ℕ} {node : ParsedValue} (h : node.isContainer = false) : Clean room node := by
  have hinside : node.inside = [] := by
    by_contra hne
    rw [ParsedValue.isContainer_of_inside hne] at h
    cases h
  refine ⟨Shallow.leaf hinside (by rw [h]; exact Bool.false_ne_true), fun n t ht => ?_, fun n entries ht => ?_⟩
  · cases ht with
    | under hkid _ =>
      rw [hinside] at hkid
      cases hkid
  · cases ht with
    | here => cases h
    | under hkid _ =>
      rw [hinside] at hkid
      cases hkid

theorem Clean.node {room : ℕ} {node : ParsedValue}
    (hentries : ∀ e ∈ node.entries, e.2.nonFinite = false ∧ (node.isArray = false → e.1 ∉ reservedKeys))
    (hkids : ∀ c ∈ node.inside, Clean room c) : Clean (room + 1) node := by
  refine ⟨Shallow.node (fun c hc => (hkids c hc).shallow), fun n t ht => ?_, fun n entries ht => ?_⟩
  · cases ht with
    | under hkid ht =>
      cases n with
      | zero =>
        cases ht
        obtain ⟨e, he, rfl⟩ := List.mem_map.mp hkid
        exact (hentries e he).1
      | succ n => exact (hkids _ hkid).finite n t ht
  · cases ht with
    | here => exact fun e he => (hentries e he).2 rfl
    | under hkid ht => exact (hkids _ hkid).named _ entries ht

/-- What the walk of `decode` passes. -/
theorem clean_of_admitStack (stack : List (ParsedValue × ℕ)) (h : admitStack stack = .ok ()) :
    ∀ e ∈ stack, e.2 ≤ maxDepth ∧ Clean (maxDepth + 1 - e.2) e.1 := by
  induction stack using admitStack.induct with
  | case1 => exact fun e he => absurd he List.not_mem_nil
  | case2 node depth rest hdeep =>
    rw [admitStack, if_pos hdeep] at h
    cases h
  | case3 node depth rest hdeep e hcheck =>
    rw [admitStack, if_neg hdeep, hcheck] at h
    cases h
  | case4 node depth rest hdeep hcheck ih =>
    rw [admitStack, if_neg hdeep, hcheck] at h
    have hall := ih h
    intro e he
    rcases List.mem_cons.mp he with rfl | he
    · refine ⟨not_lt.mp hdeep, ?_⟩
      have hroom : maxDepth + 1 - depth = (maxDepth - depth) + 1 := by omega
      rw [hroom]
      refine Clean.node (checkEntries_eq_none hcheck) (fun c hc => ?_)
      obtain ⟨entry, hentry, rfl⟩ := List.mem_map.mp hc
      cases hcontainer : entry.2.isContainer with
      | false => exact Clean.leaf hcontainer
      | true =>
        have hpushed : (entry.2, depth + 1) ∈ pushed node depth ++ rest :=
          List.mem_append_left _ (List.mem_reverse.mpr
            (List.mem_map.mpr ⟨entry, List.mem_filter.mpr ⟨hentry, hcontainer⟩, rfl⟩))
        have hclean := (hall _ hpushed).2
        simp only [Nat.add_sub_add_right] at hclean
        exact hclean
    · exact hall e (List.mem_append_right _ he)

theorem clean_of_admitDecoded {root : ParsedValue} (h : admitDecoded root = .ok ()) :
    root.nonFinite = false ∧ Clean maxDepth root := by
  unfold admitDecoded at h
  split_ifs at h with hfinite hcontainer
  · exact ⟨by simpa using hfinite, (clean_of_admitStack _ h _ List.mem_cons_self).2⟩
  · exact ⟨by simpa using hfinite, Clean.leaf (by simpa using hcontainer)⟩

/-! ### A decoded message -/

theorem kids_array {id : ObjectId} {values : List MessageValue} (h : heap id = .array (values.map some)) :
    kids heap (.reference id) = values := by
  show (heap id).children.map (fun e => e.2.read) = values
  rw [h]
  unfold MessageObject.children
  rw [List.map_map, List.zipIdx_map, List.map_map]
  conv_rhs => rw [← List.zipIdx_map_fst 0 values]
  exact List.map_congr_left (fun e _ => rfl)

theorem kids_plain {id : ObjectId} {entries : List (String × MessageValue)}
    {distinct : ((entries.map (fun e => (e.1, Property.data e.2))).map Prod.fst).Nodup}
    (h : heap id = .plain (entries.map (fun e => (e.1, .data e.2))) distinct) :
    kids heap (.reference id) = entries.map Prod.snd := by
  show (heap id).children.map (fun e => e.2.read) = entries.map Prod.snd
  rw [h]
  unfold MessageObject.children
  rw [List.map_map, List.map_map]
  exact List.map_congr_left (fun e _ => rfl)

theorem Holds.kids {v : MessageValue} {node : ParsedValue} (h : Holds heap v node) :
    List.Forall₂ (Holds heap) (kids heap v) node.inside := by
  cases h with
  | array h hitems =>
    rw [kids_array h, ParsedValue.inside_array]
    exact hitems
  | object h hlength hitems =>
    rw [kids_plain h, List.map_snd_zip hlength.ge, ParsedValue.inside_zip (hlength.trans hitems.length_eq)]
    exact hitems
  | _ => exact .nil

theorem Holds.isContainer {v : MessageValue} {node : ParsedValue} (h : Holds heap v node) (hv : v.IsReference) :
    node.isContainer = true := by
  obtain ⟨id, rfl⟩ := hv
  cases h with
  | array => rfl
  | object => rfl

/-- Only a number that is not finite is inadmissible. -/
theorem Holds.nonFinite {v : MessageValue} {node : ParsedValue} (h : Holds heap v node) (hv : Inadmissible heap v) :
    node.nonFinite = true := by
  cases h with
  | number n =>
    cases n with
    | finite q => exact absurd hv id
    | nan | posInfinity | negInfinity => rfl
  | array h | object h =>
    obtain ⟨kind, hkind⟩ := hv
    cases h.symm.trans hkind
  | _ => exact absurd hv id

theorem Holds.entry {id : ObjectId} {node : ParsedValue} (h : Holds heap (.reference id) node)
    {entries : List (String × Property)} {distinct : (entries.map Prod.fst).Nodup}
    (hplain : heap id = .plain entries distinct) {key : String} {property : Property} (hmem : (key, property) ∈ entries) :
    (∃ v, property = .data v) ∧ ∃ items, node = .object items ∧ ∃ item, (key, item) ∈ items := by
  cases h with
  | array h => cases h.symm.trans hplain
  | @object _ keys values items _ h hlength hitems =>
    obtain rfl := (MessageObject.plain.inj (h.symm.trans hplain))
    obtain ⟨⟨key', v⟩, hzip, hentry⟩ := List.mem_map.mp hmem
    obtain ⟨rfl, rfl⟩ := Prod.mk.inj hentry
    refine ⟨⟨v, rfl⟩, _, rfl, ?_⟩
    have hkeys : keys.length = items.length := hlength.trans hitems.length_eq
    have hkey : key' ∈ (keys.zip items).map Prod.fst := by
      rw [List.map_fst_zip hkeys.le]
      exact (List.of_mem_zip hzip).1
    obtain ⟨e, he, hfst⟩ := List.mem_map.mp hkey
    exact ⟨e.2, by rw [← hfst]; exact he⟩

/-- A decoded message has one fault at most: it holds too many values. -/
theorem Holds.fault {v : MessageValue} {root : ParsedValue} (h : Holds heap v root) (hfinite : root.nonFinite = false)
    (hclean : Clean maxDepth root) : Fault heap v ↔ maxNodes < root.valuesBelow := by
  have hkids : ∀ v t, Holds heap v t → List.Forall₂ (Holds heap) (JsonCodec.kids heap v) t.inside := fun _ _ => Holds.kids
  have hshallow : Shallow (JsonCodec.kids heap) MessageValue.IsReference maxDepth v := by
    intro n w hw hinner
    obtain ⟨u, hu, hwu⟩ := hw.related hkids h
    exact hclean.shallow n u hu (hwu.isContainer hinner)
  have hcount : countWithin (JsonCodec.kids heap) maxDepth v = root.valuesBelow := by
    rw [countWithin_related hkids h, ParsedValue.countWithin_inside hclean.shallow]
  constructor
  · intro hfault
    cases hfault with
    | @leaf n w hbelow hbad =>
      obtain ⟨u, hu, hwu⟩ := hbelow.related hkids h
      have hnot : u.nonFinite = true := hwu.nonFinite hbad
      cases n with
      | zero =>
        cases hu
        rw [hfinite] at hnot
        cases hnot
      | succ n =>
        rw [hclean.finite n u hu] at hnot
        cases hnot
    | key hbelow hplain hentry hkey =>
      obtain ⟨u, hu, hwu⟩ := hbelow.related hkids h
      obtain ⟨⟨x, rfl⟩, items, rfl, item, hitem⟩ := hwu.entry hplain hentry
      rcases hkey with hkey | ⟨getter, hgetter⟩
      · exact absurd hkey (hclean.named _ items hu _ hitem)
      · cases hgetter
    | @cycle n k w hbelow hround =>
      have hw : w.IsReference := by
        cases hround with
        | under hkid _ => exact isReference_of_kids (List.ne_nil_of_mem hkid)
      exact absurd hround ((hshallow.below hbelow).acyclic hw)
    | @many d hmany =>
      have hle : countWithin (JsonCodec.kids heap) d v ≤ _ := countWithin_mono (le_max_left d maxDepth) v
      rw [hshallow.countWithin_eq (fun _ => isReference_of_kids) (le_max_right d maxDepth), hcount] at hle
      exact hmany.trans_le hle
    | deep hbelow hdeep => exact absurd (hshallow _ _ hbelow ⟨_, rfl⟩) (not_lt.mpr hdeep)
  · intro hmany
    exact .many (d := maxDepth) (by rw [hcount]; exact hmany)

/-! ### The directions -/

/-- What the two directions agree on, and where they part. -/
structure CodecDirections (stringify : JsonValue → String) (parse : String → Except String ParsedValue) (heap : Heap)
    (m : MessageValue) : Prop where
  /-- What `encode` returns is accepted, unless it is over the byte cap. -/
  sent : ∀ frame, encode stringify heap m = .ok frame →
    ((∃ value, decode parse frame = .ok value) ↔ byteLength frame ≤ maxFrameBytes)
  /-- What `decode` returns is sent again, unless it holds too many values. -/
  returned : ∀ frame value, decode parse frame = .ok value → ∀ heap' m', Holds heap' m' value →
    ((∃ frame', encode stringify heap' m' = .ok frame') ↔ value.valuesBelow ≤ maxNodes)

theorem admitDecoded_of_decode {parse : String → Except String ParsedValue} {frame : Frame} {value : ParsedValue}
    (h : decode parse frame = .ok value) : admitDecoded value = .ok () ∧ byteLength frame ≤ maxFrameBytes := by
  cases frame with
  | binary bytes => cases h
  | text s =>
    unfold decode at h
    simp only at h
    split_ifs at h with hbytes
    rcases hparse : parse s with cause | parsed
    · rw [hparse] at h
      cases h
    · rw [hparse] at h
      simp only at h
      rcases hwalk : admitDecoded parsed with e | u
      · rw [hwalk] at h
        cases h
      · rw [hwalk] at h
        obtain rfl : parsed = value := Except.ok.inj h
        exact ⟨hwalk, not_lt.mp hbytes⟩

theorem encode_ok_iff {stringify : JsonValue → String} {m : MessageValue} :
    (∃ frame, encode stringify heap m = .ok frame) ↔ ¬ Fault heap m := by
  obtain ⟨herror, hok⟩ := admit_spec heap m
  unfold encode
  rcases hwalk : admitMessage heap m with e | t
  · constructor
    · rintro ⟨frame, hframe⟩
      cases hframe
    · exact fun hfault => absurd (herror e hwalk).2 hfault
  · exact ⟨fun _ => (hok t hwalk).2.2, fun _ => ⟨_, rfl⟩⟩

/-- **The directions.**  They part at the byte cap and at the cap on values only. -/
theorem codec_directions (stringify : JsonValue → String) (parse : String → Except String ParsedValue) (heap : Heap)
    (m : MessageValue) (hparse : ∀ t, Copies heap m t → parse (stringify t) = .ok (.ofJson t)) :
    CodecDirections stringify parse heap m where
  sent := by
    intro frame hframe
    obtain ⟨-, hok⟩ := admit_spec heap m
    constructor
    · rintro ⟨value, hvalue⟩
      exact (admitDecoded_of_decode hvalue).2
    · intro hbytes
      unfold encode at hframe
      rcases hwalk : admitMessage heap m with e | t
      · rw [hwalk] at hframe
        cases hframe
      · obtain ⟨hcopies, hshallow, -⟩ := hok t hwalk
        rw [hwalk] at hframe
        obtain rfl : Frame.text (stringify t) = frame := Except.ok.inj hframe
        change utf8ByteLength (stringify t) ≤ maxFrameBytes at hbytes
        refine ⟨.ofJson t, ?_⟩
        unfold decode
        simp only
        rw [if_neg (not_lt.mpr hbytes), hparse t hcopies]
        simp only
        rw [admitDecoded_sent ⟨m, t, rfl, hcopies, hshallow⟩]
        rfl
  returned := by
    intro frame value hvalue heap' m' hholds
    obtain ⟨hfinite, hclean⟩ := clean_of_admitDecoded (admitDecoded_of_decode hvalue).1
    rw [encode_ok_iff, hholds.fault hfinite hclean, not_lt]

theorem codec_directions_shared :
    CodecDirections (fun _ => "[null,\x7b\"x\":0\x7d,\x7b\"x\":0\x7d]") (fun _ => .ok (.ofJson sharedCopy)) sharedHeap
      (.reference 0) :=
  codec_directions _ _ sharedHeap (.reference 0) (fun t ht => by rw [copies_sharedHeap ht])

/-! ### Where the directions part -/

/-- The text `[0,0,…,0]`, one value more than a message may hold. -/
def manyZerosText : List Char := '[' :: (List.replicate maxNodes ['0', ',']).flatten ++ ['0', ']']

/-- What `JSON.parse` returns for it. -/
def manyZeros : ParsedValue := .array (List.replicate (maxNodes + 1) (.number (.finite 0)))

/-- Where it is as a message. -/
def manyZerosHeap : Heap := fun _ => .array ((List.replicate (maxNodes + 1) (MessageValue.number (.finite 0))).map some)

theorem byteLength_manyZeros : byteLength (.text (String.ofList manyZerosText)) ≤ maxFrameBytes := by
  have hascii : ∀ c ∈ manyZerosText, c.toNat < 0x80 := by
    intro c hc
    unfold manyZerosText at hc
    simp only [List.cons_append, List.mem_cons, List.mem_append, List.mem_flatten, List.mem_replicate] at hc
    rcases hc with rfl | ⟨l, ⟨-, rfl⟩, hc⟩ | rfl | rfl | hc
    · decide
    · rcases List.mem_cons.mp hc with rfl | hc
      · decide
      · rw [List.mem_singleton.mp hc]
        decide
    · decide
    · decide
    · cases hc
  have hlength : manyZerosText.length = maxNodes * 2 + 3 := by
    unfold manyZerosText
    rw [List.length_append, List.length_cons, List.length_flatten, List.map_replicate, List.sum_replicate_nat]
    rfl
  have hbytes : byteLength (.text (String.ofList manyZerosText)) = manyZerosText.length := utf8ByteLength_ascii hascii
  rw [hbytes, hlength]
  unfold maxNodes maxFrameBytes
  omega

theorem decode_manyZeros :
    decode (fun _ => .ok manyZeros) (.text (String.ofList manyZerosText)) = .ok manyZeros := by
  have hwalk : admitDecoded manyZeros = .ok () := by
    have hentries : ∀ e ∈ manyZeros.entries, e.2 = .number (.finite 0) := by
      intro e he
      obtain ⟨⟨item, i⟩, hitem, rfl⟩ := List.mem_map.mp he
      exact List.eq_of_mem_replicate (List.fst_mem_of_mem_zipIdx hitem)
    have hpushed : pushed manyZeros 1 = [] := by
      unfold pushed
      rw [List.reverse_eq_nil_iff, List.map_eq_nil_iff, List.filter_eq_nil_iff]
      intro e he
      rw [hentries e he]
      exact Bool.false_ne_true
    have hcheck : checkEntries manyZeros.isArray manyZeros.entries = none :=
      checkEntries_none (fun e he => ⟨by rw [hentries e he]; rfl, fun h => by cases h⟩)
    have hfinite : manyZeros.nonFinite = false := rfl
    have hcontainer : manyZeros.isContainer = true := rfl
    unfold admitDecoded
    rw [hfinite, if_neg Bool.false_ne_true, if_pos hcontainer, admitStack, if_neg (by decide), hcheck, hpushed]
    exact admitStack.eq_1
  have hbytes : ¬ maxFrameBytes < utf8ByteLength (String.ofList manyZerosText) := not_lt.mpr byteLength_manyZeros
  unfold decode
  simp only
  rw [if_neg hbytes, hwalk]
  rfl

/-- `JSON.stringify` of a text with nothing to escape. -/
def quoted : JsonValue → String
  | .string s => "\"" ++ s ++ "\""
  | _ => ""

theorem encode_quoted (heap : Heap) (s : String) :
    encode quoted heap (.string s) = .ok (.text ("\"" ++ s ++ "\"")) := rfl

/-- A text that fills the byte cap by itself. -/
def longText : String := String.ofList (List.replicate maxFrameBytes 'a')

theorem byteLength_quoted {l : List Char} (h : ∀ c ∈ l, c.toNat < 0x80) :
    byteLength (.text ("\"" ++ String.ofList l ++ "\"")) = l.length + 2 := by
  have htext : "\"" ++ String.ofList l ++ "\"" = String.ofList ('"' :: (l ++ ['"'])) := by
    apply String.toList_injective
    simp only [String.toList_append, String.toList_ofList]
    rfl
  have hascii : ∀ c ∈ '"' :: (l ++ ['"']), c.toNat < 0x80 := by
    intro c hc
    rcases List.mem_cons.mp hc with rfl | hc
    · decide
    · rcases List.mem_append.mp hc with hc | hc
      · exact h c hc
      · rw [List.mem_singleton.mp hc]
        decide
  rw [htext]
  refine (utf8ByteLength_ascii hascii).trans ?_
  rw [List.length_cons, List.length_append, List.length_singleton]

theorem holds_manyZeros : Holds manyZerosHeap (.reference 0) manyZeros := by
  refine @Holds.array manyZerosHeap 0 (List.replicate (maxNodes + 1) (.number (.finite 0))) _ rfl ?_
  rw [List.forall₂_iff_get]
  refine ⟨by rw [List.length_replicate, List.length_replicate], fun i h h' => ?_⟩
  rw [List.get_eq_getElem, List.get_eq_getElem, List.getElem_replicate, List.getElem_replicate]
  exact .number _

theorem fault_manyZeros : Fault manyZerosHeap (.reference 0) := by
  refine .many (d := 1) ?_
  have hkids : kids manyZerosHeap (.reference 0) = List.replicate (maxNodes + 1) (.number (.finite 0)) := kids_array rfl
  unfold countWithin
  rw [hkids, List.map_replicate, List.sum_replicate_nat]
  show maxNodes < (maxNodes + 1) * (1 + 0)
  omega

/-- A message of 4194304 letters is sent as a frame that no peer accepts; a frame of 1000001 zeros is accepted, and
what it says cannot be sent. -/
theorem directions_part :
    (encode quoted manyZerosHeap (.string longText) = .ok (.text ("\"" ++ longText ++ "\"")) ∧
      ¬ ∃ value, decode (fun _ => .ok (.string longText)) (.text ("\"" ++ longText ++ "\"")) = .ok value) ∧
    (decode (fun _ => .ok manyZeros) (.text (String.ofList manyZerosText)) = .ok manyZeros ∧
      Holds manyZerosHeap (.reference 0) manyZeros ∧
      ¬ ∃ frame, encode quoted manyZerosHeap (.reference 0) = .ok frame) := by
  refine ⟨⟨encode_quoted _ _, ?_⟩, decode_manyZeros, holds_manyZeros, ?_⟩
  · rintro ⟨value, hvalue⟩
    have hbytes := (admitDecoded_of_decode hvalue).2
    unfold longText at hbytes
    rw [byteLength_quoted (fun c hc => by rw [List.eq_of_mem_replicate hc]; decide), List.length_replicate] at hbytes
    omega
  · rw [encode_ok_iff, not_not]
    exact fault_manyZeros

end JsonCodec
end Grove
