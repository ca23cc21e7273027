import Grove.Objects.Answers

/-! # The type of a stored object

An object is two files, its bytes and its sidecar, published in two steps and removed in two.
A delete takes the bytes first, so the sidecar it comes back for may be one a later put has
published in the meantime.

`keeps_type` is for the runs in which no file operation fails and no delete takes away the
sidecar of an object that stands or is about to: what a reader is told then is the type some put
created the object with.  In `type_lost` a delete and two puts line up, and the object is left
with the default type. -/

namespace Grove
namespace Objects

/-- No file operation fails, and every put says what its bytes are. -/
def NoFailure : Step → Prop
  | .put request => request.contentType ≠ ""
  | .putOp _ outcome | .readOp _ outcome | .deleteOp _ outcome => outcome = .ok
  | _ => True

/-- A content type has no white space around it, and a delete removes no sidecar while its
object stands, or while a put has published a sidecar and not the object yet. -/
def SparesTypes (s : FileStore) : Step → Prop
  | .put request => trim request.contentType = request.contentType
  | .deleteOp d _ => ∀ delete ∈ s.deletes[d]?, delete.phase = .typeRemoving → s.objects delete.hash = none ∧
      ∀ put ∈ s.puts, put.request.hash = delete.hash → put.phase ≠ .publishing
  | _ => True

/-- The call has answered. -/
def PutPhase.isOver : PutPhase → Bool
  | .answered _ => true
  | _ => false

def ReadPhase.isOver : ReadPhase → Bool
  | .answered _ | .failed => true
  | _ => false

def DeletePhase.isOver : DeletePhase → Bool
  | .answered _ | .failed => true
  | _ => false

/-- No operation is in progress. -/
def Quiet (s : FileStore) : Prop :=
  (∀ put ∈ s.puts, put.phase.isOver = true) ∧ (∀ reader ∈ s.readers, reader.phase.isOver = true) ∧
    ∀ delete ∈ s.deletes, delete.phase.isOver = true

instance (s : FileStore) : Decidable (Quiet s) := inferInstanceAs (Decidable (_ ∧ _ ∧ _))

/-- The steps of a get or a head that nothing comes between. -/
def look (s : FileStore) (hash : ObjectHash) (opens : Bool) : List Step :=
  [.read hash opens, .readOp s.readers.length .ok, .readOp s.readers.length .ok, .readOp s.readers.length .ok]

/-- In a quiet store, what a get and a head say of an object is its length and the content type
of a put that created it. -/
def KeepsType (sha256 : ByteArray → ByteArray) (es : List Step) : Prop :=
  ∀ s, s = FileStore.run (Root.empty sha256) es → Quiet s → ∀ hash bytes, s.objects hash = some bytes →
    ∃ put ∈ s.puts, put.request.hash = hash ∧ put.phase = .answered (.ok .Created) ∧ ∀ opens,
      (exec (FileStore.step sha256) s (look s hash opens)).readers[s.readers.length]? =
        some ⟨hash, opens, .answered (some (bytes.size, put.request.contentType))⟩

variable {sha256 : ByteArray → ByteArray} {s s' : FileStore} {p : ℕ} {put put' : Put}

/-- What a reader is told of an object nobody touches. -/
theorem look_answers {hash : ObjectHash} {bytes : ByteArray} (h : s.objects hash = some bytes) (opens : Bool) :
    (exec (FileStore.step sha256) s (look s hash opens)).readers[s.readers.length]? =
      some ⟨hash, opens, .answered (some (bytes.size, contentTypeOf (s.types hash)))⟩ := by
  cases opens with
  | true | false => simp [look, FileStore.step, FileStore.readOp, FileStore.Reader.next, h]

theorem fromUTF8?_toUTF8 (text : String) : String.fromUTF8? text.toUTF8 = some text := by
  unfold String.fromUTF8?
  exact dif_pos text.isValidUTF8

/-- A sidecar says what was written to it. -/
theorem contentTypeOf_toUTF8 {text : String} (htrim : trim text = text) (hne : text ≠ "") :
    contentTypeOf (some text.toUTF8) = text := by
  unfold contentTypeOf
  rw [Option.bind_some, fromUTF8?_toUTF8, Option.map_some, htrim]
  exact if_neg hne

/-! ### The sidecar of an object -/

/-- The put has published its sidecar, and goes on to create its object or has. -/
def HasType : PutPhase → Prop
  | .publishing | .syncingShard | .syncingObjects | .answered (.ok .Created) => True
  | _ => False

/-- The sidecar of this name is the one a put has published. -/
def Typed (s : FileStore) (hash : ObjectHash) : Prop :=
  ∃ put ∈ s.puts, put.request.hash = hash ∧ HasType put.phase ∧ s.types hash = some put.request.contentType.toUTF8

/-- The object stands, or a put is about to publish it. -/
def Due (s : FileStore) (hash : ObjectHash) : Prop :=
  (s.objects hash).isSome ∨ ∃ put ∈ s.puts, put.request.hash = hash ∧ put.phase = .publishing

structure WellTyped (s : FileStore) : Prop where
  typed : ∀ hash, Due s hash → Typed s hash
  named : ∀ put ∈ s.puts, trim put.request.contentType = put.request.contentType ∧ put.request.contentType ≠ ""

theorem WellTyped.open : WellTyped (.open (Root.empty sha256)) where
  typed hash h := by
    rcases h with h | ⟨put, hmem, _⟩
    · cases h
    · cases hmem
  named put h := by cases h

theorem absorb_untyped {next : Option (Except Unit ByteArray)} (h : (s.absorb sha256 p put next).puts[p]? = some put') :
    put'.phase ≠ .publishing := by
  have hfail : ∀ {q error}, (s.fail p q error).puts[p]? = some put' → put'.phase ≠ .publishing := by
    intro q error h
    rcases getElem?_fail h with ⟨rfl, _⟩ | ⟨rfl, _⟩ <;> rintro ⟨⟩
  rcases next with _ | _ | chunk
  case some.error => exact hfail h
  case some.ok =>
      simp only [FileStore.absorb] at h
      split at h
      · exact hfail h
      · split at h <;> (obtain rfl := getElem?_goTo h; rintro ⟨⟩)
  case none =>
      simp only [FileStore.absorb, FileStore.check] at h
      split at h
      · obtain rfl := getElem?_goTo h
        rintro ⟨⟩
      · split at h
        · obtain rfl := getElem?_goTo h
          rintro ⟨⟩
        · exact hfail h

/-- An operation that does not fail: only a sidecar's rename leads to an object's, that rename
follows at once, and a put with a sidecar of its own keeps it. -/
theorem operate_typed (hf : Fits sha256 s.incoming put) (hget : s.puts[p]? = some put)
    (h : (s.operate sha256 p put put.phase .ok).puts[p]? = some put') :
    (put'.phase = .publishing → (s.operate sha256 p put put.phase .ok).types =
        Function.update s.types put.request.hash (some put.request.contentType.toUTF8)) ∧
      (put'.phase = .syncingShard → put.phase = .publishing) ∧ (HasType put.phase → HasType put'.phase) := by
  generalize hphase : put.phase = phase at h ⊢
  cases phase with
  | typePublishing =>
    simp only [Fits, hphase] at hf
    obtain ⟨j, hj, _⟩ := id hf.2.2
    simp only [FileStore.operate, held_of_holds hf.2.2] at h ⊢
    obtain rfl := getElem?_goTo h
    refine ⟨fun _ => ?_, (fun hp => by cases hp), fun hp => by cases hp⟩
    simp only [FileStore.leave, hj]
    rfl
  | publishing =>
    simp only [Fits, hphase] at hf
    simp only [FileStore.operate, held_of_holds hf.2] at h
    obtain rfl := getElem?_goTo h
    exact ⟨(fun hp => by cases hp), fun _ => rfl, fun _ => trivial⟩
  | syncingShard =>
    simp only [FileStore.operate] at h
    obtain rfl := getElem?_goTo h
    refine ⟨?_, ?_, ?_⟩ <;> cases put.shardIsNew <;> simp [HasType]
  | syncingObjects =>
    obtain rfl := getElem?_goTo h
    exact ⟨(fun hp => by cases hp), (fun hp => by cases hp), fun _ => trivial⟩
  | answered answer =>
    change s.puts[p]? = some put' at h
    rw [hget] at h
    cases h
    rw [hphase]
    exact ⟨(fun hp => by cases hp), (fun hp => by cases hp), id⟩
  | _ =>
    -- no other operation leads near a rename
    simp only [FileStore.operate, FileStore.check, FileStore.fail] at h
    (repeat' split at h) <;>
      first
      | (obtain rfl := getElem?_goTo h; refine ⟨?_, ?_, ?_⟩ <;> rintro ⟨⟩)
      | (rw [hget] at h; cases h; rw [hphase]; refine ⟨?_, ?_, ?_⟩ <;> rintro ⟨⟩)

theorem mem_moved (hm : Moved sha256 s p put put' s') (hget : s.puts[p]? = some put) :
    put' ∈ s'.puts ∧ ∀ q other, q ≠ p → s.puts[q]? = some other → other ∈ s'.puts := by
  refine ⟨List.mem_of_getElem? (i := p) ?_, fun q other hne hq => List.mem_of_getElem? (i := q) ?_⟩
  · rw [hm.puts, List.getElem?_set_self (List.getElem?_eq_some_iff.mp hget).1]
  · rw [hm.puts, List.getElem?_set_ne (Ne.symm hne), hq]

/-- A put moves on without a file operation of its failing. -/
theorem WellTyped.moved (h : WellTyped s) (hget : s.puts[p]? = some put) (hm : Moved sha256 s p put put' s')
    (hpublishing : put'.phase = .publishing → s'.types =
      Function.update s.types put.request.hash (some put.request.contentType.toUTF8))
    (hobject : put'.phase = .syncingShard → put.phase = .publishing) (hkept : HasType put.phase → HasType put'.phase) :
    WellTyped s' := by
  obtain ⟨hmem', hothers⟩ := mem_moved hm hget
  refine ⟨fun hash hdue => ?_, fun other hmem => ?_⟩
  · by_cases hphase : put'.phase = .publishing
    · have htypes := hpublishing hphase
      by_cases hhash : hash = put.request.hash
      · subst hhash
        refine ⟨put', hmem', by rw [hm.request], by rw [hphase]; trivial, ?_⟩
        rw [htypes, Function.update_self, hm.request]
      · -- the sidecar is another object's
        have hdue' : Due s hash := by
          rcases hdue with hthere | ⟨other, hmem, hother, hpub⟩
          · rcases hm.objects with hsame | ⟨_, hsyncing, _⟩
            · exact .inl (hsame ▸ hthere)
            · rw [hphase] at hsyncing
              cases hsyncing
          · obtain ⟨q, hq⟩ := List.mem_iff_getElem?.mp hmem
            rcases getElem?_moved hm hget hq with ⟨rfl, rfl⟩ | ⟨_, hold⟩
            · exact absurd (hother.symm.trans (by rw [hm.request])) hhash
            · exact .inr ⟨other, List.mem_of_getElem? hold, hother, hpub⟩
        obtain ⟨giver, hmem, hgiver, hhas, htype⟩ := h.typed hash hdue'
        obtain ⟨q, hq⟩ := List.mem_iff_getElem?.mp hmem
        have hqp : q ≠ p := by
          rintro rfl
          rw [hget] at hq
          cases hq
          exact hhash hgiver.symm
        exact ⟨giver, hothers q giver hqp hq, hgiver, hhas, by rw [htypes, Function.update_of_ne hhash, htype]⟩
    · have htypes : s'.types = s.types := hm.types.resolve_right fun h => hphase h.1
      have hdue' : Due s hash := by
        rcases hdue with hthere | ⟨other, hmem, hother, hpub⟩
        · rcases hm.objects with hsame | ⟨_, hsyncing, _, hobjects⟩
          · exact .inl (hsame ▸ hthere)
          · by_cases hhash : hash = put.request.hash
            · exact .inr ⟨put, List.mem_of_getElem? hget, hhash.symm, hobject hsyncing⟩
            · rw [hobjects, Function.update_of_ne hhash] at hthere
              exact .inl hthere
        · obtain ⟨q, hq⟩ := List.mem_iff_getElem?.mp hmem
          rcases getElem?_moved hm hget hq with ⟨_, rfl⟩ | ⟨_, hold⟩
          · exact absurd hpub hphase
          · exact .inr ⟨other, List.mem_of_getElem? hold, hother, hpub⟩
      obtain ⟨giver, hmem, hgiver, hhas, htype⟩ := h.typed hash hdue'
      obtain ⟨q, hq⟩ := List.mem_iff_getElem?.mp hmem
      by_cases hqp : q = p
      · subst hqp
        rw [hget] at hq
        cases hq
        exact ⟨put', hmem', by rw [hm.request, hgiver], hkept hhas, by rw [htypes, htype, hm.request]⟩
      · exact ⟨giver, hothers q giver hqp hq, hgiver, hhas, by rw [htypes, htype]⟩
  · obtain ⟨q, hq⟩ := List.mem_iff_getElem?.mp hmem
    rcases getElem?_moved hm hget hq with ⟨_, rfl⟩ | ⟨_, hold⟩
    · rw [hm.request]
      exact h.named put (List.mem_of_getElem? hget)
    · exact h.named other (List.mem_of_getElem? hold)

/-- A step of no put, that publishes nothing and removes no sidecar that is due. -/
theorem WellTyped.quiet (h : WellTyped s) (hputs : s'.puts = s.puts)
    (hobjects : ∀ hash bytes, s'.objects hash = some bytes → s.objects hash = some bytes)
    (htypes : ∀ hash, Due s' hash → s'.types hash = s.types hash) : WellTyped s' := by
  refine ⟨fun hash hdue => ?_, fun put hmem => h.named put (hputs ▸ hmem)⟩
  have hdue' : Due s hash := by
    rcases hdue with hthere | ⟨put, hmem, hput, hpub⟩
    · obtain ⟨bytes, hbytes⟩ := Option.isSome_iff_exists.mp hthere
      exact .inl (by rw [hobjects hash bytes hbytes]; rfl)
    · exact .inr ⟨put, hputs ▸ hmem, hput, hpub⟩
  obtain ⟨giver, hmem, hgiver, hhas, htype⟩ := h.typed hash hdue'
  exact ⟨giver, hputs ▸ hmem, hgiver, hhas, by rw [htypes hash hdue, htype]⟩

theorem WellTyped.deleteOp (h : WellTyped s) (d : ℕ) (outcome : Outcome) (hcond : SparesTypes s (.deleteOp d outcome)) :
    WellTyped (s.deleteOp d outcome) := by
  unfold FileStore.deleteOp
  split
  case h_1 hash hdelete =>
    split
    case isTrue =>
      refine h.quiet rfl (fun hash' bytes hbytes => ?_) fun _ _ => rfl
      change Function.update s.objects hash none hash' = some bytes at hbytes
      rw [Function.update_apply] at hbytes
      split at hbytes
      · cases hbytes
      · exact hbytes
    case isFalse => exact h.quiet rfl (fun _ _ h => h) fun _ _ => rfl
  case h_2 => exact h.quiet rfl (fun _ _ h => h) fun _ _ => rfl
  case h_3 hash hdelete =>
    obtain ⟨habsent, hnone⟩ := hcond _ hdelete rfl
    refine h.quiet rfl (fun _ _ h => h) fun hash' hdue => ?_
    change Function.update s.types hash none hash' = s.types hash'
    by_cases hhash : hash' = hash
    · subst hhash
      rcases hdue with hthere | ⟨put, hmem, hput, hpub⟩
      · change (s.objects hash').isSome at hthere
        rw [habsent] at hthere
        cases hthere
      · exact absurd hpub (hnone put hmem hput)
    · exact Function.update_of_ne hhash _ _
  case h_4 => exact h.quiet rfl (fun _ _ h => h) fun _ _ => rfl
  case h_5 => exact h

theorem WellTyped.step (h : WellTyped s) (hsound : Sound sha256 s) {e : Step} (hok : NoFailure e) (hcond : SparesTypes s e) :
    WellTyped (s.step sha256 e) := by
  cases e with
  | put request =>
    refine ⟨fun hash hdue => ?_, fun put hmem => ?_⟩
    · have hdue' : Due s hash := by
        rcases hdue with hthere | ⟨put, hmem, hput, hpub⟩
        · exact .inl hthere
        · obtain hmem | hmem := List.mem_append.mp hmem
          · exact .inr ⟨put, hmem, hput, hpub⟩
          · rw [List.mem_singleton.mp hmem] at hpub
            cases hpub
      obtain ⟨giver, hmem, hrest⟩ := h.typed hash hdue'
      exact ⟨giver, List.mem_append_left _ hmem, hrest⟩
    · obtain hmem | hmem := List.mem_append.mp hmem
      · exact h.named put hmem
      · rw [List.mem_singleton.mp hmem]
        exact ⟨hcond, hok⟩
  | body p next =>
    change WellTyped (s.putBody sha256 p next)
    unfold FileStore.putBody
    split
    case h_2 => exact h
    case h_1 put hget =>
      split
      case isFalse => exact h
      case isTrue hphase =>
        obtain ⟨put', hm⟩ := absorb_moved next hphase (hsound.fits p put hget)
        have hget' : (s.absorb sha256 p put next).puts[p]? = some put' := by
          rw [hm.puts, List.getElem?_set_self (List.getElem?_eq_some_iff.mp hget).1]
        have hlanded := absorb_not_landed hget'
        refine h.moved hget hm (fun hpub => absurd hpub (absorb_untyped hget')) (fun hsyncing => ?_) fun hhas => ?_
        · rw [hsyncing] at hlanded
          exact absurd trivial hlanded
        · rw [hphase] at hhas
          cases hhas
  | putOp p outcome =>
    obtain rfl : outcome = .ok := hok
    change WellTyped (s.putOp sha256 p .ok)
    unfold FileStore.putOp
    split
    case h_2 => exact h
    case h_1 put hget =>
      obtain ⟨put', hm⟩ := operate_moved .ok hget (hsound.nodup p put hget) (hsound.fits p put hget)
      have hget' : (s.operate sha256 p put put.phase .ok).puts[p]? = some put' := by
        rw [hm.puts, List.getElem?_set_self (List.getElem?_eq_some_iff.mp hget).1]
      obtain ⟨hpublishing, hobject, hkept⟩ := operate_typed (hsound.fits p put hget) hget hget'
      exact h.moved hget hm hpublishing hobject hkept
  | read | readOp | delete => exact h.quiet rfl (fun _ _ h => h) fun _ _ => rfl
  | deleteOp d outcome => exact h.deleteOp d outcome hcond

/-- **A stored object keeps its type**, along every run in which no file operation fails and no
delete takes away a sidecar that is another put's. -/
theorem keeps_type (sha256 : ByteArray → ByteArray) (es : List Step)
    (h : Meets (FileStore.step sha256) (fun s e => NoFailure e ∧ SparesTypes s e) (.open (Root.empty sha256)) es) :
    KeepsType sha256 es := by
  rintro s rfl ⟨hputs, _, _⟩ hash bytes hobject
  have hstep : ∀ s e, WellTyped s ∧ Sound sha256 s → NoFailure e ∧ SparesTypes s e →
      WellTyped (FileStore.step sha256 s e) ∧ Sound sha256 (FileStore.step sha256 s e) :=
    fun s e hs he => ⟨hs.1.step hs.2 he.1 he.2, hs.2.step e⟩
  have hinv : WellTyped (FileStore.run (Root.empty sha256) es) ∧ Sound sha256 (FileStore.run (Root.empty sha256) es) :=
    Meets.invariant hstep ⟨.open, .open _⟩ h
  obtain ⟨giver, hmem, hgiver, hhas, htype⟩ := hinv.1.typed hash (.inl (by rw [hobject]; rfl))
  obtain ⟨htrim, hne⟩ := hinv.1.named giver hmem
  refine ⟨giver, hmem, hgiver, ?_, fun opens => ?_⟩
  · have hover := hputs giver hmem
    match hphase : giver.phase, hhas, hover with
    | .answered (.ok .Created), _, _ => rfl
  · rw [look_answers hobject, htype, contentTypeOf_toUTF8 htrim hne]

/-! ### A sidecar taken away -/

/-- A hash function for examples: everything hashes to zeros. -/
def zeros : ByteArray → ByteArray := fun _ => ⟨(List.replicate 32 0).toArray⟩

theorem replicate_zero_hash : (String.ofList (List.replicate 64 '0')).toList.length = 64 ∧
    ∀ c ∈ (String.ofList (List.replicate 64 '0')).toList, '0' ≤ c ∧ c ≤ '9' ∨ 'a' ≤ c ∧ c ≤ 'f' := by
  rw [String.toList_ofList]
  refine ⟨List.length_replicate, fun c hc => .inl ?_⟩
  rw [List.eq_of_mem_replicate hc]
  exact ⟨by decide, by decide⟩

def zeroHash : ObjectHash := ⟨String.ofList (List.replicate 64 '0'), replicate_zero_hash⟩

/-- Put `p` of an empty body, from its first look to the flush of its shard. -/
def putAll (p : ℕ) : List Step :=
  [.put ⟨zeroHash, "application/wasm", 0⟩, .putOp p .ok, .putOp p .ok, .body p none] ++ List.replicate 9 (.putOp p .ok)

instance (e : Step) : Decidable (NoFailure e) := by
  unfold NoFailure
  split <;> infer_instance

instance (s : FileStore) (e : Step) : Decidable (SparesTypes s e) := by
  unfold SparesTypes
  split <;> infer_instance

/-- An object is created, and flushed to its new shard. -/
def created : List Step := putAll 0 ++ [.putOp 0 .ok]

theorem keeps_type_created : KeepsType zeros created := keeps_type zeros created (by decide +kernel)

/-- A delete has taken the bytes of an object away when another put creates it anew, and comes
back for the sidecar. -/
def createdAndDeleted : List Step :=
  created ++ [.delete zeroHash, .deleteOp 0 .ok] ++ putAll 1 ++ [.deleteOp 0 .ok]

/-- The object is there, put once and again, and its type is the default one. -/
theorem type_lost : ¬ ∀ sha256 es, Meets (FileStore.step sha256) (fun _ e => NoFailure e) (.open (Root.empty sha256)) es →
    KeepsType sha256 es := by
  intro h
  have hputs : ∀ put ∈ (FileStore.run (Root.empty zeros) createdAndDeleted).puts,
      put.request.contentType = "application/wasm" := by decide +kernel
  have hlost : (FileStore.run (Root.empty zeros) createdAndDeleted).types zeroHash = none := by decide +kernel
  have hobject : (FileStore.run (Root.empty zeros) createdAndDeleted).objects zeroHash = some .empty := by decide +kernel
  have hquiet : Quiet (FileStore.run (Root.empty zeros) createdAndDeleted) :=
    ⟨by decide +kernel, by decide +kernel, by decide +kernel⟩
  generalize hs : FileStore.run (Root.empty zeros) createdAndDeleted = s at hputs hlost hobject hquiet
  obtain ⟨put, hmem, _, _, hlook⟩ := h zeros createdAndDeleted (by decide +kernel) s hs.symm hquiet zeroHash .empty hobject
  have htold := (look_answers hobject true).symm.trans (hlook true)
  rw [hlost, hputs put hmem] at htold
  simp only [Option.some.injEq, Reader.mk.injEq, ReadPhase.answered.injEq, Prod.mk.injEq] at htold
  exact absurd htold.2.2.2 (by decide)

end Objects
end Grove
