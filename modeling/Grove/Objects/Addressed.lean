import Grove.Objects.FileStore

/-! # The object store is content addressed

What no order of the file operations can break, whichever of them fail: an object holds bytes
of its own name, a put that answers has found or left its object whole, one that failed leaves
nothing of its own behind, and no two uploads write one temp file.

A put touches its own two temp files and no others, and publishes nothing it has not hashed:
`Moved` says so of every step it takes, and the properties are read off it. -/

namespace Grove
namespace Objects

/-- The temp files a put was given. -/
def Put.temps (put : Put) : List ℕ := put.temp.toList ++ put.typeTemp.toList

/-- The bytes a put hashed are the ones its name promised. -/
def Put.Checked (sha256 : ByteArray → ByteArray) (put : Put) : Prop := hex (sha256 put.body) = put.request.hash.text

/-- The temp file of a put holds these bytes. -/
def Holds (incoming : ℕ → Option ByteArray) (temp : Option ℕ) (bytes : ByteArray) : Prop :=
  ∃ k, temp = some k ∧ incoming k = some bytes

/-- What a put knows of itself, and of its own temp files, in each phase. -/
def Fits (sha256 : ByteArray → ByteArray) (incoming : ℕ → Option ByteArray) (put : Put) : Prop :=
  match put.phase with
  | .looking => put.body = .empty ∧ put.temp = none ∧ put.typeTemp = none
  | .creating => put.body = .empty ∧ put.temp.isSome ∧ put.typeTemp = none
  | .reading => put.typeTemp = none ∧ ∀ k, put.temp = some k → incoming k = some put.body
  | .writing chunk => put.typeTemp = none ∧ ∃ before, Holds incoming put.temp before ∧ put.body = before ++ chunk
  | .syncing => put.typeTemp = none ∧ Holds incoming put.temp put.body
  | .verifying => put.Checked sha256 ∧ put.temp = none ∧ put.typeTemp = none
  | .sharding | .makingShard => put.Checked sha256 ∧ Holds incoming put.temp put.body ∧ put.typeTemp = none
  | .typeCreating | .typeDropping => put.Checked sha256 ∧ Holds incoming put.temp put.body ∧ put.typeTemp.isSome
  | .typeWriting => put.Checked sha256 ∧ Holds incoming put.temp put.body ∧ Holds incoming put.typeTemp .empty
  | .typeSyncing | .typePublishing => put.Checked sha256 ∧ Holds incoming put.temp put.body ∧
      Holds incoming put.typeTemp put.request.contentType.toUTF8
  | .publishing => put.Checked sha256 ∧ Holds incoming put.temp put.body
  | .dropping | .lookingAgain | .syncingShard | .syncingObjects | .answered (.ok _) => put.Checked sha256
  | .failing _ => put.temp.isSome
  | .answered (.error _) => True

variable {sha256 : ByteArray → ByteArray} {s s' : FileStore} {p : ℕ} {put put' : Put}

theorem mem_temps {k : ℕ} : k ∈ put.temps ↔ put.temp = some k ∨ put.typeTemp = some k := by
  simp [Put.temps]

/-- Only the put's own temp files matter to it. -/
theorem Holds.congr {incoming incoming' : ℕ → Option ByteArray} {temp : Option ℕ} {bytes : ByteArray}
    (h : ∀ k, temp = some k → incoming' k = incoming k) (hh : Holds incoming temp bytes) : Holds incoming' temp bytes := by
  obtain ⟨k, htemp, hk⟩ := hh
  exact ⟨k, htemp, (h k htemp).trans hk⟩

theorem Fits.congr {incoming incoming' : ℕ → Option ByteArray} (h : ∀ k ∈ put.temps, incoming' k = incoming k)
    (hf : Fits sha256 incoming put) : Fits sha256 incoming' put := by
  have htemp : ∀ k, put.temp = some k → incoming' k = incoming k := fun k hk => h k (mem_temps.mpr (.inl hk))
  have htype : ∀ k, put.typeTemp = some k → incoming' k = incoming k := fun k hk => h k (mem_temps.mpr (.inr hk))
  obtain ⟨request, temp, typeTemp, body, shardIsNew, phase⟩ := put
  cases phase with
  | reading => exact ⟨hf.1, fun k hk => (htemp k hk).trans (hf.2 k hk)⟩
  | writing chunk =>
    obtain ⟨hnone, before, hholds, hbody⟩ := hf
    exact ⟨hnone, before, hholds.congr htemp, hbody⟩
  | syncing => exact ⟨hf.1, hf.2.congr htemp⟩
  | sharding | makingShard | typeCreating | typeDropping => exact ⟨hf.1, hf.2.1.congr htemp, hf.2.2⟩
  | typeWriting | typeSyncing | typePublishing => exact ⟨hf.1, hf.2.1.congr htemp, hf.2.2.congr htype⟩
  | publishing => exact ⟨hf.1, hf.2.congr htemp⟩
  | looking | creating | verifying | dropping | lookingAgain | syncingShard | syncingObjects | failing => exact hf
  | answered answer => cases answer <;> exact hf

/-- What a put may do in one step: it goes on with the temp files it has, or is given the next
one; of the files in `incoming/` it changes its own; and the one object it publishes is the
bytes it has hashed. -/
structure Moved (sha256 : ByteArray → ByteArray) (s : FileStore) (p : ℕ) (put put' : Put) (s' : FileStore) : Prop where
  puts : s'.puts = s.puts.set p put'
  calls : s'.readers = s.readers ∧ s'.deletes = s.deletes
  request : put'.request = put.request
  temps : put'.temps = put.temps ∧ s'.nextTemp = s.nextTemp ∨
    put'.temps = put.temps ++ [s.nextTemp] ∧ s'.nextTemp = s.nextTemp + 1
  incoming : ∀ k, k ∉ put'.temps → s'.incoming k = s.incoming k
  objects : s'.objects = s.objects ∨ put.Checked sha256 ∧ put'.phase = .syncingShard ∧ put'.body = put.body ∧
    s'.objects = Function.update s.objects put.request.hash (some put.body)
  types : s'.types = s.types ∨ put'.phase = .publishing ∧
    s'.types = Function.update s.types put.request.hash (some put.request.contentType.toUTF8)
  fits : Fits sha256 s'.incoming put'

variable {q : Put} {phase : PutPhase}

/-- The put goes on, after what it keeps of itself changed. -/
theorem Moved.goTo (hrequest : q.request = put.request) (htemps : q.temps = put.temps)
    (h : Fits sha256 s.incoming { q with phase }) : Moved sha256 s p put { q with phase } (s.goTo p q phase) where
  puts := rfl
  calls := ⟨rfl, rfl⟩
  request := hrequest
  temps := .inl ⟨htemps, rfl⟩
  incoming _ _ := rfl
  objects := .inl rfl
  types := .inl rfl
  fits := h

/-- The put goes on with one more temp file. -/
theorem Moved.given (hrequest : q.request = put.request) (htemps : q.temps = put.temps ++ [s.nextTemp])
    (h : Fits sha256 s.incoming { q with phase }) :
    Moved sha256 s p put { q with phase } (s.tempPath.2.goTo p q phase) where
  puts := rfl
  calls := ⟨rfl, rfl⟩
  request := hrequest
  temps := .inr ⟨htemps, rfl⟩
  incoming _ _ := rfl
  objects := .inl rfl
  types := .inl rfl
  fits := h

theorem Moved.stay (hget : s.puts[p]? = some put) (h : Fits sha256 s.incoming put) : Moved sha256 s p put put s where
  puts := by
    obtain ⟨hlt, rfl⟩ := List.getElem?_eq_some_iff.mp hget
    exact (List.set_getElem_self hlt).symm
  calls := ⟨rfl, rfl⟩
  request := rfl
  temps := .inl ⟨rfl, rfl⟩
  incoming _ _ := rfl
  objects := .inl rfl
  types := .inl rfl
  fits := h

/-- A step that leaves something of one of the put's own files first. -/
theorem Moved.left {temp : Option ℕ} {file : Option ByteArray} (htemp : ∀ k, temp = some k → k ∈ put'.temps)
    (h : Moved sha256 (s.leave temp file) p put put' s') : Moved sha256 s p put put' s' := by
  unfold FileStore.leave at h
  cases temp with
  | none => exact h
  | some k =>
    refine ⟨h.puts, h.calls, h.request, h.temps, fun k' hk' => ?_, h.objects, h.types, h.fits⟩
    have hne : k' ≠ k := fun heq => hk' (heq ▸ htemp k rfl)
    exact (h.incoming k' hk').trans (Function.update_of_ne hne _ _)

/-- A put fails: nothing of its own is left to know. -/
theorem Moved.fail (hrequest : q.request = put.request) (htemps : q.temps = put.temps) (error : PutError) :
    ∃ put', Moved sha256 s p put put' (s.fail p q error) ∧ put'.temps = put.temps := by
  unfold FileStore.fail
  split
  case h_1 k htemp => exact ⟨_, .goTo hrequest htemps (by simp [Fits, htemp]), htemps⟩
  case h_2 => exact ⟨_, .goTo hrequest htemps trivial, htemps⟩

theorem Moved.fails (error : PutError) : ∃ put', Moved sha256 s p put put' (s.fail p put error) :=
  (Moved.fail rfl rfl error).imp fun _ h => h.1

theorem Moved.leftFail {temp : Option ℕ} {file : Option ByteArray} (htemp : ∀ k, temp = some k → k ∈ put.temps)
    (error : PutError) : ∃ put', Moved sha256 s p put put' ((s.leave temp file).fail p put error) := by
  have hfail : ∃ put', Moved sha256 (s.leave temp file) p put put' ((s.leave temp file).fail p put error) ∧
      put'.temps = put.temps := Moved.fail rfl rfl error
  obtain ⟨put', hmoved, htemps⟩ := hfail
  exact ⟨put', hmoved.left fun k hk => htemps ▸ htemp k hk⟩

theorem Moved.leftGo {temp : Option ℕ} {file : Option ByteArray} (htemp : ∀ k, temp = some k → k ∈ put.temps)
    (h : Fits sha256 (s.leave temp file).incoming { put with phase }) :
    ∃ put', Moved sha256 s p put put' ((s.leave temp file).goTo p put phase) :=
  ⟨{ put with phase }, (Moved.goTo (s := s.leave temp file) rfl rfl h).left htemp⟩

theorem Moved.check (h : put.Checked sha256 → Fits sha256 s.incoming { put with phase }) :
    ∃ put', Moved sha256 s p put put' (s.check sha256 p put phase) := by
  unfold FileStore.check
  split
  case isTrue hchecked => exact ⟨_, .goTo rfl rfl (h hchecked)⟩
  case isFalse => exact Moved.fails _

/-- What an operation leaves of a file, and of the others. -/
theorem leave_incoming {temp : Option ℕ} {file : Option ByteArray} {k : ℕ} (htemp : temp = some k) :
    (s.leave temp file).incoming = Function.update s.incoming k file := by
  rw [htemp]
  rfl

theorem Holds.left {temp : Option ℕ} {bytes : ByteArray} {k : ℕ} (htemp : temp = some k) :
    Holds (s.leave temp (some bytes)).incoming temp bytes :=
  ⟨k, htemp, by rw [leave_incoming htemp, Function.update_self]⟩

/-- Leaving something of one file leaves the other alone. -/
theorem Holds.kept {temp temp' : Option ℕ} {bytes : ByteArray} {file : Option ByteArray} (h : Holds s.incoming temp bytes)
    (hne : ∀ k, temp = some k → temp' ≠ some k) : Holds (s.leave temp' file).incoming temp bytes := by
  obtain ⟨k, htemp, hk⟩ := h
  refine ⟨k, htemp, ?_⟩
  cases temp' with
  | none => exact hk
  | some k' =>
    have hne' : k ≠ k' := fun heq => hne k htemp (heq ▸ rfl)
    rw [leave_incoming rfl, Function.update_of_ne hne', hk]

theorem held_of_holds {temp : Option ℕ} {bytes : ByteArray} (h : Holds s.incoming temp bytes) :
    s.held temp = some bytes := by
  obtain ⟨k, htemp, hk⟩ := h
  rw [FileStore.held, htemp]
  exact hk

theorem mem_temp (k : ℕ) (h : put.temp = some k) : k ∈ put.temps := mem_temps.mpr (.inl h)

theorem mem_typeTemp (k : ℕ) (h : put.typeTemp = some k) : k ∈ put.temps := mem_temps.mpr (.inr h)

/-- The two temp files of a put are two. -/
theorem temp_ne_typeTemp (hnodup : put.temps.Nodup) (k : ℕ) (h : put.temp = some k) : put.typeTemp ≠ some k := by
  intro htype
  simp [Put.temps, h, htype] at hnodup

/-! ### The steps of a put -/

theorem absorb_moved (next : Option (Except Unit ByteArray)) (hphase : put.phase = .reading)
    (hf : Fits sha256 s.incoming put) : ∃ put', Moved sha256 s p put put' (s.absorb sha256 p put next) := by
  simp only [Fits, hphase] at hf
  obtain ⟨htype, hbody⟩ := hf
  match next with
  | some (.error _) => exact Moved.fails _
  | some (.ok chunk) =>
    simp only [FileStore.absorb]
    split
    · have hfail : ∃ put', Moved sha256 s p put put' (s.fail p { put with body := put.body ++ chunk } .TooLarge) ∧
          put'.temps = put.temps := Moved.fail (by rfl) (by rfl) _
      exact hfail.imp fun _ h => h.1
    · split
      case h_1 k htemp => exact ⟨_, .goTo rfl rfl ⟨htype, put.body, ⟨k, htemp, hbody k htemp⟩, rfl⟩⟩
      case h_2 htemp => exact ⟨_, .goTo rfl rfl ⟨htype, fun k hk => by rw [htemp] at hk; cases hk⟩⟩
  | none =>
    simp only [FileStore.absorb]
    split
    case h_1 k htemp => exact ⟨_, .goTo rfl rfl ⟨htype, k, htemp, hbody k htemp⟩⟩
    case h_2 htemp => exact Moved.check fun hchecked => ⟨hchecked, htemp, htype⟩

/-- Every operation of a put is a step of the kind. -/
theorem operate_moved (outcome : Outcome) (hget : s.puts[p]? = some put) (hnodup : put.temps.Nodup) (hf : Fits sha256 s.incoming put) :
    ∃ put', Moved sha256 s p put put' (s.operate sha256 p put put.phase outcome) := by
  have hne := temp_ne_typeTemp hnodup
  have hne' : ∀ k, put.typeTemp = some k → put.temp ≠ some k := fun k hk htemp => hne k htemp hk
  cases hphase : put.phase with
  | looking =>
    simp only [Fits, hphase] at hf
    obtain ⟨hbody, htemp, htype⟩ := hf
    cases outcome with
    | fails left => exact Moved.fails _
    | ok =>
      simp only [FileStore.operate]
      split
      · exact ⟨_, .goTo rfl rfl ⟨htype, fun k hk => by rw [htemp] at hk; cases hk⟩⟩
      · exact ⟨_, .given rfl (by simp [Put.temps, htemp, htype, FileStore.tempPath]) ⟨hbody, rfl, htype⟩⟩
  | creating =>
    simp only [Fits, hphase] at hf
    obtain ⟨hbody, htemp, htype⟩ := hf
    cases outcome with
    | fails left => exact Moved.leftFail mem_temp _
    | ok =>
      obtain ⟨k, htemp⟩ := Option.isSome_iff_exists.mp htemp
      simp only [FileStore.operate]
      refine Moved.leftGo mem_temp ⟨htype, fun k' hk' => ?_⟩
      rw [hbody, leave_incoming hk', Function.update_self]
  | reading => exact ⟨put, .stay hget hf⟩
  | writing chunk =>
    simp only [Fits, hphase] at hf
    obtain ⟨htype, before, hholds, hbody⟩ := hf
    cases outcome with
    | fails left => exact Moved.leftFail mem_temp _
    | ok =>
      simp only [FileStore.operate, held_of_holds hholds]
      refine Moved.leftGo mem_temp ⟨htype, fun k hk => ?_⟩
      rw [hbody, leave_incoming hk, Function.update_self]
      rfl
  | syncing =>
    simp only [Fits, hphase] at hf
    obtain ⟨htype, hholds⟩ := hf
    cases outcome with
    | fails left => exact Moved.leftFail mem_temp _
    | ok => exact Moved.check fun hchecked => ⟨hchecked, hholds, htype⟩
  | verifying =>
    simp only [Fits, hphase] at hf
    cases outcome with
    | fails left => exact Moved.fails _
    | ok =>
      simp only [FileStore.operate]
      split
      · exact ⟨_, .goTo rfl rfl hf.1⟩
      · exact Moved.fails _
  | sharding =>
    simp only [Fits, hphase] at hf
    cases outcome with
    | fails | ok => exact ⟨_, .goTo rfl rfl hf⟩
  | makingShard =>
    simp only [Fits, hphase] at hf
    obtain ⟨hchecked, hholds, htype⟩ := hf
    cases outcome with
    | fails left => exact Moved.fails _
    | ok =>
      have hgiven : Moved sha256 s p put _
          (s.tempPath.2.goTo p { put with typeTemp := some s.nextTemp } .typeCreating) :=
        .given rfl (by simp [Put.temps, htype]) ⟨hchecked, hholds, rfl⟩
      exact ⟨_, hgiven.puts, hgiven.calls, rfl, hgiven.temps, hgiven.incoming, .inl rfl, .inl rfl, hgiven.fits⟩
  | typeCreating =>
    simp only [Fits, hphase] at hf
    obtain ⟨hchecked, hholds, htype⟩ := hf
    cases outcome with
    | fails left =>
      simp only [FileStore.operate]
      exact Moved.leftGo mem_typeTemp ⟨hchecked, hholds.kept hne, htype⟩
    | ok =>
      obtain ⟨j, htype⟩ := Option.isSome_iff_exists.mp htype
      simp only [FileStore.operate]
      exact Moved.leftGo mem_typeTemp ⟨hchecked, hholds.kept hne, .left htype⟩
  | typeWriting =>
    simp only [Fits, hphase] at hf
    obtain ⟨hchecked, hholds, htype⟩ := hf
    have hsome : put.typeTemp.isSome := by
      obtain ⟨j, hj, _⟩ := htype
      simp [hj]
    cases outcome with
    | fails left =>
      simp only [FileStore.operate]
      exact Moved.leftGo mem_typeTemp ⟨hchecked, hholds.kept hne, hsome⟩
    | ok =>
      simp only [FileStore.operate, held_of_holds htype]
      obtain ⟨j, hj, _⟩ := htype
      refine Moved.leftGo mem_typeTemp ⟨hchecked, hholds.kept hne, ?_⟩
      rw [Option.map_some, ByteArray.empty_append]
      exact .left hj
  | typeSyncing =>
    simp only [Fits, hphase] at hf
    obtain ⟨hchecked, hholds, htype⟩ := hf
    cases outcome with
    | ok => exact ⟨_, .goTo rfl rfl ⟨hchecked, hholds, htype⟩⟩
    | fails left =>
      obtain ⟨j, hj, _⟩ := htype
      simp only [FileStore.operate]
      exact Moved.leftGo mem_typeTemp ⟨hchecked, hholds.kept hne, by simp [hj]⟩
  | typePublishing =>
    simp only [Fits, hphase] at hf
    obtain ⟨hchecked, hholds, htype⟩ := hf
    obtain ⟨j, hj, hfile⟩ := id htype
    cases outcome with
    | fails left => exact ⟨_, .goTo rfl rfl ⟨hchecked, hholds, by simp [hj]⟩⟩
    | ok =>
      simp only [FileStore.operate, held_of_holds htype]
      simp only [FileStore.leave, hj]
      obtain ⟨k, htemp, hbody⟩ := hholds
      have hkj : k ≠ j := fun heq => hne k htemp (heq ▸ hj)
      refine ⟨{ put with phase := .publishing }, rfl, ⟨rfl, rfl⟩, rfl, .inl ⟨rfl, rfl⟩, fun i hi => ?_, .inl rfl,
        .inr ⟨rfl, rfl⟩, hchecked, k, htemp, (Function.update_of_ne hkj _ _).trans hbody⟩
      have hij : i ≠ j := fun heq => hi (heq ▸ mem_typeTemp j hj)
      exact Function.update_of_ne hij _ _
  | typeDropping =>
    simp only [Fits, hphase] at hf
    cases outcome with
    | ok => exact Moved.leftFail mem_typeTemp _
    | fails left => exact Moved.fails _
  | publishing =>
    simp only [Fits, hphase] at hf
    obtain ⟨hchecked, hholds⟩ := hf
    cases outcome with
    | fails left => exact ⟨_, .goTo rfl rfl hchecked⟩
    | ok =>
      obtain ⟨k, htemp, _⟩ := id hholds
      simp only [FileStore.operate, held_of_holds hholds]
      simp only [FileStore.leave, htemp]
      refine ⟨{ put with phase := .syncingShard }, rfl, ⟨rfl, rfl⟩, rfl, .inl ⟨rfl, rfl⟩, fun i hi => ?_,
        .inr ⟨hchecked, rfl, rfl, rfl⟩, .inl rfl, hchecked⟩
      have hik : i ≠ k := fun heq => hi (heq ▸ mem_temp k htemp)
      exact Function.update_of_ne hik _ _
  | dropping =>
    simp only [Fits, hphase] at hf
    cases outcome with
    | ok =>
      simp only [FileStore.operate]
      exact Moved.leftGo mem_temp hf
    | fails left => exact ⟨_, .goTo rfl rfl hf⟩
  | lookingAgain =>
    simp only [Fits, hphase] at hf
    cases outcome with
    | fails left => exact Moved.fails _
    | ok =>
      simp only [FileStore.operate]
      split
      · exact ⟨_, .goTo rfl rfl hf⟩
      · exact Moved.fails _
  | syncingShard =>
    simp only [Fits, hphase] at hf
    cases outcome with
    | fails left => exact Moved.fails _
    | ok =>
      simp only [FileStore.operate]
      split
      · exact ⟨_, .goTo rfl rfl hf⟩
      · exact ⟨_, .goTo rfl rfl hf⟩
  | syncingObjects =>
    simp only [Fits, hphase] at hf
    cases outcome with
    | ok => exact ⟨_, .goTo rfl rfl hf⟩
    | fails left => exact Moved.fails _
  | failing error =>
    cases outcome with
    | ok =>
      simp only [FileStore.operate]
      exact Moved.leftGo mem_temp trivial
    | fails left => exact ⟨_, .goTo rfl rfl trivial⟩
  | answered answer => exact ⟨put, .stay hget hf⟩

/-! ### What every state of a store keeps -/

/-- Objects hold the bytes of their names, and every put works in temp files of its own. -/
structure Sound (sha256 : ByteArray → ByteArray) (s : FileStore) : Prop where
  addressed : ∀ hash bytes, s.objects hash = some bytes → hex (sha256 bytes) = hash.text
  fits : ∀ (p : ℕ) put, s.puts[p]? = some put → Fits sha256 s.incoming put
  nodup : ∀ (p : ℕ) put, s.puts[p]? = some put → put.temps.Nodup
  below : ∀ (p : ℕ) put, s.puts[p]? = some put → ∀ k ∈ put.temps, k < s.nextTemp
  apart : ∀ (p q : ℕ) put put', s.puts[p]? = some put → s.puts[q]? = some put' → ∀ k ∈ put.temps, k ∈ put'.temps → p = q
  fresh : ∀ k, s.nextTemp ≤ k → s.incoming k = none

theorem Sound.open (root : Root sha256) : Sound sha256 (.open root) where
  addressed := root.addressed
  fits _ _ h := by cases h
  nodup _ _ h := by cases h
  below _ _ h := by cases h
  apart _ _ _ _ h := by cases h
  fresh _ _ := rfl

/-- The puts after a step of one of them. -/
theorem getElem?_moved (hm : Moved sha256 s p put put' s') (hget : s.puts[p]? = some put) {q : ℕ} {other : Put}
    (h : s'.puts[q]? = some other) : q = p ∧ other = put' ∨ q ≠ p ∧ s.puts[q]? = some other := by
  rw [hm.puts] at h
  by_cases hqp : q = p
  · subst hqp
    rw [List.getElem?_set_self (List.getElem?_eq_some_iff.mp hget).1] at h
    exact .inl ⟨rfl, (Option.some.inj h).symm⟩
  · rw [List.getElem?_set_ne (Ne.symm hqp)] at h
    exact .inr ⟨hqp, h⟩

/-- The temp files of a put after its step are its own, or the next one. -/
theorem Moved.mem_temps (hm : Moved sha256 s p put put' s') {k : ℕ} (hk : k ∈ put'.temps) :
    k ∈ put.temps ∨ k = s.nextTemp ∧ s'.nextTemp = s.nextTemp + 1 := by
  rcases hm.temps with ⟨htemps, _⟩ | ⟨htemps, hnext⟩
  · exact .inl (htemps ▸ hk)
  · rw [htemps, List.mem_append, List.mem_singleton] at hk
    exact hk.imp_right fun heq => ⟨heq, hnext⟩

theorem Moved.nextTemp_le (hm : Moved sha256 s p put put' s') : s.nextTemp ≤ s'.nextTemp := by
  rcases hm.temps with ⟨_, hnext⟩ | ⟨_, hnext⟩ <;> omega

theorem Sound.moved (h : Sound sha256 s) (hget : s.puts[p]? = some put) (hm : Moved sha256 s p put put' s') :
    Sound sha256 s' := by
  have hbelow : ∀ k ∈ put'.temps, k < s'.nextTemp := by
    intro k hk
    rcases hm.mem_temps hk with hold | ⟨rfl, hnext⟩
    · exact (h.below p put hget k hold).trans_le hm.nextTemp_le
    · omega
  -- the other puts' files are left alone
  have hother : ∀ {q other}, q ≠ p → s.puts[q]? = some other → ∀ k ∈ other.temps, k ∉ put'.temps := by
    intro q other hne hq k hk hk'
    rcases hm.mem_temps hk' with hold | ⟨rfl, _⟩
    · exact hne (h.apart q p other put hq hget k hk hold)
    · exact Nat.lt_irrefl _ (h.below q other hq _ hk)
  refine ⟨fun hash bytes hobject => ?_, fun q other hq => ?_, fun q other hq => ?_, fun q other hq k hk => ?_,
    fun q q' other other' hq hq' k hk hk' => ?_, fun k hk => ?_⟩
  · rcases hm.objects with hsame | ⟨hchecked, _, _, hobjects⟩
    · exact h.addressed hash bytes (hsame ▸ hobject)
    · rw [hobjects, Function.update_apply] at hobject
      split at hobject
      case isTrue heq =>
        cases hobject
        exact heq ▸ hchecked
      case isFalse => exact h.addressed hash bytes hobject
  · rcases getElem?_moved hm hget hq with ⟨_, rfl⟩ | ⟨hne, hold⟩
    · exact hm.fits
    · exact (h.fits q other hold).congr fun k hk => hm.incoming k (hother hne hold k hk)
  · rcases getElem?_moved hm hget hq with ⟨_, rfl⟩ | ⟨_, hold⟩
    · rcases hm.temps with ⟨htemps, _⟩ | ⟨htemps, _⟩
      · exact htemps ▸ h.nodup p put hget
      · rw [htemps, List.nodup_append]
        refine ⟨h.nodup p put hget, List.nodup_singleton _, fun k hk k' hk' => ?_⟩
        rw [List.mem_singleton.mp hk']
        exact Nat.ne_of_lt (h.below p put hget k hk)
    · exact h.nodup q other hold
  · rcases getElem?_moved hm hget hq with ⟨_, rfl⟩ | ⟨_, hold⟩
    · exact hbelow k hk
    · exact (h.below q other hold k hk).trans_le hm.nextTemp_le
  · rcases getElem?_moved hm hget hq with ⟨rfl, rfl⟩ | ⟨hne, hold⟩
    · rcases getElem?_moved hm hget hq' with ⟨rfl, rfl⟩ | ⟨hne', hold'⟩
      · rfl
      · exact absurd hk (hother hne' hold' k hk')
    · rcases getElem?_moved hm hget hq' with ⟨rfl, rfl⟩ | ⟨_, hold'⟩
      · exact absurd hk' (hother hne hold k hk)
      · exact h.apart q q' other other' hold hold' k hk hk'
  · have hnot : k ∉ put'.temps := fun hmem => Nat.not_le_of_lt (hbelow k hmem) hk
    rw [hm.incoming k hnot]
    exact h.fresh k (hm.nextTemp_le.trans hk)

/-- A step that leaves the puts and `incoming/` alone, and publishes nothing. -/
theorem Sound.quiet (h : Sound sha256 s) (hputs : s'.puts = s.puts) (hincoming : s'.incoming = s.incoming)
    (hnext : s'.nextTemp = s.nextTemp) (hobjects : ∀ hash bytes, s'.objects hash = some bytes → s.objects hash = some bytes) :
    Sound sha256 s' where
  addressed hash bytes hb := h.addressed hash bytes (hobjects hash bytes hb)
  fits p put hp := by
    rw [hincoming]
    exact h.fits p put (hputs ▸ hp)
  nodup p put hp := h.nodup p put (hputs ▸ hp)
  below p put hp := by
    rw [hnext]
    exact h.below p put (hputs ▸ hp)
  apart p q put put' hp hq := h.apart p q put put' (hputs ▸ hp) (hputs ▸ hq)
  fresh k hk := by
    rw [hincoming]
    exact h.fresh k (hnext ▸ hk)

/-- A put that has done nothing yet. -/
def Put.fresh (request : PutRequest) : Put := ⟨request, none, none, .empty, false, .looking⟩

theorem getElem?_added {request : PutRequest} {q : ℕ} {other : Put} (h : (s.puts ++ [Put.fresh request])[q]? = some other) :
    s.puts[q]? = some other ∨ q = s.puts.length ∧ other = .fresh request := by
  rcases lt_or_ge q s.puts.length with hlt | hge
  · exact .inl (by rwa [List.getElem?_append_left hlt] at h)
  · rw [List.getElem?_append_right hge, List.getElem?_singleton] at h
    simp only [Option.ite_none_right_eq_some, Option.some.injEq] at h
    exact .inr ⟨by omega, h.2.symm⟩

theorem Sound.added (h : Sound sha256 s) (request : PutRequest) :
    Sound sha256 { s with puts := s.puts ++ [Put.fresh request] } where
  addressed := h.addressed
  fits q other hq := by
    rcases getElem?_added hq with hold | ⟨_, rfl⟩
    · exact h.fits q other hold
    · exact ⟨rfl, rfl, rfl⟩
  nodup q other hq := by
    rcases getElem?_added hq with hold | ⟨_, rfl⟩
    · exact h.nodup q other hold
    · exact List.nodup_nil
  below q other hq := by
    rcases getElem?_added hq with hold | ⟨_, rfl⟩
    · exact h.below q other hold
    · exact fun k hk => absurd hk List.not_mem_nil
  apart q q' other other' hq hq' k hk hk' := by
    rcases getElem?_added hq with hold | ⟨_, rfl⟩
    · rcases getElem?_added hq' with hold' | ⟨_, rfl⟩
      · exact h.apart q q' other other' hold hold' k hk hk'
      · exact absurd hk' List.not_mem_nil
    · exact absurd hk List.not_mem_nil
  fresh := h.fresh

/-- The temp file a step writes, and the upload it writes it for. -/
def FileStore.writes (s : FileStore) : Step → Option (ℕ × ℕ)
  | .putOp p _ =>
    match s.puts[p]? with
    | some put =>
      match put.phase with
      | .creating | .writing _ | .syncing => put.temp.map (p, ·)
      | .typeCreating | .typeWriting | .typeSyncing => put.typeTemp.map (p, ·)
      | _ => none
    | none => none
  | _ => none

/-- What one step of the store does: a put arrives, one of them moves, or none of them is
touched and nothing is published. -/
inductive Does (sha256 : ByteArray → ByteArray) (s : FileStore) : Step → FileStore → Prop where
  | added {request} : Does sha256 s (.put request) { s with puts := s.puts ++ [Put.fresh request] }
  | read {p put put' next} : s.puts[p]? = some put → put.phase = .reading →
      Moved sha256 s p put put' (s.absorb sha256 p put next) →
      Does sha256 s (.body p next) (s.absorb sha256 p put next)
  | operated {p put put' outcome} : s.puts[p]? = some put →
      Moved sha256 s p put put' (s.operate sha256 p put put.phase outcome) →
      Does sha256 s (.putOp p outcome) (s.operate sha256 p put put.phase outcome)
  | quiet {e s'} : s'.puts = s.puts → s'.incoming = s.incoming → s'.nextTemp = s.nextTemp →
      (∀ hash bytes, s'.objects hash = some bytes → s.objects hash = some bytes) → s.writes e = none → Does sha256 s e s'

theorem Does.refl {e : Step} (hwrites : s.writes e = none) : Does sha256 s e s := .quiet rfl rfl rfl (fun _ _ h => h) hwrites

theorem deleteOp_does (d : ℕ) (outcome : Outcome) : Does sha256 s (.deleteOp d outcome) (s.deleteOp d outcome) := by
  unfold FileStore.deleteOp
  split
  case h_1 hash _ =>
    split
    case isTrue =>
      refine .quiet rfl rfl rfl (fun hash' bytes h => ?_) rfl
      change Function.update s.objects hash none hash' = some bytes at h
      rw [Function.update_apply] at h
      split at h
      · cases h
      · exact h
    case isFalse => exact .quiet rfl rfl rfl (fun _ _ h => h) rfl
  case h_2 => exact .quiet rfl rfl rfl (fun _ _ h => h) rfl
  case h_3 => exact .quiet rfl rfl rfl (fun _ _ h => h) rfl
  case h_4 => exact .quiet rfl rfl rfl (fun _ _ h => h) rfl
  case h_5 => exact .refl rfl

theorem Sound.does (h : Sound sha256 s) (e : Step) : Does sha256 s e (s.step sha256 e) := by
  cases e with
  | put request => exact .added
  | body p next =>
    change Does sha256 s _ (s.putBody sha256 p next)
    unfold FileStore.putBody
    split
    case h_1 put hget =>
      split
      case isTrue hphase =>
        obtain ⟨put', hm⟩ := absorb_moved next hphase (h.fits p put hget)
        exact .read hget hphase hm
      case isFalse => exact .refl rfl
    case h_2 => exact .refl rfl
  | putOp p outcome =>
    change Does sha256 s _ (s.putOp sha256 p outcome)
    unfold FileStore.putOp
    split
    case h_1 put hget =>
      obtain ⟨put', hm⟩ := operate_moved outcome hget (h.nodup p put hget) (h.fits p put hget)
      exact .operated hget hm
    case h_2 hnone => exact .refl (by simp [FileStore.writes, hnone])
  | read | readOp | delete => exact .quiet rfl rfl rfl (fun _ _ h => h) rfl
  | deleteOp d outcome => exact deleteOp_does d outcome

theorem Sound.step (h : Sound sha256 s) (e : Step) : Sound sha256 (s.step sha256 e) := by
  have hdoes := h.does e
  generalize s.step sha256 e = s' at hdoes
  cases hdoes with
  | added => exact h.added _
  | read hget _ hm => exact h.moved hget hm
  | operated hget hm => exact h.moved hget hm
  | quiet hputs hincoming hnext hobjects _ => exact h.quiet hputs hincoming hnext hobjects

theorem run_append (root : Root sha256) (es es' : List Step) :
    FileStore.run root (es ++ es') = exec (FileStore.step sha256) (.run root es) es' := exec_append _ _ _ _

end Objects
end Grove
