import Grove.Objects.Addressed

/-! # What the answers of a put are worth

Over the runs of a store: an answer that says an object is stored stands on a moment of the put
when it was, and a put whose removals succeed leaves nothing in `incoming/`.  The store's
promises are gathered in `content_addressed`. -/

namespace Grove
namespace Objects

variable {sha256 : ByteArray → ByteArray} {s s' : FileStore} {p : ℕ} {put put' : Put} {root : Root sha256}

/-- The put has seen or published its object. -/
def Landed : PutPhase → Prop
  | .syncingShard | .syncingObjects | .answered (.ok _) => True
  | _ => False

theorem getElem?_goTo {q : Put} {phase : PutPhase} (h : (s.goTo p q phase).puts[p]? = some put') :
    put' = { q with phase } := by
  have hlt : p < s.puts.length := by
    have := (List.getElem?_eq_some_iff.mp h).1
    simpa [FileStore.goTo, FileStore.setPut] using this
  simp only [FileStore.goTo, FileStore.setPut, List.getElem?_set_self hlt, Option.some.injEq] at h
  exact h.symm

theorem getElem?_fail {q : Put} {error : PutError} (h : (s.fail p q error).puts[p]? = some put') :
    put' = { q with phase := .failing error } ∧ q.temp ≠ none ∨ put' = { q with phase := .answered (.error error) } ∧ q.temp = none := by
  unfold FileStore.fail at h
  split at h
  case h_1 k htemp => exact .inl ⟨getElem?_goTo h, by simp [htemp]⟩
  case h_2 htemp => exact .inr ⟨getElem?_goTo h, htemp⟩

theorem fail_not_landed {q : Put} {error : PutError} (h : (s.fail p q error).puts[p]? = some put') : ¬ Landed put'.phase := by
  rcases getElem?_fail h with ⟨rfl, _⟩ | ⟨rfl, _⟩ <;> exact id

theorem check_not_landed {q : Put} {phase : PutPhase} (hphase : ¬ Landed phase)
    (h : (s.check sha256 p q phase).puts[p]? = some put') : ¬ Landed put'.phase := by
  unfold FileStore.check at h
  split at h
  · obtain rfl := getElem?_goTo h
    exact hphase
  · exact fail_not_landed h

theorem absorb_not_landed {next : Option (Except Unit ByteArray)} (h : (s.absorb sha256 p put next).puts[p]? = some put') :
    ¬ Landed put'.phase := by
  match next with
  | some (.error _) => exact fail_not_landed h
  | some (.ok chunk) =>
    simp only [FileStore.absorb] at h
    split at h
    · exact fail_not_landed h
    · split at h <;> (obtain rfl := getElem?_goTo h; exact id)
  | none =>
    simp only [FileStore.absorb] at h
    split at h
    · obtain rfl := getElem?_goTo h
      exact id
    · exact check_not_landed id h

/-- The object of a put stood, whole, at a moment between its start and its answer, and one it
published itself was its own bytes. -/
def PresentDuring (root : Root sha256) (es : List Step) (p : ℕ) (put : Put) : Prop :=
  ∃ pre post put₀ bytes, es = pre ++ post ∧ (FileStore.run root pre).puts[p]? = some put₀ ∧
    (∀ answer, put₀.phase ≠ .answered answer) ∧ (FileStore.run root pre).objects put.request.hash = some bytes ∧
    hex (sha256 bytes) = put.request.hash.text ∧ (put.phase = .answered (.ok .AlreadyPresent) ∨ bytes = put.body)

theorem PresentDuring.later {es : List Step} (h : PresentDuring root es p put) (hrequest : put'.request = put.request)
    (hbody : put'.body = put.body) (hphase : put.phase = .answered (.ok .AlreadyPresent) →
      put'.phase = .answered (.ok .AlreadyPresent)) (e : Step) : PresentDuring root (es ++ [e]) p put' := by
  obtain ⟨pre, post, put₀, bytes, rfl, hput, hgoing, hobject, hnamed, hbytes⟩ := h
  refine ⟨pre, post ++ [e], put₀, bytes, List.append_assoc .., hput, hgoing, by rw [hrequest, hobject],
    by rw [hrequest, hnamed], ?_⟩
  exact hbytes.imp hphase fun heq => by rw [hbody, heq]

/-- A temp file the put was given, if it was, is gone. -/
def Gone (incoming : ℕ → Option ByteArray) (temp : Option ℕ) : Prop := ∀ k, temp = some k → incoming k = none

/-- What is left of a put whose removals succeed. -/
def Swept (incoming : ℕ → Option ByteArray) (put : Put) : Prop :=
  match put.phase with
  | .typeWriting | .typeSyncing | .typePublishing | .typeDropping => True
  | .lookingAgain | .syncingShard | .syncingObjects | .answered _ => Gone incoming put.temp ∧ Gone incoming put.typeTemp
  | _ => Gone incoming put.typeTemp

theorem Gone.kept {temp temp' : Option ℕ} {file : Option ByteArray} (h : Gone s.incoming temp)
    (hne : ∀ k, temp = some k → temp' ≠ some k) : Gone (s.leave temp' file).incoming temp := by
  intro k hk
  cases temp' with
  | none => exact h k hk
  | some k' =>
    have hne' : k ≠ k' := fun heq => hne k hk (heq ▸ rfl)
    rw [leave_incoming rfl, Function.update_of_ne hne', h k hk]

/-- Files a put does not own do not matter to it. -/
theorem Swept.congr {incoming incoming' : ℕ → Option ByteArray} (h : ∀ k ∈ put.temps, incoming' k = incoming k)
    (hsw : Swept incoming put) : Swept incoming' put := by
  have hgone : ∀ {temp : Option ℕ}, (∀ k, temp = some k → k ∈ put.temps) → Gone incoming temp → Gone incoming' temp :=
    fun hmem hg k hk => (h k (hmem k hk)).trans (hg k hk)
  have htemp : Gone incoming put.temp → Gone incoming' put.temp := hgone mem_temp
  have htype : Gone incoming put.typeTemp → Gone incoming' put.typeTemp := hgone mem_typeTemp
  cases hphase : put.phase <;> simp only [Swept, hphase] at hsw ⊢ <;>
    first
    | exact ⟨htemp hsw.1, htype hsw.2⟩
    | exact htype hsw

end Objects
end Grove
