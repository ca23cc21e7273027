import Grove.Protocol.Envelopes
import Mathlib.Data.List.Sort

/-! # A snapshot in pieces

`SnapshotChunks` of `packages/client/src/handshake.ts`: the chunks a join is answered with, held
until the `Welcome` names how many there were. -/

namespace Grove

/-- Cap on the chunks one join may span. -/
def maxSnapshotChunks : ℕ := 256

/-- Bytes of held chunks. -/
def maxSnapshotBytes : ℕ := 16777216

structure SnapshotChunks where
  held : List SnapshotChunk
  bytes : ℕ
  /-- Over either cap, or arriving for a join already answered. -/
  dropped : ℕ

/-- What the chunks of one join take of the two caps. -/
def withinSnapshotCaps (size : SnapshotChunk → ℕ) (chunks : List SnapshotChunk) : Prop :=
  chunks.length ≤ maxSnapshotChunks ∧ (chunks.map size).sum ≤ maxSnapshotBytes

namespace SnapshotChunks

def new : SnapshotChunks := ⟨[], 0, 0⟩

variable (s : SnapshotChunks)

/-- Buffers one chunk of `size` encoded bytes, or counts it refused. -/
def offer (size : SnapshotChunk → ℕ) (chunk : SnapshotChunk) (answered : Bool) : SnapshotChunks :=
  if answered ∨ maxSnapshotChunks ≤ s.held.length then { s with dropped := s.dropped + 1 }
  else if maxSnapshotBytes < s.bytes + size chunk then { s with dropped := s.dropped + 1 }
  else { s with bytes := s.bytes + size chunk, held := s.held ++ [chunk] }

/-- The next join answers with its own set. -/
def clear : SnapshotChunks := { s with held := [], bytes := 0 }

/-- In index order; chunks of one index stay in the order they arrived. -/
def sorted : List SnapshotChunk := s.held.mergeSort (fun a b => a.index ≤ b.index)

/-- Prepends the held chunks to the welcome's snapshot; `false` if the set is short. -/
def foldInto (welcome : Welcome) : Bool × Welcome × SnapshotChunks :=
  let expected := welcome.snapshotChunks.getD 0
  if s.held.length ≠ expected then (false, welcome, s)
  else if expected = 0 then (true, welcome, s.clear)
  else if s.sorted.zipIdx.any (fun (chunk, at') => chunk.index ≠ at') then (false, welcome, s.clear)
  else
    let snapshot := { welcome.snapshot with
      entities := s.sorted.flatMap SnapshotChunk.entities ++ welcome.snapshot.entities
      state := s.sorted.flatMap SnapshotChunk.state ++ welcome.snapshot.state }
    (true, { welcome with snapshot := snapshot }, s.clear)

/-- Chunks that arrive before the `Welcome`, in the order they arrive. -/
def offerAll (size : SnapshotChunk → ℕ) (chunks : List SnapshotChunk) : SnapshotChunks :=
  chunks.foldl (fun s chunk => s.offer size chunk false) s

variable {s} {size : SnapshotChunk → ℕ}

theorem offer_within {chunk : SnapshotChunk} (hlen : s.held.length < maxSnapshotChunks)
    (hbytes : s.bytes + size chunk ≤ maxSnapshotBytes) :
    s.offer size chunk false = { s with bytes := s.bytes + size chunk, held := s.held ++ [chunk] } := by
  unfold offer
  rw [if_neg (by simpa using hlen), if_neg (not_lt.mpr hbytes)]

/-- Under the caps nothing is refused. -/
theorem offerAll_within : ∀ (chunks : List SnapshotChunk) {s : SnapshotChunks},
    s.held.length + chunks.length ≤ maxSnapshotChunks → s.bytes + (chunks.map size).sum ≤ maxSnapshotBytes →
      (s.offerAll size chunks).held = s.held ++ chunks ∧ (s.offerAll size chunks).dropped = s.dropped
  | [], s, _, _ => ⟨(List.append_nil s.held).symm, rfl⟩
  | chunk :: chunks, s, hlen, hbytes => by
    rw [List.length_cons] at hlen
    rw [List.map_cons, List.sum_cons] at hbytes
    have hoffer : s.offer size chunk false = { s with bytes := s.bytes + size chunk, held := s.held ++ [chunk] } :=
      offer_within (by omega) (by omega)
    have ih := offerAll_within chunks (s := s.offer size chunk false)
      (by rw [hoffer, List.length_append, List.length_singleton]; omega)
      (by rw [hoffer]; show s.bytes + size chunk + _ ≤ _; omega)
    have hunfold : s.offerAll size (chunk :: chunks) = (s.offer size chunk false).offerAll size chunks := rfl
    rw [hunfold, ih.1, ih.2, hoffer, List.append_assoc]
    exact ⟨rfl, rfl⟩

theorem held_offerAll_new {chunks : List SnapshotChunk} (h : withinSnapshotCaps size chunks) :
    (new.offerAll size chunks).held = chunks := by
  have h' : (new.offerAll size chunks).held = _ ∧ _ := offerAll_within chunks (by simpa [new] using h.1) (by simpa [new] using h.2)
  simpa [new] using h'.1

/-! ### What the fold accepts -/

theorem sorted_perm : s.sorted.Perm s.held := List.mergeSort_perm _ _

theorem sorted_pairwise : s.sorted.Pairwise (fun a b => a.index ≤ b.index) := by
  have h := @List.pairwise_mergeSort _ (fun a b : SnapshotChunk => decide (a.index ≤ b.index))
    (by intro a b c hab hbc; simp only [decide_eq_true_eq] at *; exact hab.trans hbc)
    (by intro a b; simp only [Bool.or_eq_true, decide_eq_true_eq]; exact le_total _ _) s.held
  exact h.imp (fun h => by simpa using h)

/-- The indices `0..n-1`. -/
def indices (n : ℕ) : List ℚ := (List.range n).map (fun i : ℕ => (i : ℚ))

theorem indices_pairwise (n : ℕ) : (indices n).Pairwise (· ≤ ·) := by
  unfold indices
  rw [List.pairwise_map]
  exact List.pairwise_lt_range.imp (fun h => by exact_mod_cast h.le)

/-- The held indices are `0..n-1` exactly when the sorted ones are, in that order. -/
theorem sorted_index_iff (n : ℕ) :
    s.sorted.map SnapshotChunk.index = indices n ↔ (s.held.map SnapshotChunk.index).Perm (indices n) := by
  have hperm : (s.sorted.map SnapshotChunk.index).Perm (s.held.map SnapshotChunk.index) := sorted_perm.map _
  constructor
  · intro h
    rw [← h]
    exact hperm.symm
  · intro h
    have hle : (s.sorted.map SnapshotChunk.index).Pairwise (· ≤ ·) := List.pairwise_map.mpr sorted_pairwise
    exact (hperm.trans h).eq_of_pairwise' hle (indices_pairwise n)

theorem zipIdx_any_eq_false (chunks : List SnapshotChunk) :
    (chunks.zipIdx.any (fun (chunk, at') => decide (chunk.index ≠ (at' : ℚ)))) = false ↔
      chunks.map SnapshotChunk.index = indices chunks.length := by
  rw [List.any_eq_false]
  constructor
  · intro h
    apply List.ext_getElem?
    intro i
    unfold indices
    rw [List.getElem?_map, List.getElem?_map]
    rcases hc : chunks[i]? with _ | c
    · rw [List.getElem?_eq_none (by simpa using List.getElem?_eq_none_iff.mp hc)]
      rfl
    · have hmem : (c, i) ∈ chunks.zipIdx := List.mem_zipIdx_iff_getElem?.mpr hc
      have hlt : i < chunks.length := (List.getElem?_eq_some_iff.mp hc).1
      have hindex : c.index = i := by simpa using h _ hmem
      rw [List.getElem?_range hlt, Option.map_some, Option.map_some, hindex]
  · rintro h ⟨c, i⟩ hmem
    have hc : chunks[i]? = some c := List.mem_zipIdx_iff_getElem?.mp hmem
    have hlt : i < chunks.length := (List.getElem?_eq_some_iff.mp hc).1
    have hi : (chunks.map SnapshotChunk.index)[i]? = (indices chunks.length)[i]? := by rw [h]
    unfold indices at hi
    rw [List.getElem?_map, List.getElem?_map, hc, List.getElem?_range hlt] at hi
    simpa using hi

/-- Neither short, nor over, nor doubled. -/
theorem foldInto_iff (s : SnapshotChunks) (welcome : Welcome) :
    (s.foldInto welcome).1 = true ↔
      (s.held.map SnapshotChunk.index).Perm (indices (welcome.snapshotChunks.getD 0)) := by
  rw [← sorted_index_iff]
  have hlen : s.sorted.length = s.held.length := sorted_perm.length_eq
  unfold foldInto
  simp only
  split_ifs with h h' h''
  · refine ⟨False.elim, fun he => absurd ?_ h⟩
    have hlength := congrArg List.length he
    simpa [indices, hlen] using hlength
  · refine ⟨fun _ => ?_, fun _ => rfl⟩
    have hnil : s.sorted = [] := List.eq_nil_of_length_eq_zero (by rw [hlen, not_not.mp h, h'])
    rw [hnil, h']
    rfl
  · refine ⟨False.elim, fun he => ?_⟩
    rw [← not_not.mp h, ← hlen] at he
    rw [(zipIdx_any_eq_false _).mpr he] at h''
    cases h''
  · refine ⟨fun _ => ?_, fun _ => rfl⟩
    rw [← not_not.mp h, ← hlen]
    exact (zipIdx_any_eq_false _).mp (Bool.eq_false_iff.mpr h'')

/-- A set that is refused leaves the welcome as it is. -/
theorem foldInto_refused {welcome : Welcome} (h : (s.foldInto welcome).1 = false) :
    (s.foldInto welcome).2.1 = welcome := by
  unfold foldInto at h ⊢
  simp only at h ⊢
  split_ifs at h ⊢ <;> rfl

/-- A set that is taken stands in front of what the welcome has, in index order. -/
theorem foldInto_accepted {welcome : Welcome} (h : (s.foldInto welcome).1 = true) :
    (s.foldInto welcome).2.1 = { welcome with
      snapshot := { welcome.snapshot with
        entities := s.sorted.flatMap SnapshotChunk.entities ++ welcome.snapshot.entities
        state := s.sorted.flatMap SnapshotChunk.state ++ welcome.snapshot.state } } := by
  have hlen : s.sorted.length = s.held.length := sorted_perm.length_eq
  unfold foldInto at h ⊢
  simp only at h ⊢
  split_ifs at h ⊢ with hne hzero hany
  · have hnil : s.sorted = [] := List.eq_nil_of_length_eq_zero (by rw [hlen, not_not.mp hne, hzero])
    rw [hnil]
    rfl
  · rfl

end SnapshotChunks

end Grove
