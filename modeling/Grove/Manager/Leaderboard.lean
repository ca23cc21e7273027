import Grove.Joins.Resp
import Mathlib.Data.Ordering.Lemmas
import Mathlib.Data.Prod.Lex

/-! # The pages of a leaderboard

`Memory.Leaderboard` of `apps/grove/game-manager/internal/store/memory.go`.  The values of a map come in any order, a
different one at each call, so a page is cut from a sorted copy; `walk` follows the cursors.  A string is its bytes. -/

namespace Grove
namespace Manager
namespace Leaderboard

open Joins.Resp (Bytes atoi inInt64 atoi_of_inInt64)
open Decimal (decimal)

structure LeaderboardEntry where
  playerId : Bytes
  displayName : Bytes
  score : ℚ
  rank : ℤ
deriving DecidableEq

structure LeaderboardQuery where
  board : Bytes
  limit : ℤ
  cursor : Bytes

structure LeaderboardPage where
  board : Bytes
  entries : List LeaderboardEntry
  nextCursor : Option Bytes
deriving DecidableEq

/-- The cursor is an offset into the sorted board; `none` is `ErrBadCursor`. -/
def decodeCursor (cursor : Bytes) : Option ℕ :=
  if cursor = [] then some 0
  else
    match atoi cursor with
    | none => none
    | some offset => if offset < 0 then none else some offset.toNat

/-- Strings compare byte by byte. -/
def bytewise (text : Bytes) : List ℕ := text.map UInt8.toNat

/-- Ties break on the player. -/
def standing (a b : LeaderboardEntry) : Ordering :=
  if a.score ≠ b.score then cmp b.score a.score else cmp (bytewise a.playerId) (bytewise b.playerId)

def sorted (values : List LeaderboardEntry) : List LeaderboardEntry := values.mergeSort fun a b => (standing a b).isLE

/-- The loop that fills a page, from row `i` of the board. -/
def fill (board : List LeaderboardEntry) (limit : ℤ) (i : ℕ) (entries : List LeaderboardEntry) : List LeaderboardEntry :=
  if h : i < board.length ∧ entries.length < limit then
    have := h.1
    fill board limit (i + 1) (entries ++ [{ board[i] with rank := i + 1 }])
  else entries
termination_by board.length - i

/-- `values` is the board in the order this call meets it. -/
def leaderboard (values : List LeaderboardEntry) (query : LeaderboardQuery) : Option LeaderboardPage :=
  match decodeCursor query.cursor with
  | none => none
  | some offset =>
    if 0 < offset ∧ values.length ≤ offset then none
    else
      let board := sorted values
      let entries := fill board query.limit offset []
      let next := offset + entries.length
      some ⟨query.board, entries, if next < board.length then some (decimal next) else none⟩

/-- A caller that asks for the next page until there is none; call `k` meets the board in the order `calls k`. -/
def walk (calls : ℕ → List LeaderboardEntry) (board : Bytes) (limit : ℤ) : ℕ → ℕ → Bytes → Option (List LeaderboardPage)
  | 0, _, _ => none
  | fuel + 1, k, cursor =>
    match leaderboard (calls k) ⟨board, limit, cursor⟩ with
    | none => none
    | some page =>
      match page.nextCursor with
      | none => some [page]
      | some next => (walk calls board limit fuel (k + 1) next).map (page :: ·)

def leaderboardLimitDefault : ℤ := 25

def leaderboardLimitMax : ℤ := 100

/-- The limit of `leaderboardQuery`; `none` is a refusal. -/
def leaderboardLimit (raw : Bytes) : Option ℤ :=
  if raw = [] then some leaderboardLimitDefault else (atoi raw).map fun parsed => min (max parsed 1) leaderboardLimitMax

/-- A board holds one entry a player, and no more than an `int` counts. -/
structure Board where
  entries : List LeaderboardEntry
  distinct : (entries.map LeaderboardEntry.playerId).Nodup
  length_lt : entries.length < 2 ^ 63

/-! ### A page -/

def ranked (board : List LeaderboardEntry) : List LeaderboardEntry :=
  board.mapIdx fun i entry => { entry with rank := i + 1 }

theorem length_ranked (board : List LeaderboardEntry) : (ranked board).length = board.length := List.length_mapIdx

/-- The rows from `i` on, as many as there is room for. -/
theorem fill_eq (board : List LeaderboardEntry) (limit : ℤ) (i : ℕ) (entries : List LeaderboardEntry) :
    fill board limit i entries = entries ++ ((ranked board).drop i).take (limit - entries.length).toNat := by
  fun_induction fill board limit i entries with
  | case1 i entries h hi ih =>
    have hroom : (limit - entries.length).toNat = (limit - (entries.length + 1 : ℕ)).toNat + 1 := by omega
    have hrow : i < (ranked board).length := by rw [length_ranked]; exact hi
    rw [ih, List.length_append, List.length_singleton, hroom, List.drop_eq_getElem_cons hrow, List.take_succ_cons,
      List.append_assoc, List.singleton_append]
    simp only [ranked, List.getElem_mapIdx]
  | case2 i entries h =>
    by_cases hi : i < board.length
    · have hfull : (limit - entries.length).toNat = 0 := by omega
      rw [hfull, List.take_zero, List.append_nil]
    · rw [List.drop_eq_nil_of_le (by rw [length_ranked]; omega), List.take_nil, List.append_nil]

/-! ### The order of a board -/

/-- Descending score, and ascending player between equal scores. -/
def Above (a b : LeaderboardEntry) : Prop :=
  b.score < a.score ∨ a.score = b.score ∧ bytewise a.playerId < bytewise b.playerId

theorem bytewise_injective : Function.Injective bytewise :=
  List.map_injective_iff.mpr fun _ _ h => UInt8.toNat_inj.mp h

/-- The board is in the order of these. -/
def place (entry : LeaderboardEntry) : Lex (ℚ × List ℕ) := toLex (-entry.score, bytewise entry.playerId)

theorem standing_isLE_iff (a b : LeaderboardEntry) : (standing a b).isLE ↔ place a ≤ place b := by
  unfold standing place
  rw [Prod.Lex.toLex_le_toLex, Ordering.isLE_iff_ne_gt]
  by_cases hscore : a.score ≠ b.score
  · have hne : b.score ≠ a.score := fun h => hscore h.symm
    rw [if_pos hscore, cmp_eq_gt_iff, not_lt, neg_lt_neg_iff, neg_inj, le_iff_lt_or_eq]
    simp [hscore, hne]
  · rw [if_neg hscore]
    rw [not_not] at hscore
    have hplayers : cmp (bytewise a.playerId) (bytewise b.playerId) = .gt ↔ bytewise b.playerId < bytewise a.playerId :=
      cmpUsing_eq_gt _ _
    rw [hplayers, not_lt]
    simp [hscore]

theorem place_lt_iff (a b : LeaderboardEntry) : place a < place b ↔ Above a b := by
  unfold place Above
  rw [Prod.Lex.toLex_lt_toLex, neg_lt_neg_iff, neg_inj]

theorem sorted_perm (values : List LeaderboardEntry) : (sorted values).Perm values := List.mergeSort_perm _ _

theorem pairwise_sorted (values : List LeaderboardEntry) : (sorted values).Pairwise fun a b => place a ≤ place b := by
  have hpairwise : (sorted values).Pairwise fun a b => (standing a b).isLE := by
    refine List.pairwise_mergeSort (fun a b c hab hbc => ?_) (fun a b => ?_) values
    · rw [standing_isLE_iff] at hab hbc ⊢
      exact hab.trans hbc
    · rw [Bool.or_eq_true, standing_isLE_iff, standing_isLE_iff]
      exact le_total _ _
  exact hpairwise.imp fun h => (standing_isLE_iff _ _).mp h

variable (board : Board) {values : List LeaderboardEntry}

/-- Two entries in one place are one. -/
theorem eq_of_place (hvalues : values.Perm board.entries) {a b : LeaderboardEntry} (ha : a ∈ values) (hb : b ∈ values)
    (h : place a = place b) : a = b := by
  refine List.inj_on_of_nodup_map board.distinct (hvalues.subset ha) (hvalues.subset hb) ?_
  exact bytewise_injective (congrArg (fun p => (ofLex p).2) h)

/-- In whatever order a call meets the board, it sorts it the same. -/
theorem sorted_eq (hvalues : values.Perm board.entries) : sorted values = sorted board.entries := by
  refine List.Perm.eq_of_pairwise (fun a b ha hb hab hba => ?_) (pairwise_sorted values) (pairwise_sorted board.entries)
    ((sorted_perm values).trans (hvalues.trans (sorted_perm board.entries).symm))
  have hb' : b ∈ values := hvalues.symm.subset ((sorted_perm board.entries).subset hb)
  exact eq_of_place board hvalues ((sorted_perm values).subset ha) hb' (le_antisymm hab hba)

/-- No two rows of a sorted board are in one place. -/
theorem pairwise_above : (sorted board.entries).Pairwise Above := by
  have hnodup : (sorted board.entries).Nodup :=
    (sorted_perm board.entries).nodup_iff.mpr (List.Nodup.of_map _ board.distinct)
  refine ((pairwise_sorted board.entries).and hnodup).imp_of_mem fun {a b} ha hb h => ?_
  have hne : place a ≠ place b := fun heq =>
    h.2 (eq_of_place board (sorted_perm board.entries) ha hb heq)
  exact (place_lt_iff a b).mp (lt_of_le_of_ne h.1 hne)

/-! ### The walk -/

/-- The rows of a board, ranked. -/
def Board.rows (board : Board) : List LeaderboardEntry := ranked (sorted board.entries)

theorem Board.length_rows : board.rows.length = board.entries.length := by
  rw [rows, length_ranked, (sorted_perm board.entries).length_eq]

/-- A page is the rows from its offset on, as many as its limit allows. -/
theorem leaderboard_of_offset (hvalues : values.Perm board.entries) {name cursor : Bytes} {limit : ℤ} {offset : ℕ}
    (hcursor : decodeCursor cursor = some offset) (hoffset : offset = 0 ∨ offset < board.entries.length) :
    leaderboard values ⟨name, limit, cursor⟩ = some
      ⟨name, (board.rows.drop offset).take limit.toNat,
        if offset + ((board.rows.drop offset).take limit.toNat).length < board.entries.length then
          some (decimal (offset + ((board.rows.drop offset).take limit.toNat).length : ℕ)) else none⟩ := by
  have hlength : (sorted board.entries).length = board.entries.length := (sorted_perm board.entries).length_eq
  unfold leaderboard
  rw [hcursor]
  dsimp only
  rw [if_neg (by rw [hvalues.length_eq]; omega), sorted_eq board hvalues, fill_eq, hlength]
  simp only [List.nil_append, List.length_nil, Nat.cast_zero, sub_zero, Board.rows, Nat.cast_add]

/-- A cursor is refused unless it names a row, or the first one. -/
theorem leaderboard_eq_none_iff (hvalues : values.Perm board.entries) (name cursor : Bytes) (limit : ℤ) :
    leaderboard values ⟨name, limit, cursor⟩ = none ↔
    ¬ (cursor = [] ∨ ∃ offset : ℤ, atoi cursor = some offset ∧
      (offset = 0 ∨ 0 < offset ∧ offset < board.entries.length)) := by
  unfold leaderboard decodeCursor
  dsimp only
  by_cases hempty : cursor = []
  · simp [hempty]
  · rw [if_neg hempty]
    cases hatoi : atoi cursor with
    | none => simp [hempty]
    | some offset =>
      have hlength := hvalues.length_eq
      dsimp only
      by_cases hneg : offset < 0
      · rw [if_pos hneg]
        simp only [hempty, false_or, Option.some.injEq, exists_eq_left', true_iff]
        omega
      · rw [if_neg hneg]
        simp only [hempty, false_or, Option.some.injEq, exists_eq_left']
        split_ifs with hrefused
        · simp only [true_iff]
          omega
        · simp only [false_iff, not_not]
          omega

/-- A cursor this board hands out names the row it stands for. -/
theorem decodeCursor_decimal {n : ℕ} (hn : n < 2 ^ 63) : decodeCursor (decimal n) = some n := by
  have hatoi : atoi (decimal n) = some (n : ℤ) := by
    apply atoi_of_inInt64
    rw [inInt64, Bool.and_eq_true, decide_eq_true_eq, decide_eq_true_eq]
    omega
  have hne : decimal n ≠ [] := by
    intro hempty
    rw [hempty] at hatoi
    cases hatoi
  unfold decodeCursor
  rw [if_neg hne, hatoi]
  simp

/-- What a walk brings back. -/
structure Tiles (limit : ℤ) (pages : List LeaderboardPage) : Prop where
  once : ((pages.flatMap LeaderboardPage.entries).map fun entry => { entry with rank := 0 }).Perm
    (board.entries.map fun entry => { entry with rank := 0 })
  ordered : (pages.flatMap LeaderboardPage.entries).Pairwise Above
  ranks : (pages.flatMap LeaderboardPage.entries).map LeaderboardEntry.rank =
    (List.range board.entries.length).map fun i : ℕ => (i : ℤ) + 1
  full : ∀ page ∈ pages.dropLast, (page.entries.length : ℤ) = limit

/-- From a row on, the walk brings back the rest of the board. -/
theorem walk_rows {calls : ℕ → List LeaderboardEntry} (hcalls : ∀ k, (calls k).Perm board.entries) (name : Bytes)
    {limit : ℤ} (hlimit : 1 ≤ limit) (fuel k offset : ℕ) (cursor : Bytes) (hcursor : decodeCursor cursor = some offset)
    (hoffset : offset = 0 ∨ offset < board.entries.length) (hfuel : board.entries.length < fuel + offset) :
    ∃ page pages, walk calls name limit fuel k cursor = some (page :: pages) ∧
      (page :: pages).flatMap LeaderboardPage.entries = board.rows.drop offset ∧
      ∀ page' ∈ (page :: pages).dropLast, (page'.entries.length : ℤ) = limit := by
  induction fuel generalizing k offset cursor with
  | zero => omega
  | succ fuel ih =>
    have hlength : ((board.rows.drop offset).take limit.toNat).length = min limit.toNat (board.entries.length - offset) := by
      rw [List.length_take, List.length_drop, board.length_rows]
    rw [walk, leaderboard_of_offset board (hcalls k) hcursor hoffset]
    dsimp only
    split_ifs with hnext
    · -- The page is full, and there is a row after it.
      have hfull : ((board.rows.drop offset).take limit.toNat).length = limit.toNat := by omega
      rw [hfull] at hnext ⊢
      obtain ⟨page, pages, hwalk, hrows, hpages⟩ := ih (k + 1) (offset + limit.toNat) _
        (decodeCursor_decimal (hnext.trans board.length_lt)) (.inr hnext) (by omega)
      refine ⟨_, page :: pages, congrArg (Option.map (_ :: ·)) hwalk, ?_, ?_⟩
      · rw [List.flatMap_cons, hrows, ← List.drop_drop, List.take_append_drop]
      · rw [List.dropLast_cons_of_ne_nil (List.cons_ne_nil _ _), List.forall_mem_cons]
        refine ⟨?_, hpages⟩
        rw [hfull]
        omega
    · refine ⟨_, [], rfl, ?_, by simp⟩
      rw [List.flatMap_singleton, List.take_of_length_le]
      rw [List.length_drop, board.length_rows]
      omega

theorem tiles_of_rows {limit : ℤ} {pages : List LeaderboardPage}
    (hrows : pages.flatMap LeaderboardPage.entries = board.rows) (hfull : ∀ page ∈ pages.dropLast, (page.entries.length : ℤ) = limit) : Tiles board limit pages := by
  refine ⟨?_, ?_, ?_, hfull⟩
  · have hunranked : board.rows.map (fun entry => { entry with rank := 0 }) =
        (sorted board.entries).map fun entry => { entry with rank := 0 } := by
      refine List.ext_getElem (by simp [Board.rows, ranked]) fun i _ _ => ?_
      simp [Board.rows, ranked]
    rw [hrows, hunranked]
    exact (sorted_perm board.entries).map _
  · rw [hrows, Board.rows, ranked, List.pairwise_iff_getElem]
    intro i j hi hj hij
    rw [List.length_mapIdx] at hi hj
    rw [List.getElem_mapIdx, List.getElem_mapIdx]
    exact List.pairwise_iff_getElem.mp (pairwise_above board) i j hi hj hij
  · rw [hrows]
    refine List.ext_getElem (by simp [board.length_rows]) fun i _ _ => ?_
    simp [Board.rows, ranked]

/-- What the handler asks for is a limit of at least one. -/
theorem one_le_leaderboardLimit {raw : Bytes} {limit : ℤ} (h : leaderboardLimit raw = some limit) : 1 ≤ limit := by
  unfold leaderboardLimit at h
  split_ifs at h
  · cases h
    decide
  · obtain ⟨parsed, -, rfl⟩ := Option.map_eq_some_iff.mp h
    exact le_min (le_max_right _ _) (by decide)

/-- Following the cursors from the empty one ends, and the pages tile the board; a cursor is refused unless it is empty,
zero or the offset of a row. -/
theorem pages_tile (name : Bytes) {limit : ℤ} (hlimit : 1 ≤ limit) {calls : ℕ → List LeaderboardEntry}
    (hcalls : ∀ k, (calls k).Perm board.entries) :
    (∃ pages, walk calls name limit (board.entries.length + 1) 0 [] = some pages ∧ Tiles board limit pages) ∧
      ∀ k cursor, leaderboard (calls k) ⟨name, limit, cursor⟩ = none ↔
        ¬ (cursor = [] ∨ ∃ offset : ℤ, atoi cursor = some offset ∧
          (offset = 0 ∨ 0 < offset ∧ offset < board.entries.length)) := by
  constructor
  · obtain ⟨page, pages, hwalk, hrows, hfull⟩ :=
      walk_rows board hcalls name hlimit (board.entries.length + 1) 0 0 [] rfl (.inl rfl) (by omega)
    exact ⟨_, hwalk, tiles_of_rows board hrows hfull⟩
  · exact fun k cursor => leaderboard_eq_none_iff board (hcalls k) name cursor limit

/-- Two players on one score, and one above them. -/
def podium : Board where
  entries := [⟨[0x62], [], 3, 0⟩, ⟨[0x61], [], 3, 0⟩, ⟨[0x63], [], 5, 0⟩]
  distinct := by decide
  length_lt := by decide

theorem podium_pages : ∃ pages, walk (fun _ => podium.entries) [] 2 4 0 [] = some pages ∧ Tiles podium 2 pages :=
  (pages_tile podium [] (show (1 : ℤ) ≤ 2 by decide) fun _ => List.Perm.refl _).1

end Leaderboard
end Manager
end Grove
