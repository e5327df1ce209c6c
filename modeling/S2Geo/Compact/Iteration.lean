import S2Geo.Compact.Ranges
import Mathlib.Logic.Function.Iterate

/-!
# Iteration with `next()`

`next()` moves a valid Compact id of level at most 28 to the next cell of its level, and past
the last cell of face 5 to `None()` (`next_ofIndex`). A run of `next()` from `child_begin`
therefore reaches `child_end` after exactly as many steps as there are descendants at that
level, and visits them in curve order (`iteratesOver_ofIndex`); likewise from `Begin(level)`
to `End(level)` over the whole level.
-/

namespace S2Geo.S2CellId

/-- Iterating `next()` from `b` visits `N` valid, strictly increasing level-`L` ids whose
Primary ids are exactly the valid level-`L` ids in `inRange`, and is at `e` after exactly `N`
steps and not before. -/
structure IteratesOver (b e : S2CellId) (N : Nat) (L : Int) (inRange : S2v1.S2CellId → Prop) :
    Prop where
  ne_end : ∀ k < N, next^[k] b ≠ e
  eq_end : next^[N] b = e
  isValid : ∀ k < N, (next^[k] b).isValid = true
  level : ∀ k < N, (next^[k] b).level = L
  increasing : ∀ k, k + 1 < N → next^[k] b < next^[k + 1] b
  covers : ∀ c : S2v1.S2CellId,
    (c.isValid = true ∧ c.level = L ∧ inRange c) ↔ ∃ k < N, (next^[k] b).toOldFormat = c

/-- One `next()` step: the next Primary cell of the level, converted back. -/
theorem next_ofIndex {L j : Nat} (hL : L ≤ 28) (hj : j < 6 * 4 ^ L) :
    (ofIndex L j).next = fromS2CellId (S2v1.S2CellId.ofIndex L (j + 1)) := by
  rw [next, delegateStep, toOldFormat_ofIndex hL hj,
    S2v1.S2CellId.next_ofIndex (by omega) (by omega),
    S2v1.S2CellId.level_ofIndex (by omega) (by omega), if_neg (by simp only [kMaxLevel]; omega)]

/-- The run: `k` steps stay on the level while the index stays below the level's end. -/
theorem iterate_next_ofIndex {L j : Nat} (hL : L ≤ 28) :
    ∀ k, j + k < 6 * 4 ^ L → next^[k] (ofIndex L j) = ofIndex L (j + k)
  | 0, _ => rfl
  | k + 1, hk => by
    rw [Function.iterate_succ_apply', iterate_next_ofIndex hL k (by omega),
      next_ofIndex hL (by omega), fromS2CellId_ofIndex hL (by omega)]
    rfl

theorem iterate_next_ofIndex_succ {L j : Nat} (hL : L ≤ 28) (k : Nat) (hk : j + k < 6 * 4 ^ L) :
    next^[k + 1] (ofIndex L j) = fromS2CellId (S2v1.S2CellId.ofIndex L (j + k + 1)) := by
  rw [Function.iterate_succ_apply', iterate_next_ofIndex hL k hk, next_ofIndex hL hk]

/-- A run of `next()` over the level-`L` cells `j, ..., j + N - 1`, ending at the conversion
of the Primary id one past them (`None()` past face 5). -/
theorem iteratesOver_ofIndex {L j N : Nat} (hL : L ≤ 28) (hN : 0 < N) (hjN : j + N ≤ 6 * 4 ^ L)
    {inRange : S2v1.S2CellId → Prop}
    (hr : ∀ m, m < 6 * 4 ^ L → (inRange (S2v1.S2CellId.ofIndex L m) ↔ j ≤ m ∧ m < j + N)) :
    IteratesOver (ofIndex L j) (fromS2CellId (S2v1.S2CellId.ofIndex L (j + N))) N L inRange := by
  have hrun : ∀ k < N, next^[k] (ofIndex L j) = ofIndex L (j + k) :=
    fun k hk => iterate_next_ofIndex hL k (by omega)
  have hold : ∀ k < N, (next^[k] (ofIndex L j)).toOldFormat = S2v1.S2CellId.ofIndex L (j + k) :=
    fun k hk => by rw [hrun k hk, toOldFormat_ofIndex hL (by omega)]
  refine ⟨fun k hk heq => ?_, ?_, fun k hk => ?_, fun k hk => ?_, fun k hk => ?_, fun c => ?_⟩
  · rw [hrun k hk] at heq
    rcases Nat.lt_or_ge (j + N) (6 * 4 ^ L) with hlt | hge
    · have := congrArg cellIndex heq
      rw [fromS2CellId_ofIndex hL hlt, cellIndex_ofIndex hL (by omega),
        cellIndex_ofIndex hL hlt] at this
      omega
    · have := congrArg isValid heq
      rw [show j + N = 6 * 4 ^ L by omega, fromS2CellId_past_end hL,
        isValid_ofIndex hL (by omega)] at this
      exact absurd this (by decide)
  · obtain ⟨k, rfl⟩ : ∃ k, N = k + 1 := ⟨N - 1, by omega⟩
    rw [iterate_next_ofIndex_succ hL k (by omega)]; rfl
  · rw [hrun k hk]; exact isValid_ofIndex hL (by omega)
  · rw [hrun k hk, level_ofIndex hL (by omega)]
  · show (next^[k] (ofIndex L j)).toOldFormat.id.toNat < (next^[k + 1] (ofIndex L j)).toOldFormat.id.toNat
    rw [hold k (by omega), hold (k + 1) hk, S2v1.S2CellId.toNat_ofIndex (by omega) (by omega),
      S2v1.S2CellId.toNat_ofIndex (by omega) (by omega)]
    exact (Nat.mul_lt_mul_right (pow_pos (by decide) _)).2 (by omega)
  · constructor
    · rintro ⟨hv, hl, hin⟩
      obtain ⟨m, hm, rfl⟩ := S2v1.S2CellId.exists_ofIndex_of_level hv hl
      obtain ⟨h1, h2⟩ := (hr m hm).1 hin
      exact ⟨m - j, by omega, by rw [hold _ (by omega), Nat.add_sub_cancel' h1]⟩
    · rintro ⟨k, hk, rfl⟩
      rw [hold k hk, S2v1.S2CellId.isValid_ofIndex (by omega) (by omega),
        S2v1.S2CellId.level_ofIndex (by omega) (by omega)]
      exact ⟨decide_eq_true (by omega), rfl, (hr _ (by omega)).2 ⟨by omega, by omega⟩⟩

section Valid

variable {x : S2CellId} (h : x.isValid = true)
include h

theorem childBeginAt_of_isValid {L : Nat} (hl : x.levelField < L) (hL : L ≤ 28) :
    x.childBeginAt L = ofIndex L (x.cellIndex * 4 ^ (L - x.levelField)) := by
  have hq := cellIndex_lt_of_isValid h
  rw [childBeginAt, if_neg (by rw [level_eq_levelField]; simp only [kMaxLevel]; omega),
    toOldFormat_of_isValid h, S2v1.S2CellId.childBeginAt_ofIndex (by omega) (by omega) hl.le (by omega),
    fromS2CellId_ofIndex hL (S2v1.S2CellId.mul_four_pow_lt_mul hq hl.le)]

theorem childEndAt_of_isValid {L : Nat} (hl : x.levelField < L) (hL : L ≤ 28) :
    x.childEndAt L = fromS2CellId (S2v1.S2CellId.ofIndex L
      (x.cellIndex * 4 ^ (L - x.levelField) + 4 ^ (L - x.levelField))) := by
  have hq := cellIndex_lt_of_isValid h
  rw [childEndAt, if_neg (by rw [level_eq_levelField]; simp only [kMaxLevel]; omega),
    toOldFormat_of_isValid h, S2v1.S2CellId.childEndAt_ofIndex (by omega) (by omega) hl.le (by omega),
    Nat.succ_mul]

/-- `child_begin(level)` to `child_end(level)`: the descendants at that level. -/
theorem iteratesOver_childBeginAt {L : Nat} (hl : x.levelField < L) (hL : L ≤ 28) :
    IteratesOver (x.childBeginAt L) (x.childEndAt L) (4 ^ (L - x.levelField)) L
      (fun c => x.toOldFormat.contains c = true) := by
  have hq := cellIndex_lt_of_isValid h
  have hP := pow_pos (by decide : 0 < 4) (L - x.levelField)
  have hend := S2v1.S2CellId.mul_four_pow_le_mul (show x.cellIndex + 1 ≤ 6 * 4 ^ x.levelField by omega) hl.le
  rw [Nat.succ_mul] at hend
  rw [childBeginAt_of_isValid h hl hL, childEndAt_of_isValid h hl hL]
  refine iteratesOver_ofIndex hL hP hend fun m hm => ?_
  rw [toOldFormat_of_isValid h, S2v1.S2CellId.contains_ofIndex (by omega) (by omega) (by omega) (by omega),
    div_eq_iff_mul_le hP]
  exact ⟨fun ⟨_, h2⟩ => h2, fun h2 => ⟨hl.le, h2⟩⟩

theorem childBegin_of_isValid (hl : x.levelField < 28) :
    x.childBegin = ofIndex (x.levelField + 1) (4 * x.cellIndex) := by
  rw [childBegin, if_neg (by rw [level_eq_levelField]; simp only [kMaxLevel]; omega),
    show (0 : Int) = ((0 : Nat) : Int) from rfl, child_of_isValid h hl (by decide)]
  rfl

theorem childEnd_of_isValid (hl : x.levelField < 28) :
    x.childEnd = fromS2CellId (S2v1.S2CellId.ofIndex (x.levelField + 1) (4 * x.cellIndex + 4)) := by
  have hq := cellIndex_lt_of_isValid h
  have hq' : 4 * (x.cellIndex + 1) < 8 * 4 ^ (x.levelField + 1) := by rw [pow_succ]; omega
  simp only [childEnd, level_eq_levelField, kMaxLevel]
  rw [if_neg (by omega), toOldFormat_of_isValid h,
    S2v1.S2CellId.childEnd_ofIndex (by omega) (by omega) (by omega),
    S2v1.S2CellId.level_ofIndex (by omega) hq', if_neg (by omega), Nat.mul_succ]

/-- `child_begin()` to `child_end()`: the four children. -/
theorem iteratesOver_childBegin (hl : x.levelField < 28) :
    IteratesOver x.childBegin x.childEnd 4 ((x.levelField + 1 : Nat) : Int)
      (fun c => x.toOldFormat.contains c = true) := by
  have hq := cellIndex_lt_of_isValid h
  rw [childBegin_of_isValid h hl, childEnd_of_isValid h hl]
  refine iteratesOver_ofIndex (by omega) (by decide) (by rw [pow_succ]; omega) fun m hm => ?_
  rw [toOldFormat_of_isValid h, S2v1.S2CellId.contains_ofIndex (by omega) (by omega) (by omega) (by omega),
    show x.levelField + 1 - x.levelField = 1 by omega, pow_one, div_eq_iff_mul_le (by decide)]
  exact ⟨fun ⟨_, h2⟩ => ⟨by omega, by omega⟩, fun h2 => ⟨by omega, by omega⟩⟩

end Valid

/-- `Begin(level)` to `End(level)`: every cell of the level. -/
theorem iteratesOver_begin {L : Nat} (hL : L ≤ 28) :
    IteratesOver (begin L) («end» L) (6 * 4 ^ L) L (fun _ => True) := by
  have hn : ¬((L : Int) > (kMaxLevel : Nat)) := by simp only [kMaxLevel]; omega
  have hP := pow_pos (by decide : 0 < 4) L
  rw [begin, if_neg hn, S2v1.S2CellId.begin_eq (by omega), fromS2CellId_ofIndex hL (by omega),
    «end», if_neg hn, S2v1.S2CellId.end_eq (by omega)]
  have := @iteratesOver_ofIndex L 0 (6 * 4 ^ L) hL (by omega) (by omega) (fun _ => True)
    fun m hm => by simp only [true_iff]; omega
  rwa [Nat.zero_add] at this

/-- `next()` walks every valid id's descendants at each level from `child_begin` to
`child_end`, its children from `child_begin()` to `child_end()`, and every level from
`Begin` to `End`, in curve order and in exactly as many steps as there are cells. -/
theorem next_iterates_children :
    (∀ x : S2CellId, x.isValid = true → ∀ L : Int, x.level < L → L ≤ kMaxLevel →
      IteratesOver (x.childBeginAt L) (x.childEndAt L) (4 ^ (L - x.level).toNat) L
        (fun c => x.toOldFormat.contains c = true)) ∧
    (∀ x : S2CellId, x.isValid = true → x.level < kMaxLevel →
      IteratesOver x.childBegin x.childEnd 4 (x.level + 1)
        (fun c => x.toOldFormat.contains c = true)) ∧
    (∀ L : Int, 0 ≤ L → L ≤ kMaxLevel →
      IteratesOver (begin L) («end» L) (6 * 4 ^ L.toNat) L (fun _ => True)) := by
  refine ⟨fun x h L hl hL => ?_, fun x h hl => ?_, fun L h0 hL => ?_⟩
  · have hlev := level_eq_levelField x
    obtain ⟨n, rfl⟩ := Int.eq_ofNat_of_zero_le (by omega : (0 : Int) ≤ L)
    rw [hlev, show ((n : Int) - x.levelField).toNat = n - x.levelField by omega]
    exact iteratesOver_childBeginAt h (by omega) (by simp only [kMaxLevel] at hL; omega)
  · have hlev := level_eq_levelField x
    rw [hlev, show (x.levelField : Int) + 1 = ((x.levelField + 1 : Nat) : Int) by omega]
    exact iteratesOver_childBegin h (by simp only [kMaxLevel] at hl; omega)
  · obtain ⟨n, rfl⟩ := Int.eq_ofNat_of_zero_le h0
    rw [Int.toNat_ofNat]
    exact iteratesOver_begin (by simp only [kMaxLevel] at hL; omega)

end S2Geo.S2CellId
