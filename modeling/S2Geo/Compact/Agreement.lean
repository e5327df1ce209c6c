import S2Geo.Compact.Iteration

/-!
# One result, two computations

The Compact code computes some results two ways. `parent(level)` runs the `parent()` loop
over a span of at most 5 levels and otherwise goes through the Primary id; `child_begin()`
appends a zero path digit while `child_begin(level)` goes through the Primary id;
`range_min()` and `range_max()` cut the Primary leaf range to level 28, while
`child_begin(28)` and `child_end(28)` take the Primary descendants at level 28. On every valid
id the two ways agree (`paths_agree`), so neither the threshold 5 nor the choice of path
changes a result there.
-/

namespace S2Geo.S2CellId

/-- The agreements at `x`: the two branches of `parent(level)`, `child_begin(level)` and
repeated `child_begin()`, and the ends of the range and of the level-28 descendants. -/
structure PathsAgree (x : S2CellId) : Prop where
  parentLoop_eq : ∀ t : Int, 0 ≤ t → t < x.level →
    parentLoop t (x.level - t).toNat x = fromS2CellId (x.toOldFormat.parentAt t)
  iterate_childBegin : ∀ n : Nat, 1 ≤ n → x.level + n ≤ kMaxLevel →
    childBegin^[n] x = x.childBeginAt (x.level + n)
  rangeMin_eq : x.level < kMaxLevel → x.rangeMin = x.childBeginAt kMaxLevel
  rangeMax_next : x.level < kMaxLevel → x.rangeMax.next = x.childEndAt kMaxLevel

section Valid

variable {x : S2CellId} (h : x.isValid = true)
include h

/-- `n + 1` rounds of `child_begin()`: the first descendant `n + 1` levels down. -/
theorem iterate_childBegin_of_isValid :
    ∀ n, x.levelField + n + 1 ≤ 28 →
      childBegin^[n + 1] x = ofIndex (x.levelField + n + 1) (x.cellIndex * 4 ^ (n + 1))
  | 0, hn => by rw [Function.iterate_one, childBegin_of_isValid h (by omega), pow_one, Nat.mul_comm]
  | n + 1, hn => by
    have hq := S2v1.S2CellId.mul_four_pow_lt_mul (cellIndex_lt_of_isValid h)
      (Nat.le_add_right x.levelField (n + 1))
    rw [Nat.add_sub_cancel_left, ← Nat.add_assoc] at hq
    rw [Function.iterate_succ_apply', iterate_childBegin_of_isValid n (by omega),
      childBegin_of_isValid (isValid_ofIndex (by omega) hq)
        (by rw [levelField_ofIndex (by omega) hq]; omega),
      levelField_ofIndex (by omega) hq, cellIndex_ofIndex (by omega) hq, pow_succ 4 (n + 1),
      Nat.mul_comm 4, Nat.mul_assoc, ← Nat.add_assoc x.levelField n 1]

end Valid

theorem paths_agree {x : S2CellId} (h : x.isValid = true) : x.PathsAgree := by
  have hL := levelField_le_of_isValid h
  have hq := cellIndex_lt_of_isValid h
  have hlev := level_eq_levelField x
  refine ⟨fun t ht0 ht => ?_, fun n hn1 hn => ?_, fun hl => ?_, fun hl => ?_⟩
  · -- Both branches are the ancestor of the cell at level `t`.
    obtain ⟨t, rfl⟩ := Int.eq_ofNat_of_zero_le ht0
    have htL : t < x.levelField := by omega
    have hx := eq_ofIndex_of_isValid h (Or.inl (by omega))
    calc parentLoop t (x.level - t).toNat x
        = parentLoop t (x.levelField - t) (ofIndex x.levelField x.cellIndex) := by
          rw [← hx, show (x.level - t).toNat = x.levelField - t by omega]
      _ = ofIndex t (x.cellIndex / 4 ^ (x.levelField - t)) := parentLoop_ofIndex _ (by omega) hL hq
      _ = fromS2CellId (x.toOldFormat.parentAt t) := by
          rw [toOldFormat_of_isValid h, S2v1.S2CellId.parentAt_ofIndex (by omega) (by omega) htL.le,
            fromS2CellId_ofIndex (by omega) (div_four_pow_lt hq htL.le)]
  · obtain ⟨n, rfl⟩ : ∃ m, n = m + 1 := ⟨n - 1, by omega⟩
    rw [hlev, show (x.levelField : Int) + ((n + 1 : Nat) : Int) = ((x.levelField + n + 1 : Nat) : Int)
      by push_cast; ring, iterate_childBegin_of_isValid h n (by simp only [kMaxLevel] at hn; omega),
      childBeginAt_of_isValid h (by omega) (by simp only [kMaxLevel] at hn; omega),
      show x.levelField + n + 1 - x.levelField = n + 1 by omega]
  · have hl28 : x.levelField < 28 := by simp only [kMaxLevel] at hl; omega
    rw [rangeMin_of_isValid h, show ((kMaxLevel : Nat) : Int) = ((28 : Nat) : Int) from rfl,
      childBeginAt_of_isValid h hl28 (le_refl 28)]
  · have hl28 : x.levelField < 28 := by simp only [kMaxLevel] at hl; omega
    have hM := S2v1.S2CellId.mul_four_pow_le_mul
      (show x.cellIndex + 1 ≤ 6 * 4 ^ x.levelField by omega) hl28.le
    have hM1 : 1 ≤ (x.cellIndex + 1) * 4 ^ (28 - x.levelField) :=
      Nat.mul_pos (by omega) (pow_pos (by decide) _)
    rw [rangeMax_of_isValid h, next_ofIndex (le_refl 28) (by omega), Nat.sub_add_cancel hM1,
      show ((kMaxLevel : Nat) : Int) = ((28 : Nat) : Int) from rfl,
      childEndAt_of_isValid h hl28 (le_refl 28), Nat.succ_mul]

theorem paths_agree_face_three :
    (⟨0x60000000000001A2⟩ : S2CellId).isValid = true ∧ (⟨0x60000000000001A2⟩ : S2CellId).PathsAgree :=
  ⟨by decide, paths_agree (by decide)⟩

end S2Geo.S2CellId
