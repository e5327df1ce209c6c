import S2Geo.Compact.Navigation

/-!
# Ranges and order on the Compact id

The Compact order is the Primary order of the decoded ids. `range_min()` and `range_max()`
take the ends of the Primary leaf range up to level 28 (`rangeMin_of_isValid`,
`rangeMax_of_isValid`). Containment is still the interval between them
(`rangeBounds_of_isValid`): every cell of level at most 28 has a Primary id that is a
multiple of 16, and the truncation moves each end by 15.

The upper bounds `Sentinel()` and `End(level)` decode to the Primary `None()`, the least id,
so no id sorts below them (`sentinel_end_not_upper_bounds`).
-/

namespace S2Geo.S2CellId

theorem toNat_toOldFormat {x : S2CellId} (h : x.isValid = true) :
    x.toOldFormat.id.toNat = (2 * x.cellIndex + 1) * 4 ^ (30 - x.levelField) := by
  have := levelField_le_of_isValid h
  have := cellIndex_lt_of_isValid h
  rw [toOldFormat_of_isValid h, S2v1.S2CellId.toNat_ofIndex (by omega) (by omega)]

/-- A cell of level at most 28 spans sixteen times as many Primary leaves as level-28 cells. -/
theorem four_pow_thirty_sub {L : Nat} (hL : L ≤ 28) : 4 ^ (30 - L) = 4 ^ (28 - L) * 16 := by
  rw [show 30 - L = 28 - L + 2 by omega, pow_add]; rfl

/-- The Primary id of a cell of level at most 28 is a multiple of 16. -/
theorem toNat_toOldFormat_mod_sixteen {x : S2CellId} (h : x.isValid = true) :
    x.toOldFormat.id.toNat % 16 = 0 := by
  rw [toNat_toOldFormat h, four_pow_thirty_sub (levelField_le_of_isValid h), ← Nat.mul_assoc]
  exact Nat.mul_mod_left _ 16

theorem le_iff_toNat {x y : S2CellId} :
    x ≤ y ↔ x.toOldFormat.id.toNat ≤ y.toOldFormat.id.toNat := Nat.not_lt

/-- A Compact leaf is valid, at `kMaxLevel`, with Primary id `(2m+1)·16`. -/
theorem leaf_ofIndex {m : Nat} (hm : m < 6 * 4 ^ 28) :
    (ofIndex 28 m).isValid = true ∧ (ofIndex 28 m).level = kMaxLevel ∧
      (ofIndex 28 m).toOldFormat.id.toNat = (2 * m + 1) * 16 := by
  refine ⟨isValid_ofIndex (le_refl 28) hm, level_ofIndex (le_refl 28) hm, ?_⟩
  rw [toOldFormat_ofIndex (le_refl 28) hm, S2v1.S2CellId.toNat_ofIndex (by decide) (by omega)]; rfl

/-- What `range_min()` and `range_max()` promise of `x`. -/
structure RangeBounds (x : S2CellId) : Prop where
  isValid_min : x.rangeMin.isValid = true
  isValid_max : x.rangeMax.isValid = true
  level_min : x.rangeMin.level = kMaxLevel
  level_max : x.rangeMax.level = kMaxLevel
  leaf_eq : x.level = kMaxLevel → x.rangeMin = x ∧ x.rangeMax = x
  contains_min : x.contains x.rangeMin = true
  contains_max : x.contains x.rangeMax = true
  min_le : x.rangeMin ≤ x
  le_max : x ≤ x.rangeMax
  contains_iff : ∀ y : S2CellId, y.isValid = true →
    (x.contains y = true ↔ x.rangeMin ≤ y ∧ y ≤ x.rangeMax)

section Valid

variable {x : S2CellId} (h : x.isValid = true)
include h

theorem isValid_toOldFormat_of_isValid : x.toOldFormat.isValid = true :=
  isValid_toOldFormat_iff.2 (decodable_of_isValid h)

/-- The Primary leaf range's ends, taken up to level 28. -/
theorem rangeMin_of_isValid :
    x.rangeMin = ofIndex 28 (x.cellIndex * 4 ^ (28 - x.levelField)) := by
  have hL := levelField_le_of_isValid h
  have hq := cellIndex_lt_of_isValid h
  have hmin := S2v1.S2CellId.mul_four_pow_lt_mul hq (show x.levelField ≤ 30 by omega)
  have h16 : x.cellIndex * 4 ^ (30 - x.levelField) / 4 ^ (30 - 28) =
      x.cellIndex * 4 ^ (28 - x.levelField) := by
    rw [show 30 - x.levelField = 28 - x.levelField + 2 by omega, pow_add, ← Nat.mul_assoc,
      Nat.mul_div_cancel _ (by decide)]
  have hv := isValid_toOldFormat_of_isValid h
  rw [toOldFormat_of_isValid h] at hv
  simp only [rangeMin, h, hv, Bool.not_true, toOldFormat_of_isValid h, kMaxLevel]
  rw [if_neg Bool.false_ne_true, if_neg Bool.false_ne_true,
    S2v1.S2CellId.rangeMin_ofIndex (by omega) (by omega),
    S2v1.S2CellId.isValid_ofIndex (by decide) (by omega), decide_eq_true hmin, Bool.not_true,
    if_neg Bool.false_ne_true, S2v1.S2CellId.level_ofIndex (by decide) (by omega),
    if_pos (by decide),
    S2v1.S2CellId.parentAt_ofIndex (by decide) (by omega) (show (28 : Nat) ≤ 30 by decide), h16,
    fromS2CellId_ofIndex (by decide) (S2v1.S2CellId.mul_four_pow_lt_mul hq hL)]

theorem rangeMax_of_isValid :
    x.rangeMax = ofIndex 28 ((x.cellIndex + 1) * 4 ^ (28 - x.levelField) - 1) := by
  have hL := levelField_le_of_isValid h
  have hq := cellIndex_lt_of_isValid h
  have hM := S2v1.S2CellId.mul_four_pow_le_mul (show x.cellIndex + 1 ≤ 6 * 4 ^ x.levelField by omega) hL
  have hM1 : 1 ≤ (x.cellIndex + 1) * 4 ^ (28 - x.levelField) := Nat.mul_pos (by omega) (pow_pos (by decide) _)
  have hsplit : (x.cellIndex + 1) * 4 ^ (30 - x.levelField) =
      (x.cellIndex + 1) * 4 ^ (28 - x.levelField) * 16 := by
    rw [four_pow_thirty_sub hL, ← Nat.mul_assoc]
  have hmax : (x.cellIndex + 1) * 4 ^ (30 - x.levelField) - 1 < 6 * 4 ^ 30 := by
    rw [hsplit]; have : 4 ^ 30 = 4 ^ 28 * 16 := rfl; omega
  have h16 : ((x.cellIndex + 1) * 4 ^ (30 - x.levelField) - 1) / 4 ^ (30 - 28) =
      (x.cellIndex + 1) * 4 ^ (28 - x.levelField) - 1 := by
    rw [hsplit, show 4 ^ (30 - 28) = 16 from rfl]; omega
  have hv := isValid_toOldFormat_of_isValid h
  rw [toOldFormat_of_isValid h] at hv
  simp only [rangeMax, h, hv, Bool.not_true, toOldFormat_of_isValid h, kMaxLevel]
  rw [if_neg Bool.false_ne_true, if_neg Bool.false_ne_true,
    S2v1.S2CellId.rangeMax_ofIndex (by omega) (by omega),
    S2v1.S2CellId.isValid_ofIndex (by decide) (by omega), decide_eq_true hmax, Bool.not_true,
    if_neg Bool.false_ne_true, S2v1.S2CellId.level_ofIndex (by decide) (by omega),
    if_pos (by decide),
    S2v1.S2CellId.parentAt_ofIndex (by decide) (by omega) (show (28 : Nat) ≤ 30 by decide), h16,
    fromS2CellId_ofIndex (by decide) (by omega)]

/-- `contains` is the Primary containment of the decoded ids: the leaf range's ends. -/
theorem contains_iff_toNat {y : S2CellId} :
    x.contains y = true ↔
      2 * (x.cellIndex * 4 ^ (30 - x.levelField)) + 1 ≤ y.toOldFormat.id.toNat ∧
        y.toOldFormat.id.toNat ≤ 2 * ((x.cellIndex + 1) * 4 ^ (30 - x.levelField) - 1) + 1 := by
  have hL := levelField_le_of_isValid h
  have hq := cellIndex_lt_of_isValid h
  have hmin := S2v1.S2CellId.mul_four_pow_lt_mul hq (show x.levelField ≤ 30 by omega)
  have hmax : (x.cellIndex + 1) * 4 ^ (30 - x.levelField) - 1 < 8 * 4 ^ 30 := by
    have := S2v1.S2CellId.mul_four_pow_le_mul (show x.cellIndex + 1 ≤ 6 * 4 ^ x.levelField by omega)
      (show x.levelField ≤ 30 by omega)
    omega
  simp only [contains, S2v1.S2CellId.contains, Bool.and_eq_true, decide_eq_true_eq,
    S2v1.S2CellId.le_iff_toNat, toOldFormat_of_isValid h,
    S2v1.S2CellId.rangeMin_ofIndex (show x.levelField ≤ 30 by omega) (by omega : x.cellIndex < 8 * 4 ^ x.levelField),
    S2v1.S2CellId.rangeMax_ofIndex (show x.levelField ≤ 30 by omega) (by omega : x.cellIndex < 8 * 4 ^ x.levelField),
    Nat.sub_self, pow_zero, Nat.mul_one]
  rw [S2v1.S2CellId.toNat_ofIndex (le_refl 30) (by omega), S2v1.S2CellId.toNat_ofIndex (le_refl 30) hmax,
    Nat.sub_self, pow_zero, Nat.mul_one, Nat.mul_one]

end Valid

/-- Truncating the leaf range to level 28 keeps containment an interval. -/
theorem rangeBounds_of_isValid {x : S2CellId} (h : x.isValid = true) : x.RangeBounds := by
  have hL := levelField_le_of_isValid h
  have hq := cellIndex_lt_of_isValid h
  have hP := four_pow_thirty_sub hL
  have hp1 : 1 ≤ 4 ^ (28 - x.levelField) := Nat.one_le_pow _ _ (by decide)
  have hmax : (x.cellIndex + 1) * 4 ^ (28 - x.levelField) - 1 < 6 * 4 ^ 28 := by
    have := S2v1.S2CellId.mul_four_pow_le_mul (show x.cellIndex + 1 ≤ 6 * 4 ^ x.levelField by omega) hL
    omega
  obtain ⟨hvmin, hlmin, hXmin⟩ := leaf_ofIndex (S2v1.S2CellId.mul_four_pow_lt_mul hq hL)
  obtain ⟨hvmax, hlmax, hXmax⟩ := leaf_ofIndex hmax
  rw [← rangeMin_of_isValid h] at hvmin hlmin hXmin
  rw [← rangeMax_of_isValid h] at hvmax hlmax hXmax
  -- the products `omega` sees as atoms, related once here
  have hIP : (x.cellIndex + 1) * 4 ^ (28 - x.levelField) =
      x.cellIndex * 4 ^ (28 - x.levelField) + 4 ^ (28 - x.levelField) := Nat.succ_mul _ _
  have hassoc : ∀ a, a * (4 ^ (28 - x.levelField) * 16) = a * 4 ^ (28 - x.levelField) * 16 :=
    fun a => (Nat.mul_assoc _ _ _).symm
  have hX : x.toOldFormat.id.toNat =
      (2 * (x.cellIndex * 4 ^ (28 - x.levelField)) + 4 ^ (28 - x.levelField)) * 16 := by
    rw [toNat_toOldFormat h, hP]; ring
  have hcont : ∀ y : S2CellId, y.isValid = true →
      (x.contains y = true ↔ x.rangeMin ≤ y ∧ y ≤ x.rangeMax) := fun y hy => by
    have := toNat_toOldFormat_mod_sixteen hy
    rw [contains_iff_toNat h, le_iff_toNat, le_iff_toNat, hXmin, hXmax, hP, hassoc, hassoc]
    omega
  have hmm : x.rangeMin ≤ x.rangeMax := by rw [le_iff_toNat, hXmin, hXmax]; omega
  have hself : ∀ z : S2CellId, z ≤ z := fun z => le_iff_toNat.2 (le_refl _)
  refine ⟨hvmin, hvmax, hlmin, hlmax, fun hl => ?_, (hcont _ hvmin).2 ⟨hself _, hmm⟩,
    (hcont _ hvmax).2 ⟨hmm, hself _⟩, ?_, ?_, hcont⟩
  · have hL28 : x.levelField = 28 := by
      have := level_eq_levelField x; simp only [kMaxLevel] at hl; omega
    have hx := eq_ofIndex_of_isValid h (Or.inl (by omega))
    rw [rangeMin_of_isValid h, rangeMax_of_isValid h, hL28, Nat.sub_self, pow_zero, Nat.mul_one,
      Nat.mul_one, Nat.add_sub_cancel, ← hL28, ← hx]
    exact ⟨rfl, rfl⟩
  · rw [le_iff_toNat, hXmin, hX]; omega
  · rw [le_iff_toNat, hXmax, hX]; omega

theorem rangeBounds_face_three :
    (⟨0x60000000000001A2⟩ : S2CellId).isValid = true ∧
      (⟨0x60000000000001A2⟩ : S2CellId).RangeBounds :=
  ⟨by decide, rangeBounds_of_isValid (by decide)⟩

/-- The past-the-end Primary id of a level converts to `None()`. -/
theorem fromS2CellId_past_end {L : Nat} (hL : L ≤ 28) :
    fromS2CellId (S2v1.S2CellId.ofIndex L (6 * 4 ^ L)) = none :=
  fromS2CellId_of_not_representable (by
    have := pow_pos (by decide : 0 < 4) L
    rw [S2v1.S2CellId.isValid_ofIndex (by omega) (by omega), decide_eq_false (lt_irrefl _)]; rfl)

theorem end_eq_none {L : Nat} (hL : L ≤ 28) : «end» L = none := by
  rw [«end», if_neg (by simp only [kMaxLevel]; omega), S2v1.S2CellId.end_eq (by omega),
    fromS2CellId_past_end hL]

theorem childEndAt_face_five_eq_none (L : Nat) : (fromFace 5).childEndAt L = none := by
  rw [show (5 : Int) = ((5 : Nat) : Int) from rfl, fromFace_eq_ofIndex (by decide), childEndAt]
  split_ifs with hL
  · rfl
  · rw [level_ofIndex (by decide) (by decide)] at hL
    simp only [kMaxLevel] at hL
    rw [toOldFormat_ofIndex (by decide) (by decide),
      S2v1.S2CellId.childEndAt_ofIndex (by decide) (by decide) (Nat.zero_le L) (by omega),
      Nat.sub_zero, show (5 + 1) * 4 ^ L = 6 * 4 ^ L by ring, fromS2CellId_past_end (by omega)]

theorem not_lt_of_toOldFormat_none {x y : S2CellId} (hy : y.toOldFormat = S2v1.S2CellId.none) :
    ¬ x < y := by
  show ¬ x.toOldFormat.id.toNat < y.toOldFormat.id.toNat
  rw [hy]; exact Nat.not_lt_zero _

/-- `Sentinel()`, `End(level)` and the `child_end(level)` past face 5 decode to `None()`:
nothing sorts below them, not even face 0's cell. -/
theorem sentinel_end_not_upper_bounds :
    (fromFace 0).isValid = true ∧ ∀ x : S2CellId, ¬ x < sentinel ∧
      ∀ L : Nat, L ≤ 28 → ¬ x < «end» L ∧ ¬ x < (fromFace 5).childEndAt L := by
  refine ⟨by decide, fun x => ⟨not_lt_of_toOldFormat_none (by decide), fun L hL => ⟨?_, ?_⟩⟩⟩
  · rw [end_eq_none hL]; exact not_lt_of_toOldFormat_none rfl
  · rw [childEndAt_face_five_eq_none]; exact not_lt_of_toOldFormat_none rfl

end S2Geo.S2CellId
