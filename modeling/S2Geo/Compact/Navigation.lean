import S2Geo.Compact.Conversion

/-!
# Navigation on the Compact id

`parent`, `child`, `child_position` and the stepping branch of `parent(level)` work on the
Compact fields and never call the Primary id. On a valid word each of them is the Compact id
of what the Primary operation gives on the word's cell (`parent_of_isValid`,
`child_of_isValid`, `childPositionAt_of_isValid`, `parentAt_of_isValid`), so each commutes
with `ToOldFormat`, and the two branches of `parent(level)` agree.
-/

namespace S2Geo.S2CellId

theorem face_eq_cellIndex_div (x : S2CellId) :
    x.face = ((x.cellIndex / 4 ^ x.levelField : Nat) : Int) := by
  rw [face_eq_faceField, cellIndex_div]

theorem toNat_path_eq_cellIndex_mod {x : S2CellId} (hL : x.levelField ≤ 28) :
    x.path.toNat = x.cellIndex % 4 ^ x.levelField := by
  rw [toNat_path hL, cellIndex_mod]

theorem div_four_pow_lt {k q t : Nat} (hq : q < 6 * 4 ^ k) (ht : t ≤ k) :
    q / 4 ^ (k - t) < 6 * 4 ^ t := by
  rw [Nat.div_lt_iff_lt_mul (pow_pos (by decide) _), Nat.mul_assoc, ← pow_add,
    Nat.add_sub_cancel' ht]
  exact hq

/-- A word built from a cell's fields, with the source's fix-up of 0 to the root marker. -/
theorem fixRoot_pack_eq_ofIndex {k q : Nat} (hk : k ≤ 28) (hq : q < 6 * 4 ^ k) :
    (if pack (q / 4 ^ k) (q % 4 ^ k) k = 0 then (⟨rootMarker⟩ : S2CellId)
      else ⟨pack (q / 4 ^ k) (q % 4 ^ k) k⟩) = ofIndex k q := by
  obtain ⟨hf, hp, hl⟩ := pack_bounds_ofIndex hk hq
  by_cases h0 : k = 0 ∧ q = 0
  · obtain ⟨rfl, rfl⟩ := h0
    rw [if_pos ((pack_eq_zero_iff hf hp hl).2 ⟨rfl, rfl, rfl⟩), ofIndex_zero_zero]
  · rw [if_neg fun hz => h0 ?_, (ofIndex_eq_pack hk hq h0).1]
    obtain ⟨h1, -, rfl⟩ := (pack_eq_zero_iff hf hp hl).1 hz
    simpa using h1

section Valid

variable {x : S2CellId} (h : x.isValid = true)
include h

theorem levelField_le_of_isValid : x.levelField ≤ 28 := (decodable_of_isValid h).levelField_le

theorem cellIndex_lt_of_isValid : x.cellIndex < 6 * 4 ^ x.levelField :=
  cellIndex_lt (decodable_of_isValid h)

theorem toOldFormat_of_isValid :
    x.toOldFormat = S2v1.S2CellId.ofIndex x.levelField x.cellIndex :=
  toOldFormat_of_decodable (decodable_of_isValid h)

/-- `parent()` of a valid word of level at least 1: the cell one level up. -/
theorem parent_of_isValid (hL : 1 ≤ x.levelField) :
    x.parent = ofIndex (x.levelField - 1) (x.cellIndex / 4) := by
  have hq := cellIndex_lt_of_isValid h
  have h4 : 4 ^ x.levelField = 4 * 4 ^ (x.levelField - 1) := by
    rw [← pow_succ', Nat.sub_add_cancel hL]
  have hP : (x.path >>> 2).toNat = x.cellIndex / 4 % 4 ^ (x.levelField - 1) := by
    rw [BitVec.toNat_ushiftRight, toNat_path_eq_cellIndex_mod (levelField_le_of_isValid h),
      Nat.shiftRight_eq_div_pow, h4, Nat.mod_mul_right_div_self]
  have hF : x.face = ((x.cellIndex / 4 / 4 ^ (x.levelField - 1) : Nat) : Int) := by
    rw [face_eq_cellIndex_div, Nat.div_div_eq_div_mul, ← h4]
  have hlev : (x.levelField : Int) - 1 = ((x.levelField - 1 : Nat) : Int) := by omega
  have hq' : x.cellIndex / 4 < 6 * 4 ^ (x.levelField - 1) := by omega
  obtain ⟨hf, hp, hl⟩ := pack_bounds_ofIndex (by have := levelField_le_of_isValid h; omega) hq'
  simp only [parent, h, Bool.not_true, level_eq_levelField, Nat.cast_eq_zero]
  rw [if_neg Bool.false_ne_true, if_neg (by omega), hF, hlev, or_fields_eq_pack hf hp hl hP,
    fixRoot_pack_eq_ofIndex (by have := levelField_le_of_isValid h; omega) hq']

/-- `child(position)` of a valid word below level 28: the cell one level down. -/
theorem child_of_isValid (hL : x.levelField < 28) {p : Nat} (hp : p < 4) :
    x.child p = ofIndex (x.levelField + 1) (4 * x.cellIndex + p) := by
  have hq := cellIndex_lt_of_isValid h
  have hr : x.cellIndex % 4 ^ x.levelField < 4 ^ 27 :=
    (Nat.mod_lt _ (pow_pos (by decide) _)).trans_le (Nat.pow_le_pow_right (by decide) (by omega))
  have hq' : 4 * x.cellIndex + p < 6 * 4 ^ (x.levelField + 1) := by rw [pow_succ]; omega
  have hdiv : (4 * x.cellIndex + p) / 4 ^ (x.levelField + 1) = x.cellIndex / 4 ^ x.levelField := by
    rw [pow_succ', ← Nat.div_div_eq_div_mul]; congr 1; omega
  have hmod : (4 * x.cellIndex + p) % 4 ^ (x.levelField + 1) =
      4 * (x.cellIndex % 4 ^ x.levelField) + p := by
    rw [pow_succ', Nat.mod_mul, Nat.mul_add_div (by decide), Nat.div_eq_of_lt hp, Nat.add_zero]
    omega
  obtain ⟨hf, hp', hl⟩ := pack_bounds_ofIndex (by omega) hq'
  have hP : ((x.path <<< 2) ||| BitVec.ofInt 64 (p : Int)).toNat =
      (4 * x.cellIndex + p) % 4 ^ (x.levelField + 1) := by
    rw [toNat_shiftLeft_two_or (toNat_path_eq_cellIndex_mod (by omega)) hr hp, hmod]
  have hlev : (x.levelField : Int) + 1 = ((x.levelField + 1 : Nat) : Int) := by omega
  simp only [child, h, Bool.not_true, level_eq_levelField, kMaxLevel]
  rw [if_neg Bool.false_ne_true, if_neg (by omega), if_neg (by omega),
    (ofIndex_eq_pack (by omega) hq' (by omega)).1, face_eq_cellIndex_div, ← hdiv, hlev,
    or_fields_eq_pack hf hp' hl hP]

/-- `child_position()`: the last digit of the cell's index. -/
theorem childPosition_of_isValid (hL : 1 ≤ x.levelField) :
    x.childPosition = ((x.cellIndex % 4 : Nat) : Int) := by
  have hpath : (x.path &&& 3).toNat = x.cellIndex % 4 := by
    rw [BitVec.toNat_and, show (3 : BitVec 64).toNat = 2 ^ 2 - 1 from rfl,
      Nat.and_pow_two_sub_one_eq_mod, toNat_path_eq_cellIndex_mod (levelField_le_of_isValid h),
      show (2 : Nat) ^ 2 = 4 from rfl, Nat.mod_mod_of_dvd _ (dvd_pow_self 4 (by omega))]
  simp only [childPosition, h, Bool.not_true, level_eq_levelField, Nat.cast_eq_zero]
  rw [if_neg Bool.false_ne_true, if_neg (by omega), hpath]

/-- `child_position(level)`: the index's digit at that level. -/
theorem childPositionAt_of_isValid {t : Nat} (ht1 : 1 ≤ t) (ht : t ≤ x.levelField) :
    x.childPositionAt t = ((x.cellIndex / 4 ^ (x.levelField - t) % 4 : Nat) : Int) := by
  have h4 : 4 ^ x.levelField = 4 ^ (x.levelField - t) * 4 ^ t := by
    rw [← pow_add, Nat.sub_add_cancel ht]
  have hpath : ((x.path >>> (2 * ((x.levelField : Int) - t)).toNat) &&& 3).toNat =
      x.cellIndex / 4 ^ (x.levelField - t) % 4 := by
    rw [show (2 * ((x.levelField : Int) - t)).toNat = 2 * (x.levelField - t) by omega,
      toNat_shiftRight_and_three, toNat_path_eq_cellIndex_mod (levelField_le_of_isValid h), h4,
      Nat.mod_mul_right_div_self, Nat.mod_mod_of_dvd _ (dvd_pow_self 4 (by omega))]
  simp only [childPositionAt, h, Bool.not_true, level_eq_levelField]
  rw [if_neg Bool.false_ne_true, if_neg (by omega), hpath]

end Valid

/-- The stepping loop of `parent(level)`: `n` rounds of `parent()` from level `t + n`. -/
theorem parentLoop_ofIndex {t : Nat} : ∀ n {k q : Nat}, k = t + n → k ≤ 28 → q < 6 * 4 ^ k →
    parentLoop t n (ofIndex k q) = ofIndex t (q / 4 ^ n)
  | 0, k, q, hk, _, _ => by subst hk; simp [parentLoop]
  | n + 1, k, q, hk, hk28, hq => by
    have hq4 : q / 4 < 6 * 4 ^ (k - 1) := by
      have := div_four_pow_lt hq (Nat.sub_le k 1)
      rwa [Nat.sub_sub_self (by omega), pow_one] at this
    have hpar : (ofIndex k q).parent = ofIndex (k - 1) (q / 4) := by
      rw [parent_of_isValid (isValid_ofIndex hk28 hq) (by rw [levelField_ofIndex hk28 hq]; omega),
        levelField_ofIndex hk28 hq, cellIndex_ofIndex hk28 hq]
    rw [parentLoop, if_pos (by rw [level_ofIndex hk28 hq]; omega), hpar,
      parentLoop_ofIndex n (by omega) (by omega) hq4, Nat.div_div_eq_div_mul, ← pow_succ']

/-- `parent(level)` of a valid word, below its level: the ancestor at that level, by either
branch. -/
theorem parentAt_of_isValid {x : S2CellId} (h : x.isValid = true) {t : Nat}
    (ht : t < x.levelField) :
    x.parentAt t = ofIndex t (x.cellIndex / 4 ^ (x.levelField - t)) := by
  have hL := levelField_le_of_isValid h
  have hq := cellIndex_lt_of_isValid h
  simp only [parentAt, level_eq_levelField, kMaxLevel]
  rw [if_neg (by omega), if_neg (by omega)]
  split_ifs with hspan
  · rw [toOldFormat_of_isValid h, S2v1.S2CellId.parentAt_ofIndex (by omega) (by omega) ht.le,
      fromS2CellId_ofIndex (by omega) (div_four_pow_lt hq ht.le)]
  · rw [show ((x.levelField : Int) - t).toNat = x.levelField - t by omega]
    exact (congrArg _ (eq_ofIndex_of_isValid h (Or.inl (by omega)))).trans
      (parentLoop_ofIndex _ (by omega) hL hq)

theorem parentAt_of_level_le {x : S2CellId} {t : Int} (ht : 0 ≤ t ∧ t ≤ kMaxLevel)
    (hx : x.level ≤ t) : x.parentAt t = x := by
  rw [parentAt, if_neg (by omega), if_pos hx]

/-- The Compact navigation at `x` follows the Primary navigation at `x.ToOldFormat()`. -/
structure FollowsPrimary (x : S2CellId) : Prop where
  face : x.face = x.toOldFormat.face
  level : x.level = x.toOldFormat.level
  parent : 1 ≤ x.level → x.parent = fromS2CellId x.toOldFormat.parent
  childPosition : 1 ≤ x.level → x.childPosition = x.toOldFormat.childPosition
  childPositionAt : ∀ t : Int, 1 ≤ t → t ≤ x.level →
    x.childPositionAt t = x.toOldFormat.childPositionAt t
  child : ∀ p : Int, x.level < kMaxLevel → 0 ≤ p → p ≤ 3 →
    x.child p = fromS2CellId (x.toOldFormat.child p)
  parentAt_toOldFormat : ∀ t : Int, 0 ≤ t → t ≤ x.level →
    (x.parentAt t).toOldFormat = x.toOldFormat.parentAt t
  parentAt : ∀ t : Int, 0 ≤ t → t < x.level → x.parentAt t = fromS2CellId (x.toOldFormat.parentAt t)

theorem followsPrimary_of_isValid {x : S2CellId} (h : x.isValid = true) : x.FollowsPrimary := by
  have hL := levelField_le_of_isValid h
  have hq := cellIndex_lt_of_isValid h
  have hq8 : x.cellIndex < 8 * 4 ^ x.levelField := by omega
  have hpar : ∀ t : Nat, t < x.levelField →
      x.parentAt t = fromS2CellId (x.toOldFormat.parentAt t) := fun t ht => by
    rw [parentAt_of_isValid h ht, toOldFormat_of_isValid h,
      S2v1.S2CellId.parentAt_ofIndex (by omega) hq8 ht.le,
      fromS2CellId_ofIndex (by omega) (div_four_pow_lt hq ht.le)]
  have hlev := level_eq_levelField x
  refine ⟨?_, ?_, fun h1 => ?_, fun h1 => ?_, fun t ht1 ht => ?_, fun p hpL hp0 hp3 => ?_,
    fun t ht0 ht => ?_, fun t ht0 ht => ?_⟩
  · rw [face_eq_cellIndex_div, toOldFormat_of_isValid h, S2v1.S2CellId.face_ofIndex (by omega) hq8]
  · rw [hlev, toOldFormat_of_isValid h, S2v1.S2CellId.level_ofIndex (by omega) hq8]
  · have hq4 := div_four_pow_lt hq (Nat.sub_le x.levelField 1)
    rw [Nat.sub_sub_self (by omega), pow_one] at hq4
    rw [parent_of_isValid h (by omega), toOldFormat_of_isValid h,
      S2v1.S2CellId.parent_ofIndex (by omega) hq8 (by omega), fromS2CellId_ofIndex (by omega) hq4]
  · rw [childPosition_of_isValid h (by omega), toOldFormat_of_isValid h,
      S2v1.S2CellId.childPosition_ofIndex (by omega) hq8 (by omega)]
  · obtain ⟨t, rfl⟩ := Int.eq_ofNat_of_zero_le (by omega : (0 : Int) ≤ t)
    rw [childPositionAt_of_isValid h (by omega) (by omega), toOldFormat_of_isValid h,
      S2v1.S2CellId.childPositionAt_ofIndex (by omega) hq8 (by omega) (by omega)]
  · obtain ⟨p, rfl⟩ := Int.eq_ofNat_of_zero_le hp0
    have hL28 : x.levelField < 28 := by simp only [kMaxLevel] at hpL; omega
    have hq' : 4 * x.cellIndex + p < 6 * 4 ^ (x.levelField + 1) := by rw [pow_succ]; omega
    rw [child_of_isValid h hL28 (by omega), toOldFormat_of_isValid h,
      S2v1.S2CellId.child_ofIndex (by omega) hq8 (by omega), fromS2CellId_ofIndex hL28 hq']
  · obtain ⟨t, rfl⟩ := Int.eq_ofNat_of_zero_le ht0
    rcases Nat.lt_or_ge t x.levelField with ht' | ht'
    · rw [hpar t ht', toOldFormat_of_isValid h, S2v1.S2CellId.parentAt_ofIndex (by omega) hq8 ht'.le,
        fromS2CellId_ofIndex (by omega) (div_four_pow_lt hq ht'.le),
        toOldFormat_ofIndex (by omega) (div_four_pow_lt hq ht'.le)]
    · rw [parentAt_of_level_le ⟨ht0, by simp only [kMaxLevel]; omega⟩ (by omega),
        toOldFormat_of_isValid h,
        S2v1.S2CellId.parentAt_ofIndex (by omega) hq8 (by omega),
        show x.levelField - t = 0 by omega, pow_zero, Nat.div_one, show t = x.levelField by omega]
  · obtain ⟨t, rfl⟩ := Int.eq_ofNat_of_zero_le ht0
    exact hpar t (by omega)

theorem followsPrimary_face_three :
    (⟨0x60000000000001A2⟩ : S2CellId).isValid = true ∧
      (⟨0x60000000000001A2⟩ : S2CellId).FollowsPrimary :=
  ⟨by decide, followsPrimary_of_isValid (by decide)⟩

/-- Invalid words with a stray path bit above `2 * level` come back valid from the operations
that go through `ToOldFormat` without checking `is_valid`. -/
theorem navigation_of_stray_path_bit :
    (⟨0x1000000000000001⟩ : S2CellId).isValid = false ∧
      (⟨0x1000000000000001⟩ : S2CellId).next.isValid = true ∧
      (⟨0x1000000000000001⟩ : S2CellId).childEnd.isValid = true ∧
      (⟨0x1000000000000006⟩ : S2CellId).isValid = false ∧
      ((⟨0x1000000000000006⟩ : S2CellId).parentAt 0).isValid = true := by
  decide

end S2Geo.S2CellId
