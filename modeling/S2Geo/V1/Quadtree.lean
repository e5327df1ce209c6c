import S2Geo.V1.Traversal
import Mathlib.Logic.Function.Iterate

/-!
# The Primary id as a quadtree

Every valid Primary id is a cell `ofIndex k q` (`exists_ofIndex_of_isValid`), and on cells
`child`, `parent` and `parent(level)` are index arithmetic. Put together they are the two
directions of one quadtree (`quadtreeLaws_of_isValid`): a child's parent is the cell, the
four children sort in position order, and `parent(level)` is `parent()` iterated.

The leaf ranges of two cells are nested or disjoint (`nested_ranges`): containment is
ancestry, and two ranges meet only when one cell contains the other.
-/

namespace S2Geo.S2v1.S2CellId

theorem div_four_pow_lt_mul {c k m q : Nat} (hq : q < c * 4 ^ k) (hm : m ≤ k) :
    q / 4 ^ m < c * 4 ^ (k - m) := by
  rw [Nat.div_lt_iff_lt_mul (Nat.pos_pow_of_pos _ (by decide)), Nat.mul_assoc, ← Nat.pow_add,
    Nat.sub_add_cancel hm]
  exact hq

section Index

variable {k : Nat} (hk : k ≤ 30)
include hk

theorem ofIndex_inj {a b : Nat} (ha : a < 8 * 4 ^ k) (hb : b < 8 * 4 ^ k) :
    ofIndex k a = ofIndex k b ↔ a = b := by
  refine ⟨fun h => ?_, congrArg _⟩
  have h' := congrArg (fun x => x.id.toNat) h
  simp only [toNat_ofIndex hk ha, toNat_ofIndex hk hb] at h'
  have := Nat.eq_of_mul_eq_mul_right (Nat.pos_pow_of_pos _ (by decide)) h'
  omega

theorem ofIndex_lt_ofIndex {a b : Nat} (ha : a < 8 * 4 ^ k) (hb : b < 8 * 4 ^ k) :
    ofIndex k a < ofIndex k b ↔ a < b := by
  rw [lt_iff_toNat, toNat_ofIndex hk ha, toNat_ofIndex hk hb,
    Nat.mul_lt_mul_right (Nat.pos_pow_of_pos _ (by decide))]
  omega

/-- `parent()` applied `m` times climbs `m` levels. -/
theorem iterate_parent_ofIndex {q : Nat} (hq : q < 8 * 4 ^ k) :
    ∀ m, m ≤ k → parent^[m] (ofIndex k q) = ofIndex (k - m) (q / 4 ^ m)
  | 0, _ => by simp
  | m + 1, hm => by
    rw [Function.iterate_succ_apply', iterate_parent_ofIndex hq m (by omega),
      parent_ofIndex (by omega) (div_four_pow_lt_mul hq (by omega)) (by omega),
      Nat.div_div_eq_div_mul, ← Nat.pow_succ, show k - m - 1 = k - (m + 1) by omega]

/-- The laws of one child: a valid cell one level down on the same face, whose parent is the
cell, whose position is `p`, and which the cell contains. -/
theorem child_laws_ofIndex {q p : Nat} (hk30 : k < 30) (hq : q < 6 * 4 ^ k) (hp : p < 4) :
    ((ofIndex k q).child p).isValid = true ∧ ((ofIndex k q).child p).level = k + 1 ∧
      ((ofIndex k q).child p).face = (ofIndex k q).face ∧
      ((ofIndex k q).child p).parent = ofIndex k q ∧
      ((ofIndex k q).child p).childPosition = p ∧
      (ofIndex k q).contains ((ofIndex k q).child p) = true := by
  have hq' : 4 * q + p < 6 * 4 ^ (k + 1) := by rw [Nat.pow_succ]; omega
  have hdiv : (4 * q + p) / 4 = q := by omega
  rw [child_ofIndex hk (by omega) hk30]
  refine ⟨?_, ?_, ?_, ?_, ?_, ?_⟩
  · rw [isValid_ofIndex hk30 (by omega)]; exact decide_eq_true hq'
  · rw [level_ofIndex hk30 (by omega)]; push_cast; rfl
  · rw [face_ofIndex hk30 (by omega), face_ofIndex hk (by omega), Nat.pow_succ',
      ← Nat.div_div_eq_div_mul, hdiv]
  · rw [parent_ofIndex (show k + 1 ≤ 30 by omega) (by omega) (by omega), Nat.add_sub_cancel, hdiv]
  · rw [childPosition_ofIndex hk30 (by omega) (by omega)]; congr 1; omega
  · rw [contains_ofIndex hk (by omega) (show k + 1 ≤ 30 by omega) (by omega),
      Nat.add_sub_cancel_left, Nat.pow_one]
    exact ⟨by omega, hdiv⟩

/-- The four children sort in position order. -/
theorem child_lt_child_ofIndex {q a b : Nat} (hk30 : k < 30) (hq : q < 6 * 4 ^ k) (hab : a < b)
    (hb : b < 4) : (ofIndex k q).child a < (ofIndex k q).child b := by
  rw [child_ofIndex hk (by omega) hk30, child_ofIndex hk (by omega) hk30]
  exact (ofIndex_lt_ofIndex hk30 (by rw [Nat.pow_succ]; omega) (by rw [Nat.pow_succ]; omega)).2
    (by omega)

end Index

/-- The quadtree laws of `child`, `parent()` and `parent(level)` at `x`. -/
structure QuadtreeLaws (x : S2CellId) : Prop where
  child : ∀ p : Int, 0 ≤ p → p ≤ 3 → x.level < kMaxLevel →
    (x.child p).isValid = true ∧ (x.child p).level = x.level + 1 ∧ (x.child p).face = x.face ∧
      (x.child p).parent = x ∧ (x.child p).childPosition = p ∧ x.contains (x.child p) = true
  child_lt : x.level < kMaxLevel →
    x.child 0 < x.child 1 ∧ x.child 1 < x.child 2 ∧ x.child 2 < x.child 3
  child_parent : 0 < x.level → x.parent.child x.childPosition = x
  parentAt : ∀ l : Int, 0 ≤ l → l ≤ x.level →
    (x.parentAt l).isValid = true ∧ (x.parentAt l).level = l ∧
      x.parentAt l = parent^[(x.level - l).toNat] x ∧
      (1 ≤ l → x.childPositionAt l = (x.parentAt l).childPosition)
  parentAt_self : x.parentAt x.level = x

/-- `child`, `parent()` and `parent(level)` form the quadtree at every valid id. -/
theorem quadtreeLaws_of_isValid {x : S2CellId} (h : x.isValid = true) : x.QuadtreeLaws := by
  obtain ⟨k, q, hk, hq, rfl⟩ := exists_ofIndex_of_isValid h
  have hq8 : q < 8 * 4 ^ k := by omega
  have hlev := level_ofIndex hk hq8
  refine ⟨fun p hp0 hp3 hk30 => ?_, fun hk30 => ?_, fun hk1 => ?_, fun l hl0 hl => ?_, ?_⟩
  · obtain ⟨p, rfl⟩ := Int.eq_ofNat_of_zero_le hp0
    rw [hlev] at hk30 ⊢
    exact child_laws_ofIndex hk (by simp only [kMaxLevel] at hk30; omega) hq (by omega)
  · rw [hlev] at hk30
    have hk30' : k < 30 := by simp only [kMaxLevel] at hk30; omega
    exact ⟨child_lt_child_ofIndex hk hk30' hq (show 0 < 1 by decide) (by decide),
      child_lt_child_ofIndex hk hk30' hq (show 1 < 2 by decide) (by decide),
      child_lt_child_ofIndex hk hk30' hq (show 2 < 3 by decide) (by decide)⟩
  · rw [hlev] at hk1
    have hq4 := div_four_pow_lt_mul hq8 (show 1 ≤ k by omega)
    rw [pow_one] at hq4
    rw [parent_ofIndex hk hq8 (by omega), childPosition_ofIndex hk hq8 (by omega),
      child_ofIndex (by omega) hq4 (by omega)]
    congr 1 <;> omega
  · obtain ⟨l, rfl⟩ := Int.eq_ofNat_of_zero_le hl0
    rw [hlev] at hl ⊢
    have hlk : l ≤ k := by omega
    have hq' := div_four_pow_lt_mul hq (show k - l ≤ k by omega)
    rw [Nat.sub_sub_self hlk] at hq'
    rw [parentAt_ofIndex hk hq8 hlk]
    refine ⟨?_, level_ofIndex (by omega) (by omega), ?_, fun hl1 => ?_⟩
    · rw [isValid_ofIndex (by omega) (by omega)]; exact decide_eq_true hq'
    · rw [show ((k : Int) - l).toNat = k - l by omega, iterate_parent_ofIndex hk hq8 _ (by omega),
        Nat.sub_sub_self hlk]
    · rw [childPositionAt_ofIndex hk hq8 (by omega) hlk,
        childPosition_ofIndex (by omega) (by omega) (by omega)]
  · rw [hlev, parentAt_ofIndex hk hq8 le_rfl, Nat.sub_self, pow_zero, Nat.div_one]

theorem quadtreeLaws_face_three_child_two :
    ((fromFace 3).child 2).isValid = true ∧ ((fromFace 3).child 2).QuadtreeLaws :=
  ⟨by decide, quadtreeLaws_of_isValid (by decide)⟩

/-- Two blocks of leaves meet exactly when the finer one lies in the coarser: the leaves
`[rP, (r+1)P)` of a finer cell meet the leaves `[qDP, (q+1)DP)` of a coarser one iff
`r / D = q`. -/
theorem overlap_iff_div {q r D P : Nat} (hD : 0 < D) (hP : 0 < P) :
    (r * P < (q + 1) * (D * P) ∧ q * (D * P) < (r + 1) * P) ↔ r / D = q := by
  rw [← Nat.mul_assoc, ← Nat.mul_assoc, Nat.mul_lt_mul_right hP, Nat.mul_lt_mul_right hP,
    div_eq_iff_mul_le hD, Nat.succ_mul]
  omega

theorem intersects_comm (x y : S2CellId) : x.intersects y = y.intersects x := by
  simp only [intersects, Bool.and_comm]

section Cells

variable {k q l r : Nat} (hk : k ≤ 30) (hq : q < 6 * 4 ^ k) (hl : l ≤ 30) (hr : r < 6 * 4 ^ l)
include hk hq hl hr

theorem contains_iff_parentAt_ofIndex :
    (ofIndex k q).contains (ofIndex l r) = true ↔
      (k : Int) ≤ l ∧ (ofIndex l r).parentAt k = ofIndex k q := by
  rw [contains_ofIndex hk (by omega) hl (by omega)]
  refine ⟨fun ⟨hkl, hdiv⟩ => ⟨by omega, by rw [parentAt_ofIndex hl (by omega) hkl, hdiv]⟩,
    fun ⟨hkl, hp⟩ => ?_⟩
  have hkl' : k ≤ l := by omega
  have hr' := div_four_pow_lt_mul (show r < 8 * 4 ^ l by omega) (show l - k ≤ l by omega)
  rw [Nat.sub_sub_self hkl'] at hr'
  rw [parentAt_ofIndex hl (by omega) hkl', ofIndex_inj hk hr' (by omega)] at hp
  exact ⟨hkl', hp⟩

/-- A finer cell's range meets a coarser cell's range exactly when it lies in it. -/
theorem intersects_ofIndex_of_le (hkl : k ≤ l) :
    (ofIndex k q).intersects (ofIndex l r) = true ↔ r / 4 ^ (l - k) = q := by
  have hPk : 0 < 4 ^ (30 - k) := Nat.pos_pow_of_pos _ (by decide)
  have hPl : 0 < 4 ^ (30 - l) := Nat.pos_pow_of_pos _ (by decide)
  have hsplit : 4 ^ (30 - k) = 4 ^ (l - k) * 4 ^ (30 - l) := by
    rw [← Nat.pow_add]; congr 1; omega
  have h1 : 1 ≤ (q + 1) * 4 ^ (30 - k) := Nat.mul_pos (by omega) hPk
  have h2 : 1 ≤ (r + 1) * 4 ^ (30 - l) := Nat.mul_pos (by omega) hPl
  have hk' := mul_four_pow_le_mul (show q + 1 ≤ 6 * 4 ^ k by omega) hk
  have hl' := mul_four_pow_le_mul (show r + 1 ≤ 6 * 4 ^ l by omega) hl
  have h30 : 6 * 4 ^ 30 < 8 * 4 ^ 30 := by decide
  have hqk : q * 4 ^ (30 - k) ≤ (q + 1) * 4 ^ (30 - k) := Nat.mul_le_mul_right _ (by omega)
  have hrl : r * 4 ^ (30 - l) ≤ (r + 1) * 4 ^ (30 - l) := Nat.mul_le_mul_right _ (by omega)
  simp only [intersects, Bool.and_eq_true, decide_eq_true_eq, le_iff_toNat,
    rangeMin_ofIndex hk (show q < 8 * 4 ^ k by omega), rangeMax_ofIndex hk (show q < 8 * 4 ^ k by omega),
    rangeMin_ofIndex hl (show r < 8 * 4 ^ l by omega), rangeMax_ofIndex hl (show r < 8 * 4 ^ l by omega)]
  rw [toNat_ofIndex (le_refl 30) (show r * 4 ^ (30 - l) < 8 * 4 ^ 30 by omega),
    toNat_ofIndex (le_refl 30) (show (q + 1) * 4 ^ (30 - k) - 1 < 8 * 4 ^ 30 by omega),
    toNat_ofIndex (le_refl 30) (show q * 4 ^ (30 - k) < 8 * 4 ^ 30 by omega),
    toNat_ofIndex (le_refl 30) (show (r + 1) * 4 ^ (30 - l) - 1 < 8 * 4 ^ 30 by omega),
    Nat.sub_self, Nat.pow_zero, Nat.mul_one, Nat.mul_one, Nat.mul_one, Nat.mul_one]
  rw [← overlap_iff_div (Nat.pos_pow_of_pos _ (by decide)) hPl, ← hsplit]
  omega

end Cells

section Range

variable {k q : Nat} (hk : k ≤ 30) (hq : q < 6 * 4 ^ k)
include hk hq

theorem rangeMin_laws_ofIndex :
    (ofIndex k q).rangeMin.isValid = true ∧ (ofIndex k q).rangeMin.level = kMaxLevel ∧
      (ofIndex k q).rangeMin.face = (ofIndex k q).face ∧ (ofIndex k q).rangeMin ≤ ofIndex k q := by
  have hP : 0 < 4 ^ (30 - k) := Nat.pos_pow_of_pos _ (by decide)
  have h30 : 4 ^ 30 = 4 ^ k * 4 ^ (30 - k) := by rw [← Nat.pow_add, Nat.add_sub_cancel' hk]
  have hm := mul_four_pow_lt_mul hq hk
  have h2 : (2 * q + 1) * 4 ^ (30 - k) = 2 * (q * 4 ^ (30 - k)) + 4 ^ (30 - k) := by ring
  rw [rangeMin_ofIndex hk (by omega)]
  refine ⟨?_, level_ofIndex (le_refl 30) (by omega), ?_, ?_⟩
  · rw [isValid_ofIndex (le_refl 30) (by omega)]; exact decide_eq_true hm
  · rw [face_ofIndex (le_refl 30) (by omega), face_ofIndex hk (by omega), h30,
      Nat.mul_div_mul_right _ _ hP]
  · rw [le_iff_toNat, toNat_ofIndex (le_refl 30) (by omega), toNat_ofIndex hk (by omega),
      Nat.sub_self, Nat.pow_zero, Nat.mul_one, h2]
    omega

theorem rangeMax_laws_ofIndex :
    (ofIndex k q).rangeMax.isValid = true ∧ (ofIndex k q).rangeMax.level = kMaxLevel ∧
      (ofIndex k q).rangeMax.face = (ofIndex k q).face ∧ ofIndex k q ≤ (ofIndex k q).rangeMax := by
  have hP : 0 < 4 ^ (30 - k) := Nat.pos_pow_of_pos _ (by decide)
  have h30 : 4 ^ 30 = 4 ^ (30 - k) * 4 ^ k := by rw [← Nat.pow_add, Nat.sub_add_cancel hk]
  have hm : (q + 1) * 4 ^ (30 - k) - 1 < 6 * 4 ^ 30 := by
    have := mul_four_pow_le_mul (show q + 1 ≤ 6 * 4 ^ k by omega) hk
    omega
  have h1 : (q + 1) * 4 ^ (30 - k) = q * 4 ^ (30 - k) + 4 ^ (30 - k) := Nat.succ_mul _ _
  have h2 : (2 * q + 1) * 4 ^ (30 - k) = 2 * (q * 4 ^ (30 - k)) + 4 ^ (30 - k) := by ring
  rw [rangeMax_ofIndex hk (by omega)]
  refine ⟨?_, level_ofIndex (le_refl 30) (by omega), ?_, ?_⟩
  · rw [isValid_ofIndex (le_refl 30) (by omega)]; exact decide_eq_true hm
  · have hdiv : ((q + 1) * 4 ^ (30 - k) - 1) / 4 ^ (30 - k) = q :=
      (div_eq_iff_mul_le hP).2 ⟨by omega, by omega⟩
    rw [face_ofIndex (le_refl 30) (by omega), face_ofIndex hk (by omega), h30,
      ← Nat.div_div_eq_div_mul, hdiv]
  · rw [le_iff_toNat, toNat_ofIndex (le_refl 30) (by omega), toNat_ofIndex hk (by omega),
      Nat.sub_self, Nat.pow_zero, Nat.mul_one, h2]
    omega

end Range

/-- What `contains`, `intersects`, `range_min()` and `range_max()` promise of `x` and `y`. -/
structure NestedRanges (x y : S2CellId) : Prop where
  contains_iff : x.contains y = true ↔ x.level ≤ y.level ∧ y.parentAt x.level = x
  intersects_iff : x.intersects y = true ↔ x.contains y = true ∨ y.contains x = true
  isValid_rangeMin : x.rangeMin.isValid = true
  isValid_rangeMax : x.rangeMax.isValid = true
  level_rangeMin : x.rangeMin.level = kMaxLevel
  level_rangeMax : x.rangeMax.level = kMaxLevel
  face_rangeMin : x.rangeMin.face = x.face
  face_rangeMax : x.rangeMax.face = x.face
  rangeMin_le : x.rangeMin ≤ x
  le_rangeMax : x ≤ x.rangeMax

/-- Leaf ranges are nested or disjoint: containment is ancestry, and two ranges meet only
when one cell contains the other. -/
theorem nested_ranges {x y : S2CellId} (hx : x.isValid = true) (hy : y.isValid = true) :
    x.NestedRanges y := by
  obtain ⟨k, q, hk, hq, rfl⟩ := exists_ofIndex_of_isValid hx
  obtain ⟨l, r, hl, hr, rfl⟩ := exists_ofIndex_of_isValid hy
  obtain ⟨v1, l1, f1, le1⟩ := rangeMin_laws_ofIndex hk hq
  obtain ⟨v2, l2, f2, le2⟩ := rangeMax_laws_ofIndex hk hq
  refine ⟨?_, ?_, v1, v2, l1, l2, f1, f2, le1, le2⟩
  · rw [level_ofIndex hk (by omega), level_ofIndex hl (by omega)]
    exact contains_iff_parentAt_ofIndex hk hq hl hr
  · rw [contains_ofIndex hk (by omega) hl (by omega), contains_ofIndex hl (by omega) hk (by omega)]
    rcases le_total k l with hkl | hlk
    · rw [intersects_ofIndex_of_le hk hq hl hr hkl]
      refine ⟨fun h => Or.inl ⟨hkl, h⟩, ?_⟩
      rintro (⟨_, h⟩ | ⟨hlk, h⟩)
      · exact h
      · obtain rfl : l = k := le_antisymm hlk hkl
        simp only [Nat.sub_self, pow_zero, Nat.div_one] at h ⊢
        exact h.symm
    · rw [intersects_comm, intersects_ofIndex_of_le hl hr hk hq hlk]
      refine ⟨fun h => Or.inr ⟨hlk, h⟩, ?_⟩
      rintro (⟨hkl, h⟩ | ⟨_, h⟩)
      · obtain rfl : l = k := le_antisymm hlk hkl
        simp only [Nat.sub_self, pow_zero, Nat.div_one] at h ⊢
        exact h.symm
      · exact h

theorem nested_ranges_face_three_child_two :
    (fromFace 3).isValid = true ∧ ((fromFace 3).child 2).isValid = true ∧
      (fromFace 3).NestedRanges ((fromFace 3).child 2) :=
  ⟨by decide, by decide, nested_ranges (by decide) (by decide)⟩

end S2Geo.S2v1.S2CellId
