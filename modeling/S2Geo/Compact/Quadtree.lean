import S2Geo.Compact.Navigation
import S2Geo.V1.Refinement

/-!
# The Compact id as a quadtree

The Compact class computes `parent()`, `child(position)`, `parent(level)` (by repeated `parent()`
within five levels) and `child_position` on its own bit layout, and `contains` and `intersects`
through `ToOldFormat()`. On every valid id they form the quadtree of the cells
(`quadtree_laws`): a child's parent is the id's canonical word, the children sort in position
order, and `parent(level)` is `parent()` iterated. Containment is ancestry and two ids intersect
only when one contains the other (`contains_iff_ancestor`).
-/

namespace S2Geo.S2CellId

section Index

variable {k q : Nat} (hk : k ≤ 28) (hq : q < 6 * 4 ^ k)
include hk hq

theorem child_ofIndex (hk28 : k < 28) {p : Nat} (hp : p < 4) :
    (ofIndex k q).child p = ofIndex (k + 1) (4 * q + p) := by
  have h := child_of_isValid (isValid_ofIndex hk hq) (by rw [levelField_ofIndex hk hq]; exact hk28) hp
  rwa [levelField_ofIndex hk hq, cellIndex_ofIndex hk hq] at h

theorem parent_ofIndex (hk1 : 1 ≤ k) : (ofIndex k q).parent = ofIndex (k - 1) (q / 4) := by
  have h := parent_of_isValid (isValid_ofIndex hk hq) (by rw [levelField_ofIndex hk hq]; exact hk1)
  rwa [levelField_ofIndex hk hq, cellIndex_ofIndex hk hq] at h

/-- `parent()` applied `m` times climbs `m` levels. -/
theorem iterate_parent_ofIndex : ∀ m, m ≤ k → parent^[m] (ofIndex k q) = ofIndex (k - m) (q / 4 ^ m)
  | 0, _ => by simp
  | m + 1, hm => by
    have hq' := div_four_pow_lt hq (show k - m ≤ k by omega)
    rw [Nat.sub_sub_self (by omega)] at hq'
    rw [Function.iterate_succ_apply', iterate_parent_ofIndex m (by omega),
      parent_ofIndex (by omega) hq' (by omega), Nat.div_div_eq_div_mul, ← Nat.pow_succ,
      show k - m - 1 = k - (m + 1) by omega]

theorem childPosition_ofIndex (hk1 : 1 ≤ k) : (ofIndex k q).childPosition = ((q % 4 : Nat) : Int) := by
  have h := childPosition_of_isValid (isValid_ofIndex hk hq) (by rw [levelField_ofIndex hk hq]; exact hk1)
  rwa [cellIndex_ofIndex hk hq] at h

end Index

section Valid

variable {x y : S2CellId} (hx : x.isValid = true) (hy : y.isValid = true)
include hx hy

/-- Containment between valid words, read on their cells. -/
theorem contains_iff_cellIndex :
    x.contains y = true ↔ x.levelField ≤ y.levelField ∧
      y.cellIndex / 4 ^ (y.levelField - x.levelField) = x.cellIndex := by
  rw [contains, toOldFormat_of_isValid hx, toOldFormat_of_isValid hy,
    S2v1.S2CellId.contains_ofIndex (by have := levelField_le_of_isValid hx; omega)
      (by have := cellIndex_lt_of_isValid hx; omega)
      (by have := levelField_le_of_isValid hy; omega) (by have := cellIndex_lt_of_isValid hy; omega)]

end Valid

/-- The quadtree laws of the Compact `child`, `parent()`, `parent(level)` and
`child_position(level)` at `x`. `fromS2CellId x.toOldFormat` is `x`'s canonical word: `x`
itself from level 1 on, the face's root marker word at level 0. -/
structure QuadtreeLaws (x : S2CellId) : Prop where
  child : ∀ p : Int, 0 ≤ p → p ≤ 3 → x.level < kMaxLevel →
    (x.child p).isValid = true ∧ (x.child p).level = x.level + 1 ∧ (x.child p).face = x.face ∧
      (x.child p).parent = fromS2CellId x.toOldFormat ∧ (x.child p).childPosition = p ∧
      x.contains (x.child p) = true
  child_lt : x.level < kMaxLevel →
    x.child 0 < x.child 1 ∧ x.child 1 < x.child 2 ∧ x.child 2 < x.child 3
  child_parent : 0 < x.level → x.parent.child x.childPosition = x
  parentAt : ∀ l : Int, 0 ≤ l → l ≤ x.level →
    (x.parentAt l).isValid = true ∧ (x.parentAt l).level = l ∧ (x.parentAt l).contains x = true ∧
      x.parentAt l = parent^[(x.level - l).toNat] x ∧
      (1 ≤ l → x.childPositionAt l = (x.parentAt l).childPosition)

/-- The children of a valid word sort in position order. -/
theorem child_lt_child {x : S2CellId} (h : x.isValid = true) (hk28 : x.levelField < 28)
    {a b : Nat} (hab : a < b) (hb : b < 4) : x.child a < x.child b := by
  have hq := cellIndex_lt_of_isValid h
  have hq' : ∀ p, p < 4 → 4 * x.cellIndex + p < 6 * 4 ^ (x.levelField + 1) := fun p hp => by
    rw [pow_succ]; omega
  show (x.child a).toOldFormat < (x.child b).toOldFormat
  rw [child_of_isValid h hk28 (by omega), child_of_isValid h hk28 hb,
    toOldFormat_ofIndex (by omega) (hq' a (by omega)), toOldFormat_ofIndex (by omega) (hq' b hb),
    S2v1.S2CellId.ofIndex_lt_ofIndex (by omega) (by have := hq' a (by omega); omega)
      (by have := hq' b hb; omega)]
  omega

section Valid

variable {x : S2CellId} (h : x.isValid = true)
include h

/-- One child of a valid word below level 28: the cell one level down, in position `p`. -/
theorem child_laws_of_isValid (hk28 : x.levelField < 28) {p : Nat} (hp : p < 4) :
    (x.child p).isValid = true ∧ (x.child p).level = x.level + 1 ∧ (x.child p).face = x.face ∧
      (x.child p).parent = fromS2CellId x.toOldFormat ∧ (x.child p).childPosition = p ∧
      x.contains (x.child p) = true := by
  have hq := cellIndex_lt_of_isValid h
  have hq' : 4 * x.cellIndex + p < 6 * 4 ^ (x.levelField + 1) := by rw [pow_succ]; omega
  have hv := isValid_ofIndex (show x.levelField + 1 ≤ 28 by omega) hq'
  rw [child_of_isValid h hk28 hp, toOldFormat_of_isValid h, fromS2CellId_ofIndex (by omega) hq,
    level_eq_levelField x]
  refine ⟨hv, by rw [level_ofIndex (by omega) hq']; push_cast; rfl, ?_, ?_, ?_, ?_⟩
  · rw [face_ofIndex (by omega) hq', face_eq_cellIndex_div, pow_succ', ← Nat.div_div_eq_div_mul]
    congr 2; omega
  · rw [parent_ofIndex (by omega) hq' (by omega), Nat.add_sub_cancel]
    congr 1; omega
  · rw [childPosition_ofIndex (by omega) hq' (by omega)]
    congr 1; omega
  · rw [contains_iff_cellIndex h hv, levelField_ofIndex (by omega) hq',
      cellIndex_ofIndex (by omega) hq', Nat.add_sub_cancel_left, pow_one]
    exact ⟨by omega, by omega⟩

/-- `parent(l)` of a valid word strictly below its level: the ancestor, reached by
`level - l` rounds of `parent()`. -/
theorem parentAt_laws_of_isValid {l : Nat} (hlt : l < x.levelField) :
    (x.parentAt l).isValid = true ∧ (x.parentAt l).level = l ∧ (x.parentAt l).contains x = true ∧
      x.parentAt l = parent^[x.levelField - l] x ∧
      (1 ≤ (l : Int) → x.childPositionAt l = (x.parentAt l).childPosition) := by
  have hk := levelField_le_of_isValid h
  have hq := cellIndex_lt_of_isValid h
  have hq' := div_four_pow_lt hq hlt.le
  have hv := isValid_ofIndex (show l ≤ 28 by omega) hq'
  have hx : ofIndex x.levelField x.cellIndex = x := (eq_ofIndex_of_isValid h (.inl (by omega))).symm
  rw [parentAt_of_isValid h hlt]
  refine ⟨hv, level_ofIndex (by omega) hq', ?_, ?_, fun hl1 => ?_⟩
  · rw [contains_iff_cellIndex hv h, levelField_ofIndex (by omega) hq',
      cellIndex_ofIndex (by omega) hq']
    exact ⟨hlt.le, rfl⟩
  · calc ofIndex l (x.cellIndex / 4 ^ (x.levelField - l))
        = parent^[x.levelField - l] (ofIndex x.levelField x.cellIndex) := by
          rw [iterate_parent_ofIndex hk hq _ (Nat.sub_le _ _), Nat.sub_sub_self hlt.le]
      _ = parent^[x.levelField - l] x := congrArg _ hx
  · rw [childPositionAt_of_isValid h (by omega) hlt.le, childPosition_ofIndex (by omega) hq' (by omega)]

end Valid

/-- `child`, `parent()` and `parent(level)` of the Compact id, each computed on the bit layout,
form the quadtree at every valid id. -/
theorem quadtree_laws {x : S2CellId} (h : x.isValid = true) : x.QuadtreeLaws := by
  have hk := levelField_le_of_isValid h
  have hq := cellIndex_lt_of_isValid h
  have hlev := level_eq_levelField x
  refine ⟨fun p hp0 hp3 hk28 => ?_, fun hk28 => ?_, fun hk1 => ?_, fun l hl0 hl => ?_⟩
  · obtain ⟨p, rfl⟩ := Int.eq_ofNat_of_zero_le hp0
    exact child_laws_of_isValid h (by simp only [hlev, kMaxLevel] at hk28; omega) (by omega)
  · have hk28' : x.levelField < 28 := by simp only [hlev, kMaxLevel] at hk28; omega
    exact ⟨child_lt_child h hk28' (show 0 < 1 by decide) (by decide),
      child_lt_child h hk28' (show 1 < 2 by decide) (by decide),
      child_lt_child h hk28' (show 2 < 3 by decide) (by decide)⟩
  · rw [hlev] at hk1
    have hq4 : x.cellIndex / 4 < 6 * 4 ^ (x.levelField - 1) := by
      have := div_four_pow_lt hq (Nat.sub_le x.levelField 1)
      rwa [Nat.sub_sub_self (by omega), pow_one] at this
    rw [parent_of_isValid h (by omega), childPosition_of_isValid h (by omega),
      child_ofIndex (by omega) hq4 (by omega) (Nat.mod_lt _ (by decide)),
      Nat.sub_add_cancel (by omega), Nat.div_add_mod]
    exact (eq_ofIndex_of_isValid h (.inl (by omega))).symm
  · obtain ⟨l, rfl⟩ := Int.eq_ofNat_of_zero_le hl0
    rw [hlev] at hl ⊢
    rcases Nat.lt_or_ge l x.levelField with hlt | hge
    · rw [show ((x.levelField : Int) - l).toNat = x.levelField - l by omega]
      exact parentAt_laws_of_isValid h hlt
    · -- At its own level `parent(l)` returns the word itself, canonical or not.
      obtain rfl : l = x.levelField := by omega
      rw [parentAt_of_level_le ⟨by omega, by simp only [kMaxLevel]; omega⟩ (by rw [hlev]),
        Int.sub_self]
      refine ⟨h, hlev, ?_, rfl, fun hl1 => ?_⟩
      · rw [contains_iff_cellIndex h h, Nat.sub_self, pow_zero, Nat.div_one]
        exact ⟨le_rfl, rfl⟩
      · rw [childPositionAt_of_isValid h (by omega) le_rfl, childPosition_of_isValid h (by omega),
          Nat.sub_self, pow_zero, Nat.div_one]

theorem quadtree_laws_face_three :
    (⟨0x60000000000001A2⟩ : S2CellId).isValid = true ∧ (⟨0x60000000000001A2⟩ : S2CellId).QuadtreeLaws :=
  ⟨by decide, quadtree_laws (by decide)⟩

/-- The Primary id of `parent(level)` of a valid word, at or below its level. -/
theorem toOldFormat_parentAt {y : S2CellId} (hy : y.isValid = true) {t : Nat}
    (ht : t ≤ y.levelField) :
    (y.parentAt t).toOldFormat = S2v1.S2CellId.ofIndex t (y.cellIndex / 4 ^ (y.levelField - t)) := by
  have hl := levelField_le_of_isValid hy
  have hr := cellIndex_lt_of_isValid hy
  rcases Nat.lt_or_ge t y.levelField with hlt | hge
  · rw [parentAt_of_isValid hy hlt, toOldFormat_ofIndex (by omega) (div_four_pow_lt hr ht)]
  · obtain rfl : t = y.levelField := by omega
    rw [parentAt_of_level_le ⟨by omega, by simp only [kMaxLevel]; omega⟩
      (by rw [level_eq_levelField]), toOldFormat_of_isValid hy, Nat.sub_self, pow_zero,
      Nat.div_one]

/-- Containment between valid Compact ids is ancestry: `x` contains `y` exactly when `y` is at
least as deep and `y.parent(x.level())` has `x`'s Primary id; and two valid ids intersect only
when one contains the other. -/
theorem contains_iff_ancestor {x y : S2CellId} (hx : x.isValid = true) (hy : y.isValid = true) :
    (x.contains y = true ↔
      x.level ≤ y.level ∧ (y.parentAt x.level).toOldFormat = x.toOldFormat) ∧
    (x.intersects y = true ↔ x.contains y = true ∨ y.contains x = true) := by
  have hk := levelField_le_of_isValid hx
  have hq := cellIndex_lt_of_isValid hx
  have hl := levelField_le_of_isValid hy
  have hr := cellIndex_lt_of_isValid hy
  rw [contains_iff_cellIndex hx hy, contains_iff_cellIndex hy hx, level_eq_levelField x,
    level_eq_levelField y, Int.ofNat_le]
  refine ⟨⟨fun ⟨hkl, hdiv⟩ => ⟨hkl, ?_⟩, fun ⟨hkl, heq⟩ => ⟨hkl, ?_⟩⟩, ?_⟩
  · rw [toOldFormat_parentAt hy hkl, toOldFormat_of_isValid hx, hdiv]
  · rwa [toOldFormat_parentAt hy hkl, toOldFormat_of_isValid hx,
      S2v1.S2CellId.ofIndex_inj (by omega) (by have := div_four_pow_lt hr hkl; omega)
        (by omega)] at heq
  · -- The cells of `x` and `y` intersect.
    rw [intersects, toOldFormat_of_isValid hx, toOldFormat_of_isValid hy]
    exact (Bool.eq_iff_iff.1 (S2v1.S2CellId.intersects_cell_id ⟨_, _, by omega, hq⟩
      ⟨_, _, by omega, hr⟩)).trans decide_eq_true_iff

theorem contains_iff_ancestor_face_three :
    (⟨0x6000000000000041⟩ : S2CellId).isValid = true ∧ (⟨0x6000000000000122⟩ : S2CellId).isValid = true ∧
      (((⟨0x6000000000000041⟩ : S2CellId).contains ⟨0x6000000000000122⟩ = true ↔
        (⟨0x6000000000000041⟩ : S2CellId).level ≤ (⟨0x6000000000000122⟩ : S2CellId).level ∧
          ((⟨0x6000000000000122⟩ : S2CellId).parentAt (⟨0x6000000000000041⟩ : S2CellId).level).toOldFormat =
            (⟨0x6000000000000041⟩ : S2CellId).toOldFormat) ∧
      ((⟨0x6000000000000041⟩ : S2CellId).intersects ⟨0x6000000000000122⟩ = true ↔
        (⟨0x6000000000000041⟩ : S2CellId).contains ⟨0x6000000000000122⟩ = true ∨
          (⟨0x6000000000000122⟩ : S2CellId).contains ⟨0x6000000000000041⟩ = true)) :=
  ⟨by decide, by decide, contains_iff_ancestor (by decide) (by decide)⟩

end S2Geo.S2CellId
