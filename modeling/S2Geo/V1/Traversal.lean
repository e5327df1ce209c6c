import S2Geo.V1.Hierarchy

/-!
# Ranges and traversal of the Primary id

The descendants of the level-`k` cell at index `q` are, at level `l`, the indices
`[q * 4^(l-k), (q + 1) * 4^(l-k))`: `range_min`/`range_max` are the two ends at the leaf
level, `child_begin(l)`/`child_end(l)` the half-open bounds at level `l`, and `next`
steps one index along the curve, across faces, past face 5 into the invalid ids.
-/

namespace S2Geo.S2v1.S2CellId

theorem lsb_shiftLeft_one_eq {x : BitVec 64} {m : Nat} (hx : x = ((4 ^ m : Nat) : BitVec 64)) :
    x <<< 1 = ((2 * 4 ^ m : Nat) : BitVec 64) := by
  subst hx
  apply BitVec.eq_of_toNat_eq
  simp only [BitVec.toNat_shiftLeft, BitVec.natCast_eq_ofNat, BitVec.toNat_ofNat,
    Nat.shiftLeft_eq, Nat.pow_one]
  rw [Nat.mul_comm 2, Nat.mul_mod, Nat.mod_mod, ← Nat.mul_mod]

theorem le_iff_toNat {x y : S2CellId} : x ≤ y ↔ x.id.toNat ≤ y.id.toNat := Iff.rfl

theorem lt_iff_toNat {x y : S2CellId} : x < y ↔ x.id.toNat < y.id.toNat := Iff.rfl

/-- An odd multiple of `P` lies strictly between `2aP` and `2bP` exactly when the multiplier
does: the cancellation behind every containment test on indices. -/
theorem odd_mul_between_iff {a b c P : Nat} (hP : 0 < P) :
    (2 * a * P + 1 ≤ (2 * c + 1) * P ∧ (2 * c + 1) * P ≤ 2 * b * P - 1) ↔ a ≤ c ∧ c < b := by
  have h1 : 2 * a * P + 1 ≤ (2 * c + 1) * P ↔ 2 * a < 2 * c + 1 := by
    rw [← Nat.mul_lt_mul_right hP]; omega
  have h2 : (2 * c + 1) * P ≤ 2 * b * P - 1 ↔ 2 * c + 1 < 2 * b := by
    rw [← Nat.mul_lt_mul_right hP]
    have : 0 < (2 * c + 1) * P := Nat.mul_pos (by omega) hP
    omega
  rw [h1, h2]; omega

section Index

variable {k q : Nat} (hk : k ≤ 30) (hq : q < 8 * 4 ^ k)
include hk hq

theorem rangeMin_ofIndex : (ofIndex k q).rangeMin = ofIndex 30 (q * 4 ^ (30 - k)) := by
  ext1
  rw [rangeMin, lsb_ofIndex hk hq, id_ofIndex, id_ofIndex, Nat.sub_self, Nat.pow_zero]
  push_cast
  ring

theorem rangeMax_ofIndex : (ofIndex k q).rangeMax = ofIndex 30 ((q + 1) * 4 ^ (30 - k) - 1) := by
  have h1 : 1 ≤ (q + 1) * 4 ^ (30 - k) := Nat.mul_pos (by omega) (Nat.pos_pow_of_pos _ (by decide))
  ext1
  rw [rangeMax, lsb_ofIndex hk hq, id_ofIndex, id_ofIndex, Nat.sub_self, Nat.pow_zero]
  push_cast [Nat.cast_sub h1]
  ring

theorem childBeginAt_ofIndex {l : Nat} (hkl : k ≤ l) (hl : l ≤ 30) :
    (ofIndex k q).childBeginAt l = ofIndex l (q * 4 ^ (l - k)) := by
  have hsplit : 4 ^ (30 - k) = 4 ^ (l - k) * 4 ^ (30 - l) := by
    rw [← Nat.pow_add]; congr 1; omega
  ext1
  rw [childBeginAt, lsb_ofIndex hk hq, lsbForLevel_eq hl, id_ofIndex, id_ofIndex, hsplit]
  push_cast
  ring

theorem childEndAt_ofIndex {l : Nat} (hkl : k ≤ l) (hl : l ≤ 30) :
    (ofIndex k q).childEndAt l = ofIndex l ((q + 1) * 4 ^ (l - k)) := by
  have hsplit : 4 ^ (30 - k) = 4 ^ (l - k) * 4 ^ (30 - l) := by
    rw [← Nat.pow_add]; congr 1; omega
  ext1
  rw [childEndAt, lsb_ofIndex hk hq, lsbForLevel_eq hl, id_ofIndex, id_ofIndex, hsplit]
  push_cast
  ring

theorem next_ofIndex : (ofIndex k q).next = ofIndex k (q + 1) := by
  ext1
  rw [next, lsb_shiftLeft_one_eq (lsb_ofIndex hk hq), id_ofIndex, id_ofIndex]
  push_cast
  ring

theorem prev_ofIndex (hq1 : 1 ≤ q) : (ofIndex k q).prev = ofIndex k (q - 1) := by
  obtain ⟨r, rfl⟩ : ∃ r, q = r + 1 := ⟨q - 1, by omega⟩
  ext1
  rw [prev, lsb_shiftLeft_one_eq (lsb_ofIndex hk hq), id_ofIndex, id_ofIndex, Nat.add_sub_cancel]
  push_cast
  ring

theorem childEnd_ofIndex (hk30 : k < 30) : (ofIndex k q).childEnd = ofIndex (k + 1) (4 * (q + 1)) := by
  have hsplit : 4 ^ (30 - k) = 4 * 4 ^ (30 - (k + 1)) := by
    rw [← Nat.pow_succ']; congr 1; omega
  ext1
  simp only [childEnd]
  rw [lsb_shiftRight_two_ofIndex hk hq hk30, lsb_ofIndex hk hq, id_ofIndex, id_ofIndex, hsplit,
    show 29 - k = 30 - (k + 1) by omega]
  push_cast
  ring

/-- Containment on indices: a cell contains exactly the cells of its own or finer levels
whose index, truncated to its level, is its own. -/
theorem contains_ofIndex {l r : Nat} (hl : l ≤ 30) (hr : r < 8 * 4 ^ l) :
    (ofIndex k q).contains (ofIndex l r) = true ↔ k ≤ l ∧ r / 4 ^ (l - k) = q := by
  have hP : 0 < 4 ^ (30 - k) := Nat.pos_pow_of_pos _ (by decide)
  have hmin := mul_four_pow_lt_mul hq hk
  have hmax : (q + 1) * 4 ^ (30 - k) - 1 < 8 * 4 ^ 30 := by
    have := mul_four_pow_le_mul (show q + 1 ≤ 8 * 4 ^ k by omega) hk
    omega
  have h1 : 1 ≤ (q + 1) * 4 ^ (30 - k) := Nat.mul_pos (by omega) hP
  simp only [contains, Bool.and_eq_true, decide_eq_true_eq, le_iff_toNat, rangeMin_ofIndex hk hq,
    rangeMax_ofIndex hk hq, toNat_ofIndex (by decide) hmin, toNat_ofIndex (by decide) hmax,
    toNat_ofIndex hl hr, Nat.sub_self, Nat.pow_zero, Nat.mul_one]
  rw [show 2 * ((q + 1) * 4 ^ (30 - k) - 1) + 1 = 2 * (q + 1) * 4 ^ (30 - k) - 1 by
    rw [Nat.mul_sub, Nat.mul_assoc]; omega, ← Nat.mul_assoc]
  by_cases hkl : k ≤ l
  · have hD : 0 < 4 ^ (l - k) := Nat.pos_pow_of_pos _ (by decide)
    have hsplit : 4 ^ (30 - k) = 4 ^ (l - k) * 4 ^ (30 - l) := by
      rw [← Nat.pow_add]; congr 1; omega
    rw [hsplit, show 2 * q * (4 ^ (l - k) * 4 ^ (30 - l)) = 2 * (q * 4 ^ (l - k)) * 4 ^ (30 - l)
      by ring, show 2 * (q + 1) * (4 ^ (l - k) * 4 ^ (30 - l)) =
      2 * ((q + 1) * 4 ^ (l - k)) * 4 ^ (30 - l) by ring,
      odd_mul_between_iff (Nat.pos_pow_of_pos _ (by decide)), ← Nat.le_div_iff_mul_le hD,
      ← Nat.div_lt_iff_lt_mul hD]
    simp only [hkl, true_and]
    omega
  · simp only [hkl, false_and, iff_false, not_and]
    intro hlo hhi
    have hsplit : 4 ^ (30 - l) = 4 * 4 ^ (k - l - 1) * 4 ^ (30 - k) := by
      rw [← Nat.pow_succ', ← Nat.pow_add]; congr 1; omega
    rw [hsplit, ← Nat.mul_assoc] at hlo hhi
    have h1 := Nat.lt_of_mul_lt_mul_right (show 2 * q * 4 ^ (30 - k) <
      (2 * r + 1) * (4 * 4 ^ (k - l - 1)) * 4 ^ (30 - k) by omega)
    have h2 := Nat.lt_of_mul_lt_mul_right (show (2 * r + 1) * (4 * 4 ^ (k - l - 1)) * 4 ^ (30 - k)
      < 2 * (q + 1) * 4 ^ (30 - k) by omega)
    rw [show (2 * r + 1) * (4 * 4 ^ (k - l - 1)) = 4 * ((2 * r + 1) * 4 ^ (k - l - 1)) by ring]
      at h1 h2
    omega

end Index

theorem begin_eq {l : Nat} (hl : l ≤ 30) : begin l = ofIndex l 0 := by
  rw [begin, show (0 : Int) = ((0 : Nat) : Int) from rfl, fromFace_eq (by decide),
    childBeginAt_ofIndex (by decide) (by decide) (Nat.zero_le l) hl, Nat.zero_mul]

theorem end_eq {l : Nat} (hl : l ≤ 30) : «end» l = ofIndex l (6 * 4 ^ l) := by
  rw [«end», show (5 : Int) = ((5 : Nat) : Int) from rfl, fromFace_eq (by decide),
    childEndAt_ofIndex (by decide) (by decide) (Nat.zero_le l) hl, Nat.sub_zero]

end S2Geo.S2v1.S2CellId
