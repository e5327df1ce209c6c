import Mathlib.Data.Nat.Bitwise

/-!
# Bit-level facts behind the two cell id encodings

`absl::countr_zero`, from which the Primary id reads its level, and the arithmetic of
the masks both encodings build: the lowest set bit of `(2q + 1) * 2^t`, the
`(x & ~(2^t - 1)) | 2^t` step that moves a marker bit, and the test for path bits
above a level. Everything is stated on `Nat`, below a power of two.
-/

namespace S2Geo

theorem four_pow_eq_two_pow (m : Nat) : 4 ^ m = 2 ^ (2 * m) := by
  rw [Nat.pow_mul]

/-- `absl::countr_zero`, scanning at most `n` low bits: the number of trailing zero
bits, and `n` when they are all zero. -/
def ctzAux : Nat → Nat → Nat
  | 0, _ => 0
  | n + 1, x => if x % 2 = 1 then 0 else ctzAux n (x / 2) + 1

/-- `absl::countr_zero` on a 64-bit word; it is 64 on zero. -/
def countrZero (x : BitVec 64) : Nat := ctzAux 64 x.toNat

theorem ctzAux_odd_mul_two_pow (q : Nat) {n t : Nat} (h : t ≤ n) :
    ctzAux n ((2 * q + 1) * 2 ^ t) = t := by
  induction t generalizing n with
  | zero =>
    cases n with
    | zero => rfl
    | succ n => simp [ctzAux, Nat.add_mod]
  | succ t ih =>
    obtain ⟨n, rfl⟩ : ∃ m, n = m + 1 := ⟨n - 1, by omega⟩
    have hdiv : (2 * q + 1) * 2 ^ (t + 1) / 2 = (2 * q + 1) * 2 ^ t := by
      rw [Nat.pow_succ, ← Nat.mul_assoc, Nat.mul_div_cancel _ (by decide)]
    have hmod : (2 * q + 1) * 2 ^ (t + 1) % 2 = 0 := by
      rw [Nat.pow_succ, ← Nat.mul_assoc]; exact Nat.mul_mod_left _ _
    simp only [ctzAux, hmod, hdiv, ih (Nat.le_of_succ_le_succ h)]
    rfl

theorem exists_odd_mul_two_pow_ctzAux {n x : Nat} (h0 : 0 < x) (hx : x < 2 ^ n) :
    ∃ q, x = (2 * q + 1) * 2 ^ ctzAux n x := by
  induction n generalizing x with
  | zero => omega
  | succ n ih =>
    by_cases hodd : x % 2 = 1
    · exact ⟨x / 2, by simp only [ctzAux, hodd, if_true, Nat.pow_zero]; omega⟩
    · obtain ⟨q, hq⟩ := ih (x := x / 2) (by omega) (by rw [Nat.pow_succ] at hx; omega)
      refine ⟨q, ?_⟩
      simp only [ctzAux, hodd, if_false, Nat.pow_succ, ← Nat.mul_assoc, ← hq]
      omega

/-- The bits of `(2a + 1) * 2^t`: zero below `t`, one at `t`, then the bits of `a`. -/
theorem testBit_odd_mul_two_pow (a t i : Nat) :
    ((2 * a + 1) * 2 ^ t).testBit i =
      (decide (t = i) || (decide (t < i) && a.testBit (i - (t + 1)))) := by
  rw [Nat.mul_comm, Nat.testBit_mul_pow_two]
  rcases Nat.lt_trichotomy i t with hi | rfl | hi
  · simp [show ¬ t ≤ i by omega, show t ≠ i by omega, show ¬ t < i by omega]
  · simp [Nat.add_mod]
  · obtain ⟨j, hj⟩ : ∃ j, i - t = j + 1 := ⟨i - t - 1, by omega⟩
    have hdiv : (2 * a + 1) / 2 = a := by omega
    simp [show t ≤ i by omega, show t ≠ i by omega, hi, hj, Nat.testBit_succ, hdiv,
      show i - (t + 1) = j by omega]

/-- Two's-complement negation keeps exactly the lowest set bit in common. -/
theorem odd_mul_two_pow_and_neg {n t q : Nat} (h : (2 * q + 1) * 2 ^ t < 2 ^ n) :
    ((2 * q + 1) * 2 ^ t) &&& (2 ^ n - (2 * q + 1) * 2 ^ t) = 2 ^ t := by
  have ht : t < n := by
    by_contra hc
    have : 2 ^ n ≤ 2 ^ t := Nat.pow_le_pow_right (by decide) (by omega)
    have : 2 ^ t ≤ (2 * q + 1) * 2 ^ t := Nat.le_mul_of_pos_left _ (by omega)
    omega
  have hsplit : 2 ^ n = 2 ^ (n - (t + 1)) * 2 * 2 ^ t := by
    rw [Nat.mul_assoc, ← Nat.pow_succ', ← Nat.pow_add]; congr 1; omega
  have hq : q < 2 ^ (n - (t + 1)) := by
    rw [hsplit] at h
    have := Nat.lt_of_mul_lt_mul_right h
    omega
  have hneg : 2 ^ n - (2 * q + 1) * 2 ^ t =
      (2 * (2 ^ (n - (t + 1)) - (q + 1)) + 1) * 2 ^ t := by
    rw [hsplit, ← Nat.sub_mul]; congr 1; omega
  rw [hneg]
  apply Nat.eq_of_testBit_eq
  intro i
  simp only [Nat.testBit_and, testBit_odd_mul_two_pow, Nat.testBit_two_pow_sub_succ hq,
    Nat.testBit_two_pow]
  by_cases hti : t = i
  · simp [hti]
  · cases Nat.testBit q (i - (t + 1)) <;> simp [hti]

/-- Clearing the bits below `2^t` and setting bit `t`: the marker-moving step of
`parent`. -/
theorem and_sub_two_pow_or_two_pow {n t x : Nat} (hx : x < 2 ^ n) (ht : t < n) :
    (x &&& (2 ^ n - 2 ^ t)) ||| 2 ^ t = (2 * (x / 2 ^ (t + 1)) + 1) * 2 ^ t := by
  have hmask : 2 ^ n - 2 ^ t = 2 ^ t * (2 ^ (n - t) - 1) := by
    rw [Nat.mul_sub, ← Nat.pow_add, Nat.mul_one, Nat.add_sub_cancel' (by omega)]
  apply Nat.eq_of_testBit_eq
  intro i
  rw [hmask, testBit_odd_mul_two_pow, ← Nat.shiftRight_eq_div_pow, Nat.testBit_shiftRight]
  simp only [Nat.testBit_or, Nat.testBit_and, Nat.testBit_mul_pow_two,
    Nat.testBit_two_pow_sub_one, Nat.testBit_two_pow]
  by_cases hti : t = i
  · simp [hti]
  by_cases hin : i < n
  · by_cases hlt : t < i
    · simp [hti, hlt, show t ≤ i by omega, show i - t < n - t by omega,
        show t + 1 + (i - (t + 1)) = i by omega]
    · simp [hti, hlt, show ¬ t ≤ i by omega]
  · have hbit : x.testBit i = false :=
      Nat.testBit_lt_two_pow (Nat.lt_of_lt_of_le hx (Nat.pow_le_pow_right (by decide) (by omega)))
    simp [hti, hbit, show t + 1 + (i - (t + 1)) = i by omega]

/-- The path-field test `path & ~(2^t - 1) == 0` holds exactly below `2^t`. -/
theorem and_sub_two_pow_eq_zero_iff {n t x : Nat} (hx : x < 2 ^ n) (ht : t ≤ n) :
    x &&& (2 ^ n - 2 ^ t) = 0 ↔ x < 2 ^ t := by
  have hmask : 2 ^ n - 2 ^ t = 2 ^ t * (2 ^ (n - t) - 1) := by
    rw [Nat.mul_sub, ← Nat.pow_add, Nat.mul_one, Nat.add_sub_cancel' ht]
  have hbit : ∀ i, (x &&& (2 ^ n - 2 ^ t)).testBit i = (x.testBit i && decide (t ≤ i)) := by
    intro i
    rw [hmask, Nat.testBit_and, Nat.testBit_mul_pow_two, Nat.testBit_two_pow_sub_one]
    by_cases hin : i < n
    · by_cases hti : t ≤ i
      · simp [hti, show i - t < n - t by omega]
      · simp [hti]
    · simp [Nat.testBit_lt_two_pow (Nat.lt_of_lt_of_le hx
        (Nat.pow_le_pow_right (by decide) (Nat.le_of_not_lt hin)))]
  constructor
  · intro h
    refine Nat.lt_pow_two_of_testBit x fun i hi => ?_
    have := hbit i
    rw [h, Nat.zero_testBit] at this
    simpa [hi] using this.symm
  · intro h
    apply Nat.eq_of_testBit_eq
    intro i
    rw [hbit, Nat.zero_testBit]
    by_cases hi : t ≤ i
    · simp [Nat.testBit_lt_two_pow (Nat.lt_of_lt_of_le h (Nat.pow_le_pow_right (by decide) hi))]
    · simp [hi]

/-- The even bit positions `0x1555555555555555` that `is_valid` accepts for the
marker bit: the levels `0..30`. -/
theorem two_pow_and_levelMask_ne_zero {t : Nat} (ht : t < 64) :
    2 ^ t &&& 0x1555555555555555 ≠ 0 ↔ t % 2 = 0 ∧ t ≤ 60 := by
  revert t; decide

/-- Two's-complement negation of a nonzero word, on `Nat`. -/
theorem toNat_not_add_one {w : Nat} {x : BitVec w} (h : 0 < x.toNat) :
    (~~~x + 1).toNat = 2 ^ w - x.toNat := by
  rw [show (1 : BitVec w) = 1#w from rfl, ← BitVec.neg_eq_not_add, BitVec.toNat_neg,
    Nat.mod_eq_of_lt (by omega)]

/-- The quotient by `P` is `I` exactly on the block `[I * P, I * P + P)`. -/
theorem div_eq_iff_mul_le {m P I : Nat} (hP : 0 < P) : m / P = I ↔ I * P ≤ m ∧ m < I * P + P := by
  constructor
  · rintro rfl; exact ⟨Nat.div_mul_le_self m P, Nat.lt_div_mul_add hP⟩
  · rintro ⟨h1, h2⟩; exact Nat.div_eq_of_lt_le h1 (by rw [Nat.succ_mul]; exact h2)

end S2Geo
