import S2Geo.V1.Quadtree
import Mathlib.Tactic.IntervalCases

/-!
# Face, position and level of a Primary id

`FromFacePosLevel(face, pos, level)` builds the leaf `(face << kPosBits) + (pos | 1)` and
takes its `parent(level)`; `face()`, `pos()` and `level()` read the three parts back. The
inline code checks none of its arguments: a position of `2^61` or more carries into the face
bits, and a face of 6 or 7 gives an invalid id. `parent(level)` itself reads no level
marker, so it maps any word, valid or not, to a cell. The bit tests `is_leaf()` and
`is_face()` agree with `level()` on every valid id.
-/

namespace S2Geo

/-- Setting the low bit rounds up to the next odd number. -/
theorem or_one_eq (n : Nat) : n ||| 1 = 2 * (n / 2) + 1 := by
  have h := Nat.mul_add_lt_is_or (show 1 < 2 ^ 1 by decide) (n / 2)
  rw [pow_one] at h
  rcases Nat.mod_two_eq_zero_or_one n with h0 | h1
  · conv_lhs => rw [← Nat.div_add_mod n 2, h0, Nat.add_zero]
    exact h.symm
  · conv_lhs => rw [← Nat.div_add_mod n 2, h1, h, Nat.lor_assoc, show (1 : Nat) ||| 1 = 1 from rfl]
    exact h.symm

namespace S2v1.S2CellId

/-- `parent(level)` of any word: the level-`l` cell whose index is the word above the
level's marker bit. -/
theorem parentAt_eq_ofIndex (x : S2CellId) {l : Nat} (hl : l ≤ 30) :
    x.parentAt l = ofIndex l (x.id.toNat / 2 ^ (2 * (30 - l) + 1)) := by
  have hx := x.id.isLt
  have hq : x.id.toNat / 2 ^ (2 * (30 - l) + 1) < 8 * 4 ^ l := by
    rw [Nat.div_lt_iff_lt_mul (Nat.two_pow_pos _), four_pow_eq_two_pow,
      show (8 : Nat) = 2 ^ 3 from rfl, ← Nat.pow_add, ← Nat.pow_add,
      show 3 + 2 * l + (2 * (30 - l) + 1) = 64 by omega]
    exact hx
  have hlsb : 0 < (lsbForLevel l).toNat := by
    rw [toNat_lsbForLevel hl]; exact Nat.pos_pow_of_pos _ (by decide)
  ext1
  apply BitVec.eq_of_toNat_eq
  rw [parentAt, BitVec.toNat_or, BitVec.toNat_and, toNat_not_add_one hlsb,
    toNat_lsbForLevel hl, toNat_ofIndex hl hq, four_pow_eq_two_pow,
    and_sub_two_pow_or_two_pow hx (by omega)]

/-- `contains` of a cell against any word, cell or not: the word lies inside the cell's block
of `2 * 4^(30 - k)` words, past its first one. -/
theorem contains_iff_toNat {k q : Nat} (hk : k ≤ 30) (hq : q < 8 * 4 ^ k) (c : S2CellId) :
    (ofIndex k q).contains c = true ↔
      q * (2 * 4 ^ (30 - k)) < c.id.toNat ∧ c.id.toNat < q * (2 * 4 ^ (30 - k)) + 2 * 4 ^ (30 - k) := by
  have hP : 0 < 4 ^ (30 - k) := Nat.pos_pow_of_pos _ (by decide)
  have hmin := mul_four_pow_lt_mul hq hk
  have hmax : (q + 1) * 4 ^ (30 - k) - 1 < 8 * 4 ^ 30 := by
    have := mul_four_pow_le_mul (show q + 1 ≤ 8 * 4 ^ k by omega) hk
    omega
  simp only [contains, Bool.and_eq_true, decide_eq_true_eq, le_iff_toNat, rangeMin_ofIndex hk hq,
    rangeMax_ofIndex hk hq, toNat_ofIndex (by decide) hmin, toNat_ofIndex (by decide) hmax,
    Nat.sub_self, Nat.pow_zero, Nat.mul_one]
  have hsucc : (q + 1) * 4 ^ (30 - k) = q * 4 ^ (30 - k) + 4 ^ (30 - k) := Nat.succ_mul _ _
  rw [Nat.mul_left_comm q 2]
  omega

/-- A word whose `level()` is above 28 has one of its four low bits set: `countr_zero` is
below 4, and 64 on the zero word. -/
theorem toNat_mod_sixteen_ne_zero {x : S2CellId} (h : (28 : Int) < x.level) :
    x.id.toNat % 16 ≠ 0 := by
  rw [level, countrZero, kMaxLevel, Nat.shiftRight_eq_div_pow] at h
  rcases Nat.eq_zero_or_pos x.id.toNat with h0 | h0
  · rw [h0] at h; exact absurd h (by decide)
  · obtain ⟨a, ha⟩ := exists_odd_mul_two_pow_ctzAux h0 x.id.isLt
    have ht : ctzAux 64 x.id.toNat < 4 := by omega
    generalize ctzAux 64 x.id.toNat = t at ha ht
    rw [ha]
    interval_cases t <;> omega

/-- The leaf `FromFacePosLevel(face, pos, level)` starts from: `(face << kPosBits) + (pos | 1)`. -/
def posLeaf (face : Int) (pos : BitVec 64) : S2CellId :=
  ⟨(BitVec.ofInt 64 face <<< kPosBits) + (pos ||| 1)⟩

theorem fromFacePosLevel_eq_parentAt (face : Int) (pos : BitVec 64) (level : Int) :
    fromFacePosLevel face pos level = (posLeaf face pos).parentAt level := rfl

/-- The leaf is a level-30 id of the curve: its word is odd. -/
theorem posLeaf_eq (face : Int) (pos : BitVec 64) :
    posLeaf face pos = ofIndex 30 ((posLeaf face pos).id.toNat / 2) := by
  have hodd : (posLeaf face pos).id.toNat % 2 = 1 := by
    have hA : (BitVec.ofInt 64 face <<< kPosBits).toNat % 2 = 0 := by
      rw [BitVec.toNat_shiftLeft, Nat.shiftLeft_eq, kPosBits, kMaxLevel]; omega
    have hB : (pos ||| 1).toNat % 2 = 1 := by
      rw [BitVec.toNat_or, Nat.or_mod_two_eq_one]; exact .inr rfl
    rw [posLeaf, BitVec.toNat_add]; omega
  have hlt := (posLeaf face pos).id.isLt
  ext1
  apply BitVec.eq_of_toNat_eq
  rw [toNat_ofIndex (le_refl 30) (by omega)]
  omega

/-- The leaf's face: the face modulo 8, plus what the position carries past bit 61. -/
theorem face_posLeaf (face : Int) (pos : BitVec 64) :
    (posLeaf face pos).face = (((face % 8).toNat + pos.toNat / 2 ^ 61) % 8 : Nat) := by
  have h64 : (2 : Nat) ^ 64 = 2 ^ 61 * 8 := rfl
  have hF : (BitVec.ofInt 64 face <<< kPosBits).toNat = 2 ^ 61 * (face % 8).toNat := by
    rw [BitVec.toNat_shiftLeft, BitVec.toNat_ofInt, Nat.shiftLeft_eq, h64, Nat.mul_comm,
      show kPosBits = 61 from rfl, Nat.mul_mod_mul_left]
    congr 1; omega
  have hB : (pos ||| 1).toNat / 2 ^ 61 = pos.toNat / 2 ^ 61 := by
    rw [BitVec.toNat_or, show (1 : BitVec 64).toNat = 1 from rfl, or_one_eq]; omega
  rw [S2CellId.face, posLeaf, BitVec.toNat_ushiftRight, BitVec.toNat_add, hF,
    Nat.shiftRight_eq_div_pow, show kPosBits = 61 from rfl, h64, Nat.mod_mul_right_div_self,
    Nat.mul_add_div (Nat.two_pow_pos 61), hB]

/-- What `FromFacePosLevel(face, pos, level)` returns at a level `L ≤ 30`: the level-`L`
ancestor of the leaf `(face << kPosBits) + (pos | 1)`, on the leaf's face, containing the
leaf, and valid exactly when that face is below 6. -/
structure PosLevelLaws (face : Int) (pos : BitVec 64) (L : Nat) : Prop where
  level_eq : (fromFacePosLevel face pos L).level = L
  face_eq : (fromFacePosLevel face pos L).face = (((face % 8).toNat + pos.toNat / 2 ^ 61) % 8 : Nat)
  isValid_iff : (fromFacePosLevel face pos L).isValid = true ↔ (posLeaf face pos).face < 6
  contains_leaf : (fromFacePosLevel face pos L).contains (posLeaf face pos) = true

/-- The ancestor as an index: `q / 4^(30 - L)` for the leaf `ofIndex 30 q`. -/
theorem fromFacePosLevel_eq_ofIndex (face : Int) (pos : BitVec 64) {L : Nat} (hL : L ≤ 30) :
    ∃ q, q < 8 * 4 ^ 30 ∧ posLeaf face pos = ofIndex 30 q ∧ q / 4 ^ (30 - L) < 8 * 4 ^ L ∧
      fromFacePosLevel face pos L = ofIndex L (q / 4 ^ (30 - L)) := by
  have h63 : (8 * 4 ^ 30 : Nat) = 2 ^ 63 := rfl
  obtain ⟨q, hq, hleaf⟩ : ∃ q, q < 8 * 4 ^ 30 ∧ posLeaf face pos = ofIndex 30 q :=
    ⟨_, by have := (posLeaf face pos).id.isLt; omega, posLeaf_eq face pos⟩
  have hidx := div_four_pow_lt_mul hq (show 30 - L ≤ 30 by omega)
  rw [Nat.sub_sub_self hL] at hidx
  exact ⟨q, hq, hleaf, hidx, by
    rw [fromFacePosLevel_eq_parentAt, hleaf, parentAt_ofIndex (le_refl 30) hq hL]⟩

theorem level_isValid_fromFacePosLevel (face : Int) (pos : BitVec 64) {L : Nat} (hL : L ≤ 30) :
    (fromFacePosLevel face pos L).level = L ∧
      ((fromFacePosLevel face pos L).isValid = true ↔ (posLeaf face pos).face < 6) := by
  obtain ⟨q, hq, hleaf, hidx, hres⟩ := fromFacePosLevel_eq_ofIndex face pos hL
  have h30 : 4 ^ 30 = 4 ^ (30 - L) * 4 ^ L := by rw [← Nat.pow_add, Nat.sub_add_cancel hL]
  rw [hres, hleaf, level_ofIndex hL hidx, isValid_ofIndex hL hidx, face_ofIndex (le_refl 30) hq,
    decide_eq_true_iff, Nat.div_lt_iff_lt_mul (Nat.pos_pow_of_pos _ (by decide)), Nat.mul_assoc,
    Nat.mul_comm (4 ^ L), ← h30, show (6 : Int) = ((6 : Nat) : Int) from rfl, Int.ofNat_lt,
    Nat.div_lt_iff_lt_mul (Nat.pos_pow_of_pos _ (by decide))]
  exact ⟨rfl, Iff.rfl⟩

theorem posLevelLaws (face : Int) (pos : BitVec 64) {L : Nat} (hL : L ≤ 30) :
    PosLevelLaws face pos L := by
  obtain ⟨q, hq, hleaf, hidx, hres⟩ := fromFacePosLevel_eq_ofIndex face pos hL
  have h30 : 4 ^ 30 = 4 ^ (30 - L) * 4 ^ L := by rw [← Nat.pow_add, Nat.sub_add_cancel hL]
  have hface : (fromFacePosLevel face pos L).face = (posLeaf face pos).face := by
    rw [hres, hleaf, face_ofIndex hL hidx, face_ofIndex (le_refl 30) hq, Nat.div_div_eq_div_mul,
      ← h30]
  obtain ⟨hlev, hvalid⟩ := level_isValid_fromFacePosLevel face pos hL
  refine ⟨hlev, hface.trans (face_posLeaf face pos), hvalid, ?_⟩
  rw [hres, hleaf, contains_ofIndex hL hidx (le_refl 30) hq]
  exact ⟨hL, rfl⟩

theorem posLevelLaws_past_face_five :
    (1 : Nat) ≤ 30 ∧ PosLevelLaws 5 0x2000000000000000 1 :=
  ⟨by decide, posLevelLaws 5 0x2000000000000000 (by decide)⟩

/-- `FromFacePosLevel` inverts `face()`, `pos()` and `level()` on every cell. -/
theorem fromFacePosLevel_ofIndex {k q : Nat} (hk : k ≤ 30) (hq : q < 6 * 4 ^ k) :
    fromFacePosLevel (ofIndex k q).face (ofIndex k q).pos (ofIndex k q).level = ofIndex k q := by
  have hid := toNat_ofIndex hk (show q < 8 * 4 ^ k by omega)
  have hlt := (ofIndex k q).id.isLt
  have hF : (BitVec.ofInt 64 (ofIndex k q).face <<< kPosBits).toNat =
      (ofIndex k q).id.toNat / 2 ^ 61 * 2 ^ 61 := by
    rw [BitVec.toNat_shiftLeft, BitVec.toNat_ofInt, Nat.shiftLeft_eq, face,
      BitVec.toNat_ushiftRight, Nat.shiftRight_eq_div_pow, kPosBits, kMaxLevel]
    omega
  have hpos : ((ofIndex k q).pos ||| 1).toNat = 2 * ((ofIndex k q).id.toNat % 2 ^ 61 / 2) + 1 := by
    rw [BitVec.toNat_or, pos, BitVec.toNat_and,
      show (~~~(0 : BitVec 64) >>> kFaceBits).toNat = 2 ^ 61 - 1 from rfl,
      Nat.and_pow_two_sub_one_eq_mod, show (1 : BitVec 64).toNat = 1 from rfl, or_one_eq]
  have hleaf : (posLeaf (ofIndex k q).face (ofIndex k q).pos).id.toNat / 2 =
      (ofIndex k q).id.toNat / 2 := by
    rw [posLeaf, BitVec.toNat_add, hF, hpos]
    omega
  have hP : 0 < 4 ^ (30 - k) := Nat.pos_pow_of_pos _ (by decide)
  rw [level_ofIndex hk (by omega), fromFacePosLevel_eq_parentAt, posLeaf_eq, hleaf,
    parentAt_ofIndex (le_refl 30) (by omega) hk, hid, Nat.div_div_eq_div_mul,
    Nat.mul_div_mul_right _ _ hP, show (2 * q + 1) / 2 = q by omega]

theorem fromFacePosLevel_face_pos_level {x : S2CellId} (h : x.isValid = true) :
    fromFacePosLevel x.face x.pos x.level = x := by
  obtain ⟨k, q, hk, hq, rfl⟩ := exists_ofIndex_of_isValid h
  exact fromFacePosLevel_ofIndex hk hq

theorem fromFacePosLevel_face_pos_level_face_three :
    (⟨0x6400000000000000⟩ : S2CellId).isValid = true ∧
      fromFacePosLevel (⟨0x6400000000000000⟩ : S2CellId).face (⟨0x6400000000000000⟩ : S2CellId).pos
        (⟨0x6400000000000000⟩ : S2CellId).level = ⟨0x6400000000000000⟩ :=
  ⟨by decide, fromFacePosLevel_face_pos_level (by decide)⟩

/-- `is_leaf()` tests bit 0 and `is_face()` the 60 bits below the face; on a valid id they
say the same as `level()`. -/
theorem isLeaf_isFace_iff_level {x : S2CellId} (h : x.isValid = true) :
    (x.isLeaf = true ↔ x.level = 30) ∧ (x.isFace = true ↔ x.level = 0) := by
  obtain ⟨k, q, hk, hq, rfl⟩ := exists_ofIndex_of_isValid h
  have hid := toNat_ofIndex hk (show q < 8 * 4 ^ k by omega)
  have h60 : 2 ^ 60 = 4 ^ (30 - k) * 4 ^ k := by
    rw [← Nat.pow_add, Nat.sub_add_cancel hk]; rfl
  have hodd : ∀ j, (2 * q + 1) % 4 ^ j = 0 ↔ j = 0 := fun j => by
    rcases Nat.eq_zero_or_pos j with rfl | hj
    · simp [Nat.mod_one]
    · have h2 := Nat.mod_mod_of_dvd (2 * q + 1)
        (dvd_pow (show 2 ∣ 4 by decide) (Nat.pos_iff_ne_zero.mp hj))
      omega
  rw [level_ofIndex hk (by omega), isLeaf, isFace, bne_iff_ne, ne_eq, beq_iff_eq,
    BitVec.toNat_eq, BitVec.toNat_eq, BitVec.toNat_and, BitVec.toNat_and, hid,
    show BitVec.toNat (1 : BitVec 64) = 1 from rfl, show BitVec.toNat (0 : BitVec 64) = 0 from rfl,
    Nat.and_one_is_mod, show (lsbForLevel 0 - 1).toNat = 2 ^ 60 - 1 from rfl,
    Nat.and_pow_two_sub_one_eq_mod]
  constructor
  · rcases Nat.eq_zero_or_pos (30 - k) with h0 | hpos
    · rw [h0]; omega
    · have := Nat.mod_eq_zero_of_dvd ((dvd_pow (show 2 ∣ 4 by decide)
        (Nat.pos_iff_ne_zero.mp hpos)).mul_left (2 * q + 1))
      omega
  · rw [h60, Nat.mul_comm (2 * q + 1), Nat.mul_mod_mul_left, Nat.mul_eq_zero, hodd k]
    have hP : 0 < 4 ^ (30 - k) := Nat.pos_pow_of_pos _ (by decide)
    omega

theorem isLeaf_isFace_iff_level_face_three :
    (⟨0x6400000000000000⟩ : S2CellId).isValid = true ∧
      (((⟨0x6400000000000000⟩ : S2CellId).isLeaf = true ↔
          (⟨0x6400000000000000⟩ : S2CellId).level = 30) ∧
        ((⟨0x6400000000000000⟩ : S2CellId).isFace = true ↔
          (⟨0x6400000000000000⟩ : S2CellId).level = 0)) :=
  ⟨by decide, isLeaf_isFace_iff_level (by decide)⟩

end S2v1.S2CellId

end S2Geo
