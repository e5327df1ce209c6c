import S2Geo.V1.CellId
import Mathlib.Data.BitVec
import Mathlib.Tactic.Ring

/-!
# The quadtree behind the Primary id

A level-`k` cell is its index `q` along the level-`k` curve over all six faces, and
its id is `(2q + 1) * 4^(kMaxLevel - k)`: the index above the marker bit. Every valid
id has this form (`isValid_iff`), and the navigation methods act on indices as the
quadtree does: `parent` divides by 4, `child p` appends the digit `p`, and
`childPositionAt l` reads the `l`-th digit of the face position.
-/

namespace S2Geo

/-- A cell of the subdivision: the face is `index / 4^level`, the Hilbert position
within it `index % 4^level`. -/
structure Cell where
  level : Nat
  index : Nat
  level_le : level ≤ 30
  index_lt : index < 6 * 4 ^ level
  deriving DecidableEq, Repr

namespace S2v1.S2CellId

/-- The id at index `q` of the level-`k` curve; faces 6 and 7 (`q ≥ 6 * 4^k`) are the
past-the-end values of `End` and `child_end`. -/
def ofIndex (k q : Nat) : S2CellId := ⟨BitVec.ofNat 64 ((2 * q + 1) * 4 ^ (kMaxLevel - k))⟩

/-- The id as a ring element of `BitVec 64`: the navigation methods that add and subtract
are ring identities there, with no overflow case to split. -/
theorem id_ofIndex (k q : Nat) :
    (ofIndex k q).id = (((2 * q + 1) * 4 ^ (30 - k) : Nat) : BitVec 64) := rfl

theorem four_pow_mul_four_pow {k : Nat} (hk : k ≤ 30) : 4 ^ k * 4 ^ (30 - k) = 2 ^ 60 := by
  rw [← Nat.pow_add, Nat.add_sub_cancel' hk]; rfl

theorem index_succ_bound {k q : Nat} (hk : k ≤ 30) (hq : q < 8 * 4 ^ k) :
    (2 * q + 2) * 4 ^ (30 - k) ≤ 2 ^ 64 := by
  have h := four_pow_mul_four_pow hk
  have : (2 * q + 2) * 4 ^ (30 - k) ≤ (16 * 4 ^ k) * 4 ^ (30 - k) :=
    Nat.mul_le_mul_right _ (by omega)
  rw [Nat.mul_assoc, h] at this
  omega

theorem index_bound {k q : Nat} (hk : k ≤ 30) (hq : q < 8 * 4 ^ k) :
    (2 * q + 1) * 4 ^ (30 - k) < 2 ^ 64 := by
  have := index_succ_bound hk hq
  have : 0 < 4 ^ (30 - k) := Nat.pos_pow_of_pos _ (by decide)
  rw [Nat.add_mul] at *
  omega

/-- Descendants `l - k` levels down: index `q` of level `k` spreads over `4^(l-k)` indices. -/
theorem mul_four_pow_le_mul {c k l q : Nat} (hq : q ≤ c * 4 ^ k) (hl : k ≤ l) :
    q * 4 ^ (l - k) ≤ c * 4 ^ l := by
  calc q * 4 ^ (l - k) ≤ c * 4 ^ k * 4 ^ (l - k) := Nat.mul_le_mul_right _ hq
    _ = c * 4 ^ l := by rw [Nat.mul_assoc, ← Nat.pow_add, Nat.add_sub_cancel' hl]

theorem mul_four_pow_lt_mul {c k l q : Nat} (hq : q < c * 4 ^ k) (hl : k ≤ l) :
    q * 4 ^ (l - k) < c * 4 ^ l := by
  have h := mul_four_pow_le_mul (Nat.succ_le_of_lt hq) hl
  have : 0 < 4 ^ (l - k) := Nat.pos_pow_of_pos _ (by decide)
  rw [Nat.succ_mul] at h
  omega

/-- Dropping the marker bit and `j` more digit pairs divides the index by `4^j`. -/
theorem odd_mul_two_pow_div (q s j : Nat) :
    (2 * q + 1) * 2 ^ s / 2 ^ (s + 1 + 2 * j) = q / 4 ^ j := by
  rw [Nat.pow_add, Nat.pow_succ, ← four_pow_eq_two_pow, Nat.mul_assoc, Nat.mul_comm _ (2 ^ s),
    Nat.mul_div_mul_left _ _ (Nat.two_pow_pos s), ← Nat.div_div_eq_div_mul]
  congr 1; omega

theorem toNat_lsbForLevel {l : Nat} (hl : l ≤ 30) :
    (lsbForLevel l).toNat = 4 ^ (30 - l) := by
  have hs : (2 * ((30 : Nat) - (l : Int))).toNat = 2 * (30 - l) := by omega
  have hlt : 2 ^ (2 * (30 - l)) < 2 ^ 64 := Nat.pow_lt_pow_right (by decide) (by omega)
  rw [lsbForLevel, BitVec.toNat_shiftLeft, kMaxLevel, hs, show (1 : BitVec 64).toNat = 1 from rfl,
    Nat.shiftLeft_eq, Nat.one_mul, Nat.mod_eq_of_lt hlt, four_pow_eq_two_pow]

theorem lsbForLevel_eq {l : Nat} (hl : l ≤ 30) :
    lsbForLevel l = ((4 ^ (30 - l) : Nat) : BitVec 64) := by
  apply BitVec.eq_of_toNat_eq
  rw [toNat_lsbForLevel hl, BitVec.natCast_eq_ofNat, BitVec.toNat_ofNat, Nat.mod_eq_of_lt]
  rw [four_pow_eq_two_pow]; exact Nat.pow_lt_pow_right (by decide) (by omega)

/-- The lowest set bit of an id `(2a + 1) * 2^t` is `2^t`. -/
theorem toNat_lsb_of_eq {x : S2CellId} {a t : Nat} (h : x.id.toNat = (2 * a + 1) * 2 ^ t) :
    x.lsb.toNat = 2 ^ t := by
  have hpos : 0 < x.id.toNat := by rw [h]; exact Nat.mul_pos (by omega) (Nat.two_pow_pos _)
  rw [lsb, BitVec.toNat_and, toNat_not_add_one hpos, h]
  exact odd_mul_two_pow_and_neg (h ▸ x.id.isLt)

section Index

variable {k q : Nat} (hk : k ≤ 30) (hq : q < 8 * 4 ^ k)
include hk hq

theorem toNat_ofIndex : (ofIndex k q).id.toNat = (2 * q + 1) * 4 ^ (30 - k) := by
  rw [ofIndex, kMaxLevel, BitVec.toNat_ofNat, Nat.mod_eq_of_lt (index_bound hk hq)]

theorem toNat_lsb_ofIndex : (ofIndex k q).lsb.toNat = 4 ^ (30 - k) := by
  have h := toNat_ofIndex hk hq
  rw [four_pow_eq_two_pow] at h ⊢
  exact toNat_lsb_of_eq h

theorem lsb_ofIndex : (ofIndex k q).lsb = ((4 ^ (30 - k) : Nat) : BitVec 64) := by
  apply BitVec.eq_of_toNat_eq
  rw [toNat_lsb_ofIndex hk hq, BitVec.natCast_eq_ofNat, BitVec.toNat_ofNat, Nat.mod_eq_of_lt]
  rw [four_pow_eq_two_pow]; exact Nat.pow_lt_pow_right (by decide) (by omega)

theorem level_ofIndex : (ofIndex k q).level = k := by
  have h := toNat_ofIndex hk hq
  rw [four_pow_eq_two_pow] at h
  rw [level, countrZero, h, ctzAux_odd_mul_two_pow q (by omega), Nat.shiftRight_one,
    kMaxLevel]
  omega

theorem face_ofIndex : (ofIndex k q).face = ((q / 4 ^ k : Nat) : Int) := by
  rw [face, BitVec.toNat_ushiftRight, toNat_ofIndex hk hq, Nat.shiftRight_eq_div_pow]
  congr 1
  have h61 : 2 ^ kPosBits = (2 * 4 ^ k) * 4 ^ (30 - k) := by
    rw [Nat.mul_assoc, four_pow_mul_four_pow hk]; rfl
  rw [h61, Nat.mul_div_mul_right _ _ (Nat.pos_pow_of_pos _ (by decide)),
    ← Nat.div_div_eq_div_mul]
  congr 1; omega

theorem isValid_ofIndex : (ofIndex k q).isValid = decide (q < 6 * 4 ^ k) := by
  have hmask : (ofIndex k q).lsb &&& 0x1555555555555555 ≠ 0 := by
    intro h0
    have h := congrArg BitVec.toNat h0
    rw [BitVec.toNat_and, toNat_lsb_ofIndex hk hq, four_pow_eq_two_pow] at h
    exact (two_pow_and_levelMask_ne_zero (by omega)).2 ⟨by omega, by omega⟩ h
  rw [isValid, bne_iff_ne.2 hmask, Bool.and_true, face_ofIndex hk hq, decide_eq_decide]
  exact Int.ofNat_lt.trans (Nat.div_lt_iff_lt_mul (Nat.pos_pow_of_pos _ (by decide)))

theorem parentAt_ofIndex {l : Nat} (hl : l ≤ k) :
    (ofIndex k q).parentAt l = ofIndex l (q / 4 ^ (k - l)) := by
  have hq' : q / 4 ^ (k - l) < 8 * 4 ^ l := by
    rw [Nat.div_lt_iff_lt_mul (Nat.pos_pow_of_pos _ (by decide)), Nat.mul_assoc, ← Nat.pow_add,
      Nat.add_sub_cancel' hl]
    exact hq
  have hlsb : 0 < (lsbForLevel l).toNat := by
    rw [toNat_lsbForLevel (by omega)]; exact Nat.pos_pow_of_pos _ (by decide)
  have hb := index_bound hk hq
  rw [four_pow_eq_two_pow] at hb
  have hdiv := odd_mul_two_pow_div q (2 * (30 - k)) (k - l)
  rw [show 2 * (30 - k) + 1 + 2 * (k - l) = 2 * (30 - l) + 1 by omega] at hdiv
  ext1
  apply BitVec.eq_of_toNat_eq
  rw [parentAt, BitVec.toNat_or, BitVec.toNat_and, toNat_not_add_one hlsb,
    toNat_lsbForLevel (by omega), toNat_ofIndex hk hq, toNat_ofIndex (by omega) hq',
    four_pow_eq_two_pow, four_pow_eq_two_pow, and_sub_two_pow_or_two_pow hb (by omega), hdiv]

theorem parent_eq_parentAt (hk1 : 1 ≤ k) :
    (ofIndex k q).parent = (ofIndex k q).parentAt (k - 1 : Nat) := by
  have hlsb : (ofIndex k q).lsb <<< 2 = lsbForLevel (k - 1 : Nat) := by
    apply BitVec.eq_of_toNat_eq
    have hlt : 4 ^ (30 - k) * 2 ^ 2 < 2 ^ 64 := by
      rw [four_pow_eq_two_pow, ← Nat.pow_add]; exact Nat.pow_lt_pow_right (by decide) (by omega)
    rw [BitVec.toNat_shiftLeft, toNat_lsb_ofIndex hk hq, toNat_lsbForLevel (by omega),
      Nat.shiftLeft_eq, Nat.mod_eq_of_lt hlt, show 30 - (k - 1) = 30 - k + 1 by omega,
      pow_succ 4 (30 - k)]
    rfl
  simp only [parent, parentAt, hlsb]

theorem parent_ofIndex (hk1 : 1 ≤ k) : (ofIndex k q).parent = ofIndex (k - 1) (q / 4) := by
  rw [parent_eq_parentAt hk hq hk1, parentAt_ofIndex hk hq (by omega),
    show k - (k - 1) = 1 by omega, Nat.pow_one]

theorem childPositionAt_ofIndex {l : Nat} (hl1 : 1 ≤ l) (hl : l ≤ k) :
    (ofIndex k q).childPositionAt l = ((q / 4 ^ (k - l) % 4 : Nat) : Int) := by
  have hdiv := odd_mul_two_pow_div q (2 * (30 - k)) (k - l)
  rw [show 2 * (30 - k) + 1 + 2 * (k - l) = 2 * (30 - l) + 1 by omega] at hdiv
  rw [childPositionAt, kMaxLevel, show (2 * ((30 : Nat) - (l : Int)) + 1).toNat = 2 * (30 - l) + 1
    by omega, BitVec.toNat_and, BitVec.toNat_ushiftRight, toNat_ofIndex hk hq,
    four_pow_eq_two_pow, Nat.shiftRight_eq_div_pow, hdiv, show (3 : BitVec 64).toNat = 2 ^ 2 - 1
    from rfl, Nat.and_pow_two_sub_one_eq_mod]

theorem childPosition_ofIndex (hk1 : 1 ≤ k) :
    (ofIndex k q).childPosition = ((q % 4 : Nat) : Int) := by
  rw [childPosition, level_ofIndex hk hq, childPositionAt_ofIndex hk hq hk1 le_rfl, Nat.sub_self,
    Nat.pow_zero, Nat.div_one]

theorem lsb_shiftRight_two_ofIndex (hk30 : k < 30) :
    (ofIndex k q).lsb >>> 2 = ((4 ^ (29 - k) : Nat) : BitVec 64) := by
  have hL : 4 ^ (30 - k) = 4 ^ (29 - k) * 4 := by
    rw [show 30 - k = 29 - k + 1 by omega, Nat.pow_succ]
  apply BitVec.eq_of_toNat_eq
  rw [BitVec.toNat_ushiftRight, toNat_lsb_ofIndex hk hq, Nat.shiftRight_eq_div_pow, hL,
    Nat.mul_div_cancel _ (by decide), BitVec.natCast_eq_ofNat, BitVec.toNat_ofNat,
    Nat.mod_eq_of_lt (by rw [four_pow_eq_two_pow]; exact Nat.pow_lt_pow_right (by decide) (by omega))]

theorem child_ofIndex (hk30 : k < 30) (p : Nat) :
    (ofIndex k q).child p = ofIndex (k + 1) (4 * q + p) := by
  have hL : 4 ^ (30 - k) = 4 * 4 ^ (29 - k) := by
    rw [show 30 - k = 29 - k + 1 by omega, Nat.pow_succ, Nat.mul_comm]
  ext1
  rw [child, lsb_shiftRight_two_ofIndex hk hq hk30, id_ofIndex, id_ofIndex, hL,
    show 30 - (k + 1) = 29 - k by omega]
  show _ + ((2 * (p : Int) + 1 - 4 : Int) : BitVec 64) * _ = _
  push_cast
  ring

end Index

theorem fromFace_eq {f : Nat} (hf : f < 8) : fromFace f = ofIndex 0 f := by
  ext1
  apply BitVec.eq_of_toNat_eq
  rw [fromFace, BitVec.toNat_add, BitVec.toNat_shiftLeft, BitVec.toNat_ofInt,
    show lsbForLevel 0 = lsbForLevel ((0 : Nat) : Int) from rfl, toNat_lsbForLevel (by decide), toNat_ofIndex (by decide) (by simpa using hf), kPosBits,
    kMaxLevel, Nat.shiftLeft_eq]
  have hf' : ((f : Int) % ((2 ^ 64 : Nat) : Int)).toNat = f := by omega
  rw [hf']
  omega

theorem exists_ofIndex_of_isValid {x : S2CellId} (h : x.isValid = true) :
    ∃ k q, k ≤ 30 ∧ q < 6 * 4 ^ k ∧ x = ofIndex k q := by
  have hlt := x.id.isLt
  have hpos : 0 < x.id.toNat := by
    refine Nat.pos_of_ne_zero fun h0 => ?_
    have hid : x.id = 0 := BitVec.eq_of_toNat_eq h0
    simp [isValid, lsb, hid] at h
  obtain ⟨a, ha⟩ := exists_odd_mul_two_pow_ctzAux hpos hlt
  set t := ctzAux 64 x.id.toNat
  have hlsb : x.lsb.toNat = 2 ^ t := toNat_lsb_of_eq ha
  have ht64 : t < 64 := by
    have : 2 ^ t ≤ x.id.toNat := ha ▸ Nat.le_mul_of_pos_left _ (by omega)
    have h2 : 2 ^ t < 2 ^ 64 := by omega
    exact (Nat.pow_lt_pow_iff_right (by decide)).1 h2
  have hmask : 2 ^ t &&& 0x1555555555555555 ≠ 0 := by
    have hne : x.lsb &&& 0x1555555555555555 ≠ 0 := by
      simp only [isValid, Bool.and_eq_true, bne_iff_ne] at h; exact h.2
    intro h0
    exact hne (BitVec.eq_of_toNat_eq (by rw [BitVec.toNat_and, hlsb]; exact h0))
  obtain ⟨ht2, ht60⟩ := (two_pow_and_levelMask_ne_zero ht64).1 hmask
  have htk : t = 2 * (30 - (30 - t / 2)) := by omega
  have hsplit : 2 ^ 64 = 2 ^ t * (16 * 4 ^ (30 - t / 2)) := by
    rw [four_pow_eq_two_pow, show 16 = 2 ^ 4 from rfl, ← Nat.pow_add, ← Nat.pow_add]
    congr 1; omega
  have ha8 : a < 8 * 4 ^ (30 - t / 2) := by
    have h1 : (2 * a + 1) * 2 ^ t < 2 ^ t * (16 * 4 ^ (30 - t / 2)) := hsplit ▸ ha ▸ hlt
    have := Nat.lt_of_mul_lt_mul_left (Nat.mul_comm (2 * a + 1) _ ▸ h1)
    omega
  have hx : x = ofIndex (30 - t / 2) a := by
    ext1
    apply BitVec.eq_of_toNat_eq
    rw [toNat_ofIndex (by omega) ha8, four_pow_eq_two_pow, ← htk]
    exact ha
  refine ⟨30 - t / 2, a, by omega, ?_, hx⟩
  rw [hx, isValid_ofIndex (by omega) ha8] at h
  exact of_decide_eq_true h

/-- A valid id of level `L` is a cell of that level. -/
theorem exists_ofIndex_of_level {x : S2CellId} {L : Nat} (h : x.isValid = true)
    (hl : x.level = L) : ∃ q, q < 6 * 4 ^ L ∧ x = ofIndex L q := by
  obtain ⟨k, q, hk, hq, rfl⟩ := exists_ofIndex_of_isValid h
  rw [level_ofIndex hk (by omega)] at hl
  obtain rfl : k = L := by exact_mod_cast hl
  exact ⟨q, hq, rfl⟩

end S2v1.S2CellId

/-- The Primary id of a cell. -/
def Cell.id (c : Cell) : S2v1.S2CellId := S2v1.S2CellId.ofIndex c.level c.index

namespace S2v1.S2CellId

theorem index_lt_eight (c : Cell) : c.index < 8 * 4 ^ c.level := by
  have := c.index_lt; omega

@[simp] theorem isValid_cell_id (c : Cell) : c.id.isValid = true := by
  rw [Cell.id, isValid_ofIndex c.level_le (index_lt_eight c)]
  exact decide_eq_true c.index_lt

/-- The valid Primary ids are exactly the ids of cells. -/
theorem isValid_iff {x : S2CellId} : x.isValid = true ↔ ∃ c : Cell, c.id = x := by
  constructor
  · intro h
    obtain ⟨k, q, hk, hq, rfl⟩ := exists_ofIndex_of_isValid h
    exact ⟨⟨k, q, hk, hq⟩, rfl⟩
  · rintro ⟨c, rfl⟩
    exact isValid_cell_id c

end S2v1.S2CellId

end S2Geo
