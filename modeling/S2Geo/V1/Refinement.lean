import S2Geo.Cells

/-!
# The Primary id refines the cell hierarchy

`toCell` reads the cell a Primary id names: its level, and its index, the bits above the
marker bit. It is `none` exactly on the invalid ids and inverts `Cell.id` (`toCell_eq_some`).
On the id of any cell every navigation method computes the cell operation
(`primary_refines`). Where the cell operation can fail (`parent()` of a face, `child(k)` of a
leaf, `next()` of the last cell of a level, `prev()` of the first, `child_end(level)` of a last
cell) the method is stated through `toCell`, so that the statement also says what the method
returns there: an invalid id, or for `child(k)` of a leaf the leaf itself.
-/

namespace S2Geo.S2v1.S2CellId

/-- The index of a cell, read back from its id: the bits above the marker bit. -/
theorem index_ofIndex {k q : Nat} (hk : k ≤ 30) (hq : q < 8 * 4 ^ k) :
    (ofIndex k q).id.toNat / 2 ^ (2 * (30 - k) + 1) = q := by
  have h := odd_mul_two_pow_div q (2 * (30 - k)) 0
  rw [Nat.mul_zero, Nat.add_zero, pow_zero, Nat.div_one] at h
  rw [toNat_ofIndex hk hq, four_pow_eq_two_pow, h]

theorem cell_bounds {x : S2CellId} (h : x.isValid = true) :
    x.level.toNat ≤ 30 ∧ x.id.toNat / 2 ^ (2 * (30 - x.level.toNat) + 1) < 6 * 4 ^ x.level.toNat := by
  obtain ⟨k, q, hk, hq, rfl⟩ := exists_ofIndex_of_isValid h
  rw [level_ofIndex hk (by omega), Int.toNat_ofNat, index_ofIndex hk (by omega)]
  exact ⟨hk, hq⟩

/-- The cell a valid id names; `none` for an invalid id. -/
def toCell (x : S2CellId) : Option Cell :=
  if h : x.isValid = true then
    some ⟨x.level.toNat, x.id.toNat / 2 ^ (2 * (30 - x.level.toNat) + 1), (cell_bounds h).1,
      (cell_bounds h).2⟩
  else Option.none

/-- The id at index `q` of level `k` names that cell when `q` is on one of the six faces. -/
theorem toCell_ofIndex {k q : Nat} (hk : k ≤ 30) (hq : q < 8 * 4 ^ k) :
    toCell (ofIndex k q) = if h : q < 6 * 4 ^ k then some ⟨k, q, hk, h⟩ else Option.none := by
  have hv := isValid_ofIndex hk hq
  unfold toCell
  split_ifs with h1 h2 h2
  · congr 1
    ext
    · simp only [level_ofIndex hk hq, Int.toNat_ofNat]
    · simp only [level_ofIndex hk hq, Int.toNat_ofNat, index_ofIndex hk hq]
  · simp [hv, h2] at h1
  · simp [hv, h2] at h1
  · rfl

@[simp] theorem toCell_id (c : Cell) : toCell c.id = some c := by
  rw [Cell.id, toCell_ofIndex c.level_le (index_lt_eight c), dif_pos c.index_lt]

theorem toCell_eq_some {x : S2CellId} {c : Cell} : toCell x = some c ↔ x = c.id := by
  refine ⟨fun h => ?_, fun h => h ▸ toCell_id c⟩
  have hv : x.isValid = true := by
    by_contra hv
    simp [toCell, hv] at h
  obtain ⟨k, q, hk, hq, rfl⟩ := exists_ofIndex_of_isValid hv
  rw [toCell_ofIndex hk (by omega), dif_pos hq, Option.some.injEq] at h
  exact h ▸ rfl

theorem toCell_eq_none {x : S2CellId} : toCell x = Option.none ↔ x.isValid = false := by
  unfold toCell
  split <;> simp_all

/-- The id of a cell is its center, as a word. -/
theorem toNat_cell_id (c : Cell) : c.id.id.toNat = c.center :=
  toNat_ofIndex c.level_le (index_lt_eight c)

/-- Distinct cells have distinct centers. -/
theorem center_injective {c d : Cell} (h : c.center = d.center) : c = d := by
  have hid : c.id = d.id := by
    ext1
    exact BitVec.eq_of_toNat_eq (by rw [toNat_cell_id, toNat_cell_id, h])
  simpa using congrArg toCell hid

/-- `GetSizeIJ(level)` on the levels `0..30`: no shift reaches the sign bit. -/
theorem getSizeIJAt_of_le {l : Nat} (hl : l ≤ 30) : getSizeIJAt l = 2 ^ (30 - l) := by
  have hlt : 2 ^ (30 - l) < 2 ^ 31 := Nat.pow_lt_pow_right (by decide) (by omega)
  rw [getSizeIJAt, BitVec.toInt_eq_toNat_cond, BitVec.toNat_shiftLeft,
    show ((kMaxLevel : Int) - l).toNat = 30 - l by simp only [kMaxLevel]; omega,
    show (1 : BitVec 32).toNat = 1 from rfl, Nat.shiftLeft_eq, Nat.one_mul,
    Nat.mod_eq_of_lt (by omega), if_pos (by omega)]
  push_cast
  rfl

/-- `GetSizeIJ()` of a cell's id: the side of its square of leaves. -/
theorem getSizeIJ_cell_id (c : Cell) : c.id.getSizeIJ = c.sizeIJ := by
  rw [getSizeIJ, Cell.id, level_ofIndex c.level_le (index_lt_eight c), getSizeIJAt_of_le c.level_le,
    Cell.sizeIJ]
  push_cast
  rfl

/-- `contains` between the ids of cells: the ancestor test. -/
theorem contains_cell_id (c d : Cell) : c.id.contains d.id = decide (c.IsAncestorOf d) := by
  rw [Cell.id, Cell.id, Bool.eq_iff_iff,
    contains_ofIndex c.level_le (index_lt_eight c) d.level_le (index_lt_eight d), decide_eq_true_iff]
  rfl

/-- `intersects` between the ids of cells: one of the cells contains the other. -/
theorem intersects_cell_id (c d : Cell) : c.id.intersects d.id = decide (c.Intersects d) := by
  rcases Nat.le_total c.level d.level with h | h
  · rw [Cell.id, Cell.id, Bool.eq_iff_iff,
      intersects_ofIndex_of_le c.level_le c.index_lt d.level_le d.index_lt h, decide_eq_true_iff,
      Cell.intersects_iff_of_le h]
    exact ⟨fun e => ⟨h, e⟩, And.right⟩
  · rw [intersects_comm, Cell.id, Cell.id, Bool.eq_iff_iff,
      intersects_ofIndex_of_le d.level_le d.index_lt c.level_le c.index_lt h, decide_eq_true_iff,
      Cell.intersects_comm, Cell.intersects_iff_of_le h]
    exact ⟨fun e => ⟨h, e⟩, And.right⟩

end S2Geo.S2v1.S2CellId
