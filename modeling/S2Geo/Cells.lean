import S2Geo.V1.Iteration

/-!
# The cell hierarchy the ids encode

What both encodings are for. A cell is a level `k ≤ 30` and an index `q < 6 * 4^k` along the
level's curve over the six faces (`Cell`): its face is `q / 4^k`, its ancestors are the
indices `q / 4^j` higher up, its children are the indices `4q + p`, its descendants at a
finer level form one block of consecutive indices, and the cells of a level follow one
another by index. Nothing here reads a bit: the Primary and the Compact refinement modules
show that the navigation methods of each id compute these operations.
-/

namespace S2Geo

attribute [ext] Cell

namespace Cell

/-- Every level has cells. -/
theorem levels_pos (c : Cell) : 0 < 6 * 4 ^ c.level :=
  Nat.mul_pos (by decide) (Nat.pos_pow_of_pos _ (by decide))

/-- The face the cell lies on. -/
def face (c : Cell) : Nat := c.index / 4 ^ c.level

/-- The cell at level `l ≤ c.level` that contains `c`. -/
def ancestor (c : Cell) (l : Nat) (hl : l ≤ c.level) : Cell :=
  ⟨l, c.index / 4 ^ (c.level - l), le_trans hl c.level_le,
    S2v1.S2CellId.div_four_pow_lt_mul c.index_lt (Nat.sub_le _ _) |>.trans_eq
      (by rw [Nat.sub_sub_self hl])⟩

/-- The cell one level up; a face has none. -/
def parent (c : Cell) : Option Cell :=
  if 1 ≤ c.level then some (c.ancestor (c.level - 1) (Nat.sub_le _ _)) else none

/-- The `p`-th of the four cells one level down; a leaf has none. -/
def child (c : Cell) (p : Fin 4) : Option Cell :=
  if h : c.level < 30 then
    some ⟨c.level + 1, 4 * c.index + p, h, by
      have := c.index_lt; have := p.isLt; rw [pow_succ]; omega⟩
  else none

/-- The side of the cell's square of leaves. -/
def sizeIJ (c : Cell) : Nat := 2 ^ (30 - c.level)

/-- The position among the parent's four children. -/
def childPosition (c : Cell) : Nat := c.index % 4

/-- The doubled middle of the cell's range of leaf positions, `(2q + 1) * 4^(30 - k)`. -/
def center (c : Cell) : Nat := (2 * c.index + 1) * 4 ^ (30 - c.level)

/-- `a` is `c` or one of its ancestors. -/
def IsAncestorOf (a c : Cell) : Prop :=
  a.level ≤ c.level ∧ c.index / 4 ^ (c.level - a.level) = a.index

instance (a c : Cell) : Decidable (a.IsAncestorOf c) := inferInstanceAs (Decidable (_ ∧ _))

/-- `a` and `c` share a leaf: one of them is the other or an ancestor of it. -/
def Intersects (a c : Cell) : Prop := a.IsAncestorOf c ∨ c.IsAncestorOf a

instance (a c : Cell) : Decidable (a.Intersects c) := inferInstanceAs (Decidable (_ ∨ _))

/-- The first of the cells at level `l` inside `c`. -/
def firstDescendant (c : Cell) (l : Nat) (hl : c.level ≤ l) (hl30 : l ≤ 30) : Cell :=
  ⟨l, c.index * 4 ^ (l - c.level), hl30, S2v1.S2CellId.mul_four_pow_lt_mul c.index_lt hl⟩

/-- The last of the cells at level `l` inside `c`. -/
def lastDescendant (c : Cell) (l : Nat) (hl : c.level ≤ l) (hl30 : l ≤ 30) : Cell :=
  ⟨l, (c.index + 1) * 4 ^ (l - c.level) - 1, hl30, by
    have h1 := S2v1.S2CellId.mul_four_pow_le_mul (show c.index + 1 ≤ 6 * 4 ^ c.level from c.index_lt) hl
    have h2 : 0 < (c.index + 1) * 4 ^ (l - c.level) :=
      Nat.mul_pos (Nat.succ_pos _) (Nat.pos_pow_of_pos _ (by decide))
    omega⟩

/-- The next cell of the level; the last one has none. -/
def next (c : Cell) : Option Cell :=
  if h : c.index + 1 < 6 * 4 ^ c.level then some ⟨c.level, c.index + 1, c.level_le, h⟩ else none

/-- The previous cell of the level; the first one has none. -/
def prev (c : Cell) : Option Cell :=
  if 1 ≤ c.index then some ⟨c.level, c.index - 1, c.level_le, by have := c.index_lt; omega⟩
  else none

/-- The next cell of the level, the first one after the last. -/
def nextWrap (c : Cell) : Cell :=
  ⟨c.level, (c.index + 1) % (6 * 4 ^ c.level), c.level_le, Nat.mod_lt _ c.levels_pos⟩

/-- The previous cell of the level, the last one before the first. -/
def prevWrap (c : Cell) : Cell :=
  ⟨c.level, (c.index + 6 * 4 ^ c.level - 1) % (6 * 4 ^ c.level), c.level_le,
    Nat.mod_lt _ c.levels_pos⟩

theorem ancestor_self (c : Cell) : c.ancestor c.level le_rfl = c := by
  ext <;> simp [ancestor]

theorem intersects_comm (a c : Cell) : a.Intersects c ↔ c.Intersects a := Or.comm

/-- A coarser cell meets a finer one only by containing it. -/
theorem intersects_iff_of_le {a c : Cell} (h : a.level ≤ c.level) :
    a.Intersects c ↔ a.IsAncestorOf c := by
  refine ⟨fun h' => h'.elim (fun h => h) fun ⟨hca, hi⟩ => ⟨h, ?_⟩, Or.inl⟩
  rw [Nat.sub_eq_zero_of_le h, pow_zero, Nat.div_one] at hi
  rw [Nat.sub_eq_zero_of_le hca, pow_zero, Nat.div_one, hi]

/-- The cell after the last descendant at level `l`: the first cell past `c`'s block of
descendants there, when the level has one. -/
theorem next_lastDescendant (c : Cell) (l : Nat) (hl : c.level ≤ l) (hl30 : l ≤ 30) :
    (c.lastDescendant l hl hl30).next =
      if h : (c.index + 1) * 4 ^ (l - c.level) < 6 * 4 ^ l then
        some ⟨l, (c.index + 1) * 4 ^ (l - c.level), hl30, h⟩
      else none := by
  have hpos : 0 < (c.index + 1) * 4 ^ (l - c.level) :=
    Nat.mul_pos (Nat.succ_pos _) (Nat.pos_pow_of_pos _ (by decide))
  simp only [lastDescendant, next, Nat.sub_add_cancel hpos]

end Cell

end S2Geo
