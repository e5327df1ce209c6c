import S2Geo.V1.Refinement
import S2Geo.Compact.Quadtree
import S2Geo.Compact.Stepping

/-!
# The Compact id refines the cell hierarchy

A valid Compact word names the cell of its level field and of the index its face and its low
path bits spell (`toCell`); a cell of level at most 28 has a canonical word, `Cell.compact`.
The conversions act on cells as the identity up to the level limit (`cell_conversions`):
`ToOldFormat` takes a valid word to the Primary id of its cell, and `FromS2CellId` keeps the
cell of a Primary id of level at most 28 and names no cell above. From level 1 on the
canonical word is the only word of its cell; a face also has the words with stray path bits.

On the canonical word of every cell of level at most 28 each navigation method computes the
cell operation (`compact_refines`): it returns the canonical word of the resulting cell, or
`None()` where the cell has none (`Cell.compactOrNone`), and never another word; unlike the
Primary id, `child(k)` of a level-28 cell is `None()`. `operator<` compares the cells' centers,
so its equivalence classes are the cells (`order_by_cells`), while `operator==` compares
words.
-/

namespace S2Geo

/-- The canonical Compact word of a cell; the cells of level at most 28 have one. -/
def Cell.compact (c : Cell) : S2CellId := S2CellId.ofIndex c.level c.index

/-- What a Compact method returns for a cell operation that may have no result: the canonical
word of the cell, or `None()`. -/
def Cell.compactOrNone : Option Cell → S2CellId
  | some c => c.compact
  | Option.none => S2CellId.none

namespace S2CellId

/-- The cell a valid word names: its level field, and the index its face and its low
`2 * level` path bits spell; `none` for an invalid word. -/
def toCell (x : S2CellId) : Option Cell :=
  if h : x.isValid = true then
    some ⟨x.levelField, x.cellIndex, by have := levelField_le_of_isValid h; omega,
      cellIndex_lt_of_isValid h⟩
  else Option.none

theorem toCell_ofIndex {k q : Nat} (hk : k ≤ 28) (hq : q < 6 * 4 ^ k) :
    toCell (ofIndex k q) = some ⟨k, q, by omega, hq⟩ := by
  rw [toCell, dif_pos (isValid_ofIndex hk hq)]
  congr 1
  ext
  · exact levelField_ofIndex hk hq
  · exact cellIndex_ofIndex hk hq

theorem toCell_none : toCell none = Option.none := by decide

theorem toCell_eq_none {x : S2CellId} : toCell x = Option.none ↔ x.isValid = false := by
  unfold toCell
  split <;> simp_all

/-- The Primary id at index `r` of level `k ≤ 28` converts to the canonical word of that cell,
or to `None()` past face 5. -/
theorem fromS2CellId_ofIndex_eq {k r : Nat} (hk : k ≤ 28) (hr : r < 8 * 4 ^ k) :
    fromS2CellId (S2v1.S2CellId.ofIndex k r) =
      Cell.compactOrNone (if h : r < 6 * 4 ^ k then some ⟨k, r, by omega, h⟩ else Option.none) := by
  split_ifs with h
  · exact fromS2CellId_ofIndex hk h
  · exact fromS2CellId_of_not_representable (by
      rw [S2v1.S2CellId.isValid_ofIndex (by omega) hr, decide_eq_false h, Bool.false_and])

/-- `FromS2CellId` on cells: the cell of a Primary id of level at most 28, no cell above. -/
theorem toCell_fromS2CellId (y : S2v1.S2CellId) :
    toCell (fromS2CellId y) = (S2v1.S2CellId.toCell y).filter fun c => decide (c.level ≤ 28) := by
  cases h : S2v1.S2CellId.toCell y with
  | none =>
    rw [fromS2CellId_of_not_representable (by rw [S2v1.S2CellId.toCell_eq_none.1 h, Bool.false_and]),
      toCell_none]
    rfl
  | some c =>
    obtain rfl := S2v1.S2CellId.toCell_eq_some.1 h
    by_cases hc : c.level ≤ 28
    · rw [Cell.id, fromS2CellId_ofIndex hc c.index_lt, toCell_ofIndex hc c.index_lt]
      simp [Option.filter, hc]
    · rw [fromS2CellId_of_not_representable (by
          simp [canRepresentInNewFormat, S2v1.S2CellId.level_ofIndex c.level_le
            (S2v1.S2CellId.index_lt_eight c), kMaxLevel, Cell.id]; omega), toCell_none]
      simp [Option.filter, hc]

/-- A word of cell `c` converts to the Primary id of `c`. -/
theorem toOldFormat_of_toCell {x : S2CellId} {c : Cell} (h : toCell x = some c) :
    x.toOldFormat = c.id := by
  unfold toCell at h
  split_ifs at h with hv
  cases h
  exact toOldFormat_of_isValid hv

/-- From level 1 on a cell has one word, its canonical one. -/
theorem eq_compact_of_toCell {x : S2CellId} {c : Cell} (hx : toCell x = some c)
    (h1 : 1 ≤ c.level) : x = c.compact := by
  unfold toCell at hx
  split_ifs at hx with h
  cases hx
  exact eq_ofIndex_of_isValid h (Or.inl (by simp only at h1; omega))

/-- The conversions on cells: a word is valid exactly when `ToOldFormat` gives the Primary id of
its cell; `FromS2CellId` keeps the cell of a Primary id of level at most 28 and names none
above; and a word of a cell converts back to the cell's canonical word, which from level 1 on
is the word itself. -/
theorem cell_conversions (x : S2CellId) (y : S2v1.S2CellId) :
    toCell x = (if x.isValid then S2v1.S2CellId.toCell x.toOldFormat else Option.none) ∧
      toCell (fromS2CellId y) = (S2v1.S2CellId.toCell y).filter (fun c => decide (c.level ≤ 28)) ∧
      ∀ c, toCell x = some c → fromS2CellId x.toOldFormat = c.compact ∧ (1 ≤ c.level → x = c.compact) := by
  refine ⟨?_, toCell_fromS2CellId y, fun c hc => ?_⟩
  · unfold toCell
    split_ifs with h
    · have hL := levelField_le_of_isValid h
      rw [toOldFormat_of_isValid h, S2v1.S2CellId.toCell_ofIndex (by omega)
        (by have := cellIndex_lt_of_isValid h; omega), dif_pos (cellIndex_lt_of_isValid h)]
    · rfl
  · refine ⟨?_, eq_compact_of_toCell hc⟩
    unfold toCell at hc
    split_ifs at hc with h
    cases hc
    exact fromS2CellId_toOldFormat_eq_ofIndex h

/-- `operator<` on words of cells: the order of the cells' centers. -/
theorem lt_iff_center {x y : S2CellId} {c d : Cell} (hx : toCell x = some c)
    (hy : toCell y = some d) : x < y ↔ c.center < d.center := by
  show x.toOldFormat < y.toOldFormat ↔ _
  rw [S2v1.S2CellId.lt_iff_toNat, toOldFormat_of_toCell hx, toOldFormat_of_toCell hy,
    S2v1.S2CellId.toNat_cell_id, S2v1.S2CellId.toNat_cell_id]

/-- `operator<` compares the Primary ids, so it orders valid words by the centers of their
cells, and two valid words are equivalent under it exactly when they name the same cell: from
level 1 on only equal words do, while at level 0 every valid word of a face is equivalent to the
face's canonical word, stray path bits or not, though `operator==` tells them apart. -/
theorem order_by_cells {x y : S2CellId} {c d : Cell} (hx : toCell x = some c)
    (hy : toCell y = some d) :
    (x < y ↔ c.center < d.center) ∧ (x ≤ y ↔ c.center ≤ d.center) ∧ (x ≤ y ∧ y ≤ x ↔ c = d) ∧
      (1 ≤ c.level → (x ≤ y ∧ y ≤ x ↔ x = y)) := by
  have hle : x ≤ y ↔ c.center ≤ d.center := (not_congr (lt_iff_center hy hx)).trans Nat.not_lt
  have hge : y ≤ x ↔ d.center ≤ c.center := (not_congr (lt_iff_center hx hy)).trans Nat.not_lt
  have hcd : x ≤ y ∧ y ≤ x ↔ c = d := by
    rw [hle, hge]
    exact ⟨fun h => S2v1.S2CellId.center_injective (Nat.le_antisymm h.1 h.2),
      fun h => h ▸ ⟨le_rfl, le_rfl⟩⟩
  refine ⟨lt_iff_center hx hy, hle, hcd, fun h1 => hcd.trans ⟨fun h => ?_, fun h => ?_⟩⟩
  · -- One cell, of level at least 1: both words are its canonical word.
    subst h
    rw [eq_compact_of_toCell hx h1, eq_compact_of_toCell hy h1]
  · subst h
    exact Option.some.inj (hx.symm.trans hy)

/-- Face 0 with path field 1 and its canonical word: different words, equivalent in the
order. -/
theorem order_by_cells_root_with_path :
    toCell ⟨0x20⟩ = some ⟨0, 0, by decide, by decide⟩ ∧
      toCell (ofIndex 0 0) = some ⟨0, 0, by decide, by decide⟩ ∧
      (((⟨0x20⟩ : S2CellId) < ofIndex 0 0 ↔
          (⟨0, 0, by decide, by decide⟩ : Cell).center < (⟨0, 0, by decide, by decide⟩ : Cell).center) ∧
        ((⟨0x20⟩ : S2CellId) ≤ ofIndex 0 0 ↔
          (⟨0, 0, by decide, by decide⟩ : Cell).center ≤ (⟨0, 0, by decide, by decide⟩ : Cell).center) ∧
        ((⟨0x20⟩ : S2CellId) ≤ ofIndex 0 0 ∧ ofIndex 0 0 ≤ ⟨0x20⟩ ↔
          (⟨0, 0, by decide, by decide⟩ : Cell) = ⟨0, 0, by decide, by decide⟩) ∧
        (1 ≤ (⟨0, 0, by decide, by decide⟩ : Cell).level →
          ((⟨0x20⟩ : S2CellId) ≤ ofIndex 0 0 ∧ ofIndex 0 0 ≤ ⟨0x20⟩ ↔
            (⟨0x20⟩ : S2CellId) = ofIndex 0 0))) ∧
      (⟨0x20⟩ : S2CellId) ≠ ofIndex 0 0 :=
  ⟨by decide, by decide, order_by_cells (by decide) (by decide), by decide⟩

/-- `child(k)` of a level-28 word: `None()`. -/
theorem child_ofIndex_max {q : Nat} (hq : q < 6 * 4 ^ 28) (p : Int) : (ofIndex 28 q).child p = none := by
  have hl := level_ofIndex (le_refl 28) hq
  unfold child
  split_ifs with h1 h2 h3 <;> first | rfl | exact absurd (by rw [hl]; decide) h3

/-- `parent()` of a face word: `None()`. -/
theorem parent_ofIndex_zero {q : Nat} (hq : q < 6 * 4 ^ 0) : (ofIndex 0 q).parent = none := by
  rw [parent, isValid_ofIndex (Nat.zero_le 28) hq, Bool.not_true, if_neg Bool.false_ne_true,
    if_pos (by rw [level_ofIndex (Nat.zero_le 28) hq]; rfl)]

/-- The navigation methods at the canonical word of cell `c`, each against the cell
operation. -/
structure CompactRefines (c : Cell) (h : c.level ≤ 28) : Prop where
  toOldFormat : c.compact.toOldFormat = c.id
  fromS2CellId : fromS2CellId c.id = c.compact
  level : c.compact.level = c.level
  face : c.compact.face = c.face
  sizeIJ : c.compact.getSizeIJ = c.sizeIJ
  parent : c.compact.parent = Cell.compactOrNone c.parent
  parentAt : ∀ l (hl : l ≤ c.level), c.compact.parentAt l = (c.ancestor l hl).compact
  child : ∀ p : Fin 4, c.level < 28 → c.compact.child (p : Nat) = Cell.compactOrNone (c.child p)
  child_max : c.level = 28 → ∀ p : Int, c.compact.child p = none
  childPosition : 1 ≤ c.level → c.compact.childPosition = c.childPosition
  childPositionAt : ∀ l, 1 ≤ l → ∀ hl : l ≤ c.level,
    c.compact.childPositionAt l = (c.ancestor l hl).childPosition
  contains : ∀ d : Cell, d.level ≤ 28 → c.compact.contains d.compact = decide (c.IsAncestorOf d)
  intersects : ∀ d : Cell, d.level ≤ 28 → c.compact.intersects d.compact = decide (c.Intersects d)
  childBegin : ∀ hk : c.level < 28,
    c.compact.childBegin = (c.firstDescendant (c.level + 1) (Nat.le_succ _) (hk.trans (by decide))).compact
  childEnd : ∀ hk : c.level < 28, c.compact.childEnd =
    Cell.compactOrNone (c.lastDescendant (c.level + 1) (Nat.le_succ _) (hk.trans (by decide))).next
  childBeginAt : ∀ l (hl : c.level < l) (hl28 : l ≤ 28),
    c.compact.childBeginAt l = (c.firstDescendant l hl.le (hl28.trans (by decide))).compact
  childEndAt : ∀ l (hl : c.level < l) (hl28 : l ≤ 28), c.compact.childEndAt l =
    Cell.compactOrNone (c.lastDescendant l hl.le (hl28.trans (by decide))).next
  rangeMin : c.compact.rangeMin = (c.firstDescendant 28 h (by decide)).compact
  rangeMax : c.compact.rangeMax = (c.lastDescendant 28 h (by decide)).compact
  next : c.compact.next = Cell.compactOrNone c.next
  prev : c.compact.prev = Cell.compactOrNone c.prev
  nextWrap : c.compact.nextWrap = c.nextWrap.compact
  prevWrap : c.compact.prevWrap = c.prevWrap.compact

theorem compact_refines (c : Cell) (h : c.level ≤ 28) : CompactRefines c h := by
  have hq := c.index_lt
  have hv := isValid_ofIndex h hq
  have hL := levelField_ofIndex h hq
  have hQ := cellIndex_ofIndex h hq
  have hto : ∀ d : Cell, d.level ≤ 28 → d.compact.toOldFormat = d.id := fun d hd =>
    toOldFormat_ofIndex hd d.index_lt
  have hsucc : ∀ m, m * 4 ^ (c.level + 1 - c.level) = 4 * m := fun m => by
    rw [Nat.add_sub_cancel_left, pow_one, Nat.mul_comm]
  refine ⟨hto c h, fromS2CellId_ofIndex h hq, level_ofIndex h hq, face_ofIndex h hq,
    (congrArg S2v1.S2CellId.getSizeIJ (hto c h)).trans (S2v1.S2CellId.getSizeIJ_cell_id c), ?_,
    fun l hl => ?_, fun p hk28 => ?_, fun hk28 p => ?_, fun hk1 => childPosition_ofIndex h hq hk1,
    fun l hl1 hl => ?_, fun d hd => ?_, fun d hd => ?_, fun hk28 => ?_, fun hk28 => ?_,
    fun l hl hl28 => ?_, fun l hl hl28 => ?_, ?_, ?_, ?_, ?_, nextWrap_ofIndex h hq,
    prevWrap_ofIndex h hq⟩
  · -- `parent()`: the cell one level up, and `None()` at a face.
    rw [Cell.compact, Cell.parent]
    split_ifs with hk1
    · rw [parent_ofIndex h hq hk1]
      simp only [Cell.compactOrNone, Cell.compact, Cell.ancestor, Nat.sub_sub_self hk1, pow_one]
    · rw [show c.level = 0 by omega] at hq ⊢
      exact parent_ofIndex_zero hq
  · -- `parent(l)`: the loop or the Primary ancestor, and the word itself at its own level.
    rcases Nat.lt_or_eq_of_le hl with hlt | rfl
    · rw [Cell.compact, parentAt_of_isValid hv (by rw [hL]; exact hlt), hL, hQ]
      rfl
    · rw [Cell.ancestor_self]
      exact parentAt_of_level_le ⟨by omega, by simp only [kMaxLevel]; omega⟩
        (by rw [Cell.compact, level_ofIndex h hq])
  · -- `child(p)`: the cell `4q + p` one level down.
    rw [Cell.compact, child_ofIndex h hq hk28 p.isLt, Cell.child, dif_pos (by omega)]
    rfl
  · rw [Cell.compact, hk28]
    exact child_ofIndex_max (hk28 ▸ hq) p
  · rw [Cell.compact, childPositionAt_of_isValid hv hl1 (by rw [hL]; exact hl), hL, hQ]
    rfl
  · rw [contains, hto c h, hto d hd]
    exact S2v1.S2CellId.contains_cell_id c d
  · rw [intersects, hto c h, hto d hd]
    exact S2v1.S2CellId.intersects_cell_id c d
  · rw [Cell.compact, childBegin_of_isValid hv (by rw [hL]; exact hk28), hL, hQ, ← hsucc]
    rfl
  · -- `child_end()`: one past the last child, which the level may not have.
    rw [Cell.compact, childEnd_of_isValid hv (by rw [hL]; exact hk28), hL, hQ,
      show 4 * c.index + 4 = (c.index + 1) * 4 ^ (c.level + 1 - c.level) by rw [hsucc]; ring,
      fromS2CellId_ofIndex_eq hk28 (by rw [hsucc, pow_succ]; omega), Cell.next_lastDescendant]
  · rw [Cell.compact, childBeginAt_of_isValid hv (by rw [hL]; exact hl) hl28, hL, hQ]
    rfl
  · -- `child_end(l)`: one past the last descendant, which the level may not have.
    have hend : c.index * 4 ^ (l - c.level) + 4 ^ (l - c.level) ≤ 6 * 4 ^ l := by
      rw [← Nat.add_one_mul]; exact S2v1.S2CellId.mul_four_pow_le_mul hq hl.le
    have hP := Nat.pos_pow_of_pos l (show 0 < 4 by decide)
    rw [Cell.compact, childEndAt_of_isValid hv (by rw [hL]; exact hl) hl28, hL, hQ,
      ← Nat.add_one_mul, fromS2CellId_ofIndex_eq hl28 (by rw [Nat.add_one_mul]; omega),
      Cell.next_lastDescendant]
  · rw [Cell.compact, rangeMin_of_isValid hv, hL, hQ]
    rfl
  · rw [Cell.compact, rangeMax_of_isValid hv, hL, hQ]
    rfl
  · rw [Cell.compact, next_ofIndex h hq, fromS2CellId_ofIndex_eq h (by omega)]
    rfl
  · -- `prev()`: the cell before, and `None()` before the first cell.
    rw [Cell.compact, Cell.prev]
    split_ifs with hq1
    · rw [prev_ofIndex h hq hq1]
      rfl
    · rw [show c.index = 0 by omega, prev_ofIndex_zero h]
      rfl

theorem compact_refines_level_two :
    (⟨2, 45, by decide, by decide⟩ : Cell).level ≤ 28 ∧
      CompactRefines ⟨2, 45, by decide, by decide⟩ (by decide) :=
  ⟨by decide, compact_refines _ (by decide)⟩

end S2CellId

end S2Geo
