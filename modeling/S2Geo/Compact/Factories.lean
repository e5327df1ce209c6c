import S2Geo.Compact.Conversion

/-!
# The level-taking factories outside the level range

`FromFacePosLevel`, `Begin` and `End` return `S2CellId()` for `level > kMaxLevel`, but pass
any lower level on to the Primary `parent(level)`, `child_begin(level)` and
`child_end(level)`, which call `lsb_for_level(level) = uint64_t{1} << (2 * (30 - level))`.
Those methods take a level in `0..kMaxLevel` and only `ABSL_DCHECK` it, and the shift is
undefined in C++ from 64 on, that is from level -2 down. The total model gives such shifts a
value (`lsbForLevel`); here the methods are evaluated under C++'s rules, with `none` for the
undefined shift, and agree with the total model wherever they are defined
(`fromFacePosLevelChecked_eq`, `beginChecked_eq`, `endChecked_eq`). Level -1 and the levels
past `kMaxLevel` are defined and give an invalid id (`factories_out_of_range_level`); level -2
already reaches the shift by 64 (`factories_undefined_at_neg_two`).
-/

namespace S2Geo.S2v1.S2CellId

/-- `lsb_for_level(level)` under C++'s rules: `uint64_t{1} << s` for a shift `s` in `0..63`,
`none` for any other shift. -/
def lsbForLevelChecked (level : Int) : Option (BitVec 64) :=
  if 0 ≤ 2 * ((kMaxLevel : Int) - level) ∧ 2 * ((kMaxLevel : Int) - level) < 64 then
    some (lsbForLevel level)
  else Option.none

/-- The methods on the factories' paths that call `lsb_for_level`, under the same rules. -/
def fromFaceChecked (face : Int) : Option S2CellId :=
  (lsbForLevelChecked 0).map fun lsb0 => ⟨(BitVec.ofInt 64 face <<< kPosBits) + lsb0⟩

def parentAtChecked (x : S2CellId) (level : Int) : Option S2CellId :=
  (lsbForLevelChecked level).map fun newLsb => ⟨(x.id &&& (~~~newLsb + 1)) ||| newLsb⟩

def childBeginAtChecked (x : S2CellId) (level : Int) : Option S2CellId :=
  (lsbForLevelChecked level).map fun l => ⟨x.id - x.lsb + l⟩

def childEndAtChecked (x : S2CellId) (level : Int) : Option S2CellId :=
  (lsbForLevelChecked level).map fun l => ⟨x.id + x.lsb + l⟩

def fromFacePosLevelChecked (face : Int) (pos : BitVec 64) (level : Int) : Option S2CellId :=
  (⟨(BitVec.ofInt 64 face <<< kPosBits) + (pos ||| 1)⟩ : S2CellId).parentAtChecked level

def beginChecked (level : Int) : Option S2CellId :=
  (fromFaceChecked 0).bind fun f => f.childBeginAtChecked level

def endChecked (level : Int) : Option S2CellId :=
  (fromFaceChecked 5).bind fun f => f.childEndAtChecked level

/-- The shift of `lsb_for_level(level)` is defined exactly for the levels `-1..30`. -/
theorem lsbForLevelChecked_eq (level : Int) :
    lsbForLevelChecked level =
      if -2 < level ∧ level ≤ 30 then some (lsbForLevel level) else Option.none :=
  if_congr (by simp only [kMaxLevel]; omega) rfl rfl

/-- Where the shift is defined, a checked method is the total one. -/
theorem map_lsbForLevelChecked {α : Type} (level : Int) (f : BitVec 64 → α) :
    (lsbForLevelChecked level).map f =
      if -2 < level ∧ level ≤ 30 then some (f (lsbForLevel level)) else Option.none := by
  rw [lsbForLevelChecked_eq]; split <;> rfl

theorem fromFacePosLevelChecked_eq (face : Int) (pos : BitVec 64) (level : Int) :
    fromFacePosLevelChecked face pos level =
      if -2 < level ∧ level ≤ 30 then some (fromFacePosLevel face pos level) else Option.none :=
  map_lsbForLevelChecked level _

theorem beginChecked_eq (level : Int) :
    beginChecked level = if -2 < level ∧ level ≤ 30 then some (begin level) else Option.none := by
  rw [beginChecked, fromFaceChecked, map_lsbForLevelChecked, if_pos (by decide), Option.some_bind,
    childBeginAtChecked, map_lsbForLevelChecked]
  rfl

theorem endChecked_eq (level : Int) :
    endChecked level = if -2 < level ∧ level ≤ 30 then some («end» level) else Option.none := by
  rw [endChecked, fromFaceChecked, map_lsbForLevelChecked, if_pos (by decide), Option.some_bind,
    childEndAtChecked, map_lsbForLevelChecked]
  rfl

/-- `parent(-1)` keeps the top bit and sets bit 62: an odd multiple of `2^62`, whose marker
bit sits above every level's. -/
theorem isValid_parentAt_neg_one (x : S2CellId) : (x.parentAt (-1)).isValid = false := by
  have hlsb : (lsbForLevel (-1)).toNat = 2 ^ 62 := by decide
  have hx := x.id.isLt
  have hid : (x.parentAt (-1)).id.toNat = (2 * (x.id.toNat / 2 ^ (62 + 1)) + 1) * 2 ^ 62 := by
    simp only [parentAt]
    rw [BitVec.toNat_or, BitVec.toNat_and, toNat_not_add_one (by rw [hlsb]; decide), hlsb]
    exact and_sub_two_pow_or_two_pow hx (by decide)
  have hlow : (x.parentAt (-1)).lsb.toNat = 2 ^ 62 := toNat_lsb_of_eq hid
  have hmask : (x.parentAt (-1)).lsb &&& 0x1555555555555555 = 0 :=
    BitVec.eq_of_toNat_eq (by rw [BitVec.toNat_and, hlow]; decide)
  simp only [isValid, hmask, bne_self_eq_false, Bool.and_false]

end S2Geo.S2v1.S2CellId

namespace S2Geo.S2CellId

/-- `FromFacePosLevel`, `Begin` and `End` under C++'s rules: the early `level > kMaxLevel`
return, then the Primary factory, which may reach an undefined shift (`none`). -/
def fromFacePosLevelChecked (face : Int) (pos : BitVec 64) (level : Int) : Option S2CellId :=
  if level > kMaxLevel then some S2CellId.none
  else (S2v1.S2CellId.fromFacePosLevelChecked face pos level).map fromS2CellId

def beginChecked (level : Int) : Option S2CellId :=
  if level > kMaxLevel then some S2CellId.none
  else (S2v1.S2CellId.beginChecked level).map fromS2CellId

def endChecked (level : Int) : Option S2CellId :=
  if level > kMaxLevel then some S2CellId.none
  else (S2v1.S2CellId.endChecked level).map fromS2CellId

/-- The shape the three factories share: the early `level > kMaxLevel` return, then a Primary
factory whose shift is defined from level -1 to 30. -/
theorem checked_eq_of_primary {level : Int} {c : Option S2v1.S2CellId} {v : S2v1.S2CellId}
    (hc : c = if -2 < level ∧ level ≤ 30 then some v else Option.none) :
    (if level > kMaxLevel then some S2CellId.none else c.map fromS2CellId) =
      if level ≤ -2 then Option.none
      else some (if level > kMaxLevel then S2CellId.none else fromS2CellId v) := by
  subst hc
  by_cases h28 : level > kMaxLevel
  · rw [if_pos h28, if_neg (by simp only [kMaxLevel] at h28; omega), if_pos h28]
  · rw [if_neg h28, if_neg h28]
    by_cases h2 : level ≤ -2
    · rw [if_neg (by omega), if_pos h2]; rfl
    · rw [if_pos ⟨by omega, by simp only [kMaxLevel] at h28; omega⟩, if_neg h2]; rfl

theorem fromFacePosLevelChecked_eq (face : Int) (pos : BitVec 64) (level : Int) :
    fromFacePosLevelChecked face pos level =
      if level ≤ -2 then Option.none else some (fromFacePosLevel face pos level) :=
  checked_eq_of_primary (S2v1.S2CellId.fromFacePosLevelChecked_eq face pos level)

theorem beginChecked_eq (level : Int) :
    beginChecked level = if level ≤ -2 then Option.none else some (begin level) :=
  checked_eq_of_primary (S2v1.S2CellId.beginChecked_eq level)

theorem endChecked_eq (level : Int) :
    endChecked level = if level ≤ -2 then Option.none else some («end» level) :=
  checked_eq_of_primary (S2v1.S2CellId.endChecked_eq level)

/-- At level -1 and past `kMaxLevel` the three factories return an invalid id. -/
theorem isValid_factories_of_out_of_range (face : Int) (pos : BitVec 64) {level : Int}
    (h : level = -1 ∨ level > kMaxLevel) :
    (fromFacePosLevel face pos level).isValid = false ∧ (begin level).isValid = false ∧
      («end» level).isValid = false := by
  rcases h with rfl | h28
  · refine ⟨?_, by decide, by decide⟩
    rw [fromFacePosLevel, if_neg (by decide), S2v1.S2CellId.fromFacePosLevel,
      fromS2CellId_of_not_representable (by rw [S2v1.S2CellId.isValid_parentAt_neg_one]; rfl)]
    rfl
  · rw [fromFacePosLevel, begin, «end», if_pos h28, if_pos h28, if_pos h28]
    exact ⟨rfl, rfl, rfl⟩

/-- What the three level-taking factories do at level -1 and past `kMaxLevel` under C++'s
rules: every shift they reach is defined, so they return the total model's id, and that id is
invalid. -/
structure FactoriesOutOfRange (face : Int) (pos : BitVec 64) (level : Int) : Prop where
  fromFacePosLevel_defined :
    fromFacePosLevelChecked face pos level = some (fromFacePosLevel face pos level)
  begin_defined : beginChecked level = some (begin level)
  end_defined : endChecked level = some («end» level)
  fromFacePosLevel_invalid : (fromFacePosLevel face pos level).isValid = false
  begin_invalid : (begin level).isValid = false
  end_invalid : («end» level).isValid = false

theorem factories_out_of_range_level (face : Int) (pos : BitVec 64) (level : Int)
    (h : level = -1 ∨ level > 28) : FactoriesOutOfRange face pos level := by
  have h2 : ¬level ≤ -2 := by omega
  obtain ⟨v1, v2, v3⟩ := isValid_factories_of_out_of_range face pos
    (show level = -1 ∨ level > kMaxLevel by simp only [kMaxLevel]; omega)
  exact ⟨by rw [fromFacePosLevelChecked_eq, if_neg h2], by rw [beginChecked_eq, if_neg h2],
    by rw [endChecked_eq, if_neg h2], v1, v2, v3⟩

theorem factories_out_of_range_level_neg_one :
    ((-1 : Int) = -1 ∨ (-1 : Int) > 28) ∧ FactoriesOutOfRange 0 0 (-1) :=
  ⟨.inl rfl, factories_out_of_range_level 0 0 (-1) (.inl rfl)⟩

/-- Level -2 is below 0, yet each factory reaches `lsb_for_level(-2)`, a shift by 64. -/
theorem factories_undefined_at_neg_two :
    fromFacePosLevelChecked 0 0 (-2) = Option.none ∧ beginChecked (-2) = Option.none ∧
      endChecked (-2) = Option.none := by
  simp only [fromFacePosLevelChecked_eq, beginChecked_eq, endChecked_eq]
  decide

end S2Geo.S2CellId
