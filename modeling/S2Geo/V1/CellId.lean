import S2Geo.Bits

/-!
# The Primary cell id, `s2v1::S2CellId`

A 64-bit word `[face][face_pos]`: three face bits, then the Hilbert curve position of
the cell's center. The lowest set bit marks the level: a level-`k` cell has it at bit
`2 * (kMaxLevel - k)`. This module follows the inline methods of `s2cell_id_v1.h`
as the release build computes them: `ABSL_DCHECK`s are not evaluated, and C++'s
`uint64_t` arithmetic is `BitVec 64`. The out-of-line methods (tokens, geometry,
neighbors) are in no file here and are not modelled.
-/

namespace S2Geo.S2v1

@[ext] structure S2CellId where
  id : BitVec 64
  deriving DecidableEq, Repr

namespace S2CellId

def kFaceBits : Nat := 3
def kNumFaces : Nat := 6
def kMaxLevel : Nat := 30
def kPosBits : Nat := 2 * kMaxLevel + 1

/-- The offset that wraps the curve from the last face to the first. -/
def kWrapOffset : BitVec 64 := BitVec.ofNat 64 kNumFaces <<< kPosBits

def none : S2CellId := ⟨0⟩

/-- All ones: an invalid id above every valid one. -/
def sentinel : S2CellId := ⟨~~~0⟩

instance : LT S2CellId := ⟨fun x y => x.id < y.id⟩
instance : LE S2CellId := ⟨fun x y => x.id ≤ y.id⟩
instance (x y : S2CellId) : Decidable (x < y) := inferInstanceAs (Decidable (x.id < y.id))
instance (x y : S2CellId) : Decidable (x ≤ y) := inferInstanceAs (Decidable (x.id ≤ y.id))

/-- The shift amount `2 * (kMaxLevel - level)` is below 64 exactly for levels
`-1..30`; C++ leaves other shifts undefined, and here they give 1 or 0. -/
def lsbForLevel (level : Int) : BitVec 64 := (1 : BitVec 64) <<< (2 * ((kMaxLevel : Int) - level)).toNat

def lsb (x : S2CellId) : BitVec 64 := x.id &&& (~~~x.id + 1)

def face (x : S2CellId) : Int := ((x.id >>> kPosBits).toNat : Int)

def pos (x : S2CellId) : BitVec 64 := x.id &&& (~~~(0 : BitVec 64) >>> kFaceBits)

/-- `kMaxLevel - (countr_zero(id) >> 1)`; on the zero id, which `ABSL_ASSUME` excludes,
this reads `countr_zero(0) = 64`. -/
def level (x : S2CellId) : Int := (kMaxLevel : Int) - ((countrZero x.id >>> 1 : Nat) : Int)

def isValid (x : S2CellId) : Bool :=
  decide (x.face < kNumFaces) && (x.lsb &&& 0x1555555555555555) != 0

/-- `GetSizeIJ(level)`: `1 << (kMaxLevel - level)` on a 32-bit `int`. The shift is defined for
the levels `0..30` that `ABSL_DCHECK` asks for; here a negative amount shifts by 0. -/
def getSizeIJAt (level : Int) : Int :=
  ((1 : BitVec 32) <<< ((kMaxLevel : Int) - level).toNat).toInt

def getSizeIJ (x : S2CellId) : Int := getSizeIJAt x.level

def isLeaf (x : S2CellId) : Bool := (x.id &&& 1) != 0

def isFace (x : S2CellId) : Bool := (x.id &&& (lsbForLevel 0 - 1)) == 0

/-- `static_cast<int>(id_ >> (2 * (kMaxLevel - level) + 1)) & 3`: the cast to `int`
keeps the two low bits. -/
def childPositionAt (x : S2CellId) (level : Int) : Int :=
  (((x.id >>> (2 * ((kMaxLevel : Int) - level) + 1).toNat) &&& 3).toNat : Int)

def childPosition (x : S2CellId) : Int := x.childPositionAt x.level

def rangeMin (x : S2CellId) : S2CellId := ⟨x.id - (x.lsb - 1)⟩

def rangeMax (x : S2CellId) : S2CellId := ⟨x.id + (x.lsb - 1)⟩

def contains (x other : S2CellId) : Bool := decide (x.rangeMin ≤ other) && decide (other ≤ x.rangeMax)

def intersects (x other : S2CellId) : Bool :=
  decide (other.rangeMin ≤ x.rangeMax) && decide (x.rangeMin ≤ other.rangeMax)

def parentAt (x : S2CellId) (level : Int) : S2CellId :=
  let newLsb := lsbForLevel level
  ⟨(x.id &&& (~~~newLsb + 1)) ||| newLsb⟩

def parent (x : S2CellId) : S2CellId :=
  let newLsb := x.lsb <<< 2
  ⟨(x.id &&& (~~~newLsb + 1)) ||| newLsb⟩

/-- `id_ + (2 * position + 1 - 4) * new_lsb`: the `int` factor converts to `uint64_t`. -/
def child (x : S2CellId) (position : Int) : S2CellId :=
  let newLsb := x.lsb >>> 2
  ⟨x.id + BitVec.ofInt 64 (2 * position + 1 - 4) * newLsb⟩

def childBegin (x : S2CellId) : S2CellId :=
  let oldLsb := x.lsb
  ⟨x.id - oldLsb + (oldLsb >>> 2)⟩

def childBeginAt (x : S2CellId) (level : Int) : S2CellId := ⟨x.id - x.lsb + lsbForLevel level⟩

def childEnd (x : S2CellId) : S2CellId :=
  let oldLsb := x.lsb
  ⟨x.id + oldLsb + (oldLsb >>> 2)⟩

def childEndAt (x : S2CellId) (level : Int) : S2CellId := ⟨x.id + x.lsb + lsbForLevel level⟩

def next (x : S2CellId) : S2CellId := ⟨x.id + (x.lsb <<< 1)⟩

def prev (x : S2CellId) : S2CellId := ⟨x.id - (x.lsb <<< 1)⟩

def nextWrap (x : S2CellId) : S2CellId :=
  let n := x.next
  if n.id < kWrapOffset then n else ⟨n.id - kWrapOffset⟩

def prevWrap (x : S2CellId) : S2CellId :=
  let p := x.prev
  if p.id < kWrapOffset then p else ⟨p.id + kWrapOffset⟩

def fromFace (face : Int) : S2CellId := ⟨(BitVec.ofInt 64 face <<< kPosBits) + lsbForLevel 0⟩

def fromFacePosLevel (face : Int) (pos : BitVec 64) (level : Int) : S2CellId :=
  (⟨(BitVec.ofInt 64 face <<< kPosBits) + (pos ||| 1)⟩ : S2CellId).parentAt level

def begin (level : Int) : S2CellId := (fromFace 0).childBeginAt level

def «end» (level : Int) : S2CellId := (fromFace 5).childEndAt level

end S2CellId

end S2Geo.S2v1
