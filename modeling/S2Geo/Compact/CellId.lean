import S2Geo.V1.CellId

/-!
# The Compact cell id, `S2CellId` of `s2cell_id.h`

A 64-bit word `[face:3][path:56][level:5]`: the path holds one two-bit child position per
level, root first, in its low `2 * level` bits, and levels stop at 28. Face 0's root cell
would encode as the invalid 0, so it is the root marker, the path field's top bit.
Anything about curve positions (order, ranges, iteration) goes through the Primary id:
`ToOldFormat` walks `child` down from the face cell, and the constructor from a Primary id,
`ConvertFromOldFormat`, climbs with `child_position` and `parent` back to it.
-/

namespace S2Geo

@[ext] structure S2CellId where
  newId : BitVec 64
  deriving DecidableEq, Repr

namespace S2CellId

def kFaceBits : Nat := 3
def kNumFaces : Nat := 6
def kLevelBits : Nat := 5
def kMaxLevel : Nat := 28
def kPathBits : Nat := 64 - kFaceBits - kLevelBits
def kLevelMask : BitVec 64 := ((1 : BitVec 64) <<< kLevelBits) - 1

/-- `1ULL << (kLevelBits + kPathBits - 1)`, the encoding of face 0's root cell. -/
def rootMarker : BitVec 64 := (1 : BitVec 64) <<< (kLevelBits + kPathBits - 1)

/-- `(1ULL << n) - 1`, the mask of the `n` low bits. -/
def lowBitsMask (n : Nat) : BitVec 64 := ((1 : BitVec 64) <<< n) - 1

def none : S2CellId := ⟨0⟩

def sentinel : S2CellId := ⟨~~~0⟩

def face (x : S2CellId) : Int :=
  if x.newId = rootMarker then 0 else ((x.newId >>> (64 - kFaceBits)).toNat : Int)

def level (x : S2CellId) : Int :=
  if x.newId = rootMarker then 0 else ((x.newId &&& kLevelMask).toNat : Int)

def path (x : S2CellId) : BitVec 64 :=
  let l := x.level
  if l = 0 then 0
  else
    let rawPath := (x.newId >>> kLevelBits) &&& lowBitsMask kPathBits
    if 0 < l ∧ l ≤ kMaxLevel then rawPath &&& lowBitsMask (l * 2).toNat else rawPath

def isValid (x : S2CellId) : Bool :=
  if x.newId = 0 then false
  else
    let f : Int := (x.newId >>> (64 - kFaceBits)).toNat
    let l : Int := (x.newId &&& kLevelMask).toNat
    if l = 0 ∧ f = 0 ∧ x.newId = rootMarker then true
    else if f < 0 ∨ f ≥ 6 then false
    else if l < 0 ∨ l > kMaxLevel then false
    else if l = 0 then true
    else
      let currentPath := (x.newId >>> kLevelBits) &&& lowBitsMask kPathBits
      if 0 < l then
        let usedBits := l * 2
        if usedBits < kPathBits then
          let highBitsMask := ~~~(lowBitsMask usedBits.toNat)
          if (currentPath &&& highBitsMask) ≠ 0 then false else true
        else true
      else true

/-- The `while (current.level() > 0)` loop of `ConvertFromOldFormat`: push the child position
and climb to the parent; `none` is its `return 0`. A Primary level is at most 30 and each
round lowers it by one, so `fuel` is a bound on the rounds, never reached from a valid id. -/
def collectPath : Nat → S2v1.S2CellId → List Int → Option (S2v1.S2CellId × List Int)
  | 0, _, _ => Option.none
  | fuel + 1, current, pathStack =>
    if current.level > 0 then
      let childPos := current.childPosition
      if childPos < 0 ∨ childPos ≥ 4 then Option.none
      else collectPath fuel current.parent (pathStack ++ [childPos])
    else some (current, pathStack)

/-- `for (i = size - 1; i >= 0; --i) path = (path << 2) | path_stack[i]`: the positions,
pushed leaf first, packed root first. -/
def packPathStack (pathStack : List Int) : BitVec 64 :=
  pathStack.foldr (fun childPos path => (path <<< 2) ||| BitVec.ofInt 64 childPos) 0

def convertFromOldFormat (oldId : S2v1.S2CellId) : BitVec 64 :=
  if !oldId.isValid then 0
  else
    let face := oldId.face
    let level := oldId.level
    if level > kMaxLevel then 0
    else if face < 0 ∨ face ≥ 6 then 0
    else if level = 0 then
      let result := (BitVec.ofInt 64 face <<< (64 - kFaceBits)) ||| 0
      if result = 0 then rootMarker else result
    else
      match collectPath (S2v1.S2CellId.kMaxLevel + 1) oldId [] with
      | Option.none => 0
      | some (current, pathStack) =>
        if current.face ≠ face then 0
        else
          (BitVec.ofInt 64 face <<< (64 - kFaceBits)) ||| (packPathStack pathStack <<< kLevelBits) |||
            BitVec.ofInt 64 level

/-- The `for (int i = 0; i < level; ++i)` loop of `ConvertToOldFormat`, `n` rounds from `i`. -/
def childLoop (path : BitVec 64) (level : Nat) : Nat → Nat → S2v1.S2CellId → S2v1.S2CellId
  | _, 0, result => result
  | i, n + 1, result =>
    let childPos : Int := ((path >>> (2 * (level - 1 - i))) &&& 3).toNat
    if childPos < 0 ∨ childPos ≥ 4 then S2v1.S2CellId.none
    else
      let result := result.child childPos
      if !result.isValid then S2v1.S2CellId.none
      else childLoop path level (i + 1) n result

def convertToOldFormat (newId : BitVec 64) : S2v1.S2CellId :=
  if newId = 0 then S2v1.S2CellId.none
  else if newId = rootMarker then S2v1.S2CellId.fromFace 0
  else
    let face : Int := (newId >>> (64 - kFaceBits)).toNat
    let level : Int := (newId &&& kLevelMask).toNat
    if face < 0 ∨ face ≥ 6 then S2v1.S2CellId.none
    else if level < 0 ∨ level > kMaxLevel then S2v1.S2CellId.none
    else if level = 0 then S2v1.S2CellId.fromFace face
    else
      let path := (newId >>> kLevelBits) &&& lowBitsMask kPathBits
      childLoop path level.toNat 0 level.toNat (S2v1.S2CellId.fromFace face)

/-- The constructor `S2CellId(const OriginalS2CellId&)`. -/
def fromS2CellId (oldId : S2v1.S2CellId) : S2CellId := ⟨convertFromOldFormat oldId⟩

def toOldFormat (x : S2CellId) : S2v1.S2CellId := convertToOldFormat x.newId

def pos (x : S2CellId) : BitVec 64 := x.toOldFormat.pos

def getSizeIJ (x : S2CellId) : Int := x.toOldFormat.getSizeIJ

def getSizeIJAt (level : Int) : Int := S2v1.S2CellId.getSizeIJAt level

def canRepresentInNewFormat (oldId : S2v1.S2CellId) : Bool := decide (oldId.level ≤ kMaxLevel)

/-- Order goes through the Primary ids: `ToOldFormat() < other.ToOldFormat()`. -/
instance : LT S2CellId := ⟨fun x y => x.toOldFormat < y.toOldFormat⟩

/-- `!(other < *this)`. -/
instance : LE S2CellId := ⟨fun x y => ¬ y < x⟩

instance (x y : S2CellId) : Decidable (x < y) :=
  inferInstanceAs (Decidable (x.toOldFormat < y.toOldFormat))

instance (x y : S2CellId) : Decidable (x ≤ y) := inferInstanceAs (Decidable (¬ y < x))

def fromFaceLevel (face level : Int) : S2CellId :=
  if face < 0 ∨ face > 5 ∨ level < 0 ∨ level > kMaxLevel then S2CellId.none
  else if level = 0 then
    let id := (BitVec.ofInt 64 face <<< (64 - kFaceBits)) ||| BitVec.ofInt 64 level
    if id = 0 then ⟨rootMarker⟩ else ⟨id⟩
  else
    let oldId := S2v1.S2CellId.fromFacePosLevel face 0 level
    if !oldId.isValid then S2CellId.none else fromS2CellId oldId

def fromFace (face : Int) : S2CellId := fromS2CellId (S2v1.S2CellId.fromFace face)

def fromFacePosLevel (face : Int) (pos : BitVec 64) (level : Int) : S2CellId :=
  if level > kMaxLevel then S2CellId.none
  else fromS2CellId (S2v1.S2CellId.fromFacePosLevel face pos level)

/-- What `FromPoint`, `FromLatLng`, `FromFaceIJ`, the `S2Point` and `S2LatLng` constructors,
`Decode` and `Coder::Decode` do with the Primary id they have built or decoded: one past
level 28 is first cut to `old_id.parent(kMaxLevel)`. -/
def fromS2CellIdAtMaxLevel (oldId : S2v1.S2CellId) : S2CellId :=
  let oldId := if oldId.level > kMaxLevel then oldId.parentAt kMaxLevel else oldId
  fromS2CellId oldId

/-- `FromToken` and `FromDebugString`, which first `return S2CellId()` on an invalid Primary
id. -/
def fromValidS2CellIdAtMaxLevel (oldId : S2v1.S2CellId) : S2CellId :=
  if !oldId.isValid then S2CellId.none else fromS2CellIdAtMaxLevel oldId

def begin (level : Int) : S2CellId :=
  if level > kMaxLevel then S2CellId.none else fromS2CellId (S2v1.S2CellId.begin level)

def «end» (level : Int) : S2CellId :=
  if level > kMaxLevel then S2CellId.none else fromS2CellId (S2v1.S2CellId.«end» level)

def isLeaf (x : S2CellId) : Bool := x.level == kMaxLevel

def isFace (x : S2CellId) : Bool := x.level == 0

def parent (x : S2CellId) : S2CellId :=
  if !x.isValid then S2CellId.none
  else if x.level = 0 then S2CellId.none
  else
    let parentLevel := x.level - 1
    let parentPath := x.path >>> 2
    let parentId := (BitVec.ofInt 64 x.face <<< (64 - kFaceBits)) ||| (parentPath <<< kLevelBits) |||
      BitVec.ofInt 64 parentLevel
    if parentId = 0 then ⟨rootMarker⟩ else ⟨parentId⟩

/-- `while (current.level() > target_level) current = current.parent();`. A round lowers a
valid id's level by one and takes an invalid one to `None()`, of level 0, so the level span
is exactly the number of rounds the loop can make. -/
def parentLoop (targetLevel : Int) : Nat → S2CellId → S2CellId
  | 0, current => current
  | fuel + 1, current =>
    if current.level > targetLevel then parentLoop targetLevel fuel current.parent else current

def parentAt (x : S2CellId) (targetLevel : Int) : S2CellId :=
  if targetLevel < 0 ∨ targetLevel > kMaxLevel then S2CellId.none
  else if targetLevel ≥ x.level then x
  else if x.level - targetLevel > 5 then fromS2CellId (x.toOldFormat.parentAt targetLevel)
  else parentLoop targetLevel (x.level - targetLevel).toNat x

def child (x : S2CellId) (position : Int) : S2CellId :=
  if !x.isValid then S2CellId.none
  else if position < 0 ∨ position ≥ 4 then S2CellId.none
  else if x.level ≥ kMaxLevel then S2CellId.none
  else
    let childLevel := x.level + 1
    let childPath := (x.path <<< 2) ||| BitVec.ofInt 64 position
    ⟨(BitVec.ofInt 64 x.face <<< (64 - kFaceBits)) ||| (childPath <<< kLevelBits) |||
      BitVec.ofInt 64 childLevel⟩

def childPosition (x : S2CellId) : Int :=
  if !x.isValid then -1
  else if x.level = 0 then -1
  else ((x.path &&& 3).toNat : Int)

def childPositionAt (x : S2CellId) (targetLevel : Int) : Int :=
  if !x.isValid then -1
  else
    let l := x.level
    if targetLevel ≤ 0 ∨ targetLevel > l then -1
    else
      let currentPath := x.path
      let shift := 2 * (l - targetLevel)
      (((currentPath >>> shift.toNat) &&& 3).toNat : Int)

def rangeMin (x : S2CellId) : S2CellId :=
  if !x.isValid then S2CellId.none
  else
    let oldFormat := x.toOldFormat
    if !oldFormat.isValid then S2CellId.none
    else
      let rangeMinOld := oldFormat.rangeMin
      if !rangeMinOld.isValid then S2CellId.none
      else
        let rangeMinOld :=
          if rangeMinOld.level > kMaxLevel then rangeMinOld.parentAt kMaxLevel else rangeMinOld
        fromS2CellId rangeMinOld

def rangeMax (x : S2CellId) : S2CellId :=
  if !x.isValid then S2CellId.none
  else
    let oldFormat := x.toOldFormat
    if !oldFormat.isValid then S2CellId.none
    else
      let rangeMaxOld := oldFormat.rangeMax
      if !rangeMaxOld.isValid then S2CellId.none
      else
        let rangeMaxOld :=
          if rangeMaxOld.level > kMaxLevel then rangeMaxOld.parentAt kMaxLevel else rangeMaxOld
        fromS2CellId rangeMaxOld

def childBegin (x : S2CellId) : S2CellId :=
  if x.level ≥ kMaxLevel then S2CellId.none else x.child 0

def childBeginAt (x : S2CellId) (targetLevel : Int) : S2CellId :=
  if targetLevel > kMaxLevel ∨ targetLevel ≤ x.level then S2CellId.none
  else fromS2CellId (x.toOldFormat.childBeginAt targetLevel)

def childEnd (x : S2CellId) : S2CellId :=
  if x.level ≥ kMaxLevel then S2CellId.none
  else
    let childEndOld := x.toOldFormat.childEnd
    if childEndOld.level > kMaxLevel then S2CellId.none else fromS2CellId childEndOld

def childEndAt (x : S2CellId) (targetLevel : Int) : S2CellId :=
  if targetLevel > kMaxLevel ∨ targetLevel ≤ x.level then S2CellId.none
  else fromS2CellId (x.toOldFormat.childEndAt targetLevel)

/-- The shape shared by `next`, `prev`, `next_wrap` and `prev_wrap`: apply the Primary step,
and give up (`None()`) past level 28. -/
def delegateStep (step : S2v1.S2CellId → S2v1.S2CellId) (x : S2CellId) : S2CellId :=
  let stepped := step x.toOldFormat
  if stepped.level > kMaxLevel then S2CellId.none else fromS2CellId stepped

def next (x : S2CellId) : S2CellId := delegateStep S2v1.S2CellId.next x

def prev (x : S2CellId) : S2CellId := delegateStep S2v1.S2CellId.prev x

def nextWrap (x : S2CellId) : S2CellId := delegateStep S2v1.S2CellId.nextWrap x

def prevWrap (x : S2CellId) : S2CellId := delegateStep S2v1.S2CellId.prevWrap x

def contains (x other : S2CellId) : Bool := x.toOldFormat.contains other.toOldFormat

def intersects (x other : S2CellId) : Bool := x.toOldFormat.intersects other.toOldFormat

/-- One entry of `GetEdgeNeighbors`, from the Primary neighbor that
`ToOldFormat().GetEdgeNeighbors` wrote in its place. -/
def edgeNeighbor (oldNeighbor : S2v1.S2CellId) : S2CellId :=
  if oldNeighbor.isValid && decide (oldNeighbor.level ≤ kMaxLevel) then fromS2CellId oldNeighbor
  else if oldNeighbor.isValid then fromS2CellId (oldNeighbor.parentAt kMaxLevel)
  else S2CellId.none

def getEdgeNeighbors (oldNeighbors : Fin 4 → S2v1.S2CellId) : Fin 4 → S2CellId :=
  fun i => edgeNeighbor (oldNeighbors i)

/-- `AppendVertexNeighbors` and `AppendAllNeighbors` after their Primary call: nothing for a
level outside `0..28`, else the loop that pushes each valid Primary neighbor of level at most
28, converted, onto `output`. -/
def appendNeighbors (nbrLevel : Int) (oldNeighbors : List S2v1.S2CellId) (output : List S2CellId) :
    List S2CellId :=
  if nbrLevel > kMaxLevel ∨ nbrLevel < 0 then output
  else
    oldNeighbors.foldl (fun (output : List S2CellId) (neighbor : S2v1.S2CellId) =>
      if neighbor.isValid && decide (neighbor.level ≤ kMaxLevel) then output ++ [fromS2CellId neighbor]
      else output) output

end S2CellId

end S2Geo
