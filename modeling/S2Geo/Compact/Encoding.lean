import S2Geo.Compact.CellId
import S2Geo.V1.Traversal

/-!
# The Compact id's fields

Every word is `pack face path level`, three fields at bits 61, 5 and 0. `isValid` is a
condition on the fields (`isValid_pack`): face below 6, level at most 28, and, from level
1 on, no path bit at or above `2 * level`; at level 0 the path is not looked at. The
level-`k` cell at index `q` encodes as `pack (q / 4^k) (q % 4^k) k`, or as the root marker
for face 0's root (`ofIndex`).
-/

namespace S2Geo.S2CellId

/-- Face, path and level fields laid side by side, as `|` joins them in the source. -/
def pack (f p l : Nat) : BitVec 64 := BitVec.ofNat 64 (f * 2 ^ 61 + p * 2 ^ 5 + l)

/-- The Compact id of the level-`k` cell at index `q`. -/
def ofIndex (k q : Nat) : S2CellId :=
  if k = 0 ∧ q = 0 then ⟨rootMarker⟩ else ⟨pack (q / 4 ^ k) (q % 4 ^ k) k⟩

/-- The face field of a word, as a number. -/
def faceField (x : S2CellId) : Nat := x.newId.toNat / 2 ^ 61

def pathField (x : S2CellId) : Nat := x.newId.toNat / 2 ^ 5 % 2 ^ 56

def levelField (x : S2CellId) : Nat := x.newId.toNat % 2 ^ 5

/-- The curve index of the cell a word names: the face, then the path's low `2 * level` bits,
the only ones `ToOldFormat` reads. -/
def cellIndex (x : S2CellId) : Nat :=
  x.faceField * 4 ^ x.levelField + x.pathField % 4 ^ x.levelField

/-- The words `ConvertToOldFormat` decodes: not 0, with face field below 6 and level field
at most 28. The root marker is one of them. -/
structure Decodable (x : S2CellId) : Prop where
  ne_zero : x.newId ≠ 0
  faceField_lt : x.faceField < 6
  levelField_le : x.levelField ≤ 28

theorem decodable_iff {x : S2CellId} :
    x.Decodable ↔ x.newId ≠ 0 ∧ x.faceField < 6 ∧ x.levelField ≤ 28 :=
  ⟨fun ⟨a, b, c⟩ => ⟨a, b, c⟩, fun ⟨a, b, c⟩ => ⟨a, b, c⟩⟩

instance : DecidablePred Decodable := fun _ => decidable_of_iff _ decodable_iff.symm

theorem toNat_lowBitsMask {n : Nat} (hn : n < 64) : (lowBitsMask n).toNat = 2 ^ n - 1 := by
  have h2 : 2 ^ n < 2 ^ 64 := Nat.pow_lt_pow_right (by decide) hn
  rw [lowBitsMask, BitVec.toNat_sub, BitVec.toNat_shiftLeft, show (1 : BitVec 64).toNat = 1 from rfl,
    Nat.shiftLeft_eq, Nat.one_mul, Nat.mod_eq_of_lt h2]
  have : 1 ≤ 2 ^ n := Nat.one_le_two_pow
  omega

theorem and_not_lowBitsMask_eq_zero_iff {P : BitVec 64} {t : Nat} (ht : t < 64) :
    P &&& ~~~(lowBitsMask t) = 0 ↔ P.toNat < 2 ^ t := by
  have hm : (~~~(lowBitsMask t)).toNat = 2 ^ 64 - 2 ^ t := by
    have : 1 ≤ 2 ^ t := Nat.one_le_two_pow
    rw [BitVec.toNat_not, toNat_lowBitsMask ht]; omega
  rw [BitVec.toNat_eq, BitVec.toNat_and, hm, show (0 : BitVec 64).toNat = 0 from rfl]
  exact and_sub_two_pow_eq_zero_iff P.isLt (by omega)

section Fields

variable {f p l : Nat} (hf : f < 8) (hp : p < 2 ^ 56) (hl : l < 32)
include hf hp hl

theorem toNat_pack : (pack f p l).toNat = f * 2 ^ 61 + p * 2 ^ 5 + l := by
  rw [pack, BitVec.toNat_ofNat, Nat.mod_eq_of_lt]; omega

theorem face_bits_pack : ((pack f p l >>> (64 - kFaceBits)).toNat) = f := by
  rw [BitVec.toNat_ushiftRight, toNat_pack hf hp hl, Nat.shiftRight_eq_div_pow, kFaceBits]; omega

theorem level_bits_pack : ((pack f p l &&& kLevelMask).toNat) = l := by
  rw [BitVec.toNat_and, toNat_pack hf hp hl, show kLevelMask.toNat = 2 ^ 5 - 1 from rfl,
    Nat.and_pow_two_sub_one_eq_mod]; omega

theorem path_bits_pack :
    (((pack f p l >>> kLevelBits) &&& lowBitsMask kPathBits).toNat) = p := by
  rw [BitVec.toNat_and, BitVec.toNat_ushiftRight, toNat_pack hf hp hl, Nat.shiftRight_eq_div_pow,
    toNat_lowBitsMask (by decide), Nat.and_pow_two_sub_one_eq_mod, kPathBits, kFaceBits,
    kLevelBits]; omega

/-- The fields joined with `|`, as the source builds a word, are the packed word. -/
theorem or_fields_eq_pack {P : BitVec 64} (hP : P.toNat = p) :
    (BitVec.ofInt 64 (f : Int) <<< (64 - kFaceBits)) ||| (P <<< kLevelBits) |||
      BitVec.ofInt 64 (l : Int) = pack f p l := by
  apply BitVec.eq_of_toNat_eq
  have hfi : ((f : Int) % ((2 ^ 64 : Nat) : Int)).toNat = f := by omega
  have hli : ((l : Int) % ((2 ^ 64 : Nat) : Int)).toNat = l := by omega
  rw [BitVec.toNat_or, BitVec.toNat_or, BitVec.toNat_shiftLeft, BitVec.toNat_shiftLeft,
    BitVec.toNat_ofInt, BitVec.toNat_ofInt, hfi, hli, hP, toNat_pack hf hp hl, Nat.shiftLeft_eq,
    Nat.shiftLeft_eq, kFaceBits, kLevelBits, Nat.lor_assoc,
    Nat.mod_eq_of_lt (show f * 2 ^ 61 < 2 ^ 64 by omega),
    Nat.mod_eq_of_lt (show p * 2 ^ 5 < 2 ^ 64 by omega), Nat.mul_comm p, Nat.mul_comm f,
    ← Nat.mul_add_lt_is_or (show l < 2 ^ 5 by omega), ← Nat.mul_add_lt_is_or (by omega)]
  omega

theorem isValid_pack : (⟨pack f p l⟩ : S2CellId).isValid = true ↔
    pack f p l ≠ 0 ∧ (pack f p l = rootMarker ∨ (f < 6 ∧ l ≤ 28 ∧ (l = 0 ∨ p < 4 ^ l))) := by
  have hhigh : ∀ t, t < 64 → ((pack f p l >>> 5) &&& lowBitsMask 56 &&&
      ~~~(lowBitsMask t) = 0 ↔ p < 2 ^ t) := fun t ht => by
    rw [and_not_lowBitsMask_eq_zero_iff ht]; exact iff_of_eq (congrArg (· < _) (path_bits_pack hf hp hl))
  simp only [isValid, face_bits_pack hf hp hl, level_bits_pack hf hp hl]
  by_cases h0 : pack f p l = 0
  · simp [h0]
  by_cases hm : pack f p l = rootMarker
  · have hfields : f = 0 ∧ l = 0 := by
      have := congrArg BitVec.toNat hm
      rw [toNat_pack hf hp hl, show rootMarker.toNat = 2 ^ 60 from rfl] at this
      omega
    obtain ⟨rfl, rfl⟩ := hfields
    simp [h0, hm]
  have htoNat : ((l : Int) * 2).toNat = l * 2 := by omega
  simp only [h0, hm, ne_eq, not_false_eq_true, true_and, false_or, and_false, if_false, htoNat,
    kMaxLevel, kPathBits, kFaceBits, kLevelBits]
  have hpow : 4 ^ l = 2 ^ (l * 2) := by rw [Nat.mul_comm, four_pow_eq_two_pow]
  have hpath : (pack f p l >>> 5 &&& lowBitsMask 56 &&& ~~~(lowBitsMask (l * 2)) = 0) ↔
      p < 4 ^ l := by
    rw [hpow]; exact hhigh _ (by omega)
  by_cases hf6 : f < 6
  swap; · rw [if_pos (by omega)]; exact iff_of_false Bool.false_ne_true (by omega)
  by_cases hl28 : l ≤ 28
  swap; · rw [if_neg (by omega), if_pos (by omega)]; exact iff_of_false Bool.false_ne_true (by omega)
  rw [if_neg (by omega), if_neg (by omega)]
  by_cases hl0 : l = 0
  · rw [if_pos (by omega)]; exact iff_of_true rfl ⟨hf6, hl28, .inl hl0⟩
  rw [if_neg (by omega), if_pos (by omega)]
  by_cases h28 : l = 28
  · rw [if_neg (by omega)]
    exact iff_of_true rfl ⟨hf6, hl28, .inr (by rw [h28]; simpa using hp)⟩
  rw [if_pos (by omega)]
  simpa [hf6, hl28, hl0] using hpath

theorem faceField_pack : (⟨pack f p l⟩ : S2CellId).faceField = f := by
  rw [faceField, toNat_pack hf hp hl]; omega

theorem pathField_pack : (⟨pack f p l⟩ : S2CellId).pathField = p := by
  rw [pathField, toNat_pack hf hp hl]; omega

theorem levelField_pack : (⟨pack f p l⟩ : S2CellId).levelField = l := by
  rw [levelField, toNat_pack hf hp hl]; omega

theorem pack_eq_rootMarker_iff : pack f p l = rootMarker ↔ f = 0 ∧ p = 2 ^ 55 ∧ l = 0 := by
  rw [BitVec.toNat_eq, toNat_pack hf hp hl, show rootMarker.toNat = 2 ^ 60 from rfl]; omega

theorem pack_eq_zero_iff : pack f p l = 0 ↔ f = 0 ∧ p = 0 ∧ l = 0 := by
  rw [BitVec.toNat_eq, toNat_pack hf hp hl, show (0 : BitVec 64).toNat = 0 from rfl]; omega

variable (hm : pack f p l ≠ rootMarker)
include hm

theorem face_pack : (⟨pack f p l⟩ : S2CellId).face = f := by
  rw [face, if_neg hm, face_bits_pack hf hp hl]

theorem level_pack : (⟨pack f p l⟩ : S2CellId).level = l := by
  rw [level, if_neg hm, level_bits_pack hf hp hl]

theorem toNat_path_pack (hl28 : l ≤ 28) :
    (⟨pack f p l⟩ : S2CellId).path.toNat = if l = 0 then 0 else p % 4 ^ l := by
  by_cases hl0 : l = 0
  · rw [path, level_pack hf hp hl hm, if_pos (by simp [hl0]), if_pos hl0]; rfl
  · have hpow : 4 ^ l = 2 ^ (l * 2) := by rw [Nat.mul_comm, four_pow_eq_two_pow]
    have hl2 : ((l : Int) * 2).toNat = l * 2 := by omega
    simp only [path, level_pack hf hp hl hm, Nat.cast_eq_zero, hl0, if_false, kMaxLevel,
      show (0 : Int) < l by omega, show (l : Int) ≤ (28 : Nat) by omega, and_self, if_true, hl2,
      BitVec.toNat_and, path_bits_pack hf hp hl, toNat_lowBitsMask (show l * 2 < 64 by omega),
      Nat.and_pow_two_sub_one_eq_mod, hpow]

end Fields

/-- A face word at level 0, as the source builds it before the root-marker fix-up. -/
theorem faceBits_eq_pack {f : Nat} (hf : f < 8) :
    BitVec.ofInt 64 (f : Int) <<< (64 - kFaceBits) = pack f 0 0 := by
  apply BitVec.eq_of_toNat_eq
  have hfi : ((f : Int) % ((2 ^ 64 : Nat) : Int)).toNat = f := by omega
  rw [BitVec.toNat_shiftLeft, BitVec.toNat_ofInt, hfi, toNat_pack hf (by decide) (by decide),
    Nat.shiftLeft_eq, kFaceBits]
  omega

/-- Two more path bits on the right: the step of both `child` and the encoder's packing. -/
theorem toNat_shiftLeft_two_or {R : BitVec 64} {r d : Nat} (hR : R.toNat = r)
    (hr : r < 4 ^ 27) (hd : d < 4) :
    ((R <<< 2) ||| BitVec.ofInt 64 (d : Int)).toNat = 4 * r + d := by
  have hr4 : r * 2 ^ 2 < 2 ^ 64 := by
    have : 4 ^ 27 * 2 ^ 2 < 2 ^ 64 := by decide
    omega
  have hdi : ((d : Int) % ((2 ^ 64 : Nat) : Int)).toNat = d := by omega
  rw [BitVec.toNat_or, BitVec.toNat_shiftLeft, hR, BitVec.toNat_ofInt, hdi, Nat.shiftLeft_eq,
    Nat.mod_eq_of_lt hr4, Nat.mul_comm, ← Nat.mul_add_lt_is_or (by omega : d < 2 ^ 2)]

theorem face_rootMarker : (⟨rootMarker⟩ : S2CellId).face = 0 := if_pos rfl

theorem level_rootMarker : (⟨rootMarker⟩ : S2CellId).level = 0 := if_pos rfl

theorem path_rootMarker : (⟨rootMarker⟩ : S2CellId).path = 0 := by
  simp [path, level_rootMarker]

theorem ofIndex_zero_zero : ofIndex 0 0 = ⟨rootMarker⟩ := if_pos ⟨rfl, rfl⟩

section OfIndex

variable {k q : Nat} (hk : k ≤ 28) (hq : q < 6 * 4 ^ k)
include hk hq

theorem pack_bounds_ofIndex : q / 4 ^ k < 8 ∧ q % 4 ^ k < 2 ^ 56 ∧ k < 32 := by
  have h4 : 4 ^ k ≤ 2 ^ 56 := by
    rw [four_pow_eq_two_pow]; exact Nat.pow_le_pow_right (by decide) (by omega)
  have := Nat.mod_lt q (pow_pos (by decide : 0 < 4) k)
  exact ⟨by rw [Nat.div_lt_iff_lt_mul (pow_pos (by decide) k)]; omega, by omega, by omega⟩

/-- Away from face 0's root, `ofIndex` is the packed word, which is not the marker. -/
theorem ofIndex_eq_pack (h0 : ¬(k = 0 ∧ q = 0)) :
    ofIndex k q = ⟨pack (q / 4 ^ k) (q % 4 ^ k) k⟩ ∧ pack (q / 4 ^ k) (q % 4 ^ k) k ≠ rootMarker := by
  obtain ⟨hf, hp, hl⟩ := pack_bounds_ofIndex hk hq
  refine ⟨if_neg h0, fun h => ?_⟩
  obtain ⟨-, h1, rfl⟩ := (pack_eq_rootMarker_iff hf hp hl).1 h
  omega

theorem face_ofIndex : (ofIndex k q).face = ((q / 4 ^ k : Nat) : Int) := by
  by_cases h0 : k = 0 ∧ q = 0
  · obtain ⟨rfl, rfl⟩ := h0; exact face_rootMarker
  · obtain ⟨hf, hp, hl⟩ := pack_bounds_ofIndex hk hq
    obtain ⟨he, hm⟩ := ofIndex_eq_pack hk hq h0
    rw [he, face_pack hf hp hl hm]

theorem level_ofIndex : (ofIndex k q).level = k := by
  by_cases h0 : k = 0 ∧ q = 0
  · obtain ⟨rfl, rfl⟩ := h0; exact level_rootMarker
  · obtain ⟨hf, hp, hl⟩ := pack_bounds_ofIndex hk hq
    obtain ⟨he, hm⟩ := ofIndex_eq_pack hk hq h0
    rw [he, level_pack hf hp hl hm]

theorem toNat_path_ofIndex : (ofIndex k q).path.toNat = q % 4 ^ k := by
  by_cases h0 : k = 0 ∧ q = 0
  · obtain ⟨rfl, rfl⟩ := h0; rw [ofIndex_zero_zero, path_rootMarker]; rfl
  · obtain ⟨hf, hp, hl⟩ := pack_bounds_ofIndex hk hq
    obtain ⟨he, hm⟩ := ofIndex_eq_pack hk hq h0
    rw [he, toNat_path_pack hf hp hl hm hk, Nat.mod_mod]
    split_ifs with h
    · subst h; omega
    · rfl

theorem isValid_ofIndex : (ofIndex k q).isValid = true := by
  by_cases h0 : k = 0 ∧ q = 0
  · obtain ⟨rfl, rfl⟩ := h0; rfl
  · obtain ⟨hf, hp, hl⟩ := pack_bounds_ofIndex hk hq
    rw [(ofIndex_eq_pack hk hq h0).1, isValid_pack hf hp hl, Ne, pack_eq_zero_iff hf hp hl]
    have := Nat.mod_lt q (pow_pos (by decide : 0 < 4) k)
    refine ⟨fun ⟨h1, h2, h3⟩ => h0 ⟨h3, ?_⟩, Or.inr ⟨?_, hk, Or.inr this⟩⟩
    · subst h3; simpa using h1
    · rw [Nat.div_lt_iff_lt_mul (pow_pos (by decide) k)]; omega

theorem levelField_ofIndex : (ofIndex k q).levelField = k := by
  by_cases h0 : k = 0 ∧ q = 0
  · obtain ⟨rfl, rfl⟩ := h0; rfl
  · obtain ⟨hf, hp, hl⟩ := pack_bounds_ofIndex hk hq
    rw [(ofIndex_eq_pack hk hq h0).1, levelField_pack hf hp hl]

theorem cellIndex_ofIndex : (ofIndex k q).cellIndex = q := by
  by_cases h0 : k = 0 ∧ q = 0
  · obtain ⟨rfl, rfl⟩ := h0; rfl
  · obtain ⟨hf, hp, hl⟩ := pack_bounds_ofIndex hk hq
    rw [(ofIndex_eq_pack hk hq h0).1, cellIndex, faceField_pack hf hp hl,
      pathField_pack hf hp hl, levelField_pack hf hp hl, Nat.mod_mod, Nat.div_add_mod']

end OfIndex

/-- Every word is the packing of its three fields. -/
theorem exists_pack (x : S2CellId) :
    ∃ f p l, f < 8 ∧ p < 2 ^ 56 ∧ l < 32 ∧ x = ⟨pack f p l⟩ := by
  have := x.newId.isLt
  refine ⟨x.faceField, x.pathField, x.levelField, by unfold faceField; omega,
    by unfold pathField; omega, by unfold levelField; omega, S2CellId.ext ?_⟩
  apply BitVec.eq_of_toNat_eq
  rw [pack, BitVec.toNat_ofNat, faceField, pathField, levelField]; omega

/-- The reading accessors read the fields; the root marker's fields read face 0, level 0. -/
theorem face_eq_faceField (x : S2CellId) : x.face = x.faceField := by
  obtain ⟨f, p, l, hf, hp, hl, rfl⟩ := exists_pack x
  by_cases hm : pack f p l = rootMarker
  · rw [face, if_pos hm, hm]; rfl
  · rw [face_pack hf hp hl hm, faceField_pack hf hp hl]

theorem level_eq_levelField (x : S2CellId) : x.level = x.levelField := by
  obtain ⟨f, p, l, hf, hp, hl, rfl⟩ := exists_pack x
  by_cases hm : pack f p l = rootMarker
  · rw [level, if_pos hm, hm]; rfl
  · rw [level_pack hf hp hl hm, levelField_pack hf hp hl]

theorem toNat_path {x : S2CellId} (hL : x.levelField ≤ 28) :
    x.path.toNat = x.pathField % 4 ^ x.levelField := by
  obtain ⟨f, p, l, hf, hp, hl, rfl⟩ := exists_pack x
  by_cases hm : pack f p l = rootMarker
  · obtain ⟨rfl, rfl, rfl⟩ := (pack_eq_rootMarker_iff hf hp hl).1 hm
    rw [hm, path_rootMarker]; rfl
  · rw [levelField_pack hf hp hl] at hL ⊢
    rw [toNat_path_pack hf hp hl hm hL, pathField_pack hf hp hl]
    split_ifs with h
    · subst h; omega
    · rfl

theorem cellIndex_div (x : S2CellId) : x.cellIndex / 4 ^ x.levelField = x.faceField := by
  have h4 := pow_pos (by decide : 0 < 4) x.levelField
  rw [cellIndex, Nat.add_comm, Nat.add_mul_div_right _ _ h4,
    Nat.div_eq_of_lt (Nat.mod_lt _ h4), Nat.zero_add]

theorem cellIndex_mod (x : S2CellId) :
    x.cellIndex % 4 ^ x.levelField = x.pathField % 4 ^ x.levelField := by
  rw [cellIndex, Nat.add_comm, Nat.add_mul_mod_self_right, Nat.mod_mod]

theorem cellIndex_lt {x : S2CellId} (h : x.Decodable) : x.cellIndex < 6 * 4 ^ x.levelField := by
  have h4 := Nat.mod_lt x.pathField (pow_pos (by decide : 0 < 4) x.levelField)
  have h6 : (x.faceField + 1) * 4 ^ x.levelField ≤ 6 * 4 ^ x.levelField :=
    Nat.mul_le_mul_right _ h.faceField_lt
  rw [Nat.succ_mul] at h6
  unfold cellIndex; omega

/-- `isValid` is decodability plus, from level 1 on, no path bit at or above `2 * level`. -/
theorem isValid_iff_decodable {x : S2CellId} :
    x.isValid = true ↔ x.Decodable ∧ (x.levelField = 0 ∨ x.pathField < 4 ^ x.levelField) := by
  obtain ⟨f, p, l, hf, hp, hl, rfl⟩ := exists_pack x
  rw [decodable_iff, isValid_pack hf hp hl, faceField_pack hf hp hl, pathField_pack hf hp hl,
    levelField_pack hf hp hl]
  by_cases hm : pack f p l = rootMarker
  · obtain ⟨rfl, rfl, rfl⟩ := (pack_eq_rootMarker_iff hf hp hl).1 hm
    simp [hm, show rootMarker ≠ 0 by decide]
  · simp only [hm, false_or]
    constructor
    · rintro ⟨h0, h1, h2, h3⟩; exact ⟨⟨h0, h1, h2⟩, h3⟩
    · rintro ⟨⟨h0, h1, h2⟩, h3⟩; exact ⟨h0, h1, h2, h3⟩

theorem decodable_of_isValid {x : S2CellId} (h : x.isValid = true) : x.Decodable :=
  (isValid_iff_decodable.1 h).1

/-- A valid word from level 1 on, or the root marker, is the `ofIndex` of its cell. -/
theorem eq_ofIndex_of_isValid {x : S2CellId} (h : x.isValid = true)
    (h1 : x.levelField ≠ 0 ∨ x.newId = rootMarker) : x = ofIndex x.levelField x.cellIndex := by
  obtain ⟨⟨h0, hF, hL⟩, hP⟩ := isValid_iff_decodable.1 h
  obtain ⟨f, p, l, hf, hp, hl, rfl⟩ := exists_pack x
  rcases h1 with h1 | hm
  · have hq := cellIndex_lt ⟨h0, hF, hL⟩
    rw [ofIndex, if_neg (fun h => h1 h.1), cellIndex_div, cellIndex_mod]
    rw [levelField_pack hf hp hl, pathField_pack hf hp hl] at hP
    rw [levelField_pack hf hp hl] at h1
    rw [faceField_pack hf hp hl, pathField_pack hf hp hl, levelField_pack hf hp hl,
      Nat.mod_eq_of_lt (hP.resolve_left h1)]
  · obtain ⟨rfl, rfl, rfl⟩ := (pack_eq_rootMarker_iff hf hp hl).1 hm
    rw [cellIndex, faceField_pack hf hp hl, pathField_pack hf hp hl, levelField_pack hf hp hl]
    simp only [Nat.pow_zero, Nat.mod_one, Nat.zero_mul, Nat.add_zero]
    rw [ofIndex_zero_zero]; exact S2CellId.ext hm

end S2Geo.S2CellId
