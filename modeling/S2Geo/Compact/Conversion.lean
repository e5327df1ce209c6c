import S2Geo.Compact.Encoding

/-!
# Conversion between the Primary and the Compact id

`ConvertToOldFormat` walks `child` down from the face cell, one path digit a round
(`childLoop_ofIndex`), and `ConvertFromOldFormat` climbs with `child_position` and `parent`,
then packs the positions it pushed (`collectPath_ofIndex`, `packPathStack_leafDigits`). On
the cells of level at most 28 the two are inverse (`fromS2CellId_ofIndex`,
`toOldFormat_ofIndex`). The decoder reads the face, the level and the low `2 * level` path
bits only, so it also decodes words `isValid` rejects (`isValid_toOldFormat_iff`).
-/

namespace S2Geo.S2CellId

/-- The two-bit digit `m` places from the right, as every path reader extracts it. -/
theorem toNat_shiftRight_and_three (path : BitVec 64) (m : Nat) :
    ((path >>> (2 * m)) &&& 3).toNat = path.toNat / 4 ^ m % 4 := by
  rw [BitVec.toNat_and, BitVec.toNat_ushiftRight, Nat.shiftRight_eq_div_pow,
    show (3 : BitVec 64).toNat = 2 ^ 2 - 1 from rfl, Nat.and_pow_two_sub_one_eq_mod,
    four_pow_eq_two_pow]

/-- The decoding loop: from the level-`i` cell `Q`, the `n` remaining rounds append the
path's `n` low digits. -/
theorem childLoop_ofIndex (path : BitVec 64) {L : Nat} (hL : L ≤ 28) :
    ∀ n i Q, i + n = L → Q < 6 * 4 ^ i →
      childLoop path L i n (S2v1.S2CellId.ofIndex i Q) =
        S2v1.S2CellId.ofIndex L (Q * 4 ^ n + path.toNat % 4 ^ n)
  | 0, i, Q, h, _ => by subst h; simp [childLoop, Nat.mod_one]
  | n + 1, i, Q, h, hQ => by
    have hd4 : path.toNat / 4 ^ n % 4 < 4 := Nat.mod_lt _ (by decide)
    have hQ' : 4 * Q + path.toNat / 4 ^ n % 4 < 6 * 4 ^ (i + 1) := by rw [pow_succ]; omega
    simp only [childLoop, show L - 1 - i = n by omega, toNat_shiftRight_and_three]
    rw [if_neg (by omega), S2v1.S2CellId.child_ofIndex (by omega) (by omega) (by omega),
      S2v1.S2CellId.isValid_ofIndex (by omega) (by omega), decide_eq_true hQ',
      Bool.not_true, if_neg Bool.false_ne_true, childLoop_ofIndex path hL n (i + 1) _ (by omega) hQ',
      Nat.mod_pow_succ, pow_succ]
    congr 1
    ring

/-- `ToOldFormat` of a decodable word is the Primary id of the word's cell. -/
theorem toOldFormat_of_decodable {x : S2CellId} (h : x.Decodable) :
    x.toOldFormat = S2v1.S2CellId.ofIndex x.levelField x.cellIndex := by
  obtain ⟨h0, hF, hL⟩ := h
  obtain ⟨f, p, l, hf, hp, hl, rfl⟩ := exists_pack x
  simp only [cellIndex, faceField_pack hf hp hl, pathField_pack hf hp hl,
    levelField_pack hf hp hl] at hF hL ⊢
  have hface : S2v1.S2CellId.fromFace (f : Int) = S2v1.S2CellId.ofIndex 0 f :=
    S2v1.S2CellId.fromFace_eq (by omega)
  by_cases hm : pack f p l = rootMarker
  · obtain ⟨rfl, rfl, rfl⟩ := (pack_eq_rootMarker_iff hf hp hl).1 hm
    simpa [toOldFormat, convertToOldFormat, hm, show rootMarker ≠ 0 by decide] using hface
  · simp only [toOldFormat, convertToOldFormat, face_bits_pack hf hp hl, level_bits_pack hf hp hl,
      if_neg h0, if_neg hm, kMaxLevel]
    rw [if_neg (by omega), if_neg (by omega)]
    split_ifs with hl0
    · obtain rfl : l = 0 := by exact_mod_cast hl0
      rw [hface, pow_zero, Nat.mod_one, Nat.mul_one, Nat.add_zero]
    · rw [hface, Int.toNat_ofNat, childLoop_ofIndex _ hL l 0 f (by omega) (by simpa using hF),
        path_bits_pack hf hp hl]

theorem toOldFormat_of_not_decodable {x : S2CellId} (h : ¬x.Decodable) :
    x.toOldFormat = S2v1.S2CellId.none := by
  obtain ⟨f, p, l, hf, hp, hl, rfl⟩ := exists_pack x
  rw [decodable_iff, faceField_pack hf hp hl, levelField_pack hf hp hl] at h
  have hm : pack f p l ≠ rootMarker := fun hm => by
    obtain ⟨rfl, rfl, rfl⟩ := (pack_eq_rootMarker_iff hf hp hl).1 hm
    exact h ⟨fun h0 => by have := (pack_eq_zero_iff hf hp hl).1 h0; omega, by decide, by decide⟩
  simp only [toOldFormat, convertToOldFormat, face_bits_pack hf hp hl, level_bits_pack hf hp hl,
    if_neg hm, kMaxLevel]
  split_ifs <;> first | exact absurd ⟨‹_›, by omega, by omega⟩ h | rfl

/-- `ToOldFormat` accepts exactly the decodable words: a word with a stray path bit above
`2 * level` decodes to the cell of its low bits. -/
theorem isValid_toOldFormat_iff {x : S2CellId} : x.toOldFormat.isValid = true ↔ x.Decodable := by
  by_cases h : x.Decodable
  · have hq := cellIndex_lt h
    refine iff_of_true ?_ h
    rw [toOldFormat_of_decodable h, S2v1.S2CellId.isValid_ofIndex (by have := h.3; omega)
      (by omega), decide_eq_true hq]
  · rw [toOldFormat_of_not_decodable h]
    exact iff_of_false (by decide) h

theorem toOldFormat_ofIndex {k q : Nat} (hk : k ≤ 28) (hq : q < 6 * 4 ^ k) :
    (ofIndex k q).toOldFormat = S2v1.S2CellId.ofIndex k q := by
  rw [toOldFormat_of_decodable (decodable_of_isValid (isValid_ofIndex hk hq)),
    levelField_ofIndex hk hq, cellIndex_ofIndex hk hq]

/-- The child positions of the level-`k` cell at index `q`, leaf first: the order in which
`ConvertFromOldFormat` pushes them. -/
def leafDigits : Nat → Nat → List Int
  | 0, _ => []
  | k + 1, q => ((q % 4 : Nat) : Int) :: leafDigits k (q / 4)

/-- The encoding loop climbs from the level-`k` cell to its face, pushing the positions. -/
theorem collectPath_ofIndex {k : Nat} :
    ∀ {fuel q : Nat} (stack : List Int), k < fuel → k ≤ 30 → q < 8 * 4 ^ k →
      collectPath fuel (S2v1.S2CellId.ofIndex k q) stack =
        some (S2v1.S2CellId.ofIndex 0 (q / 4 ^ k), stack ++ leafDigits k q) := by
  induction k with
  | zero =>
    intro fuel q stack hf _ hq
    obtain ⟨fuel, rfl⟩ : ∃ m, fuel = m + 1 := ⟨fuel - 1, by omega⟩
    simp [collectPath, S2v1.S2CellId.level_ofIndex (le_refl _ |>.trans (by decide)) hq, leafDigits]
  | succ k ih =>
    intro fuel q stack hf hk hq
    obtain ⟨fuel, rfl⟩ : ∃ m, fuel = m + 1 := ⟨fuel - 1, by omega⟩
    have hq4 : q / 4 < 8 * 4 ^ k := by rw [pow_succ] at hq; omega
    simp only [collectPath, S2v1.S2CellId.level_ofIndex hk hq,
      S2v1.S2CellId.childPosition_ofIndex hk hq (by omega),
      S2v1.S2CellId.parent_ofIndex hk hq (by omega), Nat.add_sub_cancel]
    rw [if_pos (by omega), if_neg (by omega), ih _ (by omega) (by omega) hq4, List.append_assoc,
      Nat.div_div_eq_div_mul, ← pow_succ']
    rfl

/-- The positions pushed leaf first, packed root first, are the path's low `2 * k` bits. -/
theorem packPathStack_leafDigits : ∀ {k : Nat} (q : Nat), k ≤ 28 →
    (packPathStack (leafDigits k q)).toNat = q % 4 ^ k
  | 0, q, _ => by simp [packPathStack, leafDigits, Nat.mod_one]
  | k + 1, q, hk => by
    have hr : q / 4 % 4 ^ k < 4 ^ 27 :=
      (Nat.mod_lt _ (pow_pos (by decide) k)).trans_le (Nat.pow_le_pow_right (by decide) (by omega))
    show ((packPathStack (leafDigits k (q / 4)) <<< 2) |||
      BitVec.ofInt 64 ((q % 4 : Nat) : Int)).toNat = _
    rw [toNat_shiftLeft_two_or (packPathStack_leafDigits (q / 4) (by omega)) hr (Nat.mod_lt _ (by decide)),
      show 4 ^ (k + 1) = 4 * 4 ^ k from pow_succ' 4 k, Nat.mod_mul]
    omega

/-- `ConvertFromOldFormat` of a Primary cell of level at most 28 is the Compact id of the
same cell. -/
theorem fromS2CellId_ofIndex {k q : Nat} (hk : k ≤ 28) (hq : q < 6 * 4 ^ k) :
    fromS2CellId (S2v1.S2CellId.ofIndex k q) = ofIndex k q := by
  have hk30 : k ≤ 30 := by omega
  have hq8 : q < 8 * 4 ^ k := by omega
  obtain ⟨hf, hp, hl⟩ := pack_bounds_ofIndex hk hq
  have hf6 : q / 4 ^ k < 6 := (Nat.div_lt_iff_lt_mul (pow_pos (by decide) k)).2 hq
  ext1
  simp only [fromS2CellId, convertFromOldFormat, S2v1.S2CellId.isValid_ofIndex hk30 hq8,
    decide_eq_true hq, Bool.not_true, S2v1.S2CellId.level_ofIndex hk30 hq8,
    S2v1.S2CellId.face_ofIndex hk30 hq8, kMaxLevel, S2v1.S2CellId.kMaxLevel]
  rw [if_neg Bool.false_ne_true, if_neg (by omega),
    if_neg (not_or.2 ⟨not_lt.2 (Int.natCast_nonneg _), not_le.2 (by exact_mod_cast hf6)⟩)]
  rcases Nat.eq_zero_or_pos k with rfl | hk1
  · rw [if_pos Nat.cast_zero, show ∀ x : BitVec 64, x ||| 0 = x from fun _ => BitVec.or_zero,
      faceBits_eq_pack hf]
    have hz := @pack_eq_zero_iff (q / 4 ^ 0) 0 0 hf (by omega) (by omega)
    by_cases hq0 : q = 0
    · subst hq0; rw [if_pos (hz.2 ⟨rfl, rfl, rfl⟩), ofIndex_zero_zero]
    · rw [if_neg (fun h => hq0 (by have := hz.1 h; omega)), (ofIndex_eq_pack hk hq (by omega)).1]
      congr 1; omega
  · have hface : (S2v1.S2CellId.ofIndex 0 (q / 4 ^ k)).face = ((q / 4 ^ k : Nat) : Int) := by
      rw [S2v1.S2CellId.face_ofIndex (by decide) (by omega), pow_zero, Nat.div_one]
    rw [if_neg (by omega), collectPath_ofIndex [] (by omega) hk30 hq8]
    simp only [List.nil_append, hface, ne_eq, not_true_eq_false, if_false]
    rw [or_fields_eq_pack hf hp hl (packPathStack_leafDigits q hk), (ofIndex_eq_pack hk hq (by omega)).1]

theorem fromS2CellId_of_not_representable {c : S2v1.S2CellId}
    (h : (c.isValid && canRepresentInNewFormat c) = false) : fromS2CellId c = none := by
  ext1
  cases hv : c.isValid
  · simp [fromS2CellId, convertFromOldFormat, hv]; rfl
  · simp only [hv, Bool.true_and, canRepresentInNewFormat, decide_eq_false_iff_not, not_le] at h
    simp [fromS2CellId, convertFromOldFormat, hv, h]; rfl

/-- A Primary id goes to a valid Compact id exactly when it is valid and of level at most 28;
then the Compact id keeps its face and level and converts back to it, and otherwise it is 0. -/
theorem fromS2CellId_roundTrip (c : S2v1.S2CellId) :
    (fromS2CellId c).isValid = (c.isValid && canRepresentInNewFormat c) ∧
    (c.isValid = true → c.level ≤ kMaxLevel →
      (fromS2CellId c).face = c.face ∧ (fromS2CellId c).level = c.level ∧
        (fromS2CellId c).toOldFormat = c) ∧
    ((c.isValid && canRepresentInNewFormat c) = false → (fromS2CellId c).newId = 0) := by
  by_cases hc : c.isValid = true ∧ c.level ≤ kMaxLevel
  · obtain ⟨k, q, hk, hq, rfl⟩ := S2v1.S2CellId.exists_ofIndex_of_isValid hc.1
    have hlev := S2v1.S2CellId.level_ofIndex hk (by omega : q < 8 * 4 ^ k)
    have hk28 : k ≤ 28 := by have := hc.2; rw [hlev, kMaxLevel] at this; omega
    have hrep : (S2v1.S2CellId.isValid (S2v1.S2CellId.ofIndex k q) &&
        canRepresentInNewFormat (S2v1.S2CellId.ofIndex k q)) = true := by
      simp [hc.1, canRepresentInNewFormat, hc.2]
    rw [fromS2CellId_ofIndex hk28 hq, hrep, isValid_ofIndex hk28 hq, face_ofIndex hk28 hq,
      level_ofIndex hk28 hq, S2v1.S2CellId.face_ofIndex hk (by omega), hlev,
      toOldFormat_ofIndex hk28 hq]
    exact ⟨rfl, fun _ _ => ⟨rfl, rfl, rfl⟩, fun h => Bool.noConfusion h⟩
  · have hrep : (c.isValid && canRepresentInNewFormat c) = false := by
      simpa [canRepresentInNewFormat] using hc
    rw [fromS2CellId_of_not_representable hrep, hrep]
    exact ⟨rfl, fun h1 h2 => absurd ⟨h1, h2⟩ hc, fun _ => rfl⟩

theorem fromS2CellId_toOldFormat_eq_ofIndex {x : S2CellId} (h : x.isValid = true) :
    fromS2CellId x.toOldFormat = ofIndex x.levelField x.cellIndex := by
  have hd := decodable_of_isValid h
  rw [toOldFormat_of_decodable hd, fromS2CellId_ofIndex hd.levelField_le (cellIndex_lt hd)]

theorem fromFace_eq_ofIndex {f : Nat} (hf : f < 6) : fromFace (f : Int) = ofIndex 0 f := by
  rw [fromFace, S2v1.S2CellId.fromFace_eq (by omega), fromS2CellId_ofIndex (by decide) (by simpa)]

/-- At level 0 `is_valid` does not look at the path, and the round trip through the Primary
id forgets it: a valid word comes back unchanged from level 1 on, and as its face's
canonical encoding at level 0. -/
theorem fromS2CellId_toOldFormat {x y : S2CellId} (hx : x.isValid = true) (hy : y.isValid = true) :
    fromS2CellId x.toOldFormat = (if x.level = 0 then fromFace x.face else x) ∧
    (x.toOldFormat = y.toOldFormat → x = y ∨ (x.level = 0 ∧ y.level = 0 ∧ x.face = y.face)) := by
  have hdx := decodable_of_isValid hx
  have hdy := decodable_of_isValid hy
  refine ⟨?_, fun e => ?_⟩
  · rw [fromS2CellId_toOldFormat_eq_ofIndex hx, level_eq_levelField, face_eq_faceField]
    by_cases hL : x.levelField = 0
    · rw [if_pos (by rw [hL]; rfl), fromFace_eq_ofIndex hdx.faceField_lt, hL, ← cellIndex_div x, hL,
        pow_zero, Nat.div_one]
    · rw [if_neg (by exact_mod_cast hL), ← eq_ofIndex_of_isValid hx (Or.inl hL)]
  · have e' := congrArg fromS2CellId e
    rw [fromS2CellId_toOldFormat_eq_ofIndex hx, fromS2CellId_toOldFormat_eq_ofIndex hy] at e'
    have hL := congrArg levelField e'
    have hI := congrArg cellIndex e'
    rw [levelField_ofIndex hdx.levelField_le (cellIndex_lt hdx),
      levelField_ofIndex hdy.levelField_le (cellIndex_lt hdy)] at hL
    rw [cellIndex_ofIndex hdx.levelField_le (cellIndex_lt hdx),
      cellIndex_ofIndex hdy.levelField_le (cellIndex_lt hdy)] at hI
    by_cases h0 : x.levelField = 0
    · right
      rw [level_eq_levelField, level_eq_levelField, face_eq_faceField, face_eq_faceField,
        ← cellIndex_div x, ← cellIndex_div y, ← hL, hI, h0]
      exact ⟨rfl, rfl, rfl⟩
    · left
      rw [eq_ofIndex_of_isValid hx (Or.inl h0), eq_ofIndex_of_isValid hy (Or.inl (hL ▸ h0)), hL, hI]

theorem fromS2CellId_toOldFormat_root_with_path :
    (⟨0x20⟩ : S2CellId).isValid = true ∧ (⟨rootMarker⟩ : S2CellId).isValid = true ∧
    (fromS2CellId (⟨0x20⟩ : S2CellId).toOldFormat =
        (if (⟨0x20⟩ : S2CellId).level = 0 then fromFace (⟨0x20⟩ : S2CellId).face else ⟨0x20⟩) ∧
      ((⟨0x20⟩ : S2CellId).toOldFormat = (⟨rootMarker⟩ : S2CellId).toOldFormat →
        (⟨0x20⟩ : S2CellId) = ⟨rootMarker⟩ ∨ ((⟨0x20⟩ : S2CellId).level = 0 ∧
          (⟨rootMarker⟩ : S2CellId).level = 0 ∧
            (⟨0x20⟩ : S2CellId).face = (⟨rootMarker⟩ : S2CellId).face))) :=
  ⟨by decide, by decide, fromS2CellId_toOldFormat (by decide) (by decide)⟩

/-- Face 0's root with path bit 0 set: valid, and the round trip drops the bit. -/
theorem toOldFormat_root_with_path_not_roundTrip :
    (⟨0x20⟩ : S2CellId).isValid = true ∧ fromS2CellId (⟨0x20⟩ : S2CellId).toOldFormat ≠ ⟨0x20⟩ := by
  decide

/-- Face 0, level 1, with path bit 55 set: `is_valid` rejects it, `ToOldFormat` decodes it. -/
theorem toOldFormat_stray_path_bit :
    (⟨0x1000000000000001⟩ : S2CellId).isValid = false ∧
      (⟨0x1000000000000001⟩ : S2CellId).toOldFormat.isValid = true := by
  decide

/-- The three slices of a Primary id of level `L`, joined with `|`: face bits, `2L` path bits,
marker bit. -/
theorem or_slices_eq {F m L : Nat} (hm : m < 4 ^ L) (hL : L ≤ 30) :
    F * 2 ^ 61 ||| (m * 2 ^ (2 * (30 - L) + 1) ||| 2 ^ (2 * (30 - L))) =
      (2 * (F * 4 ^ L + m) + 1) * 4 ^ (30 - L) := by
  have hAP := S2v1.S2CellId.four_pow_mul_four_pow hL
  have h61 : 2 ^ 61 = 2 * (4 ^ L * 4 ^ (30 - L)) := by rw [hAP]; rfl
  have hs1 : 2 ^ (2 * (30 - L) + 1) = 2 * 4 ^ (30 - L) := by
    rw [pow_succ, four_pow_eq_two_pow, Nat.mul_comm]
  have hs : 2 ^ (2 * (30 - L)) = 4 ^ (30 - L) := (four_pow_eq_two_pow _).symm
  have hlow : 2 * 4 ^ (30 - L) * m + 4 ^ (30 - L) < 2 ^ 61 := by
    have := Nat.mul_le_mul_left (2 * 4 ^ (30 - L)) (show m + 1 ≤ 4 ^ L by omega)
    rw [h61]
    calc 2 * 4 ^ (30 - L) * m + 4 ^ (30 - L) < 2 * 4 ^ (30 - L) * (m + 1) := by
          rw [Nat.mul_succ]; have := Nat.pos_pow_of_pos (30 - L) (show 0 < 4 by decide); omega
      _ ≤ 2 * 4 ^ (30 - L) * 4 ^ L := this
      _ = 2 * (4 ^ L * 4 ^ (30 - L)) := by ring
  have hlow' : 2 ^ (2 * (30 - L) + 1) * m + 2 ^ (2 * (30 - L)) < 2 ^ 61 := by
    rw [hs1, hs]; exact hlow
  rw [Nat.mul_comm m, Nat.mul_comm F,
    ← Nat.mul_add_lt_is_or (Nat.pow_lt_pow_right (by decide) (Nat.lt_succ_self _)) m,
    ← Nat.mul_add_lt_is_or hlow' F, h61, hs1, hs]
  ring

section ClosedForm

/-- `ConvertFromOldFormat` of a valid Primary id of level `1..28` slices the id: its face, the
`2L` position bits above the marker bit, and the level. -/
theorem convertFromOldFormat_eq_slices {c : S2v1.S2CellId} (h : c.isValid = true)
    (h1 : 1 ≤ c.level) (h28 : c.level ≤ kMaxLevel) :
    convertFromOldFormat c = (BitVec.ofInt 64 c.face <<< 61) |||
      (((c.id >>> (2 * (30 - c.level.toNat) + 1)) % BitVec.ofNat 64 (4 ^ c.level.toNat)) <<< 5) |||
      BitVec.ofInt 64 c.level := by
  obtain ⟨k, q, hk, hq, rfl⟩ := S2v1.S2CellId.exists_ofIndex_of_isValid h
  have hq8 : q < 8 * 4 ^ k := by omega
  rw [S2v1.S2CellId.level_ofIndex hk hq8] at h1 h28 ⊢
  have hk28 : k ≤ 28 := by simp only [kMaxLevel] at h28; omega
  obtain ⟨hF, hp, hl⟩ := pack_bounds_ofIndex hk28 hq
  have h4 : 4 ^ k < 2 ^ 64 := by
    rw [four_pow_eq_two_pow]; exact Nat.pow_lt_pow_right (by decide) (by omega)
  have hP : (((S2v1.S2CellId.ofIndex k q).id >>> (2 * (30 - k) + 1)) %
      BitVec.ofNat 64 (4 ^ k)).toNat = q % 4 ^ k := by
    have hdiv := S2v1.S2CellId.odd_mul_two_pow_div q (2 * (30 - k)) 0
    rw [Nat.mul_zero, Nat.add_zero, pow_zero, Nat.div_one, ← four_pow_eq_two_pow] at hdiv
    rw [BitVec.toNat_umod, BitVec.toNat_ushiftRight, S2v1.S2CellId.toNat_ofIndex hk hq8,
      Nat.shiftRight_eq_div_pow, hdiv, BitVec.toNat_ofNat, Nat.mod_eq_of_lt h4]
  rw [S2v1.S2CellId.face_ofIndex hk hq8, Int.toNat_ofNat]
  show (fromS2CellId (S2v1.S2CellId.ofIndex k q)).newId = _
  rw [fromS2CellId_ofIndex hk28 hq, (ofIndex_eq_pack hk28 hq (by omega)).1]
  exact (or_fields_eq_pack hF hp hl hP).symm

/-- `ConvertToOldFormat` of a valid Compact id of level `1..28` places its slices: the face,
the path's low `2L` bits above the marker bit, and the marker bit. Validity already bounds
the level by 28. -/
theorem convertToOldFormat_eq_slices {n : S2CellId} (h : n.isValid = true) (h1 : 1 ≤ n.level) :
    (convertToOldFormat n.newId).id = (BitVec.ofInt 64 n.face <<< 61) |||
      ((n.path % BitVec.ofNat 64 (4 ^ n.level.toNat)) <<< (2 * (30 - n.level.toNat) + 1)) |||
      ((1 : BitVec 64) <<< (2 * (30 - n.level.toNat))) := by
  have hd := decodable_of_isValid h
  have hL := hd.levelField_le
  have hF := hd.faceField_lt
  rw [level_eq_levelField] at h1 ⊢
  rw [Int.toNat_ofNat, face_eq_faceField]
  have hm := Nat.mod_lt n.pathField (Nat.pos_pow_of_pos n.levelField (show 0 < 4 by decide))
  have hpow : ∀ t, t ≤ 63 → 2 ^ t < 2 ^ 64 := fun t ht => Nat.pow_lt_pow_right (by decide) (by omega)
  have h4 : 4 ^ n.levelField < 2 ^ 64 := by rw [four_pow_eq_two_pow]; exact hpow _ (by omega)
  have hI : n.cellIndex < 8 * 4 ^ n.levelField := by have := cellIndex_lt hd; omega
  have hmid : n.pathField % 4 ^ n.levelField * 2 ^ (2 * (30 - n.levelField) + 1) < 2 ^ 64 := by
    calc _ < 4 ^ n.levelField * 2 ^ (2 * (30 - n.levelField) + 1) :=
          Nat.mul_lt_mul_of_pos_right hm (Nat.two_pow_pos _)
      _ = 2 ^ 61 := by rw [four_pow_eq_two_pow, ← Nat.pow_add]; congr 1; omega
      _ < 2 ^ 64 := by decide
  have hfi : ((n.faceField : Int) % ((2 ^ 64 : Nat) : Int)).toNat = n.faceField := by omega
  show n.toOldFormat.id = _
  apply BitVec.eq_of_toNat_eq
  rw [toOldFormat_of_decodable hd, S2v1.S2CellId.toNat_ofIndex (by omega) hI, cellIndex,
    BitVec.toNat_or, BitVec.toNat_or, BitVec.toNat_shiftLeft, BitVec.toNat_shiftLeft,
    BitVec.toNat_shiftLeft, BitVec.toNat_ofInt, hfi, BitVec.toNat_umod, toNat_path hL,
    BitVec.toNat_ofNat, Nat.mod_eq_of_lt h4, Nat.mod_mod, show (1 : BitVec 64).toNat = 1 from rfl,
    Nat.shiftLeft_eq, Nat.shiftLeft_eq, Nat.shiftLeft_eq, Nat.one_mul,
    Nat.mod_eq_of_lt (show n.faceField * 2 ^ 61 < 2 ^ 64 by omega), Nat.mod_eq_of_lt hmid,
    Nat.mod_eq_of_lt (hpow _ (by omega)), Nat.lor_assoc, or_slices_eq hm (by omega)]

end ClosedForm

/-- Both converters are closed-form bit slicing on the valid ids of levels `1..28`. -/
theorem converters_closed_form :
    (∀ c : S2v1.S2CellId, c.isValid = true → 1 ≤ c.level → c.level ≤ kMaxLevel →
      convertFromOldFormat c = (BitVec.ofInt 64 c.face <<< 61) |||
        (((c.id >>> (2 * (30 - c.level.toNat) + 1)) % BitVec.ofNat 64 (4 ^ c.level.toNat)) <<< 5) |||
        BitVec.ofInt 64 c.level) ∧
    (∀ n : S2CellId, n.isValid = true → 1 ≤ n.level → n.level ≤ kMaxLevel →
      (convertToOldFormat n.newId).id = (BitVec.ofInt 64 n.face <<< 61) |||
        ((n.path % BitVec.ofNat 64 (4 ^ n.level.toNat)) <<< (2 * (30 - n.level.toNat) + 1)) |||
        ((1 : BitVec 64) <<< (2 * (30 - n.level.toNat)))) :=
  ⟨fun _ h h1 h28 => convertFromOldFormat_eq_slices h h1 h28,
    fun _ h h1 _ => convertToOldFormat_eq_slices h h1⟩

end S2Geo.S2CellId
