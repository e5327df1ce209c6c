import S2Geo.V1.Position
import S2Geo.Compact.Navigation

/-!
# Face, position and level of a Compact id; the constructors that truncate

`FromFacePosLevel` up to level 28 and `pos()` go through the Primary id. The constructors
from points, lat-lngs, `(face, i, j)`, tokens, debug strings and the two coders build a
Primary id in code that is not in this repository, cut it to level 28 with
`parent(kMaxLevel)` and convert it (`fromS2CellIdAtMaxLevel`). Only `FromToken` and
`FromDebugString` test that Primary id with `is_valid` first. Without that test, a word
past level 28 whose marker bit is at an odd position, which `is_valid` rejects, still gives
a valid Compact cell: `parent(kMaxLevel)` reads no marker.
-/

namespace S2Geo.S2CellId

/-- Below level 29 the conversion from a Primary id either succeeds and converts back, or
gives `None()` on an invalid id. -/
theorem fromS2CellId_of_level_le {c : S2v1.S2CellId} (hl : c.level ≤ kMaxLevel) :
    (c.isValid = true ∧ (fromS2CellId c).isValid = true ∧ (fromS2CellId c).toOldFormat = c) ∨
      (c.isValid = false ∧ fromS2CellId c = none) := by
  cases hv : c.isValid
  · exact .inr ⟨rfl, fromS2CellId_of_not_representable (by rw [hv, Bool.false_and])⟩
  · obtain ⟨k, q, hk, hq, rfl⟩ := S2v1.S2CellId.exists_ofIndex_of_isValid hv
    have hk28 : k ≤ 28 := by
      rw [S2v1.S2CellId.level_ofIndex hk (by omega)] at hl; simp only [kMaxLevel] at hl; omega
    rw [fromS2CellId_ofIndex hk28 hq]
    exact .inl ⟨rfl, isValid_ofIndex hk28 hq, toOldFormat_ofIndex hk28 hq⟩

/-- A valid id and its Primary id agree on face and level. -/
theorem face_level_toOldFormat {x : S2CellId} (h : x.isValid = true) :
    x.toOldFormat.face = x.face ∧ x.toOldFormat.level = x.level := by
  have hq := cellIndex_lt_of_isValid h
  have hL := levelField_le_of_isValid h
  rw [toOldFormat_of_isValid h, S2v1.S2CellId.face_ofIndex (by omega) (by omega),
    S2v1.S2CellId.level_ofIndex (by omega) (by omega), face_eq_cellIndex_div, level_eq_levelField]
  exact ⟨rfl, rfl⟩

/-- The canonical word of a valid id's cell: the id itself from level 1 on, its face's word
at level 0. -/
theorem ofIndex_levelField_cellIndex {x : S2CellId} (h : x.isValid = true) :
    ofIndex x.levelField x.cellIndex = if x.level = 0 then fromFace x.face else x := by
  rw [level_eq_levelField, face_eq_faceField]
  by_cases hL : x.levelField = 0
  · rw [if_pos (by rw [hL]; rfl), fromFace_eq_ofIndex (decodable_of_isValid h).faceField_lt, hL,
      ← cellIndex_div x, hL, pow_zero, Nat.div_one]
  · rw [if_neg (by exact_mod_cast hL), ← eq_ofIndex_of_isValid h (Or.inl hL)]

/-- For a level `L ≤ 28`, `FromFacePosLevel` gives the Compact id of the Primary cell of the
same arguments when that cell is valid (the leaf's face is below 6), and `S2CellId()`
otherwise. -/
structure FromFacePosLevelLaws (face : Int) (pos : BitVec 64) (L : Nat) : Prop where
  isValid_iff : (fromFacePosLevel face pos L).isValid = true ↔
    (S2v1.S2CellId.posLeaf face pos).face < 6
  toOldFormat_eq : (fromFacePosLevel face pos L).isValid = true →
    (fromFacePosLevel face pos L).toOldFormat = S2v1.S2CellId.fromFacePosLevel face pos L
  eq_none : (fromFacePosLevel face pos L).isValid = false → fromFacePosLevel face pos L = none

theorem fromFacePosLevel_laws (face : Int) (pos : BitVec 64) {L : Nat} (hL : L ≤ 28) :
    FromFacePosLevelLaws face pos L := by
  obtain ⟨hlev, hV⟩ := S2v1.S2CellId.level_isValid_fromFacePosLevel face pos (show L ≤ 30 by omega)
  have hres : fromFacePosLevel face pos L =
      fromS2CellId (S2v1.S2CellId.fromFacePosLevel face pos L) :=
    if_neg (by simp only [kMaxLevel]; omega)
  rcases fromS2CellId_of_level_le (show (S2v1.S2CellId.fromFacePosLevel face pos L).level ≤ kMaxLevel
    by rw [hlev]; simp only [kMaxLevel]; omega) with ⟨hv, hfv, hback⟩ | ⟨hv, hnone⟩
  · rw [← hres] at hfv hback
    exact ⟨iff_of_true hfv (hV.1 hv), fun _ => hback, fun h => absurd h (by rw [hfv]; decide)⟩
  · rw [← hres] at hnone
    refine ⟨iff_of_false (by rw [hnone]; decide) fun h => ?_, fun h => ?_, fun _ => hnone⟩
    · exact Bool.false_ne_true (hv ▸ hV.2 h)
    · exact absurd h (by rw [hnone]; decide)

theorem fromFacePosLevel_laws_face_three :
    (2 : Nat) ≤ 28 ∧ FromFacePosLevelLaws 3 0x0123456789ABCDEF 2 :=
  ⟨by decide, fromFacePosLevel_laws 3 0x0123456789ABCDEF (by decide)⟩

theorem fromS2CellIdAtMaxLevel_eq (c : S2v1.S2CellId) :
    fromS2CellIdAtMaxLevel c =
      fromS2CellId (if c.level > kMaxLevel then c.parentAt kMaxLevel else c) := rfl

/-- What the truncation can give: `S2CellId()`, or the Compact id of the cell
`c.parent(min(c.level(), 28))`, which contains `c`. The second happens exactly when `c` is
valid or, past level 28, has a face below 6. -/
theorem fromS2CellIdAtMaxLevel_spec (c : S2v1.S2CellId) :
    (¬(c.isValid = true ∨ ((kMaxLevel : Int) < c.level ∧ c.face < 6)) ∧
        fromS2CellIdAtMaxLevel c = none) ∨
      ((c.isValid = true ∨ ((kMaxLevel : Int) < c.level ∧ c.face < 6)) ∧
        ∃ k q : Nat, k ≤ 28 ∧ q < 6 * 4 ^ k ∧ (k : Int) = min c.level kMaxLevel ∧
          c.parentAt (min c.level kMaxLevel) = S2v1.S2CellId.ofIndex k q ∧
          (S2v1.S2CellId.ofIndex k q).contains c = true ∧
          fromS2CellIdAtMaxLevel c = ofIndex k q) := by
  rw [fromS2CellIdAtMaxLevel_eq]
  by_cases hlev : (kMaxLevel : Int) < c.level
  · -- Past level 28: the level-28 cell of the word's top 59 bits, valid or not.
    have hmin : min c.level kMaxLevel = (kMaxLevel : Int) := min_eq_right hlev.le
    have hpar : c.parentAt kMaxLevel = S2v1.S2CellId.ofIndex 28 (c.id.toNat / 32) :=
      S2v1.S2CellId.parentAt_eq_ofIndex c (show 28 ≤ 30 by decide)
    have hface : c.face = ((c.id.toNat / 32 / 4 ^ 28 : Nat) : Int) := by
      rw [S2v1.S2CellId.face, BitVec.toNat_ushiftRight, Nat.shiftRight_eq_div_pow,
        Nat.div_div_eq_div_mul]
      rfl
    have hlow := S2v1.S2CellId.toNat_mod_sixteen_ne_zero (show (28 : Int) < c.level from hlev)
    rw [if_pos hlev, hpar]
    by_cases hq : c.id.toNat / 32 < 6 * 4 ^ 28
    · have hq6 : c.id.toNat / 32 / 4 ^ 28 < 6 := by omega
      refine .inr ⟨.inr ⟨hlev, by rw [hface]; exact_mod_cast hq6⟩, 28, _, le_refl 28, hq, hmin.symm,
        by rw [hmin]; exact hpar, ?_, fromS2CellId_ofIndex (le_refl 28) hq⟩
      rw [S2v1.S2CellId.contains_iff_toNat (by decide) (by omega)]
      omega
    · refine .inl ⟨fun h => ?_, fromS2CellId_of_not_representable ?_⟩
      · have hf6 : ¬c.face < 6 := by rw [hface]; omega
        rcases h with h | h
        · simp only [S2v1.S2CellId.isValid, Bool.and_eq_true, decide_eq_true_eq,
            S2v1.S2CellId.kNumFaces] at h
          exact hf6 (by exact_mod_cast h.1)
        · exact hf6 h.2
      · rw [S2v1.S2CellId.isValid_ofIndex (by decide) (by omega), decide_eq_false hq,
          Bool.false_and]
  · rw [if_neg hlev]
    by_cases hv : c.isValid = true
    · -- At most level 28: a valid `c` is itself a cell of the Compact range.
      obtain ⟨k, q, hk, hq, rfl⟩ := S2v1.S2CellId.exists_ofIndex_of_isValid hv
      have hlk := S2v1.S2CellId.level_ofIndex hk (show q < 8 * 4 ^ k by omega)
      have hk28 : k ≤ 28 := by simp only [kMaxLevel, hlk] at hlev; omega
      have hmin : min (S2v1.S2CellId.ofIndex k q).level kMaxLevel = (k : Int) := by
        rw [hlk]; simp only [kMaxLevel]; omega
      refine .inr ⟨.inl hv, k, q, hk28, hq, hmin.symm, ?_, ?_, fromS2CellId_ofIndex hk28 hq⟩
      · rw [hmin, S2v1.S2CellId.parentAt_ofIndex hk (by omega) (le_refl k), Nat.sub_self,
          pow_zero, Nat.div_one]
      · rw [S2v1.S2CellId.contains_ofIndex hk (by omega) hk (by omega), Nat.sub_self, pow_zero,
          Nat.div_one]
        exact ⟨le_refl k, rfl⟩
    · refine .inl ⟨fun h => ?_, fromS2CellId_of_not_representable (by simp [hv])⟩
      rcases h with h | h
      · exact hv h
      · exact hlev h.1

/-- What the truncating constructors make of a Primary word `c`, valid or not: a valid
Compact id exactly when `c` is valid or, past level 28, has a face below 6. That id is
`c.parent(min(c.level(), 28))`, at that level, and its range contains `c`. The two that test
`is_valid` first give a valid id exactly from a valid `c`. -/
structure AtMaxLevelLaws (c : S2v1.S2CellId) : Prop where
  isValid_iff : (fromS2CellIdAtMaxLevel c).isValid = true ↔
    c.isValid = true ∨ ((kMaxLevel : Int) < c.level ∧ c.face < 6)
  toOldFormat_eq : (fromS2CellIdAtMaxLevel c).isValid = true →
    (fromS2CellIdAtMaxLevel c).toOldFormat = c.parentAt (min c.level kMaxLevel)
  level_eq : (fromS2CellIdAtMaxLevel c).isValid = true →
    (fromS2CellIdAtMaxLevel c).level = min c.level kMaxLevel
  contains : (fromS2CellIdAtMaxLevel c).isValid = true →
    (fromS2CellIdAtMaxLevel c).toOldFormat.contains c = true
  checked_isValid_iff : (fromValidS2CellIdAtMaxLevel c).isValid = true ↔ c.isValid = true

/-- The laws for every nonzero word: `level()`, which they read, assumes `id_ != 0`
(`ABSL_ASSUME`), so the zero word, to which the model gives level -2, is left out. -/
theorem atMaxLevel_laws (c : S2v1.S2CellId) (_hc : c.id ≠ 0) : AtMaxLevelLaws c := by
  have hvalid : (fromS2CellIdAtMaxLevel c).isValid = true ↔
      c.isValid = true ∨ ((kMaxLevel : Int) < c.level ∧ c.face < 6) := by
    rcases fromS2CellIdAtMaxLevel_spec c with ⟨hn, he⟩ | ⟨hp, k, q, hk, hq, -, -, -, he⟩
    · rw [he]; exact iff_of_false (by decide) hn
    · rw [he]; exact iff_of_true (isValid_ofIndex hk hq) hp
  have hchecked : (fromValidS2CellIdAtMaxLevel c).isValid = true ↔ c.isValid = true := by
    cases hv : c.isValid
    · rw [fromValidS2CellIdAtMaxLevel, hv, Bool.not_false, if_pos rfl]
      exact iff_of_false (by decide) Bool.false_ne_true
    · rw [fromValidS2CellIdAtMaxLevel, hv, Bool.not_true, if_neg Bool.false_ne_true]
      exact iff_of_true (hvalid.2 (.inl hv)) rfl
  rcases fromS2CellIdAtMaxLevel_spec c with ⟨hn, he⟩ | ⟨-, k, q, hk, hq, hmin, hpar, hcont, he⟩
  · have hnone : (fromS2CellIdAtMaxLevel c).isValid = true → False := by rw [he]; decide
    exact ⟨hvalid, fun h => (hnone h).elim, fun h => (hnone h).elim, fun h => (hnone h).elim,
      hchecked⟩
  · refine ⟨hvalid, fun _ => ?_, fun _ => ?_, fun _ => ?_, hchecked⟩ <;> rw [he]
    · rw [toOldFormat_ofIndex hk hq, hpar]
    · rw [level_ofIndex hk hq, hmin]
    · rw [toOldFormat_ofIndex hk hq]; exact hcont

theorem atMaxLevel_laws_two : (⟨0x2⟩ : S2v1.S2CellId).id ≠ 0 ∧ AtMaxLevelLaws ⟨0x2⟩ :=
  ⟨by decide, atMaxLevel_laws _ (by decide)⟩

/-- The word 2, which `is_valid` rejects (its marker bit is at an odd position), becomes the
first level-28 cell without the test and `S2CellId()` with it. -/
example : (⟨0x2⟩ : S2v1.S2CellId).isValid = false ∧
    fromS2CellIdAtMaxLevel ⟨0x2⟩ = ofIndex 28 0 ∧ (ofIndex 28 0).isValid = true ∧
    fromValidS2CellIdAtMaxLevel ⟨0x2⟩ = none := by
  decide

/-- `GetEdgeNeighbors` converts each Primary neighbor as `FromToken` converts a parsed id:
`S2CellId()` for an invalid one, else its Compact id cut to level 28. -/
theorem getEdgeNeighbors_eq (oldNeighbors : Fin 4 → S2v1.S2CellId) (i : Fin 4) :
    getEdgeNeighbors oldNeighbors i = fromValidS2CellIdAtMaxLevel (oldNeighbors i) := by
  rw [getEdgeNeighbors, edgeNeighbor, fromValidS2CellIdAtMaxLevel, fromS2CellIdAtMaxLevel_eq]
  cases (oldNeighbors i).isValid
  · rfl
  · by_cases hl : (oldNeighbors i).level ≤ kMaxLevel
    · simp [hl, not_lt.2 hl]
    · simp [hl, lt_of_not_le hl]

/-- The loop of `appendNeighbors`: it appends the converted representable neighbors, in
order. -/
theorem appendNeighbors_eq {nbrLevel : Int} (h : ¬(nbrLevel > kMaxLevel ∨ nbrLevel < 0))
    (oldNeighbors : List S2v1.S2CellId) (output : List S2CellId) :
    appendNeighbors nbrLevel oldNeighbors output = output ++ (oldNeighbors.filter
      fun n : S2v1.S2CellId => n.isValid && decide (n.level ≤ (kMaxLevel : Int))).map fromS2CellId := by
  rw [appendNeighbors, if_neg h]
  induction oldNeighbors generalizing output with
  | nil => simp
  | cons n ns ih =>
    rw [List.foldl_cons, ih, List.filter_cons]
    split <;> simp_all

/-- `AppendVertexNeighbors` and `AppendAllNeighbors` keep what `output` holds and append only
valid ids; converted back, the appended ids are exactly the valid Primary neighbors of level
at most 28, in order, and nothing for a level outside `0..28`. -/
theorem appendNeighbors_spec (nbrLevel : Int) (oldNeighbors : List S2v1.S2CellId)
    (output : List S2CellId) :
    ∃ added, appendNeighbors nbrLevel oldNeighbors output = output ++ added ∧
      (∀ y ∈ added, y.isValid = true) ∧
      added.map toOldFormat = if 0 ≤ nbrLevel ∧ nbrLevel ≤ kMaxLevel then
        oldNeighbors.filter (fun n : S2v1.S2CellId => n.isValid && decide (n.level ≤ (kMaxLevel : Int)))
      else [] := by
  by_cases h : nbrLevel > kMaxLevel ∨ nbrLevel < 0
  · refine ⟨[], by rw [appendNeighbors, if_pos h, List.append_nil], by simp, ?_⟩
    rw [if_neg (by omega)]; rfl
  · -- Each kept neighbor is valid and representable, so it converts and comes back.
    have hkept : ∀ n ∈ oldNeighbors.filter
        (fun n : S2v1.S2CellId => n.isValid && decide (n.level ≤ (kMaxLevel : Int))),
        (fromS2CellId n).isValid = true ∧ (fromS2CellId n).toOldFormat = n := fun n hn => by
      simp only [List.mem_filter, Bool.and_eq_true, decide_eq_true_eq] at hn
      rcases fromS2CellId_of_level_le hn.2.2 with ⟨-, hfv, hback⟩ | ⟨hv, -⟩
      · exact ⟨hfv, hback⟩
      · exact absurd hn.2.1 (by rw [hv]; decide)
    refine ⟨_, appendNeighbors_eq h oldNeighbors output, fun y hy => ?_, ?_⟩
    · obtain ⟨n, hn, rfl⟩ := List.mem_map.1 hy
      exact (hkept n hn).1
    · rw [if_pos (by omega), List.map_map]
      exact (List.map_congr_left fun n hn => (hkept n hn).2).trans (List.map_id _)

/-- Every valid id comes back from its own face, position and level, and from the
truncating constructors applied to its Primary id, as `Decode` after `Encode` and
`FromToken` after `ToToken` see it when the Primary coder and token give that id back:
unchanged from level 1 on, and as its face's canonical word at level 0. -/
structure RoundTrips (x : S2CellId) : Prop where
  facePosLevel : fromFacePosLevel x.face x.pos x.level = if x.level = 0 then fromFace x.face else x
  atMaxLevel : fromS2CellIdAtMaxLevel x.toOldFormat = if x.level = 0 then fromFace x.face else x
  validAtMaxLevel :
    fromValidS2CellIdAtMaxLevel x.toOldFormat = if x.level = 0 then fromFace x.face else x

theorem roundTrips_of_isValid {x : S2CellId} (h : x.isValid = true) : x.RoundTrips := by
  obtain ⟨hface, hlevel⟩ := face_level_toOldFormat h
  have hq := cellIndex_lt_of_isValid h
  have hL := levelField_le_of_isValid h
  have hv : x.toOldFormat.isValid = true := isValid_toOldFormat_iff.2 (decodable_of_isValid h)
  have hle : ¬x.toOldFormat.level > kMaxLevel := by
    rw [hlevel, level_eq_levelField]; simp only [kMaxLevel]; omega
  have hcanon : fromS2CellId x.toOldFormat = if x.level = 0 then fromFace x.face else x := by
    rw [fromS2CellId_toOldFormat_eq_ofIndex h, ofIndex_levelField_cellIndex h]
  have hA : fromS2CellIdAtMaxLevel x.toOldFormat = fromS2CellId x.toOldFormat := by
    rw [fromS2CellIdAtMaxLevel_eq, if_neg hle]
  have hP : fromFacePosLevel x.face x.pos x.level = fromS2CellId x.toOldFormat := by
    rw [fromFacePosLevel, if_neg (by rw [← hlevel]; exact hle), ← hface, ← hlevel, pos,
      toOldFormat_of_isValid h, S2v1.S2CellId.fromFacePosLevel_ofIndex (by omega) hq]
  refine ⟨hP.trans hcanon, hA.trans hcanon, ?_⟩
  rw [fromValidS2CellIdAtMaxLevel, hv, Bool.not_true, if_neg Bool.false_ne_true, hA, hcanon]

theorem roundTrips_root_with_path :
    (⟨0x20⟩ : S2CellId).isValid = true ∧ (⟨0x20⟩ : S2CellId).RoundTrips :=
  ⟨by decide, roundTrips_of_isValid (by decide)⟩

end S2Geo.S2CellId
