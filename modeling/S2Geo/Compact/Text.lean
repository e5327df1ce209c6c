import S2Geo.Compact.Navigation

/-!
# The string form of the Compact id

`ToString` writes the face, then `/` and one character `'0'`-`'3'` a level, root first;
`FromString` reads the face with `std::stoi` and packs the characters back two bits at a
time. A `std::string` is its list of characters here. The two are inverse on the canonical
strings (`fromString_face`, `fromString_path`, `toString_of_isValid`); at level 0 `ToString`
drops the path that `is_valid` does not look at. `FromString` accepts more than the canonical
strings: the face goes through `std::stoi`, which takes white space, a sign, leading zeros and
trailing characters (`isValid_fromString_iff_of_length_le`). The path length goes through
`static_cast<int>`, which wraps it modulo `2^32` before the range check meant to keep it small
(s2cell_id.h:713-721): a path part of `2^32 + L` characters is read as its first `L`
(`fromString_wraps_path_length`).
-/

namespace S2Geo.S2CellId

/-- `isspace` in the C locale: the space, and tab through carriage return. -/
def isSpace (c : Char) : Bool := c.toNat = 32 || (9 ≤ c.toNat && c.toNat ≤ 13)

/-- The digits read most significant first, in base `base`, after the value `acc`. -/
def digitsValue (base acc : Nat) (cs : List Char) : Nat :=
  cs.foldl (fun acc c => base * acc + (c.toNat - '0'.toNat)) acc

/-- `std::stoi`: skip white space, read an optional sign and the longest run of decimal
digits. No digit, or a value outside `int`, throws (`none`); what follows the digits is
ignored. -/
def stoi (s : List Char) : Option Int :=
  let (negative, rest) : Bool × List Char := match s.dropWhile isSpace with
    | '-' :: r => (true, r)
    | '+' :: r => (false, r)
    | r => (false, r)
  let digits := rest.takeWhile Char.isDigit
  if digits = [] then Option.none
  else
    let magnitude : Int := digitsValue 10 0 digits
    let value := if negative then -magnitude else magnitude
    if value < -2 ^ 31 ∨ value > 2 ^ 31 - 1 then Option.none else some value

/-- `std::to_string(int)`. -/
def toStringInt (f : Int) : List Char := (Int.repr f).toList

/-- `static_cast<int>` of a `size_t`: the value modulo `2^32`, read as signed. -/
def toInt32 (n : Nat) : Int :=
  if n % 2 ^ 32 < 2 ^ 31 then (n % 2 ^ 32 : Nat) else ((n % 2 ^ 32 : Nat) : Int) - 2 ^ 32

/-- The `for (int i = l - 1; i >= 0; --i)` loop of `ToString`: the child positions, root
first, each written as the character `'0' + child_pos`. -/
def pathChars (path : BitVec 64) : Nat → List Char
  | 0 => []
  | i + 1 => Char.ofNat ('0'.toNat + ((path >>> (2 * i)) &&& 3).toNat) :: pathChars path i

def toString (x : S2CellId) : List Char :=
  if !x.isValid then "INVALID".toList
  else
    let result := toStringInt x.face
    let l := x.level
    if l = 0 then result else result ++ ['/'] ++ pathChars x.path l.toNat

/-- The `for (int i = 0; i < level; ++i)` loop of `FromString`: each character `'0'`-`'3'`
shifted in as two bits; any other character gives up (`none`). -/
def packPath : List Char → BitVec 64 → Option (BitVec 64)
  | [], path => some path
  | c :: cs, path =>
    if c < '0' ∨ c > '3' then Option.none
    else packPath cs ((path <<< 2) ||| BitVec.ofInt 64 ((c.toNat : Int) - '0'.toNat))

/-- `FromString`; `S2CellId()` is `none`, and an exception of `std::stoi` is caught as
`none`. -/
def fromString (str : List Char) : S2CellId :=
  if str = [] then none
  else
    let faceStr := str.takeWhile (fun c => c != '/')
    match stoi faceStr with
    | Option.none => none
    | some face =>
      if face < 0 ∨ face > 5 then none
      else
        match str.dropWhile (fun c => c != '/') with
        | [] => fromFaceLevel face 0
        | _ :: pathStr =>
          let level := toInt32 pathStr.length
          if level = 0 then fromFaceLevel face 0
          else if level > kMaxLevel then none
          else
            match packPath (pathStr.take level.toNat) 0 with
            | Option.none => none
            | some path =>
              ⟨(BitVec.ofInt 64 face <<< (64 - kFaceBits)) ||| (path <<< kLevelBits) |||
                BitVec.ofInt 64 level⟩

/-- A character `'0'`-`'3'`, as `ToString` writes a child position. -/
def IsPathChar (c : Char) : Prop := '0'.toNat ≤ c.toNat ∧ c.toNat ≤ '3'.toNat

instance : DecidablePred IsPathChar := fun c =>
  inferInstanceAs (Decidable ('0'.toNat ≤ c.toNat ∧ c.toNat ≤ '3'.toNat))

/-- The check of `FromString`'s loop is `IsPathChar`. -/
theorem not_lt_or_gt_iff (c : Char) : ¬(c < '0' ∨ c > '3') ↔ IsPathChar c := by
  show ¬(c.toNat < '0'.toNat ∨ '3'.toNat < c.toNat) ↔ _
  unfold IsPathChar; omega

theorem digit_lt_four {c : Char} (hc : IsPathChar c) : c.toNat - '0'.toNat < 4 := by
  have : '3'.toNat = '0'.toNat + 3 := rfl
  unfold IsPathChar at hc; omega

theorem toNat_digitChar : ∀ d, d < 10 → (Char.ofNat ('0'.toNat + d)).toNat = '0'.toNat + d := by
  decide

theorem isPathChar_digitChar {d : Nat} (hd : d < 4) : IsPathChar (Char.ofNat ('0'.toNat + d)) := by
  unfold IsPathChar
  rw [toNat_digitChar d (by omega)]
  exact ⟨Nat.le_add_right _ _, show 48 + d ≤ 51 by omega⟩

theorem digitChar_toNat {c : Char} (hc : '0'.toNat ≤ c.toNat) :
    Char.ofNat ('0'.toNat + (c.toNat - '0'.toNat)) = c := by
  rw [Nat.add_sub_cancel' hc, Char.ofNat_toNat]

theorem digitsValue_cons (base acc : Nat) (c : Char) (cs : List Char) :
    digitsValue base acc (c :: cs) = digitsValue base (base * acc + (c.toNat - '0'.toNat)) cs :=
  rfl

theorem digitsValue_eq (base : Nat) (cs : List Char) :
    ∀ acc, digitsValue base acc cs = acc * base ^ cs.length + digitsValue base 0 cs := by
  induction cs with
  | nil => intro acc; simp [digitsValue]
  | cons c cs ih =>
    intro acc
    simp only [digitsValue, List.foldl_cons, List.length_cons] at ih ⊢
    rw [ih, ih (base * 0 + _), pow_succ]
    ring

theorem digitsValue_lt : ∀ cs : List Char, (∀ c ∈ cs, IsPathChar c) →
    digitsValue 4 0 cs < 4 ^ cs.length
  | [], _ => by simp [digitsValue]
  | c :: cs, hcs => by
    have hc := hcs c (List.mem_cons_self c cs)
    have ih := digitsValue_lt cs fun d hd => hcs d (List.mem_cons_of_mem c hd)
    have h4 : (c.toNat - '0'.toNat + 1) * 4 ^ cs.length ≤ 4 * 4 ^ cs.length :=
      Nat.mul_le_mul_right _ (digit_lt_four hc)
    rw [Nat.succ_mul] at h4
    rw [digitsValue_cons, digitsValue_eq, List.length_cons, pow_succ', Nat.mul_zero, Nat.zero_add]
    omega

/-- `FromString`'s loop on characters `'0'`-`'3'` computes their base-4 value. -/
theorem packPath_eq : ∀ (cs : List Char) (acc : BitVec 64), (∀ c ∈ cs, IsPathChar c) →
    cs.length ≤ 28 → acc.toNat < 4 ^ (28 - cs.length) →
      packPath cs acc = some (BitVec.ofNat 64 (digitsValue 4 acc.toNat cs))
  | [], acc, _, _, _ => by simp [packPath, digitsValue]
  | c :: cs, acc, hcs, hk, hacc => by
    have hc := hcs c (List.mem_cons_self c cs)
    have hd := digit_lt_four hc
    have hlen : (c :: cs).length = cs.length + 1 := rfl
    have h27 : 4 ^ (28 - (cs.length + 1)) ≤ 4 ^ 27 := Nat.pow_le_pow_right (by decide) (by omega)
    have hacc' : ((acc <<< 2) ||| BitVec.ofInt 64 ((c.toNat - '0'.toNat : Nat) : Int)).toNat =
        4 * acc.toNat + (c.toNat - '0'.toNat) :=
      toNat_shiftLeft_two_or rfl (by rw [hlen] at hacc; omega) hd
    have hpow : 4 ^ (28 - cs.length) = 4 * 4 ^ (28 - (cs.length + 1)) := by
      rw [← pow_succ']; congr 1; omega
    rw [packPath, if_neg ((not_lt_or_gt_iff c).2 hc),
      show (c.toNat : Int) - ('0'.toNat : Nat) = ((c.toNat - '0'.toNat : Nat) : Int) by
        have := hc.1; omega,
      packPath_eq cs _ (fun d hd => hcs d (List.mem_cons_of_mem c hd)) (by simp at hk; omega)
        (by rw [hacc', hpow]; rw [hlen] at hacc; omega), hacc']
    rfl

theorem length_pathChars (path : BitVec 64) : ∀ n, (pathChars path n).length = n
  | 0 => rfl
  | n + 1 => by rw [pathChars, List.length_cons, length_pathChars path n]

theorem pathChars_succ (path : BitVec 64) (n : Nat) :
    pathChars path (n + 1) =
      Char.ofNat ('0'.toNat + path.toNat / 4 ^ n % 4) :: pathChars path n := by
  rw [pathChars, toNat_shiftRight_and_three]

theorem isPathChar_pathChars (path : BitVec 64) : ∀ n, ∀ c ∈ pathChars path n, IsPathChar c
  | 0 => by simp [pathChars]
  | n + 1 => by
    rw [pathChars_succ]
    rintro c (_ | ⟨_, hc⟩)
    · exact isPathChar_digitChar (Nat.mod_lt _ (by decide))
    · exact isPathChar_pathChars path n c hc

/-- `ToString` writes the path's low `2 * n` bits as `n` base-4 digits. -/
theorem digitsValue_pathChars (path : BitVec 64) :
    ∀ n, digitsValue 4 0 (pathChars path n) = path.toNat % 4 ^ n
  | 0 => by simp [pathChars, digitsValue, Nat.mod_one]
  | n + 1 => by
    have hd := toNat_digitChar (path.toNat / 4 ^ n % 4) (by omega)
    rw [pathChars_succ, digitsValue_cons, digitsValue_eq, digitsValue_pathChars path n,
      length_pathChars, hd, Nat.mod_pow_succ, Nat.mul_zero, Nat.zero_add, Nat.add_sub_cancel_left]
    ring

/-- Digits `'0'`-`'3'` read back from their value are the same digits. -/
theorem pathChars_of_digitsValue : ∀ (ds : List Char), (∀ c ∈ ds, IsPathChar c) →
    ∀ path : BitVec 64, path.toNat % 4 ^ ds.length = digitsValue 4 0 ds →
      pathChars path ds.length = ds
  | [], _, _, _ => rfl
  | c :: cs, hcs, path, hp => by
    have hc := hcs c (List.mem_cons_self c cs)
    have hcs' : ∀ d ∈ cs, IsPathChar d := fun d hd => hcs d (List.mem_cons_of_mem c hd)
    have hV := digitsValue_lt cs hcs'
    have hval : digitsValue 4 0 (c :: cs) =
        (c.toNat - '0'.toNat) * 4 ^ cs.length + digitsValue 4 0 cs := by
      rw [digitsValue_cons, digitsValue_eq, Nat.mul_zero, Nat.zero_add]
    have h4 : 4 ^ (cs.length + 1) = 4 ^ cs.length * 4 := pow_succ 4 cs.length
    rw [List.length_cons, hval, h4] at hp
    have hdigit : path.toNat / 4 ^ cs.length % 4 = c.toNat - '0'.toNat := by
      rw [← Nat.mod_mul_right_div_self, hp, Nat.mul_comm, Nat.mul_add_div (pow_pos (by decide) _),
        Nat.div_eq_of_lt hV, Nat.add_zero]
    have hrest : path.toNat % 4 ^ cs.length = digitsValue 4 0 cs := by
      rw [← Nat.mod_mod_of_dvd path.toNat (Dvd.intro 4 rfl), hp, Nat.add_mod,
        Nat.mul_mod_left, Nat.zero_add, Nat.mod_mod, Nat.mod_eq_of_lt hV]
    rw [List.length_cons, pathChars_succ, hdigit, digitChar_toNat hc.1,
      pathChars_of_digitsValue cs hcs' path hrest]

/-- `FromString`'s loop gives up exactly when a character is not `'0'`-`'3'`. -/
theorem packPath_eq_none_iff : ∀ (cs : List Char) (acc : BitVec 64),
    packPath cs acc = Option.none ↔ ∃ c ∈ cs, ¬IsPathChar c
  | [], _ => by simp [packPath]
  | c :: cs, acc => by
    rw [packPath, List.exists_mem_cons_iff, ← not_lt_or_gt_iff c, not_not]
    split_ifs with h
    · exact iff_of_true rfl (.inl h)
    · rw [packPath_eq_none_iff cs, or_iff_right h]

theorem isPathChar_of_packPath_eq_some {cs : List Char} {acc path : BitVec 64}
    (h : packPath cs acc = some path) : ∀ c ∈ cs, IsPathChar c := fun c hc =>
  by_contra fun hnc => by rw [(packPath_eq_none_iff cs acc).2 ⟨c, hc, hnc⟩] at h; cases h

/-- The face digits, as `std::to_string` writes and `std::stoi` reads them. -/
theorem toStringInt_face : ∀ f : Nat, f < 6 → toStringInt f = [Char.ofNat ('0'.toNat + f)] := by
  decide

theorem stoi_face : ∀ f : Nat, f < 6 → stoi [Char.ofNat ('0'.toNat + f)] = some (f : Int) := by
  decide

theorem stoi_nil : stoi [] = Option.none := rfl

theorem fromFaceLevel_zero {f : Nat} (hf : f < 6) : fromFaceLevel f 0 = ofIndex 0 f := by
  have h := @fixRoot_pack_eq_ofIndex 0 f (by decide) (by simpa using hf)
  simp only [pow_zero, Nat.div_one, Nat.mod_one] at h
  simp only [fromFaceLevel, kMaxLevel]
  rw [if_neg (by omega), if_pos trivial, show BitVec.ofInt 64 0 = 0 from rfl,
    show ∀ x : BitVec 64, x ||| 0 = x from fun _ => BitVec.or_zero, faceBits_eq_pack (by omega), h]

/-- `FromString` of a face digit, with or without the `/`. -/
theorem fromString_face : ∀ f : Nat, f < 6 →
    fromString [Char.ofNat ('0'.toNat + f)] = ofIndex 0 f ∧
      fromString [Char.ofNat ('0'.toNat + f), '/'] = ofIndex 0 f := by
  decide

/-- The child positions `ToString` writes, read back as numbers. -/
theorem map_pathChars (path : BitVec 64) : ∀ n,
    (pathChars path n).map (fun c => ((c.toNat - '0'.toNat : Nat) : Int)) =
      (List.range n).map (fun i => ((path.toNat / 4 ^ (n - 1 - i) % 4 : Nat) : Int))
  | 0 => rfl
  | n + 1 => by
    rw [pathChars_succ, List.range_succ_eq_map, List.map_cons, List.map_cons, List.map_map,
      map_pathChars path n, toNat_digitChar _ (by omega), Nat.add_sub_cancel_left]
    congr 1
    refine List.map_congr_left fun i _ => ?_
    simp only [Function.comp_apply, show n + 1 - 1 - i.succ = n - 1 - i by omega]

/-- The cell index of face `f` with path value `V`, and the face and path read back from it. -/
theorem faceIndex_div_mod {f k V : Nat} (hf : f < 6) (hV : V < 4 ^ k) :
    f * 4 ^ k + V < 6 * 4 ^ k ∧ (f * 4 ^ k + V) / 4 ^ k = f ∧ (f * 4 ^ k + V) % 4 ^ k = V := by
  refine ⟨?_, ?_, ?_⟩
  · have := Nat.mul_le_mul_right (4 ^ k) (show f + 1 ≤ 6 by omega)
    rw [Nat.succ_mul] at this; omega
  · rw [Nat.add_comm, Nat.add_mul_div_right _ _ (pow_pos (by decide) _), Nat.div_eq_of_lt hV,
      Nat.zero_add]
  · rw [Nat.add_comm, Nat.add_mul_mod_self_right, Nat.mod_eq_of_lt hV]

/-- The word `FromString` assembles from face `f`, path value `V` and a level `L` from 1 to 28
is the cell `f * 4 ^ L + V` of that level. -/
theorem word_eq_ofIndex {f L V : Nat} (hf : f < 6) (hV : V < 4 ^ L) (hL1 : 1 ≤ L)
    (hL : L ≤ 28) :
    (⟨(BitVec.ofInt 64 (f : Int) <<< (64 - kFaceBits)) ||| (BitVec.ofNat 64 V <<< kLevelBits) |||
      BitVec.ofInt 64 (L : Int)⟩ : S2CellId) = ofIndex L (f * 4 ^ L + V) := by
  obtain ⟨hq, hdiv, hmod⟩ := faceIndex_div_mod hf hV
  obtain ⟨hF, hp, hl⟩ := pack_bounds_ofIndex hL hq
  rw [hdiv] at hF
  rw [hmod] at hp
  rw [(ofIndex_eq_pack hL hq (by omega)).1, hdiv, hmod,
    or_fields_eq_pack hF hp hl (by rw [BitVec.toNat_ofNat, Nat.mod_eq_of_lt (by omega)])]

theorem fromString_path {f : Nat} (hf : f < 6) {ds : List Char} (hds : ∀ c ∈ ds, IsPathChar c)
    (hk1 : 1 ≤ ds.length) (hk : ds.length ≤ 28) :
    fromString (Char.ofNat ('0'.toNat + f) :: '/' :: ds) =
      ofIndex ds.length (f * 4 ^ ds.length + digitsValue 4 0 ds) := by
  have hc : ∀ f : Nat, f < 6 → (Char.ofNat ('0'.toNat + f) != '/') = true := by decide
  have hlev : toInt32 ds.length = ds.length := by
    unfold toInt32; rw [if_pos (by omega), Nat.mod_eq_of_lt (by omega)]
  have hP : packPath ds 0 = some (BitVec.ofNat 64 (digitsValue 4 0 ds)) :=
    packPath_eq ds 0 hds hk (show 0 < _ from pow_pos (by decide) _)
  simp only [fromString, List.takeWhile_cons, List.dropWhile_cons, hc f hf, bne_self_eq_false,
    if_true, if_false, Bool.false_eq_true, List.takeWhile_nil, stoi_face f hf, hlev, kMaxLevel,
    Int.toNat_ofNat, List.take_length, hP, List.cons_ne_nil]
  rw [if_neg (by omega), if_neg (by omega), if_neg (by omega),
    word_eq_ofIndex hf (digitsValue_lt ds hds) hk1 hk]

/-- `ToString` of a valid id: the face digit, then from level 1 on `/` and the path digits. -/
theorem toString_of_isValid {x : S2CellId} (h : x.isValid = true) :
    x.toString = Char.ofNat ('0'.toNat + x.cellIndex / 4 ^ x.levelField) ::
      (if x.levelField = 0 then [] else '/' :: pathChars x.path x.levelField) := by
  have hF : x.cellIndex / 4 ^ x.levelField < 6 :=
    (Nat.div_lt_iff_lt_mul (pow_pos (by decide) _)).2 (cellIndex_lt_of_isValid h)
  simp only [toString, h, Bool.not_true, face_eq_cellIndex_div, toStringInt_face _ hF,
    level_eq_levelField, Nat.cast_eq_zero, Int.toNat_ofNat]
  rw [if_neg Bool.false_ne_true]
  split_ifs <;> rfl

/-- `FromString` inverts `ToString` from level 1 on, and gives the face's canonical id at
level 0, where `ToString` writes no path. -/
theorem fromString_toString {x : S2CellId} (h : x.isValid = true) :
    fromString x.toString = if x.level = 0 then fromFaceLevel x.face 0 else x := by
  have hL := levelField_le_of_isValid h
  have hF : x.cellIndex / 4 ^ x.levelField < 6 :=
    (Nat.div_lt_iff_lt_mul (pow_pos (by decide) _)).2 (cellIndex_lt_of_isValid h)
  rw [toString_of_isValid h, level_eq_levelField, face_eq_cellIndex_div]
  by_cases h0 : x.levelField = 0
  · rw [if_pos h0, if_pos (by rw [h0]; rfl), (fromString_face _ hF).1, fromFaceLevel_zero hF]
  · rw [if_neg h0, if_neg (by exact_mod_cast h0),
      fromString_path hF (isPathChar_pathChars _ _) (by rw [length_pathChars]; omega)
        (by rw [length_pathChars]; omega),
      length_pathChars, digitsValue_pathChars, toNat_path_eq_cellIndex_mod hL, Nat.mod_mod,
      Nat.mul_comm, Nat.div_add_mod, ← eq_ofIndex_of_isValid h (Or.inl h0)]

theorem fromString_toString_root_with_path :
    (⟨0x20⟩ : S2CellId).isValid = true ∧
      fromString (⟨0x20⟩ : S2CellId).toString = (if (⟨0x20⟩ : S2CellId).level = 0 then
        fromFaceLevel (⟨0x20⟩ : S2CellId).face 0 else ⟨0x20⟩) :=
  ⟨by decide, fromString_toString (by decide)⟩

/-- Face 0's root with path bit 0 set: `ToString` writes `0`, which parses to the marker. -/
theorem toString_root_with_path_not_roundTrip :
    (⟨0x20⟩ : S2CellId).isValid = true ∧ fromString (⟨0x20⟩ : S2CellId).toString ≠ ⟨0x20⟩ := by
  decide

/-- What `FromString` of a canonical string promises: the id it names, with face digit `f`
and child positions `ds`, which `ToString` writes back. -/
structure ParsesAs (x : S2CellId) (f : Char) (ds : List Char) : Prop where
  isValid : x.isValid = true
  face : x.face = ((f.toNat - '0'.toNat : Nat) : Int)
  level : x.level = ds.length
  childPositionAt : (List.range ds.length).map (fun i => x.childPositionAt (i + 1 : Nat)) =
    ds.map (fun c => ((c.toNat - '0'.toNat : Nat) : Int))
  toString : x.toString = f :: (if ds = [] then [] else '/' :: ds)

theorem parsesAs_face {d : Nat} (hd : d < 6) :
    (ofIndex 0 d).ParsesAs (Char.ofNat ('0'.toNat + d)) [] := by
  have hq : d < 6 * 4 ^ 0 := by simpa using hd
  have hv := isValid_ofIndex (le_refl 0 |>.trans (by decide)) hq
  refine ⟨hv, ?_, level_ofIndex (by decide) hq, rfl, ?_⟩
  · rw [face_ofIndex (by decide) hq, toNat_digitChar d (by omega), Nat.add_sub_cancel_left,
      pow_zero, Nat.div_one]
  · rw [toString_of_isValid hv, levelField_ofIndex (by decide) hq, cellIndex_ofIndex (by decide) hq,
      pow_zero, Nat.div_one]
    rfl

theorem parsesAs_path {d : Nat} (hd : d < 6) {ds : List Char} (hds : ∀ c ∈ ds, IsPathChar c)
    (hk1 : 1 ≤ ds.length) (hk : ds.length ≤ 28) :
    (ofIndex ds.length (d * 4 ^ ds.length + digitsValue 4 0 ds)).ParsesAs
      (Char.ofNat ('0'.toNat + d)) ds := by
  obtain ⟨hq, hdiv, hmod⟩ := faceIndex_div_mod hd (digitsValue_lt ds hds)
  have hv := isValid_ofIndex hk hq
  have hL := levelField_ofIndex hk hq
  have hI := cellIndex_ofIndex hk hq
  have hpath : pathChars (ofIndex ds.length (d * 4 ^ ds.length + digitsValue 4 0 ds)).path
      ds.length = ds := by
    refine pathChars_of_digitsValue ds hds _ ?_
    rw [toNat_path_eq_cellIndex_mod (by omega), hL, hI, Nat.mod_mod, hmod]
  have h64 : d * 4 ^ ds.length + digitsValue 4 0 ds < 2 ^ 64 := by
    have : 4 ^ ds.length ≤ 4 ^ 28 := Nat.pow_le_pow_right (by decide) hk
    have : 4 ^ 28 * 6 < 2 ^ 64 := by decide
    omega
  refine ⟨hv, ?_, level_ofIndex hk hq, ?_, ?_⟩
  · rw [face_ofIndex hk hq, hdiv, toNat_digitChar d (by omega), Nat.add_sub_cancel_left]
  · have hspell := pathChars_of_digitsValue ds hds
      (BitVec.ofNat 64 (d * 4 ^ ds.length + digitsValue 4 0 ds))
      (by rw [BitVec.toNat_ofNat, Nat.mod_eq_of_lt h64, hmod])
    conv_rhs => rw [← hspell, map_pathChars, BitVec.toNat_ofNat, Nat.mod_eq_of_lt h64]
    refine List.map_congr_left fun i hi => ?_
    rw [List.mem_range] at hi
    rw [childPositionAt_of_isValid hv (by omega) (by rw [hL]; omega), hL, hI,
      show ds.length - (i + 1) = ds.length - 1 - i by omega]
  · rw [toString_of_isValid hv, hL, hI, hdiv, if_neg (by omega), hpath,
      if_neg (List.ne_nil_of_length_pos (by omega))]

/-- `FromString` of a face digit, optionally followed by `/` and up to 28 digits `'0'`-`'3'`,
is the valid id they spell, and `ToString` gives the string back without a trailing `/`. -/
theorem fromString_canonical {f : Char} {ds : List Char} (hf : '0' ≤ f ∧ f ≤ '5')
    (hds : ∀ c ∈ ds, '0' ≤ c ∧ c ≤ '3') (hk : ds.length ≤ 28) :
    (fromString [f]).ParsesAs f [] ∧ (fromString (f :: '/' :: ds)).ParsesAs f ds := by
  have hf' : '0'.toNat ≤ f.toNat ∧ f.toNat ≤ '0'.toNat + 5 := hf
  have hds' : ∀ c ∈ ds, IsPathChar c := hds
  obtain ⟨d, hd, rfl⟩ : ∃ d, d < 6 ∧ f = Char.ofNat ('0'.toNat + d) :=
    ⟨f.toNat - '0'.toNat, by omega, (digitChar_toNat hf'.1).symm⟩
  refine ⟨by rw [(fromString_face d hd).1]; exact parsesAs_face hd, ?_⟩
  rcases Nat.eq_zero_or_pos ds.length with h0 | h1
  · rw [List.length_eq_zero.1 h0, (fromString_face d hd).2]; exact parsesAs_face hd
  · rw [fromString_path hd hds' h1 hk]; exact parsesAs_path hd hds' h1 hk

theorem fromString_canonical_three_two_one :
    ('0' ≤ '3' ∧ '3' ≤ '5') ∧ (∀ c ∈ ['2', '1'], '0' ≤ c ∧ c ≤ '3') ∧ ['2', '1'].length ≤ 28 ∧
      ((fromString ['3']).ParsesAs '3' [] ∧
        (fromString ['3', '/', '2', '1']).ParsesAs '3' ['2', '1']) :=
  ⟨by decide, by decide, by decide, fromString_canonical (by decide) (by decide) (by decide)⟩

/-! ### What `FromString` accepts -/

theorem toInt32_bounds (n : Nat) : -2 ^ 31 ≤ toInt32 n ∧ toInt32 n < 2 ^ 31 := by
  unfold toInt32; split <;> omega

/-- Below `2^32` the cast keeps the length, read as negative from `2^31` on. -/
theorem toInt32_of_lt {n : Nat} (h : n < 2 ^ 32) :
    toInt32 n = if n < 2 ^ 31 then (n : Int) else n - 2 ^ 32 := by
  rw [toInt32, Nat.mod_eq_of_lt h]

/-- A negative level sets every bit of the face field: the word is not valid. -/
theorem isValid_word_of_neg (F P : BitVec 64) {L : Int} (h0 : L < 0) (h31 : -2 ^ 31 ≤ L) :
    (⟨F ||| P ||| BitVec.ofInt 64 L⟩ : S2CellId).isValid = false := by
  have hL : 2 ^ 64 - 2 ^ 31 ≤ (BitVec.ofInt 64 L).toNat := by
    rw [BitVec.toNat_ofInt]; omega
  have hle : (BitVec.ofInt 64 L).toNat ≤ (F ||| P ||| BitVec.ofInt 64 L).toNat := by
    rw [BitVec.toNat_or]
    exact Nat.le_of_testBit fun i h => by rw [Nat.testBit_or, h, Bool.or_true]
  have hF : 6 ≤ (F ||| P ||| BitVec.ofInt 64 L).toNat / 2 ^ 61 := by omega
  exact Bool.eq_false_iff.2 fun hv => absurd (decodable_of_isValid hv).faceField_lt (Nat.not_lt.2 hF)

/-- The word `FromString` assembles from face `f`, the packed first characters of the path
part `p` and the level read from `p`'s length, when that level is nonzero and at most 28: it is
valid exactly when the level is positive. -/
theorem isValid_word_iff {f : Nat} (hf : f < 6) {p : List Char} {path : BitVec 64}
    (h0 : toInt32 p.length ≠ 0) (h28 : toInt32 p.length ≤ 28)
    (hp : packPath (p.take (toInt32 p.length).toNat) 0 = some path) :
    (⟨(BitVec.ofInt 64 (f : Int) <<< (64 - kFaceBits)) ||| (path <<< kLevelBits) |||
      BitVec.ofInt 64 (toInt32 p.length)⟩ : S2CellId).isValid = true ↔ 0 < toInt32 p.length := by
  obtain ⟨hlo, -⟩ := toInt32_bounds p.length
  by_cases hneg : toInt32 p.length < 0
  · exact iff_of_false (by rw [isValid_word_of_neg _ _ hneg hlo]; exact Bool.false_ne_true)
      (by omega)
  obtain ⟨L, hL⟩ : ∃ L : Nat, toInt32 p.length = L := ⟨_, (Int.toNat_of_nonneg (by omega)).symm⟩
  have hLp : L ≤ p.length := by unfold toInt32 at hL; split at hL <;> omega
  have hlen : (p.take L).length = L := List.length_take_of_le hLp
  rw [hL, Int.toNat_ofNat] at hp
  rw [hL]
  have hall := isPathChar_of_packPath_eq_some hp
  have hV := digitsValue_lt _ hall
  rw [hlen] at hV
  have hP : packPath (p.take L) 0 = some (BitVec.ofNat 64 (digitsValue 4 0 (p.take L))) :=
    packPath_eq _ 0 hall (by omega) (by rw [hlen]; exact pow_pos (by decide) _)
  obtain rfl := Option.some.inj (hP.symm.trans hp)
  rw [word_eq_ofIndex hf hV (by omega) (by omega)]
  exact iff_of_true (isValid_ofIndex (by omega) (faceIndex_div_mod hf hV).1) (by omega)

/-- `FromString(s)` is valid exactly when `std::stoi` reads the part before the first `/` as a
face `0`-`5` and, if there is a `/`, the path length cast to `int` is 0, or a level from 1 to
28 whose that many first characters are `'0'`-`'3'`. -/
theorem isValid_fromString_iff (s : List Char) :
    (fromString s).isValid = true ↔
      ∃ f : Int, stoi (s.takeWhile (fun c => c != '/')) = some f ∧ 0 ≤ f ∧ f ≤ 5 ∧
        ∀ p, s.dropWhile (fun c => c != '/') = '/' :: p →
          toInt32 p.length = 0 ∨
            (0 < toInt32 p.length ∧ toInt32 p.length ≤ 28 ∧
              ∀ c ∈ p.take (toInt32 p.length).toNat, '0' ≤ c ∧ c ≤ '3') := by
  have hn : none.isValid ≠ true := by decide
  by_cases hs : s = []
  · subst hs
    refine iff_of_false hn fun ⟨f, hf, _⟩ => ?_
    rw [List.takeWhile_nil, stoi_nil] at hf
    cases hf
  simp only [fromString, if_neg hs]
  cases hst : stoi (s.takeWhile fun c => c != '/') with
  | none => exact iff_of_false hn fun ⟨_, h, _⟩ => Option.noConfusion h
  | some face =>
    simp only [Option.some.injEq, exists_eq_left']
    by_cases hf : face < 0 ∨ face > 5
    · exact iff_of_false (by rw [if_pos hf]; exact hn) (by omega)
    rw [if_neg hf]
    obtain ⟨f, rfl⟩ : ∃ f : Nat, face = f := ⟨face.toNat, by omega⟩
    have hf6 : f < 6 := by omega
    have hface : (fromFaceLevel f 0).isValid = true := by
      rw [fromFaceLevel_zero hf6]; exact isValid_ofIndex (by omega) (by omega)
    cases hd : s.dropWhile fun c => c != '/' with
    | nil => exact iff_of_true hface ⟨by omega, by omega, fun _ h => nomatch h⟩
    | cons c p =>
      have hc : c = '/' := by
        simpa [hd] using List.head_dropWhile_not (fun c => c != '/') s (by simp [hd])
      subst hc
      dsimp only
      simp only [List.cons.injEq, true_and, forall_eq']
      by_cases h0 : toInt32 p.length = 0
      · rw [if_pos h0]; exact iff_of_true hface ⟨by omega, by omega, .inl h0⟩
      rw [if_neg h0]
      by_cases h28 : toInt32 p.length > kMaxLevel
      · rw [if_pos h28]; exact iff_of_false hn (by simp only [kMaxLevel] at h28; omega)
      rw [if_neg h28]
      have h28 : toInt32 p.length ≤ 28 := by simp only [kMaxLevel] at h28; omega
      cases hp : packPath (p.take (toInt32 p.length).toNat) 0 with
      | none =>
        obtain ⟨c, hc, hnc⟩ := (packPath_eq_none_iff _ _).1 hp
        exact iff_of_false hn fun ⟨_, _, h⟩ => h.elim h0 fun h' => hnc (h'.2.2 c hc)
      | some path =>
        rw [isValid_word_iff hf6 h0 h28 hp]
        exact ⟨fun h => ⟨by omega, by omega, .inr ⟨h, h28, isPathChar_of_packPath_eq_some hp⟩⟩,
          fun ⟨_, _, h⟩ => h.elim (absurd · h0) (·.1)⟩

/-- For a path part shorter than `2^32` characters, `FromString(s)` is valid exactly when
`std::stoi` reads the part before the first `/` as a face `0`-`5` and the part after it, if
any, has at most 28 characters, all `'0'`-`'3'`. -/
theorem isValid_fromString_iff_of_length_le (s : List Char)
    (hlen : (s.dropWhile (fun c => c != '/')).length ≤ 2 ^ 32) :
    (fromString s).isValid = true ↔
      ∃ f : Int, stoi (s.takeWhile (fun c => c != '/')) = some f ∧ 0 ≤ f ∧ f ≤ 5 ∧
        ∀ p, s.dropWhile (fun c => c != '/') = '/' :: p →
          p.length ≤ 28 ∧ ∀ c ∈ p, '0' ≤ c ∧ c ≤ '3' := by
  rw [isValid_fromString_iff]
  refine exists_congr fun f => and_congr_right fun _ => and_congr_right fun _ =>
    and_congr_right fun _ => forall_congr' fun p => imp_congr_right fun hp => ?_
  rw [hp, List.length_cons] at hlen
  rw [toInt32_of_lt (by omega)]
  split_ifs with h31
  · -- The cast keeps the length: the path is read whole, empty or not.
    rw [Int.toNat_natCast, List.take_length]
    rcases Nat.eq_zero_or_pos p.length with h0 | h0
    · simp [List.length_eq_zero.1 h0]
    · simp only [Int.ofNat_eq_zero, h0.ne', false_or, Int.ofNat_pos, h0, true_and]
      exact and_congr_left fun _ => by omega
  · exact iff_of_false (by rintro (h | ⟨h, -⟩) <;> omega) (by omega)

theorem isValid_fromString_iff_three_two_one :
    (['3', '/', '2', '1'].dropWhile (fun c => c != '/')).length ≤ 2 ^ 32 ∧
      ((fromString ['3', '/', '2', '1']).isValid = true ↔
        ∃ f : Int, stoi (['3', '/', '2', '1'].takeWhile (fun c => c != '/')) = some f ∧ 0 ≤ f ∧
          f ≤ 5 ∧ ∀ p, ['3', '/', '2', '1'].dropWhile (fun c => c != '/') = '/' :: p →
            p.length ≤ 28 ∧ ∀ c ∈ p, '0' ≤ c ∧ c ≤ '3') :=
  ⟨by decide, isValid_fromString_iff_of_length_le _ (by decide)⟩

/-- `std::stoi` reads a leading zero, white space or a sign before the face digit, and stops at
the first character that is not a digit: strings outside the canonical grammar that
`FromString` accepts. -/
theorem fromString_accepts_noncanonical_faces :
    (fromString ['0', '3']).isValid = true ∧ (fromString [' ', '3']).isValid = true ∧
      (fromString ['+', '3']).isValid = true ∧ (fromString ['3', 'x']).isValid = true := by
  decide

/-- `FromString` casts the path length to `int` before checking it against `kMaxLevel`: a path
part of `2^32 + L` characters, `L ≤ 28`, reads as level `L`, and only its first `L` characters
count. -/
theorem fromString_wraps_path_length (fs p : List Char) (hfs : '/' ∉ fs) (L : Nat)
    (hp : p.length = 2 ^ 32 + L) (hL : L ≤ 28) :
    fromString (fs ++ '/' :: p) = fromString (fs ++ '/' :: p.take L) := by
  have hpos : ∀ c ∈ fs, (c != '/') = true := fun c hc => bne_iff_ne.2 fun h => hfs (h ▸ hc)
  have hlen : toInt32 p.length = L ∧ toInt32 (p.take L).length = L := by
    rw [List.length_take, hp, min_eq_left (by omega), toInt32, toInt32]
    constructor <;> split <;> omega
  have htake : ∀ q : List Char, ('/' :: q).takeWhile (fun c => c != '/') = [] := fun _ => rfl
  have hdrop : ∀ q : List Char, ('/' :: q).dropWhile (fun c => c != '/') = '/' :: q :=
    fun _ => rfl
  simp only [fromString, List.append_eq_nil, List.cons_ne_nil, and_false, if_false,
    List.takeWhile_append_of_pos hpos, List.dropWhile_append_of_pos hpos, htake, hdrop, hlen,
    List.take_take, Int.toNat_natCast, min_self]

/-- "0/" and `2^32 + 1` zeros, far past 28 path characters, is the valid id of "0/0". -/
theorem fromString_wraps_path_length_at_two_pow_add_one :
    fromString ('0' :: '/' :: '0' :: List.replicate (2 ^ 32) '0') = fromString ['0', '/', '0'] ∧
      (fromString ['0', '/', '0']).isValid = true :=
  ⟨fromString_wraps_path_length ['0'] ('0' :: List.replicate (2 ^ 32) '0') (by decide) 1
    (by rw [List.length_cons, List.length_replicate]) (by decide), by decide⟩

end S2Geo.S2CellId
