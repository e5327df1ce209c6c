import S2Geo.V1.Quadtree

/-!
# Iteration over a level of the Primary id

`next()` moves a level-`L` cell to the next index of the level (`next_ofIndex`), so a run of
`next()` from `child_begin(L)` visits exactly the level-`L` descendants in curve order and is
at `child_end(L)` after `4^(L - level)` steps (`next_visits_children`); from `Begin(L)` it
visits the whole level and reaches `End(L)`, the first index past face 5.

`next_wrap()` and `prev_wrap()` are `next()` and `prev()` modulo the `6 * 4^L` cells of the
level (`nextWrap_ofIndex`, `prevWrap_ofIndex`), even at `Begin(L)`, where `prev()` wraps
below 0 before `kWrapOffset` brings it back (`wrap_stepping`). Each of the two is then a
single cycle through the level (`wrap_cycles`).
-/

namespace S2Geo.S2v1.S2CellId

/-- Iterating `next()` from `b` visits `N` strictly increasing ids, which are exactly the
valid level-`L` ids in `inRange`, and is at `e` after exactly `N` steps and not before. -/
structure IteratesOver (b e : S2CellId) (N : Nat) (L : Int) (inRange : S2CellId → Prop) :
    Prop where
  ne_end : ∀ k < N, next^[k] b ≠ e
  eq_end : next^[N] b = e
  increasing : ∀ k, k + 1 < N → next^[k] b < next^[k + 1] b
  covers : ∀ y : S2CellId,
    (y.isValid = true ∧ y.level = L ∧ inRange y) ↔ ∃ k < N, next^[k] b = y

theorem childBegin_ofIndex {k q : Nat} (hk : k ≤ 30) (hq : q < 8 * 4 ^ k) (hk30 : k < 30) :
    (ofIndex k q).childBegin = ofIndex (k + 1) (4 * q) := by
  have hsplit : 4 ^ (30 - k) = 4 * 4 ^ (30 - (k + 1)) := by
    rw [← Nat.pow_succ']; congr 1; omega
  ext1
  simp only [childBegin]
  rw [lsb_shiftRight_two_ofIndex hk hq hk30, lsb_ofIndex hk hq, id_ofIndex, id_ofIndex, hsplit,
    show 29 - k = 30 - (k + 1) by omega]
  push_cast
  ring

/-- The run: `m` steps of `next()` add `m` to the index. -/
theorem iterate_next_ofIndex {L j : Nat} (hL : L ≤ 30) :
    ∀ m, j + m ≤ 8 * 4 ^ L → next^[m] (ofIndex L j) = ofIndex L (j + m)
  | 0, _ => rfl
  | m + 1, hm => by
    rw [Function.iterate_succ_apply', iterate_next_ofIndex hL m (by omega),
      next_ofIndex hL (by omega)]
    rfl

/-- A run of `next()` over the level-`L` cells `j, ..., j + N - 1`, ending one past them. -/
theorem iteratesOver_ofIndex {L j N : Nat} (hL : L ≤ 30) (hjN : j + N ≤ 6 * 4 ^ L)
    {inRange : S2CellId → Prop}
    (hr : ∀ m, m < 6 * 4 ^ L → (inRange (ofIndex L m) ↔ j ≤ m ∧ m < j + N)) :
    IteratesOver (ofIndex L j) (ofIndex L (j + N)) N L inRange := by
  have hrun : ∀ k, k ≤ N → next^[k] (ofIndex L j) = ofIndex L (j + k) :=
    fun k hk => iterate_next_ofIndex hL k (by omega)
  refine ⟨fun k hk => ?_, hrun N le_rfl, fun k hk => ?_, fun y => ⟨?_, ?_⟩⟩
  · rw [hrun k hk.le, Ne, ofIndex_inj hL (by omega) (by omega)]; omega
  · rw [hrun k (by omega), hrun (k + 1) hk.le, ofIndex_lt_ofIndex hL (by omega) (by omega)]; omega
  · rintro ⟨hv, hl, hin⟩
    obtain ⟨m, hm, rfl⟩ := exists_ofIndex_of_level hv hl
    obtain ⟨h1, h2⟩ := (hr m hm).1 hin
    exact ⟨m - j, by omega, by rw [hrun _ (by omega), Nat.add_sub_cancel' h1]⟩
  · rintro ⟨k, hk, rfl⟩
    rw [hrun k hk.le, isValid_ofIndex hL (by omega), level_ofIndex hL (by omega)]
    exact ⟨decide_eq_true (by omega), rfl, (hr _ (by omega)).2 ⟨by omega, by omega⟩⟩

section Valid

variable {x : S2CellId} (h : x.isValid = true)
include h

theorem iteratesOver_childBeginAt {L : Nat} (hxL : x.level ≤ L) (hL : L ≤ 30) :
    IteratesOver (x.childBeginAt L) (x.childEndAt L) (4 ^ (L - x.level).toNat) L
      (fun y => x.contains y = true) := by
  obtain ⟨k, q, hk, hq, rfl⟩ := exists_ofIndex_of_isValid h
  rw [level_ofIndex hk (by omega)] at hxL ⊢
  have hkL : k ≤ L := by omega
  have hD : 0 < 4 ^ (L - k) := Nat.pos_pow_of_pos _ (by decide)
  have hend := mul_four_pow_le_mul (show q + 1 ≤ 6 * 4 ^ k by omega) hkL
  rw [show ((L : Int) - k).toNat = L - k by omega, childBeginAt_ofIndex hk (by omega) hkL hL,
    childEndAt_ofIndex hk (by omega) hkL hL, Nat.succ_mul]
  refine iteratesOver_ofIndex hL (by rw [Nat.succ_mul] at hend; exact hend) fun m hm => ?_
  rw [contains_ofIndex hk (by omega) hL (by omega), div_eq_iff_mul_le hD]
  omega

theorem iteratesOver_childBegin (hx30 : x.level < kMaxLevel) :
    IteratesOver x.childBegin x.childEnd 4 (x.level + 1) (fun y => x.contains y = true) := by
  obtain ⟨k, q, hk, hq, rfl⟩ := exists_ofIndex_of_isValid h
  have hlev := level_ofIndex hk (show q < 8 * 4 ^ k by omega)
  rw [hlev] at hx30 ⊢
  have hk30 : k < 30 := by simp only [kMaxLevel] at hx30; omega
  have h1 := iteratesOver_childBeginAt h
    (show (ofIndex k q).level ≤ ((k + 1 : Nat) : Int) by rw [hlev]; push_cast; omega) (by omega)
  rw [hlev, show ((k + 1 : Nat) - (k : Int)).toNat = 1 by omega, pow_one,
    childBeginAt_ofIndex hk (by omega) (by omega) (by omega),
    childEndAt_ofIndex hk (by omega) (by omega) (by omega)] at h1
  rw [childBegin_ofIndex hk (by omega) hk30, childEnd_ofIndex hk (by omega) hk30]
  simpa [Nat.add_sub_cancel_left, Nat.mul_comm] using h1

end Valid

theorem iteratesOver_begin {L : Nat} (hL : L ≤ 30) :
    IteratesOver (begin L) («end» L) (6 * 4 ^ L) L (fun _ => True) := by
  rw [begin_eq hL, end_eq hL]
  simpa using iteratesOver_ofIndex hL (show 0 + 6 * 4 ^ L ≤ 6 * 4 ^ L by omega)
    fun m hm => by simp [hm]

/-- `next()` walks every `child_begin`/`child_end` range and `Begin`/`End` range over exactly
the cells of its level in the range, in increasing order. -/
theorem next_visits_children :
    (∀ x : S2CellId, x.isValid = true → ∀ L : Int, x.level ≤ L → L ≤ kMaxLevel →
      IteratesOver (x.childBeginAt L) (x.childEndAt L) (4 ^ (L - x.level).toNat) L
        (fun y => x.contains y = true)) ∧
    (∀ x : S2CellId, x.isValid = true → x.level < kMaxLevel →
      IteratesOver x.childBegin x.childEnd 4 (x.level + 1) (fun y => x.contains y = true)) ∧
    (∀ L : Int, 0 ≤ L → L ≤ kMaxLevel →
      IteratesOver (begin L) («end» L) (6 * 4 ^ L.toNat) L (fun _ => True)) := by
  refine ⟨fun x h L hxL hL => ?_, fun x h hx => iteratesOver_childBegin h hx, fun L h0 hL => ?_⟩
  · have h0 : 0 ≤ L := by
      obtain ⟨k, q, hk, hq, rfl⟩ := exists_ofIndex_of_isValid h
      rw [level_ofIndex hk (by omega)] at hxL; omega
    obtain ⟨L, rfl⟩ := Int.eq_ofNat_of_zero_le h0
    exact iteratesOver_childBeginAt h hxL (by simp only [kMaxLevel] at hL; omega)
  · obtain ⟨L, rfl⟩ := Int.eq_ofNat_of_zero_le h0
    rw [Int.toNat_ofNat]
    exact iteratesOver_begin (by simp only [kMaxLevel] at hL; omega)

theorem succ_mod_pred_mod {q M : Nat} (hq : q < M) : ((q + 1) % M + M - 1) % M = q := by
  rcases Nat.lt_or_ge (q + 1) M with h | h
  · rw [Nat.mod_eq_of_lt h, show q + 1 + M - 1 = q + M by omega, Nat.add_mod_right,
      Nat.mod_eq_of_lt hq]
  · rw [show q + 1 = M by omega, Nat.mod_self, Nat.zero_add, Nat.mod_eq_of_lt (by omega)]
    omega

theorem pred_mod_succ_mod {q M : Nat} (hq : q < M) : ((q + M - 1) % M + 1) % M = q := by
  rcases q with _ | q
  · rw [Nat.zero_add, Nat.mod_eq_of_lt (by omega : M - 1 < M), Nat.sub_add_cancel (by omega),
      Nat.mod_self]
  · rw [show q + 1 + M - 1 = q + M by omega, Nat.add_mod_right,
      Nat.mod_eq_of_lt (show q < M by omega), Nat.mod_eq_of_lt hq]

theorem toNat_kWrapOffset : kWrapOffset.toNat = 12 * 2 ^ 60 := by decide

section Wrap

variable {L : Nat} (hL : L ≤ 30)
include hL

/-- `prev()` of the first cell of a level wraps below 0: the id is `2^64` minus the cell's
lowest bit. -/
theorem toNat_prev_ofIndex_zero : (ofIndex L 0).prev.id.toNat = 2 ^ 64 - 4 ^ (30 - L) := by
  have hP : 4 ^ (30 - L) ≤ 2 ^ 60 := by
    rw [four_pow_eq_two_pow]; exact Nat.pow_le_pow_right (by decide) (by omega)
  have hP1 : 0 < 4 ^ (30 - L) := Nat.pos_pow_of_pos _ (by decide)
  have h0 : 0 < 8 * 4 ^ L := Nat.mul_pos (by decide) (Nat.pos_pow_of_pos _ (by decide))
  rw [prev, lsb_shiftLeft_one_eq (lsb_ofIndex hL h0), BitVec.toNat_sub,
    toNat_ofIndex hL h0, BitVec.natCast_eq_ofNat, BitVec.toNat_ofNat,
    Nat.mod_eq_of_lt (show 2 * 4 ^ (30 - L) < 2 ^ 64 by omega)]
  omega

/-- The same id lies on face 7, so it is not a valid id. -/
theorem isValid_prev_ofIndex_zero : (ofIndex L 0).prev.isValid = false := by
  have hP : 4 ^ (30 - L) ≤ 2 ^ 60 := by
    rw [four_pow_eq_two_pow]; exact Nat.pow_le_pow_right (by decide) (by omega)
  have hP1 : 0 < 4 ^ (30 - L) := Nat.pos_pow_of_pos _ (by decide)
  have hface : (ofIndex L 0).prev.face = 7 := by
    rw [face, BitVec.toNat_ushiftRight, toNat_prev_ofIndex_zero hL, Nat.shiftRight_eq_div_pow]
    simp only [kPosBits, kMaxLevel]
    omega
  simp [isValid, hface, kNumFaces]

/-- `next_wrap()` is `next()` modulo the `6 * 4^L` cells of the level. -/
theorem nextWrap_ofIndex {q : Nat} (hq : q < 6 * 4 ^ L) :
    (ofIndex L q).nextWrap = ofIndex L ((q + 1) % (6 * 4 ^ L)) := by
  have hAP := four_pow_mul_four_pow hL
  have hP1 : 0 < 4 ^ (30 - L) := Nat.pos_pow_of_pos _ (by decide)
  have hid := toNat_ofIndex hL (show q + 1 < 8 * 4 ^ L by omega)
  simp only [nextWrap]
  rw [next_ofIndex hL (show q < 8 * 4 ^ L by omega)]
  rcases Nat.lt_or_ge (q + 1) (6 * 4 ^ L) with h | h
  · have hlow : (2 * (q + 1) + 1) * 4 ^ (30 - L) + 4 ^ (30 - L) ≤ 12 * (4 ^ L * 4 ^ (30 - L)) := by
      calc (2 * (q + 1) + 1) * 4 ^ (30 - L) + 4 ^ (30 - L) = (2 * q + 4) * 4 ^ (30 - L) := by ring
        _ ≤ (12 * 4 ^ L) * 4 ^ (30 - L) := Nat.mul_le_mul_right _ (by omega)
        _ = 12 * (4 ^ L * 4 ^ (30 - L)) := by ring
    rw [if_pos (BitVec.lt_def.2 (by rw [hid, toNat_kWrapOffset]; omega)), Nat.mod_eq_of_lt h]
  · have hq1 : q + 1 = 6 * 4 ^ L := by omega
    have hid' : (2 * (q + 1) + 1) * 4 ^ (30 - L) = 12 * (4 ^ L * 4 ^ (30 - L)) + 4 ^ (30 - L) := by
      rw [hq1]; ring
    rw [hq1] at hid hid' ⊢
    rw [if_neg (fun h' => by rw [BitVec.lt_def, hid, toNat_kWrapOffset] at h'; omega),
      Nat.mod_self]
    ext1
    apply BitVec.eq_of_toNat_eq
    rw [BitVec.toNat_sub, hid, toNat_kWrapOffset, toNat_ofIndex hL (by omega)]
    omega

/-- `prev_wrap()` is `prev()` modulo the `6 * 4^L` cells of the level. -/
theorem prevWrap_ofIndex {q : Nat} (hq : q < 6 * 4 ^ L) :
    (ofIndex L q).prevWrap = ofIndex L ((q + 6 * 4 ^ L - 1) % (6 * 4 ^ L)) := by
  have hAP := four_pow_mul_four_pow hL
  have hP1 : 0 < 4 ^ (30 - L) := Nat.pos_pow_of_pos _ (by decide)
  have hA1 : 0 < 4 ^ L := Nat.pos_pow_of_pos _ (by decide)
  simp only [prevWrap]
  rcases q with _ | q
  · have hp := toNat_prev_ofIndex_zero hL
    have hlast : (2 * (6 * 4 ^ L - 1) + 1) * 4 ^ (30 - L) + 4 ^ (30 - L) =
        12 * (4 ^ L * 4 ^ (30 - L)) := by
      rw [← Nat.succ_mul, Nat.succ_eq_add_one, show 2 * (6 * 4 ^ L - 1) + 1 + 1 = 12 * 4 ^ L by omega,
        Nat.mul_assoc]
    have hPle : 4 ^ (30 - L) ≤ 2 ^ 60 := hAP ▸ Nat.le_mul_of_pos_left _ hA1
    rw [if_neg (fun h' => by rw [BitVec.lt_def, hp, toNat_kWrapOffset] at h'; omega),
      Nat.zero_add, Nat.mod_eq_of_lt (by omega : 6 * 4 ^ L - 1 < 6 * 4 ^ L)]
    ext1
    apply BitVec.eq_of_toNat_eq
    rw [BitVec.toNat_add, hp, toNat_kWrapOffset,
      toNat_ofIndex hL (show 6 * 4 ^ L - 1 < 8 * 4 ^ L by omega)]
    omega
  · have hid := toNat_ofIndex hL (show q < 8 * 4 ^ L by omega)
    have hlow : (2 * q + 1) * 4 ^ (30 - L) < 12 * (4 ^ L * 4 ^ (30 - L)) := by
      calc (2 * q + 1) * 4 ^ (30 - L) < (12 * 4 ^ L) * 4 ^ (30 - L) :=
            Nat.mul_lt_mul_of_pos_right (by omega) hP1
        _ = 12 * (4 ^ L * 4 ^ (30 - L)) := by ring
    rw [prev_ofIndex hL (by omega) (by omega), Nat.add_sub_cancel,
      if_pos (BitVec.lt_def.2 (by rw [hid, toNat_kWrapOffset]; omega)),
      show q + 1 + 6 * 4 ^ L - 1 = q + 6 * 4 ^ L by omega, Nat.add_mod_right,
      Nat.mod_eq_of_lt (by omega)]

end Wrap

/-- The wrapping steps on the valid level-`L` ids, with `ofIndex L (6 * 4^L - 1)` the last
cell of the level. -/
structure WrapLaws (L : Nat) : Prop where
  mapsTo : ∀ x : S2CellId, x.isValid = true → x.level = L →
    x.nextWrap.isValid = true ∧ x.nextWrap.level = L ∧ x.prevWrap.isValid = true ∧
      x.prevWrap.level = L
  inverse : ∀ x : S2CellId, x.isValid = true → x.level = L →
    x.nextWrap.prevWrap = x ∧ x.prevWrap.nextWrap = x
  next_prev : ∀ x : S2CellId, x.isValid = true → x.level = L → x.next.prev = x ∧ x.next.level = L
  nextWrap_eq_next : ∀ x : S2CellId, x.isValid = true → x.level = L →
    x ≠ ofIndex L (6 * 4 ^ L - 1) → x.nextWrap = x.next
  next_last : (ofIndex L (6 * 4 ^ L - 1)).next = «end» L
  nextWrap_last : (ofIndex L (6 * 4 ^ L - 1)).nextWrap = begin L
  prevWrap_begin : (begin L).prevWrap = ofIndex L (6 * 4 ^ L - 1)
  prev_begin : (begin L).prev.id.toNat + 4 ^ (30 - L) = 2 ^ 64

/-- `next_wrap()` and `prev_wrap()` cycle through each level, inverse to each other. -/
theorem wrap_stepping (L : Nat) (hL : L ≤ 30) : WrapLaws L := by
  have hA1 : 0 < 4 ^ L := Nat.pos_pow_of_pos _ (by decide)
  have hvalid : ∀ m, m < 6 * 4 ^ L → (ofIndex L m).isValid = true ∧ (ofIndex L m).level = L :=
    fun m hm => ⟨by rw [isValid_ofIndex hL (by omega)]; exact decide_eq_true hm,
      level_ofIndex hL (by omega)⟩
  have hM : 0 < 6 * 4 ^ L := by omega
  refine ⟨fun x h hl => ?_, fun x h hl => ?_, fun x h hl => ?_, fun x h hl hne => ?_, ?_, ?_, ?_, ?_⟩
  · obtain ⟨q, hq, rfl⟩ := exists_ofIndex_of_level h hl
    rw [nextWrap_ofIndex hL hq, prevWrap_ofIndex hL hq]
    exact ⟨(hvalid _ (Nat.mod_lt _ hM)).1, (hvalid _ (Nat.mod_lt _ hM)).2,
      (hvalid _ (Nat.mod_lt _ hM)).1, (hvalid _ (Nat.mod_lt _ hM)).2⟩
  · obtain ⟨q, hq, rfl⟩ := exists_ofIndex_of_level h hl
    rw [nextWrap_ofIndex hL hq, prevWrap_ofIndex hL (Nat.mod_lt _ hM), succ_mod_pred_mod hq,
      prevWrap_ofIndex hL hq, nextWrap_ofIndex hL (Nat.mod_lt _ hM), pred_mod_succ_mod hq]
    exact ⟨rfl, rfl⟩
  · obtain ⟨q, hq, rfl⟩ := exists_ofIndex_of_level h hl
    rw [next_ofIndex hL (by omega), prev_ofIndex hL (by omega) (by omega), Nat.add_sub_cancel]
    exact ⟨rfl, level_ofIndex hL (by omega)⟩
  · obtain ⟨q, hq, rfl⟩ := exists_ofIndex_of_level h hl
    have hq1 : q + 1 < 6 * 4 ^ L := by
      refine lt_of_le_of_ne hq fun heq => hne ?_
      rw [show q = 6 * 4 ^ L - 1 by omega]
    rw [nextWrap_ofIndex hL hq, next_ofIndex hL (by omega), Nat.mod_eq_of_lt hq1]
  · rw [next_ofIndex hL (by omega), end_eq hL, Nat.sub_add_cancel hM]
  · rw [nextWrap_ofIndex hL (by omega), begin_eq hL, Nat.sub_add_cancel hM, Nat.mod_self]
  · rw [begin_eq hL, prevWrap_ofIndex hL hM, Nat.zero_add, Nat.mod_eq_of_lt (by omega)]
  · rw [begin_eq hL, toNat_prev_ofIndex_zero hL]
    have : 4 ^ (30 - L) ≤ 2 ^ 64 := by
      rw [four_pow_eq_two_pow]; exact Nat.pow_le_pow_right (by decide) (by omega)
    omega

theorem wrap_stepping_level_two : 2 ≤ 30 ∧ WrapLaws 2 := ⟨by decide, wrap_stepping 2 (by decide)⟩

end S2Geo.S2v1.S2CellId

namespace S2Geo

/-- `f` runs through the elements satisfying `P` as one cycle of length `N`: it keeps them among
themselves, brings each back after `N` steps and not before, and leads from any one to any
other. -/
structure SingleCycle {α : Type} (f : α → α) (P : α → Prop) (N : Nat) : Prop where
  mapsTo : ∀ x, P x → P (f x)
  iterate_period : ∀ x, P x → f^[N] x = x
  iterate_ne : ∀ x, P x → ∀ n, 0 < n → n < N → f^[n] x ≠ x
  reaches : ∀ x y, P x → P y → ∃ n, n < N ∧ f^[n] x = y

section Rotation

variable {α : Type} {f : α → α} {P : α → Prop} {N : Nat} (e : Nat → α)

theorem iterate_rotation (hf : ∀ q, q < N → f (e q) = e ((q + 1) % N)) {q : Nat} (hq : q < N) :
    ∀ n, f^[n] (e q) = e ((q + n) % N)
  | 0 => by rw [Function.iterate_zero_apply, Nat.add_zero, Nat.mod_eq_of_lt hq]
  | n + 1 => by
    rw [Function.iterate_succ_apply', iterate_rotation hf hq n, hf _ (Nat.mod_lt _ (by omega)),
      Nat.mod_add_mod, Nat.add_assoc]

/-- A step that adds one modulo `N` to the index of the element it is given is a single cycle
of length `N` on the elements with an index below `N`. -/
theorem singleCycle_of_rotation (he : ∀ a b, a < N → b < N → e a = e b → a = b)
    (hP : ∀ x, P x ↔ ∃ q, q < N ∧ x = e q) (hf : ∀ q, q < N → f (e q) = e ((q + 1) % N)) :
    SingleCycle f P N := by
  refine ⟨fun x hx => ?_, fun x hx => ?_, fun x hx n hn0 hnN => ?_, fun x y hx hy => ?_⟩
  · obtain ⟨q, hq, rfl⟩ := (hP x).1 hx
    exact (hP _).2 ⟨_, Nat.mod_lt _ (by omega), hf q hq⟩
  · obtain ⟨q, hq, rfl⟩ := (hP x).1 hx
    rw [iterate_rotation e hf hq, Nat.add_mod_right, Nat.mod_eq_of_lt hq]
  · obtain ⟨q, hq, rfl⟩ := (hP x).1 hx
    rw [iterate_rotation e hf hq]
    intro h
    have hqn := he _ _ (Nat.mod_lt _ (by omega)) hq h
    rcases Nat.lt_or_ge (q + n) N with h1 | h1
    · rw [Nat.mod_eq_of_lt h1] at hqn; omega
    · rw [Nat.mod_eq_sub_mod h1, Nat.mod_eq_of_lt (by omega)] at hqn; omega
  · obtain ⟨q, hq, rfl⟩ := (hP x).1 hx
    obtain ⟨r, hr, rfl⟩ := (hP y).1 hy
    rcases Nat.lt_or_ge r q with hqr | hqr
    · refine ⟨r + N - q, by omega, ?_⟩
      rw [iterate_rotation e hf hq, show q + (r + N - q) = r + N by omega, Nat.add_mod_right,
        Nat.mod_eq_of_lt hr]
    · refine ⟨r - q, by omega, ?_⟩
      rw [iterate_rotation e hf hq, Nat.add_sub_cancel' hqr, Nat.mod_eq_of_lt hr]

/-- The same cycle read backwards: a step that subtracts one modulo `N` is a single cycle. -/
theorem singleCycle_of_rotation_pred (he : ∀ a b, a < N → b < N → e a = e b → a = b)
    (hP : ∀ x, P x ↔ ∃ q, q < N ∧ x = e q) (hf : ∀ q, q < N → f (e q) = e ((q + N - 1) % N)) :
    SingleCycle f P N := by
  refine singleCycle_of_rotation (fun q => e (N - 1 - q)) (fun a b ha hb h => ?_) (fun x => ?_)
    fun q hq => ?_
  · have := he _ _ (by omega) (by omega) h; omega
  · rw [hP x]
    exact ⟨fun ⟨q, hq, hx⟩ => ⟨N - 1 - q, by omega, by rw [hx]; congr 1; omega⟩,
      fun ⟨q, hq, hx⟩ => ⟨N - 1 - q, by omega, hx⟩⟩
  · show f (e (N - 1 - q)) = e (N - 1 - (q + 1) % N)
    rw [hf _ (by omega)]
    congr 1
    rcases Nat.lt_or_ge (q + 1) N with h | h
    · rw [Nat.mod_eq_of_lt h, show N - 1 - q + N - 1 = N - 1 - (q + 1) + N by omega,
        Nat.add_mod_right, Nat.mod_eq_of_lt (by omega)]
    · rw [show q + 1 = N by omega, Nat.mod_self, show N - 1 - q + N - 1 = N - 1 by omega,
        Nat.mod_eq_of_lt (by omega), Nat.sub_zero]

end Rotation

namespace S2v1.S2CellId

/-- The valid level-`L` ids are the cells `0, ..., 6 * 4^L - 1` of the level. -/
theorem isValid_level_iff {L : Nat} (hL : L ≤ 30) (x : S2CellId) :
    (x.isValid = true ∧ x.level = L) ↔ ∃ q, q < 6 * 4 ^ L ∧ x = ofIndex L q := by
  refine ⟨fun ⟨h, hl⟩ => exists_ofIndex_of_level h hl, ?_⟩
  rintro ⟨q, hq, rfl⟩
  rw [isValid_ofIndex hL (by omega), level_ofIndex hL (by omega)]
  exact ⟨decide_eq_true hq, rfl⟩

/-- `next_wrap()` and `prev_wrap()` each run through the valid level-`L` ids as one cycle of
length `6 * 4^L`. -/
theorem wrap_cycles (L : Nat) (hL : L ≤ 30) :
    SingleCycle nextWrap (fun x => x.isValid = true ∧ x.level = L) (6 * 4 ^ L) ∧
      SingleCycle prevWrap (fun x => x.isValid = true ∧ x.level = L) (6 * 4 ^ L) := by
  have hinj : ∀ a b, a < 6 * 4 ^ L → b < 6 * 4 ^ L → ofIndex L a = ofIndex L b → a = b :=
    fun a b ha hb h => (ofIndex_inj hL (by omega) (by omega)).1 h
  exact ⟨singleCycle_of_rotation (ofIndex L) hinj (isValid_level_iff hL)
      fun q hq => nextWrap_ofIndex hL hq,
    singleCycle_of_rotation_pred (ofIndex L) hinj (isValid_level_iff hL)
      fun q hq => prevWrap_ofIndex hL hq⟩

theorem wrap_cycles_level_one :
    1 ≤ 30 ∧ SingleCycle nextWrap (fun x => x.isValid = true ∧ x.level = (1 : Nat)) (6 * 4 ^ 1) ∧
      SingleCycle prevWrap (fun x => x.isValid = true ∧ x.level = (1 : Nat)) (6 * 4 ^ 1) :=
  ⟨by decide, wrap_cycles 1 (by decide)⟩

end S2v1.S2CellId

end S2Geo
