import S2Geo.V1.Iteration
import S2Geo.Compact.Iteration

/-!
# Stepping through a level of the Compact id

The Compact `next()`, `prev()`, `next_wrap()` and `prev_wrap()` convert to the Primary id, step
there, and convert back, giving up past level 28 (`delegateStep`). On the cells of a level
`L ≤ 28` the wrapping steps are therefore the Primary cycle carried over (`nextWrap_ofIndex`,
`prevWrap_ofIndex`), while `next()` past the last cell of face 5 and `prev()` before the first
cell of face 0 give `None()`: the Primary ids they reach there, of face 6 and 7, do not convert
(`stepping_laws`).
-/

namespace S2Geo.S2CellId

section Level

variable {L : Nat} (hL : L ≤ 28)
include hL

theorem nextWrap_ofIndex {q : Nat} (hq : q < 6 * 4 ^ L) :
    (ofIndex L q).nextWrap = ofIndex L ((q + 1) % (6 * 4 ^ L)) := by
  have hm := Nat.mod_lt (q + 1) (show 0 < 6 * 4 ^ L by omega)
  rw [nextWrap, delegateStep, toOldFormat_ofIndex hL hq,
    S2v1.S2CellId.nextWrap_ofIndex (by omega) hq,
    S2v1.S2CellId.level_ofIndex (by omega) (by omega), if_neg (by simp only [kMaxLevel]; omega),
    fromS2CellId_ofIndex hL hm]

theorem prevWrap_ofIndex {q : Nat} (hq : q < 6 * 4 ^ L) :
    (ofIndex L q).prevWrap = ofIndex L ((q + 6 * 4 ^ L - 1) % (6 * 4 ^ L)) := by
  have hm := Nat.mod_lt (q + 6 * 4 ^ L - 1) (show 0 < 6 * 4 ^ L by omega)
  rw [prevWrap, delegateStep, toOldFormat_ofIndex hL hq,
    S2v1.S2CellId.prevWrap_ofIndex (by omega) hq,
    S2v1.S2CellId.level_ofIndex (by omega) (by omega), if_neg (by simp only [kMaxLevel]; omega),
    fromS2CellId_ofIndex hL hm]

theorem prev_ofIndex {q : Nat} (hq : q < 6 * 4 ^ L) (h1 : 1 ≤ q) :
    (ofIndex L q).prev = ofIndex L (q - 1) := by
  rw [prev, delegateStep, toOldFormat_ofIndex hL hq,
    S2v1.S2CellId.prev_ofIndex (by omega) (by omega) h1,
    S2v1.S2CellId.level_ofIndex (by omega) (by omega), if_neg (by simp only [kMaxLevel]; omega),
    fromS2CellId_ofIndex hL (by omega)]

/-- `prev()` of the first cell of a level: the Primary `prev()` wraps below 0 to an id of
face 7, which converts to `None()`. -/
theorem prev_ofIndex_zero : (ofIndex L 0).prev = none := by
  have hinv := S2v1.S2CellId.isValid_prev_ofIndex_zero (show L ≤ 30 by omega)
  rw [prev, delegateStep, toOldFormat_ofIndex hL (Nat.mul_pos (by decide) (Nat.pos_pow_of_pos _ (by decide)))]
  split
  · rfl
  · exact fromS2CellId_of_not_representable (by rw [hinv, Bool.false_and])

end Level

end S2Geo.S2CellId
