import Prazor.Core.ArraySizes

/-!
# Fields of words

A number that is assembled from fields is their concatenation, and one whose upper bits are
set where its sign is set is its sign extension.
-/

namespace Prazor.Fields

variable {m n width : ℕ}

theorem getLsbD_append_low (high : BitVec m) (low : BitVec n) {i : ℕ} (hi : i < n) :
    (high ++ low).getLsbD i = low.getLsbD i := by
  rw [BitVec.getLsbD_append, if_pos hi]

theorem getLsbD_append_high (high : BitVec m) (low : BitVec n) {i : ℕ} (hi : n ≤ i) :
    (high ++ low).getLsbD i = high.getLsbD (i - n) := by
  rw [BitVec.getLsbD_append, if_neg (by omega)]

/-- A field over another one. -/
theorem shiftLeft_or_setWidth (high : BitVec m) (low : BitVec n) :
    (high.setWidth width <<< n) ||| low.setWidth width = (high ++ low).setWidth width := by
  apply BitVec.eq_of_getLsbD_eq
  intro i hi
  rw [BitVec.getLsbD_or, BitVec.getLsbD_shiftLeft, BitVec.getLsbD_setWidth,
    BitVec.getLsbD_setWidth, BitVec.getLsbD_setWidth, BitVec.getLsbD_append]
  by_cases hlow : i < n
  · simp [hi, hlow]
  · have hlast : i - n < width := by omega
    simp [hi, hlow, hlast, BitVec.getLsbD_of_ge low i (by omega)]

/-- Setting the bits above a field that is negative extends its sign. -/
theorem or_shiftLeft_allOnes (field : BitVec n) :
    (if field.msb then field.setWidth width ||| BitVec.allOnes width <<< n
      else field.setWidth width) = field.signExtend width := by
  apply BitVec.eq_of_getLsbD_eq
  intro i hi
  rw [BitVec.getLsbD_signExtend]
  cases hmsb : field.msb with
  | false =>
      by_cases hlow : i < n
      · simp [hi, hlow]
      · simp [hi, hlow, BitVec.getLsbD_of_ge field i (by omega)]
  | true =>
      by_cases hlow : i < n
      · simp [hi, hlow]
      · simp [hi, hlow]

/-- A field above others. -/
theorem shiftLeft_or_shiftLeft (high : BitVec m) (low : BitVec n) {i j : ℕ} (hi : i = n + j) :
    (high.setWidth width <<< i) ||| (low.setWidth width <<< j) =
      (high ++ low).setWidth width <<< j := by
  rw [hi, BitVec.shiftLeft_add, ← BitVec.shiftLeft_or_distrib, shiftLeft_or_setWidth]

/-- Zeros below a field. -/
theorem shiftLeft_setWidth (high : BitVec m) :
    high.setWidth width <<< n = (high ++ 0#n).setWidth width := by
  rw [← shiftLeft_or_setWidth, BitVec.setWidth_zero, BitVec.or_zero]

/-- A field below one with a sign. -/
theorem shiftLeft_signExtend_or (high : BitVec m) (low : BitVec n) (hm : 0 < m) :
    (high.signExtend width <<< n) ||| low.setWidth width =
      (high ++ low).signExtend width := by
  apply BitVec.eq_of_getLsbD_eq
  intro i hi
  have hmsb : (high ++ low).msb = high.msb := by
    rw [BitVec.msb_append, if_neg hm.ne']
  rw [BitVec.getLsbD_or, BitVec.getLsbD_shiftLeft, BitVec.getLsbD_setWidth,
    BitVec.getLsbD_signExtend, BitVec.getLsbD_signExtend, BitVec.getLsbD_append, hmsb]
  by_cases hlow : i < n
  · simp [hi, hlow, Nat.lt_add_left m hlow]
  · have hlast : i - n < width := by omega
    have hsame : i < m + n ↔ i - n < m := by omega
    simp [hi, hlow, hlast, hsame, BitVec.getLsbD_of_ge low i (by omega)]

theorem shiftLeft_signExtend (high : BitVec m) (hm : 0 < m) :
    high.signExtend width <<< n = (high ++ 0#n).signExtend width := by
  rw [← shiftLeft_signExtend_or high 0#n hm, BitVec.setWidth_zero, BitVec.or_zero]

end Prazor.Fields
