import Prazor.Core.ArraySizes

/-!
# Shifts with a carry out

The four shifts of a word and the last bit that each moves out, for amounts of
any size, and the rotation through the carry.
-/

namespace Prazor.Shifts

variable {w : ℕ}

inductive ShiftType
  | lsl
  | lsr
  | asr
  | ror
  deriving DecidableEq, Repr

/-- A shift of a word by an amount.  By nothing, the carry stays what it was. -/
def shiftC (type : ShiftType) (x : BitVec w) (amount : ℕ) (carryIn : Bool) :
    BitVec w × Bool :=
  if amount = 0 then (x, carryIn)
  else match type with
    | .lsl => (x <<< amount, if amount ≤ w then x.getLsbD (w - amount) else false)
    | .lsr => (x >>> amount, x.getLsbD (amount - 1))
    | .asr =>
        (x.sshiftRight amount, if amount ≤ w then x.getLsbD (amount - 1) else x.msb)
    | .ror =>
        let result := x.rotateRight amount
        (result, result.msb)

/-- The rotation by one place through the carry. -/
def rrxC (x : BitVec (w + 1)) (carryIn : Bool) : BitVec (w + 1) × Bool :=
  (BitVec.cons carryIn (x.extractLsb' 1 w), x.getLsbD 0)

theorem sshiftRight_of_ge (x : BitVec w) {n : ℕ} (hn : w ≤ n) :
    x.sshiftRight n = if x.msb then BitVec.allOnes w else 0 := by
  refine BitVec.eq_of_getLsbD_eq fun i hi => ?_
  rw [BitVec.getLsbD_sshiftRight]
  cases hmsb : x.msb <;> simp [hi] <;> omega

/-- An arithmetic shift fills the places that a logical one clears. -/
theorem sshiftRight_eq_or (x : BitVec w) {n : ℕ} (hn : n ≤ w) :
    x.sshiftRight n =
      (x >>> n) ||| (if x.msb then BitVec.allOnes w <<< (w - n) else 0) := by
  refine BitVec.eq_of_getLsbD_eq fun i hi => ?_
  rw [BitVec.getLsbD_sshiftRight, BitVec.getLsbD_or, BitVec.getLsbD_ushiftRight]
  have hfill : (BitVec.allOnes w <<< (w - n)).getLsbD i = decide (w ≤ n + i) := by
    rw [BitVec.getLsbD_shiftLeft, BitVec.getLsbD_allOnes, decide_eq_true hi, Bool.true_and,
      decide_eq_true (show i - (w - n) < w by omega), Bool.and_true, ← decide_not,
      decide_eq_decide]
    omega
  rcases Nat.lt_or_ge (n + i) w with hlt | hge
  · rw [if_pos hlt]
    cases x.msb
    · simp [hi]
    · rw [if_pos rfl, hfill, decide_eq_false (show ¬w ≤ n + i by omega)]
      simp [hi]
  · rw [if_neg (by omega), BitVec.getLsbD_of_ge x _ hge]
    cases x.msb
    · simp [hi]
    · rw [if_pos rfl, hfill]
      simp [hi, hge]

/-- A rotation as two shifts. -/
theorem rotateRight_eq_or (x : BitVec w) {n : ℕ} (hn : n < w) :
    x.rotateRight n = (x >>> n) ||| (x <<< (w - n)) := by
  rw [BitVec.rotateRight_def, Nat.mod_eq_of_lt hn]

/-- The sign of a rotated word is the last bit that moved. -/
theorem msb_rotateRight_of_lt (x : BitVec w) {n : ℕ} (hpos : 0 < n) (hn : n < w) :
    (x.rotateRight n).msb = x.getLsbD (n - 1) := by
  rw [BitVec.msb_eq_getLsbD_last, BitVec.getLsbD_rotateRight, Nat.mod_eq_of_lt hn,
    cond_eq_ite, if_neg (by simp; omega), decide_eq_true (by omega), Bool.true_and]
  congr 1
  omega

/-- A field shifted to the top and back down loses what stood around it. -/
theorem ushiftRight_shiftLeft (x : BitVec w) {b n : ℕ} (hfit : b + n ≤ w) :
    (x <<< (w - b - n)) >>> (w - n) = (x.extractLsb' b n).setWidth w := by
  refine BitVec.eq_of_getLsbD_eq fun i hi => ?_
  rw [BitVec.getLsbD_ushiftRight, BitVec.getLsbD_shiftLeft, BitVec.getLsbD_setWidth,
    BitVec.getLsbD_extractLsb', decide_eq_true hi, Bool.true_and]
  by_cases hlt : i < n
  · rw [decide_eq_true hlt, decide_eq_true (show w - n + i < w by omega),
      decide_eq_false (show ¬w - n + i < w - b - n by omega),
      show w - n + i - (w - b - n) = b + i by omega]
    simp
  · rw [decide_eq_false hlt, decide_eq_false (show ¬w - n + i < w by omega)]
    simp

/-- With sign, the top bit of the field fills the places above it. -/
theorem sshiftRight_shiftLeft (x : BitVec w) {b n : ℕ} (hpos : 0 < n) (hfit : b + n ≤ w) :
    (x <<< (w - b - n)).sshiftRight (w - n) = (x.extractLsb' b n).signExtend w := by
  have hbit : ∀ i < n, (x <<< (w - b - n)).getLsbD (w - n + i) = x.getLsbD (b + i) := by
    intro i hi
    rw [BitVec.getLsbD_shiftLeft, decide_eq_true (show w - n + i < w by omega),
      decide_eq_false (show ¬w - n + i < w - b - n by omega),
      show w - n + i - (w - b - n) = b + i by omega]
    simp
  have hmsb : (x <<< (w - b - n)).msb = (x.extractLsb' b n).msb := by
    rw [BitVec.msb_eq_getLsbD_last, BitVec.msb_eq_getLsbD_last, BitVec.getLsbD_extractLsb',
      decide_eq_true (show n - 1 < n by omega), Bool.true_and,
      ← hbit (n - 1) (by omega), show w - n + (n - 1) = w - 1 by omega]
  refine BitVec.eq_of_getLsbD_eq fun i hi => ?_
  rw [BitVec.getLsbD_sshiftRight, BitVec.getLsbD_signExtend, hmsb,
    decide_eq_false (show ¬w ≤ i by omega), decide_eq_true hi, Bool.not_false, Bool.true_and,
    Bool.true_and]
  by_cases hlt : i < n
  · rw [if_pos (show w - n + i < w by omega), if_pos hlt, hbit i hlt,
      BitVec.getLsbD_extractLsb', decide_eq_true hlt, Bool.true_and]
  · rw [if_neg (show ¬w - n + i < w by omega), if_neg hlt]

/-- A mask of low bits cuts a word to a narrower one. -/
theorem and_setWidth_allOnes (x : BitVec w) (n : ℕ) :
    x &&& (BitVec.allOnes n).setWidth w = (x.setWidth n).setWidth w := by
  refine BitVec.eq_of_getLsbD_eq fun i hi => ?_
  rw [BitVec.getLsbD_and, BitVec.getLsbD_setWidth, BitVec.getLsbD_setWidth,
    BitVec.getLsbD_setWidth, BitVec.getLsbD_allOnes, decide_eq_true hi, Bool.true_and,
    Bool.true_and, Bool.and_comm]

end Prazor.Shifts
