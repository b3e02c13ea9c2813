import Prazor.Core.ArraySizes

/-!
# Words as sets of bits

Control registers hold a bit for each of several things.  Setting, clearing and
keeping one bit of a word are edits of the set of its bits.
-/

namespace Prazor.WordBits

variable {width : ℕ}

@[simp]
theorem getLsbD_single {i j : ℕ} :
    ((1 : BitVec width) <<< i).getLsbD j = (decide (j < width) && decide (i = j)) := by
  rcases Nat.eq_zero_or_pos width with rfl | hwidth
  · simp
  by_cases hij : i = j
  · subst hij
    simp
    omega
  · simp only [BitVec.getLsbD_shiftLeft, hij, decide_false, Bool.and_false]
    by_cases hlt : j < i
    · simp [hlt]
    · have hpos : j - i ≠ 0 := by omega
      simp [hpos]

/-- Setting a bit. -/
theorem getLsbD_set (word : BitVec width) {i j : ℕ} (hj : j < width) :
    (word ||| (1 : BitVec width) <<< i).getLsbD j = (word.getLsbD j || decide (i = j)) := by
  rw [BitVec.getLsbD_or, getLsbD_single, decide_eq_true hj, Bool.true_and]

/-- Clearing a bit. -/
theorem getLsbD_clear (word : BitVec width) {i j : ℕ} (hj : j < width) :
    (word &&& ~~~((1 : BitVec width) <<< i)).getLsbD j =
      (word.getLsbD j && !decide (i = j)) := by
  rw [BitVec.getLsbD_and, BitVec.getLsbD_not, getLsbD_single, decide_eq_true hj,
    Bool.true_and, Bool.true_and]

/-- Keeping one bit only. -/
theorem getLsbD_keep (word : BitVec width) {i j : ℕ} (hj : j < width) :
    (word &&& (1 : BitVec width) <<< i).getLsbD j =
      (word.getLsbD j && decide (i = j)) := by
  rw [BitVec.getLsbD_and, getLsbD_single, decide_eq_true hj, Bool.true_and]

/-- Keeping a bit leaves what clearing it leaves for the empty word only. -/
theorem keep_eq_clear_iff (word : BitVec width) {i : ℕ} :
    word &&& (1 : BitVec width) <<< i = word &&& ~~~((1 : BitVec width) <<< i) ↔
      word = 0 := by
  constructor
  · intro hsame
    refine BitVec.eq_of_getLsbD_eq fun j hj => ?_
    have hbit := congrArg (fun word => word.getLsbD j) hsame
    rw [getLsbD_keep word hj, getLsbD_clear word hj] at hbit
    change word.getLsbD j = (BitVec.ofNat width 0).getLsbD j
    rw [BitVec.getLsbD_zero]
    cases hword : word.getLsbD j with
    | false => rfl
    | true =>
        rw [hword] at hbit
        cases hij : decide (i = j) <;> rw [hij] at hbit <;> cases hbit
  · rintro rfl
    simp

/-- Clearing bits that are clear. -/
theorem and_not_of_and_eq_zero {word bits : BitVec width} (hclear : word &&& bits = 0) :
    word &&& ~~~bits = word := by
  calc word &&& ~~~bits
      = (word &&& bits) ||| (word &&& ~~~bits) := by rw [hclear]; exact BitVec.zero_or.symm
    _ = word &&& (bits ||| ~~~bits) := BitVec.and_or_distrib_left.symm
    _ = word := by rw [BitVec.or_not_self, BitVec.and_allOnes]

/-- Bits that are cleared when one of them is set are cleared. -/
theorem clear_bits (word bits : BitVec width) :
    (if word &&& bits ≠ 0 then word &&& ~~~bits else word) = word &&& ~~~bits := by
  split_ifs with hset
  · rfl
  · exact (and_not_of_and_eq_zero (not_not.mp hset)).symm

end Prazor.WordBits
