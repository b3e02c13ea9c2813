import Prazor.Core.ArraySizes

/-!
# Sums and differences with a carry

What an adder of words gives: the sum modulo the word size, whether the unsigned
sum leaves the word and whether the signed one does.  The carry and the overflow
can be found again from the wrapped result, by one comparison and by three sign
bits.
-/

namespace Prazor.AddWithCarry

variable {w : ℕ}

/-- The integers that a signed word of a width can hold. -/
def FitsSigned (w : ℕ) (n : ℤ) : Prop :=
  -2 ^ (w - 1) ≤ n ∧ n < 2 ^ (w - 1)

instance (w : ℕ) (n : ℤ) : Decidable (FitsSigned w n) :=
  inferInstanceAs (Decidable (_ ∧ _))

/-- What an adder gives for two words. -/
@[ext]
structure Outcome (w : ℕ) where
  value : BitVec w
  carry : Bool
  overflow : Bool
  deriving DecidableEq

/-- The exact sum of two words and a carry. -/
def sum (x y : BitVec w) (c : Bool) : Outcome w where
  value := BitVec.ofInt w (x.toInt + y.toInt + c.toNat)
  carry := decide (2 ^ w ≤ x.toNat + y.toNat + c.toNat)
  overflow := decide ¬FitsSigned w (x.toInt + y.toInt + c.toNat)

/-- The exact difference of two words less a borrow.  The carry is the absence of
a borrow. -/
def difference (x y : BitVec w) (b : Bool) : Outcome w where
  value := BitVec.ofInt w (x.toInt - y.toInt - b.toNat)
  carry := decide (y.toNat + b.toNat ≤ x.toNat)
  overflow := decide ¬FitsSigned w (x.toInt - y.toInt - b.toNat)

theorem value_sum (x y : BitVec w) (c : Bool) :
    (sum x y c).value = x + y + BitVec.ofNat w c.toNat := by
  simp only [sum, BitVec.ofInt_add, BitVec.ofInt_toInt, BitVec.ofInt_natCast]

theorem value_difference (x y : BitVec w) (b : Bool) :
    (difference x y b).value = x - y - BitVec.ofNat w b.toNat := by
  simp only [difference, Int.sub_eq_add_neg, BitVec.ofInt_add, BitVec.ofInt_neg,
    BitVec.ofInt_toInt, BitVec.ofInt_natCast, BitVec.sub_eq_add_neg]

/-- A sum of less than two words wraps at most once. -/
theorem mod_word {n : ℕ} (hn : n < 2 * 2 ^ w) :
    n % 2 ^ w = if 2 ^ w ≤ n then n - 2 ^ w else n := by
  split
  case isTrue hle =>
    rw [Nat.mod_eq_sub_mod hle, Nat.mod_eq_of_lt (by omega)]
  case isFalse hlt => exact Nat.mod_eq_of_lt (by omega)

/-- The carry of a sum, from the wrapped sum and one of the words. -/
theorem carry_sum (x y : BitVec w) (c : Bool) (hw : 0 < w) :
    (sum x y c).carry =
      if c then decide ((sum x y c).value ≤ x) else decide ((sum x y c).value < x) := by
  have hx := x.isLt
  have hy := y.isLt
  have hpos : 1 < 2 ^ w := Nat.one_lt_two_pow hw.ne'
  have hvalue : (sum x y c).value.toNat = (x.toNat + y.toNat + c.toNat) % 2 ^ w := by
    rw [value_sum, BitVec.toNat_add, BitVec.toNat_add, BitVec.toNat_ofNat,
      ← Nat.add_mod]
  cases c with
  | false =>
      rw [if_neg Bool.false_ne_true]
      refine decide_eq_decide.mpr ?_
      rw [BitVec.lt_def, hvalue, Bool.toNat_false, mod_word (by omega)]
      split <;> omega
  | true =>
      rw [if_pos rfl]
      refine decide_eq_decide.mpr ?_
      rw [BitVec.le_def, hvalue, Bool.toNat_true, mod_word (by omega)]
      split <;> omega

/-- The sign bit of an integer that left the signed words by less than a word. -/
theorem msb_ofInt {n : ℤ} (hw : 0 < w) (hlow : -(2 * 2 ^ (w - 1)) ≤ n)
    (hhigh : n < 2 * 2 ^ (w - 1)) :
    (BitVec.ofInt w n).msb =
      decide ((-2 ^ (w - 1) ≤ n ∧ n < 0) ∨ 2 ^ (w - 1) ≤ n) := by
  have hword : (2 : ℤ) ^ w = 2 * 2 ^ (w - 1) := by
    rw [← pow_succ', Nat.sub_add_cancel hw]
  have hcast : ((2 ^ w : ℕ) : ℤ) = 2 ^ w := by push_cast; rfl
  have hpos : (0 : ℤ) < 2 ^ (w - 1) := by positivity
  rw [BitVec.msb_eq_toInt, BitVec.toInt_ofInt]
  refine decide_eq_decide.mpr ?_
  rcases le_or_gt 0 n with hn | hn
  · rw [Int.bmod_def, hcast, Int.emod_eq_of_lt hn (by omega)]
    split <;> omega
  · have hmod : n % 2 ^ w = n + 2 ^ w := by
      rw [← Int.add_emod_right, Int.emod_eq_of_lt (by omega) (by omega)]
    rw [Int.bmod_def, hcast, hmod]
    split <;> omega

/-- The integers a word stands for, by its sign bit. -/
theorem toInt_bounds (x : BitVec w) :
    if x.msb then -2 ^ (w - 1) ≤ x.toInt ∧ x.toInt < 0
    else 0 ≤ x.toInt ∧ x.toInt < 2 ^ (w - 1) := by
  have hlow := x.le_toInt
  have hhigh := x.toInt_lt
  rw [BitVec.msb_eq_toInt]
  by_cases hneg : x.toInt < 0
  · rw [if_pos (decide_eq_true hneg)]
    exact ⟨hlow, hneg⟩
  · rw [if_neg (by simpa using hneg)]
    exact ⟨by omega, hhigh⟩

/-- A sum overflows when both words have the sign that the wrapped sum has not. -/
theorem overflow_sum (x y : BitVec w) (c : Bool) (hw : 0 < w) :
    (sum x y c).overflow =
      ((x.msb && y.msb && !(sum x y c).value.msb) ||
        (!x.msb && !y.msb && (sum x y c).value.msb)) := by
  have hx := toInt_bounds x
  have hy := toInt_bounds y
  have hc := c.toNat_le
  have hpos : (0 : ℤ) < 2 ^ (w - 1) := by positivity
  have hvalue : (sum x y c).value.msb = decide
      ((-2 ^ (w - 1) ≤ x.toInt + y.toInt + c.toNat ∧ x.toInt + y.toInt + c.toNat < 0) ∨
        2 ^ (w - 1) ≤ x.toInt + y.toInt + c.toNat) := by
    refine msb_ofInt hw ?_ ?_
    all_goals split at hx <;> split at hy <;> omega
  rw [hvalue, Bool.eq_iff_iff]
  simp only [sum, FitsSigned]
  cases hxs : x.msb <;> cases hys : y.msb <;> simp [hxs, hys] at hx hy ⊢ <;> omega

/-- A difference overflows when the words have different signs and the wrapped
difference has not the sign of the first. -/
theorem overflow_difference (x y : BitVec w) (b : Bool) (hw : 0 < w) :
    (difference x y b).overflow =
      ((x.msb && !y.msb && !(difference x y b).value.msb) ||
        (!x.msb && y.msb && (difference x y b).value.msb)) := by
  have hx := toInt_bounds x
  have hy := toInt_bounds y
  have hb := b.toNat_le
  have hpos : (0 : ℤ) < 2 ^ (w - 1) := by positivity
  have hvalue : (difference x y b).value.msb = decide
      ((-2 ^ (w - 1) ≤ x.toInt - y.toInt - b.toNat ∧ x.toInt - y.toInt - b.toNat < 0) ∨
        2 ^ (w - 1) ≤ x.toInt - y.toInt - b.toNat) := by
    refine msb_ofInt hw ?_ ?_
    all_goals split at hx <;> split at hy <;> omega
  rw [hvalue, Bool.eq_iff_iff]
  simp only [difference, FitsSigned]
  cases hxs : x.msb <;> cases hys : y.msb <;> simp [hxs, hys] at hx hy ⊢ <;> omega

/-- The carry of a difference, from the words alone. -/
theorem carry_difference (x y : BitVec w) (b : Bool) :
    (difference x y b).carry = if b then decide (y < x) else decide (y ≤ x) := by
  cases b with
  | false => rfl
  | true => rfl

end Prazor.AddWithCarry
