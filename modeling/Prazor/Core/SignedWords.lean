import Prazor.Core.AddWithCarry

/-!
# Short words in wide registers

A register can hold a word that is shorter, with the sign of the word in all the bits
above it.  Such registers are those whose numbers the shorter word can hold.
-/

namespace Prazor.SignedWords

open AddWithCarry

variable {m n : ℕ}

/-- The low word of a register with its sign above it. -/
def low (m : ℕ) (x : BitVec n) : BitVec n := (x.setWidth m).signExtend n

/-- The register holds nothing but its low word. -/
def Extended (m : ℕ) (x : BitVec n) : Prop := low m x = x

instance decidableExtended (m : ℕ) (x : BitVec n) : Decidable (Extended m x) :=
  inferInstanceAs (Decidable (_ = _))

theorem bmod_eq_self_iff (hm : 0 < m) (i : ℤ) : i.bmod (2 ^ m) = i ↔ FitsSigned m i := by
  have hpos : 0 < 2 ^ m := Nat.two_pow_pos m
  have hword : ((2 ^ m : ℕ) : ℤ) = 2 * 2 ^ (m - 1) := by
    rw [Nat.cast_pow, ← pow_succ', Nat.sub_add_cancel hm]
    rfl
  have hleft := Int.le_bmod (x := i) hpos
  have hright := Int.bmod_lt (x := i) hpos
  rw [hword] at hleft hright
  constructor
  · intro hself
    rw [hself] at hleft hright
    constructor <;> omega
  · intro hfits
    obtain ⟨hlow, hhigh⟩ := hfits
    apply Int.bmod_eq_of_le_mul_two
    · rw [hword]
      omega
    · rw [hword]
      omega

theorem toInt_low (hmn : m ≤ n) (x : BitVec n) : (low m x).toInt = x.toInt.bmod (2 ^ m) := by
  rw [low, BitVec.toInt_signExtend_of_le hmn, ← BitVec.signExtend_eq_setWidth_of_le _ hmn,
    BitVec.toInt_signExtend_eq_toInt_bmod_of_le _ hmn]

/-- The registers that hold a shorter word. -/
theorem extended_iff (hm : 0 < m) (hmn : m ≤ n) (x : BitVec n) :
    Extended m x ↔ FitsSigned m x.toInt := by
  rw [← bmod_eq_self_iff hm, ← toInt_low hmn]
  exact (BitVec.toInt_inj).symm

theorem toInt_setWidth_of_extended (hmn : m ≤ n) {x : BitVec n} (hx : Extended m x) :
    (x.setWidth m).toInt = x.toInt := by
  rw [← BitVec.toInt_signExtend_of_le hmn]
  exact congrArg BitVec.toInt hx

/-- The bits above the low word are its sign. -/
theorem getLsbD_of_extended {x : BitVec n} (hx : Extended m x) {i : ℕ} (hi : m ≤ i) :
    x.getLsbD i = (decide (i < n) && x.msb) := by
  have habove (j : ℕ) (hj : m ≤ j) (hjn : j < n) : x.getLsbD j = (x.setWidth m).msb := by
    have hbit := congrArg (BitVec.getLsbD · j) hx
    simp only [low, BitVec.getLsbD_signExtend, decide_eq_true hjn, Bool.true_and,
      if_neg (Nat.not_lt.mpr hj)] at hbit
    exact hbit.symm
  by_cases hin : i < n
  · rw [decide_eq_true hin, Bool.true_and, BitVec.msb_eq_getLsbD_last, habove i hi hin,
      habove (n - 1) (by omega) (by omega)]
  · rw [BitVec.getLsbD_of_ge x i (by omega), decide_eq_false hin, Bool.false_and]

/-- The low words of registers are equal when their numbers are congruent. -/
theorem low_eq_low_iff (hmn : m ≤ n) (x y : BitVec n) :
    low m x = low m y ↔ (2 ^ m : ℤ) ∣ x.toInt - y.toInt := by
  rw [← BitVec.toInt_inj, toInt_low hmn, toInt_low hmn, Int.bmod_eq_bmod_iff_bmod_sub_eq_zero,
    ← Int.dvd_iff_bmod_eq_zero, Nat.cast_pow]
  rfl

/-- A number that fits needs no wrapping. -/
theorem toInt_ofInt_of_fits (hn : 0 < n) {i : ℤ} (hfits : FitsSigned n i) :
    (BitVec.ofInt n i).toInt = i := by
  rw [BitVec.toInt_ofInt, bmod_eq_self_iff hn]
  exact hfits

theorem toInt_add_of_fits (hn : 0 < n) (x y : BitVec n)
    (hfits : FitsSigned n (x.toInt + y.toInt)) : (x + y).toInt = x.toInt + y.toInt := by
  rw [BitVec.toInt_add, bmod_eq_self_iff hn]
  exact hfits

theorem toInt_sub_of_fits (hn : 0 < n) (x y : BitVec n)
    (hfits : FitsSigned n (x.toInt - y.toInt)) : (x - y).toInt = x.toInt - y.toInt := by
  rw [BitVec.toInt_sub, bmod_eq_self_iff hn]
  exact hfits

/-- The sign extension of a still shorter word. -/
theorem extended_signExtend {k : ℕ} (hkm : k < m) (hmn : m ≤ n) (x : BitVec k) :
    Extended m (x.signExtend n) := by
  have hlt := BitVec.toInt_lt (x := x)
  have hle := BitVec.le_toInt (x := x)
  have hpow : (2 : ℤ) ^ (k - 1) ≤ 2 ^ (m - 1) := pow_le_pow_right₀ (by decide) (by omega)
  rw [extended_iff (by omega) hmn, BitVec.toInt_signExtend_of_le (by omega)]
  constructor <;> omega

/-! ## Operations on short words -/

theorem low_add (hmn : m ≤ n) (x y : BitVec n) :
    low m (x + y) = (x.setWidth m + y.setWidth m).signExtend n := by
  rw [low, BitVec.setWidth_add x y hmn]

theorem low_sub (hmn : m ≤ n) (x y : BitVec n) :
    low m (x - y) = (x.setWidth m - y.setWidth m).signExtend n := by
  have hsum := BitVec.setWidth_add (x - y) y hmn
  rw [BitVec.sub_add_cancel] at hsum
  rw [low, hsum, BitVec.add_sub_cancel]

theorem low_shiftLeft (hmn : m ≤ n) (x : BitVec n) (k : ℕ) :
    low m (x <<< k) = (x.setWidth m <<< k).signExtend n := by
  rw [low, BitVec.setWidth_shiftLeft_of_le hmn]

theorem fits_of_lt {i : ℤ} (hmn : m < n) (hlow : -(2 * 2 ^ (m - 1)) ≤ i)
    (hhigh : i < 2 * 2 ^ (m - 1)) (hm : 0 < m) : FitsSigned n i := by
  have hpow : (2 : ℤ) * 2 ^ (m - 1) ≤ 2 ^ (n - 1) := by
    rw [← pow_succ', Nat.sub_add_cancel hm]
    exact pow_le_pow_right₀ (by decide) (by omega)
  constructor <;> omega

/-- The sum of two short words, as a number. -/
theorem toInt_add_of_extended (hm : 0 < m) (hmn : m < n) {x y : BitVec n} (hx : Extended m x)
    (hy : Extended m y) : (x + y).toInt = x.toInt + y.toInt := by
  obtain ⟨hx, hx'⟩ := (extended_iff hm hmn.le x).mp hx
  obtain ⟨hy, hy'⟩ := (extended_iff hm hmn.le y).mp hy
  apply toInt_add_of_fits (by omega)
  exact fits_of_lt hmn (by omega) (by omega) hm

/-- The sum of two short words is one when it fits. -/
theorem extended_add_iff (hm : 0 < m) (hmn : m < n) {x y : BitVec n} (hx : Extended m x)
    (hy : Extended m y) : Extended m (x + y) ↔ FitsSigned m (x.toInt + y.toInt) := by
  rw [extended_iff hm hmn.le, toInt_add_of_extended hm hmn hx hy]

/-- A short word that is shifted to the left is one when nothing is lost. -/
theorem extended_shiftLeft_iff (hm : 0 < m) {k : ℕ} (hk : m + k ≤ n) {x : BitVec n}
    (hx : Extended m x) : Extended m (x <<< k) ↔ FitsSigned m (x.toInt * 2 ^ k) := by
  obtain ⟨hlow, hhigh⟩ := (extended_iff hm (by omega) x).mp hx
  have hpow : (2 : ℤ) ^ (n - 1) = 2 ^ (m - 1) * 2 ^ (n - m) := by
    rw [← pow_add]
    congr 1
    omega
  have hle : (2 : ℤ) ^ k ≤ 2 ^ (n - m) := pow_le_pow_right₀ (by decide) (by omega)
  have hpos : (0 : ℤ) < 2 ^ k := by positivity
  have hword : (0 : ℤ) < 2 ^ (m - 1) := by positivity
  have hfits : FitsSigned n (x.toInt * 2 ^ k) := by
    rw [FitsSigned, hpow]
    constructor <;> nlinarith
  have hshift : x <<< k = BitVec.ofInt n (x.toInt * 2 ^ k) := by
    rw [BitVec.ofInt_mul, BitVec.ofInt_toInt, ← BitVec.mul_twoPow_eq_shiftLeft]
    congr 1
    apply BitVec.eq_of_toNat_eq
    rw [BitVec.toNat_twoPow, BitVec.toNat_ofInt]
    norm_cast
  rw [extended_iff hm (by omega), hshift, toInt_ofInt_of_fits (by omega) hfits]

/-- A logical shift to the right of a short word shifts in the word's zeros when the word
is not negative. -/
theorem ushiftRight_eq_iff {k : ℕ} (hk : m + k < n) {x : BitVec n}
    (hx : Extended m x) :
    x >>> k = (x.setWidth m >>> k).signExtend n ↔ 0 ≤ x.toInt ∨ k = 0 := by
  by_cases hzero : k = 0
  · rw [hzero, BitVec.ushiftRight_zero, BitVec.ushiftRight_zero]
    exact iff_of_true hx.symm (.inr rfl)
  have hpos : 0 < k := Nat.pos_of_ne_zero hzero
  have hsign : (x.setWidth m >>> k).msb = false := by
    rw [BitVec.msb_ushiftRight, decide_eq_true hpos, Bool.not_true, Bool.false_and]
  have hmsb : x.msb = false ↔ 0 ≤ x.toInt := by
    rw [BitVec.msb_eq_toInt, decide_eq_false_iff_not, not_lt]
  rw [or_iff_left hzero, ← hmsb]
  constructor
  · intro hshift
    -- the sign of the register comes to lie above the short word
    have hbit := congrArg (BitVec.getLsbD · (n - 1 - k)) hshift
    have habove : ¬n - 1 - k < m := by omega
    have hlast : k + (n - 1 - k) = n - 1 := by omega
    simp only [BitVec.getLsbD_ushiftRight, BitVec.getLsbD_signExtend, hlast, if_neg habove, hsign,
      Bool.and_false] at hbit
    rw [BitVec.msb_eq_getLsbD_last]
    exact hbit
  · intro hnonneg
    apply BitVec.eq_of_getLsbD_eq
    intro i hi
    rw [BitVec.getLsbD_ushiftRight, BitVec.getLsbD_signExtend, BitVec.getLsbD_ushiftRight,
      BitVec.getLsbD_setWidth, hsign, decide_eq_true hi, Bool.true_and]
    by_cases hlow : k + i < m
    · rw [if_pos (by omega), decide_eq_true hlow, Bool.true_and]
    · rw [getLsbD_of_extended hx (by omega), hnonneg, decide_eq_false hlow, Bool.false_and,
        ite_self, Bool.and_false]

/-- An arithmetic one always does. -/
theorem sshiftRight_of_extended (hmn : m ≤ n) {x : BitVec n} (hx : Extended m x) (k : ℕ) :
    x.sshiftRight k = ((x.setWidth m).sshiftRight k).signExtend n := by
  rw [← BitVec.toInt_inj, BitVec.toInt_signExtend_of_le hmn, BitVec.toInt_sshiftRight,
    BitVec.toInt_sshiftRight, toInt_setWidth_of_extended hmn hx]

end Prazor.SignedWords
