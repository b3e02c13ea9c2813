import Prazor.Core.ArraySizes

/-!
# Numerals

The digits of a number from the most significant one on, either a fixed number of
them or as many as the number needs, and the number that digits stand for.
-/

namespace Prazor.Numerals

/-- The last `n` digits of a number, from the top. -/
def places (b : ℕ) : ℕ → ℕ → List ℕ
  | 0, _ => []
  | n + 1, m => m / b ^ n :: places b n (m % b ^ n)

/-- The digits of a number from the top, with one digit for zero. -/
def numeral (b m : ℕ) : List ℕ :=
  if m = 0 then [0] else (Nat.digits b m).reverse

/-- The number that digits from the top stand for. -/
def value (b : ℕ) (digits : List ℕ) : ℕ :=
  digits.foldl (fun sum d => sum * b + d) 0

variable {b m n : ℕ}

@[simp]
theorem length_places (b n m : ℕ) : (places b n m).length = n := by
  induction n generalizing m with
  | zero => rfl
  | succ n ih => rw [places, List.length_cons, ih]

theorem lt_of_mem_places (hb : 0 < b) (hm : m < b ^ n) : ∀ d ∈ places b n m, d < b := by
  induction n generalizing m with
  | zero => exact fun d hd => absurd hd List.not_mem_nil
  | succ n ih =>
      intro d hd
      rcases List.mem_cons.mp hd with rfl | hrest
      · apply Nat.div_lt_of_lt_mul
        rw [← pow_succ]
        exact hm
      · exact ih (Nat.mod_lt m (Nat.pow_pos hb)) d hrest

/-- The digits stand for the number. -/
theorem ofDigits_places (hm : m < b ^ n) : Nat.ofDigits b (places b n m).reverse = m := by
  induction n generalizing m with
  | zero =>
      rw [pow_zero, Nat.lt_one_iff] at hm
      rw [hm]
      rfl
  | succ n ih =>
      rcases Nat.eq_zero_or_pos (b ^ n) with hzero | hpos
      · rw [pow_succ, hzero, Nat.zero_mul] at hm
        exact absurd hm (Nat.not_lt_zero m)
      · rw [places, List.reverse_cons, Nat.ofDigits_append, ih (Nat.mod_lt m hpos),
          List.length_reverse, length_places, Nat.ofDigits_singleton]
        exact Nat.mod_add_div m (b ^ n)

/-- A number of `n + 1` digits. -/
theorem numeral_eq_places (hb : 1 < b) (hle : b ^ n ≤ m) (hlt : m < b ^ (n + 1)) :
    numeral b m = places b (n + 1) m := by
  have hpos : 0 < b ^ n := Nat.pow_pos (Nat.lt_of_succ_lt hb)
  have hfirst : m / b ^ n ≠ 0 := (Nat.div_pos hle hpos).ne'
  have hdigits : Nat.digits b m = (places b (n + 1) m).reverse := by
    have hlast : ∀ hne : (places b (n + 1) m).reverse ≠ [],
        (places b (n + 1) m).reverse.getLast hne ≠ 0 := by
      intro hne
      rw [List.getLast_reverse]
      exact hfirst
    have hsmall : ∀ d ∈ (places b (n + 1) m).reverse, d < b := fun d hd =>
      lt_of_mem_places (Nat.lt_of_succ_lt hb) hlt d (List.mem_reverse.mp hd)
    calc Nat.digits b m
        = Nat.digits b (Nat.ofDigits b (places b (n + 1) m).reverse) := by
          rw [ofDigits_places hlt]
      _ = (places b (n + 1) m).reverse := Nat.digits_ofDigits b hb _ hsmall hlast
  rw [numeral, if_neg (by omega), hdigits, List.reverse_reverse]

theorem numeral_of_lt (hb : 1 < b) (hlt : m < b) : numeral b m = [m] := by
  rcases Nat.eq_zero_or_pos m with rfl | hpos
  · rfl
  · have hlt' : m < b ^ (0 + 1) := by rwa [Nat.zero_add, pow_one]
    rw [numeral_eq_places hb (by rwa [pow_zero]) hlt', places, places, pow_zero, Nat.div_one]

theorem length_numeral (hb : 1 < b) (hle : b ^ n ≤ m) (hlt : m < b ^ (n + 1)) :
    (numeral b m).length = n + 1 := by
  rw [numeral_eq_places hb hle hlt, length_places]

theorem lt_of_mem_numeral (hb : 1 < b) : ∀ d ∈ numeral b m, d < b := by
  intro d hd
  rw [numeral] at hd
  split_ifs at hd with hzero
  · rw [List.mem_singleton.mp hd]
    exact Nat.lt_of_succ_lt hb
  · exact Nat.digits_lt_base hb (List.mem_reverse.mp hd)

theorem value_append (b : ℕ) (digits : List ℕ) (d : ℕ) :
    value b (digits ++ [d]) = value b digits * b + d := by
  rw [value, List.foldl_append]
  rfl

/-- Reading the digits of a number back. -/
theorem value_numeral (b m : ℕ) : value b (numeral b m) = m := by
  have hvalue : ∀ digits : List ℕ, value b digits.reverse = Nat.ofDigits b digits := by
    intro digits
    induction digits with
    | nil => rfl
    | cons d digits ih =>
        rw [List.reverse_cons, value_append, ih, Nat.ofDigits_cons]
        ring
  rw [numeral]
  split_ifs with hzero
  · rw [hzero, value, List.foldl_cons, Nat.zero_mul]
    rfl
  · rw [hvalue, Nat.ofDigits_digits]

end Prazor.Numerals
