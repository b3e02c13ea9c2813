import Prazor.Core.ArraySizes

/-!
# Linear congruential generators

A generator goes from `x` to `a * x + c` modulo a power of two.  Where `a` is one more than a
multiple of four and `c` is odd, it runs through all states before it is back at the first, so
its upper bits take each value equally often.
-/

namespace Prazor.LinearCongruence

open Function

/-- The state after `x`. -/
def next (m a c x : ℕ) : ℕ := (a * x + c) % m

variable {m a c x k : ℕ}

theorem next_lt (hm : 0 < m) (x : ℕ) : next m a c x < m := Nat.mod_lt _ hm

theorem iterate_lt (hx : x < m) (n : ℕ) : (next m a c)^[n] x < m := by
  cases n with
  | zero => exact hx
  | succ n =>
      rw [iterate_succ_apply']
      exact next_lt (Nat.zero_lt_of_lt hx) _

/-- What `2 ^ j` turns add: the factor is `a ^ 2 ^ j`. -/
def addend (a c : ℕ) : ℕ → ℕ
  | 0 => c
  | j + 1 => (a ^ 2 ^ j + 1) * addend a c j

/-- `2 ^ j` turns are one multiplication and one addition. -/
theorem iterate_two_pow (m a c j x : ℕ) :
    (next m a c)^[2 ^ j] x % m = (a ^ 2 ^ j * x + addend a c j) % m := by
  induction j generalizing x with
  | zero => rw [pow_zero, pow_one, iterate_one, next, Nat.mod_mod, addend]
  | succ j ih =>
      have hinner : (next m a c)^[2 ^ j] x ≡ a ^ 2 ^ j * x + addend a c j [MOD m] := ih x
      calc (next m a c)^[2 ^ (j + 1)] x % m
          = (next m a c)^[2 ^ j] ((next m a c)^[2 ^ j] x) % m := by
            rw [pow_succ, Nat.mul_two, iterate_add_apply]
        _ = (a ^ 2 ^ j * (next m a c)^[2 ^ j] x + addend a c j) % m := ih _
        _ = (a ^ 2 ^ j * (a ^ 2 ^ j * x + addend a c j) + addend a c j) % m :=
            (hinner.mul_left _).add_right _
        _ = (a ^ 2 ^ (j + 1) * x + addend a c (j + 1)) % m := by
            congr 1
            rw [addend, pow_succ 2 j, Nat.mul_two, pow_add]
            ring

section Conditions

variable (ha : a % 4 = 1) (hc : c % 2 = 1)

include ha

/-- Every squaring makes the factor agree with one in one more bit. -/
theorem factor_eq (j : ℕ) : ∃ t, a ^ 2 ^ j = 2 ^ (j + 2) * t + 1 := by
  induction j with
  | zero =>
      refine ⟨a / 4, ?_⟩
      rw [pow_zero, pow_one]
      omega
  | succ j ih =>
      obtain ⟨t, ht⟩ := ih
      refine ⟨2 ^ (j + 1) * t ^ 2 + t, ?_⟩
      rw [pow_succ 2 j, Nat.mul_two, pow_add, ht]
      ring

include hc

/-- What is added is an odd multiple of the number of turns. -/
theorem addend_eq (j : ℕ) : ∃ s, addend a c j = 2 ^ j * (2 * s + 1) := by
  induction j with
  | zero =>
      refine ⟨c / 2, ?_⟩
      rw [addend, pow_zero]
      omega
  | succ j ih =>
      obtain ⟨s, hs⟩ := ih
      obtain ⟨t, ht⟩ := factor_eq ha j
      refine ⟨2 ^ j * t * (2 * s + 1) + s, ?_⟩
      rw [addend, ht, hs]
      ring

/-- A state is back after as many turns as there are states. -/
theorem isPeriodicPt (hx : x < 2 ^ k) : IsPeriodicPt (next (2 ^ k) a c) (2 ^ k) x := by
  obtain ⟨t, ht⟩ := factor_eq ha k
  obtain ⟨s, hs⟩ := addend_eq ha hc k
  have hround := iterate_two_pow (2 ^ k) a c k x
  have hsum : a ^ 2 ^ k * x + addend a c k = x + 2 ^ k * (4 * t * x + (2 * s + 1)) := by
    rw [ht, hs]
    ring
  rw [hsum, Nat.add_mul_mod_self_left, Nat.mod_eq_of_lt (iterate_lt hx _),
    Nat.mod_eq_of_lt hx] at hround
  exact hround

/-- Half as many turns flip the upper bit. -/
theorem not_isPeriodicPt (x : ℕ) :
    ¬IsPeriodicPt (next (2 ^ (k + 1)) a c) (2 ^ k) x := by
  intro hperiod
  obtain ⟨t, ht⟩ := factor_eq ha k
  obtain ⟨s, hs⟩ := addend_eq ha hc k
  have hround := iterate_two_pow (2 ^ (k + 1)) a c k x
  have hsum : a ^ 2 ^ k * x + addend a c k = (x + 2 ^ k) + 2 ^ (k + 1) * (2 * t * x + s) := by
    rw [ht, hs]
    ring
  rw [hperiod.eq, hsum, Nat.add_mul_mod_self_left] at hround
  have hdvd : 2 ^ (k + 1) ∣ 2 ^ k :=
    (Nat.modEq_iff_dvd' (Nat.le_add_right x (2 ^ k))).mp hround |>.trans (by
      rw [Nat.add_sub_cancel_left])
  exact absurd (Nat.le_of_dvd (Nat.two_pow_pos k) hdvd)
    (Nat.not_le.mpr (Nat.pow_lt_pow_right Nat.one_lt_two (Nat.lt_succ_self k)))

/-- The generator runs through all its states. -/
theorem minimalPeriod_next (hx : x < 2 ^ k) : minimalPeriod (next (2 ^ k) a c) x = 2 ^ k := by
  cases k with
  | zero =>
      apply Nat.dvd_one.mp
      exact (isPeriodicPt ha hc hx).minimalPeriod_dvd
  | succ k =>
      have : Fact (Nat.Prime 2) := ⟨Nat.prime_two⟩
      exact minimalPeriod_eq_prime_pow (not_isPeriodicPt ha hc x) (isPeriodicPt ha hc hx)

/-- Each state is reached once in a period. -/
theorem bijOn_iterate (hx : x < 2 ^ k) :
    Set.BijOn (fun n => (next (2 ^ k) a c)^[n] x) (Finset.range (2 ^ k))
      (Finset.range (2 ^ k)) := by
  have hmaps : Set.MapsTo (fun n => (next (2 ^ k) a c)^[n] x) (Finset.range (2 ^ k))
      (Finset.range (2 ^ k)) := fun n _ => Finset.mem_coe.mpr (Finset.mem_range.mpr
        (iterate_lt hx n))
  have hinj : Set.InjOn (fun n => (next (2 ^ k) a c)^[n] x) (Finset.range (2 ^ k)) := by
    intro n hn n' hn' heq
    rw [Finset.mem_coe, Finset.mem_range, ← minimalPeriod_next ha hc hx] at hn hn'
    exact iterate_injOn_Iio_minimalPeriod hn hn' heq
  exact ⟨hmaps, hinj, Finset.surjOn_of_injOn_of_card_le _ hmaps hinj (Nat.le_refl _)⟩

/-- The states after two numbers of turns are equal when the numbers are, modulo the period. -/
theorem iterate_eq_iff (hx : x < 2 ^ k) (i j : ℕ) :
    (next (2 ^ k) a c)^[i] x = (next (2 ^ k) a c)^[j] x ↔ i ≡ j [MOD 2 ^ k] := by
  have hmod : ∀ i, (next (2 ^ k) a c)^[i % 2 ^ k] x = (next (2 ^ k) a c)^[i] x := by
    intro i
    have hperiod := iterate_mod_minimalPeriod_eq (f := next (2 ^ k) a c) (x := x) (n := i)
    rwa [minimalPeriod_next ha hc hx] at hperiod
  have hrange : ∀ i, i % 2 ^ k ∈ (Finset.range (2 ^ k) : Set ℕ) := fun i =>
    Finset.mem_coe.mpr (Finset.mem_range.mpr (Nat.mod_lt i (Nat.two_pow_pos k)))
  rw [← hmod i, ← hmod j]
  exact (bijOn_iterate ha hc hx).injOn.eq_iff (hrange i) (hrange j)

/-- The upper bits take each value equally often in a period. -/
theorem card_upper {low high v : ℕ} (hx : x < 2 ^ (low + high)) (hv : v < 2 ^ high) :
    ((Finset.range (2 ^ (low + high))).filter fun n =>
      (next (2 ^ (low + high)) a c)^[n] x / 2 ^ low = v).card = 2 ^ low := by
  have hbij := bijOn_iterate ha hc hx
  have hcard : ((Finset.range (2 ^ (low + high))).filter fun n =>
      (next (2 ^ (low + high)) a c)^[n] x / 2 ^ low = v).card =
        ((Finset.range (2 ^ (low + high))).filter fun y => y / 2 ^ low = v).card := by
    apply Finset.card_bij fun n _ => (next (2 ^ (low + high)) a c)^[n] x
    · intro n hn
      rw [Finset.mem_filter] at hn ⊢
      exact ⟨hbij.mapsTo hn.1, hn.2⟩
    · intro n hn n' hn' heq
      exact hbij.injOn (Finset.mem_filter.mp hn).1 (Finset.mem_filter.mp hn').1 heq
    · intro y hy
      obtain ⟨hy, hyv⟩ := Finset.mem_filter.mp hy
      obtain ⟨n, hn, rfl⟩ := hbij.surjOn hy
      exact ⟨n, Finset.mem_filter.mpr ⟨hn, hyv⟩, rfl⟩
  have hinterval : ((Finset.range (2 ^ (low + high))).filter fun y => y / 2 ^ low = v) =
      Finset.Ico (v * 2 ^ low) (v * 2 ^ low + 2 ^ low) := by
    have hroom : (v + 1) * 2 ^ low ≤ 2 ^ (low + high) := by
      rw [pow_add, Nat.mul_comm (2 ^ low)]
      exact Nat.mul_le_mul_right _ hv
    ext y
    rw [Finset.mem_filter, Finset.mem_range, Finset.mem_Ico,
      Nat.div_eq_iff (Nat.two_pow_pos low)]
    rw [Nat.add_mul, Nat.one_mul] at hroom
    have hpos := Nat.two_pow_pos low
    omega
  rw [hcard, hinterval, Nat.card_Ico, Nat.add_sub_cancel_left]

end Conditions

end Prazor.LinearCongruence
