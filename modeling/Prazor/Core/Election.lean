import Prazor.Core.ArraySizes

/-!
# Electing a leader by a scan

A scan in the order of their numbers that takes a candidate only when it is better than
the best one so far ends with the first of the best candidates.  What a scan does in its
turns is stated for folds over the numbers below a bound.
-/

namespace Prazor.Election

section Leader

variable {Rank : Type*} [LinearOrder Rank] {candidate : ℕ → Prop} {rank : ℕ → Rank}
  {bound no : ℕ} {leader : Option (Rank × ℕ)}

/-- The first one of the candidates below a bound that have the least rank. -/
structure FirstLeast (candidate : ℕ → Prop) (rank : ℕ → Rank) (bound no : ℕ) : Prop where
  lt : no < bound
  stands : candidate no
  least : ∀ other < bound, candidate other → rank no ≤ rank other
  first : ∀ other < bound, candidate other → rank other = rank no → no ≤ other

/-- What a scan has found below a bound: the leader with its rank. -/
def Found (candidate : ℕ → Prop) (rank : ℕ → Rank) (bound : ℕ) :
    Option (Rank × ℕ) → Prop
  | none => ∀ no < bound, ¬candidate no
  | some (best, no) => best = rank no ∧ FirstLeast candidate rank bound no

theorem found_zero : Found candidate rank 0 none :=
  fun _ hno => absurd hno (Nat.not_lt_zero _)

/-- A better candidate takes the lead. -/
theorem Found.take (hfound : Found candidate rank bound leader) (hcandidate : candidate bound)
    (hbetter : ∀ best ∈ leader, rank bound < best.1) :
    Found candidate rank (bound + 1) (some (rank bound, bound)) := by
  have hbelow : ∀ other < bound, candidate other → rank bound < rank other := by
    intro other hother hcandidate'
    cases leader with
    | none => exact absurd hcandidate' (hfound other hother)
    | some best =>
        have hlt := hbetter best rfl
        rw [hfound.1] at hlt
        exact hlt.trans_le (hfound.2.least other hother hcandidate')
  refine ⟨rfl, Nat.lt_succ_self bound, hcandidate, ?_, ?_⟩
  · intro other hother hcandidate'
    rcases Nat.lt_succ_iff_lt_or_eq.mp hother with hlt | rfl
    · exact (hbelow other hlt hcandidate').le
    · exact le_rfl
  · intro other hother hcandidate' hsame
    rcases Nat.lt_succ_iff_lt_or_eq.mp hother with hlt | rfl
    · exact absurd hsame (hbelow other hlt hcandidate').ne'
    · exact le_rfl

/-- What is no candidate, or is not better, leaves the lead as it is. -/
theorem Found.keep (hfound : Found candidate rank bound leader)
    (hworse : candidate bound → ∃ best ∈ leader, best.1 ≤ rank bound) :
    Found candidate rank (bound + 1) leader := by
  cases leader with
  | none =>
      intro no hno
      rcases Nat.lt_succ_iff_lt_or_eq.mp hno with hlt | rfl
      · exact hfound no hlt
      · intro hcandidate
        obtain ⟨_, hbest, _⟩ := hworse hcandidate
        cases hbest
  | some best =>
      obtain ⟨hrank, hfirst⟩ := hfound
      have hnew : candidate bound → rank best.2 ≤ rank bound := by
        intro hcandidate
        obtain ⟨_, hbest, hle⟩ := hworse hcandidate
        cases hbest
        exact hrank ▸ hle
      refine ⟨hrank, Nat.lt_succ_of_lt hfirst.lt, hfirst.stands, ?_, ?_⟩
      · intro other hother hcandidate
        rcases Nat.lt_succ_iff_lt_or_eq.mp hother with hlt | rfl
        · exact hfirst.least other hlt hcandidate
        · exact hnew hcandidate
      · intro other hother hcandidate hsame
        rcases Nat.lt_succ_iff_lt_or_eq.mp hother with hlt | rfl
        · exact hfirst.first other hlt hcandidate hsame
        · exact hfirst.lt.le

/-- There is a leader when there is a candidate. -/
theorem Found.isSome_iff (hfound : Found candidate rank bound leader) :
    leader.isSome = true ↔ ∃ no < bound, candidate no := by
  cases leader with
  | none => simpa [Found] using hfound
  | some best => simpa using ⟨best.2, hfound.2.lt, hfound.2.stands⟩

end Leader

section Scan

variable {State : Type*} {holds : ℕ → State → Prop} {start : State}

/-- What the turns of a scan establish one by one holds at its end. -/
theorem foldl_range_holds {turn : State → ℕ → State} {count : ℕ} (hstart : holds 0 start)
    (hturn : ∀ i < count, ∀ state, holds i state → holds (i + 1) (turn state i)) :
    holds count ((List.range count).foldl turn start) := by
  induction count with
  | zero => exact hstart
  | succ count ih =>
      rw [List.range_succ, List.foldl_append, List.foldl_cons, List.foldl_nil]
      exact hturn count (Nat.lt_succ_self count) _
        (ih fun i hi => hturn i (Nat.lt_succ_of_lt hi))

/-- The same for a scan of the elements of a finite type. -/
theorem foldl_finRange_holds {count : ℕ} {turn : State → Fin count → State}
    (hstart : holds 0 start)
    (hturn : ∀ (i : Fin count) (state : State), holds i state → holds (i + 1) (turn state i)) :
    holds count ((List.finRange count).foldl turn start) := by
  induction count with
  | zero => exact hstart
  | succ count ih =>
      rw [List.finRange_succ_last, List.foldl_append, List.foldl_cons, List.foldl_nil,
        List.foldl_map]
      exact hturn (Fin.last count) _ (ih fun i => hturn i.castSucc)

end Scan

end Prazor.Election
