import Prazor.Core.ArraySizes

/-!
# Finite maps in arrays

A finite map kept as the first entries of an array without an order: what an append, an
assignment in place and the removal of an entry by closing the gap do to the map.
-/

namespace Prazor.ArrayMap

variable {Key Value : Type*} {entries entries' : ℕ → Key × Value} {count i : ℕ}
  {map : Key → Option Value} {key : Key} {value : Value}

/-- The first entries have different keys and are those of a map. -/
structure Represents (entries : ℕ → Key × Value) (count : ℕ) (map : Key → Option Value) :
    Prop where
  distinct : ∀ i < count, ∀ j < count, (entries i).1 = (entries j).1 → i = j
  map_eq : ∀ key value, map key = some value ↔ ∃ i < count, entries i = (key, value)

namespace Represents

theorem empty (entries : ℕ → Key × Value) : Represents entries 0 fun _ => none where
  distinct := fun _ hi => absurd hi (Nat.not_lt_zero _)
  map_eq := fun key value => by
    constructor
    · intro h
      cases h
    · rintro ⟨i, hi, -⟩
      exact absurd hi (Nat.not_lt_zero i)

/-- The entries behind the first ones do not count. -/
theorem congr (hrep : Represents entries count map)
    (hsame : ∀ i < count, entries' i = entries i) : Represents entries' count map where
  distinct := fun i hi j hj hkey => by
    rw [hsame i hi, hsame j hj] at hkey
    exact hrep.distinct i hi j hj hkey
  map_eq := fun key value => by
    rw [hrep.map_eq]
    constructor
    · rintro ⟨i, hi, hentry⟩
      exact ⟨i, hi, (hsame i hi).trans hentry⟩
    · rintro ⟨i, hi, hentry⟩
      exact ⟨i, hi, (hsame i hi).symm.trans hentry⟩

theorem at_entry (hrep : Represents entries count map) (hi : i < count) :
    map (entries i).1 = some (entries i).2 :=
  (hrep.map_eq _ _).mpr ⟨i, hi, rfl⟩

theorem eq_none (hrep : Represents entries count map) :
    map key = none ↔ ∀ i < count, (entries i).1 ≠ key := by
  constructor
  · rintro hnone i hi rfl
    rw [hrep.at_entry hi] at hnone
    cases hnone
  · intro hne
    cases hmap : map key with
    | none => rfl
    | some value =>
        obtain ⟨i, hi, hentry⟩ := (hrep.map_eq key value).mp hmap
        exact absurd (congrArg Prod.fst hentry) (hne i hi)

variable [DecidableEq Key]

/-- An append of a key that is new. -/
theorem push (hrep : Represents entries count map) (hnew : map key = none)
    (hsame : ∀ i < count, entries' i = entries i) (hlast : entries' count = (key, value)) :
    Represents entries' (count + 1) (Function.update map key (some value)) := by
  have hne := hrep.eq_none.mp hnew
  constructor
  · intro i hi j hj hkey
    rcases Nat.lt_succ_iff_lt_or_eq.mp hi with hlt | rfl <;>
      rcases Nat.lt_succ_iff_lt_or_eq.mp hj with hlt' | rfl
    · rw [hsame i hlt, hsame j hlt'] at hkey
      exact hrep.distinct i hlt j hlt' hkey
    · rw [hsame i hlt, hlast] at hkey
      exact absurd hkey (hne i hlt)
    · rw [hsame j hlt', hlast] at hkey
      exact absurd hkey.symm (hne j hlt')
    · rfl
  · intro key' value'
    by_cases hkey : key' = key
    · subst hkey
      rw [Function.update_self, Option.some.injEq]
      constructor
      · rintro rfl
        exact ⟨count, Nat.lt_succ_self count, hlast⟩
      · rintro ⟨i, hi, hentry⟩
        rcases Nat.lt_succ_iff_lt_or_eq.mp hi with hlt | rfl
        · rw [hsame i hlt] at hentry
          exact absurd (congrArg Prod.fst hentry) (hne i hlt)
        · exact congrArg Prod.snd (hlast.symm.trans hentry)
    · rw [Function.update_of_ne hkey, hrep.map_eq]
      constructor
      · rintro ⟨i, hi, hentry⟩
        exact ⟨i, hi.trans (Nat.lt_succ_self count), (hsame i hi).trans hentry⟩
      · rintro ⟨i, hi, hentry⟩
        rcases Nat.lt_succ_iff_lt_or_eq.mp hi with hlt | rfl
        · exact ⟨i, hlt, (hsame i hlt).symm.trans hentry⟩
        · exact absurd (congrArg Prod.fst (hlast.symm.trans hentry)).symm hkey

/-- An assignment to the entry of a key. -/
theorem assign (hrep : Represents entries count map) (hi : i < count)
    (hkey : (entries i).1 = key)
    (hentries : entries' = Function.update entries i (key, value)) :
    Represents entries' count (Function.update map key (some value)) := by
  have hself : entries' i = (key, value) := by rw [hentries, Function.update_self]
  have hother : ∀ j, j ≠ i → entries' j = entries j := fun j hj => by
    rw [hentries, Function.update_of_ne hj]
  have hkeys : ∀ j, (entries' j).1 = (entries j).1 := by
    intro j
    by_cases hj : j = i
    · rw [hj, hself, hkey]
    · rw [hother j hj]
  constructor
  · intro j hj j' hj' hsame
    rw [hkeys, hkeys] at hsame
    exact hrep.distinct j hj j' hj' hsame
  · intro key' value'
    by_cases hkey' : key' = key
    · subst hkey'
      rw [Function.update_self, Option.some.injEq]
      constructor
      · rintro rfl
        exact ⟨i, hi, hself⟩
      · rintro ⟨j, hj, hentry⟩
        have hji : j = i := by
          apply hrep.distinct j hj i hi
          rw [← hkeys, hentry, hkey]
        rw [hji, hself] at hentry
        exact congrArg Prod.snd hentry
    · have hne : ∀ j value', entries j = (key', value') → j ≠ i := by
        rintro j value' hentry rfl
        exact hkey' ((congrArg Prod.fst hentry).symm.trans hkey)
      rw [Function.update_of_ne hkey', hrep.map_eq]
      constructor
      · rintro ⟨j, hj, hentry⟩
        exact ⟨j, hj, (hother j (hne j _ hentry)).trans hentry⟩
      · rintro ⟨j, hj, hentry⟩
        have hji : j ≠ i := by
          rintro rfl
          exact hkey' ((congrArg Prod.fst hentry).symm.trans (congrArg Prod.fst hself))
        exact ⟨j, hj, (hother j hji).symm.trans hentry⟩

/-- The removal of an entry: those behind it move up. -/
theorem closeGap (hrep : Represents entries (count + 1) map) (hi : i < count + 1)
    (hbefore : ∀ j < i, entries' j = entries j)
    (hbehind : ∀ j, i ≤ j → j < count → entries' j = entries (j + 1)) :
    Represents entries' count (Function.update map (entries i).1 none) := by
  -- where an entry comes from
  have hfrom : ∀ j < count, ∃ j' < count + 1, j' ≠ i ∧ entries' j = entries j' ∧
      j' = if j < i then j else j + 1 := by
    intro j hj
    by_cases hlt : j < i
    · exact ⟨j, hj.trans (Nat.lt_succ_self count), hlt.ne, hbefore j hlt, by rw [if_pos hlt]⟩
    · refine ⟨j + 1, Nat.succ_lt_succ hj, ?_, hbehind j (Nat.not_lt.mp hlt) hj, by
        rw [if_neg hlt]⟩
      omega
  constructor
  · intro j hj k hk hkey
    obtain ⟨j', hj', -, hentry, hindex⟩ := hfrom j hj
    obtain ⟨k', hk', -, hentry', hindex'⟩ := hfrom k hk
    rw [hentry, hentry'] at hkey
    have hsame := hrep.distinct j' hj' k' hk' hkey
    rw [hindex, hindex'] at hsame
    split_ifs at hsame <;> omega
  · intro key value
    by_cases hkey : key = (entries i).1
    · subst hkey
      rw [Function.update_self]
      constructor
      · intro h
        cases h
      · rintro ⟨j, hj, hentry⟩
        obtain ⟨j', hj', hne, hsame, -⟩ := hfrom j hj
        rw [hsame] at hentry
        have hkeys : (entries j').1 = (entries i).1 := by rw [hentry]
        exact absurd (hrep.distinct j' hj' i hi hkeys) hne
    · rw [Function.update_of_ne hkey, hrep.map_eq]
      constructor
      · rintro ⟨j, hj, hentry⟩
        have hne : j ≠ i := by
          rintro rfl
          exact hkey (congrArg Prod.fst hentry).symm
        rcases Nat.lt_or_gt_of_ne hne with hlt | hgt
        · exact ⟨j, by omega, (hbefore j hlt).trans hentry⟩
        · refine ⟨j - 1, by omega, ?_⟩
          rw [hbehind (j - 1) (by omega) (by omega), Nat.sub_add_cancel (by omega)]
          exact hentry
      · rintro ⟨j, hj, hentry⟩
        obtain ⟨j', hj', -, hsame, -⟩ := hfrom j hj
        exact ⟨j', hj', hsame.symm.trans hentry⟩

end Represents

end Prazor.ArrayMap
