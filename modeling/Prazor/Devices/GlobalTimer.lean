import Prazor.Devices.ArmTimers

/-!
# The next event of the global timer

`calculate_timer_interval` looks for the enabled comparator that is reached next.  Its
loop compares comparators with a minimum that is a difference once one of them has been
below it, and the index it records is the one with which the loop has ended.

Times are counted in periods of the timer's clock; the code multiplies that number by the
period as a `double`.
-/

namespace Prazor.Devices.Timers

variable {nCores : ℕ}

/-- The loop of `calculate_timer_interval`.  A `double` has no room for `2^63 - 1`, so
that the first minimum is `2^63`. -/
def ArmGlbt.minimumComparator (glbt : ArmGlbt nCores) (counter : BitVec 64) : BitVec 64 :=
  (List.finRange nCores).foldl
    (fun minimum i =>
      if glbt.compEnabled i ∧ glbt.comparator i < minimum then glbt.comparator i - counter
      else minimum)
    0x8000000000000000

/-- `calculate_timer_interval` with the value of the counter now and the core that
`timer_interval_core` holds before: the number of periods to wait, and the core then. -/
def ArmGlbt.calculateTimerInterval (glbt : ArmGlbt nCores) (counter : BitVec 64)
    (timerIntervalCore : ℤ) : BitVec 64 × ℤ :=
  let minimum := glbt.minimumComparator counter
  if minimum = 0 then (0, timerIntervalCore)
  else ((glbt.prescaler.setWidth 64 + 1) * (minimum + 1), nCores)

/-! ## What should be selected -/

/-- The comparator of a core is enabled and not below the counter. -/
def ArmGlbt.Future (glbt : ArmGlbt nCores) (counter : BitVec 64) (i : Fin nCores) : Prop :=
  glbt.compEnabled i = true ∧ counter ≤ glbt.comparator i

/-- It is the smallest of these. -/
def ArmGlbt.Next (glbt : ArmGlbt nCores) (counter : BitVec 64) (i : Fin nCores) : Prop :=
  glbt.Future counter i ∧ ∀ j, glbt.Future counter j → glbt.comparator i ≤ glbt.comparator j

/-- The periods until the counter has gone over a comparator. -/
def ArmGlbt.periodsUntil (glbt : ArmGlbt nCores) (counter comparator : BitVec 64) : ℕ :=
  (glbt.prescaler.toNat + 1) * (comparator.toNat - counter.toNat + 1)

/-- The interval is zero when no comparator lies ahead, and is otherwise the time until the
smallest of them, with the index of a core that has it. -/
structure ArmGlbt.Selects (glbt : ArmGlbt nCores) (counter : BitVec 64) (core : ℤ) : Prop where
  zero_iff : (glbt.calculateTimerInterval counter core).1 = 0 ↔ ∀ i, ¬glbt.Future counter i
  next : ∀ i, glbt.Next counter i →
    (glbt.calculateTimerInterval counter core).1.toNat =
        glbt.periodsUntil counter (glbt.comparator i) ∧
      ∃ k : Fin nCores, (glbt.calculateTimerInterval counter core).2 = k ∧
        glbt.compEnabled k = true ∧ glbt.comparator k = glbt.comparator i

/-- The enabled comparators in the order of the cores. -/
def ArmGlbt.enabledComparators (glbt : ArmGlbt nCores) : List (BitVec 64) :=
  ((List.finRange nCores).filter fun i => glbt.compEnabled i).map glbt.comparator

/-- Of a list of comparators the one that is left standing: the last that is below `2^63` or
below the distance from the counter to the one before it that was left standing. -/
def standing (counter : BitVec 64) : Option (BitVec 64) → List (BitVec 64) → Option (BitVec 64)
  | last, [] => last
  | last, comparator :: rest =>
      if comparator < last.elim 0x8000000000000000 (· - counter) then
        standing counter (some comparator) rest
      else standing counter last rest

/-- No enabled comparator lies ahead, and the time since the one that is left standing was
passed, less one, is a multiple of `2^64` periods. -/
def ArmGlbt.Expired (glbt : ArmGlbt nCores) (counter : BitVec 64) : Prop :=
  (∀ i, ¬glbt.Future counter i) ∧
    ∃ comparator, standing counter none glbt.enabledComparators = some comparator ∧
      2 ^ 64 ∣ (glbt.prescaler.toNat + 1) * (counter.toNat - comparator.toNat - 1)

/-! ## The loop -/

variable {glbt : ArmGlbt nCores} {counter comparator : BitVec 64}

/-- The loop goes over the enabled comparators. -/
theorem foldl_comparators (counter : BitVec 64) (cores : List (Fin nCores))
    (last : Option (BitVec 64)) :
    cores.foldl
        (fun minimum i =>
          if glbt.compEnabled i ∧ glbt.comparator i < minimum then glbt.comparator i - counter
          else minimum)
        (last.elim 0x8000000000000000 (· - counter)) =
      (standing counter last
        ((cores.filter fun i => glbt.compEnabled i).map glbt.comparator)).elim
          0x8000000000000000 (· - counter) := by
  induction cores generalizing last with
  | nil => rfl
  | cons i rest ih =>
      rw [List.foldl_cons]
      by_cases henabled : glbt.compEnabled i
      · rw [List.filter_cons_of_pos henabled, List.map_cons, standing]
        by_cases hbelow : glbt.comparator i < last.elim 0x8000000000000000 (· - counter)
        · rw [if_pos ⟨henabled, hbelow⟩, if_pos hbelow]
          exact ih (some (glbt.comparator i))
        · rw [if_neg fun h => hbelow h.2, if_neg hbelow]
          exact ih last
      · rw [List.filter_cons_of_neg henabled, if_neg fun h => henabled h.1]
        exact ih last

theorem minimumComparator_eq (glbt : ArmGlbt nCores) (counter : BitVec 64) :
    glbt.minimumComparator counter =
      (standing counter none glbt.enabledComparators).elim 0x8000000000000000 (· - counter) :=
  foldl_comparators counter (List.finRange nCores) none

/-- What is left standing is one of the comparators. -/
theorem mem_of_standing {last : Option (BitVec 64)} {comparators : List (BitVec 64)}
    (hstanding : standing counter last comparators = some comparator) :
    last = some comparator ∨ comparator ∈ comparators := by
  induction comparators generalizing last with
  | nil => exact Or.inl hstanding
  | cons first rest ih =>
      rw [standing] at hstanding
      split at hstanding
      · rcases ih hstanding with hfirst | hrest
        · exact Or.inr (List.mem_cons.mpr (Or.inl (Option.some.inj hfirst).symm))
        · exact Or.inr (List.mem_cons_of_mem first hrest)
      · rcases ih hstanding with hlast | hrest
        · exact Or.inl hlast
        · exact Or.inr (List.mem_cons_of_mem first hrest)

/-- With no comparator ahead what is left standing has been passed. -/
theorem lt_of_standing (hnone : ∀ i, ¬glbt.Future counter i)
    (hstanding : standing counter none glbt.enabledComparators = some comparator) :
    comparator < counter := by
  rcases mem_of_standing hstanding with hfalse | hmem
  · cases hfalse
  · obtain ⟨i, hi, rfl⟩ := List.mem_map.mp hmem
    have henabled : glbt.compEnabled i = true := (List.mem_filter.mp hi).2
    exact BitVec.not_le.mp fun hle => hnone i ⟨henabled, hle⟩

/-- Some core has the smallest of the comparators ahead. -/
theorem exists_next {i : Fin nCores} (hfuture : glbt.Future counter i) :
    ∃ j, glbt.Next counter j := by
  classical
  obtain ⟨j, hj, hmin⟩ := Finset.exists_min_image
    (Finset.univ.filter fun j => glbt.Future counter j) (fun j => (glbt.comparator j).toNat)
    ⟨i, by simpa using hfuture⟩
  exact ⟨j, by simpa using hj, fun k hk => BitVec.le_def.mpr (hmin k (by simpa using hk))⟩

theorem prescaler_succ (prescaler : BitVec 8) :
    prescaler.setWidth 64 + 1 = BitVec.ofNat 64 (prescaler.toNat + 1) := by
  bv_omega

theorem ofNat_eq_zero_iff (k : ℕ) : BitVec.ofNat 64 k = 0 ↔ 2 ^ 64 ∣ k := by
  rw [BitVec.toNat_eq, BitVec.toNat_ofNat, Nat.dvd_iff_mod_eq_zero]
  rfl

/-- The distance to a comparator that was passed, as it wraps. -/
theorem distance_eq (hlt : comparator < counter) :
    comparator - counter + 1 =
      -BitVec.ofNat 64 (counter.toNat - comparator.toNat - 1) := by
  have hone : (1 : BitVec 64).toNat = 1 := rfl
  have hnat := BitVec.lt_def.mp hlt
  have hbound := counter.isLt
  apply BitVec.eq_of_toNat_eq
  simp only [BitVec.toNat_add, BitVec.toNat_neg, BitVec.toNat_sub, BitVec.toNat_ofNat, hone]
  omega

/-- The product of the periods since a comparator was passed wraps to zero. -/
theorem periods_eq_zero_iff (hlt : comparator < counter) :
    (glbt.prescaler.setWidth 64 + 1) * (comparator - counter + 1) = 0 ↔
      2 ^ 64 ∣ (glbt.prescaler.toNat + 1) * (counter.toNat - comparator.toNat - 1) := by
  rw [distance_eq hlt, prescaler_succ, BitVec.mul_neg, ← BitVec.ofNat_mul]
  exact BitVec.neg_eq_zero_iff.trans (ofNat_eq_zero_iff _)

/-- With no comparator enabled the product does not wrap to zero. -/
theorem periods_ne_zero :
    (glbt.prescaler.setWidth 64 + 1) * ((0x8000000000000000 : BitVec 64) + 1) ≠ 0 := by
  have hodd : (0x8000000000000000 : BitVec 64) + 1 = BitVec.ofNat 64 9223372036854775809 := by
    decide
  have hcoprime : Nat.Coprime (2 ^ 64) 9223372036854775809 := by
    norm_num
  rw [hodd, prescaler_succ, ← BitVec.ofNat_mul]
  intro hzero
  have hdvd : 2 ^ 64 ∣ glbt.prescaler.toNat + 1 :=
    hcoprime.dvd_of_dvd_mul_right ((ofNat_eq_zero_iff _).mp hzero)
  have hle : 2 ^ 64 ≤ glbt.prescaler.toNat + 1 := Nat.le_of_dvd (Nat.succ_pos _) hdvd
  have hlt : glbt.prescaler.toNat + 1 < 2 ^ 64 :=
    lt_of_le_of_lt (Nat.succ_le_of_lt glbt.prescaler.isLt) (by norm_num)
  exact absurd hle (Nat.not_le_of_lt hlt)

/-- The interval and the core are right exactly when no enabled comparator lies ahead and
the one that is left standing was passed one period, or a multiple of `2^64`, ago. -/
theorem calculateTimerInterval_selects_iff (glbt : ArmGlbt nCores) (counter : BitVec 64)
    (core : ℤ) : glbt.Selects counter core ↔ glbt.Expired counter := by
  constructor
  · intro hselects
    have hnone : ∀ i, ¬glbt.Future counter i := by
      intro i hfuture
      obtain ⟨j, hnext⟩ := exists_next hfuture
      obtain ⟨_, k, hcore, _⟩ := hselects.next j hnext
      have hzero : glbt.minimumComparator counter ≠ 0 := by
        intro hzero
        have hinterval : (glbt.calculateTimerInterval counter core).1 = 0 := by
          rw [ArmGlbt.calculateTimerInterval, if_pos hzero]
        exact hselects.zero_iff.mp hinterval i hfuture
      rw [ArmGlbt.calculateTimerInterval, if_neg hzero] at hcore
      have hk : (nCores : ℤ) = (k : ℕ) := hcore
      have hlt := k.isLt
      omega
    refine ⟨hnone, ?_⟩
    have hinterval := hselects.zero_iff.mpr hnone
    rw [ArmGlbt.calculateTimerInterval, minimumComparator_eq] at hinterval
    cases hstanding : standing counter none glbt.enabledComparators with
    | none =>
        rw [hstanding, Option.elim_none, if_neg (by decide)] at hinterval
        exact absurd hinterval periods_ne_zero
    | some comparator =>
        have hlt := lt_of_standing hnone hstanding
        rw [hstanding, Option.elim_some] at hinterval
        refine ⟨comparator, rfl, (periods_eq_zero_iff hlt).mp ?_⟩
        split at hinterval
        case isTrue hzero =>
          have hsame : comparator = counter := by
            rw [BitVec.sub_eq_iff_eq_add.mp hzero]
            exact BitVec.zero_add counter
          rw [hsame] at hlt
          exact absurd hlt (BitVec.lt_irrefl counter)
        case isFalse => exact hinterval
  · rintro ⟨hnone, comparator, hstanding, hdvd⟩
    have hlt := lt_of_standing hnone hstanding
    have hinterval : (glbt.calculateTimerInterval counter core).1 = 0 := by
      rw [ArmGlbt.calculateTimerInterval]
      split
      · rfl
      · rw [minimumComparator_eq, hstanding]
        exact (periods_eq_zero_iff hlt).mpr hdvd
    exact ⟨iff_of_true hinterval hnone, fun i hnext => absurd hnext.1 (hnone i)⟩

/-- Two cores, of which the first compares with the given value. -/
def twoCores (comparator : BitVec 64) : ArmGlbt 2 where
  timerCounter := 0
  timerEnabled := true
  prescaler := 0
  compEnabled := fun i => i = 0
  irqEnabled := fun _ => true
  autoIncrement := fun _ => false
  interruptStatus := fun _ => false
  comparator := fun _ => comparator
  autoIncrementValue := fun _ => 0

/-- A comparator that lies ahead is recorded as that of core 2, of two cores, and one that
was passed ten periods ago still gives an interval. -/
theorem not_calculateTimerInterval_selects :
    ((twoCores 100).calculateTimerInterval 90 (-1) = (11, 2) ∧ ¬(twoCores 100).Selects 90 (-1)) ∧
      ((twoCores 100).calculateTimerInterval 110 (-1)).1 = -9 ∧
      ¬(twoCores 100).Selects 110 (-1) := by
  refine ⟨⟨by decide, fun hselects => ?_⟩, by decide, fun hselects => ?_⟩
  · have hfuture : (twoCores 100).Future 90 0 := by
      constructor <;> decide
    obtain ⟨_, k, hcore, _⟩ := hselects.next 0 ⟨hfuture, fun _ _ => BitVec.le_refl _⟩
    revert k
    decide
  · have hpassed (i : Fin 2) : ¬(twoCores 100).Future 110 i := by
      intro hfuture
      have hle : (110 : BitVec 64) ≤ 100 := hfuture.2
      exact absurd hle (by decide)
    exact absurd (hselects.zero_iff.mpr hpassed) (by decide)

end Prazor.Devices.Timers
