import Prazor.Core.ArraySizes

/-!
# Streams that grow in one memory

Several streams of values grow side by side in one memory.  A plan gives the cell of the next
value of each stream, and how many values there is room for.  As long as no stream outgrows its
room, the memory holds what was appended to every stream.
-/

namespace Prazor

/-- Where the values of each stream go: different values within the room have different cells. -/
structure StreamPlan (Stream Cell : Type*) where
  cell : Stream → ℕ → Cell
  room : Stream → ℕ
  apart : ∀ s t i j, i < room s → j < room t → cell s i = cell t j → s = t ∧ i = j

namespace StreamPlan

variable {Stream Cell V : Type*} {plan : StreamPlan Stream Cell}
  {memory : Cell → V} {contents : Stream → List V} {s : Stream}

/-- Each stream is within its room, and the memory has its values. -/
structure Holds (plan : StreamPlan Stream Cell) (memory : Cell → V)
    (contents : Stream → List V) : Prop where
  fits : ∀ s, (contents s).length ≤ plan.room s
  stored : ∀ s i v, (contents s)[i]? = some v → memory (plan.cell s i) = v

theorem holds_nil : plan.Holds memory fun _ => [] :=
  ⟨fun _ => Nat.zero_le _, fun _ _ _ hnone => by cases hnone⟩

variable [DecidableEq Stream] [DecidableEq Cell]

/-- A value put into the next cell of a stream is appended to it, and no other stream changes. -/
theorem Holds.append_one (hholds : plan.Holds memory contents) (v : V)
    (hroom : (contents s).length < plan.room s) :
    plan.Holds (Function.update memory (plan.cell s (contents s).length) v)
      (Function.update contents s (contents s ++ [v])) := by
  constructor
  · intro t
    by_cases ht : t = s
    · subst ht
      simpa using hroom
    · rw [Function.update_of_ne ht]
      exact hholds.fits t
  · intro t i w hw
    by_cases ht : t = s
    · subst ht
      rw [Function.update_self] at hw
      by_cases hi : i = (contents t).length
      · rw [hi, List.getElem?_concat_length, Option.some_inj] at hw
        rw [hi, Function.update_self, hw]
      · have hlt : i < (contents t).length := by
          have hlength := (List.getElem?_eq_some_iff.mp hw).1
          rw [List.length_append, List.length_singleton] at hlength
          omega
        rw [List.getElem?_append_left hlt] at hw
        rw [Function.update_of_ne, hholds.stored t i w hw]
        intro hcell
        exact hi (plan.apart t t i _ (hlt.trans_le (hholds.fits t)) hroom hcell).2
    · rw [Function.update_of_ne ht] at hw
      have hlt := (List.getElem?_eq_some_iff.mp hw).1
      rw [Function.update_of_ne, hholds.stored t i w hw]
      intro hcell
      exact ht (plan.apart t s i _ (hlt.trans_le (hholds.fits t)) hroom hcell).1

end StreamPlan

/-- Among blocks of one length, the `q`-th value of the `i`-th block. -/
theorem getElem?_flatMap_range {V : Type*} (block : ℕ → List V) (k n : ℕ)
    (hlength : ∀ i, (block i).length = k) {i q : ℕ} (hi : i < n) (hq : q < k) :
    ((List.range n).flatMap block)[k * i + q]? = (block i)[q]? := by
  induction n with
  | zero => exact absurd hi (Nat.not_lt_zero i)
  | succ n ih =>
      have htotal : ((List.range n).flatMap block).length = k * n := by
        simp [List.length_flatMap, hlength, Nat.mul_comm]
      rw [List.range_succ, List.flatMap_append]
      by_cases hlast : i = n
      · subst hlast
        rw [List.getElem?_append_right (by omega), htotal]
        simp
      · have hlt : i < n := by omega
        have hle : k * i + k ≤ k * n := by
          rw [← Nat.mul_succ]
          exact Nat.mul_le_mul_left k hlt
        rw [List.getElem?_append_left (by omega)]
        exact ih hlt

end Prazor
