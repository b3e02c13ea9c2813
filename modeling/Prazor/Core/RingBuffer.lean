import Prazor.Core.ArraySizes

/-!
# Circular buffers

A circular buffer is an array with an in-index and an out-index.  What it holds
is read from the out-index up to the in-index, round the end of the array.
Equal indices mean that it is empty, so one place is never used.
-/

namespace Prazor.RingBuffer

variable {A : Type*} {size : ℕ}

/-- The place after a place. -/
def next (size index : ℕ) : ℕ := (index + 1) % size

/-- How many places lie between the two indices. -/
def count (size inptr outptr : ℕ) : ℕ := (inptr + size - outptr) % size

/-- What the buffer holds, oldest first. -/
def contents (size : ℕ) (buffer : ℕ → A) (inptr outptr : ℕ) : List A :=
  (List.range (count size inptr outptr)).map fun k => buffer ((outptr + k) % size)

theorem next_lt (hsize : 0 < size) (index : ℕ) : next size index < size :=
  Nat.mod_lt _ hsize

theorem next_eq {index : ℕ} (hindex : index < size) :
    next size index = if index + 1 = size then 0 else index + 1 := by
  rw [next]
  split
  case isTrue heq => rw [heq, Nat.mod_self]
  case isFalse hne => exact Nat.mod_eq_of_lt (by omega)

theorem count_eq {inptr outptr : ℕ} (hin : inptr < size) (hout : outptr < size) :
    count size inptr outptr =
      if outptr ≤ inptr then inptr - outptr else inptr + size - outptr := by
  rw [count]
  split
  case isTrue hle =>
    rw [show inptr + size - outptr = inptr - outptr + size by omega,
      Nat.add_mod_right, Nat.mod_eq_of_lt (by omega)]
  case isFalse hlt => exact Nat.mod_eq_of_lt (by omega)

theorem count_push {inptr outptr : ℕ} (hin : inptr < size) (hout : outptr < size)
    (hroom : next size inptr ≠ outptr) :
    count size (next size inptr) outptr = count size inptr outptr + 1 := by
  have hsize : 0 < size := by omega
  rw [count_eq (next_lt hsize inptr) hout, count_eq hin hout]
  rw [next_eq hin] at hroom ⊢
  split_ifs at hroom ⊢ <;> omega

theorem count_pop {inptr outptr : ℕ} (hin : inptr < size) (hout : outptr < size)
    (hsome : inptr ≠ outptr) :
    count size inptr outptr = count size inptr (next size outptr) + 1 := by
  have hsize : 0 < size := by omega
  rw [count_eq hin (next_lt hsize outptr), count_eq hin hout, next_eq hout]
  split_ifs <;> omega

/-- The places that hold something are not the one at the in-index. -/
theorem place_ne {inptr outptr k : ℕ} (hin : inptr < size) (hout : outptr < size)
    (hk : k < count size inptr outptr) : (outptr + k) % size ≠ inptr := by
  rw [count_eq hin hout] at hk
  by_cases hwrap : outptr + k < size
  · rw [Nat.mod_eq_of_lt hwrap]
    split_ifs at hk <;> omega
  · rw [Nat.mod_eq_sub_mod (by omega),
      Nat.mod_eq_of_lt (by split_ifs at hk <;> omega)]
    split_ifs at hk <;> omega

/-- The place after the last one held is the one at the in-index. -/
theorem place_count {inptr outptr : ℕ} (hin : inptr < size) (hout : outptr < size) :
    (outptr + count size inptr outptr) % size = inptr := by
  rw [count_eq hin hout]
  split_ifs with hle
  · rw [Nat.add_sub_cancel' hle, Nat.mod_eq_of_lt hin]
  · rw [show outptr + (inptr + size - outptr) = inptr + size by omega,
      Nat.add_mod_right, Nat.mod_eq_of_lt hin]

theorem contents_eq_nil {buffer : ℕ → A} {inptr outptr : ℕ} (hin : inptr < size)
    (hout : outptr < size) :
    contents size buffer inptr outptr = [] ↔ inptr = outptr := by
  rw [contents, List.map_eq_nil_iff, List.range_eq_nil, count_eq hin hout]
  split_ifs <;> omega

theorem length_contents (buffer : ℕ → A) (inptr outptr : ℕ) :
    (contents size buffer inptr outptr).length = count size inptr outptr := by
  simp [contents]

/-- Storing at the in-index does not show before the index moves. -/
theorem contents_store (buffer : ℕ → A) {inptr outptr : ℕ} (hin : inptr < size)
    (hout : outptr < size) (value : A) :
    contents size (Function.update buffer inptr value) inptr outptr =
      contents size buffer inptr outptr := by
  refine List.map_congr_left fun k hk => ?_
  exact Function.update_of_ne (place_ne hin hout (List.mem_range.mp hk)) _ _

/-- Moving the in-index on brings in what is stored there. -/
theorem contents_push (buffer : ℕ → A) {inptr outptr : ℕ} (hin : inptr < size)
    (hout : outptr < size) (hroom : next size inptr ≠ outptr) :
    contents size buffer (next size inptr) outptr =
      contents size buffer inptr outptr ++ [buffer inptr] := by
  rw [contents, count_push hin hout hroom, List.range_succ, List.map_append,
    List.map_singleton, place_count hin hout]
  rfl

/-- Moving the out-index on takes away the oldest. -/
theorem contents_pop (buffer : ℕ → A) {inptr outptr : ℕ} (hin : inptr < size)
    (hout : outptr < size) (hsome : inptr ≠ outptr) :
    contents size buffer inptr outptr =
      buffer outptr :: contents size buffer inptr (next size outptr) := by
  rw [contents, count_pop hin hout hsome, List.range_succ_eq_map, List.map_cons,
    Nat.add_zero, Nat.mod_eq_of_lt hout, List.map_map, contents]
  congr 1
  refine List.map_congr_left fun k _ => ?_
  show buffer ((outptr + (k + 1)) % size) = buffer ((next size outptr + k) % size)
  rw [next, Nat.mod_add_mod, Nat.add_assoc, Nat.add_comm 1 k]

end Prazor.RingBuffer
