import Prazor.Core.Layers
import Prazor.Memory.GenericTlmMem

/-!
# Accesses of one doubleword

The cores send accesses of at most eight bytes, at an address that is a multiple
of eight.  The byte enables of a write are looked at twice, first eight at a
time and then one by one, by the same lines in every cache; `mergeLanes` is that
loop.
-/

namespace Prazor.Memory

open Prazor.Tlm Prazor.Bytes

/-- `!lanes || !bel || lanes[i % bel]`. -/
def byteEnabled (trans : Payload) (i : ℕ) : Bool :=
  match trans.byteEnable with
  | none => true
  | some lanes =>
      bel trans = 0 ∨ lanes (i % bel trans) ≠ 0

/-- The loop body of a cache write at the doubleword `dd`, where `wdatap` is the
index `start` of the array. -/
def mergeWord (trans : Payload) (start : ℕ) (array : Buffer) (dd : ℕ) : Buffer :=
  if wholeWord trans dd then
    fun i => if start + dd ≤ i ∧ i < start + dd + 8 then trans.data (i - start)
      else array i
  else
    (List.range 8).foldl (fun array l =>
      if laneEnabled trans dd l then
        Function.update array (start + dd + l) (trans.data (l + dd))
      else array) array

/-- `for (int dd = 0; dd < len; dd += 8)`. -/
def wordOffsets (len : ℕ) : List ℕ := List.range' 0 ((len + 7) / 8) 8

/-- The data of a write go to the array from `start` on, lane by lane. -/
def mergeLanes (trans : Payload) (start : ℕ) (array : Buffer) : Buffer :=
  (wordOffsets trans.dataLength).foldl (mergeWord trans start) array

theorem foldl_update_lanes {Value : Type*} (enabled : ℕ → Bool)
    (value : ℕ → Value) (start n : ℕ) (array : ℕ → Value) (i : ℕ) :
    (List.range n).foldl (fun array l =>
        if enabled l then Function.update array (start + l) (value l) else array)
      array i =
      if start ≤ i ∧ i < start + n ∧ enabled (i - start) then value (i - start)
      else array i := by
  induction n with
  | zero =>
      rw [if_neg (by omega)]
      rfl
  | succ n ih =>
      rw [List.range_succ, List.foldl_append, List.foldl_cons, List.foldl_nil]
      by_cases hi : i = start + n
      · subst hi
        rw [Nat.add_sub_cancel_left]
        cases enabled n <;> simp [ih]
      · have hlane : (start ≤ i ∧ i < start + (n + 1) ∧ enabled (i - start)) ↔
            (start ≤ i ∧ i < start + n ∧ enabled (i - start)) := by
          constructor <;> rintro ⟨hle, hlt, hen⟩ <;> exact ⟨hle, by omega, hen⟩
        simp only [hlane, ← ih]
        cases enabled n <;> simp [hi]

/-- When the eight enables of the first doubleword are all ones then each of
them is set, and otherwise they are looked at one by one. -/
theorem byteEnabled_eq (trans : Payload) {l : ℕ} (hl : l < 8) :
    byteEnabled trans l = (wholeWord trans 0 || laneEnabled trans 0 l) := by
  unfold byteEnabled wholeWord laneEnabled
  cases trans.byteEnable with
  | none => rfl
  | some lanes =>
      by_cases hbel : bel trans = 0
      · simp [hbel]
      by_cases hwhole : load64 (fun i => lanes i) = 0xFFFFFFFFFFFFFFFF
      · have hlane : lanes (l % bel trans) = 0xFF := by
          have hlt : l % bel trans < 8 := lt_of_le_of_lt (Nat.mod_le l (bel trans)) hl
          rw [← bytes64_load64 lanes hlt, hwhole]
          interval_cases l % bel trans <;> rfl
        simp [hbel, hwhole, hlane]
      · simp only [Nat.zero_mod, Nat.zero_div, Nat.mul_zero, Nat.zero_add, hbel,
          hwhole, decide_false, Bool.false_or, false_or]

/-- A write of one to eight bytes stores its enabled lanes, among all eight. -/
theorem mergeLanes_apply {trans : Payload} (hpos : 0 < trans.dataLength)
    (hle : trans.dataLength ≤ 8) (start : ℕ) (array : Buffer) (i : ℕ) :
    mergeLanes trans start array i =
      if start ≤ i ∧ i < start + 8 ∧ byteEnabled trans (i - start) then
        trans.data (i - start)
      else array i := by
  have hoffsets : wordOffsets trans.dataLength = [0] := by
    rw [wordOffsets, show (trans.dataLength + 7) / 8 = 1 by omega]
    rfl
  rw [mergeLanes, hoffsets, List.foldl_cons, List.foldl_nil, mergeWord]
  by_cases hin : start ≤ i ∧ i < start + 8
  · have henabled := byteEnabled_eq trans (show i - start < 8 by omega)
    by_cases hwhole : wholeWord trans 0
    · simp [hwhole, hin, henabled]
    · simp only [hwhole, Bool.false_eq_true, if_false, Nat.add_zero]
      rw [foldl_update_lanes, henabled]
      simp [hin, hwhole]
  · by_cases hwhole : wholeWord trans 0
    · rw [if_pos hwhole, Nat.add_zero, if_neg hin, if_neg (by tauto)]
    · rw [if_neg hwhole, Nat.add_zero]
      simp only [Nat.add_zero]
      rw [foldl_update_lanes, if_neg (by tauto), if_neg (by tauto)]

theorem mergeLanes_of_empty {trans : Payload} (hzero : trans.dataLength = 0)
    (start : ℕ) (array : Buffer) : mergeLanes trans start array = array := by
  rw [mergeLanes, hzero]
  rfl

/-! ## Lines in the array of a way -/

/-- The bytes of line `d` of an array of lines. -/
def lineBytes (linesize : ℕ) (array : Buffer) (d : ℕ) : Buffer := fun i =>
  if i < linesize then array (d * linesize + i) else 0

section LineBytes

variable {linesize d d' : ℕ}

/-- The lines of an array do not overlap. -/
theorem line_disjoint {i : ℕ} (hne : d' ≠ d) (hi : i < linesize) :
    ¬(d * linesize ≤ d' * linesize + i ∧ d' * linesize + i < d * linesize + linesize) := by
  rintro ⟨hle, hlt⟩
  rcases Nat.lt_or_gt_of_ne hne with hbelow | habove
  · have hend := Nat.mul_le_mul_right linesize (Nat.succ_le_of_lt hbelow)
    rw [Nat.succ_mul] at hend
    omega
  · have hend := Nat.mul_le_mul_right linesize (Nat.succ_le_of_lt habove)
    rw [Nat.succ_mul] at hend
    omega

/-- The line before the end of the array. -/
theorem line_end_le (linesize : ℕ) {d lines : ℕ} (hd : d < lines) :
    d * linesize + linesize ≤ lines * linesize := by
  calc d * linesize + linesize = (d + 1) * linesize := by ring
    _ ≤ lines * linesize := Nat.mul_le_mul_right linesize hd

theorem lineBytes_of_lt {i : ℕ} (hi : i < linesize) (array : Buffer) (d : ℕ) :
    lineBytes linesize array d i = array (d * linesize + i) :=
  if_pos hi

/-- A change inside one line leaves the others. -/
theorem lineBytes_congr {array array' : Buffer} (hne : d' ≠ d)
    (hsame : ∀ j, ¬(d * linesize ≤ j ∧ j < d * linesize + linesize) →
      array' j = array j) :
    lineBytes linesize array' d' = lineBytes linesize array d' := by
  funext i
  unfold lineBytes
  split
  case isTrue hi => exact hsame _ (line_disjoint hne hi)
  case isFalse => rfl

/-- `memcpy(array + d * linesize, cline, linesize)`. -/
def copyLine (linesize : ℕ) (array : Buffer) (d : ℕ) (cline : Buffer) : Buffer :=
  fun i =>
    if d * linesize ≤ i ∧ i < d * linesize + linesize then cline (i - d * linesize)
    else array i

theorem lineBytes_copyLine {i : ℕ} (hi : i < linesize) (array : Buffer) (d : ℕ)
    (cline : Buffer) : lineBytes linesize (copyLine linesize array d cline) d i = cline i := by
  rw [lineBytes_of_lt hi, copyLine, if_pos ⟨by omega, by omega⟩, Nat.add_sub_cancel_left]

theorem copyLine_of_outside {j : ℕ} (array : Buffer) (cline : Buffer)
    (houtside : ¬(d * linesize ≤ j ∧ j < d * linesize + linesize)) :
    copyLine linesize array d cline j = array j :=
  if_neg houtside

/-- A write of one to eight bytes inside a line. -/
theorem lineBytes_mergeLanes {trans : Payload} {offset i : ℕ}
    (hpos : 0 < trans.dataLength) (hle : trans.dataLength ≤ 8) (hi : i < linesize)
    (array : Buffer) :
    lineBytes linesize (mergeLanes trans (d * linesize + offset) array) d i =
      if offset ≤ i ∧ i < offset + 8 ∧ byteEnabled trans (i - offset) then
        trans.data (i - offset)
      else lineBytes linesize array d i := by
  rw [lineBytes_of_lt hi, lineBytes_of_lt hi, mergeLanes_apply hpos hle,
    Nat.add_sub_add_left]
  have hiff : (d * linesize + offset ≤ d * linesize + i ∧
      d * linesize + i < d * linesize + offset + 8 ∧
      byteEnabled trans (i - offset) = true) ↔
      (offset ≤ i ∧ i < offset + 8 ∧ byteEnabled trans (i - offset) = true) := by
    rw [Nat.add_le_add_iff_left, Nat.add_assoc, Nat.add_lt_add_iff_left]
  simp only [hiff]

theorem mergeLanes_of_outside {trans : Payload} {offset j : ℕ}
    (hle : trans.dataLength ≤ 8) (hend : offset + 8 ≤ linesize) (array : Buffer)
    (houtside : ¬(d * linesize ≤ j ∧ j < d * linesize + linesize)) :
    mergeLanes trans (d * linesize + offset) array j = array j := by
  rcases Nat.eq_zero_or_pos trans.dataLength with hzero | hpos
  · rw [mergeLanes_of_empty hzero]
  · rw [mergeLanes_apply hpos hle, if_neg]
    rintro ⟨hge, hlt, -⟩
    exact houtside ⟨by omega, by omega⟩

end LineBytes

/-! ## Transactions with the storage below -/

/-- `MAX_LINESIZE`. -/
def maxLinesize : ℕ := 1024

/-- What a write transaction leaves in the storage. -/
def stored (memory : ℕ → Byte) (address length : ℕ) (enabled : ℕ → Bool)
    (data : Buffer) : ℕ → Byte := fun a =>
  if address ≤ a ∧ a < address + length ∧ enabled (a - address) then
    data (a - address)
  else memory a

/-- The bytes of a write transaction, by address. -/
def sentPatch (address length : ℕ) (enabled : ℕ → Bool) (data : Buffer) :
    ℕ → Option Byte := fun a =>
  if address ≤ a ∧ a < address + length ∧ enabled (a - address) then
    some (data (a - address))
  else none

theorem stored_eq_overlay (memory : ℕ → Byte) (address length : ℕ) (enabled : ℕ → Bool)
    (data : Buffer) :
    stored memory address length enabled data =
      overlay (sentPatch address length enabled data) memory := by
  funext a
  unfold stored overlay sentPatch
  split <;> rfl

theorem stored_congr {memory : ℕ → Byte} {address length : ℕ} {enabled : ℕ → Bool}
    {data data' : Buffer} (hdata : ∀ i, i < length → data i = data' i) :
    stored memory address length enabled data =
      stored memory address length enabled data' := by
  funext a
  unfold stored
  split
  · exact hdata _ (by omega)
  · rfl

theorem stored_of_disabled {memory : ℕ → Byte} {address length : ℕ}
    {enabled : ℕ → Bool} (hdisabled : ∀ i, i < length → enabled i = false)
    (data : Buffer) : stored memory address length enabled data = memory := by
  funext a
  refine if_neg ?_
  rintro ⟨hle, hlt, henabled⟩
  rw [hdisabled _ (by omega)] at henabled
  cases henabled

/-! ## What a flat memory does -/

/-- The bytes a write stores, by address. -/
def patch (trans : Payload) : ℕ → Option Byte := fun a =>
  if trans.address.toNat ≤ a ∧ a < trans.address.toNat + trans.dataLength ∧
      byteEnabled trans (a - trans.address.toNat) then
    some (trans.data (a - trans.address.toNat))
  else none

/-- The payload of a doubleword read, answered. -/
def answered (flat : ℕ → Byte) (trans : Payload) : Payload :=
  { trans with
    data := memcpy 8 (fun i => flat (trans.address.toNat + i)) trans.data
    response := .ok }

end Prazor.Memory
