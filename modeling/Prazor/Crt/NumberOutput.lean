import Prazor.Core.Numerals
import Prazor.Core.Payload

/-!
# Number output

prlibc prints numbers with a table of the powers of ten or of sixteen.  It looks for
the entry above the number, pads relative to its index, and subtracts the entries from
there on down.  `putdec64`, `puthex64`, `putdec32` and `puthex32` are copies of one
another, except that one of them keeps the index of zero from becoming negative.  What
they write is the list of the characters given to `pfputc`.
-/

namespace Prazor.Crt.Number

open Numerals

def hex32Table : List ℕ :=
  [0x1, 0x10, 0x100, 0x1000, 0x10000, 0x100000, 0x1000000, 0x10000000]

def hex64Table : List ℕ :=
  [0x1, 0x10, 0x100, 0x1000, 0x10000, 0x100000, 0x1000000, 0x10000000, 0x100000000,
    0x1000000000, 0x10000000000, 0x100000000000, 0x1000000000000, 0x10000000000000,
    0x100000000000000, 0x1000000000000000]

def dec32Table : List ℕ :=
  [1, 10, 100, 1000, 10000, 100000, 1000000, 10000000, 100000000, 1000000000]

def dec64Table : List ℕ :=
  [1, 10, 100, 1000, 10000, 100000, 1000000, 10000000, 100000000, 1000000000, 10000000000,
    100000000000, 1000000000000, 10000000000000, 100000000000000, 1000000000000000,
    10000000000000000, 100000000000000000, 1000000000000000000, 10000000000000000000]

/-- The loop that looks for the entry above the number, from an index on; with
`guarded` the index of zero stays zero. -/
def searchFrom (guarded : Bool) (d0 : ℕ) : ℕ → List ℕ → ℤ
  | p, [] => p
  | p, [_] => p
  | p, entry :: next :: rest =>
      if d0 < entry then (if guarded ∧ p = 0 then 0 else p - 1)
      else searchFrom guarded d0 (p + 1) (next :: rest)

/-- `while (f > p) { pfputc(lzchar); f--; }` -/
def padding (lzchar : Byte) (f p : ℤ) : List Byte := List.replicate (f - p).toNat lzchar

/-- `while (d0 >= entry) { d0 -= entry; d++; }` -/
def takeDigit (entry d0 d : ℕ) : ℕ × ℕ :=
  if h : 0 < entry ∧ entry ≤ d0 then takeDigit entry (d0 - entry) (d + 1) else (d, d0)
termination_by d0
decreasing_by omega

/-- `(d > 9) ? 'A' + d - 10 : '0' + d` -/
def digitChar (d : ℕ) : Byte :=
  if 9 < d then BitVec.ofNat 8 (0x41 + d - 10) else BitVec.ofNat 8 (0x30 + d)

/-- The loop over the entries below an index, which leaves leading zeros out. -/
def digitsLoop (table : List ℕ) : ℕ → ℕ → Bool → List Byte
  | 0, _, _ => []
  | p + 1, d0, lzf =>
      let taken := takeDigit (table.getD p 0) d0 0
      let lzf := lzf || taken.1 ≠ 0
      if lzf ∨ p = 0 then digitChar taken.1 :: digitsLoop table p taken.2 lzf
      else digitsLoop table p taken.2 lzf

/-- The character that pads a number. -/
def lzchar (leadingz : Bool) : Byte := if leadingz then 0x30 else 0x20

/-- The sign that is printed. -/
def signOf (negative : Bool) : List Byte := if negative then [0x2D] else []

/-- What the four routines share: the number without its sign is printed in a field. -/
def putNumber (table : List ℕ) (guarded leadingz negative : Bool) (d0 : ℕ) (f : ℤ) :
    List Byte :=
  let f := if negative then f - 1 else f
  let p := searchFrom guarded d0 0 table
  signOf negative ++ padding (lzchar leadingz) (f - 1) p ++ digitsLoop table (p + 1).toNat d0 false

/-- The field leaves room for padding, as the routines count the digits. -/
def Padded (table : List ℕ) (guarded negative : Bool) (d0 : ℕ) (f : ℤ) : Prop :=
  searchFrom guarded d0 0 table < (if negative then f - 1 else f) - 1

/-- A number that is not padded looks the same with and without leading zeros. -/
theorem putNumber_eq_iff (table : List ℕ) (guarded negative : Bool) (d0 : ℕ) (f : ℤ) :
    putNumber table guarded true negative d0 f = putNumber table guarded false negative d0 f ↔
      ¬Padded table guarded negative d0 f := by
  rw [putNumber, putNumber, List.append_left_inj, List.append_right_inj, padding, padding,
    List.replicate_inj, Padded]
  have hne : lzchar true ≠ lzchar false := by decide
  simp only [true_and, hne, or_false]
  omega

/-- A flag for leading zeros that is set besides the number's own shows only where the number
is padded. -/
theorem putNumber_or_iff (table : List ℕ) (guarded negative : Bool) (d0 : ℕ) (f : ℤ)
    (z own : Bool) :
    putNumber table guarded (z || own) negative d0 f =
        putNumber table guarded own negative d0 f ↔
      (z = true → Padded table guarded negative d0 f → own = true) := by
  cases z <;> cases own <;> simp [putNumber_eq_iff]

/-- A signed number is negated when its top bit is set. -/
def magnitude {w : ℕ} (negative : Bool) (d0 : BitVec w) : ℕ :=
  (if negative then -d0 else d0).toNat

def putdec64 (leadingz signedf : Bool) (d0 : BitVec 64) (f : ℤ) : List Byte :=
  let negative := signedf && d0.msb
  putNumber dec64Table false leadingz negative (magnitude negative d0) f

def puthex64 (leadingz : Bool) (d0 : BitVec 64) (f : ℤ) : List Byte :=
  putNumber hex64Table false leadingz false d0.toNat f

def putdec32 (leadingz signedf : Bool) (d0 : BitVec 32) (f : ℤ) : List Byte :=
  let negative := signedf && d0.msb
  putNumber dec32Table true leadingz negative (magnitude negative d0) f

def puthex32 (leadingz : Bool) (d0 : BitVec 32) (f : ℤ) : List Byte :=
  putNumber hex32Table false leadingz false d0.toNat f

/-! ## What should be printed -/

/-- The four routines. -/
inductive Routine where
  | putdec64
  | puthex64
  | putdec32
  | puthex32
  deriving DecidableEq

namespace Routine

abbrev width : Routine → ℕ
  | putdec64 | puthex64 => 64
  | putdec32 | puthex32 => 32

def base : Routine → ℕ
  | putdec64 | putdec32 => 10
  | puthex64 | puthex32 => 16

/-- The number of entries of the table. -/
def entries : Routine → ℕ
  | putdec64 => 20
  | puthex64 => 16
  | putdec32 => 10
  | puthex32 => 8

/-- The routine takes care of zero. -/
def guarded : Routine → Bool
  | putdec32 => true
  | putdec64 | puthex64 | puthex32 => false

/-- The value that is printed: the hexadecimal routines have no sign. -/
def value (routine : Routine) (signedf : Bool) (d0 : BitVec routine.width) : ℤ :=
  match routine with
  | putdec64 | putdec32 => if signedf then d0.toInt else d0.toNat
  | puthex64 | puthex32 => d0.toNat

/-- What the routine writes. -/
def run (routine : Routine) (leadingz signedf : Bool) (d0 : BitVec routine.width) (f : ℤ) :
    List Byte :=
  match routine with
  | putdec64 => Number.putdec64 leadingz signedf d0 f
  | puthex64 => Number.puthex64 leadingz d0 f
  | putdec32 => Number.putdec32 leadingz signedf d0 f
  | puthex32 => Number.puthex32 leadingz d0 f

end Routine

/-- The digit that a character stands for. -/
def charDigit (c : Byte) : ℕ :=
  if 0x40 < c.toNat then c.toNat - 0x41 + 10 else c.toNat - 0x30

/-- A sign, padding and the digits that the value needs, with the length of the field
or what the value needs; the digits read back give the value. -/
def Printed (base : ℕ) (pad : Byte) (value f : ℤ) (out : List Byte) : Prop :=
  ∃ k, ∃ digits : List Byte,
    out = signOf (value < 0) ++ List.replicate k pad ++ digits ∧
      digits = (numeral base value.natAbs).map digitChar ∧
      (out.length : ℤ) = max f ((signOf (value < 0)).length + digits.length) ∧
      (if value < 0 then -1 else 1) * (Numerals.value base (digits.map charDigit) : ℤ) = value

/-! ## The loops -/

variable {base size m n p q : ℕ} {guarded : Bool}

/-- Repeated subtraction is division. -/
theorem takeDigit_eq {entry : ℕ} (hentry : 0 < entry) (d0 d : ℕ) :
    takeDigit entry d0 d = (d + d0 / entry, d0 % entry) := by
  induction d0 using Nat.strong_induction_on generalizing d with
  | h d0 ih =>
      rw [takeDigit]
      split_ifs with hmore
      · rw [ih (d0 - entry) (by omega), Nat.div_eq_sub_div hentry hmore.2,
          Nat.mod_eq_sub_mod hmore.2, Nat.add_assoc, Nat.add_comm 1]
      · have hlt : d0 < entry := by omega
        rw [Nat.div_eq_of_lt hlt, Nat.mod_eq_of_lt hlt, Nat.add_zero]

/-- The powers of the base from an index on. -/
def powersFrom (base p size : ℕ) : List ℕ := (List.range' p size).map fun i => base ^ i

theorem powersFrom_succ (base p size : ℕ) :
    powersFrom base p (size + 1) = base ^ p :: powersFrom base (p + 1) size := rfl

theorem getD_powersFrom (hp : p < size) : (powersFrom base 0 size).getD p 0 = base ^ p := by
  rw [List.getD_eq_getElem?_getD, powersFrom, List.getElem?_map, List.getElem?_range' hp,
    Nat.zero_add, Nat.one_mul]
  rfl

/-- Once a digit has been printed, all digits are. -/
theorem digitsLoop_true (hbase : 0 < base) (hn : n ≤ size) (m : ℕ) :
    digitsLoop (powersFrom base 0 size) n m true = (places base n m).map digitChar := by
  induction n generalizing m with
  | zero => rfl
  | succ n ih =>
      rw [digitsLoop, getD_powersFrom hn, takeDigit_eq (Nat.pow_pos hbase)]
      simp only [Bool.true_or, true_or, if_true, Nat.zero_add]
      rw [ih (Nat.le_of_succ_le hn), places, List.map_cons]

/-- Leading zeros are left out. -/
theorem digitsLoop_false (hbase : 1 < base) (hn : n < size) (hm : m < base ^ (n + 1)) :
    digitsLoop (powersFrom base 0 size) (n + 1) m false =
      (numeral base m).map digitChar := by
  have hpos : 0 < base := Nat.lt_of_succ_lt hbase
  induction n with
  | zero =>
      rw [Nat.zero_add, pow_one] at hm
      rw [digitsLoop, getD_powersFrom hn, takeDigit_eq (Nat.pow_pos hpos), numeral_of_lt hbase hm]
      simp [digitsLoop]
  | succ n ih =>
      rw [digitsLoop, getD_powersFrom hn, takeDigit_eq (Nat.pow_pos hpos), Nat.zero_add,
        Bool.false_or]
      rcases Nat.lt_or_ge m (base ^ (n + 1)) with hlt | hge
      · have hzero : m / base ^ (n + 1) = 0 := Nat.div_eq_of_lt hlt
        have hskip : ¬ (decide (m / base ^ (n + 1) ≠ 0) = true ∨ n + 1 = 0) := by
          simp [hzero]
        simp only [hskip, if_false]
        rw [Nat.mod_eq_of_lt hlt, hzero]
        exact ih (Nat.lt_of_succ_lt hn) hlt
      · have hdigit : decide (m / base ^ (n + 1) ≠ 0) = true :=
          decide_eq_true (Nat.div_pos hge (Nat.pow_pos hpos)).ne'
        simp only [hdigit, true_or, if_true]
        rw [digitsLoop_true hpos (Nat.le_of_lt hn), numeral_eq_places hbase hge hm]
        rfl

/-- No entry but the last is looked at when they are all below the number. -/
theorem searchFrom_last (hbase : 0 < base) (hm : base ^ (p + size) ≤ m * base) :
    searchFrom guarded m p (powersFrom base p (size + 1)) = p + size := by
  induction size generalizing p with
  | zero => exact (Int.add_zero _).symm
  | succ size ih =>
      have hentry : base ^ p ≤ m := by
        have hle : base ^ (p + 1) ≤ base ^ (p + (size + 1)) :=
          Nat.pow_le_pow_right hbase (by omega)
        rw [pow_succ] at hle
        exact Nat.le_of_mul_le_mul_right (hle.trans hm) hbase
      have hrest : p + 1 + size = p + (size + 1) := by omega
      rw [powersFrom_succ, powersFrom_succ, searchFrom, if_neg (Nat.not_lt.mpr hentry),
        ← powersFrom_succ, ih (by rwa [hrest])]
      push_cast
      ring

/-- The entry above the number is not the last. -/
theorem searchFrom_above (hbase : 0 < base) (hge : base ^ q ≤ m) (hlt : m < base ^ (q + 1))
    (hp : p ≤ q) (hq : q + 1 < p + size) :
    searchFrom guarded m p (powersFrom base p (size + 1)) = q := by
  induction size generalizing p with
  | zero => omega
  | succ size ih =>
      have hentry : base ^ p ≤ m := (Nat.pow_le_pow_right hbase hp).trans hge
      rw [powersFrom_succ, powersFrom_succ, searchFrom, if_neg (Nat.not_lt.mpr hentry)]
      rcases Nat.lt_or_eq_of_le hp with hmore | rfl
      · rw [← powersFrom_succ]
        exact ih hmore (by omega)
      · obtain ⟨rest, rfl⟩ : ∃ rest, size = rest + 1 := ⟨size - 1, by omega⟩
        rw [powersFrom_succ, searchFrom, if_pos hlt, if_neg (by simp)]
        push_cast
        ring

/-! ## What is printed -/

theorem charDigit_digitChar {d : ℕ} (hd : d < 16) : charDigit (digitChar d) = d := by
  interval_cases d <;> rfl

/-- The digits read back give the number. -/
theorem value_charDigit (hbase : 1 < base) (hsmall : base ≤ 16) (m : ℕ) :
    Numerals.value base (((numeral base m).map digitChar).map charDigit) = m := by
  have hread : ((numeral base m).map digitChar).map charDigit = numeral base m := by
    have hchars : ∀ d ∈ numeral base m, charDigit (digitChar d) = d := fun d hd =>
      charDigit_digitChar ((lt_of_mem_numeral hbase d hd).trans_le hsmall)
    rw [List.map_map]
    exact (List.map_congr_left hchars).trans (List.map_id _)
  rw [hread, value_numeral]

/-- The digits with some padding are right exactly when the length is. -/
theorem printed_iff_length (hbase : 1 < base) (hsmall : base ≤ 16) (pad : Byte) (value f : ℤ)
    (k : ℕ) :
    Printed base pad value f (signOf (value < 0) ++ List.replicate k pad ++
        (numeral base value.natAbs).map digitChar) ↔
      ((signOf (value < 0)).length + k + (numeral base value.natAbs).length : ℤ) =
        max f ((signOf (value < 0)).length + (numeral base value.natAbs).length) := by
  constructor
  · rintro ⟨k', digits, hout, rfl, hlength, -⟩
    simp only [List.length_append, List.length_replicate, List.length_map] at hlength
    push_cast at hlength
    exact hlength
  · intro hlength
    refine ⟨k, _, rfl, rfl, ?_, ?_⟩
    · simp only [List.length_append, List.length_replicate, List.length_map]
      push_cast
      exact hlength
    · rw [value_charDigit hbase hsmall]
      split_ifs <;> omega

/-- A number that is found in the table is printed with its digits, and padded relative to
the index that was found. -/
theorem putNumber_eq (hbase : 1 < base) (leadingz negative : Bool) (f : ℤ) {p : ℕ}
    (hp : searchFrom guarded m 0 (powersFrom base 0 size) = p) (hlt : p < size)
    (hm : m < base ^ (p + 1)) :
    putNumber (powersFrom base 0 size) guarded leadingz negative m f =
      signOf negative ++ List.replicate (f - (signOf negative).length - 1 - p).toNat
        (lzchar leadingz) ++ (numeral base m).map digitChar := by
  have hdigits := digitsLoop_false hbase hlt hm
  have hfield : (if negative then f - 1 else f) = f - (signOf negative).length := by
    cases negative
    · exact (Int.sub_zero f).symm
    · rfl
  simp only [putNumber, hp, hfield, padding]
  rw [← hdigits]
  rfl

/-- Zero is not found when the index is not guarded. -/
theorem putNumber_zero (leadingz : Bool) (f : ℤ) :
    putNumber (powersFrom base 0 (size + 2)) false leadingz false 0 f =
      List.replicate f.toNat (lzchar leadingz) := by
  have hsearch : searchFrom false 0 0 (powersFrom base 0 (size + 2)) = -1 := by
    rw [powersFrom_succ, powersFrom_succ, searchFrom, pow_zero, if_pos Nat.one_pos]
    rfl
  have hfield : f - 1 - -1 = f := by ring
  simp only [putNumber, hsearch, padding, Bool.false_eq_true, if_false, hfield]
  simp [digitsLoop, signOf]

/-- Padding alone is zero with leading zeros, if it is not empty. -/
theorem printed_replicate_iff (hbase : 1 < base) (hsmall : base ≤ 16) (leadingz : Bool) {f : ℤ}
    (hf : 0 ≤ f) :
    Printed base (lzchar leadingz) 0 f (List.replicate f.toNat (lzchar leadingz)) ↔
      leadingz = true ∧ 1 ≤ f := by
  have hzero : (numeral base 0).map digitChar = [0x30] := rfl
  constructor
  · rintro ⟨k, digits, hout, rfl, hlength, -⟩
    change List.replicate f.toNat (lzchar leadingz) =
      List.replicate k (lzchar leadingz) ++ [0x30] at hout
    have hlast : (0x30 : Byte) ∈ List.replicate f.toNat (lzchar leadingz) := by
      rw [hout]
      exact List.mem_append_right _ (List.mem_singleton_self _)
    obtain ⟨hne, hpad⟩ := List.mem_replicate.mp hlast
    refine ⟨?_, by omega⟩
    cases leadingz
    · exact absurd hpad (by decide)
    · rfl
  · rintro ⟨rfl, hone⟩
    obtain ⟨n, hn⟩ : ∃ n, f.toNat = n + 1 := ⟨f.toNat - 1, by omega⟩
    have hout : List.replicate f.toNat (lzchar true) = signOf ((0 : ℤ) < 0) ++
        List.replicate n (lzchar true) ++ (numeral base (0 : ℤ).natAbs).map digitChar := by
      rw [hn, List.replicate_succ']
      rfl
    have hlength : (0 : ℤ) + n + 1 = max f (0 + 1) := by omega
    rw [hout, printed_iff_length hbase hsmall]
    exact hlength

/-- The index found for a number of `q + 1` digits: the last entry is not compared. -/
theorem searchFrom_eq (hbase : 1 < base) (hge : base ^ q ≤ m) (hlt : m < base ^ (q + 1))
    (hq : q < size + 2) :
    searchFrom guarded m 0 (powersFrom base 0 (size + 2)) =
      ((if q = size then size + 1 else q : ℕ) : ℤ) := by
  have hpos : 0 < base := Nat.lt_of_succ_lt hbase
  by_cases hlast : size ≤ q
  · have hmore : base ^ (0 + (size + 1)) ≤ m * base := by
      rw [Nat.zero_add, pow_succ]
      exact Nat.mul_le_mul_right base ((Nat.pow_le_pow_right hpos hlast).trans hge)
    rw [searchFrom_last hpos hmore]
    split_ifs with heq <;> omega
  · rw [searchFrom_above hpos hge hlt (Nat.zero_le q) (by omega), if_neg (by omega)]

/-- When the number is printed as it should be. -/
def FieldKept (base size : ℕ) (guarded leadingz : Bool) (value f : ℤ) : Prop :=
  (value ≠ 0 ∨ guarded = true ∨ (leadingz = true ∧ 1 ≤ f)) ∧
    ¬ (base ^ (size - 2) ≤ value.natAbs ∧ value.natAbs < base ^ (size - 1) ∧
      ((signOf (value < 0)).length + (size - 1) : ℤ) < f)

/-- A number other than zero. -/
theorem printed_putNumber_of_ne_zero (hbase : 1 < base) (hsmall : base ≤ 16) (leadingz : Bool)
    {value f : ℤ} (hvalue : value ≠ 0) (hm : value.natAbs < base ^ (size + 2)) :
    Printed base (lzchar leadingz) value f
        (putNumber (powersFrom base 0 (size + 2)) guarded leadingz (value < 0)
          value.natAbs f) ↔
      FieldKept base (size + 2) guarded leadingz value f := by
  have hpos : 0 < base := Nat.lt_of_succ_lt hbase
  have habs : value.natAbs ≠ 0 := Int.natAbs_ne_zero.mpr hvalue
  obtain ⟨q, hge, hlt⟩ : ∃ q, base ^ q ≤ value.natAbs ∧ value.natAbs < base ^ (q + 1) :=
    ⟨Nat.log base value.natAbs, Nat.pow_log_le_self base habs,
      Nat.lt_pow_succ_log_self hbase value.natAbs⟩
  have hq : q < size + 2 := (Nat.pow_lt_pow_iff_right hbase).mp (hge.trans_lt hm)
  have hlength : (numeral base value.natAbs).length = q + 1 := length_numeral hbase hge hlt
  have hfound : searchFrom guarded value.natAbs 0 (powersFrom base 0 (size + 2)) =
      ((if q = size then size + 1 else q : ℕ) : ℤ) := searchFrom_eq hbase hge hlt hq
  have hindex : (if q = size then size + 1 else q) < size + 2 := by split_ifs <;> omega
  have hbelow : value.natAbs < base ^ ((if q = size then size + 1 else q) + 1) := by
    refine hlt.trans_le (Nat.pow_le_pow_right hpos ?_)
    split_ifs <;> omega
  have hlast : (base ^ (size + 2 - 2) ≤ value.natAbs ∧ value.natAbs < base ^ (size + 2 - 1)) ↔
      q = size := by
    constructor
    · rintro ⟨hsize, hnext⟩
      have hle : q < size + 1 := (Nat.pow_lt_pow_iff_right hbase).mp (hge.trans_lt hnext)
      have hge' : size < q + 1 := (Nat.pow_lt_pow_iff_right hbase).mp (hsize.trans_lt hlt)
      omega
    · rintro rfl
      exact ⟨hge, hlt⟩
  rw [putNumber_eq hbase leadingz _ f hfound hindex hbelow, printed_iff_length hbase hsmall,
    hlength, FieldKept, and_iff_right (Or.inl hvalue), ← and_assoc, hlast]
  push_cast
  split_ifs <;> omega

/-- All numbers that the table has digits for. -/
theorem printed_putNumber_iff (size : ℕ) (guarded : Bool) (hbase : 1 < base)
    (hsmall : base ≤ 16) (leadingz : Bool)
    {value f : ℤ} (hf : 0 ≤ f) (hm : value.natAbs < base ^ (size + 2)) :
    Printed base (lzchar leadingz) value f
        (putNumber (powersFrom base 0 (size + 2)) guarded leadingz (value < 0)
          value.natAbs f) ↔
      FieldKept base (size + 2) guarded leadingz value f := by
  by_cases hvalue : value = 0
  swap
  · exact printed_putNumber_of_ne_zero hbase hsmall leadingz hvalue hm
  subst hvalue
  have hsmallest : ¬ (base ^ (size + 2 - 2) ≤ (0 : ℤ).natAbs ∧
      (0 : ℤ).natAbs < base ^ (size + 2 - 1) ∧
        ((signOf ((0 : ℤ) < 0)).length + ((size + 2 : ℕ) - 1) : ℤ) < f) := fun h =>
    absurd h.1 (Nat.not_le.mpr (Nat.pow_pos (Nat.lt_of_succ_lt hbase)))
  rw [FieldKept, and_iff_left hsmallest]
  cases guarded with
  | false =>
      have hout : putNumber (powersFrom base 0 (size + 2)) false leadingz ((0 : ℤ) < 0)
          (0 : ℤ).natAbs f = List.replicate f.toNat (lzchar leadingz) :=
        putNumber_zero leadingz f
      rw [hout, printed_replicate_iff hbase hsmall leadingz hf]
      simp
  | true =>
      have hfound : searchFrom true (0 : ℤ).natAbs 0 (powersFrom base 0 (size + 2)) =
          ((0 : ℕ) : ℤ) := by
        have hfirst : (0 : ℤ).natAbs < base ^ 0 := Nat.one_pos
        rw [powersFrom_succ, powersFrom_succ, searchFrom, if_pos hfirst, if_pos ⟨rfl, rfl⟩]
        rfl
      have hbelow : (0 : ℤ).natAbs < base ^ (0 + 1) :=
        Nat.pow_pos (Nat.lt_of_succ_lt hbase)
      have hlength : (numeral base (0 : ℤ).natAbs).length = 1 := rfl
      have hsign : (signOf ((0 : ℤ) < 0)).length = 0 := rfl
      rw [putNumber_eq hbase leadingz _ f hfound (by omega) hbelow,
        printed_iff_length hbase hsmall, hlength, hsign]
      push_cast
      refine iff_of_true (by omega) (Or.inr (Or.inl rfl))

/-! ## The routines -/

/-- The tables are those of the powers. -/
theorem tables :
    hex32Table = powersFrom 16 0 8 ∧ hex64Table = powersFrom 16 0 16 ∧
      dec32Table = powersFrom 10 0 10 ∧ dec64Table = powersFrom 10 0 20 :=
  ⟨by decide, by decide, by decide, by decide⟩

/-- The sign that is printed, and the number without it. -/
theorem signed_value {w : ℕ} (signedf : Bool) (d0 : BitVec w) :
    (signedf && d0.msb) = decide ((if signedf then d0.toInt else d0.toNat : ℤ) < 0) ∧
      magnitude (signedf && d0.msb) d0 =
        (if signedf then d0.toInt else d0.toNat : ℤ).natAbs := by
  cases signedf with
  | false => exact ⟨(decide_eq_false (by simp)).symm, rfl⟩
  | true =>
      simp only [Bool.true_and, if_true]
      refine ⟨BitVec.msb_eq_toInt, ?_⟩
      have hlt := d0.isLt
      rw [magnitude, BitVec.toInt_eq_msb_cond]
      cases hmsb : d0.msb with
      | false => rfl
      | true =>
          have hpos : 0 < d0.toNat := by
            rcases Nat.eq_zero_or_pos d0.toNat with hzero | hpos
            · rw [BitVec.eq_of_toNat_eq (x := d0) (y := 0#w) hzero, BitVec.msb_zero] at hmsb
              exact absurd hmsb Bool.false_ne_true
            · exact hpos
          simp only [if_true]
          rw [BitVec.toNat_neg, Nat.mod_eq_of_lt (by omega)]
          omega

theorem natAbs_signed_lt {w : ℕ} (signedf : Bool) (d0 : BitVec w) :
    (if signedf then d0.toInt else d0.toNat : ℤ).natAbs < 2 ^ w := by
  rw [← (signed_value signedf d0).2]
  exact BitVec.isLt _

theorem putdec64_eq (leadingz signedf : Bool) (d0 : BitVec 64) (f : ℤ) :
    putdec64 leadingz signedf d0 f =
      putNumber (powersFrom 10 0 20) false leadingz
        (decide ((if signedf then d0.toInt else d0.toNat : ℤ) < 0))
        (if signedf then d0.toInt else d0.toNat : ℤ).natAbs f := by
  obtain ⟨hsign, habs⟩ := signed_value signedf d0
  rw [putdec64, ← hsign, ← habs, tables.2.2.2]

theorem putdec32_eq (leadingz signedf : Bool) (d0 : BitVec 32) (f : ℤ) :
    putdec32 leadingz signedf d0 f =
      putNumber (powersFrom 10 0 10) true leadingz
        (decide ((if signedf then d0.toInt else d0.toNat : ℤ) < 0))
        (if signedf then d0.toInt else d0.toNat : ℤ).natAbs f := by
  obtain ⟨hsign, habs⟩ := signed_value signedf d0
  rw [putdec32, ← hsign, ← habs, tables.2.2.1]

theorem puthex64_eq (leadingz : Bool) (d0 : BitVec 64) (f : ℤ) :
    puthex64 leadingz d0 f =
      putNumber (powersFrom 16 0 16) false leadingz (decide ((d0.toNat : ℤ) < 0))
        (d0.toNat : ℤ).natAbs f := by
  rw [puthex64, tables.2.1, decide_eq_false (by omega)]
  rfl

theorem puthex32_eq (leadingz : Bool) (d0 : BitVec 32) (f : ℤ) :
    puthex32 leadingz d0 f =
      putNumber (powersFrom 16 0 8) false leadingz (decide ((d0.toNat : ℤ) < 0))
        (d0.toNat : ℤ).natAbs f := by
  rw [puthex32, tables.1, decide_eq_false (by omega)]
  rfl

/-- The routines print a value in its field unless the value is zero and only `putdec32`
takes care of it, or the value is one digit short of the longest and the field is longer
than it. -/
theorem number_output (routine : Routine) (leadingz signedf : Bool)
    (d0 : BitVec routine.width) {f : ℤ} (hf : 0 ≤ f) :
    Printed routine.base (lzchar leadingz) (routine.value signedf d0) f
        (routine.run leadingz signedf d0 f) ↔
      FieldKept routine.base routine.entries routine.guarded leadingz
        (routine.value signedf d0) f := by
  have hten : 1 < 10 ∧ 10 ≤ 16 := by decide
  have hsixteen : 1 < 16 ∧ 16 ≤ 16 := by decide
  cases routine with
  | putdec64 =>
      have hm := (natAbs_signed_lt signedf d0).trans_le
        (show 2 ^ 64 ≤ 10 ^ (18 + 2) by norm_num)
      rw [Routine.run, putdec64_eq]
      exact printed_putNumber_iff 18 false hten.1 hten.2 leadingz hf hm
  | puthex64 =>
      have hm : (d0.toNat : ℤ).natAbs < 16 ^ (14 + 2) := d0.isLt
      rw [Routine.run, puthex64_eq]
      exact printed_putNumber_iff 14 false hsixteen.1 hsixteen.2 leadingz hf hm
  | putdec32 =>
      have hm := (natAbs_signed_lt signedf d0).trans_le
        (show 2 ^ 32 ≤ 10 ^ (8 + 2) by norm_num)
      rw [Routine.run, putdec32_eq]
      exact printed_putNumber_iff 8 true hten.1 hten.2 leadingz hf hm
  | puthex32 =>
      have hm : (d0.toNat : ℤ).natAbs < 16 ^ (6 + 2) := d0.isLt
      rw [Routine.run, puthex32_eq]
      exact printed_putNumber_iff 6 false hsixteen.1 hsixteen.2 leadingz hf hm

/-- The number twelve in a field of five. -/
theorem number_output_twelve :
    Printed 10 0x20 12 5 (putdec32 false true 12 5) :=
  (number_output .putdec32 false true (12 : BitVec 32) (by decide)).mpr
    ⟨Or.inl (by decide), fun h => absurd h.1 (by decide)⟩

/-- Zero is not printed, and nine digits in a field of ten are not padded. -/
theorem not_printed_zero :
    puthex32 false 0 1 = [0x20] ∧
      ¬ Printed 16 0x20 0 1 (puthex32 false 0 1) ∧
      ¬ Printed 10 0x20 123456789 10 (putdec32 false false 123456789 10) := by
  have hzero : puthex32 false 0 1 = [0x20] := by
    rw [puthex32_eq]
    exact putNumber_zero false 1
  refine ⟨hzero, ?_, ?_⟩
  · rw [hzero]
    intro hprinted
    have hone := (printed_replicate_iff (by decide) (by decide) false (by decide)).mp hprinted
    exact absurd hone.1 (by decide)
  · rw [putdec32_eq]
    intro hprinted
    have hkept := (printed_putNumber_iff 8 true (by decide) (by decide) false
      (by decide) (by decide)).mp hprinted
    exact hkept.2 (by decide)

end Prazor.Crt.Number
