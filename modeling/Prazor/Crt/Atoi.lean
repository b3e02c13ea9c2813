import Prazor.Core.Numerals
import Prazor.Crt.Strings

/-!
# `atoi` and `atol`

One loop reads decimal digits, an `x` anywhere and hexadecimal letters in every base.  So a
decimal number that a hexadecimal letter or an `x` follows is read on, and so is a
hexadecimal one that another `x` follows.  The loop that skips leading spaces skips the NUL
too.

Whether a `char` has a sign is left open.  `atol` also compares with a small `x`, which only
the byte 0x98 gives, as an unsigned `char`.
-/

namespace Prazor.Crt.Atoi

open Prazor.Numerals

/-! ## The functions -/

/-- `c >= '0' && c <= '9'` -/
def isDigit (c : Byte) : Bool := 0x30 ≤ c && c ≤ 0x39

/-- `if (c >= 'a') c = c - 32;` -/
def upper (signedChar : Bool) (c : Byte) : Byte :=
  if (if signedChar then (0x61 : Byte).sle c else decide (0x61 ≤ c)) then c - 32 else c

/-- `while (*s == ' ' || *s == 0) s++;` -/
def skipLoop : List Byte → Option (List Byte)
  | [] => none
  | c :: s => if c = 0x20 ∨ c = 0 then skipLoop s else some (c :: s)

/-- The loop over the characters, `isX` being the comparison for a change of the base.  The
result is the number and the string from the character on that has ended the loop. -/
def scanLoop (isX : Byte → Bool) (signedChar : Bool) :
    List Byte → BitVec 32 → BitVec 32 → Option (BitVec 32 × List Byte)
  | [], _, _ => none
  | c :: s, r, base =>
      if isDigit c then scanLoop isX signedChar s (r * base + c.setWidth 32 - 0x30) base
      else if isX (upper signedChar c) then scanLoop isX signedChar s r 16
      else if 10 ≤ base ∧ 0x41 ≤ upper signedChar c ∧ upper signedChar c ≤ 0x46 then
        scanLoop isX signedChar s (r * base + (upper signedChar c).setWidth 32 - 55) base
      else some (r, c :: s)

/-- The scan of a string that is not `NULL`. -/
def scan (isX : Byte → Bool) (signedChar : Bool) (s : List Byte) :
    Option (BitVec 32 × List Byte) :=
  (skipLoop s).bind fun s => scanLoop isX signedChar s 0 10

/-- Either function; `NULL` gives 0. -/
def convert (isX : Byte → Bool) (signedChar : Bool) : Option (List Byte) → Option (BitVec 32)
  | none => some 0
  | some s => (scan isX signedChar s).map Prod.fst

def atoiX (c : Byte) : Bool := c == 0x58

def atolX (c : Byte) : Bool := c == 0x58 || c == 0x78

/-- `atoi` -/
def atoi : Bool → Option (List Byte) → Option (BitVec 32) := convert atoiX

/-- `atol`, whose `long` has 32 bits -/
def atol : Bool → Option (List Byte) → Option (BitVec 32) := convert atolX

/-! ## The number at the start of a string -/

def isHexLetter (c : Byte) : Bool := (0x41 ≤ c && c ≤ 0x46) || (0x61 ≤ c && c ≤ 0x66)

def isHexDigit (c : Byte) : Bool := isDigit c || isHexLetter c

def digitValue (c : Byte) : ℕ :=
  if isDigit c then c.toNat - 0x30 else if c ≤ 0x46 then c.toNat - 55 else c.toNat - 87

/-- A number in a string: its base, its digits and what follows them. -/
structure Number where
  base : ℕ
  digits : List Byte
  rest : List Byte

def Number.value (number : Number) : ℕ :=
  Numerals.value number.base (number.digits.map digitValue)

/-- What follows a `0x`. -/
def afterPrefix : List Byte → Option (List Byte)
  | zero :: x :: rest => if zero = 0x30 ∧ (x = 0x78 ∨ x = 0x58) then some rest else none
  | _ => none

/-- The number at the start of a text without leading spaces. -/
def numberOf (text : List Byte) : Number :=
  match afterPrefix text with
  | some rest => ⟨16, rest.takeWhile isHexDigit, rest.dropWhile isHexDigit⟩
  | none => ⟨10, text.takeWhile isDigit, text.dropWhile isDigit⟩

def skipSpaces (text : List Byte) : List Byte := text.dropWhile (· == 0x20)

/-- The scan gives the number that the string starts with and stops behind its digits. -/
def Reads (isX : Byte → Bool) (signedChar : Bool) (s : CString) : Prop :=
  scan isX signedChar s.terminated =
    some (BitVec.ofNat 32 (numberOf (skipSpaces s.chars)).value,
      (numberOf (skipSpaces s.chars)).rest ++ [0])

/-- The string has more than spaces, and behind the digits of its number stands nothing that
changes the base and no hexadecimal letter. -/
def Plain (marks : Byte → Bool) (s : CString) : Prop :=
  skipSpaces s.chars ≠ [] ∧ ∀ c ∈ (numberOf (skipSpaces s.chars)).rest.head?,
    marks c = false ∧ isHexLetter c = false

/-! ## The characters -/

/-- The characters that change the base in `atoi`. -/
def atoiMarks (c : Byte) : Bool := c == 0x58 || c == 0x78

def atolMarks (signedChar : Bool) (c : Byte) : Bool :=
  atoiMarks c || (!signedChar && c == 0x98)

set_option maxRecDepth 4000 in
theorem atoiX_upper : ∀ (signedChar : Bool) (c : Byte),
    atoiX (upper signedChar c) = atoiMarks c := by
  decide

set_option maxRecDepth 4000 in
theorem atolX_upper : ∀ (signedChar : Bool) (c : Byte),
    atolX (upper signedChar c) = atolMarks signedChar c := by
  decide

set_option maxRecDepth 4000 in
theorem upper_letter : ∀ (signedChar : Bool) (c : Byte),
    decide (0x41 ≤ upper signedChar c ∧ upper signedChar c ≤ 0x46) = isHexLetter c := by
  decide

theorem digit_word : ∀ c : Byte, isDigit c = true →
    c.setWidth 32 - 0x30 = BitVec.ofNat 32 (digitValue c) := by
  decide

set_option maxRecDepth 4000 in
theorem letter_word : ∀ (signedChar : Bool) (c : Byte), isHexLetter c = true →
    (upper signedChar c).setWidth 32 - 55 = BitVec.ofNat 32 (digitValue c) := by
  decide

theorem add_sub_word (a b c : BitVec 32) : a + b - c = a + (b - c) := by
  rw [BitVec.sub_eq_add_neg, BitVec.sub_eq_add_neg, BitVec.add_assoc]

/-! ## The loop -/

section Loop

variable {isX marks : Byte → Bool} {signedChar : Bool}
variable (hmarks : ∀ c, isX (upper signedChar c) = marks c)
variable (hletters : ∀ c, isHexLetter c = true → marks c = false)

include hmarks hletters in
/-- A digit or a hexadecimal letter is taken in either base. -/
theorem scanLoop_digit {c : Byte} (hdigit : isHexDigit c = true) {base : BitVec 32}
    (hbase : 10 ≤ base) (s : List Byte) (r : BitVec 32) :
    scanLoop isX signedChar (c :: s) r base =
      scanLoop isX signedChar s (r * base + BitVec.ofNat 32 (digitValue c)) base := by
  cases hdecimal : isDigit c with
  | true => rw [scanLoop, if_pos hdecimal, add_sub_word, digit_word c hdecimal]
  | false =>
      have hletter : isHexLetter c = true := by
        rw [isHexDigit, hdecimal, Bool.false_or] at hdigit
        exact hdigit
      have hrange : 0x41 ≤ upper signedChar c ∧ upper signedChar c ≤ 0x46 :=
        of_decide_eq_true ((upper_letter signedChar c).trans hletter)
      have hmark : ¬isX (upper signedChar c) = true := by
        rw [hmarks, hletters c hletter]
        exact Bool.false_ne_true
      rw [scanLoop, hdecimal, if_neg Bool.false_ne_true, if_neg hmark, if_pos ⟨hbase, hrange⟩,
        add_sub_word, letter_word signedChar c hletter]

include hmarks hletters in
/-- The digits of a number are taken one after another. -/
theorem scanLoop_digits {digits : List Byte} (hdigits : ∀ c ∈ digits, isHexDigit c = true)
    {b : ℕ} (hbase : 10 ≤ BitVec.ofNat 32 b) (s : List Byte) (n : ℕ) :
    scanLoop isX signedChar (digits ++ s) (BitVec.ofNat 32 n) (BitVec.ofNat 32 b) =
      scanLoop isX signedChar s
        (BitVec.ofNat 32 ((digits.map digitValue).foldl (fun sum d => sum * b + d) n))
        (BitVec.ofNat 32 b) := by
  induction digits generalizing n with
  | nil => rfl
  | cons c digits ih =>
      have hnext : BitVec.ofNat 32 n * BitVec.ofNat 32 b + BitVec.ofNat 32 (digitValue c) =
          BitVec.ofNat 32 (n * b + digitValue c) := by
        rw [BitVec.ofNat_add, BitVec.ofNat_mul]
      rw [List.cons_append, scanLoop_digit hmarks hletters (hdigits c List.mem_cons_self) hbase,
        hnext, ih fun d hd => hdigits d (List.mem_cons_of_mem c hd)]
      rfl

include hmarks in
/-- Any other character ends the loop. -/
theorem scanLoop_stop {c : Byte} (hdigit : isDigit c = false) (hmark : marks c = false)
    (hletter : isHexLetter c = false) (s : List Byte) (r base : BitVec 32) :
    scanLoop isX signedChar (c :: s) r base = some (r, c :: s) := by
  have hnotMark : ¬isX (upper signedChar c) = true := by
    rw [hmarks, hmark]
    exact Bool.false_ne_true
  have hrange : ¬(10 ≤ base ∧ 0x41 ≤ upper signedChar c ∧ upper signedChar c ≤ 0x46) := by
    rintro ⟨-, hin⟩
    have htrue := decide_eq_true hin
    rw [upper_letter, hletter] at htrue
    exact Bool.false_ne_true htrue
  rw [scanLoop, hdigit, if_neg Bool.false_ne_true, if_neg hnotMark, if_neg hrange]

/-- The loop does not go back. -/
theorem length_scanLoop (s : List Byte) (r base : BitVec 32) {value : BitVec 32}
    {rest : List Byte} (hscan : scanLoop isX signedChar s r base = some (value, rest)) :
    rest.length ≤ s.length := by
  induction s generalizing r base with
  | nil => cases hscan
  | cons c s ih =>
      rw [scanLoop] at hscan
      split_ifs at hscan
      · exact (ih _ _ hscan).trans (Nat.le_succ _)
      · exact (ih _ _ hscan).trans (Nat.le_succ _)
      · exact (ih _ _ hscan).trans (Nat.le_succ _)
      · rw [Option.some.injEq, Prod.mk.injEq] at hscan
        rw [← hscan.2]

include hmarks in
/-- A character that changes the base, or a hexadecimal letter, does not end the loop. -/
theorem scanLoop_goes_on {c : Byte} (hgoes : marks c = true ∨ isHexLetter c = true)
    {base : BitVec 32} (hbase : 10 ≤ base) (s : List Byte) (r value : BitVec 32) :
    scanLoop isX signedChar (c :: s) r base ≠ some (value, c :: s) := by
  intro hscan
  have hshort : ∀ r' base', scanLoop isX signedChar s r' base' ≠ some (value, c :: s) := by
    intro r' base' h
    exact absurd (length_scanLoop s r' base' h) (Nat.not_succ_le_self s.length)
  rw [scanLoop] at hscan
  split_ifs at hscan with hdigit hmark hrange
  · exact hshort _ _ hscan
  · exact hshort _ _ hscan
  · exact hshort _ _ hscan
  · rcases hgoes with hmarked | hletter
    · exact hmark ((hmarks c).trans hmarked)
    · exact hrange ⟨hbase, of_decide_eq_true ((upper_letter signedChar c).trans hletter)⟩

end Loop

/-! ## The result -/

theorem skipLoop_terminated {text : List Byte} (htext : 0 ∉ text) :
    skipLoop (text ++ [0]) =
      if skipSpaces text = [] then none else some (skipSpaces text ++ [0]) := by
  induction text with
  | nil => rfl
  | cons c text ih =>
      rw [List.mem_cons, not_or] at htext
      by_cases hspace : c = 0x20
      · have hskip : skipSpaces (c :: text) = skipSpaces text :=
          List.dropWhile_cons_of_pos (by rw [hspace]; rfl)
        rw [List.cons_append, skipLoop, if_pos (Or.inl hspace), ih htext.2, hskip]
      · have hskip : skipSpaces (c :: text) = c :: text :=
          List.dropWhile_cons_of_neg (by rw [beq_iff_eq]; exact hspace)
        have hstop : ¬(c = 0x20 ∨ c = 0) := fun h =>
          h.elim hspace fun hzero => htext.1 hzero.symm
        rw [List.cons_append, skipLoop, if_neg hstop, hskip, if_neg (List.cons_ne_nil c text)]
        rfl

theorem not_isDigit_head {text : List Byte} {p : Byte → Bool} {c : Byte}
    (hhead : c ∈ (text.dropWhile p).head?) : p c = false := by
  have hnot := List.head?_dropWhile_not p text
  rw [Option.mem_def] at hhead
  rw [hhead] at hnot
  simpa using hnot

theorem afterPrefix_eq_some {text rest : List Byte} (hmarker : afterPrefix text = some rest) :
    ∃ x, text = 0x30 :: x :: rest ∧ (x = 0x78 ∨ x = 0x58) := by
  cases text with
  | nil => cases hmarker
  | cons zero text =>
      cases text with
      | nil => cases hmarker
      | cons x text =>
          rw [afterPrefix] at hmarker
          split_ifs at hmarker with hmarked
          obtain rfl : text = rest := Option.some.inj hmarker
          exact ⟨x, by rw [hmarked.1], hmarked.2⟩

section Result

variable {isX marks : Byte → Bool} {signedChar : Bool} {s : CString}

/-- The scan of a text comes to what stands behind the digits of its number. -/
theorem scan_eq (hmarks : ∀ c, isX (upper signedChar c) = marks c)
    (hletters : ∀ c, isHexLetter c = true → marks c = false)
    (hx : marks 0x58 = true ∧ marks 0x78 = true) (hne : skipSpaces s.chars ≠ []) :
    ∃ base, 10 ≤ base ∧ scan isX signedChar s.terminated =
      scanLoop isX signedChar ((numberOf (skipSpaces s.chars)).rest ++ [0])
        (BitVec.ofNat 32 (numberOf (skipSpaces s.chars)).value) base := by
  have hskip : scan isX signedChar s.terminated =
      scanLoop isX signedChar (skipSpaces s.chars ++ [0]) 0 10 := by
    rw [scan, CString.terminated, skipLoop_terminated s.nonzero, if_neg hne, Option.bind_some]
  rw [hskip]
  cases hmarker : afterPrefix (skipSpaces s.chars) with
  | none =>
      have hdigits : ∀ c ∈ (skipSpaces s.chars).takeWhile isDigit, isHexDigit c = true := by
        intro c hc
        rw [isHexDigit, List.mem_takeWhile_imp hc, Bool.true_or]
      have hsplit : skipSpaces s.chars ++ [0] = (skipSpaces s.chars).takeWhile isDigit ++
          ((skipSpaces s.chars).dropWhile isDigit ++ [0]) := by
        rw [← List.append_assoc, List.takeWhile_append_dropWhile]
      refine ⟨BitVec.ofNat 32 10, by decide, ?_⟩
      rw [hsplit, numberOf, hmarker]
      exact scanLoop_digits hmarks hletters hdigits (by decide) _ 0
  | some rest =>
      obtain ⟨x, htext, hmarked⟩ := afterPrefix_eq_some hmarker
      have hmark : isX (upper signedChar x) = true := by
        rw [hmarks]
        rcases hmarked with rfl | rfl
        · exact hx.2
        · exact hx.1
      have hnotDigit : isDigit x = false := by
        rcases hmarked with rfl | rfl <;> rfl
      have hdigits : ∀ c ∈ rest.takeWhile isHexDigit, isHexDigit c = true := fun c hc =>
        List.mem_takeWhile_imp hc
      have hsplit : rest ++ [0] =
          rest.takeWhile isHexDigit ++ (rest.dropWhile isHexDigit ++ [0]) := by
        rw [← List.append_assoc, List.takeWhile_append_dropWhile]
      have hstart : scanLoop isX signedChar (skipSpaces s.chars ++ [0]) 0 10 =
          scanLoop isX signedChar (rest ++ [0]) 0 16 := by
        rw [htext, List.cons_append, List.cons_append,
          scanLoop_digit hmarks hletters rfl (by decide), scanLoop, hnotDigit,
          if_neg Bool.false_ne_true, if_pos hmark]
        rfl
      refine ⟨BitVec.ofNat 32 16, by decide, ?_⟩
      rw [hstart, hsplit, numberOf, hmarker]
      exact scanLoop_digits hmarks hletters hdigits (by decide) _ 0

/-- What a scan comes to, exactly. -/
theorem reads_iff (hmarks : ∀ c, isX (upper signedChar c) = marks c)
    (hletters : ∀ c, isHexLetter c = true → marks c = false)
    (hx : marks 0x58 = true ∧ marks 0x78 = true) (hnul : marks 0 = false) (s : CString) :
    Reads isX signedChar s ↔ Plain marks s := by
  by_cases hempty : skipSpaces s.chars = []
  · have hscan : scan isX signedChar s.terminated = none := by
      rw [scan, CString.terminated, skipLoop_terminated s.nonzero, if_pos hempty,
        Option.bind_none]
    rw [Reads, hscan]
    constructor
    · intro h
      cases h
    · exact fun h => absurd hempty h.1
  · obtain ⟨base, hbase, hscan⟩ := @scan_eq isX marks signedChar s hmarks hletters hx hempty
    rw [Reads, hscan, Plain, and_iff_right hempty]
    have hnotDigit : ∀ c ∈ (numberOf (skipSpaces s.chars)).rest.head?, isDigit c = false := by
      intro c hc
      rw [numberOf] at hc
      cases hmarker : afterPrefix (skipSpaces s.chars) with
      | none =>
          rw [hmarker] at hc
          exact not_isDigit_head hc
      | some rest =>
          rw [hmarker] at hc
          have hnot : isHexDigit c = false := not_isDigit_head hc
          rw [isHexDigit, Bool.or_eq_false_iff] at hnot
          exact hnot.1
    cases hrest : (numberOf (skipSpaces s.chars)).rest with
    | nil =>
        have hstop : scanLoop isX signedChar [0]
            (BitVec.ofNat 32 (numberOf (skipSpaces s.chars)).value) base =
              some (BitVec.ofNat 32 (numberOf (skipSpaces s.chars)).value, [0]) :=
          scanLoop_stop hmarks rfl hnul rfl [] _ base
        exact iff_of_true hstop fun c hc => absurd hc (Option.not_mem_none c)
    | cons c rest =>
        rw [hrest] at hnotDigit
        constructor
        · intro hreads c' hc'
          obtain rfl : c = c' := Option.some.inj hc'
          by_contra hgoes
          rw [not_and_or, Bool.not_eq_false, Bool.not_eq_false] at hgoes
          exact scanLoop_goes_on hmarks hgoes hbase _ _ _ hreads
        · intro hplain
          have hc := hplain c rfl
          exact scanLoop_stop hmarks (hnotDigit c rfl) hc.1 hc.2 _ _ base

end Result

/-- A function that returns the number at the start of a string and stops behind its
digits. -/
structure Correct (isX : Byte → Bool) (signedChar : Bool) (s : CString) : Prop where
  value : convert isX signedChar (some s.terminated) =
    some (BitVec.ofNat 32 (numberOf (skipSpaces s.chars)).value)
  stops : (scan isX signedChar s.terminated).map Prod.snd =
    some ((numberOf (skipSpaces s.chars)).rest ++ [0])

theorem correct_iff_reads (isX : Byte → Bool) (signedChar : Bool) (s : CString) :
    Correct isX signedChar s ↔ Reads isX signedChar s := by
  constructor
  · rintro ⟨hvalue, hstops⟩
    rw [convert] at hvalue
    rw [Reads]
    cases hscan : scan isX signedChar s.terminated with
    | none =>
        rw [hscan] at hvalue
        cases hvalue
    | some result =>
        rw [hscan, Option.map_some, Option.some.injEq] at hvalue hstops
        rw [← hvalue, ← hstops]
  · intro hreads
    rw [Reads] at hreads
    exact ⟨by rw [convert, hreads, Option.map_some], by rw [hreads, Option.map_some]⟩

/-- `atoi` and `atol` read the number that a string starts with, exactly if the string has
more than spaces and neither a hexadecimal letter nor a change of the base follows the
digits. -/
theorem correct_iff (signedChar : Bool) (s : CString) :
    (Correct atoiX signedChar s ↔ Plain atoiMarks s) ∧
      (Correct atolX signedChar s ↔ Plain (atolMarks signedChar) s) := by
  constructor
  · rw [correct_iff_reads]
    apply reads_iff (atoiX_upper signedChar) _ ⟨rfl, rfl⟩ rfl
    decide
  · rw [correct_iff_reads]
    apply reads_iff (atolX_upper signedChar)
    · revert signedChar
      decide
    · cases signedChar <;> exact ⟨rfl, rfl⟩
    · cases signedChar <;> rfl

/-- `12A` is 130, and the empty string is read behind its NUL. -/
theorem not_correct :
    ¬∀ (signedChar : Bool) (s : CString),
      Correct atoiX signedChar s ∧ Correct atolX signedChar s := by
  intro hall
  have hvalue := (hall false ⟨[0x31, 0x32, 0x41], by decide⟩).1.value
  exact absurd hvalue (by decide)

example (signedChar : Bool) : atoi signedChar (some [0]) = none := rfl

end Prazor.Crt.Atoi
