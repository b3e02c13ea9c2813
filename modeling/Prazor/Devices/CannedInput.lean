import Prazor.Devices.Uart64

/-!
# Canned input

Reads of the FIFO deliver the characters that an immediate string denotes, one each, and then
nothing, unless the string is empty or ends in the middle of an escape: then a read goes behind
the string or through the pointer that was cleared.
-/

namespace Prazor.Devices.Uart64

open Prazor.Tlm Prazor.Bytes

/-- `\` -/
def backslash : Byte := 0x5C

/-- The characters an immediate string stands for. -/
def denoted : List Byte → List Byte
  | [] => []
  | [c] => [c]
  | c :: d :: text => if c = backslash then decodeEscape d :: denoted text
      else c :: denoted (d :: text)

/-- The string ends after the backslash of an escape. -/
def Dangling : List Byte → Prop
  | [] => False
  | [c] => c = backslash
  | c :: d :: text => if c = backslash then Dangling text else Dangling (d :: text)

instance decidableDangling : ∀ text : List Byte, Decidable (Dangling text)
  | [] => .isFalse id
  | [c] => inferInstanceAs (Decidable (c = backslash))
  | c :: d :: text =>
      have := decidableDangling text
      have := decidableDangling (d :: text)
      inferInstanceAs (Decidable (if c = backslash then Dangling text else Dangling (d :: text)))

/-- A read of the FIFO over the bus. -/
def fifoRead : Payload where
  command := .read
  address := uart2Fifo.setWidth 64
  data := fun _ => 0
  dataLength := 4
  byteEnable := none
  byteEnableLength := 0
  llsc := none
  response := .incomplete

/-- What some reads of the FIFO return. -/
def fifoReads : ℕ → Uart64 → Option (List Byte × Uart64)
  | 0, s => some ([], s)
  | n + 1, s => do
      let (s, answer) ← s.bAccess fifoRead
      let (chars, s) ← fifoReads n s
      some (answer.data 0 :: chars, s)

/-- Any number of reads deliver the characters of a string, in order and once, and zeros behind
them; input is reported as long as some are left. -/
def Delivers (s : Uart64) (text : List Byte) : Prop :=
  ∀ n, ∃ s', fifoReads n s = some ((denoted text).take n ++
      List.replicate (n - (denoted text).length) 0, s') ∧
    (s'.testch ↔ n < (denoted text).length)

variable {s s' : Uart64} {text rest : List Byte} {c d : Byte} {i : ℕ}

/-! ## One read -/

theorem bAccess_fifoRead (s : Uart64) :
    s.bAccess fifoRead = s.rdchNonblock.map fun (r, s) =>
      (s, { fifoRead with
        data := memcpy 8 (bytes64 (r.setWidth 64 ||| (r.setWidth 64 <<< 32))) fifoRead.data
        response := .ok }) := by
  have hoffset : regOffset fifoRead = uart2Fifo := rfl
  rw [bAccess, hoffset]
  change ((s.readRegister uart2Fifo).map _) = _
  rw [readRegister, if_pos rfl, Option.map_map]
  rfl

/-- One read more. -/
theorem fifoReads_succ (n : ℕ) (hread : s.rdchNonblock = some (c, s')) :
    fifoReads (n + 1) s = (fifoReads n s').map fun (chars, s) => (c :: chars, s) := by
  rw [fifoReads, bAccess_fifoRead, hread]
  simp only [Option.map_some, Option.bind_eq_bind, Option.bind_some, data_answer]
  cases fifoReads n s' <;> rfl

theorem fifoReads_succ_none (n : ℕ) (hread : s.rdchNonblock = none) :
    fifoReads (n + 1) s = none := by
  rw [fifoReads, bAccess_fifoRead, hread]
  rfl

/-! ## The cursor -/

/-- The cursor is at the start of what is left of the string; it is null when nothing is left. -/
structure CursorAt (s : Uart64) (rest : List Byte) : Prop where
  noFile : s.cannedFd = none
  noNul : 0 ∉ rest
  cursor : if rest = [] then s.cannedInput = none
    else ∃ i, s.cannedInput = some i ∧ s.cannedText.drop i = rest

theorem CursorAt.nil (hcursor : CursorAt s []) : s.cannedInput = none := hcursor.cursor

theorem CursorAt.cons (hcursor : CursorAt s (c :: rest)) :
    ∃ i, s.cannedInput = some i ∧ s.cannedText.drop i = c :: rest := by
  have hfound := hcursor.cursor
  rwa [if_neg (List.cons_ne_nil c rest)] at hfound

/-- The character at a place, by what is left of the string there. -/
theorem cannedChar_of_drop (hdrop : s.cannedText.drop i = c :: rest) :
    s.cannedChar i = some c ∧ s.cannedChar (i + 1) = some (rest.headD 0) := by
  have hlength : s.cannedText.length = i + (rest.length + 1) := by
    have hrest := congrArg List.length hdrop
    simp only [List.length_drop, List.length_cons] at hrest
    omega
  have hat (k : ℕ) : s.cannedText[i + k]? = (c :: rest)[k]? := by
    rw [← hdrop, List.getElem?_drop]
  constructor
  · rw [cannedChar, List.getElem?_append_left (by omega)]
    exact hat 0
  · cases rest with
    | nil =>
        rw [cannedChar, List.getElem?_append_right (by simp [hlength])]
        simp [hlength]
    | cons d rest =>
        rw [cannedChar, List.getElem?_append_left (by simp [hlength])]
        exact hat 1

theorem nextCanned_eq (hat : s.cannedInput = some i) (hthis : s.cannedChar i = some c)
    (hfollowing : s.cannedChar (i + 1) = some d) :
    s.nextCanned =
      some (c, { s with cannedInput := if d = 0 then none else some (i + 1) }) := by
  rw [nextCanned, hat, Option.bind_eq_bind, Option.bind_some, hthis,
    Option.bind_eq_bind, Option.bind_some, hfollowing]
  rfl

/-- The cursor moves behind the next character. -/
theorem CursorAt.next (hcursor : CursorAt s (c :: rest)) :
    ∃ s', s.nextCanned = some (c, s') ∧ CursorAt s' rest ∧ s'.logged = s.logged := by
  obtain ⟨i, hat, hdrop⟩ := hcursor.cons
  obtain ⟨hthis, hfollowing⟩ := cannedChar_of_drop hdrop
  have hnoNul : 0 ∉ rest := fun hmem => hcursor.noNul (List.mem_cons_of_mem c hmem)
  refine ⟨_, nextCanned_eq hat hthis hfollowing, ⟨hcursor.noFile, hnoNul, ?_⟩, rfl⟩
  cases rest with
  | nil => rfl
  | cons d rest =>
      have hne : d ≠ 0 := fun hnul => hnoNul (hnul ▸ List.mem_cons_self)
      have hdrop' : s.cannedText.drop (i + 1) = d :: rest := by
        rw [← List.drop_drop, hdrop]
        rfl
      rw [if_neg (List.cons_ne_nil d rest)]
      exact ⟨i + 1, if_neg hne, hdrop'⟩

/-- A read behind the string. -/
theorem CursorAt.read_nil (hcursor : CursorAt s []) (hlogged : s.logged = 0) :
    s.rdchNonblock = some (0, s) := by
  rw [rdchNonblock, hcursor.nil]
  exact if_neg (not_not.mpr hlogged)

theorem CursorAt.rdchNonblock_eq (hcursor : CursorAt s (c :: rest)) :
    s.rdchNonblock = s.nextCanned.bind fun (r, s) =>
      if r = backslash then s.nextCanned.map fun (r, s) => (decodeEscape r, s)
      else some (r, s) := by
  obtain ⟨i, hat, -⟩ := hcursor.cons
  simp only [rdchNonblock, hat, hcursor.noFile, Option.map_eq_bind]
  rfl

/-- A read of a plain character. -/
theorem CursorAt.read_plain (hcursor : CursorAt s (c :: rest)) (hplain : c ≠ backslash) :
    ∃ s', s.rdchNonblock = some (c, s') ∧ CursorAt s' rest ∧ s'.logged = s.logged := by
  obtain ⟨s', hnext, hcursor', hlogged⟩ := hcursor.next
  refine ⟨s', ?_, hcursor', hlogged⟩
  rw [hcursor.rdchNonblock_eq, hnext]
  exact if_neg hplain

/-- A read of an escape. -/
theorem CursorAt.read_escape (hcursor : CursorAt s (backslash :: d :: rest)) :
    ∃ s', s.rdchNonblock = some (decodeEscape d, s') ∧ CursorAt s' rest ∧
      s'.logged = s.logged := by
  obtain ⟨s₁, hnext₁, hcursor₁, hlogged₁⟩ := hcursor.next
  obtain ⟨s₂, hnext₂, hcursor₂, hlogged₂⟩ := hcursor₁.next
  refine ⟨s₂, ?_, hcursor₂, hlogged₂.trans hlogged₁⟩
  calc s.rdchNonblock
      = s₁.nextCanned.map fun (r, s) => (decodeEscape r, s) := by
        rw [hcursor.rdchNonblock_eq, hnext₁, Option.bind_some]
        exact if_pos rfl
    _ = some (decodeEscape d, s₂) := by rw [hnext₂, Option.map_some]

/-- A read of a backslash that ends the string goes through the pointer that was cleared. -/
theorem CursorAt.read_dangling (hcursor : CursorAt s [backslash]) : s.rdchNonblock = none := by
  obtain ⟨s', hnext, hcursor', -⟩ := hcursor.next
  have hnull : s'.nextCanned = none := by
    rw [nextCanned, hcursor'.nil]
    rfl
  calc s.rdchNonblock
      = s'.nextCanned.map fun (r, s) => (decodeEscape r, s) := by
        rw [hcursor.rdchNonblock_eq, hnext, Option.bind_some]
        exact if_pos rfl
    _ = none := by rw [hnull, Option.map_none]

/-! ## All reads -/

theorem denoted_plain (hplain : c ≠ backslash) : denoted (c :: rest) = c :: denoted rest := by
  cases rest with
  | nil => rfl
  | cons d rest => rw [denoted, if_neg hplain]

theorem dangling_plain (hplain : c ≠ backslash) : Dangling (c :: rest) ↔ Dangling rest := by
  cases rest with
  | nil => simp [Dangling, hplain]
  | cons d rest => rw [Dangling, if_neg hplain]

theorem CursorAt.testch (hcursor : CursorAt s (c :: rest)) : s.testch = true := by
  obtain ⟨i, hat, -⟩ := hcursor.cons
  rw [Uart64.testch, hat]
  rfl

/-- A read delivers the first character and leaves the others to those behind it. -/
theorem delivers_cons (hread : s.rdchNonblock = some (c, s')) (htestch : s.testch = true)
    (hdenoted : denoted text = c :: denoted rest) : Delivers s text ↔ Delivers s' rest := by
  have hmore (n : ℕ) (t : Uart64) :
      (fifoReads (n + 1) s = some ((denoted text).take (n + 1) ++
        List.replicate (n + 1 - (denoted text).length) 0, t)) ↔
      (fifoReads n s' = some ((denoted rest).take n ++
        List.replicate (n - (denoted rest).length) 0, t)) := by
    rw [fifoReads_succ n hread, hdenoted, List.take_succ_cons, List.length_cons,
      Nat.add_sub_add_right, List.cons_append]
    cases fifoReads n s' with
    | none => simp
    | some reads => simp [Prod.ext_iff]
  have hlength : (denoted text).length = (denoted rest).length + 1 := by
    rw [hdenoted, List.length_cons]
  constructor
  · intro hdelivers n
    obtain ⟨t, hreads, hleft⟩ := hdelivers (n + 1)
    refine ⟨t, (hmore n t).mp hreads, ?_⟩
    rw [hleft, hlength, Nat.add_lt_add_iff_right]
  · intro hdelivers n
    cases n with
    | zero => exact ⟨s, by simp [fifoReads], by simp [htestch, hlength]⟩
    | succ n =>
        obtain ⟨t, hreads, hleft⟩ := hdelivers n
        refine ⟨t, (hmore n t).mpr hreads, ?_⟩
        rw [hleft, hlength, Nat.add_lt_add_iff_right]

/-- Behind the string there are only zeros. -/
theorem fifoReads_nil (hcursor : CursorAt s []) (hlogged : s.logged = 0) (n : ℕ) :
    fifoReads n s = some (List.replicate n 0, s) := by
  induction n with
  | zero => rfl
  | succ n ih =>
      rw [fifoReads_succ n (hcursor.read_nil hlogged), ih]
      rfl

theorem delivers_nil (hcursor : CursorAt s []) : Delivers s [] ↔ s.logged = 0 := by
  constructor
  · intro hdelivers
    obtain ⟨t, hreads, hleft⟩ := hdelivers 0
    cases hreads
    simpa [Uart64.testch, hcursor.nil, denoted] using hleft
  · intro hlogged n
    refine ⟨s, by simpa [denoted] using fifoReads_nil hcursor hlogged n, ?_⟩
    simp [Uart64.testch, hcursor.nil, hlogged, denoted]

/-- From any place of the string on, the rest is delivered when it does not end in the middle of
an escape. -/
theorem CursorAt.delivers (hcursor : CursorAt s rest) :
    Delivers s rest ↔ s.logged = 0 ∧ ¬Dangling rest := by
  induction rest using denoted.induct generalizing s with
  | case1 => simp [delivers_nil hcursor, Dangling]
  | case2 c =>
      by_cases hplain : c = backslash
      · subst hplain
        have hnone : fifoReads 1 s = none := fifoReads_succ_none 0 hcursor.read_dangling
        have hfails : ¬Delivers s [backslash] := by
          intro hdelivers
          obtain ⟨t, hreads, -⟩ := hdelivers 1
          rw [hnone] at hreads
          cases hreads
        simp [hfails, Dangling]
      · obtain ⟨s', hread, hcursor', hlogged⟩ := hcursor.read_plain hplain
        rw [delivers_cons hread hcursor.testch (denoted_plain hplain), delivers_nil hcursor',
          hlogged, dangling_plain hplain]
        simp [Dangling]
  | case3 d text ih =>
      obtain ⟨s', hread, hcursor', hlogged⟩ := hcursor.read_escape
      have hdenoted : denoted (backslash :: d :: text) = decodeEscape d :: denoted text := by
        rw [denoted, if_pos rfl]
      have hdangling : Dangling (backslash :: d :: text) ↔ Dangling text := by
        rw [Dangling, if_pos rfl]
      rw [delivers_cons hread hcursor.testch hdenoted, ih hcursor', hlogged, hdangling]
  | case4 c d text hplain ih =>
      obtain ⟨s', hread, hcursor', hlogged⟩ := hcursor.read_plain hplain
      rw [delivers_cons hread hcursor.testch (denoted_plain hplain), ih hcursor', hlogged,
        dangling_plain hplain]

/-! ## A registered string -/

/-- An immediate string is delivered exactly when it has a character, does not end in the middle
of an escape, and no other character waits. -/
theorem registered_delivers (s : Uart64) (text file : List Byte) (hnul : 0 ∉ text)
    (hslash : text.head? ≠ some 0x2F) (hdot : text.head? ≠ some 0x2E)
    (hfile : s.cannedFd = none) :
    Delivers (s.registerCannedInput text file) text ↔
      text ≠ [] ∧ ¬Dangling text ∧ s.logged = 0 := by
  by_cases hempty : text = []
  · subst hempty
    have hfails : ¬Delivers (s.registerCannedInput [] file) [] := by
      intro hdelivers
      obtain ⟨t, hreads, hleft⟩ := hdelivers 0
      cases hreads
      simp [Uart64.testch, registerCannedInput, denoted] at hleft
    simp [hfails]
  · have hcursor : CursorAt (s.registerCannedInput text file) text := by
      refine ⟨?_, hnul, ?_⟩
      · exact (if_neg (not_or.mpr ⟨hslash, hdot⟩)).trans hfile
      · rw [if_neg hempty]
        exact ⟨0, rfl, List.drop_zero⟩
    rw [hcursor.delivers]
    have hlogged : (s.registerCannedInput text file).logged = s.logged := rfl
    rw [hlogged]
    simp [hempty, and_comm]

/-- A string with the escape of a newline in it. -/
theorem registered_delivers_escape :
    Delivers ((new 0).registerCannedInput [0x61, 0x5C, 0x6E, 0x62] [])
      [0x61, 0x5C, 0x6E, 0x62] :=
  (registered_delivers (new 0) [0x61, 0x5C, 0x6E, 0x62] [] (by decide) (by decide) (by decide)
    rfl).mpr ⟨by decide, by decide, rfl⟩

/-- Of the string of one backslash the first read goes through the null pointer, and of the empty
string it goes behind the NUL. -/
theorem not_registered_delivers :
    ¬∀ text : List Byte, 0 ∉ text → text.head? ≠ some 0x2F → text.head? ≠ some 0x2E →
      Delivers ((new 0).registerCannedInput text []) text := by
  intro hdelivers
  obtain ⟨t, hreads, -⟩ := hdelivers [0x5C] (by decide) (by decide) (by decide) 1
  have hnone : fifoReads 1 ((new 0).registerCannedInput [0x5C] []) = none := rfl
  rw [hnone] at hreads
  cases hreads

end Prazor.Devices.Uart64
