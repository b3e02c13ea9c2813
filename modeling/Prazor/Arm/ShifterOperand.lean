import Prazor.Core.Shifts
import Prazor.Arm.Alu

/-!
# The second operand

A rotated immediate or a shifted register, with the carry that the shifter leaves
for the logical operations, as the decoder finds them and as the architecture
has them.  The two differ where one routine serves immediate and register shifts,
and where an immediate leaves no carry at all.
-/

namespace Prazor.Arm

open Shifts

/-- The shifter: the operand and its carry out. -/
def shiftOperand (type : ℕ) (rm : BitVec 32) (shift : ℕ) (cFlag : Bool) :
    Option (BitVec 32 × Bool) :=
  match type with
  | 0 =>
      -- logical left
      some (if shift = 0 then (rm, cFlag)
        else if 31 < shift then (0, bit rm 0)
        else (rm <<< shift, bit rm (32 - shift)))
  | 1 =>
      -- logical right
      some (if shift = 0 then (rm, cFlag)
        else if 31 < shift then (0, bit rm 31)
        else (rm >>> shift, bit rm (shift - 1)))
  | 2 =>
      -- arithmetic right
      some (if shift = 0 then (rm, cFlag)
        else if 31 < shift then (0 - flagWord (bit rm 31), bit rm 31)
        else (rm >>> shift |||
            (if bit rm 31 then ((0xFFFFFFFF : BitVec 64) <<< (32 - shift)).setWidth 32
              else 0),
          bit rm (shift - 1)))
  | 3 =>
      -- rotate right
      let shift := shift &&& 31
      some (if shift = 0 then (rm, cFlag) else (ror rm shift, bit rm (shift - 1)))
  | _ => none

namespace Armisa

variable {s s' : Armisa}

/-- The shift that the fields ask for.  By a register, the amount is its bottom byte
and the PC reads one word later. -/
def execShiftOperandInstr (s : Armisa) : Option Armisa := do
  let rm ← s.reg? s.insRm
  let (shift, rm) :=
    if s.insShiftComputed then
      ((s.insShiftValue &&& 255).toNat, if s.insRm = 15 then rm + 4 else rm)
    else (s.insShiftValue.toNat, rm)
  let out ← shiftOperand s.insShiftType rm shift s.cFlag
  return { s with insAluOperand2 := out.1, insShiftCarryOut := out.2 }

/-- Determine the second operand, of an immediate or of a shifted register. -/
def decodeOperand2 (s : Armisa) : Option Armisa := do
  let instr := s.instruction
  let s := { s with insDecodeT := .aluT, insShiftCarryOut := false }
  if bit instr 25 then
    let rotate := 2 * (bits4 instr 8).toNat
    return { s with insAluOperand2 := ror (bits instr 0 8) rotate }
  else
    let s := { s with
      insRm := (bits4 instr 0).toNat
      insShiftType := (bits instr 5 2).toNat
      insShiftComputed := bit instr 4 }
    if bit instr 4 then
      guard (bit instr 7 = false)
      let value ← s.reg? (bits4 instr 8).toNat
      execShiftOperandInstr { s with
        insShiftValue := value, insRs := (bits4 instr 8).toNat }
    else execShiftOperandInstr { s with insShiftValue := bits instr 7 5 }

/-- MOV and MOVS of a register rotated through the carry are done by the decoder. -/
def isMovRrx (instr : BitVec 32) : Bool := decide (instr &&& 0xFEF0FF0 = 0x1A00060)

def decodeMovRrx (s : Armisa) : Option Armisa := do
  let instr := s.instruction
  let rd := (bits4 instr 12).toNat
  let rm ← s.reg? (bits4 instr 0).toNat
  let result := flagAt s.cFlag 31 ||| (rm >>> 1)
  let s ← { s with insRd := rd, insAluResult := result }.setReg? rd result
  guard (rd ≠ 15)
  let s ← if bit instr 20 then s.updateFlags .arith32 (bit rm 0) s.vFlag else some s
  return { s with insDecodeT := .arm32ExecutedT }

/-- The decoder's table of ALU operations, for the instructions that are in it. -/
def decodeDataProcessing (s : Armisa) : Option Armisa := do
  let s := s.decodeFields
  if isMovRrx s.instruction then s.decodeMovRrx
  else
    let s ← s.decodeOperand2
    let operand1 ← s.reg? s.insRn
    return { s with
      insALUOpcode := (bits4 s.instruction 21).toNat, insAluOperand1 := operand1 }

end Armisa

/-- The shift of a register by an immediate: LSR and ASR by 0 stand for 32 and ROR by
0 for the rotation through the carry. -/
def shiftByImmediate (type : ShiftType) (rm : BitVec 32) (imm5 : ℕ) (carryIn : Bool) :
    BitVec 32 × Bool :=
  match type with
  | .lsl => shiftC .lsl rm imm5 carryIn
  | .lsr => shiftC .lsr rm (if imm5 = 0 then 32 else imm5) carryIn
  | .asr => shiftC .asr rm (if imm5 = 0 then 32 else imm5) carryIn
  | .ror => if imm5 = 0 then rrxC (w := 31) rm carryIn else shiftC .ror rm imm5 carryIn

/-- The field of bits 6 and 5 for a kind of shift. -/
def shiftField : ShiftType → ℕ
  | .lsl => 0
  | .lsr => 1
  | .asr => 2
  | .ror => 3

/-- The kind of shift in bits 6 and 5. -/
def shiftTypeOf (instr : BitVec 32) : ShiftType :=
  match bit instr 6, bit instr 5 with
  | false, false => .lsl
  | false, true => .lsr
  | true, false => .asr
  | true, true => .ror

/-- The second operand of the architecture, from the values of the registers that
the instruction names and the carry flag. -/
def architecturalOperand2 (instr rm rs : BitVec 32) (carryIn : Bool) : BitVec 32 × Bool :=
  if bit instr 25 then
    shiftC .ror (bits instr 0 8) (2 * (bits4 instr 8).toNat) carryIn
  else if bit instr 4 then
    shiftC (shiftTypeOf instr) rm (rs &&& 255).toNat carryIn
  else shiftByImmediate (shiftTypeOf instr) rm (bits instr 7 5).toNat carryIn

/-- A word of copies of one bit. -/
def fill (b : Bool) : BitVec 32 := if b then BitVec.allOnes 32 else 0

/-- The shifts by a register that the shifter gets right. -/
def RegisterShiftAgrees (type : ShiftType) (rm : BitVec 32) (amount : ℕ)
    (carryIn : Bool) : Prop :=
  match type with
  | .lsl => amount ≤ 32 ∨ bit rm 0 = false
  | .lsr => amount ≤ 32 ∨ bit rm 31 = false
  | .asr => True
  | .ror => amount = 0 ∨ amount % 32 ≠ 0 ∨ bit rm 31 = carryIn

/-- The shifts by an immediate that the shifter gets right. -/
def ImmediateShiftAgrees (type : ShiftType) (rm : BitVec 32) (imm5 : ℕ)
    (carryIn : Bool) : Prop :=
  match type with
  | .lsl => True
  | .lsr => imm5 ≠ 0 ∨ (rm = 0 ∧ carryIn = false)
  | .asr | .ror => imm5 ≠ 0 ∨ rm = fill carryIn

theorem and_31 (n : ℕ) : n &&& 31 = n % 32 := Nat.and_two_pow_sub_one_eq_mod n 5

/-- Amounts from 1 to 31 are shifted as the architecture does. -/
theorem shiftOperand_of_lt (type : ShiftType) (rm : BitVec 32) {n : ℕ} (hpos : 0 < n)
    (hn : n < 32) (c : Bool) :
    shiftOperand (shiftField type) rm n c = some (shiftC type rm n c) := by
  have hne : n ≠ 0 := hpos.ne'
  have hnot : ¬31 < n := by omega
  cases type
  case lsl =>
    simp only [shiftField, shiftOperand, shiftC, if_neg hne, if_neg hnot,
      if_pos (show n ≤ 32 by omega), bit]
  case lsr => simp only [shiftField, shiftOperand, shiftC, if_neg hne, if_neg hnot, bit]
  case asr =>
    have hfill : ((0xFFFFFFFF : BitVec 64) <<< (32 - n)).setWidth 32 =
        BitVec.allOnes 32 <<< (32 - n) := by
      interval_cases n <;> rfl
    simp only [shiftField, shiftOperand, shiftC, if_neg hne, if_neg hnot,
      if_pos (show n ≤ 32 by omega), hfill, bit_eq_msb, sshiftRight_eq_or rm hn.le]
    rfl
  case ror =>
    have hmask : n &&& 31 = n := by rw [and_31, Nat.mod_eq_of_lt hn]
    simp only [shiftField, shiftOperand, shiftC, hmask, if_neg hne, ror,
      rotateRight_eq_or rm hn, ← msb_rotateRight_of_lt rm hpos hn, bit]

/-- The left shifts by 32 and more leave bit 0 as the carry, which moved out last for
32 only. -/
theorem shiftOperand_lsl_of_ge (rm : BitVec 32) {n : ℕ} (hn : 32 ≤ n) (c : Bool) :
    shiftOperand 0 rm n c = some (shiftC .lsl rm n c) ↔ n ≤ 32 ∨ bit rm 0 = false := by
  have hzero : rm <<< n = 0 := BitVec.shiftLeft_eq_zero hn
  simp only [shiftOperand, shiftC, if_neg (show ¬n = 0 by omega),
    if_pos (show 31 < n by omega), hzero, Option.some.injEq, Prod.mk.injEq, true_and, bit]
  split
  case isTrue hle => simp [show n = 32 by omega]
  case isFalse hgt => simp [hgt]

/-- The logical right shifts by 32 and more leave bit 31 as the carry. -/
theorem shiftOperand_lsr_of_ge (rm : BitVec 32) {n : ℕ} (hn : 32 ≤ n) (c : Bool) :
    shiftOperand 1 rm n c = some (shiftC .lsr rm n c) ↔ n ≤ 32 ∨ bit rm 31 = false := by
  have hzero : rm >>> n = 0 := BitVec.ushiftRight_eq_zero hn
  simp only [shiftOperand, shiftC, if_neg (show ¬n = 0 by omega),
    if_pos (show 31 < n by omega), hzero, Option.some.injEq, Prod.mk.injEq, true_and, bit]
  rcases Nat.lt_or_ge 32 n with hlt | hge
  · rw [BitVec.getLsbD_of_ge rm (n - 1) (by omega)]
    simp [show ¬n ≤ 32 by omega]
  · simp [show n = 32 by omega]

/-- The arithmetic shifts by 32 and more copy bit 31. -/
theorem shiftOperand_asr_of_ge (rm : BitVec 32) {n : ℕ} (hn : 32 ≤ n) (c : Bool) :
    shiftOperand 2 rm n c = some (shiftC .asr rm n c) := by
  have hcarry : (if n ≤ 32 then rm.getLsbD (n - 1) else rm.msb) = rm.msb := by
    split
    case isTrue hle =>
      rw [show n = 32 by omega]
      exact bit_eq_msb rm
    case isFalse => rfl
  have hcopies : 0 - flagWord rm.msb = if rm.msb then BitVec.allOnes 32 else 0 := by
    cases rm.msb <;> rfl
  simp only [shiftOperand, shiftC, if_neg (show ¬n = 0 by omega),
    if_pos (show 31 < n by omega), bit_eq_msb, sshiftRight_of_ge rm hn, hcarry, hcopies]

/-- The rotations by 32 and more, which take the carry in for a multiple of 32. -/
theorem shiftOperand_ror_of_ge (rm : BitVec 32) {n : ℕ} (hn : 32 ≤ n) (c : Bool) :
    shiftOperand 3 rm n c = some (shiftC .ror rm n c) ↔
      n % 32 ≠ 0 ∨ bit rm 31 = c := by
  have hne : n ≠ 0 := by omega
  simp only [shiftOperand, and_31, shiftC, if_neg hne, bit_eq_msb]
  rw [← BitVec.rotateRight_mod_eq_rotateRight]
  rcases Nat.eq_zero_or_pos (n % 32) with hzero | hpos
  · have hself : rm.rotateRight 0 = rm := by simp [BitVec.rotateRight_def]
    simp only [hzero, if_true, hself, Option.some.injEq, Prod.mk.injEq,
      true_and, ne_eq, not_true_eq_false, false_or]
    exact eq_comm
  · have hlt : n % 32 < 32 := Nat.mod_lt _ (by omega)
    refine iff_of_true ?_ (.inl hpos.ne')
    simp only [if_neg hpos.ne', ror, rotateRight_eq_or rm hlt,
      ← msb_rotateRight_of_lt rm hpos hlt, bit]

/-- A shift by the bottom byte of a register is right for the amounts and values
that the shifter has a case for. -/
theorem shiftOperand_register (type : ShiftType) (rm : BitVec 32) (n : ℕ) (c : Bool) :
    shiftOperand (shiftField type) rm n c = some (shiftC type rm n c) ↔
      RegisterShiftAgrees type rm n c := by
  rcases Nat.eq_zero_or_pos n with rfl | hpos
  · cases type <;> simp [shiftField, shiftOperand, shiftC, RegisterShiftAgrees]
  rcases Nat.lt_or_ge n 32 with hlt | hge
  · refine iff_of_true (shiftOperand_of_lt type rm hpos hlt c) ?_
    cases type
    case lsl | lsr => exact .inl hlt.le
    case asr => trivial
    case ror => exact .inr (.inl (by omega))
  · cases type
    case lsl => exact shiftOperand_lsl_of_ge rm hge c
    case lsr => exact shiftOperand_lsr_of_ge rm hge c
    case asr => exact iff_of_true (shiftOperand_asr_of_ge rm hge c) trivial
    case ror =>
      rw [shiftField, shiftOperand_ror_of_ge rm hge c]
      exact (or_iff_right hpos.ne').symm

theorem getLsbD_fill (b : Bool) {i : ℕ} (hi : i < 32) : (fill b).getLsbD i = b := by
  cases b with
  | false => exact BitVec.getLsbD_zero
  | true => rw [fill, if_pos rfl, BitVec.getLsbD_allOnes, decide_eq_true hi]

/-- A word is a copy of one bit when all its bits are. -/
theorem eq_fill_iff (x : BitVec 32) (b : Bool) :
    x = fill b ↔ ∀ i < 32, x.getLsbD i = b := by
  constructor
  · rintro rfl i hi
    exact getLsbD_fill b hi
  · intro hbits
    refine BitVec.eq_of_getLsbD_eq fun i hi => ?_
    rw [hbits i hi, getLsbD_fill b hi]

/-- ASR by 32 changes nothing for the words that are copies of the carry. -/
theorem asr_32_iff (rm : BitVec 32) (c : Bool) :
    (rm, c) = shiftC .asr rm 32 c ↔ rm = fill c := by
  have hshift : shiftC .asr rm 32 c = (fill rm.msb, rm.msb) := by
    simp only [shiftC, if_neg (show ¬32 = 0 by omega), sshiftRight_of_ge rm le_rfl, if_pos,
      le_refl]
    exact congrArg (Prod.mk _) (bit_eq_msb rm)
  rw [hshift, Prod.mk.injEq]
  constructor
  · rintro ⟨hrm, rfl⟩
    exact hrm
  · intro hrm
    have hmsb : rm.msb = c := by
      rw [hrm, ← bit_eq_msb]
      exact getLsbD_fill c (by omega)
    rw [hmsb]
    exact ⟨hrm, rfl⟩

/-- The rotation through the carry changes nothing for the same words. -/
theorem rrx_iff (rm : BitVec 32) (c : Bool) :
    (rm, c) = rrxC (w := 31) rm c ↔ rm = fill c := by
  rw [eq_fill_iff, rrxC, Prod.mk.injEq]
  constructor
  · rintro ⟨hrm, -⟩
    have hbit : ∀ i < 32, rm.getLsbD i = if i = 31 then c else rm.getLsbD (i + 1) := by
      intro i hi
      have hcons := congrArg (·.getLsbD i) hrm
      simp only [BitVec.getLsbD_cons, BitVec.getLsbD_extractLsb'] at hcons
      rw [hcons, Nat.add_comm 1 i]
      split
      case isTrue => rfl
      case isFalse hne => rw [decide_eq_true (by omega), Bool.true_and]
    -- from the top down, each bit is the one above it
    have hdown : ∀ k < 32, rm.getLsbD (31 - k) = c := by
      intro k
      induction k with
      | zero =>
          intro _
          rw [hbit 31 (by omega), if_pos rfl]
      | succ k ih =>
          intro hk
          rw [hbit _ (by omega), if_neg (by omega), show 31 - (k + 1) + 1 = 31 - k by omega]
          exact ih (by omega)
    intro i hi
    have hi' := hdown (31 - i) (by omega)
    rwa [show 31 - (31 - i) = i by omega] at hi'
  · intro hbits
    refine ⟨?_, (hbits 0 (by omega)).symm⟩
    refine BitVec.eq_of_getLsbD_eq fun i hi => ?_
    rw [hbits i hi, BitVec.getLsbD_cons, BitVec.getLsbD_extractLsb']
    split
    case isTrue => rfl
    case isFalse hne =>
      rw [decide_eq_true (by omega), Bool.true_and, hbits (1 + i) (by omega)]

/-- A shift by an immediate is right unless it stands for another by its 0. -/
theorem shiftOperand_immediate (type : ShiftType) (rm : BitVec 32) {n : ℕ} (hn : n < 32)
    (c : Bool) :
    shiftOperand (shiftField type) rm n c = some (shiftByImmediate type rm n c) ↔
      ImmediateShiftAgrees type rm n c := by
  rcases Nat.eq_zero_or_pos n with rfl | hpos
  · cases type
    case lsl =>
      simp [shiftField, shiftOperand, shiftByImmediate, shiftC, ImmediateShiftAgrees]
    case lsr =>
      have hshift : shiftC .lsr rm 32 c = (0, rm.getLsbD 31) := by
        simp only [shiftC, if_neg (show ¬32 = 0 by omega), BitVec.ushiftRight_eq_zero le_rfl]
        rfl
      simp only [shiftField, shiftOperand, shiftByImmediate, if_true, hshift,
        Option.some.injEq, Prod.mk.injEq, ImmediateShiftAgrees, ne_eq, not_true_eq_false,
        false_or]
      refine and_congr_right fun hrm => ?_
      rw [hrm]
      simp
    case asr =>
      simp only [shiftField, shiftOperand, shiftByImmediate, if_true, Option.some.injEq,
        ImmediateShiftAgrees, ne_eq, not_true_eq_false, false_or]
      exact asr_32_iff rm c
    case ror =>
      simp only [shiftField, shiftOperand, shiftByImmediate, if_true, Option.some.injEq,
        ImmediateShiftAgrees, ne_eq, not_true_eq_false, false_or]
      exact rrx_iff rm c
  · have hne : n ≠ 0 := hpos.ne'
    have hsame : shiftByImmediate type rm n c = shiftC type rm n c := by
      cases type <;> simp only [shiftByImmediate, if_neg hne]
    refine iff_of_true (hsame ▸ shiftOperand_of_lt type rm hpos hn c) ?_
    cases type
    case lsl => trivial
    all_goals exact .inl hne

theorem bits_shiftType (instr : BitVec 32) :
    (bits instr 5 2).toNat = shiftField (shiftTypeOf instr) := by
  rw [bits_two, shiftTypeOf]
  cases bit instr 6 <;> cases bit instr 5 <;> rfl

/-- The shifter has a case for each kind of shift. -/
theorem shiftOperand_isSome (type : ShiftType) (rm : BitVec 32) (n : ℕ) (c : Bool) :
    ∃ out, shiftOperand (shiftField type) rm n c = some out := by
  cases type <;> exact ⟨_, rfl⟩

/-- The encodings of a second operand: with bits 4 and 7 set, and no immediate, the
instruction is a multiply or a transfer. -/
def IsOperand2 (instr : BitVec 32) : Prop :=
  bit instr 25 = true ∨ bit instr 4 = false ∨ bit instr 7 = false

/-- The rotation of an immediate is right where the architecture leaves no carry. -/
def RotationAgrees (instr : BitVec 32) (carryIn : Bool) : Prop :=
  (shiftC .ror (bits instr 0 8) (2 * (bits4 instr 8).toNat) carryIn).2 = false

/-- The operands that the decoder gets right. -/
def OperandAgrees (instr rm rs : BitVec 32) (carryIn : Bool) : Prop :=
  if bit instr 25 then RotationAgrees instr carryIn
  else if bit instr 4 then
    RegisterShiftAgrees (shiftTypeOf instr) rm (rs &&& 255).toNat carryIn
  else ImmediateShiftAgrees (shiftTypeOf instr) rm (bits instr 7 5).toNat carryIn

/-- The rotation of the decoder, by less than the word. -/
theorem shiftC_ror_fst (x : BitVec 32) {n : ℕ} (hn : n < 32) (c : Bool) :
    (shiftC .ror x n c).1 = ror x n := by
  rcases Nat.eq_zero_or_pos n with rfl | hpos
  · rfl
  · simp only [shiftC, if_neg hpos.ne', ror, rotateRight_eq_or x hn]

namespace Armisa

variable {s s' : Armisa}

/-- The register to shift, which is one word on for the PC shifted by a register. -/
def valueRm (s : Armisa) : BitVec 32 :=
  let m := (bits4 s.instruction 0).toNat
  if bit s.instruction 25 = false ∧ bit s.instruction 4 = true ∧ m = 15 then s.reg m + 4
  else s.reg m

/-- The register whose bottom byte is the amount. -/
def valueRs (s : Armisa) : BitVec 32 := s.reg (bits4 s.instruction 8).toNat

/-- The shifter run on the fields of a shifted register. -/
theorem execShiftOperandInstr_of_some {rm : BitVec 32} {out : BitVec 32 × Bool}
    (hrm : s.reg? s.insRm = some rm)
    (hout : shiftOperand s.insShiftType
      (if s.insShiftComputed = true ∧ s.insRm = 15 then rm + 4 else rm)
      (if s.insShiftComputed then (s.insShiftValue &&& 255).toNat
        else s.insShiftValue.toNat) s.cFlag = some out) :
    s.execShiftOperandInstr =
      some { s with insAluOperand2 := out.1, insShiftCarryOut := out.2 } := by
  unfold execShiftOperandInstr
  rw [hrm]
  cases hcomputed : s.insShiftComputed <;>
    simp [hcomputed] at hout ⊢ <;> simp [hout]

/-- What the decode of a second operand leaves, and that it changes no register. -/
theorem decodeOperand2_spec (s : Armisa) (hencoding : IsOperand2 s.instruction) :
    ∃ s' out, s.decodeOperand2 = some s' ∧ s'.rawReg = s.rawReg ∧
      s'.currentBank = s.currentBank ∧ s'.insRn = s.insRn ∧
      s'.insAluOperand2 = out.1 ∧ s'.insShiftCarryOut = out.2 ∧
      (out = architecturalOperand2 s.instruction s.valueRm s.valueRs s.cFlag ↔
        OperandAgrees s.instruction s.valueRm s.valueRs s.cFlag) := by
  cases himm : bit s.instruction 25 with
  | true =>
      have hlt : 2 * (bits4 s.instruction 8).toNat < 32 := by
        have hle := bits4_le s.instruction 8
        omega
      refine ⟨{ s with
          insDecodeT := .aluT, insShiftCarryOut := false
          insAluOperand2 := ror (bits s.instruction 0 8) (2 * (bits4 s.instruction 8).toNat) },
        (ror (bits s.instruction 0 8) (2 * (bits4 s.instruction 8).toNat), false), ?_,
        rfl, rfl, rfl, rfl, rfl, ?_⟩
      · simp only [decodeOperand2, himm, if_true]
        rfl
      · simp only [architecturalOperand2, OperandAgrees, RotationAgrees, himm, if_true]
        rw [← shiftC_ror_fst _ hlt s.cFlag, Prod.ext_iff]
        simp only [true_and]
        exact eq_comm
  | false =>
      set instr := s.instruction with hinstr
      set n := if bit instr 4 then (s.valueRs &&& 255).toNat else (bits instr 7 5).toNat
        with hn
      obtain ⟨out, hout⟩ := shiftOperand_isSome (shiftTypeOf instr) s.valueRm n s.cFlag
      set fields : Armisa := { s with
        insDecodeT := .aluT
        insShiftCarryOut := false
        insRm := (bits4 instr 0).toNat
        insShiftType := (bits instr 5 2).toNat
        insShiftComputed := bit instr 4
        insShiftValue := if bit instr 4 then s.valueRs else bits instr 7 5
        insRs := if bit instr 4 then (bits4 instr 8).toNat else s.insRs } with hfields
      have hrm : fields.reg? fields.insRm = some (s.reg (bits4 instr 0).toNat) :=
        reg?_bits4 s instr 0
      have hexec : fields.execShiftOperandInstr =
          some { fields with insAluOperand2 := out.1, insShiftCarryOut := out.2 } := by
        refine execShiftOperandInstr_of_some hrm ?_
        rw [← hout, ← bits_shiftType]
        cases hregister : bit instr 4 <;>
          simp [hfields, valueRm, hn, hregister, himm, ← hinstr, cFlag, cpsr]
      refine ⟨{ fields with insAluOperand2 := out.1, insShiftCarryOut := out.2 }, out, ?_,
        rfl, rfl, rfl, rfl, rfl, ?_⟩
      · rw [← hexec]
        cases hregister : bit instr 4 with
        | true =>
            have hseven : bit instr 7 = false := by
              rcases hencoding with h | h | h
              · rw [himm] at h
                cases h
              · rw [hregister] at h
                cases h
              · exact h
            simp [decodeOperand2, ← hinstr, himm, hregister, hseven, hfields, valueRs]
            rfl
        | false =>
            simp [decodeOperand2, ← hinstr, himm, hregister, hfields]
      · rw [← Option.some_inj, ← hout]
        simp only [architecturalOperand2, OperandAgrees, himm]
        cases hregister : bit instr 4 with
        | true =>
            simp only [hn, hregister, if_true, Bool.false_eq_true, if_false]
            exact shiftOperand_register _ _ _ _
        | false =>
            simp only [hn, hregister, Bool.false_eq_true, if_false]
            exact shiftOperand_immediate _ _ (bits_lt instr 7 (by omega)) _

/-- The second operand and the carry that a logical operation with S makes its C
flag, as the architecture has them.  MOV of a register rotated through the carry
is finished by the decoder, and leaves its results in the registers. -/
def GivesOperand2 (s : Armisa) : Prop :=
  let out := architecturalOperand2 s.instruction s.valueRm s.valueRs s.cFlag
  if isMovRrx s.instruction then
    ∃ s', s.decodeDataProcessing = some s' ∧
      s'.reg? (bits4 s.instruction 12).toNat = some out.1 ∧
      (bit s.instruction 20 = true → s'.cFlag = out.2)
  else
    ∃ s' s'', s.decodeDataProcessing = some s' ∧ s'.insAluOperand2 = out.1 ∧
      s'.updateFlags .logic32 false false = some s'' ∧ s''.cFlag = out.2

/-- The operand of MOV of a register rotated through the carry. -/
theorem operand2_of_isMovRrx (hmov : isMovRrx s.instruction = true) :
    architecturalOperand2 s.instruction s.valueRm s.valueRs s.cFlag =
      rrxC (w := 31) (s.reg (bits4 s.instruction 0).toNat) s.cFlag := by
  have hpattern := of_decide_eq_true hmov
  have himm : bit s.instruction 25 = false := bit_of_pattern hpattern rfl
  have hregister : bit s.instruction 4 = false := bit_of_pattern hpattern rfl
  have hsix : bit s.instruction 6 = true := bit_of_pattern hpattern rfl
  have hfive : bit s.instruction 5 = true := bit_of_pattern hpattern rfl
  have hamount : bits s.instruction 7 5 = 0 := bits_of_pattern hpattern (by omega) rfl
  have hrm : s.valueRm = s.reg (bits4 s.instruction 0).toNat := by
    simp [valueRm, hregister]
  simp [architecturalOperand2, shiftTypeOf, shiftByImmediate, himm, hregister, hsix, hfive,
    hamount, hrm]

theorem rrxC_fst (x : BitVec 32) (c : Bool) :
    (rrxC (w := 31) x c).1 = flagAt c 31 ||| (x >>> 1) := by
  refine BitVec.eq_of_getLsbD_eq fun i hi => ?_
  have hflag : (flagAt c 31).getLsbD i = (decide (i = 31) && c) := by
    interval_cases i <;> cases c <;> rfl
  rw [rrxC, BitVec.getLsbD_cons, BitVec.getLsbD_extractLsb', BitVec.getLsbD_or, hflag,
    BitVec.getLsbD_ushiftRight]
  split
  case isTrue htop =>
    rw [decide_eq_true htop, htop, BitVec.getLsbD_of_ge x (1 + 31) (by omega)]
    simp
  case isFalse hne =>
    rw [decide_eq_false hne, decide_eq_true (show i < 31 by omega)]
    simp

theorem decodeMovRrx_spec (s : Armisa) (hne : (bits4 s.instruction 12).toNat ≠ 15) :
    ∃ s', s.decodeMovRrx = some s' ∧
      s'.reg? (bits4 s.instruction 12).toNat =
        some (rrxC (w := 31) (s.reg (bits4 s.instruction 0).toNat) s.cFlag).1 ∧
      (bit s.instruction 20 = true →
        s'.cFlag = (rrxC (w := 31) (s.reg (bits4 s.instruction 0).toNat) s.cFlag).2) := by
  have hvalue : flagAt s.cFlag 31 ||| (s.reg (bits4 s.instruction 0).toNat >>> 1) =
      (rrxC (w := 31) (s.reg (bits4 s.instruction 0).toNat) s.cFlag).1 :=
    (rrxC_fst _ _).symm
  set value := (rrxC (w := 31) (s.reg (bits4 s.instruction 0).toNat) s.cFlag).1
  obtain ⟨fields, hfields⟩ : ∃ fields : Armisa, fields = { s with
    insRd := (bits4 s.instruction 12).toNat, insAluResult := value } := ⟨_, rfl⟩
  obtain ⟨written, hwritten⟩ := fields.setReg?_of_lt (bits4_lt s.instruction 12) value
  have hRd : written.insRd = (bits4 s.instruction 12).toNat := by
    obtain ⟨i, -, rfl⟩ := setReg?_eq_some hwritten
    rw [hfields]
  have hset : written.insRd ≠ 15 ∨ ¬written.insWBdefault := .inl (hRd ▸ hne)
  obtain ⟨flagged, hflagged, -, -, -, hregs⟩ := updateFlags_arith32_isSome written
    (bit (s.reg (bits4 s.instruction 0).toNat) 0) written.vFlag
  have hread : written.reg? (bits4 s.instruction 12).toNat = some value := by
    rw [reg?_setReg? hwritten, if_pos rfl]
  have hdecode : s.decodeMovRrx =
      (if bit s.instruction 20 then some flagged else some written).bind fun s =>
        some { s with insDecodeT := .arm32ExecutedT } := by
    rw [← hflagged]
    unfold decodeMovRrx
    simp only [reg?_bits4, Option.bind_eq_bind, Option.bind_some, hvalue,
      ← hfields, hwritten]
    cases bit s.instruction 20 <;> simp [hne]
  rw [hdecode]
  cases hS : bit s.instruction 20 with
  | true =>
      refine ⟨{ flagged with insDecodeT := .arm32ExecutedT }, rfl, ?_, fun _ => ?_⟩
      · rw [← hread]
        exact hregs _ (Nat.ne_of_lt (Nat.lt_succ_of_le (bits4_le s.instruction 12)))
      · have hflags := flags_updateFlags_arith32 hflagged hset
        exact congrArg (·.2.2.1) hflags
  | false =>
      exact ⟨{ written with insDecodeT := .arm32ExecutedT }, rfl, hread, fun h => by cases h⟩

/-- MOV of a rotated register to the PC fails an assertion. -/
theorem decodeMovRrx_of_pc (s : Armisa) (hpc : (bits4 s.instruction 12).toNat = 15) :
    s.decodeMovRrx = none := by
  unfold decodeMovRrx
  simp [hpc]

/-- Exactly when the second operand and the carry are those of the architecture. -/
theorem shifter_operand (s : Armisa) (hencoding : IsOperand2 s.instruction) :
    s.GivesOperand2 ↔
      if isMovRrx s.instruction then (bits4 s.instruction 12).toNat ≠ 15
      else OperandAgrees s.instruction s.valueRm s.valueRs s.cFlag := by
  unfold GivesOperand2
  cases hmov : isMovRrx s.instruction with
  | true =>
      have hdecode : s.decodeDataProcessing = s.decodeFields.decodeMovRrx := by
        have hmov' : isMovRrx s.decodeFields.instruction = true := hmov
        simp only [decodeDataProcessing, hmov', if_true]
      rw [if_pos rfl, if_pos rfl, operand2_of_isMovRrx hmov, hdecode]
      constructor
      · rintro ⟨s', hs', -⟩ hpc
        rw [decodeMovRrx_of_pc s.decodeFields hpc] at hs'
        cases hs'
      · exact decodeMovRrx_spec s.decodeFields
  | false =>
      obtain ⟨mid, out, hmid, hregs, hbank, hRn, hoperand, hcarry, hiff⟩ :=
        decodeOperand2_spec s.decodeFields hencoding
      have hread : mid.reg? mid.insRn = some (s.reg (bits4 s.instruction 16).toNat) := by
        rw [hRn, ← reg?_bits4]
        simp only [reg?, hregs, hbank]
        rfl
      obtain ⟨decoded, hdecode, hvalue, hcarryOut⟩ : ∃ decoded,
          s.decodeDataProcessing = some decoded ∧ decoded.insAluOperand2 = out.1 ∧
            decoded.insShiftCarryOut = out.2 := by
        have hmov' : isMovRrx s.decodeFields.instruction = false := hmov
        simp only [decodeDataProcessing, hmov', Bool.false_eq_true, if_false, hmid,
          Option.bind_eq_bind, Option.bind_some, hread]
        exact ⟨_, rfl, hoperand, hcarry⟩
      obtain ⟨after, hafter⟩ : ∃ after,
          decoded.updateFlags .logic32 false false = some after := ⟨_, rfl⟩
      have hflag : after.cFlag = out.2 :=
        (cFlag_updateFlags_logic32 hafter).trans hcarryOut
      rw [if_neg Bool.false_ne_true, if_neg Bool.false_ne_true, hdecode]
      refine Iff.trans ?_ hiff
      constructor
      · rintro ⟨s', s'', hs', hsame, hupdate, hcarrySame⟩
        rw [← Option.some.inj hs', hvalue] at hsame
        rw [← Option.some.inj hs', hafter] at hupdate
        rw [← Option.some.inj hupdate, hflag] at hcarrySame
        exact Prod.ext hsame hcarrySame
      · rintro rfl
        exact ⟨decoded, after, rfl, hvalue, hafter, hflag⟩

/-- A core with an instruction to decode and a value in R1. -/
def decoding (instr r1 : BitVec 32) : Armisa :=
  { idle with
    rawReg := Function.update idle.rawReg 1 r1
    instruction := instr }

/-- ANDS of R1 shifted left by R0, which is zero, and MOVS of R1 through the carry. -/
theorem shifter_operand_examples :
    (decoding 0xE0100011 7).GivesOperand2 ∧ (decoding 0xE1B02061 7).GivesOperand2 := by
  refine ⟨(shifter_operand _ (.inr (.inr rfl))).mpr ?_,
    (shifter_operand _ (.inr (.inl rfl))).mpr ?_⟩
  · exact .inl (by decide)
  · exact (by decide : (2 : ℕ) ≠ 15)

/-- ANDS of R1 shifted right by 32 keeps R1 and the carry flag. -/
theorem not_shifter_operand :
    ¬∀ s : Armisa, IsOperand2 s.instruction → s.GivesOperand2 := by
  intro hclaim
  obtain ⟨s', s'', hs', hvalue, -⟩ := hclaim (decoding 0xE0100021 1) (.inr (.inl rfl))
  have hoperand : (decoding 0xE0100021 1).decodeDataProcessing.map
      (·.insAluOperand2) = some 1 := by decide
  rw [hs', Option.map_some, hvalue] at hoperand
  revert hoperand
  decide

end Armisa

end Prazor.Arm
