import Prazor.Core.Payload

/-!
# The state of the ARM interpreter

The banked registers of a core, the flags in its CPSR and the fields that the
decoder leaves for the execution of an instruction.
-/

namespace Prazor.Arm

/-- The register banks.  System mode shares the user bank. -/
inductive ArmBank
  | user
  | fiq
  | supervisor
  | abort
  | irq
  | undefined
  deriving DecidableEq, Repr

inductive ArmMode
  | user
  | fiq
  | irq
  | supervisor
  | abort
  | undefined
  | system
  deriving DecidableEq, Repr

/-- The kinds of decoded instructions that the modelled branches give. -/
inductive ArmInstrType
  | unknownT
  | aluT
  | mulT
  | arm32ExecutedT
  deriving DecidableEq, Repr

inductive MultOp
  | signed
  | signedLong
  | unsigned
  | unsignedLong
  deriving DecidableEq, Repr

/-- How the flags are written back. -/
inductive FMode
  | logic32
  | arith32
  | logic64
  deriving DecidableEq, Repr

/-- The number of the enumeration, which scales the bank's slots. -/
def ArmBank.number : ArmBank → ℕ
  | .user => 0
  | .fiq => 1
  | .supervisor => 2
  | .abort => 3
  | .irq => 4
  | .undefined => 5

/-- The bank that goes with a mode. -/
def ArmMode.bank : ArmMode → ArmBank
  | .user => .user
  | .fiq => .fiq
  | .irq => .irq
  | .supervisor => .supervisor
  | .abort => .abort
  | .undefined => .undefined
  | .system => .user

/-- The mode bits M[4:0] of a mode. -/
def ArmMode.bits : ArmMode → BitVec 32
  | .user => 0x10
  | .fiq => 0x11
  | .irq => 0x12
  | .supervisor => 0x13
  | .abort => 0x17
  | .undefined => 0x1b
  | .system => 0x1f

def pcReg : ℕ := 15
def cpsrReg : ℕ := 16
def spsrReg : ℕ := 17

/-- The number that stands for no register. -/
def undefinedReg : ℕ := 99

/-- What the execute phase adds to a PC that it writes. -/
def armPcCorrection : BitVec 32 := 4

/-- A bit of a word. -/
def bit (a : BitVec 32) (bitno : ℕ) : Bool := a.getLsbD bitno

/-- A field of a word. -/
def bits (a : BitVec 32) (bitno width : ℕ) : BitVec 32 :=
  if width < 32 then (a >>> bitno) &&& ((1 : BitVec 32) <<< width - 1) else a >>> bitno

def bits4 (a : BitVec 32) (bitno : ℕ) : BitVec 32 := (a >>> bitno) &&& (15 : BitVec 32)

/-- Rotation to the right; the count is below 32. -/
def ror (a : BitVec 32) (count : ℕ) : BitVec 32 :=
  if count = 0 then a else (a >>> count) ||| (a <<< (32 - count))

theorem bit_eq_msb (x : BitVec 32) : bit x 31 = x.msb :=
  (BitVec.msb_eq_getLsbD_last x).symm

/-- A word that matches a pattern has its bits where the mask is set. -/
theorem bit_of_pattern {instr mask value : BitVec 32} (hpattern : instr &&& mask = value)
    {i : ℕ} (hmask : bit mask i = true) : bit instr i = bit value i := by
  unfold bit at hmask ⊢
  rw [← hpattern, BitVec.getLsbD_and, hmask, Bool.and_true]

/-- It matches what the pattern says of a part of the mask. -/
theorem and_of_pattern {instr mask value part : BitVec 32} (hpattern : instr &&& mask = value)
    (hpart : mask &&& part = part) : instr &&& part = value &&& part := by
  rw [← hpattern, BitVec.and_assoc, hpart]

/-- It does not match a pattern that has another bit. -/
theorem and_ne_of_pattern {instr mask value part other : BitVec 32}
    (hpattern : instr &&& mask = value) (i : ℕ) (hmask : bit mask i = true)
    (hpart : bit part i = true) (hne : bit value i ≠ bit other i) : instr &&& part ≠ other := by
  intro hsame
  exact hne ((bit_of_pattern hpattern hmask).symm.trans (bit_of_pattern hsame hpart))

/-- It has the pattern's fields where the mask covers them. -/
theorem bits_of_pattern {instr mask value : BitVec 32} (hpattern : instr &&& mask = value)
    {bitno width : ℕ} (hwidth : width < 32)
    (hmask : bits mask bitno width = (1 : BitVec 32) <<< width - 1) :
    bits instr bitno width = bits value bitno width := by
  simp only [bits, if_pos hwidth] at hmask ⊢
  set field := (1 : BitVec 32) <<< width - 1
  calc (instr >>> bitno) &&& field
      = (instr >>> bitno) &&& ((mask >>> bitno) &&& field) := by rw [hmask]
    _ = ((instr &&& mask) >>> bitno) &&& field := by
        rw [BitVec.ushiftRight_and_distrib, BitVec.and_assoc]
    _ = (value >>> bitno) &&& field := by rw [hpattern]

/-- A field of two bits. -/
theorem bits_two (a : BitVec 32) (n : ℕ) :
    (bits a n 2).toNat = 2 * (bit a (n + 1)).toNat + (bit a n).toNat := by
  have hsplit : bits a n 2 =
      (BitVec.ofBool (bit a (n + 1)) ++ BitVec.ofBool (bit a n)).setWidth 32 := by
    refine BitVec.eq_of_getLsbD_eq fun i hi => ?_
    have hmask : ((1 : BitVec 32) <<< 2 - 1).getLsbD i = decide (i < 2) := by
      interval_cases i <;> rfl
    rw [bits, if_pos (by omega), BitVec.getLsbD_and, BitVec.getLsbD_ushiftRight, hmask,
      BitVec.getLsbD_setWidth, BitVec.getLsbD_append]
    rcases Nat.lt_or_ge i 2 with hlt | hge
    · interval_cases i <;> simp [bit]
    · simp [show ¬i < 2 by omega, show ¬i = 0 by omega]
      omega
  rw [hsplit]
  cases bit a (n + 1) <;> cases bit a n <;> rfl

theorem bits_lt (a : BitVec 32) (bitno : ℕ) {width : ℕ} (hwidth : width < 32) :
    (bits a bitno width).toNat < 2 ^ width := by
  have hmask : ((1 : BitVec 32) <<< width - 1).toNat = 2 ^ width - 1 := by
    interval_cases width <;> rfl
  have hpos : 0 < 2 ^ width := Nat.two_pow_pos width
  have hle : (bits a bitno width).toNat ≤ 2 ^ width - 1 := by
    rw [bits, if_pos hwidth, BitVec.toNat_and, hmask]
    exact Nat.and_le_right
  omega

/-- The interpreter: the registers, the mode and the fields of the instruction
being decoded. -/
structure Armisa where
  rawReg : ℕ → BitVec 32
  currentMode : ArmMode
  currentBank : ArmBank
  thumbMode : Bool
  prevThumbMode : Bool
  instruction : BitVec 32
  insDecodeT : ArmInstrType
  insWBdefault : Bool
  insS : Bool
  insRn : ℕ
  insRd : ℕ
  insRs : ℕ
  insRm : ℕ
  insRdHi : ℕ
  insRdLo : ℕ
  insAluOperand1 : BitVec 32
  insAluOperand2 : BitVec 32
  insShiftCarryOut : Bool
  insAluResult : BitVec 32
  insAluResultHi : BitVec 32
  insSigned : Bool
  insALUOpcode : ℕ
  insShiftType : ℕ
  insShiftComputed : Bool
  insShiftValue : BitVec 32
  insMultAccum : BitVec 64
  insMultOp : MultOp

/-- A core in supervisor mode with all registers zero, before it decodes. -/
def Armisa.idle : Armisa where
  rawReg := Function.update (fun _ => 0) cpsrReg 0x13
  currentMode := .supervisor
  currentBank := .supervisor
  thumbMode := false
  prevThumbMode := false
  instruction := 0
  insDecodeT := .unknownT
  insWBdefault := false
  insS := false
  insRn := undefinedReg
  insRd := undefinedReg
  insRs := undefinedReg
  insRm := undefinedReg
  insRdHi := undefinedReg
  insRdLo := undefinedReg
  insAluOperand1 := 0
  insAluOperand2 := 0
  insShiftCarryOut := false
  insAluResult := 0
  insAluResultHi := 0
  insSigned := false
  insALUOpcode := 0
  insShiftType := 0
  insShiftComputed := false
  insShiftValue := 0
  insMultAccum := 0
  insMultOp := .signed

namespace Armisa

variable {s s' : Armisa} {bank : ArmBank} {r i : ℕ} {v : BitVec 32}

/-- Where a register of a bank is kept; the assertions of `Reg` fail elsewhere. -/
def rawIndex (bank : ArmBank) (r : ℕ) : Option ℕ :=
  if 18 ≤ r then none
  else if bank = .user ∨ r = 15 ∨ r = 16 then if r = 17 then none else some r
  else if bank = .fiq then if r < 8 then some r else some (18 + r)
  else if r < 13 then some r else some (18 * bank.number + r)

/-- A register of the current bank. -/
def reg? (s : Armisa) (r : ℕ) : Option (BitVec 32) :=
  (rawIndex s.currentBank r).map s.rawReg

/-- The value of a register, for the numbers that the bank has. -/
def reg (s : Armisa) (r : ℕ) : BitVec 32 := (s.reg? r).getD 0

/-- The assignment of a register of the current bank. -/
def setReg? (s : Armisa) (r : ℕ) (v : BitVec 32) : Option Armisa :=
  (rawIndex s.currentBank r).map fun i =>
    { s with rawReg := Function.update s.rawReg i v }

/-- The CPSR, which all banks share. -/
def cpsr (s : Armisa) : BitVec 32 := s.rawReg cpsrReg

def setCpsr (s : Armisa) (v : BitVec 32) : Armisa :=
  { s with rawReg := Function.update s.rawReg cpsrReg v }

def nFlag (s : Armisa) : Bool := bit s.cpsr 31
def zFlag (s : Armisa) : Bool := bit s.cpsr 30
def cFlag (s : Armisa) : Bool := bit s.cpsr 29
def vFlag (s : Armisa) : Bool := bit s.cpsr 28

/-- The fields that several groups of instructions share. -/
def decodeFields (s : Armisa) : Armisa :=
  { s with
    insS := bit s.instruction 20
    insRn := (bits4 s.instruction 16).toNat
    insRd := (bits4 s.instruction 12).toNat }

/-- A flag at its place in the CPSR. -/
def flagAt (flag : Bool) (bitno : ℕ) : BitVec 32 :=
  (BitVec.ofBool flag).setWidth 32 <<< bitno

/-- Write back new versions of the flags N, Z, C and V.  The 64-bit form computes
its N from a comparison of an unsigned word with zero and then, as no branch
takes it, fails an assertion. -/
def updateFlags (s : Armisa) (fmode : FMode) (carry overflow : Bool) : Option Armisa :=
  let newN := bit s.insAluResult 31
  let newZ := decide (s.insAluResult = 0)
  match fmode with
  | .arith32 =>
      if s.insRd ≠ 15 ∨ ¬s.insWBdefault then
        some (s.setCpsr ((s.cpsr &&& 0x0FFFFFFF) |||
          (flagAt newN 31 + flagAt newZ 30 + flagAt carry 29 + flagAt overflow 28)))
      else some s
  | .logic32 =>
      some (s.setCpsr ((s.cpsr &&& 0x1FFFFFFF) |||
        (flagAt newN 31 + flagAt newZ 30 + flagAt s.insShiftCarryOut 29)))
  | .logic64 => none

/-- Set the mode, its bank and the mode bits; interrupt mode masks interrupts. -/
def setMode (s : Armisa) (m : ArmMode) (thumb : Bool) : Armisa :=
  let cpsr := (s.cpsr &&& 0xFFFFFFE0) ||| m.bits
  { s with
    prevThumbMode := s.thumbMode
    thumbMode := thumb
    currentMode := m
    currentBank := m.bank
    rawReg := Function.update s.rawReg cpsrReg
      (if m = .irq ∧ cpsr &&& 0x80 = 0 then cpsr ||| (1 : BitVec 32) <<< 7 else cpsr) }

/-- Examine a new CPSR, whose mode bits may be bad. -/
def decodeSetModeFromCpsr (s : Armisa) : Armisa :=
  match (s.cpsr &&& 31).toNat with
  | 0x10 => s.setMode .user false
  | 0x11 => s.setMode .fiq false
  | 0x12 => s.setMode .irq false
  | 0x13 => s.setMode .supervisor false
  | 0x17 => s.setMode .abort false
  | 0x1b => s.setMode .undefined false
  | 0x1f => s.setMode .system false
  | _ => s

/-- The registers with a number below 17 have a place in every bank. -/
theorem rawIndex_of_lt (bank : ArmBank) (hr : r < 17) : ∃ i, rawIndex bank r = some i := by
  unfold rawIndex
  split_ifs <;> first | omega | exact ⟨_, rfl⟩

/-- The registers of a bank are kept apart. -/
theorem rawIndex_injective {r' : ℕ} (hr : rawIndex bank r = some i)
    (hr' : rawIndex bank r' = some i) : r = r' := by
  unfold rawIndex at hr hr'
  cases bank <;> simp [ArmBank.number] at hr hr' <;> grind

/-- No banked register is kept where the CPSR is. -/
theorem rawIndex_ne_cpsr (hne : r ≠ cpsrReg) (hr : rawIndex bank r = some i) :
    i ≠ cpsrReg := by
  rintro rfl
  have hcpsr : rawIndex bank cpsrReg = some cpsrReg := by
    cases bank <;> rfl
  exact hne (rawIndex_injective hr hcpsr)

theorem reg?_of_lt (s : Armisa) (hr : r < 17) : s.reg? r = some (s.reg r) := by
  obtain ⟨i, hi⟩ := rawIndex_of_lt s.currentBank hr
  rw [reg, reg?, hi, Option.map_some, Option.getD_some]

theorem bits4_le (a : BitVec 32) (bitno : ℕ) : (bits4 a bitno).toNat ≤ 15 := by
  rw [bits4, BitVec.toNat_and]
  exact Nat.and_le_right

/-- A field of four bits numbers a register that every bank has. -/
theorem bits4_lt (a : BitVec 32) (bitno : ℕ) : (bits4 a bitno).toNat < 17 :=
  Nat.lt_of_le_of_lt (bits4_le a bitno) (by omega)

@[simp]
theorem reg?_bits4 (s : Armisa) (a : BitVec 32) (bitno : ℕ) :
    s.reg? (bits4 a bitno).toNat = some (s.reg (bits4 a bitno).toNat) :=
  s.reg?_of_lt (bits4_lt a bitno)

theorem setReg?_of_lt (s : Armisa) (hr : r < 17) (v : BitVec 32) :
    ∃ s', s.setReg? r v = some s' := by
  obtain ⟨i, hi⟩ := rawIndex_of_lt s.currentBank hr
  exact ⟨_, by rw [setReg?, hi, Option.map_some]⟩

/-- An assignment changes the array of registers only. -/
theorem setReg?_eq_some (hset : s.setReg? r v = some s') :
    ∃ i, rawIndex s.currentBank r = some i ∧
      s' = { s with rawReg := Function.update s.rawReg i v } := by
  obtain ⟨i, hi, hs'⟩ := Option.map_eq_some_iff.mp hset
  exact ⟨i, hi, hs'.symm⟩

/-- What the registers are after an assignment of one. -/
theorem reg?_setReg? (hset : s.setReg? r v = some s') (r' : ℕ) :
    s'.reg? r' = if r' = r then some v else s.reg? r' := by
  obtain ⟨i, hi, rfl⟩ := setReg?_eq_some hset
  simp only [reg?]
  by_cases hsame : r' = r
  · rw [if_pos hsame, hsame, hi, Option.map_some, Function.update_self]
  · rw [if_neg hsame]
    cases hr' : rawIndex s.currentBank r' with
    | none => rfl
    | some i' =>
        have hne : i' ≠ i := by
          rintro rfl
          exact hsame (rawIndex_injective hr' hi)
        rw [Option.map_some, Option.map_some, Function.update_of_ne hne]

theorem cpsr_setReg? (hset : s.setReg? r v = some s') (hne : r ≠ cpsrReg) :
    s'.cpsr = s.cpsr := by
  obtain ⟨i, hi, rfl⟩ := setReg?_eq_some hset
  exact Function.update_of_ne (rawIndex_ne_cpsr hne hi).symm _ _

@[simp]
theorem cpsr_setCpsr (s : Armisa) (v : BitVec 32) : (s.setCpsr v).cpsr = v := by
  simp only [cpsr, setCpsr, Function.update_self]

theorem reg?_setCpsr (s : Armisa) (v : BitVec 32) (hne : r ≠ cpsrReg) :
    (s.setCpsr v).reg? r = s.reg? r := by
  simp only [reg?, setCpsr]
  cases hr : rawIndex s.currentBank r with
  | none => rfl
  | some i =>
      rw [Option.map_some, Option.map_some,
        Function.update_of_ne (rawIndex_ne_cpsr hne hr)]

/-- The flags of a state, N, Z, C and V. -/
def flags (s : Armisa) : Bool × Bool × Bool × Bool :=
  (s.nFlag, s.zFlag, s.cFlag, s.vFlag)

theorem flags_of_cpsr (hcpsr : s'.cpsr = s.cpsr) : s'.flags = s.flags := by
  simp only [flags, nFlag, zFlag, cFlag, vFlag, hcpsr]

/-- The bits of a word of which some are kept and others are set. -/
theorem bit_merge (word mask new : BitVec 32) (i : ℕ) :
    bit ((word &&& mask) ||| new) i = ((bit word i && bit mask i) || bit new i) := by
  simp only [bit, BitVec.getLsbD_or, BitVec.getLsbD_and]

/-- The flags read from the word that puts them at their places. -/
theorem bit_flags (n z c v : Bool) {i : ℕ} (hlow : 28 ≤ i) (hhigh : i < 32) :
    bit (flagAt n 31 + flagAt z 30 + flagAt c 29 + flagAt v 28) i =
      ((decide (i = 31) && n) || (decide (i = 30) && z) || (decide (i = 29) && c) ||
        (decide (i = 28) && v)) := by
  interval_cases i <;> cases n <;> cases z <;> cases c <;> cases v <;> rfl

/-- The flags of a merged CPSR. -/
theorem flags_setCpsr_merge (mask : BitVec 32) (n z c v : Bool) :
    (s.setCpsr ((s.cpsr &&& mask) |||
      (flagAt n 31 + flagAt z 30 + flagAt c 29 + flagAt v 28))).flags =
      ((s.nFlag && bit mask 31) || n, (s.zFlag && bit mask 30) || z,
        (s.cFlag && bit mask 29) || c, (s.vFlag && bit mask 28) || v) := by
  simp only [flags, nFlag, zFlag, cFlag, vFlag, cpsr_setCpsr, bit_merge]
  rw [bit_flags n z c v (by omega) (by omega), bit_flags n z c v (by omega) (by omega),
    bit_flags n z c v (by omega) (by omega), bit_flags n z c v (by omega) (by omega)]
  simp

/-- The arithmetic form sets all four flags. -/
theorem flags_updateFlags_arith32 {carry overflow : Bool}
    (hupdate : s.updateFlags .arith32 carry overflow = some s')
    (hset : s.insRd ≠ 15 ∨ ¬s.insWBdefault) :
    s'.flags = (bit s.insAluResult 31, decide (s.insAluResult = 0), carry, overflow) := by
  simp only [updateFlags, if_pos hset, Option.some.injEq] at hupdate
  rw [← hupdate, flags_setCpsr_merge]
  simp [bit]

/-- The logical form sets N, Z and C and keeps V. -/
theorem flags_updateFlags_logic32 {carry overflow : Bool}
    (hupdate : s.updateFlags .logic32 carry overflow = some s') :
    s'.flags = (bit s.insAluResult 31, decide (s.insAluResult = 0), s.insShiftCarryOut,
      s.vFlag) := by
  have hzero : ∀ word : BitVec 32, word = word + flagAt false 28 := fun word =>
    (BitVec.add_zero word).symm
  simp only [updateFlags, Option.some.injEq] at hupdate
  rw [← hupdate, hzero (flagAt _ 31 + flagAt _ 30 + flagAt _ 29), flags_setCpsr_merge]
  simp [bit]

theorem cFlag_updateFlags_logic32 {carry overflow : Bool}
    (hupdate : s.updateFlags .logic32 carry overflow = some s') :
    s'.cFlag = s.insShiftCarryOut :=
  congrArg (·.2.2.1) (flags_updateFlags_logic32 hupdate)

end Armisa

end Prazor.Arm
