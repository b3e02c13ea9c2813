import Prazor.Arm.BlockTransfer

/-!
# Branches

The fetch and decode of `bodystate_clock` for a core that is running, with the branches of
both instruction sets: B, BL and BLX with an offset, and BX and BLX with a register.  All
assemble their targets from fields of the instruction and leave the rest to `ExecuteBL`.

The stored PC is `armPcCorrection` ahead of the next instruction, and a Thumb instruction of
32 bits advances it by its first half only.  What other instructions do, to the end of their
execution, is a parameter, and so is the memory.  The branch predictor, its trampoline buffer,
which no core has unless it is asked for, breakpoints, counters and the shutdown sequence are
left out.
-/

namespace Prazor.Arm

/-- What is taken off the PC where a Thumb instruction reads it. -/
def thumbPcCorrection : BitVec 32 := 2

namespace Armisa

/-- The PC, which all banks share. -/
def pc (s : Armisa) : BitVec 32 := s.rawReg pcReg

def setPc (s : Armisa) (v : BitVec 32) : Armisa :=
  { s with rawReg := Function.update s.rawReg pcReg v }

/-- Set all registers of the instruction to be undefined. -/
def forgetRegisters (s : Armisa) : Armisa :=
  { s with
    insRn := undefinedReg
    insRd := undefinedReg
    insRs := undefinedReg
    insRm := undefinedReg
    insRdHi := undefinedReg
    insRdLo := undefinedReg }

end Armisa

namespace Branches

/-- The interpreter while it runs instructions, with its memory. -/
structure RunningArmisa (μ : Type) extends Armisa where
  memory : μ
  insAddress : BitVec 32
  insL : Bool
  insCcodeTest : Bool

/-- The interpreter with `ITSTATE`. -/
structure ThumbArmisa (μ : Type) extends RunningArmisa μ where
  itstate : BitVec 8

/-- `armisa_read1` for an instruction, with its size code. -/
structure FetchPort (μ : Type) where
  read1 : μ → BitVec 32 → ℕ → Option (BitVec 32)

/-- What the instructions do that are not modelled here, and the trap of a fetch that fails.
There is no result where an assertion fails.  They may read `ITSTATE`, as their traps do, but
only the decoder and IT write it. -/
structure OtherInstructions (μ : Type) where
  arm : RunningArmisa μ → Option (RunningArmisa μ)
  thumb16 : BitVec 32 → Bool → ThumbArmisa μ → Option (RunningArmisa μ)
  thumb32 : BitVec 16 → ThumbArmisa μ → Option (RunningArmisa μ)
  hint : BitVec 32 → ThumbArmisa μ → Option (RunningArmisa μ)
  fetchTrap : ThumbArmisa μ → Option (RunningArmisa μ)

variable {μ : Type} (port : FetchPort μ) (others : OtherInstructions μ)

/-! ## The branches -/

namespace RunningArmisa

variable (s : RunningArmisa μ)

def writePc (v : BitVec 32) : RunningArmisa μ := { s with toArmisa := s.toArmisa.setPc v }

def writeCpsr (v : BitVec 32) : RunningArmisa μ := { s with toArmisa := s.toArmisa.setCpsr v }

/-- `DecodeCcode` -/
def decodeCcode (conder : ℕ) : Option (RunningArmisa μ) :=
  let test (insCcodeTest : Bool) : Option (RunningArmisa μ) :=
    some { s with insCcodeTest := insCcodeTest }
  match conder with
  | 0 => test s.zFlag
  | 1 => test !s.zFlag
  | 2 => test s.cFlag
  | 3 => test !s.cFlag
  | 4 => test s.nFlag
  | 5 => test !s.nFlag
  | 6 => test s.vFlag
  | 7 => test !s.vFlag
  | 8 => test (s.cFlag && !s.zFlag)
  | 9 => test (!s.cFlag || s.zFlag)
  | 10 => test (s.nFlag == s.vFlag)
  | 11 => test (s.nFlag != s.vFlag)
  | 12 => test (!s.zFlag && s.nFlag == s.vFlag)
  | 13 => test (s.zFlag || s.nFlag != s.vFlag)
  | 14 => test true
  | _ => none

/-- What the link register gets: the PC, minus pipeline delay. -/
def linkAddress : BitVec 32 :=
  if s.thumbMode then ((s.pc - 2) &&& ~~~1) ||| 1 else s.pc - armPcCorrection

/-- Save the link register. -/
def saveLink : Option (RunningArmisa μ) :=
  (s.setReg? lrReg s.linkAddress).map fun core => { s with toArmisa := core }

/-- `ExecuteBL` -/
def executeBL (dest : BitVec 32) : Option (RunningArmisa μ) := do
  let s ← if s.insL then s.saveLink else some s
  some (s.writePc (dest + armPcCorrection))

/-! ### The ARM instructions -/

/-- BLX with mode change. -/
def armBlx : Option (RunningArmisa μ) := do
  let inn := s.instruction
  let insOffset := bits inn 0 24
  let insOffset := if bit inn 23 then insOffset ||| 0xFF000000 else insOffset
  let insOffset := (insOffset <<< 2) ||| (bits inn 24 1 <<< 1)
  let dest := s.pc + insOffset
  let s ← { s with insL := true }.executeBL dest
  some (s.writeCpsr (s.cpsr ||| (1 : BitVec 32) <<< 5))

/-- B and BL. -/
def armBranch : Option (RunningArmisa μ) :=
  let inn := s.instruction
  let insOffset := bits inn 0 24
  let insOffset := if bit inn 23 then insOffset ||| 0xFF000000 else insOffset
  let dest := s.pc + (insOffset <<< 2)
  { s with insL := bit inn 24 }.executeBL dest

/-- BX, with mode switch to or from Thumb mode, and link. -/
def armBx : Option (RunningArmisa μ) := do
  let inn := s.instruction
  let insRn := (bits4 inn 0).toNat
  let s := { s with insL := bit inn 5, insRn := insRn }
  let target ← s.reg? insRn
  let s := s.writeCpsr ((s.cpsr &&& ~~~((1 : BitVec 32) <<< 5)) ||| ((target &&& 1) <<< 5))
  let target ← s.reg? insRn
  s.executeBL (target &&& ~~~1)

/-- The instructions of the first major opcode that come before BX. -/
def BeforeBx (inn : BitVec 32) : Prop :=
  inn &&& 0xF900010 = 0x1000000 ∨
    ¬(inn &&& 0xE000090 = 0x90 ∨ inn &&& 0xF900090 = 0x1000010) ∨
    inn &&& 0xF0000F0 = 0x90 ∨
    (bits4 inn 24 = 1 ∧ inn &&& 0x90 = 0x90) ∨ (bits4 inn 24 = 0 ∧ inn &&& 0x90 = 0x90)

instance decidableBeforeBx (inn : BitVec 32) : Decidable (BeforeBx inn) :=
  inferInstanceAs (Decidable (_ ∨ _ ∨ _ ∨ _ ∨ _))

/-- The switch over the top 3 bits below the condition code. -/
def decodeMajorOpcode : Option (RunningArmisa μ) :=
  let inn := s.instruction
  let s := { s with toArmisa := s.toArmisa.decodeFields, insL := bit inn 20 }
  match (bits inn 25 3).toNat with
  | 0 =>
      if BeforeBx inn then others.arm s
      else if inn &&& 0xFFFFFD0 = 0x12fff10 then s.armBx
      else others.arm s
  | 5 => s.armBranch
  | _ => others.arm s

/-- `DecodeArmInstruction` -/
def decodeArmInstruction : Option (RunningArmisa μ) :=
  let inn := s.instruction
  let s := { s with insDecodeT := .unknownT }
  let conder := (bits inn 28 4).toNat
  if conder = 15 then
    if inn = 0xFFFFFFFF ∨ inn &&& 0xFB00000 = 0x4200000 ∨ inn &&& 0xFB00000 = 0x4000000 then
      others.arm s
    else if inn &&& 0xE000000 = 0xA000000 then s.armBlx
    else others.arm s
  else do
    let s ← s.decodeCcode conder
    if s.insCcodeTest then s.decodeMajorOpcode others
    else some (if (bits inn 25 3).toNat = 5 then { s with insL := bit inn 20 } else s)

/-! ### The Thumb instructions -/

/-- `DecodeThumb16BranchAndSVC`, with what a supervisor call does. -/
def decodeThumb16BranchAndSVC (swi : Option (RunningArmisa μ)) (inn : BitVec 32) :
    Option (RunningArmisa μ) :=
  let opcode := (bits inn 8 4).toNat
  match opcode with
  | 0xF => swi
  | 0xE => none
  | _ => do
      let s := { s with insL := false }
      let offset := bits inn 0 8 <<< 1
      let offset := if bits offset 8 1 ≠ 0 then offset ||| 0xFFFFFE00 else offset
      let s ← s.decodeCcode opcode
      let dest := s.pc + offset - thumbPcCorrection
      if s.insCcodeTest then s.executeBL dest else some s

/-- The unconditional branch of 16 bits. -/
def thumb16Branch (inn : BitVec 32) : Option (RunningArmisa μ) :=
  let s := { s with insL := false }
  let offset := bits inn 0 11 <<< 1
  let offset := if bits offset 11 1 ≠ 0 then offset ||| 0xFFFFF000 else offset
  let dest := s.pc + offset - thumbPcCorrection
  s.executeBL dest

/-- The target of BX and the instruction set it selects. -/
def exchange (dest : BitVec 32) : Option (RunningArmisa μ × BitVec 32) :=
  if dest &&& 1 ≠ 0 then
    some (s.writeCpsr (s.cpsr ||| (1 : BitVec 32) <<< 5), dest &&& ~~~1)
  else if (dest >>> 1) &&& 1 = 0 then
    some (s.writeCpsr (s.cpsr &&& ~~~((1 : BitVec 32) <<< 5)), dest)
  else none

/-- BX and BLX, the last cases of `DecodeThumb16Special`. -/
def thumb16Bx (inn : BitVec 32) : Option (RunningArmisa μ) := do
  let rm := (bits4 inn 3).toNat
  let dest ← s.reg? rm
  let dest := if rm = 15 then dest - 2 else dest
  let (s, dest) ← s.exchange dest
  let s := { s with insL := false }
  let s := if bit inn 7 then { s with insL := true }.writePc (s.pc - 2) else s
  s.executeBL dest

/-- `DecodeThumb16Special`, with what its other instructions do. -/
def decodeThumb16Special (other : Option (RunningArmisa μ)) (inn : BitVec 32) :
    Option (RunningArmisa μ) :=
  if 12 ≤ (bits inn 6 4).toNat then s.thumb16Bx inn else other

/-- The conditional branch of 32 bits. -/
def thumb32CondBranch (in1 in2 : BitVec 32) : Option (RunningArmisa μ) := do
  guard (bit in2 12 = false)
  let s ← s.decodeCcode (bits in1 6 4).toNat
  if s.insCcodeTest then
    let offset :=
      (bits in1 10 1 <<< 20) |||
      (bits in2 11 1 <<< 19) |||
      (bits in2 13 1 <<< 18) |||
      (bits in1 0 6 <<< 12) |||
      (bits in2 0 11 <<< 1)
    let offset := if bit offset 20 then offset ||| 0xFFE00000 else offset
    let dest := s.pc + offset - thumbPcCorrection
    { s with insL := false }.executeBL dest
  else some (s.writePc (s.pc + 2))

/-- Branch with link, branch with link and exchange, and the unconditional branch. -/
def thumb32Branch (in1 in2 : BitVec 32) : Option (RunningArmisa μ) :=
  let sign := bit in1 10
  let i1 := !(bit in2 13 ^^ sign)
  let i2 := !(bit in2 11 ^^ sign)
  let imm10 := bits in1 0 10
  let imm11 := if bit in2 12 then bits in2 0 11 else bits in2 1 10 <<< 1
  let offset :=
    Armisa.flagAt sign 24 |||
    Armisa.flagAt i1 23 |||
    Armisa.flagAt i2 22 |||
    (imm10 <<< 12) |||
    (imm11 <<< 1)
  let offset := if sign then offset ||| 0xFE000000 else offset
  let s := s.writeCpsr ((s.cpsr &&& ~~~((1 : BitVec 32) <<< 5)) ||| (bits in2 12 1 <<< 5))
  let base := s.pc - thumbPcCorrection
  let base := if bit in2 12 then base else base &&& ~~~3
  let dest := base + offset
  { s with insL := bit in2 14 }.executeBL dest

/-- `DecodeThumb32Branches` -/
def decodeThumb32Branches (in1 in2 : BitVec 32) : Option (RunningArmisa μ) :=
  let op := bits in1 4 7
  let op1 := bits in2 12 3
  if op1 &&& 5 = 0 ∧ op &&& 0x38 ≠ 0x38 then s.thumb32CondBranch in1 in2
  else if op1 &&& 5 = 5 ∨ op1 &&& 5 = 4 ∨ op1 &&& 5 = 1 then s.thumb32Branch in1 in2
  else none

/-- `DecodeThumb32`, with what its other instructions do. -/
def decodeThumb32 (other : BitVec 16 → Option (RunningArmisa μ)) (execute : Bool) :
    Option (RunningArmisa μ) := do
  let readData ← port.read1 s.memory (s.insAddress + 2) 1
  let instruction2 := readData.setWidth 16
  if execute = false then some (s.writePc (s.pc + 2))
  else
    let op1 := (bits s.instruction 11 2).toNat
    let op := bit (instruction2.setWidth 32) 15
    if op1 = 2 ∧ op = true then
      s.decodeThumb32Branches ((s.instruction.setWidth 16).setWidth 32) (instruction2.setWidth 32)
    else other instruction2

end RunningArmisa

/-! ## Fetch and decode -/

/-- `ITAdvance` -/
def itAdvance (itstate : BitVec 8) : BitVec 8 :=
  if itstate &&& 7 = 0 then 0
  else (itstate &&& 0xE0) ||| (((itstate &&& 0x1F) <<< 1) &&& 0x1F)

namespace ThumbArmisa

variable (s : ThumbArmisa μ)

def withRunning (running : RunningArmisa μ) : ThumbArmisa μ :=
  { s with toRunningArmisa := running }

/-- `InITBlock` -/
def inITBlock : Bool := decide (s.itstate &&& 0xF ≠ 0)

/-- `DecodeThumb16IfThenHints` -/
def decodeThumb16IfThenHints (inn : BitVec 32) (inITBlock : Bool) : Option (ThumbArmisa μ) :=
  let opA := bits4 inn 4
  let opB := bits4 inn 0
  if opB ≠ 0 then do
    guard (inITBlock = false)
    some { s with itstate := ((opA <<< 4) ||| opB).setWidth 8 }
  else (others.hint opA s).map s.withRunning

/-- `DecodeThumb16Misc` -/
def decodeThumb16Misc (inn : BitVec 32) (inITBlock : Bool) : Option (ThumbArmisa μ) :=
  if bits inn 5 7 &&& 0x78 = 0x78 then s.decodeThumb16IfThenHints others inn inITBlock
  else (others.thumb16 inn inITBlock s).map s.withRunning

/-- `DecodeThumb16` -/
def decodeThumb16 (execute inITBlock : Bool) : Option (ThumbArmisa μ) :=
  let inn := bits s.instruction 0 16
  let opcode := bits inn 10 6
  let other := others.thumb16 inn inITBlock s
  if execute = false then some s
  else if opcode &&& 0x3F = 0x11 then (s.decodeThumb16Special other inn).map s.withRunning
  else if opcode &&& 0x3C = 0x2C then s.decodeThumb16Misc others inn inITBlock
  else if opcode &&& 0x3C = 0x34 then (s.decodeThumb16BranchAndSVC other inn).map s.withRunning
  else if opcode &&& 0x3E = 0x38 then (s.thumb16Branch inn).map s.withRunning
  else other.map s.withRunning

/-- What an IT block says about the instruction, and its condition. -/
def itCondition : Option (ThumbArmisa μ × Bool) :=
  if s.inITBlock then do
    let condition := (s.itstate >>> 4) &&& 0xF
    let running ← s.decodeCcode condition.toNat
    some ({ s.withRunning running with itstate := itAdvance s.itstate }, running.insCcodeTest)
  else some (s, true)

/-- The first halfword of an instruction of 32 bits. -/
def Wide (instruction : BitVec 32) : Prop :=
  let opcode := (bits instruction 11 5).toNat
  opcode = 0x1D ∨ opcode = 0x1E ∨ opcode = 0x1F

instance decidableWide (instruction : BitVec 32) : Decidable (Wide instruction) :=
  inferInstanceAs (Decidable (_ ∨ _ ∨ _))

/-- `DecodeThumbInstruction` -/
def decodeThumbInstruction : Option (ThumbArmisa μ) := do
  let inITBlock := s.inITBlock
  let s := { s with insDecodeT := .unknownT }
  let (s, execute) ← s.itCondition
  if Wide s.instruction then
    (s.decodeThumb32 port (fun instruction2 => others.thumb32 instruction2 s) execute).map
      s.withRunning
  else s.decodeThumb16 others execute inITBlock

/-- The start of a clock: the instruction set that the CPSR selects, and the address of the
instruction. -/
def startClock : ThumbArmisa μ :=
  { s with
    prevThumbMode := s.thumbMode
    thumbMode := bit s.cpsr 5
    insAddress := s.pc - armPcCorrection }

/-- The PC is advanced past what was fetched. -/
def fetched (instruction : BitVec 32) : ThumbArmisa μ :=
  let core : Armisa := { s.toArmisa with instruction := instruction }
  { s with toArmisa := (core.setPc (s.pc + if s.thumbMode then 2 else 4)).forgetRegisters }

/-- `bodystate_clock` in the state `RunningS`. -/
def clock : Option (ThumbArmisa μ) :=
  let s := s.startClock
  match port.read1 s.memory s.insAddress (if s.thumbMode then 1 else 2) with
  | none => (others.fetchTrap s).map s.withRunning
  | some readData =>
      let s := s.fetched readData
      if s.thumbMode then s.decodeThumbInstruction port others
      else (s.decodeArmInstruction others).map s.withRunning

end ThumbArmisa

/-! ## The architecture -/

/-- `ConditionPassed` -/
def conditionPassed (s : Armisa) (cond : BitVec 4) : Bool :=
  let result :=
    match (cond.extractLsb' 1 3).toNat with
    | 0 => s.zFlag
    | 1 => s.cFlag
    | 2 => s.nFlag
    | 3 => s.vFlag
    | 4 => s.cFlag && !s.zFlag
    | 5 => s.nFlag == s.vFlag
    | 6 => s.nFlag == s.vFlag && !s.zFlag
    | _ => true
  if cond.getLsbD 0 = true ∧ cond ≠ 15 then !result else result

/-- The condition of the IT block, or the one that always holds. -/
def ThumbArmisa.blockCondition (s : ThumbArmisa μ) : BitVec 4 :=
  if s.inITBlock then s.itstate.extractLsb' 4 4 else 14

/-- The branches, by the fields of their encodings.  With the condition 15, `armBranch` is BLX
and `l` the half of a word in its offset. -/
inductive Branch
  | armBranch (cond : BitVec 4) (l : Bool) (imm24 : BitVec 24)
  | armBx (cond : BitVec 4) (l : Bool) (rm : BitVec 4)
  | thumbCond (cond : BitVec 4) (imm8 : BitVec 8)
  | thumbBranch (imm11 : BitVec 11)
  | thumbBx (l : Bool) (rm : BitVec 4)
  | wideCond (sign : Bool) (cond : BitVec 4) (imm6 : BitVec 6) (j1 j2 : Bool) (imm11 : BitVec 11)
  | wideBranch (sign : Bool) (imm10 : BitVec 10) (l j1 x j2 : Bool) (imm11 : BitVec 11)

/-- What a branch does: the address and the instruction set of the next instruction, and the
link register where it is written. -/
structure Effect where
  address : BitVec 32
  thumb : Bool
  link : Option (BitVec 32)

namespace Branch

def thumb : Branch → Bool
  | armBranch .. | armBx .. => false
  | _ => true

/-- The length in bytes. -/
def length : Branch → BitVec 32
  | thumbCond .. | thumbBranch .. | thumbBx .. => 2
  | _ => 4

/-- The first word or halfword of the instruction. -/
def first : Branch → BitVec 32
  | armBranch cond l imm24 => (cond ++ 0b101#3 ++ BitVec.ofBool l ++ imm24).setWidth 32
  | armBx cond l rm =>
      (cond ++ 0x12FFF#20 ++ 0#2 ++ BitVec.ofBool l ++ 1#1 ++ rm).setWidth 32
  | thumbCond cond imm8 => (0b1101#4 ++ cond ++ imm8).setWidth 32
  | thumbBranch imm11 => (0b11100#5 ++ imm11).setWidth 32
  | thumbBx l rm => (0b01000111#8 ++ BitVec.ofBool l ++ rm ++ 0#3).setWidth 32
  | wideCond sign cond imm6 .. => (0b11110#5 ++ BitVec.ofBool sign ++ cond ++ imm6).setWidth 32
  | wideBranch sign imm10 .. => (0b11110#5 ++ BitVec.ofBool sign ++ imm10).setWidth 32

/-- The second halfword of a Thumb instruction of 32 bits. -/
def second : Branch → Option (BitVec 32)
  | wideCond _ _ _ j1 j2 imm11 =>
      some ((0b10#2 ++ BitVec.ofBool j1 ++ 0#1 ++ BitVec.ofBool j2 ++ imm11).setWidth 32)
  | wideBranch _ _ l j1 x j2 imm11 =>
      some ((1#1 ++ BitVec.ofBool l ++ BitVec.ofBool j1 ++ BitVec.ofBool x ++ BitVec.ofBool j2 ++
        imm11).setWidth 32)
  | _ => none

/-- The memory holds the branch at an address. -/
def StoredAt (branch : Branch) (memory : μ) (address : BitVec 32) : Prop :=
  port.read1 memory address (if branch.thumb then 1 else 2) = some branch.first ∧
    ∀ halfword, branch.second = some halfword →
      port.read1 memory (address + 2) 1 = some halfword

/-- The PC as the instruction reads it. -/
def pcValue (branch : Branch) (address : BitVec 32) : BitVec 32 :=
  address + if branch.thumb then 4 else 8

/-- The address of the following instruction; bit 0 is set for Thumb code. -/
def linkValue (branch : Branch) (address : BitVec 32) : BitVec 32 :=
  if branch.thumb then (address + branch.length) ||| 1 else address + branch.length

/-- A register as the instruction reads it. -/
def register (branch : Branch) (s : Armisa) (address : BitVec 32) (rm : BitVec 4) : BitVec 32 :=
  if rm = 15 then branch.pcValue address else s.reg rm.toNat

/-- The fields that belong to a branch and to no other instruction; the halfword bit of BLX
is clear. -/
def IsBranch : Branch → Prop
  | armBx cond .. => cond ≠ 15
  | thumbCond cond .. | wideCond _ cond .. => cond < 14
  | wideBranch _ _ l _ x _ imm11 =>
      (l = true ∨ x = true) ∧ (x = false → imm11.getLsbD 0 = false)
  | _ => True

/-- Whether the instruction's own condition holds. -/
def passes (s : Armisa) : Branch → Bool
  | armBranch cond .. | armBx cond .. | thumbCond cond .. | wideCond _ cond .. =>
      conditionPassed s cond
  | _ => true

/-- `BXWritePC`; an address that is halfway between two words is unpredictable. -/
def bxWritePc (target : BitVec 32) : Option (BitVec 32 × Bool) :=
  if target.getLsbD 0 then some (target &&& ~~~1, true)
  else if target.getLsbD 1 then none
  else some (target, false)

/-- The offset of the long forms, with I1 and I2. -/
def longOffset (sign j1 j2 : Bool) (imm10 : BitVec 10) (imm11 : BitVec 11) : BitVec 32 :=
  let i1 := !(j1 ^^ sign)
  let i2 := !(j2 ^^ sign)
  (BitVec.ofBool sign ++ BitVec.ofBool i1 ++ BitVec.ofBool i2 ++ imm10 ++ imm11 ++
    0#1).signExtend 32

/-- Where a branch goes that is taken, and in which instruction set. -/
def target (branch : Branch) (s : Armisa) (address : BitVec 32) : Option (BitVec 32 × Bool) :=
  let pcv := branch.pcValue address
  match branch with
  | armBranch cond l imm24 =>
      if cond = 15 then some (pcv + (imm24 ++ BitVec.ofBool l ++ 0#1).signExtend 32, true)
      else some (pcv + (imm24 ++ 0#2).signExtend 32, false)
  | armBx _ _ rm | thumbBx _ rm => bxWritePc (branch.register s address rm)
  | thumbCond _ imm8 => some (pcv + (imm8 ++ 0#1).signExtend 32, true)
  | thumbBranch imm11 => some (pcv + (imm11 ++ 0#1).signExtend 32, true)
  | wideCond sign _ imm6 j1 j2 imm11 =>
      some (pcv + (BitVec.ofBool sign ++ BitVec.ofBool j2 ++ BitVec.ofBool j1 ++ imm6 ++ imm11 ++
        0#1).signExtend 32, true)
  | wideBranch sign imm10 _ j1 x j2 imm11 =>
      if x then some (pcv + longOffset sign j1 j2 imm10 imm11, true)
      else
        some ((pcv &&& ~~~3) + longOffset sign j1 j2 imm10 (imm11.extractLsb' 1 10 ++ 0#1), false)

/-- Whether a branch links. -/
def links : Branch → Bool
  | armBranch cond l _ => cond == 15 || l
  | armBx _ l _ | thumbBx l _ => l
  | wideBranch _ _ l .. => l
  | _ => false

/-- Whether a branch is taken: its own condition and that of an IT block hold. -/
def taken (branch : Branch) (s : ThumbArmisa μ) : Bool :=
  branch.passes s.toArmisa && (!branch.thumb || conditionPassed s.toArmisa s.blockCondition)

/-- The effect of a branch in a state, at an address. -/
def effect (branch : Branch) (s : ThumbArmisa μ) (address : BitVec 32) : Option Effect :=
  if branch.taken s then
    (branch.target s.toArmisa address).map fun (target, thumb) =>
      ⟨target, thumb, if branch.links then some (branch.linkValue address) else none⟩
  else some ⟨address + branch.length, branch.thumb, none⟩

end Branch

end Branches

end Prazor.Arm
