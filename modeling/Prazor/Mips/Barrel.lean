import Prazor.Core.Fields

/-!
# The MIPS64 barrel

One way of the MIPS64 interpreter, built with branch delay slots and without load delay
slots and presence bits.  An instruction is fetched one step before it is executed.
-/

namespace Prazor.Mips64

variable {μ : Type*}

/-- The number of a general register. -/
abbrev Reg := BitVec 5

/-- What a read of the node returns: whether it went well, the word that was passed by
reference, which says nothing when it did not, and the memory. -/
structure Answer (μ : Type*) (width : ℕ) where
  ok : Bool
  data : BitVec width
  memory : μ

/-- What became of a conditional store. -/
inductive Conditional
  | lost
  | stored
  | failed
  deriving DecidableEq

/-- The return code of `cpu_mem_store_conditional32`. -/
def Conditional.code : Conditional → Reg
  | lost => 0
  | stored => 1
  | failed => 2

/-- The memory accesses that the interpreter leaves to the node it is built into. -/
structure Node (μ : Type*) where
  bigEndian : Bool
  evalMem64 : μ → BitVec 64 → Answer μ 64
  evalMem32 : μ → BitVec 64 → Bool → Answer μ 32
  evalMem16 : μ → BitVec 64 → Answer μ 16
  evalMem8 : μ → BitVec 64 → Answer μ 8
  setMem64 : μ → BitVec 64 → BitVec 64 → μ
  setMem32 : μ → BitVec 64 → BitVec 32 → μ
  setMem16 : μ → BitVec 64 → BitVec 16 → μ
  setMem8 : μ → BitVec 64 → BitVec 8 → μ
  cpuMemStoreConditional32 : μ → BitVec 64 → BitVec 32 → Conditional × μ

/-- A line of the instruction cache.  The tag is the address of a doubleword, or 1. -/
structure Line where
  a : BitVec 64
  d : BitVec 64

/-- The registers of a way, with the node's memory. -/
structure Barrel (μ : Type*) where
  regfile : Reg → BitVec 64
  multhi : BitVec 64
  multlo : BitVec 64
  cp0Status : BitVec 64
  pvContext : BitVec 64
  epc : BitVec 64
  pc : BitVec 64
  nextPc : BitVec 64
  icache : BitVec 10 → Line
  stalled : Bool
  writeBackData : BitVec 64
  writeBackReg : Reg
  writeBackFlag : Bool
  writeBackData1 : BitVec 64
  writeBackReg1 : Reg
  writeBackFlag1 : Bool
  skipNext : BitVec 8
  nextIns : BitVec 32
  memory : μ

def exceptionVector : BitVec 64 := 0x80000080

/-- The address after the delay slot, seen from the delay slot. -/
def branchDelayRlaOffset : BitVec 64 := 4

def opcode (ins : BitVec 32) : BitVec 6 := ins.extractLsb' 26 6
def scode (ins : BitVec 32) : BitVec 6 := ins.extractLsb' 0 6
def rs (ins : BitVec 32) : Reg := ins.extractLsb' 21 5
def rt (ins : BitVec 32) : Reg := ins.extractLsb' 16 5
def rd (ins : BitVec 32) : Reg := ins.extractLsb' 11 5
def rex (ins : BitVec 32) : BitVec 5 := ins.extractLsb' 6 5
def imm (ins : BitVec 32) : BitVec 16 := ins.extractLsb' 0 16
def target (ins : BitVec 32) : BitVec 64 := (ins &&& 0x3FFFFFF).setWidth 64

/-- The pattern of the sign extensions: the sign bit, the bits that are set with it and
the mask that is applied without it. -/
def sex {width : ℕ} (sign fill mask : BitVec 64) (a : BitVec width) : BitVec 64 :=
  if a.setWidth 64 &&& sign ≠ 0 then fill ||| a.setWidth 64 else a.setWidth 64 &&& mask

def sex16 (a : BitVec 16) : BitVec 64 := sex 0x8000 0xFFFFFFFFFFFF0000 0x7FFF a
def sex16to32 (a : BitVec 16) : BitVec 64 := sex 0x8000 0xFFFF0000 0x7FFFFFFF a
def sex32 (a : BitVec 32) : BitVec 64 := sex 0x80000000 0xFFFFFFFF00000000 0x7FFFFFFF a

/-- The sign extension of bytes, which has no mask. -/
def sex24 (a : BitVec 32) : BitVec 64 :=
  if a &&& 0x80 ≠ 0 then 0xFFFFFFFFFFFFFF00 ||| a.setWidth 64 else a.setWidth 64

/-- The pattern tests the sign of a field, and its mask keeps what is below the sign. -/
theorem sex_eq {n : ℕ} (a : BitVec n) (fill mask : BitVec 64) (hn : 0 < n) (hwide : n ≤ 64)
    (hmask : ∀ i < n - 1, mask.getLsbD i = true) :
    sex (BitVec.twoPow 64 (n - 1)) fill mask a =
      if a.msb then a.setWidth 64 ||| fill else a.setWidth 64 := by
  have hlast : n - 1 < 64 := by omega
  have hbit : (a.setWidth 64).getLsbD (n - 1) = a.msb := by
    rw [BitVec.getLsbD_setWidth, BitVec.msb_eq_getLsbD_last, decide_eq_true hlast, Bool.true_and]
  have hpow : BitVec.twoPow 64 (n - 1) ≠ 0 := by
    intro hzero
    have hset := congrArg (BitVec.getLsbD · (n - 1)) hzero
    simp [hlast] at hset
  rw [sex, BitVec.and_twoPow, hbit, BitVec.or_comm]
  cases hmsb : a.msb with
  | false =>
      rw [if_neg Bool.false_ne_true, if_neg Bool.false_ne_true,
        if_neg (show ¬0#64 ≠ 0 from not_not.mpr rfl)]
      apply BitVec.eq_of_getLsbD_eq
      intro i hi
      rw [BitVec.getLsbD_and, BitVec.getLsbD_setWidth]
      by_cases hlow : i < n - 1
      · rw [hmask i hlow, Bool.and_true]
      · have hclear : a.getLsbD i = false := by
          by_cases hsign : i = n - 1
          · rw [hsign, ← BitVec.msb_eq_getLsbD_last, hmsb]
          · exact BitVec.getLsbD_of_ge a i (by omega)
        rw [hclear, Bool.and_false, Bool.false_and]
  | true => rw [if_pos rfl, if_pos rfl, if_pos hpow]

theorem sex16_eq (a : BitVec 16) : sex16 a = a.signExtend 64 :=
  (sex_eq a 0xFFFFFFFFFFFF0000 0x7FFF (by decide) (by decide) (by decide)).trans
    (Fields.or_shiftLeft_allOnes a)

theorem sex32_eq (a : BitVec 32) : sex32 a = a.signExtend 64 :=
  (sex_eq a 0xFFFFFFFF00000000 0x7FFFFFFF (by decide) (by decide) (by decide)).trans
    (Fields.or_shiftLeft_allOnes a)

theorem sex16to32_eq (a : BitVec 16) : (sex16to32 a).setWidth 32 = a.signExtend 32 := by
  have hsex := sex_eq a 0xFFFF0000 0x7FFFFFFF (by decide) (by decide) (by decide)
  have hnarrow : (a.setWidth 64).setWidth 32 = a.setWidth 32 := by
    exact BitVec.setWidth_setWidth_of_le a (by decide)
  rw [← Fields.or_shiftLeft_allOnes]
  refine (congrArg (BitVec.setWidth 32) hsex).trans ?_
  rw [apply_ite (BitVec.setWidth 32), BitVec.setWidth_or, hnarrow]
  rfl

theorem sex24_eq (a : BitVec 8) : sex24 (a.setWidth 32) = a.signExtend 64 := by
  revert a
  decide

def neg64 (x : BitVec 64) : Bool := x >>> 63 == 1
def pos64 (x : BitVec 64) : Bool := x >>> 63 == 0

/-- A C truth value in a register. -/
def truth (b : Bool) : BitVec 64 := if b then 1 else 0

/-- A division of the host, which traps it on a zero divisor and where the quotient of
the most negative number does not fit. -/
def hostDiv (a b : BitVec 32) : Option (BitVec 32 × BitVec 32) :=
  if b = 0 ∨ (a = 0x80000000 ∧ b = -1) then none else some (a.sdiv b, a.srem b)

/-- A division of unsigned words of the host. -/
def hostDivU (a b : BitVec 32) : Option (BitVec 32 × BitVec 32) :=
  if b = 0 then none else some (a / b, a % b)

namespace Barrel

def setpc (s : Barrel μ) (w : BitVec 64) : Barrel μ := { s with nextPc := w }

def regfileUp (s : Barrel μ) (d : Reg) (w : BitVec 64) : Barrel μ :=
  if d ≠ 0 then { s with regfile := Function.update s.regfile d w } else s

/-- The register's number is compared with the character of the operator, and no
exception is raised. -/
def regfileUpXflow64 (s : Barrel μ) (d : Reg) (_op : Char) (a0 a1 : BitVec 64) : Barrel μ :=
  let v := if d.toNat = '-'.toNat then a0 - a1 else a0 + a1
  s.regfileUp d v

def regfileUpXflow32 (s : Barrel μ) (d : Reg) (_op : Char) (a0 a1 : BitVec 64) : Barrel μ :=
  let w : BitVec 32 := (if d.toNat = '-'.toNat then a0 - a1 else a0 + a1).setWidth 32
  s.regfileUp d (sex32 w)

/-- The read of an instruction through the cache.  The loop fills a line at most once,
as it then has the tag it is looking for. -/
def cpuMemR32i (node : Node μ) (s : Barrel μ) (a : BitVec 64) :
    Option (Barrel μ × BitVec 32) :=
  let index : BitVec 10 := (a >>> 13).setWidth 10
  let word (d : BitVec 64) : BitVec 32 :=
    if a.getLsbD 2 = node.bigEndian then d.setWidth 32 else (d >>> 32).setWidth 32
  if a &&& ~~~7 = (s.icache index).a then some (s, word (s.icache index).d)
  else
    let read := node.evalMem64 s.memory (a &&& ~~~7)
    if read.ok then
      some ({ s with
        icache := Function.update s.icache index ⟨a &&& ~~~7, read.data⟩
        memory := read.memory }, word read.data)
    else none

/-- The reads of data.  The result of the access is dropped. -/
def cpuMemR64 (node : Node μ) (s : Barrel μ) (a : BitVec 64) : Barrel μ × BitVec 64 :=
  let read := node.evalMem64 s.memory a
  ({ s with memory := read.memory }, read.data)

def cpuMemR32 (node : Node μ) (s : Barrel μ) (a : BitVec 64) (linked : Bool) :
    Barrel μ × BitVec 64 :=
  let read := node.evalMem32 s.memory a linked
  ({ s with memory := read.memory }, read.data.setWidth 64)

def cpuMemR16 (node : Node μ) (s : Barrel μ) (a : BitVec 64) : Barrel μ × BitVec 64 :=
  let read := node.evalMem16 s.memory a
  ({ s with memory := read.memory }, read.data.setWidth 64)

def cpuMemR8 (node : Node μ) (s : Barrel μ) (a : BitVec 64) : Barrel μ × BitVec 64 :=
  let read := node.evalMem8 s.memory a
  ({ s with memory := read.memory }, read.data.setWidth 64)

/-- The fields from which a load is written back. -/
def writeBack (s : Barrel μ) (r : Reg) (data : BitVec 64) : Barrel μ :=
  { s with writeBackReg := r, writeBackData := data, writeBackFlag := true }

def coprocessorRead (s : Barrel μ) (cp : BitVec 2) (r : Reg) : Option (BitVec 64) :=
  if cp = 0 then
    if r = 12 then some s.cp0Status
    else if r = 4 then some s.pvContext
    else none
  else none

def coprocessorWrite (s : Barrel μ) (r : Reg) (data : BitVec 64) : Option (Barrel μ) :=
  if r = 12 then some { s with cp0Status := data }
  else if r = 4 then some { s with pvContext := data }
  else none

/-- The read of the next instruction.  At address 0 there is no memory to be read. -/
def fetchNext (node : Node μ) (s : Barrel μ) : Option (Barrel μ × BitVec 32) :=
  if s.pc ≠ 0 then s.cpuMemR32i node s.pc else some (s, 0)

/-- The instruction just fetched is dropped after a likely branch that was not taken. -/
def nullify (s : Barrel μ) : Barrel μ :=
  if s.skipNext > 0 then { s with skipNext := s.skipNext - 1, nextIns := 0 } else s

/-- The second stage of the loads, which is for load delay slots. -/
def shiftWriteBack (s : Barrel μ) : Barrel μ :=
  let s := if s.writeBackFlag1 then
      let s := { s with writeBackFlag1 := false }
      if s.writeBackReg ≠ 0 then
        { s with regfile := Function.update s.regfile s.writeBackReg1 s.writeBackData1 }
      else s
    else s
  { s with
    writeBackFlag1 := s.writeBackFlag
    writeBackData1 := s.writeBackData
    writeBackReg1 := s.writeBackReg
    writeBackFlag := false }

/-- The start of a step: the instruction that was fetched before is to be executed, and
the one after it is fetched. -/
def advance (node : Node μ) (s : Barrel μ) : Option (Barrel μ × BitVec 32) :=
  if s.stalled then some ({ s with stalled := false }, 0)
  else
    (fetchNext node { s with pc := s.nextPc }).map fun (fetched, word) =>
      let next := nullify { fetched with nextIns := word }
      (shiftWriteBack { next with nextPc := next.pc + 4 }, s.nextIns)

/-- MULT, which multiplies the whole registers. -/
def mult (s : Barrel μ) (ins : BitVec 32) : Barrel μ :=
  let product := s.regfile (rs ins) * s.regfile (rt ins)
  { s with
    multhi := sex32 ((product.sshiftRight 32).setWidth 32)
    multlo := sex32 (product.setWidth 32) }

def multu (s : Barrel μ) (ins : BitVec 32) : Barrel μ :=
  let product := s.regfile (rs ins) * s.regfile (rt ins)
  { s with
    multhi := sex32 ((product >>> 32).setWidth 32)
    multlo := sex32 (product.setWidth 32) }

/-- The two divisions of words, with the host's division. -/
def divide (host : BitVec 32 → BitVec 32 → Option (BitVec 32 × BitVec 32)) (s : Barrel μ)
    (ins : BitVec 32) : Option (Barrel μ) :=
  (host ((s.regfile (rs ins)).setWidth 32) ((s.regfile (rt ins)).setWidth 32)).map
    fun (quotient, remainder) =>
      { s with multhi := sex32 remainder, multlo := sex32 quotient }

/-- The instructions of opcode 0.  Those of the presence bits fail an assertion of the
node, and so does what is not implemented. -/
def special (node : Node μ) (s : Barrel μ) (ins : BitVec 32) : Option (Barrel μ) :=
  let a := s.regfile (rs ins)
  let b := s.regfile (rt ins)
  match scode ins with
  | 0o00 => some (s.regfileUp (rd ins) (b <<< (rex ins).toNat))
  | 0o02 => some (s.regfileUp (rd ins) (b >>> (rex ins).toNat))
  | 0o03 => some (s.regfileUp (rd ins) (b.sshiftRight (rex ins).toNat))
  | 0o04 => some (s.regfileUp (rd ins) (b <<< (a &&& 31).toNat))
  | 0o06 => some (s.regfileUp (rd ins) (b >>> (a &&& 31).toNat))
  | 0o07 => some (s.regfileUp (rd ins) (b.sshiftRight (a &&& 31).toNat))
  | 0o10 => some (s.setpc a)
  | 0o11 => some ((s.regfileUp (rd ins) (s.pc + branchDelayRlaOffset)).setpc a)
  | 0o12 => some (if b = 0 then s.regfileUp (rd ins) a else s)
  | 0o13 => some (if b ≠ 0 then s.regfileUp (rd ins) a else s)
  | 0o14 => some ({ s with epc := s.pc }.setpc exceptionVector)
  | 0o15 => some ({ s with epc := s.pc }.setpc exceptionVector)
  | 0o20 => some (s.regfileUp (rd ins) s.multhi)
  | 0o21 => some { s with multhi := a }
  | 0o22 => some (s.regfileUp (rd ins) s.multlo)
  | 0o23 => some { s with multlo := a }
  | 0o24 => some (s.regfileUp (rd ins) (b <<< (a &&& 63).toNat))
  -- MYAF runs on into MULT
  | 0o25 => some ((s.regfileUp (rd ins) (8 * (rt ins).setWidth 64)).mult ins)
  | 0o30 => some (s.mult ins)
  | 0o31 => some (s.multu ins)
  | 0o32 => s.divide hostDiv ins
  | 0o33 => s.divide hostDivU ins
  | 0o40 => some (s.regfileUpXflow32 (rd ins) '+' a b)
  | 0o41 => some (s.regfileUp (rd ins) (a + b))
  | 0o42 => some (s.regfileUpXflow32 (rd ins) '-' a b)
  | 0o43 => some (s.regfileUp (rd ins) (sex32 ((a - b).setWidth 32)))
  | 0o44 => some (s.regfileUp (rd ins) (a &&& b))
  | 0o45 => some (s.regfileUp (rd ins) (a ||| b))
  | 0o46 => some (s.regfileUp (rd ins) (a ^^^ b))
  | 0o47 => some (s.regfileUp (rd ins) (~~~(a ||| b)))
  | 0o52 => some (s.regfileUp (rd ins) (truth (a.slt b)))
  | 0o53 => some (s.regfileUp (rd ins) (truth (a.ult b)))
  | 0o55 => some (s.regfileUpXflow64 (rd ins) '+' a b)
  | 0o57 => some (s.regfileUpXflow64 (rd ins) '-' a b)
  | 0o64 => if a = b then none else some s
  | 0o70 => some (s.regfileUp (rd ins) (b <<< (rex ins).toNat))
  | 0o72 => some (s.regfileUp (rd ins) (b >>> (rex ins).toNat))
  | 0o74 => some (s.regfileUp (rd ins) (b <<< (32 + (rex ins).toNat)))
  | 0o75 => some { s with memory := node.setMem64 s.memory a b }
  | 0o76 => some (s.regfileUp (rd ins) (b >>> (32 + (rex ins).toNat)))
  | 0o77 => some (s.regfileUp (rd ins) (b.sshiftRight (32 + (rex ins).toNat)))
  | _ => none

/-- The branches that are told apart by their register field. -/
def bcond (s : Barrel μ) (ins : BitVec 32) : Barrel μ :=
  let link (s : Barrel μ) := { s with regfile := Function.update s.regfile 31 (s.pc + 8) }
  let negative (s : Barrel μ) := s.regfile (rs ins) &&& ((1 : BitVec 64) <<< 63) ≠ 0
  let branch (s : Barrel μ) := { s with pc := s.pc + sex16 (imm ins) <<< 2 }
  if rt ins = 0x00 then if negative s then branch s else s
  else if rt ins = 0x10 then if negative (link s) then branch (link s) else link s
  else if rt ins = 0x01 then if ¬negative s then branch s else s
  else if rt ins = 0x11 then if ¬negative (link s) then branch (link s) else link s
  else s

/-- The offset of BEQ and BEQL, an int. -/
def branchOffset (ins : BitVec 32) : BitVec 64 :=
  (((sex16 (imm ins)).setWidth 32) <<< 2).signExtend 64

def jumpTarget (s : Barrel μ) (ins : BitVec 32) : BitVec 64 :=
  (s.pc &&& (0xFFFFFFFFF0000000 : BitVec 64)) ||| target ins <<< 2

def beql (s : Barrel μ) (ins : BitVec 32) : Barrel μ :=
  if s.regfile (rs ins) = s.regfile (rt ins) then s.setpc (s.pc + branchOffset ins)
  else { s with skipNext := 1 }

/-- The moves of coprocessor 0, which run on into BEQL. -/
def cop0 (s : Barrel μ) (ins : BitVec 32) : Option (Barrel μ) :=
  if rs ins = 0 ∨ rs ins = 1 then
    (s.coprocessorRead 0 (rd ins)).map fun data => (s.regfileUp (rt ins) data).beql ins
  else if rs ins = 4 ∨ rs ins = 5 then
    (s.coprocessorWrite (rd ins) (s.regfile (rt ins))).map fun s => s.beql ins
  else none

/-- The instructions of the other opcodes.  `tmp64` is what the local variable of that
name holds before it is assigned. -/
def execute (node : Node μ) (s : Barrel μ) (tmp64 : BitVec 64) (ins : BitVec 32) :
    Option (Barrel μ) :=
  let a := s.regfile (rs ins)
  let b := s.regfile (rt ins)
  let ea := a + sex16 (imm ins)
  match opcode ins with
  | 0o01 => some (s.bcond ins)
  | 0o02 => some (s.setpc (s.jumpTarget ins))
  | 0o03 => some ((s.regfileUp 31 (s.pc + branchDelayRlaOffset)).setpc (s.jumpTarget ins))
  | 0o04 => some (if a = b then s.setpc (s.pc + branchOffset ins) else s)
  | 0o05 => some (if a ≠ b then s.setpc (s.pc + sex16 (imm ins) <<< 2) else s)
  | 0o06 => some (if neg64 a ∨ a = 0 then s.setpc (s.pc + sex16 (imm ins) <<< 2) else s)
  | 0o07 => some (if pos64 a ∧ a ≠ 0 then s.setpc (s.pc + sex16 (imm ins) <<< 2) else s)
  | 0o10 => some (s.regfileUpXflow32 (rt ins) '+' a (sex16to32 (imm ins)))
  | 0o11 => some (s.regfileUp (rt ins) (sex32 ((a + sex16to32 (imm ins)).setWidth 32)))
  | 0o12 => some (s.regfileUp (rt ins) (truth (a.slt (sex16 (imm ins)))))
  | 0o13 => some (s.regfileUp (rt ins) (truth (a.ult (sex16 (imm ins)))))
  | 0o14 => some (s.regfileUp (rt ins) (a &&& (imm ins).setWidth 64))
  | 0o15 => some (s.regfileUp (rt ins) (a ||| (imm ins).setWidth 64))
  | 0o16 => some (s.regfileUp (rt ins) (a ^^^ (imm ins).setWidth 64))
  | 0o17 => some (s.regfileUp (rt ins) (((imm ins).setWidth 32 <<< 16).signExtend 64))
  | 0o20 => s.cop0 ins
  | 0o24 => some (s.beql ins)
  | 0o30 => some (s.regfileUpXflow64 (rt ins) '+' a (sex16 (imm ins)))
  | 0o31 => some (s.regfileUp (rt ins) (a + sex16 (imm ins)))
  | 0o40 =>
      let (s, data) := s.cpuMemR8 node ea
      some (s.writeBack (rt ins) (sex24 ((data &&& 0xFF).setWidth 32)))
  -- LH does not say which register its data are for
  | 0o41 =>
      let (s, data) := s.cpuMemR64 node ea
      some (s.writeBack s.writeBackReg (sex16 ((data &&& 0xFFFF).setWidth 16)))
  | 0o43 =>
      let (s, data) := s.cpuMemR32 node ea false
      some (s.writeBack (rt ins) (sex32 ((data &&& 0xFFFFFFFF).setWidth 32)))
  | 0o44 =>
      let (s, data) := s.cpuMemR8 node ea
      some (s.writeBack (rt ins) (data &&& 0xFF))
  | 0o45 =>
      let (s, data) := s.cpuMemR16 node ea
      some (s.writeBack (rt ins) (data &&& 0xFFFF))
  | 0o50 => some { s with memory := node.setMem8 s.memory ea (b.setWidth 8) }
  | 0o51 => some { s with memory := node.setMem16 s.memory ea (b.setWidth 16) }
  | 0o53 => some { s with memory := node.setMem32 s.memory ea (b.setWidth 32) }
  | 0o60 =>
      let (s, data) := s.cpuMemR32 node ea true
      some (s.writeBack (rt ins) data)
  | 0o61 | 0o62 | 0o63 =>
      let (s, data) := s.cpuMemR64 node ea
      s.coprocessorWrite (rt ins) data
  | 0o67 =>
      let (s, data) := s.cpuMemR64 node ea
      some (s.writeBack (rt ins) data)
  -- the return code is taken for the register
  | 0o70 =>
      let (outcome, memory) := node.cpuMemStoreConditional32 s.memory ea (b.setWidth 32)
      some ({ s with memory := memory }.writeBack outcome.code tmp64)
  | 0o71 | 0o72 | 0o73 =>
      (s.coprocessorRead (ins.extractLsb' 26 2) (rt ins)).map fun _ =>
        { s with memory := node.setMem64 s.memory ea b }
  | 0o77 => some { s with memory := node.setMem64 s.memory ea b }
  | _ => none

/-- The end of a step: without load delay slots a load is written back at once. -/
def loadBack (s : Barrel μ) : Barrel μ :=
  if s.writeBackFlag then
    let s := { s with writeBackFlag := false }
    if s.writeBackReg ≠ 0 then
      { s with regfile := Function.update s.regfile s.writeBackReg s.writeBackData }
    else s
  else s

/-- A step of the interpreter, `none` once it has stopped the simulator: it has failed an
assertion, met what it does not implement or been trapped by the host. -/
def step (node : Node μ) (s : Barrel μ) (tmp64 : BitVec 64) : Option (Barrel μ) :=
  (s.advance node).bind fun (s, ins) =>
    (if opcode ins = 0 then s.special node ins else s.execute node tmp64 ins).map loadBack

/-- A new way, with whatever was in the fields that the constructor leaves. -/
def construct (s : Barrel μ) : Barrel μ :=
  { s with
    cp0Status := 1 <<< 28
    stalled := false
    skipNext := 0
    pvContext := 0
    nextIns := 0
    nextPc := 0
    pc := 0
    regfile := Function.update s.regfile 0 0 }

def reset (resetVector : BitVec 64) (s : Barrel μ) : Barrel μ :=
  setpc { s with
    writeBackFlag := false
    writeBackFlag1 := false
    nextIns := 0
    icache := fun i => { s.icache i with a := 1 } } resetVector

/-! ## What a step leaves -/

/-- The register file after a write, which leaves register 0. -/
def written (regs : Reg → BitVec 64) (d : Reg) (w : BitVec 64) : Reg → BitVec 64 :=
  if d ≠ 0 then Function.update regs d w else regs

@[simp]
theorem written_zero (regs : Reg → BitVec 64) (w : BitVec 64) : written regs 0 w = regs :=
  if_neg (not_not.mpr rfl)

theorem written_of_ne {regs : Reg → BitVec 64} {d : Reg} (hd : d ≠ 0) (w : BitVec 64) :
    written regs d w = Function.update regs d w := if_pos hd

@[simp]
theorem written_apply_zero (regs : Reg → BitVec 64) (d : Reg) (w : BitVec 64) :
    written regs d w 0 = regs 0 := by
  by_cases hd : d = 0
  · rw [hd, written_zero]
  · rw [written_of_ne hd, Function.update_of_ne (Ne.symm hd)]

theorem written_eq_written_iff (regs : Reg → BitVec 64) (d : Reg) (v w : BitVec 64) :
    written regs d v = written regs d w ↔ d = 0 ∨ v = w := by
  by_cases hd : d = 0
  · rw [hd, written_zero, written_zero]
    exact iff_of_true rfl (.inl rfl)
  · rw [written_of_ne hd, written_of_ne hd, or_iff_right hd]
    exact (Function.update_injective regs d).eq_iff

theorem written_eq_self_iff (regs : Reg → BitVec 64) (d : Reg) (w : BitVec 64) :
    written regs d w = regs ↔ d = 0 ∨ regs d = w := by
  by_cases hd : d = 0
  · rw [hd, written_zero]
    exact iff_of_true rfl (.inl rfl)
  · rw [written_of_ne hd, or_iff_right hd, Function.update_eq_self_iff, eq_comm]

theorem regfileUp_eq (s : Barrel μ) (d : Reg) (w : BitVec 64) :
    s.regfileUp d w = { s with regfile := written s.regfile d w } := by
  by_cases hd : d = 0
  · rw [hd, written_zero]
    exact if_neg (not_not.mpr rfl)
  · rw [written_of_ne hd]
    exact if_pos hd

theorem reg_ne_minus (d : Reg) : ¬d.toNat = '-'.toNat := by
  have hlt := d.isLt
  have hminus : '-'.toNat = 45 := rfl
  omega

/-- Whatever the operator is, the operands are added. -/
theorem regfileUpXflow64_eq (s : Barrel μ) (d : Reg) (op : Char) (a0 a1 : BitVec 64) :
    s.regfileUpXflow64 d op a0 a1 = s.regfileUp d (a0 + a1) := by
  rw [regfileUpXflow64, if_neg (reg_ne_minus d)]

theorem regfileUpXflow32_eq (s : Barrel μ) (d : Reg) (op : Char) (a0 a1 : BitVec 64) :
    s.regfileUpXflow32 d op a0 a1 = s.regfileUp d (sex32 ((a0 + a1).setWidth 32)) := by
  rw [regfileUpXflow32, if_neg (reg_ne_minus d)]

/-- A way between two steps: no load is under way and register 0 is zero. -/
structure Settled (s : Barrel μ) : Prop where
  running : s.stalled = false
  noLoad : s.writeBackFlag = false
  noLoad1 : s.writeBackFlag1 = false
  zero : s.regfile 0 = 0

/-- A way that has been reset is settled. -/
theorem settled_reset (resetVector : BitVec 64) (s : Barrel μ) :
    (s.construct.reset resetVector).Settled := by
  refine ⟨rfl, rfl, rfl, ?_⟩
  change Function.update s.regfile 0 0 0 = 0
  rw [Function.update_self]

/-- What no instruction touches. -/
structure Keeps (s s' : Barrel μ) : Prop where
  stalled : s'.stalled = s.stalled
  writeBackFlag1 : s'.writeBackFlag1 = s.writeBackFlag1
  nextIns : s'.nextIns = s.nextIns
  zero : s'.regfile 0 = s.regfile 0

/-- What only an instruction that changes the flow of control touches. -/
structure Sequential (s s' : Barrel μ) : Prop extends Keeps s s' where
  nextPc : s'.nextPc = s.nextPc
  skipNext : s'.skipNext = s.skipNext

variable {node : Node μ} {s s' mid : Barrel μ} {ins : BitVec 32} {tmp64 : BitVec 64}

theorem sequential_refl (s : Barrel μ) : Sequential s s :=
  ⟨⟨rfl, rfl, rfl, rfl⟩, rfl, rfl⟩

theorem sequential_regfileUp (s : Barrel μ) (d : Reg) (w : BitVec 64) :
    Sequential s (s.regfileUp d w) := by
  rw [regfileUp_eq]
  exact ⟨⟨rfl, rfl, rfl, written_apply_zero s.regfile d w⟩, rfl, rfl⟩

theorem sequential_mult (s : Barrel μ) (ins : BitVec 32) : Sequential s (s.mult ins) :=
  ⟨⟨rfl, rfl, rfl, rfl⟩, rfl, rfl⟩

theorem Sequential.trans {s'' : Barrel μ} (h : Sequential s s') (h' : Sequential s' s'') :
    Sequential s s'' :=
  ⟨⟨h'.stalled.trans h.stalled, h'.writeBackFlag1.trans h.writeBackFlag1,
    h'.nextIns.trans h.nextIns, h'.zero.trans h.zero⟩, h'.nextPc.trans h.nextPc,
    h'.skipNext.trans h.skipNext⟩

theorem Sequential.setpc (h : Sequential s s') (w : BitVec 64) : Keeps s (s'.setpc w) :=
  ⟨h.stalled, h.writeBackFlag1, h.nextIns, h.zero⟩

theorem Sequential.beql (h : Sequential s s') (ins : BitVec 32) : Keeps s (s'.beql ins) := by
  rw [Barrel.beql]
  split
  · exact h.setpc _
  · exact ⟨h.stalled, h.writeBackFlag1, h.nextIns, h.zero⟩

theorem sequential_regfileUpXflow32 (s : Barrel μ) (d : Reg) (op : Char) (a0 a1 : BitVec 64) :
    Sequential s (s.regfileUpXflow32 d op a0 a1) := by
  rw [regfileUpXflow32_eq]
  exact sequential_regfileUp s d _

theorem sequential_regfileUpXflow64 (s : Barrel μ) (d : Reg) (op : Char) (a0 a1 : BitVec 64) :
    Sequential s (s.regfileUpXflow64 d op a0 a1) := by
  rw [regfileUpXflow64_eq]
  exact sequential_regfileUp s d _

theorem sequential_divide {host : BitVec 32 → BitVec 32 → Option (BitVec 32 × BitVec 32)}
    (hdivide : s.divide host ins = some s') : Sequential s s' := by
  obtain ⟨result, -, hs'⟩ := Option.map_eq_some_iff.mp hdivide
  rw [← hs']
  exact ⟨⟨rfl, rfl, rfl, rfl⟩, rfl, rfl⟩

theorem sequential_ite {p : Prop} [Decidable p] {a b : Barrel μ} (ha : Sequential s a)
    (hb : Sequential s b) : Sequential s (if p then a else b) := by
  split
  · exact ha
  · exact hb

theorem sequential_coprocessorWrite {r : Reg} {data : BitVec 64}
    (hwrite : s.coprocessorWrite r data = some s') : Sequential s s' := by
  rw [coprocessorWrite] at hwrite
  split at hwrite
  · cases hwrite
    exact ⟨⟨rfl, rfl, rfl, rfl⟩, rfl, rfl⟩
  · split at hwrite
    · cases hwrite
      exact ⟨⟨rfl, rfl, rfl, rfl⟩, rfl, rfl⟩
    · cases hwrite

theorem sequential_bcond (s : Barrel μ) (ins : BitVec 32) : Sequential s (s.bcond ins) := by
  have hne : (0 : Reg) ≠ 31 := by decide
  have hlink : Sequential s { s with regfile := Function.update s.regfile 31 (s.pc + 8) } :=
    ⟨⟨rfl, rfl, rfl, Function.update_of_ne hne (s.pc + 8) s.regfile⟩, rfl, rfl⟩
  have hbranch {mid : Barrel μ} (hmid : Sequential s mid) (w : BitVec 64) :
      Sequential s { mid with pc := w } :=
    ⟨⟨hmid.stalled, hmid.writeBackFlag1, hmid.nextIns, hmid.zero⟩, hmid.nextPc, hmid.skipNext⟩
  have hself := sequential_refl s
  rw [bcond]
  apply sequential_ite (sequential_ite (hbranch hself _) hself)
  apply sequential_ite (sequential_ite (hbranch hlink _) hlink)
  apply sequential_ite (sequential_ite (hbranch hself _) hself)
  exact sequential_ite (sequential_ite (hbranch hlink _) hlink) hself

/-- What an instruction of opcode 0 does: it goes on in sequence, or it is a jump or a
trap and sets the program counter. -/
theorem special_cases (hspecial : s.special node ins = some s') :
    Sequential s s' ∨ scode ins ∈ [0o10, 0o11, 0o14, 0o15] ∧
      ∃ mid w, Sequential s mid ∧ s' = mid.setpc w := by
  have hself := sequential_refl s
  have hup := sequential_regfileUp s
  unfold special at hspecial
  split at hspecial
  case h_7 hcode =>
      exact .inr ⟨hcode ▸ by decide, s, _, hself, (Option.some.inj hspecial).symm⟩
  case h_8 hcode =>
      exact .inr ⟨hcode ▸ by decide, _, _, hup _ _, (Option.some.inj hspecial).symm⟩
  case h_11 hcode =>
      exact .inr ⟨hcode ▸ by decide, { s with epc := s.pc }, _, ⟨⟨rfl, rfl, rfl, rfl⟩, rfl, rfl⟩,
        (Option.some.inj hspecial).symm⟩
  case h_12 hcode =>
      exact .inr ⟨hcode ▸ by decide, { s with epc := s.pc }, _, ⟨⟨rfl, rfl, rfl, rfl⟩, rfl, rfl⟩,
        (Option.some.inj hspecial).symm⟩
  all_goals left
  case h_9 => exact Option.some.inj hspecial ▸ sequential_ite (hup _ _) hself
  case h_10 => exact Option.some.inj hspecial ▸ sequential_ite (hup _ _) hself
  case h_18 => exact Option.some.inj hspecial ▸ (hup _ _).trans (sequential_mult _ ins)
  case h_19 => exact Option.some.inj hspecial ▸ sequential_mult s ins
  case h_21 => exact sequential_divide hspecial
  case h_22 => exact sequential_divide hspecial
  case h_23 => exact Option.some.inj hspecial ▸ sequential_regfileUpXflow32 s _ _ _ _
  case h_25 => exact Option.some.inj hspecial ▸ sequential_regfileUpXflow32 s _ _ _ _
  case h_33 => exact Option.some.inj hspecial ▸ sequential_regfileUpXflow64 s _ _ _ _
  case h_34 => exact Option.some.inj hspecial ▸ sequential_regfileUpXflow64 s _ _ _ _
  case h_35 =>
      dsimp only at hspecial
      split at hspecial
      · cases hspecial
      · exact Option.some.inj hspecial ▸ hself
  case h_42 => cases hspecial
  -- the others write one register, HI and LO, or memory
  all_goals first
    | exact Option.some.inj hspecial ▸ hup _ _
    | exact Option.some.inj hspecial ▸ ⟨⟨rfl, rfl, rfl, rfl⟩, rfl, rfl⟩

theorem sequential_writeBack (h : Sequential s mid) (r : Reg) (data : BitVec 64) :
    Sequential s (mid.writeBack r data) :=
  ⟨⟨h.stalled, h.writeBackFlag1, h.nextIns, h.zero⟩, h.nextPc, h.skipNext⟩

theorem sequential_memory (s : Barrel μ) (memory : μ) :
    Sequential s { s with memory := memory } :=
  ⟨⟨rfl, rfl, rfl, rfl⟩, rfl, rfl⟩

theorem cop0_cases (hcop0 : s.cop0 ins = some s') :
    ∃ mid, Sequential s mid ∧ s' = mid.beql ins := by
  rw [cop0] at hcop0
  split at hcop0
  · obtain ⟨data, -, hs'⟩ := Option.map_eq_some_iff.mp hcop0
    exact ⟨_, sequential_regfileUp s _ _, hs'.symm⟩
  · split at hcop0
    · obtain ⟨mid, hmid, hs'⟩ := Option.map_eq_some_iff.mp hcop0
      exact ⟨mid, sequential_coprocessorWrite hmid, hs'.symm⟩
    · cases hcop0

/-- What an instruction of another opcode does: it goes on in sequence, sets the program
counter or ends in BEQL. -/
theorem execute_cases (hexecute : s.execute node tmp64 ins = some s') :
    Sequential s s' ∨
      opcode ins ∈ [0o02, 0o03, 0o04, 0o05, 0o06, 0o07] ∧
        (∃ mid w, Sequential s mid ∧ s' = mid.setpc w) ∨
      opcode ins ∈ [0o20, 0o24] ∧ ∃ mid, Sequential s mid ∧ s' = mid.beql ins := by
  have hself := sequential_refl s
  have hup := sequential_regfileUp s
  have hload := sequential_memory s
  have hstore {read : Option (BitVec 64)} {memory : μ}
      (hread : (read.map fun _ => { s with memory := memory }) = some s') : Sequential s s' := by
    obtain ⟨data, -, hs'⟩ := Option.map_eq_some_iff.mp hread
    exact hs' ▸ hload memory
  have hbranch {p : Prop} [Decidable p] {w : BitVec 64}
      (hop : opcode ins ∈ [0o02, 0o03, 0o04, 0o05, 0o06, 0o07])
      (htaken : some (if p then s.setpc w else s) = some s') :
      Sequential s s' ∨
        opcode ins ∈ [0o02, 0o03, 0o04, 0o05, 0o06, 0o07] ∧
          (∃ mid w, Sequential s mid ∧ s' = mid.setpc w) ∨
        opcode ins ∈ [0o20, 0o24] ∧ ∃ mid, Sequential s mid ∧ s' = mid.beql ins := by
    rw [Option.some.injEq] at htaken
    rw [← htaken]
    split
    · exact .inr (.inl ⟨hop, s, w, hself, rfl⟩)
    · exact .inl hself
  unfold execute at hexecute
  split at hexecute
  case h_1 => exact .inl (Option.some.inj hexecute ▸ sequential_bcond s ins)
  case h_2 hcode =>
      exact .inr (.inl ⟨hcode ▸ by decide, s, _, hself, (Option.some.inj hexecute).symm⟩)
  case h_3 hcode =>
      exact .inr (.inl ⟨hcode ▸ by decide, _, _, hup _ _, (Option.some.inj hexecute).symm⟩)
  case h_4 hcode => exact hbranch (hcode ▸ by decide) hexecute
  case h_5 hcode => exact hbranch (hcode ▸ by decide) hexecute
  case h_6 hcode => exact hbranch (hcode ▸ by decide) hexecute
  case h_7 hcode => exact hbranch (hcode ▸ by decide) hexecute
  case h_16 hcode => exact .inr (.inr ⟨hcode ▸ by decide, cop0_cases hexecute⟩)
  case h_17 hcode =>
      exact .inr (.inr ⟨hcode ▸ by decide, s, hself, (Option.some.inj hexecute).symm⟩)
  all_goals left
  case h_8 => exact Option.some.inj hexecute ▸ sequential_regfileUpXflow32 s _ _ _ _
  case h_18 => exact Option.some.inj hexecute ▸ sequential_regfileUpXflow64 s _ _ _ _
  case h_29 => exact (hload _).trans (sequential_coprocessorWrite hexecute)
  case h_30 => exact (hload _).trans (sequential_coprocessorWrite hexecute)
  case h_31 => exact (hload _).trans (sequential_coprocessorWrite hexecute)
  case h_34 => exact hstore hexecute
  case h_35 => exact hstore hexecute
  case h_36 => exact hstore hexecute
  case h_38 => cases hexecute
  -- the others write one register, load or store
  all_goals first
    | exact Option.some.inj hexecute ▸ hup _ _
    | exact Option.some.inj hexecute ▸ sequential_writeBack (hload _) _ _
    | exact Option.some.inj hexecute ▸ hload _

/-- The read of an instruction fills a line of the cache and does nothing else. -/
theorem cpuMemR32i_spec {a : BitVec 64} {word : BitVec 32}
    (hread : s.cpuMemR32i node a = some (s', word)) :
    ∃ icache memory, s' = { s with icache := icache, memory := memory } := by
  rw [cpuMemR32i] at hread
  dsimp only at hread
  split at hread
  · cases hread
    exact ⟨s.icache, s.memory, rfl⟩
  · split at hread
    · cases hread
      exact ⟨_, _, rfl⟩
    · cases hread

theorem fetchNext_spec {word : BitVec 32} (hfetch : s.fetchNext node = some (s', word)) :
    ∃ icache memory, s' = { s with icache := icache, memory := memory } := by
  rw [fetchNext] at hfetch
  split at hfetch
  · exact cpuMemR32i_spec hfetch
  · cases hfetch
    exact ⟨s.icache, s.memory, rfl⟩

/-- A way that has fetched a word and is about to execute the instruction before it. -/
structure Advanced (s mid : Barrel μ) (word : BitVec 32) : Prop extends Settled mid where
  regfile : mid.regfile = s.regfile
  multhi : mid.multhi = s.multhi
  multlo : mid.multlo = s.multlo
  pc : mid.pc = s.nextPc
  nextPc : mid.nextPc = s.nextPc + 4
  nextIns : mid.nextIns = if s.skipNext > 0 then 0 else word
  skipNext : mid.skipNext = if s.skipNext > 0 then s.skipNext - 1 else s.skipNext
  writeBackReg : mid.writeBackReg = s.writeBackReg

theorem advance_spec (hsettled : s.Settled) (hadvance : s.advance node = some (mid, ins)) :
    ins = s.nextIns ∧ ∃ fetched word,
      fetchNext node { s with pc := s.nextPc } = some (fetched, word) ∧
        mid.memory = fetched.memory ∧ Advanced s mid word := by
  obtain ⟨hrunning, hload, hload1, hzero⟩ := hsettled
  rw [advance, if_neg (ne_true_of_eq_false hrunning)] at hadvance
  obtain ⟨⟨fetched, word⟩, hfetch, hmid⟩ := Option.map_eq_some_iff.mp hadvance
  obtain ⟨hmid, hins⟩ := Prod.mk.inj hmid
  obtain ⟨icache, memory, hfetched⟩ := fetchNext_spec hfetch
  refine ⟨hins.symm, fetched, word, hfetch, ?_⟩
  rw [← hmid, hfetched]
  by_cases hskip : s.skipNext > 0
  · rw [nullify, if_pos hskip, shiftWriteBack, if_neg (ne_true_of_eq_false hload1)]
    exact ⟨rfl, ⟨hrunning, rfl, hload, hzero⟩, rfl, rfl, rfl, rfl, rfl, (if_pos hskip).symm,
      (if_pos hskip).symm, rfl⟩
  · rw [nullify, if_neg hskip, shiftWriteBack, if_neg (ne_true_of_eq_false hload1)]
    exact ⟨rfl, ⟨hrunning, rfl, hload, hzero⟩, rfl, rfl, rfl, rfl, rfl, (if_neg hskip).symm,
      (if_neg hskip).symm, rfl⟩

theorem loadBack_eq (s : Barrel μ) :
    s.loadBack = { s with
      writeBackFlag := false
      regfile := if s.writeBackFlag then written s.regfile s.writeBackReg s.writeBackData
        else s.regfile } := by
  cases hflag : s.writeBackFlag with
  | false =>
      rw [loadBack, if_neg (ne_true_of_eq_false hflag), if_neg Bool.false_ne_true, ← hflag]
  | true =>
      rw [loadBack, if_pos hflag, if_pos rfl]
      by_cases hzero : s.writeBackReg = 0
      · have hwritten : written s.regfile s.writeBackReg s.writeBackData = s.regfile := by
          rw [hzero, written_zero]
        rw [hwritten]
        exact if_neg (not_not.mpr hzero)
      · rw [written_of_ne hzero]
        exact if_pos hzero

theorem Keeps.settled_loadBack (hmid : mid.Settled) (h : Keeps mid s') : s'.loadBack.Settled := by
  rw [loadBack_eq]
  refine ⟨h.stalled.trans hmid.running, rfl, h.writeBackFlag1.trans hmid.noLoad1, ?_⟩
  have hzero : s'.regfile 0 = 0 := h.zero.trans hmid.zero
  dsimp only
  split
  · rw [written_apply_zero, hzero]
  · exact hzero

/-- What is executed between the start and the end of a step. -/
def perform (node : Node μ) (mid : Barrel μ) (tmp64 : BitVec 64) (ins : BitVec 32) :
    Option (Barrel μ) :=
  if opcode ins = 0 then mid.special node ins else mid.execute node tmp64 ins

theorem perform_keeps (hperform : mid.perform node tmp64 ins = some s') : Keeps mid s' := by
  rw [perform] at hperform
  split at hperform
  · rcases special_cases hperform with h | ⟨-, jumped, w, h, rfl⟩
    · exact h.toKeeps
    · exact h.setpc w
  · rcases execute_cases hperform with h | ⟨-, jumped, w, h, rfl⟩ | ⟨-, jumped, h, rfl⟩
    · exact h.toKeeps
    · exact h.setpc w
    · exact h.beql ins

theorem step_eq_some_iff : s.step node tmp64 = some s' ↔
    ∃ mid ins performed, s.advance node = some (mid, ins) ∧
      mid.perform node tmp64 ins = some performed ∧ performed.loadBack = s' := by
  rw [step, Option.bind_eq_some_iff]
  constructor
  · rintro ⟨⟨mid, ins⟩, hadvance, hstep⟩
    obtain ⟨performed, hperform, hs'⟩ := Option.map_eq_some_iff.mp hstep
    exact ⟨mid, ins, performed, hadvance, hperform, hs'⟩
  · rintro ⟨mid, ins, performed, hadvance, hperform, hs'⟩
    exact ⟨(mid, ins), hadvance, Option.map_eq_some_iff.mpr ⟨performed, hperform, hs'⟩⟩

/-- Every step ends settled. -/
theorem settled_step (hsettled : s.Settled) (hstep : s.step node tmp64 = some s') :
    s'.Settled := by
  obtain ⟨mid, ins, performed, hadvance, hperform, hs'⟩ := step_eq_some_iff.mp hstep
  obtain ⟨-, fetched, word, -, -, hmid⟩ := advance_spec hsettled hadvance
  rw [← hs']
  exact (perform_keeps hperform).settled_loadBack hmid.toSettled

/-- A way that executes an instruction on two registers at address 0x80. -/
def trial (ins : BitVec 32) (a b : BitVec 64) : Barrel Unit where
  regfile := Function.update (Function.update (fun _ => 0) 1 a) 2 b
  multhi := 0
  multlo := 0
  cp0Status := 0
  pvContext := 0
  epc := 0
  pc := 0x80
  nextPc := 0x84
  icache := fun _ => ⟨1, 0⟩
  stalled := false
  writeBackData := 0
  writeBackReg := 0
  writeBackFlag := false
  writeBackData1 := 0
  writeBackReg1 := 0
  writeBackFlag1 := false
  skipNext := 0
  nextIns := ins
  memory := ()

/-- A node whose memory reads as zero. -/
def blank : Node Unit where
  bigEndian := true
  evalMem64 := fun _ _ => ⟨true, 0, ()⟩
  evalMem32 := fun _ _ _ => ⟨true, 0, ()⟩
  evalMem16 := fun _ _ => ⟨true, 0, ()⟩
  evalMem8 := fun _ _ => ⟨true, 0, ()⟩
  setMem64 := fun _ _ _ => ()
  setMem32 := fun _ _ _ => ()
  setMem16 := fun _ _ _ => ()
  setMem8 := fun _ _ _ => ()
  cpuMemStoreConditional32 := fun _ _ _ => (.stored, ())

theorem settled_trial (ins : BitVec 32) (a b : BitVec 64) : (trial ins a b).Settled :=
  ⟨rfl, rfl, rfl, rfl⟩

end Barrel

end Prazor.Mips64
