import Prazor.Core.Guarded
import Prazor.Core.Shifts
import Prazor.Core.SignedWords
import Prazor.Mips.Barrel

/-!
# Loads and delay slots of the MIPS64 interpreter

What the architecture does in a step that loads, stores conditionally, branches or goes
on in sequence, and the runs in which the interpreter does the same.
-/

namespace Prazor.Mips64

open AddWithCarry SignedWords

/-- The jumps and the branches. -/
inductive Control
  | jr | jalr | j | jal
  | bltz | bgez | bltzal | bgezal
  | beq | bne | blez | bgtz | beql
  deriving DecidableEq

namespace Control

/-- An instruction word of this kind. -/
def Encodes (c : Control) (ins : BitVec 32) : Prop :=
  match c with
  | jr => opcode ins = 0 ∧ scode ins = 0o10
  | jalr => opcode ins = 0 ∧ scode ins = 0o11
  | bltz => opcode ins = 0o01 ∧ rt ins = 0x00
  | bgez => opcode ins = 0o01 ∧ rt ins = 0x01
  | bltzal => opcode ins = 0o01 ∧ rt ins = 0x10
  | bgezal => opcode ins = 0o01 ∧ rt ins = 0x11
  | j => opcode ins = 0o02
  | jal => opcode ins = 0o03
  | beq => opcode ins = 0o04
  | bne => opcode ins = 0o05
  | blez => opcode ins = 0o06
  | bgtz => opcode ins = 0o07
  | beql => opcode ins = 0o24

/-- Whether it is taken. -/
def taken (c : Control) (regs : Reg → BitVec 64) (ins : BitVec 32) : Bool :=
  match c with
  | jr | jalr | j | jal => true
  | bltz | bltzal => (regs (rs ins)).toInt < 0
  | bgez | bgezal => 0 ≤ (regs (rs ins)).toInt
  | beq | beql => regs (rs ins) = regs (rt ins)
  | bne => regs (rs ins) ≠ regs (rt ins)
  | blez => (regs (rs ins)).toInt ≤ 0
  | bgtz => 0 < (regs (rs ins)).toInt

/-- Where it goes to, by the address of its delay slot. -/
def destination (c : Control) (regs : Reg → BitVec 64) (ins : BitVec 32) (slot : BitVec 64) :
    BitVec 64 :=
  match c with
  | jr | jalr => regs (rs ins)
  | j | jal => slot.extractLsb' 28 36 ++ ins.extractLsb' 0 26 ++ 0#2
  | _ => slot + (imm ins ++ 0#2).signExtend 64

/-- The register that is linked to the address after the delay slot, 0 for none. -/
def linked (c : Control) (ins : BitVec 32) : Reg :=
  match c with
  | jalr => rd ins
  | jal | bltzal | bgezal => 31
  | _ => 0

end Control

/-- The loads. -/
inductive Load
  | lb | lh | lw | lbu | lhu | ll | ld
  deriving DecidableEq

namespace Load

def code : Load → BitVec 6
  | lb => 0o40
  | lh => 0o41
  | lw => 0o43
  | lbu => 0o44
  | lhu => 0o45
  | ll => 0o60
  | ld => 0o67

/-- The addressed bytes with their extension, if they can be read. -/
def value {μ : Type*} (l : Load) (node : Node μ) (memory : μ) (ea : BitVec 64) :
    Option (BitVec 64) :=
  let read {width : ℕ} (answer : Answer μ width) (extend : BitVec width → BitVec 64) :=
    if answer.ok then some (extend answer.data) else none
  match l with
  | lb => read (node.evalMem8 memory ea) (BitVec.signExtend 64)
  | lh => read (node.evalMem16 memory ea) (BitVec.signExtend 64)
  | lw => read (node.evalMem32 memory ea false) (BitVec.signExtend 64)
  | lbu => read (node.evalMem8 memory ea) (BitVec.setWidth 64)
  | lhu => read (node.evalMem16 memory ea) (BitVec.setWidth 64)
  | ll => read (node.evalMem32 memory ea true) (BitVec.signExtend 64)
  | ld => read (node.evalMem64 memory ea) id

end Load

/-- SYSCALL and BREAK. -/
def Traps (ins : BitVec 32) : Prop :=
  opcode ins = 0 ∧ (scode ins = 0o14 ∨ scode ins = 0o15)

namespace Barrel

variable {μ : Type*}

/-- The address of the operand in memory. -/
def operand (s : Barrel μ) : BitVec 64 :=
  s.regfile (rs s.nextIns) + (imm s.nextIns).signExtend 64

/-- The architecture's effect of a step that executes `s.nextIns` and fetches a word, which
is that of a delay slot when the instruction is a branch.  The word is executed in the next
step, which fetches at `nextPc`. -/
structure Architectural (node : Node μ) (memory : μ) (word : BitVec 32) (s s' : Barrel μ) :
    Prop where
  branch : ∀ c : Control, c.Encodes s.nextIns →
    s'.nextPc = (if c.taken s.regfile s.nextIns then c.destination s.regfile s.nextIns s.nextPc
      else s.nextPc + 4) ∧
    s'.nextIns = (if c = .beql ∧ c.taken s.regfile s.nextIns = false then 0 else word) ∧
    s'.regfile = written s.regfile (c.linked s.nextIns) (s.nextPc + 4)
  sequence : (∀ c : Control, ¬c.Encodes s.nextIns) → ¬Traps s.nextIns →
    s'.nextPc = s.nextPc + 4 ∧ s'.nextIns = word
  /-- The word that the next step fetches will be executed. -/
  unskipped : s'.skipNext = 0
  load : ∀ l : Load, opcode s.nextIns = l.code →
    (∀ value, l.value node memory s.operand = some value →
      s'.regfile = written s.regfile (rt s.nextIns) value) ∧
    ∀ r, r ≠ rt s.nextIns → s'.regfile r = s.regfile r
  storeConditional : opcode s.nextIns = 0o70 →
    s'.regfile = written s.regfile (rt s.nextIns)
      (if (node.cpuMemStoreConditional32 memory s.operand
        ((s.regfile (rt s.nextIns)).setWidth 32)).1 = .stored then 1 else 0)

/-- A step is the architecture's, if it does not stop the simulator. -/
def Runs (node : Node μ) (s : Barrel μ) (tmp64 : BitVec 64) : Prop :=
  ∀ s', s.step node tmp64 = some s' →
    ∃ fetched word, fetchNext node { s with pc := s.nextPc } = some (fetched, word) ∧
      Architectural node fetched.memory word s s'

/-- The steps that meet no defect: the branches on a sign are not taken or go to where the
interpreter goes on anyway, and do not link; BEQL is taken; nothing is moved from or to
coprocessor 0; LH follows a load of its register and finds its halfword at the bottom of
the doubleword that it reads; LL loads a word that is not negative; and what SC leaves in
the register that is its return code happens to be right. -/
structure Spared (node : Node μ) (memory : μ) (tmp64 : BitVec 64) (s : Barrel μ) : Prop where
  unlinked : ¬Control.bltzal.Encodes s.nextIns ∧ ¬Control.bgezal.Encodes s.nextIns
  bltz : Control.bltz.Encodes s.nextIns →
    (s.regfile (rs s.nextIns)).toInt < 0 → imm s.nextIns = 1
  bgez : Control.bgez.Encodes s.nextIns →
    0 ≤ (s.regfile (rs s.nextIns)).toInt → imm s.nextIns = 1
  beql : Control.beql.Encodes s.nextIns →
    s.regfile (rs s.nextIns) = s.regfile (rt s.nextIns)
  cop0 : opcode s.nextIns ≠ 0o20
  lh : opcode s.nextIns = 0o41 → s.writeBackReg = rt s.nextIns ∧
    (node.evalMem64 memory s.operand).data.setWidth 16 = (node.evalMem16 memory s.operand).data
  ll : opcode s.nextIns = 0o60 → (node.evalMem32 memory s.operand true).data.msb = false
  sc : opcode s.nextIns = 0o70 →
    match (node.cpuMemStoreConditional32 memory s.operand
      ((s.regfile (rt s.nextIns)).setWidth 32)).1 with
    | .lost => s.regfile (rt s.nextIns) = 0
    | .stored => rt s.nextIns = 1 ∧ tmp64 = 1
    | .failed => rt s.nextIns = 2 ∧ tmp64 = 0

variable {node : Node μ} {s s' mid : Barrel μ} {ins : BitVec 32} {tmp64 : BitVec 64}

/-! ## Branches -/

theorem neg64_eq (x : BitVec 64) : neg64 x = decide (x.toInt < 0) := by
  have hlt := x.isLt
  apply decide_eq_decide.mpr
  rw [← BitVec.toNat_inj, BitVec.toNat_ushiftRight, Nat.shiftRight_eq_div_pow,
    BitVec.toInt_eq_toNat_cond, show (1 : BitVec 64).toNat = 1 from rfl]
  split <;> omega

theorem pos64_eq (x : BitVec 64) : pos64 x = decide (0 ≤ x.toInt) := by
  have hlt := x.isLt
  apply decide_eq_decide.mpr
  rw [← BitVec.toNat_inj, BitVec.toNat_ushiftRight, Nat.shiftRight_eq_div_pow,
    BitVec.toInt_eq_toNat_cond, show (0 : BitVec 64).toNat = 0 from rfl]
  split <;> omega

theorem sex16_shiftLeft (x : BitVec 16) : sex16 x <<< 2 = (x ++ 0#2).signExtend 64 := by
  rw [sex16_eq, Fields.shiftLeft_signExtend x (by decide)]

/-- The offset of BEQ is cut to an int and extended again, which changes nothing. -/
theorem branchOffset_eq (ins : BitVec 32) :
    branchOffset ins = (imm ins ++ 0#2).signExtend 64 := by
  have hlt := BitVec.toInt_lt (x := imm ins)
  have hle := BitVec.le_toInt (x := imm ins)
  have hextended : Extended 32 ((imm ins).signExtend 64) :=
    extended_signExtend (by decide) (by decide) _
  have hfits : Extended 32 ((imm ins).signExtend 64 <<< 2) := by
    rw [extended_shiftLeft_iff (by decide) (by decide) hextended,
      BitVec.toInt_signExtend_of_le (by decide)]
    constructor <;> omega
  rw [branchOffset, sex16_eq, ← low_shiftLeft (by decide), hfits,
    Fields.shiftLeft_signExtend _ (by decide)]

/-- The region of the delay slot, and the field of a jump. -/
theorem jumpTarget_eq (s : Barrel μ) (ins : BitVec 32) :
    s.jumpTarget ins = s.pc.extractLsb' 28 36 ++ ins.extractLsb' 0 26 ++ 0#2 := by
  have hregion : ∀ i < 64, (0xFFFFFFFFF0000000 : BitVec 64).getLsbD i = decide (28 ≤ i) := by
    decide
  have hfield : ∀ i < 64, (0x3FFFFFF : BitVec 32).getLsbD i = decide (i < 26) := by decide
  rw [jumpTarget, target]
  apply BitVec.eq_of_getLsbD_eq
  intro i hi
  rw [BitVec.getLsbD_or, BitVec.getLsbD_and, hregion i hi, BitVec.getLsbD_shiftLeft,
    BitVec.getLsbD_setWidth, BitVec.getLsbD_and, hfield (i - 2) (by omega),
    BitVec.getLsbD_append, BitVec.getLsbD_append, BitVec.getLsbD_extractLsb',
    BitVec.getLsbD_extractLsb']
  by_cases hlow : i < 2
  · simp [hlow, show ¬28 ≤ i by omega]
  · by_cases hmiddle : i < 28
    · simp [hi, hlow, show i - 2 < 26 by omega, show ¬28 ≤ i by omega, show i - 2 < 64 by omega]
    · simp [hi, hlow, show ¬i - 2 < 26 by omega, show 28 ≤ i by omega,
        show i - 2 - 26 < 36 by omega, show 28 + (i - 2 - 26) = i by omega]

theorem setpc_ite (s : Barrel μ) (p : Prop) [Decidable p] (w v : BitVec 64) :
    (if p then s.setpc w else s) = { s with
      regfile := written s.regfile 0 v
      nextPc := if decide p = true then w else s.nextPc } := by
  rw [written_zero]
  by_cases hp : p
  · rw [if_pos hp, if_pos (decide_eq_true hp)]
    rfl
  · rw [if_neg hp, if_neg (mt of_decide_eq_true hp)]

/-- A jump or a branch that the interpreter executes through `setpc`. -/
theorem perform_control (c : Control) (hc : c.Encodes ins) (hbcond : opcode ins ≠ 0o01)
    (hbeql : c = .beql → c.taken mid.regfile ins = true) :
    mid.perform node tmp64 ins = some { mid with
      regfile := written mid.regfile (c.linked ins) (mid.pc + 4)
      nextPc := if c.taken mid.regfile ins then c.destination mid.regfile ins mid.pc
        else mid.nextPc } := by
  cases c with
  | jr =>
      rw [perform, if_pos hc.1, special, hc.2]
      rfl
  | jalr =>
      rw [perform, if_pos hc.1, special, hc.2]
      exact congrArg (fun s => some (setpc s _)) (regfileUp_eq ..)
  | j =>
      change opcode ins = _ at hc
      rw [perform, if_neg (by rw [hc]; decide), execute, hc]
      exact congrArg (fun w => some (mid.setpc w)) (jumpTarget_eq mid ins)
  | jal =>
      change opcode ins = _ at hc
      rw [perform, if_neg (by rw [hc]; decide), execute, hc]
      dsimp only
      rw [regfileUp_eq, jumpTarget_eq]
      rfl
  | bltz => exact absurd hc.1 hbcond
  | bgez => exact absurd hc.1 hbcond
  | bltzal => exact absurd hc.1 hbcond
  | bgezal => exact absurd hc.1 hbcond
  | beq =>
      change opcode ins = _ at hc
      rw [perform, if_neg (by rw [hc]; decide), execute, hc]
      dsimp only
      rw [branchOffset_eq]
      exact congrArg some (setpc_ite mid _ _ _)
  | bne =>
      change opcode ins = _ at hc
      rw [perform, if_neg (by rw [hc]; decide), execute, hc]
      dsimp only
      rw [sex16_shiftLeft]
      exact congrArg some (setpc_ite mid _ _ _)
  | blez =>
      change opcode ins = _ at hc
      have hsign : neg64 (mid.regfile (rs ins)) = true ∨ mid.regfile (rs ins) = 0 ↔
          (mid.regfile (rs ins)).toInt ≤ 0 := by
        rw [neg64_eq, decide_eq_true_iff, ← BitVec.toInt_inj,
          show (0 : BitVec 64).toInt = 0 from rfl]
        omega
      rw [perform, if_neg (by rw [hc]; decide), execute, hc]
      dsimp only
      rw [sex16_shiftLeft]
      simp only [hsign]
      exact congrArg some (setpc_ite mid _ _ _)
  | bgtz =>
      change opcode ins = _ at hc
      have hsign : pos64 (mid.regfile (rs ins)) = true ∧ mid.regfile (rs ins) ≠ 0 ↔
          0 < (mid.regfile (rs ins)).toInt := by
        rw [pos64_eq, decide_eq_true_iff, ne_eq, ← BitVec.toInt_inj,
          show (0 : BitVec 64).toInt = 0 from rfl]
        omega
      rw [perform, if_neg (by rw [hc]; decide), execute, hc]
      dsimp only
      rw [sex16_shiftLeft]
      simp only [hsign]
      exact congrArg some (setpc_ite mid _ _ _)
  | beql =>
      change opcode ins = _ at hc
      have htaken : mid.regfile (rs ins) = mid.regfile (rt ins) :=
        of_decide_eq_true (hbeql rfl)
      have hbranch : mid.beql ins = mid.setpc (mid.pc + (imm ins ++ 0#2).signExtend 64) := by
        rw [Barrel.beql, if_pos htaken, branchOffset_eq]
      rw [perform, if_neg (by rw [hc]; decide), execute, hc, hbeql rfl, if_pos rfl]
      exact congrArg some hbranch

theorem perform_bcond (hop : opcode ins = 0o01) :
    mid.perform node tmp64 ins = some (mid.bcond ins) := by
  rw [perform, if_neg (by rw [hop]; decide), execute, hop]
  rfl

/-- A branch on a sign that does not link leaves the registers. -/
theorem bcond_unlinked (s : Barrel μ) (hrt : rt ins = 0x00 ∨ rt ins = 0x01) :
    (s.bcond ins).regfile = s.regfile ∧ (s.bcond ins).writeBackFlag = s.writeBackFlag := by
  rcases hrt with hrt | hrt
  · rw [bcond, if_pos hrt]
    dsimp only
    split
    · exact ⟨rfl, rfl⟩
    · exact ⟨rfl, rfl⟩
  · rw [bcond, if_neg (by rw [hrt]; decide), if_neg (by rw [hrt]; decide), if_pos hrt]
    dsimp only
    split
    · exact ⟨rfl, rfl⟩
    · exact ⟨rfl, rfl⟩

theorem loadBack_flow (s : Barrel μ) :
    s.loadBack.nextPc = s.nextPc ∧ s.loadBack.nextIns = s.nextIns ∧
      s.loadBack.skipNext = s.skipNext := by
  rw [loadBack_eq]
  exact ⟨rfl, rfl, rfl⟩

theorem loadBack_of_noLoad (hload : s.writeBackFlag = false) : s.loadBack = s :=
  if_neg (ne_true_of_eq_false hload)

theorem loadBack_writeBack (s : Barrel μ) (r : Reg) (data : BitVec 64) :
    (s.writeBack r data).loadBack.regfile = written s.regfile r data := by
  rw [loadBack_eq]
  rfl

/-! ## Steps -/

section Steps

variable {word : BitVec 32} {performed : Barrel μ} (hmid : Advanced s mid word)
  (hskip : s.skipNext = 0) (hspared : Spared node mid.memory tmp64 s)
  (hperform : mid.perform node tmp64 s.nextIns = some performed)

include hmid hskip in
theorem nextIns_of_advanced : mid.nextIns = word ∧ mid.skipNext = 0 := by
  have hnone : ¬s.skipNext > 0 := by
    rw [hskip]
    decide
  rw [hmid.nextIns, hmid.skipNext, if_neg hnone, if_neg hnone]
  exact ⟨rfl, hskip⟩

include hmid hskip hspared hperform in
/-- A jump or a branch goes where it should. -/
theorem branch_of_spared (c : Control) (hc : c.Encodes s.nextIns) :
    performed.loadBack.nextPc =
        (if c.taken s.regfile s.nextIns then c.destination s.regfile s.nextIns s.nextPc
          else s.nextPc + 4) ∧
      performed.loadBack.nextIns =
        (if c = .beql ∧ c.taken s.regfile s.nextIns = false then 0 else word) ∧
      performed.loadBack.regfile =
        written s.regfile (c.linked s.nextIns) (s.nextPc + 4) := by
  obtain ⟨hnextIns, -⟩ := nextIns_of_advanced hmid hskip
  have hlikely : c = .beql → c.taken s.regfile s.nextIns = true := by
    rintro rfl
    exact decide_eq_true (hspared.beql hc)
  have hslot : ¬(c = .beql ∧ c.taken s.regfile s.nextIns = false) := by
    rintro ⟨hbeql, huntaken⟩
    rw [hlikely hbeql] at huntaken
    cases huntaken
  rw [if_neg hslot]
  by_cases hbcond : opcode s.nextIns = 0o01
  · have hsign : (c.linked s.nextIns = 0 ∧ (rt s.nextIns = 0x00 ∨ rt s.nextIns = 0x01)) ∧
        (c.taken s.regfile s.nextIns = true →
          c.destination s.regfile s.nextIns s.nextPc = s.nextPc + 4) := by
      cases c with
      | bltz =>
          refine ⟨⟨rfl, .inl hc.2⟩, fun htaken => ?_⟩
          change s.nextPc + (imm s.nextIns ++ 0#2).signExtend 64 = s.nextPc + 4
          rw [hspared.bltz hc (of_decide_eq_true htaken)]
          rfl
      | bgez =>
          refine ⟨⟨rfl, .inr hc.2⟩, fun htaken => ?_⟩
          change s.nextPc + (imm s.nextIns ++ 0#2).signExtend 64 = s.nextPc + 4
          rw [hspared.bgez hc (of_decide_eq_true htaken)]
          rfl
      | bltzal => exact absurd hc hspared.unlinked.1
      | bgezal => exact absurd hc hspared.unlinked.2
      | jr | jalr => exact absurd (hbcond.symm.trans hc.1) (by decide)
      | _ => exact absurd (hbcond.symm.trans hc) (by decide)
    obtain ⟨⟨hlinked, hrt⟩, htarget⟩ := hsign
    obtain ⟨hregfile, hflag⟩ := bcond_unlinked mid hrt
    have hsequential := sequential_bcond mid s.nextIns
    rw [perform_bcond hbcond, Option.some.injEq] at hperform
    rw [← hperform, loadBack_of_noLoad (hflag.trans hmid.noLoad), hregfile, hlinked,
      written_zero, hmid.regfile, hsequential.nextPc, hsequential.nextIns, hmid.nextPc]
    refine ⟨?_, hnextIns, rfl⟩
    split
    case isTrue htaken => exact (htarget htaken).symm
    case isFalse => rfl
  · rw [perform_control c hc hbcond (by rwa [hmid.regfile]), Option.some.injEq] at hperform
    have hload : performed.writeBackFlag = false := hperform ▸ hmid.noLoad
    rw [loadBack_of_noLoad hload, ← hperform, hmid.regfile, hmid.pc, hmid.nextPc]
    exact ⟨rfl, hnextIns, rfl⟩

include hmid hspared hperform in
/-- What the instruction switch does to the flow of control, away from the defects. -/
theorem perform_flow : Sequential mid performed ∨
    ((∃ c : Control, c.Encodes s.nextIns) ∨ Traps s.nextIns) ∧
      ∃ jumped w, Sequential mid jumped ∧ performed = jumped.setpc w := by
  rw [perform] at hperform
  split at hperform
  case isTrue hop =>
      rcases special_cases hperform with hsequential | ⟨hcode, hjumped⟩
      · exact .inl hsequential
      refine .inr ⟨?_, hjumped⟩
      simp only [List.mem_cons, List.not_mem_nil, or_false] at hcode
      rcases hcode with hcode | hcode | hcode | hcode
      · exact .inl ⟨.jr, hop, hcode⟩
      · exact .inl ⟨.jalr, hop, hcode⟩
      · exact .inr ⟨hop, .inl hcode⟩
      · exact .inr ⟨hop, .inr hcode⟩
  case isFalse =>
      rcases execute_cases hperform with hsequential | ⟨hcode, hjumped⟩ | ⟨hcode, -⟩
      · exact .inl hsequential
      · refine .inr ⟨.inl ?_, hjumped⟩
        simp only [List.mem_cons, List.not_mem_nil, or_false] at hcode
        rcases hcode with hcode | hcode | hcode | hcode | hcode | hcode
        · exact ⟨.j, hcode⟩
        · exact ⟨.jal, hcode⟩
        · exact ⟨.beq, hcode⟩
        · exact ⟨.bne, hcode⟩
        · exact ⟨.blez, hcode⟩
        · exact ⟨.bgtz, hcode⟩
      · simp only [List.mem_cons, List.not_mem_nil, or_false] at hcode
        rcases hcode with hcode | hcode
        · exact absurd hcode hspared.cop0
        · have htaken : mid.regfile (rs s.nextIns) = mid.regfile (rt s.nextIns) := by
            rw [hmid.regfile]
            exact hspared.beql hcode
          rw [execute, hcode] at hperform
          have hbeql : mid.beql s.nextIns = performed := Option.some.inj hperform
          refine .inr ⟨.inl ⟨.beql, hcode⟩, mid, mid.pc + branchOffset s.nextIns,
            sequential_refl mid, ?_⟩
          exact hbeql.symm.trans (if_pos htaken)

include hmid hskip hspared hperform in
theorem sequence_of_spared (hcontrol : ∀ c : Control, ¬c.Encodes s.nextIns)
    (htraps : ¬Traps s.nextIns) :
    performed.loadBack.nextPc = s.nextPc + 4 ∧ performed.loadBack.nextIns = word := by
  obtain ⟨hnextIns, -⟩ := nextIns_of_advanced hmid hskip
  obtain ⟨hnextPc, hnextIns', -⟩ := loadBack_flow performed
  rw [hnextPc, hnextIns']
  rcases perform_flow hmid hspared hperform with hsequential | ⟨⟨c, hc⟩ | htrap, -⟩
  · exact ⟨hsequential.nextPc.trans hmid.nextPc, hsequential.nextIns.trans hnextIns⟩
  · exact absurd hc (hcontrol c)
  · exact absurd htrap htraps

include hmid hskip hspared hperform in
theorem unskipped_of_spared : performed.loadBack.skipNext = 0 := by
  obtain ⟨-, hskipNext⟩ := nextIns_of_advanced hmid hskip
  rw [(loadBack_flow performed).2.2]
  rcases perform_flow hmid hspared hperform with hsequential | ⟨-, jumped, w, hsequential, hjumped⟩
  · exact hsequential.skipNext.trans hskipNext
  · rw [hjumped]
    exact hsequential.skipNext.trans hskipNext

/-! ## Loads -/

/-- A mask that keeps all of a shorter word. -/
theorem and_mask_setWidth {width : ℕ} (hwidth : width ≤ 64) (x : BitVec width) :
    x.setWidth 64 &&& (BitVec.allOnes width).setWidth 64 = x.setWidth 64 := by
  rw [Shifts.and_setWidth_allOnes, BitVec.setWidth_setWidth_of_le x hwidth, BitVec.setWidth_eq]

theorem setWidth_and_mask {width : ℕ} (hwidth : width ≤ 64) (x : BitVec 64) :
    (x &&& (BitVec.allOnes width).setWidth 64).setWidth width = x.setWidth width := by
  rw [Shifts.and_setWidth_allOnes, BitVec.setWidth_setWidth_of_le _ hwidth, BitVec.setWidth_eq]

/-- What a load writes back, and to which register. -/
theorem perform_load (l : Load) (hl : opcode ins = l.code) {ea : BitVec 64}
    (hea : mid.regfile (rs ins) + (imm ins).signExtend 64 = ea)
    (hlh : l = Load.lh → (node.evalMem64 mid.memory ea).data.setWidth 16 =
      (node.evalMem16 mid.memory ea).data)
    (hll : l = Load.ll → (node.evalMem32 mid.memory ea true).data.msb = false) :
    ∃ memory data, mid.perform node tmp64 ins = some
        (writeBack { mid with memory := memory }
          (if l = Load.lh then mid.writeBackReg else rt ins) data) ∧
      ∀ value, l.value node mid.memory ea = some value → data = value := by
  have hop : opcode ins ≠ 0 := by
    rw [hl]
    cases l <;> decide
  have hread {width : ℕ} {answer : Answer μ width} {extend : BitVec width → BitVec 64}
      {value : BitVec 64}
      (hvalue : (if answer.ok then some (extend answer.data) else none) = some value) :
      extend answer.data = value := by
    split at hvalue
    · exact Option.some.inj hvalue
    · cases hvalue
  rw [← sex16_eq] at hea
  rw [perform, if_neg hop, execute, hl, hea]
  cases l with
  | lb =>
      refine ⟨_, _, rfl, fun value hvalue => ?_⟩
      have hbyte := and_mask_setWidth (by decide) (node.evalMem8 mid.memory ea).data
      rw [← hread hvalue, ← sex24_eq]
      apply congrArg sex24
      exact (congrArg (BitVec.setWidth 32) hbyte).trans
        (BitVec.setWidth_setWidth_of_le _ (by decide))
  | lh =>
      refine ⟨_, _, rfl, fun value hvalue => ?_⟩
      rw [← hread hvalue, ← sex16_eq, ← hlh rfl]
      exact congrArg sex16 (setWidth_and_mask (by decide) _)
  | lw =>
      refine ⟨_, _, rfl, fun value hvalue => ?_⟩
      rw [← hread hvalue, ← sex32_eq]
      apply congrArg sex32
      exact (setWidth_and_mask (by decide) _).trans
        ((BitVec.setWidth_setWidth_of_le _ (by decide)).trans (BitVec.setWidth_eq _))
  | lbu =>
      refine ⟨_, _, rfl, fun value hvalue => ?_⟩
      rw [← hread hvalue]
      exact and_mask_setWidth (by decide) _
  | lhu =>
      refine ⟨_, _, rfl, fun value hvalue => ?_⟩
      rw [← hread hvalue]
      exact and_mask_setWidth (by decide) _
  | ll =>
      refine ⟨_, _, rfl, fun value hvalue => ?_⟩
      rw [← hread hvalue]
      exact (BitVec.signExtend_eq_setWidth_of_msb_false (hll rfl)).symm
  | ld =>
      refine ⟨_, _, rfl, fun value hvalue => ?_⟩
      rw [← hread hvalue]
      rfl

include hmid hspared hperform in
/-- A load writes its register and no other one. -/
theorem load_of_spared (l : Load) (hl : opcode s.nextIns = l.code) :
    (∀ value, l.value node mid.memory s.operand = some value →
      performed.loadBack.regfile = written s.regfile (rt s.nextIns) value) ∧
    ∀ r, r ≠ rt s.nextIns → performed.loadBack.regfile r = s.regfile r := by
  have hea : mid.regfile (rs s.nextIns) + (imm s.nextIns).signExtend 64 = s.operand := by
    rw [hmid.regfile, operand]
  have hlh : l = Load.lh → (node.evalMem64 mid.memory s.operand).data.setWidth 16 =
      (node.evalMem16 mid.memory s.operand).data := by
    rintro rfl
    exact (hspared.lh hl).2
  have hll : l = Load.ll → (node.evalMem32 mid.memory s.operand true).data.msb = false := by
    rintro rfl
    exact hspared.ll hl
  obtain ⟨memory, data, hload, hvalue⟩ : ∃ memory data,
      mid.perform node tmp64 s.nextIns = some (writeBack { mid with memory := memory }
        (if l = Load.lh then mid.writeBackReg else rt s.nextIns) data) ∧
      ∀ value, l.value node mid.memory s.operand = some value → data = value :=
    perform_load l hl hea hlh hll
  have hregister : (if l = Load.lh then mid.writeBackReg else rt s.nextIns) = rt s.nextIns := by
    split
    case isTrue hlh =>
        subst hlh
        rw [hmid.writeBackReg, (hspared.lh hl).1]
    case isFalse => rfl
  rw [hregister] at hload
  rw [hload, Option.some.injEq] at hperform
  rw [← hperform, loadBack_writeBack, hmid.regfile]
  constructor
  · intro value hread
    rw [hvalue value hread]
  · intro r hr
    by_cases hzero : rt s.nextIns = 0
    · rw [hzero, written_zero]
    · rw [written_of_ne hzero, Function.update_of_ne hr]

include hmid hspared hperform in
/-- SC, where the code that it takes for a register is right. -/
theorem sc_of_spared (hop : opcode s.nextIns = 0o70) :
    performed.loadBack.regfile = written s.regfile (rt s.nextIns)
      (if (node.cpuMemStoreConditional32 mid.memory s.operand
        ((s.regfile (rt s.nextIns)).setWidth 32)).1 = .stored then 1 else 0) := by
  have hcase := hspared.sc hop
  have hea : mid.regfile (rs s.nextIns) + sex16 (imm s.nextIns) = s.operand := by
    rw [hmid.regfile, operand, sex16_eq]
  have hperformed : performed = writeBack
      { mid with memory := (node.cpuMemStoreConditional32 mid.memory s.operand
        ((s.regfile (rt s.nextIns)).setWidth 32)).2 }
      (node.cpuMemStoreConditional32 mid.memory s.operand
        ((s.regfile (rt s.nextIns)).setWidth 32)).1.code tmp64 := by
    rw [← hmid.regfile, ← hea]
    rw [perform, if_neg (by rw [hop]; decide), execute, hop] at hperform
    exact (Option.some.inj hperform).symm
  rw [hperformed, loadBack_writeBack, hmid.regfile]
  generalize (node.cpuMemStoreConditional32 mid.memory s.operand
    ((s.regfile (rt s.nextIns)).setWidth 32)).1 = outcome at hcase ⊢
  cases outcome with
  | lost =>
      have hkept : written s.regfile (rt s.nextIns) 0 = s.regfile :=
        (written_eq_self_iff ..).mpr (.inr hcase)
      exact (written_zero ..).trans hkept.symm
  | stored =>
      rw [hcase.1, hcase.2]
      rfl
  | failed =>
      rw [hcase.1, hcase.2]
      rfl

/-- A step that meets no defect. -/
theorem step_runs (hsettled : s.Settled) (hskip : s.skipNext = 0)
    (hspared : ∀ fetched word,
      fetchNext node { s with pc := s.nextPc } = some (fetched, word) →
        Spared node fetched.memory tmp64 s) : Runs node s tmp64 := by
  intro s' hstep
  obtain ⟨mid, ins, performed, hadvance, hperform, hs'⟩ := step_eq_some_iff.mp hstep
  obtain ⟨rfl, fetched, word, hfetch, hmemory, hmid⟩ := advance_spec hsettled hadvance
  have hhere := hspared fetched word hfetch
  rw [← hmemory] at hhere
  refine ⟨fetched, word, hfetch, ?_⟩
  rw [← hs', ← hmemory]
  exact ⟨branch_of_spared hmid hskip hhere hperform,
    sequence_of_spared hmid hskip hhere hperform,
    unskipped_of_spared hmid hskip hhere hperform,
    load_of_spared hmid hhere hperform, sc_of_spared hmid hhere hperform⟩

end Steps

/-! ## Runs -/

/-- The guard of a run: its steps meet no defect. -/
def Guard (node : Node μ) (s : Barrel μ) (tmp64 : BitVec 64) : Prop :=
  ∀ fetched word, fetchNext node { s with pc := s.nextPc } = some (fetched, word) →
    Spared node fetched.memory tmp64 s

/-- In every run of steps that meet no defect, from every state that has nothing to load
and to skip, every step is the architecture's, whatever the program and the memory are. -/
theorem run_architectural (node : Node μ) (s : Barrel μ) (inputs : List (BitVec 64))
    (hsettled : s.Settled) (hskip : s.skipNext = 0)
    (hguard : Guarded.Meets (step node) (Guard node) s inputs) :
    Guarded.Meets (step node) (Runs node) s inputs := by
  induction inputs generalizing s with
  | nil => trivial
  | cons tmp64 rest ih =>
      have hruns : Runs node s tmp64 := step_runs hsettled hskip hguard.1
      refine ⟨hruns, fun next hnext => ?_⟩
      obtain ⟨fetched, word, -, harchitectural⟩ := hruns next hnext
      exact ih next (settled_step hsettled hnext) harchitectural.unskipped (hguard.2 next hnext)

/-- Most opcodes meet no defect. -/
theorem spared_of_opcode (memory : μ)
    (hop : opcode s.nextIns ∉ [0o01, 0o20, 0o24, 0o41, 0o60, 0o70]) :
    Spared node memory tmp64 s := by
  simp only [List.mem_cons, List.not_mem_nil, or_false, not_or] at hop
  obtain ⟨hbcond, hcop0, hbeql, hlh, hll, hsc⟩ := hop
  exact ⟨⟨fun h => hbcond h.1, fun h => hbcond h.1⟩, fun h => absurd h.1 hbcond,
    fun h => absurd h.1 hbcond, fun h => absurd h hbeql, hcop0, fun h => absurd h hlh,
    fun h => absurd h hll, fun h => absurd h hsc⟩

/-- JAL to 0x100 at address 0x80, with a delay slot that does nothing. -/
def calling : Barrel Unit := trial 0x0C000040 0 0

/-- The call links to the address after its delay slot and is then at its target. -/
theorem run_architectural_calling :
    Guarded.Meets (step blank) (Runs blank) calling [0, 0] ∧
      ∃ final, Guarded.exec (step blank) calling [0, 0] = some final ∧
        final.nextPc = 0x104 ∧ final.regfile 31 = 0x88 := by
  refine ⟨run_architectural blank calling [0, 0] ⟨rfl, rfl, rfl, rfl⟩ rfl ?_,
    _, rfl, by decide, by decide⟩
  apply Guarded.meets_cons rfl
  · exact fun fetched word _ => spared_of_opcode _ (by decide)
  · exact ⟨fun fetched word _ => spared_of_opcode _ (by decide), fun _ _ => trivial⟩

/-- A BLTZ that is taken at address 0x80 goes on behind its delay slot and not at its target. -/
theorem not_run_architectural :
    ¬∀ (s : Barrel Unit) (inputs : List (BitVec 64)), s.Settled → s.skipNext = 0 →
      Guarded.Meets (step blank) (Runs blank) s inputs := by
  intro hclaim
  have hsettled := settled_trial 0x04200004 (-1) 0
  obtain ⟨fetched, word, -, harchitectural⟩ := (hclaim _ [0] hsettled rfl).1 _ rfl
  have hnextPc := (harchitectural.branch .bltz ⟨rfl, rfl⟩).1
  revert hnextPc
  decide

end Barrel

end Prazor.Mips64
