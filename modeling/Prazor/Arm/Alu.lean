import Prazor.Core.AddWithCarry
import Prazor.Arm.Armisa

/-!
# Data processing operations and their flags

The sixteen operations, the carry and overflow that the code finds by comparing
wrapped values, and what they are of the exact sum or difference.
-/

namespace Prazor.Arm

open AddWithCarry

/-- The sign of a word, as the operations ask for it. -/
def neg (x : BitVec 32) : Bool := decide (x >>> 31 ≠ 0)

def pos (x : BitVec 32) : Bool := decide (~~~x >>> 31 ≠ 0)

/-- A flag as a word of an expression. -/
def flagWord (flag : Bool) : BitVec 32 := BitVec.ofNat 32 flag.toNat

/-- What an operation leaves for the flags and the write back. -/
structure AluOutcome where
  result : BitVec 32
  arithmetic : Bool
  wbDefault : Bool
  carry : Bool
  overflow : Bool
  deriving DecidableEq

/-- A logical operation. -/
def logical (result : BitVec 32) (wbDefault : Bool) : AluOutcome :=
  ⟨result, false, wbDefault, false, false⟩

/-- When the sum of two words is found to overflow. -/
def addOverflows (operand1 operand2 result : BitVec 32) : Bool :=
  (neg operand1 && neg operand2 && pos result) ||
    (pos operand1 && pos operand2 && neg result)

/-- When the difference of two words is found to overflow. -/
def subOverflows (operand1 operand2 result : BitVec 32) : Bool :=
  (neg operand1 && pos operand2 && pos result) ||
    (pos operand1 && neg operand2 && neg result)

namespace Armisa

variable {s s' : Armisa} {r : ℕ}

/-- AND, EOR, SUB, RSB, ADD, ADC, SBC, RSC, TST, TEQ, CMP, CMN, ORR, MOV, BIC and
MVN, in the order of their codes. -/
def aluOperation (s : Armisa) : Option AluOutcome :=
  let a := s.insAluOperand1
  let b := s.insAluOperand2
  match s.insALUOpcode with
  | 0 => some (logical (a &&& b) true)
  | 1 => some (logical (a ^^^ b) true)
  | 2 => some ⟨a - b, true, true, decide (b ≤ a), subOverflows a b (a - b)⟩
  | 3 => some ⟨b - a, true, true, decide (a ≤ b), subOverflows b a (b - a)⟩
  | 4 => some ⟨a + b, true, true, decide (a + b < a), addOverflows a b (a + b)⟩
  | 5 =>
      let result := a + b + flagWord s.cFlag
      some ⟨result, true, true, if s.cFlag then decide (result ≤ a) else decide (result < a),
        addOverflows a b result⟩
  | 6 =>
      let result := a - b + flagWord s.cFlag - 1
      some ⟨result, true, true, if s.cFlag then decide (b ≤ a) else decide (b < a),
        subOverflows a b result⟩
  | 7 =>
      let result := b - a + flagWord s.cFlag - 1
      some ⟨result, true, true, if s.cFlag then decide (a ≤ b) else decide (a < b),
        subOverflows b a result⟩
  | 8 =>
      -- without S this is MOVW
      if !s.thumbMode && !bit s.instruction 20 then
        some (logical (bits4 s.instruction 16 <<< 12 ||| bits s.instruction 0 12) true)
      else some (logical (a &&& b) false)
  | 9 => some (logical (a ^^^ b) false)
  | 10 => some ⟨a - b, true, false, decide (b ≤ a), subOverflows a b (a - b)⟩
  | 11 => some ⟨a + b, true, false, decide (a + b < a), addOverflows a b (a + b)⟩
  | 12 => some (logical (a ||| b) true)
  | 13 => some (logical b true)
  | 14 => some (logical (a &&& ~~~b) true)
  | 15 => some (logical (~~~b) true)
  | _ => none

/-- The write of the destination.  A write of the PC adds the correction, and with
S it restores the CPSR from the current SPSR. -/
def writeBack (s : Armisa) : Option Armisa := do
  if s.insWBdefault then
    let s ← s.setReg? s.insRd s.insAluResult
    if s.insRd = 15 then
      let s ← s.setReg? s.insRd (s.insAluResult + armPcCorrection)
      if s.insS then
        let newv ← s.reg? spsrReg
        return (s.setCpsr newv).decodeSetModeFromCpsr
      else return s
    else return s
  else return s

/-- The result and whether it is written back. -/
def setResult (s : Armisa) (out : AluOutcome) : Armisa :=
  { s with insAluResult := out.result, insWBdefault := out.wbDefault }

/-- Perform the ALU operation that was decoded. -/
def execAluOperandInstr (s : Armisa) : Option Armisa := do
  let out ← s.aluOperation
  let s := s.setResult out
  let s ← if s.insS then
      s.updateFlags (if out.arithmetic then .arith32 else .logic32) out.carry out.overflow
    else some s
  s.writeBack

end Armisa

/-- The operations that add or subtract. -/
inductive ArithOp
  | add
  | adc
  | sub
  | sbc
  | rsb
  | rsc
  | cmp
  | cmn
  deriving DecidableEq, Repr

namespace ArithOp

/-- The code of an operation in bits 24 to 21 of the instruction. -/
def code : ArithOp → ℕ
  | .sub => 2
  | .rsb => 3
  | .add => 4
  | .adc => 5
  | .sbc => 6
  | .rsc => 7
  | .cmp => 10
  | .cmn => 11

/-- The operations that give flags only. -/
def compares : ArithOp → Bool
  | .cmp | .cmn => true
  | _ => false

/-- The exact integer operation on the two operands and the carry flag. -/
def exact : ArithOp → BitVec 32 → BitVec 32 → Bool → Outcome 32
  | .add, a, b, _ | .cmn, a, b, _ => sum a b false
  | .adc, a, b, c => sum a b c
  | .sub, a, b, _ | .cmp, a, b, _ => difference a b false
  | .sbc, a, b, c => difference a b (!c)
  | .rsb, a, b, _ => difference b a false
  | .rsc, a, b, c => difference b a (!c)

end ArithOp

theorem neg_eq_msb (x : BitVec 32) : neg x = x.msb := by
  rw [neg, BitVec.msb_eq_decide, decide_eq_decide]
  bv_omega

theorem pos_eq_not_msb (x : BitVec 32) : pos x = !x.msb := by
  rw [pos, BitVec.msb_eq_decide, ← decide_not, decide_eq_decide]
  bv_omega

/-- The code's overflow of a sum is the overflow of the exact sum. -/
theorem addOverflows_eq (a b : BitVec 32) (c : Bool) :
    addOverflows a b (sum a b c).value = (sum a b c).overflow := by
  rw [overflow_sum a b c (by omega)]
  simp only [addOverflows, neg_eq_msb, pos_eq_not_msb]

theorem subOverflows_eq (a b : BitVec 32) (c : Bool) :
    subOverflows a b (difference a b c).value = (difference a b c).overflow := by
  rw [overflow_difference a b c (by omega)]
  simp only [subOverflows, neg_eq_msb, pos_eq_not_msb]

/-- The subtractions with carry add the flag and take one away. -/
theorem value_difference_not (a b : BitVec 32) (c : Bool) :
    (difference a b (!c)).value = a - b + flagWord c - 1 := by
  rw [value_difference, flagWord]
  cases c
  · simp
  · simp

theorem carry_difference_not (a b : BitVec 32) (c : Bool) :
    (difference a b (!c)).carry = if c then decide (b ≤ a) else decide (b < a) := by
  rw [carry_difference]
  cases c <;> rfl

namespace Armisa

variable {s s' : Armisa} {op : ArithOp}

/-- Each of the arithmetic operations computes what the exact one gives. -/
theorem aluOperation_arith (hopcode : s.insALUOpcode = op.code) :
    s.aluOperation = some
      { result := (op.exact s.insAluOperand1 s.insAluOperand2 s.cFlag).value
        arithmetic := true
        wbDefault := !op.compares
        carry := (op.exact s.insAluOperand1 s.insAluOperand2 s.cFlag).carry
        overflow := (op.exact s.insAluOperand1 s.insAluOperand2 s.cFlag).overflow } := by
  have hcarry := fun (a b : BitVec 32) c => carry_sum a b c (by omega)
  have hsum : ∀ a b : BitVec 32, (sum a b false).value = a + b := fun a b => by
    rw [value_sum, Bool.toNat_false, BitVec.add_zero]
  have hdifference : ∀ a b : BitVec 32, (difference a b false).value = a - b := fun a b => by
    rw [value_difference, Bool.toNat_false, BitVec.sub_zero]
  have hadc : ∀ a b : BitVec 32, (sum a b s.cFlag).value = a + b + flagWord s.cFlag :=
    fun a b => value_sum a b s.cFlag
  have hsbc := fun a b => value_difference_not a b s.cFlag
  unfold aluOperation
  rw [hopcode]
  cases op
  case sbc | rsc =>
    simp only [ArithOp.code, ArithOp.exact, ArithOp.compares, ← subOverflows_eq,
      carry_difference_not, hsbc, Bool.not_false]
  all_goals
    simp [ArithOp.code, ArithOp.exact, ArithOp.compares, ← addOverflows_eq,
      ← subOverflows_eq, hcarry, carry_difference, hsum, hdifference, hadc]

@[simp]
theorem reg?_setResult (s : Armisa) (out : AluOutcome) (r : ℕ) :
    (s.setResult out).reg? r = s.reg? r := rfl

@[simp]
theorem insRd_setResult (s : Armisa) (out : AluOutcome) :
    (s.setResult out).insRd = s.insRd := rfl

@[simp]
theorem insWBdefault_setResult (s : Armisa) (out : AluOutcome) :
    (s.setResult out).insWBdefault = out.wbDefault := rfl

@[simp]
theorem insAluResult_setResult (s : Armisa) (out : AluOutcome) :
    (s.setResult out).insAluResult = out.result := rfl

/-- An operation with S sets the flags and then writes the destination. -/
theorem execAluOperandInstr_flags {out : AluOutcome} (hout : s.aluOperation = some out)
    (hflags : s.insS = true) :
    s.execAluOperandInstr = ((s.setResult out).updateFlags
      (if out.arithmetic then .arith32 else .logic32) out.carry out.overflow).bind
        writeBack := by
  have hS : (s.setResult out).insS = true := hflags
  simp only [execAluOperandInstr, hout, Option.bind_eq_bind, Option.bind_some, hS, if_true]

/-- The write of a destination that is not the PC, or of none. -/
theorem writeBack_of_ne (hRd : s.insWBdefault = true → s.insRd < pcReg) :
    ∃ s', s.writeBack = some s' ∧ s'.cpsr = s.cpsr ∧ ∀ r, s'.reg? r =
      if r = s.insRd ∧ s.insWBdefault = true then some s.insAluResult else s.reg? r := by
  unfold writeBack
  cases hdefault : s.insWBdefault with
  | false => exact ⟨s, by simp, rfl, by simp⟩
  | true =>
      have hlt : s.insRd < 15 := hRd hdefault
      obtain ⟨s', hs'⟩ := s.setReg?_of_lt (show s.insRd < 17 by omega) s.insAluResult
      have hRd' : s'.insRd ≠ 15 := by
        obtain ⟨i, -, rfl⟩ := setReg?_eq_some hs'
        exact hlt.ne
      refine ⟨s', ?_, cpsr_setReg? hs' (by unfold cpsrReg; omega), fun r => ?_⟩
      · simp [hs', hRd']
      · rw [reg?_setReg? hs']
        simp

/-- The arithmetic form of the flags changes no register but the CPSR. -/
theorem updateFlags_arith32_isSome (s : Armisa) (carry overflow : Bool) :
    ∃ s', s.updateFlags .arith32 carry overflow = some s' ∧
      s'.insWBdefault = s.insWBdefault ∧ s'.insRd = s.insRd ∧
      s'.insAluResult = s.insAluResult ∧ ∀ r, r ≠ cpsrReg → s'.reg? r = s.reg? r := by
  simp only [updateFlags]
  split
  · exact ⟨_, rfl, rfl, rfl, rfl, fun r hr => reg?_setCpsr s _ hr⟩
  · exact ⟨s, rfl, rfl, rfl, rfl, fun _ _ => rfl⟩

/-- The operation with its flags, for every destination but the PC: the result of
the exact operation goes to the destination, or nowhere if it only compares, and
the flags are those of the exact operation. -/
theorem arithmetic_flags (s : Armisa) (op : ArithOp) (hopcode : s.insALUOpcode = op.code)
    (hflags : s.insS = true) (hRd : op.compares = true ∨ s.insRd < pcReg) :
    ∃ s', s.execAluOperandInstr = some s' ∧
      s'.flags =
        (let out := op.exact s.insAluOperand1 s.insAluOperand2 s.cFlag
         (out.value.msb, decide (out.value = 0), out.carry, out.overflow)) ∧
      ∀ r, r ≠ cpsrReg → s'.reg? r =
        if r = s.insRd ∧ op.compares = false then
          some (op.exact s.insAluOperand1 s.insAluOperand2 s.cFlag).value
        else s.reg? r := by
  set out := op.exact s.insAluOperand1 s.insAluOperand2 s.cFlag with hout
  have hoperation := aluOperation_arith hopcode
  rw [← hout] at hoperation
  set result : AluOutcome := ⟨out.value, true, !op.compares, out.carry, out.overflow⟩
  have hset : (s.setResult result).insRd ≠ 15 ∨ ¬(s.setResult result).insWBdefault := by
    rcases hRd with hcompares | hlt
    · exact .inr (by simp [result, hcompares])
    · exact .inl (Nat.ne_of_lt hlt)
  obtain ⟨mid, hmid, hwb, hdest, hvalue, hregs⟩ :=
    updateFlags_arith32_isSome (s.setResult result) out.carry out.overflow
  have hwrites : mid.insWBdefault = !op.compares := hwb
  obtain ⟨s', hs', hcpsr, hreg⟩ := writeBack_of_ne (s := mid) fun hdefault => by
    rcases hRd with hcompares | hlt
    · rw [hwrites, hcompares] at hdefault
      cases hdefault
    · exact hdest ▸ hlt
  refine ⟨s', ?_, ?_, fun r hr => ?_⟩
  · rw [execAluOperandInstr_flags hoperation hflags]
    exact (congrArg (Option.bind · writeBack) hmid).trans hs'
  · have hmidFlags := flags_updateFlags_arith32 hmid hset
    rw [flags_of_cpsr hcpsr, hmidFlags]
    exact congrArg (·, _) (BitVec.msb_eq_getLsbD_last out.value).symm
  · rw [hreg, hregs r hr, hdest, hwrites, hvalue]
    simp [result]

/-- ADCS of two words whose sum carries but does not overflow. -/
theorem arithmetic_flags_adcs :
    ∃ s s' : Armisa, s.insAluOperand1 = 0xFFFFFFFF ∧ s.insAluOperand2 = 1 ∧
      s.execAluOperandInstr = some s' ∧ s'.flags = (false, true, true, false) := by
  obtain ⟨s', hs', hflags, -⟩ := arithmetic_flags
    { idle with
      insALUOpcode := 5, insS := true, insRd := 3
      insAluOperand1 := 0xFFFFFFFF, insAluOperand2 := 1 }
    .adc rfl rfl (.inr (by decide))
  exact ⟨_, s', rfl, rfl, hs', hflags⟩

/-- SUBS to the PC with equal operands, in a core whose SPSR is a user mode with
no flags. -/
def exceptionReturn : Armisa :=
  { idle with
    rawReg := Function.update idle.rawReg (18 * 2 + spsrReg) 0x10
    insALUOpcode := 2
    insS := true
    insRd := pcReg }

/-- The return from an exception restores the flags that the SPSR holds. -/
theorem not_arithmetic_flags :
    ¬∀ (s : Armisa) (op : ArithOp), s.insALUOpcode = op.code → s.insS = true →
      s.insRd < 16 → ∃ s', s.execAluOperandInstr = some s' ∧
        s'.flags =
          (let out := op.exact s.insAluOperand1 s.insAluOperand2 s.cFlag
           (out.value.msb, decide (out.value = 0), out.carry, out.overflow)) := by
  intro hclaim
  obtain ⟨s', hs', hflags⟩ := hclaim exceptionReturn .sub rfl rfl (by decide)
  have hreturn : (exceptionReturn.execAluOperandInstr.map flags) =
      some (false, false, false, false) := by decide
  rw [hs', Option.map_some, hflags] at hreturn
  revert hreturn
  decide

end Armisa

end Prazor.Arm
