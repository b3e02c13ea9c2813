import Prazor.Arm.Alu

/-!
# Multiplies

The decode of the multiplies, the executor that serves four kinds of them, and the
exact products that they stand for.
-/

namespace Prazor.Arm

namespace Armisa

variable {s s' : Armisa}

/-- The multiplies of signed halves.  The low half of a register is not extended. -/
def decodeSmul (s : Armisa) : Option Armisa := do
  let instr := s.instruction
  let nHigh := bit instr 5
  let mHigh := bit instr 6
  let rn := (bits4 instr 0).toNat
  let rm := (bits4 instr 8).toNat
  let operand1 ← s.reg? rn
  let operand2 ← s.reg? rm
  return { s with
    insRd := (bits4 instr 16).toNat
    insRm := rm
    insRn := rn
    insAluOperand1 := if nHigh then operand1.sshiftRight 16 else operand1 &&& 0xFFFF
    insAluOperand2 := if mHigh then operand2.sshiftRight 16 else operand2 &&& 0xFFFF
    insMultAccum := 0
    insS := false
    insMultOp := .signed
    insDecodeT := .mulT }

/-- Two registers as one word of 64 bits. -/
def accumPair (hi lo : BitVec 32) : BitVec 64 :=
  hi.setWidth 64 <<< 32 ||| lo.setWidth 64

/-- The other multiplies, with or without an accumulator. -/
def decodeMultiply (s : Armisa) : Option Armisa := do
  let instr := s.instruction
  let accumulate := bit instr 21
  let rd := (bits4 instr 16).toNat
  let rn := (bits4 instr 12).toNat
  let operand1 ← s.reg? (bits4 instr 0).toNat
  let operand2 ← s.reg? (bits4 instr 8).toNat
  let s := { s with
    insS := bit instr 20
    insRm := (bits4 instr 0).toNat
    insRs := (bits4 instr 8).toNat
    insRd := rd
    insRn := rn
    insMultAccum := 0
    insDecodeT := .mulT
    insAluOperand1 := operand1
    insAluOperand2 := operand2 }
  let accum ← s.reg? rn
  let high ← s.reg? rd
  if bit instr 23 && bit instr 22 && bit instr 21 then
    return { s with
      insMultAccum := accumPair high accum
      insRdHi := rd
      insRdLo := rn
      insMultOp := .signedLong }
  else if !bit instr 23 then
    let s := { s with insMultOp := .unsigned }
    if accumulate then
      let s := { s with insMultAccum := accum.setWidth 64 }
      return if bit instr 22 then { s with insAluOperand1 := operand1 * -1 } else s
    else return { s with insRn := undefinedReg }
  else if bit instr 23 && bit instr 22 && !bit instr 21 then
    return { s with
      insMultOp := .signedLong
      insRdHi := rd
      insRdLo := rn }
  else
    return { s with
      insMultOp := .unsignedLong
      insMultAccum := if accumulate then accumPair high accum else 0
      insRdHi := rd
      insRdLo := rn
      insRn := if accumulate then rn else undefinedReg }

/-- The decoder's table of the instructions that begin with 000, for the multiplies
in it; the other branches are other instructions. -/
def decodeMultiplies (s : Armisa) : Option Armisa :=
  let instr := s.instruction
  if bits instr 25 3 = 0 then
    if instr &&& 0xF900010 = 0x1000000 then
      if bits instr 23 5 = 2 ∧
          (bit instr 24 && bit instr 22 && bit instr 21 && bit instr 7) = true then
        s.decodeSmul
      else none
    else if (instr &&& 0xE000090 = 0x90 ∨ instr &&& 0xF900090 = 0x1000010) ∧
        instr &&& 0xF0000F0 = 0x90 then
      s.decodeMultiply
    else none
  else none

/-- The product with its accumulator, as a word of 64 bits of which a 32-bit kind
has the low half only. -/
def product (s : Armisa) : BitVec 64 :=
  let a := s.insAluOperand1
  let b := s.insAluOperand2
  match s.insMultOp with
  | .signed | .unsigned => (a * b + s.insMultAccum.setWidth 32).setWidth 64
  | .signedLong => a.signExtend 64 * b.signExtend 64 + s.insMultAccum
  | .unsignedLong => a.setWidth 64 * b.setWidth 64 + s.insMultAccum

/-- The write of the product to a register. -/
def writeShort (s : Armisa) : Option Armisa :=
  let lo := s.product.setWidth 32
  { s with insAluResult := lo }.setReg? s.insRd lo

/-- The write of the product to a pair of registers, the low half first. -/
def writeLong (s : Armisa) : Option Armisa :=
  let lo := s.product.setWidth 32
  let hi := s.product.extractLsb' 32 32
  ({ s with insAluResult := lo, insAluResultHi := hi }.setReg? s.insRdLo lo).bind
    fun written => written.setReg? s.insRdHi hi

/-- The flags that a kind of multiply writes back. -/
def multMode (op : MultOp) : FMode :=
  match op with
  | .signed | .unsigned => .logic32
  | .signedLong | .unsignedLong => .logic64

/-- Perform the multiply that was decoded. -/
def execMulOperandInstr (s : Armisa) : Option Armisa := do
  let written ← match s.insMultOp with
    | .signed | .unsigned => s.writeShort
    | .signedLong | .unsignedLong => s.writeLong
  let written := { written with insShiftCarryOut := written.cFlag }
  if s.insS then written.updateFlags (multMode s.insMultOp) false false
  else return written

/-- Decode and perform a multiply. -/
def runMultiply (s : Armisa) : Option Armisa :=
  s.decodeFields.decodeMultiplies.bind execMulOperandInstr

end Armisa

/-- The multiplies, of words or of signed halves. -/
inductive Multiply
  | mul
  | mla
  | mls
  | umull
  | umlal
  | smull
  | smlal
  | smulxy
  deriving DecidableEq, Repr

namespace Multiply

/-- The fixed bits of an encoding. -/
def mask : Multiply → BitVec 32
  | .mls => 0x0FF000F0
  | .smulxy => 0x0FF00090
  | _ => 0x0FE000F0

def pattern : Multiply → BitVec 32
  | .mul => 0x00000090
  | .mla => 0x00200090
  | .mls => 0x00600090
  | .umull => 0x00800090
  | .umlal => 0x00A00090
  | .smull => 0x00C00090
  | .smlal => 0x00E00090
  | .smulxy => 0x01600080

/-- The multiplies whose result is a pair of registers. -/
def long : Multiply → Bool
  | .umull | .umlal | .smull | .smlal => true
  | _ => false

end Multiply

/-- The half of a register that a multiply of halves takes, as a signed integer. -/
def half (x : BitVec 32) (high : Bool) : ℤ :=
  if high then (x.extractLsb' 16 16).toInt else (x.setWidth 16).toInt

namespace Armisa

variable {s s' : Armisa}

/-- The registers of the operands, the accumulator or the low half of the result, and
the result or its high half. -/
def operandN (s : Armisa) : BitVec 32 := s.reg (bits4 s.instruction 0).toNat

def operandM (s : Armisa) : BitVec 32 := s.reg (bits4 s.instruction 8).toNat

def operandA (s : Armisa) : BitVec 32 := s.reg (bits4 s.instruction 12).toNat

def operandD (s : Armisa) : BitVec 32 := s.reg (bits4 s.instruction 16).toNat

/-- The exact integer that a multiply stands for. -/
def exactProduct (s : Armisa) : Multiply → ℤ
  | .mul => s.operandN.toNat * s.operandM.toNat
  | .mla => s.operandN.toNat * s.operandM.toNat + s.operandA.toNat
  | .mls => s.operandA.toNat - s.operandN.toNat * s.operandM.toNat
  | .umull => s.operandN.toNat * s.operandM.toNat
  | .umlal =>
      s.operandN.toNat * s.operandM.toNat + (s.operandD ++ s.operandA).toNat
  | .smull => s.operandN.toInt * s.operandM.toInt
  | .smlal => s.operandN.toInt * s.operandM.toInt + (s.operandD ++ s.operandA).toInt
  | .smulxy => half s.operandN (bit s.instruction 5) * half s.operandM (bit s.instruction 6)

/-- A multiply gives the exact result modulo its width, sets N and Z from all of it
with S, keeps V, and keeps the flags without S. -/
def Multiplies (s : Armisa) (op : Multiply) : Prop :=
  ∃ s', s.runMultiply = some s' ∧ s'.vFlag = s.vFlag ∧
    (bit s.instruction 20 = false → s'.flags = s.flags) ∧
    if op.long then
      let result := BitVec.ofInt 64 (s.exactProduct op)
      s'.reg? (bits4 s.instruction 16).toNat = some (result.extractLsb' 32 32) ∧
        ((bits4 s.instruction 12).toNat ≠ (bits4 s.instruction 16).toNat →
          s'.reg? (bits4 s.instruction 12).toNat = some (result.setWidth 32)) ∧
        (bit s.instruction 20 = true → s'.nFlag = result.msb ∧ s'.zFlag = decide (result = 0))
    else
      let result := BitVec.ofInt 32 (s.exactProduct op)
      s'.reg? (bits4 s.instruction 16).toNat = some result ∧
        (bit s.instruction 20 = true → s'.nFlag = result.msb ∧ s'.zFlag = decide (result = 0))

/-- The multiplies of halves that are right: no bottom half is negative, unless the
other half is zero or both are the most negative. -/
def HalvesAgree (s : Armisa) : Prop :=
  let x := half s.operandN (bit s.instruction 5)
  let y := half s.operandM (bit s.instruction 6)
  let negativeN := bit s.instruction 5 = false ∧ x < 0
  let negativeM := bit s.instruction 6 = false ∧ y < 0
  (negativeN → y = 0 ∨ (negativeM ∧ x = -32768 ∧ y = -32768)) ∧
    (negativeM → x = 0 ∨ (negativeN ∧ x = -32768 ∧ y = -32768))

theorem execMulOperandInstr_of_short (hshort : multMode s.insMultOp = .logic32) :
    s.execMulOperandInstr = s.writeShort.bind fun written =>
      let written := { written with insShiftCarryOut := written.cFlag }
      if s.insS then written.updateFlags .logic32 false false else some written := by
  unfold execMulOperandInstr
  rw [hshort]
  cases hop : s.insMultOp <;> rw [hop] at hshort <;> first | rfl | cases hshort

theorem execMulOperandInstr_of_long (hlong : multMode s.insMultOp = .logic64) :
    s.execMulOperandInstr = s.writeLong.bind fun written =>
      let written := { written with insShiftCarryOut := written.cFlag }
      if s.insS then written.updateFlags .logic64 false false else some written := by
  unfold execMulOperandInstr
  rw [hlong]
  cases hop : s.insMultOp <;> rw [hop] at hlong <;> first | rfl | cases hlong

/-- A product of one register, written with the flags that S asks for. -/
theorem execMulOperandInstr_short (hshort : multMode s.insMultOp = .logic32)
    (hRd : s.insRd ≤ 15) :
    ∃ s', s.execMulOperandInstr = some s' ∧
      s'.reg? s.insRd = some (s.product.setWidth 32) ∧ s'.vFlag = s.vFlag ∧
      (s.insS = false → s'.flags = s.flags) ∧
      (s.insS = true → s'.nFlag = (s.product.setWidth 32).msb ∧
        s'.zFlag = decide (s.product.setWidth 32 = 0)) := by
  set lo := s.product.setWidth 32 with hlo
  obtain ⟨result, hresult⟩ : ∃ result : Armisa, result = { s with insAluResult := lo } :=
    ⟨_, rfl⟩
  obtain ⟨written, hwritten⟩ :=
    result.setReg?_of_lt (Nat.lt_succ_of_le (Nat.le_succ_of_le hRd)) lo
  have hwrite : s.writeShort = some written := by
    rw [← hwritten, hresult]
    rfl
  have hcpsr : written.cpsr = s.cpsr := by
    rw [cpsr_setReg? hwritten (Nat.ne_of_lt (Nat.lt_succ_of_le hRd)), hresult]
    rfl
  have hvalue : written.insAluResult = lo := by
    obtain ⟨i, -, rfl⟩ := setReg?_eq_some hwritten
    rw [hresult]
  have hread : written.reg? s.insRd = some lo := by
    rw [reg?_setReg? hwritten, if_pos rfl]
  obtain ⟨kept, hkept⟩ : ∃ kept : Armisa,
      kept = { written with insShiftCarryOut := written.cFlag } := ⟨_, rfl⟩
  have hexec : s.execMulOperandInstr =
      if s.insS then kept.updateFlags .logic32 false false else some kept := by
    rw [execMulOperandInstr_of_short hshort, hwrite, hkept]
    rfl
  have hflags : kept.flags = s.flags := by
    rw [hkept]
    exact flags_of_cpsr hcpsr
  have hregs : ∀ r, kept.reg? r = written.reg? r := fun r => by rw [hkept]; rfl
  cases hS : s.insS with
  | false =>
      refine ⟨kept, ?_, (hregs _).trans hread, congrArg (·.2.2.2) hflags, fun _ => hflags,
        fun h => by cases h⟩
      rw [hexec, hS]
      rfl
  | true =>
      obtain ⟨s', hs'⟩ : ∃ s', kept.updateFlags .logic32 false false = some s' := ⟨_, rfl⟩
      have hnew := flags_updateFlags_logic32 hs'
      have hresultKept : kept.insAluResult = lo := by rw [hkept]; exact hvalue
      rw [hresultKept] at hnew
      refine ⟨s', ?_, ?_, ?_, (fun h => by cases h), fun _ => ⟨?_, ?_⟩⟩
      · rw [hexec, hS, if_pos rfl, hs']
      · rw [← hread, ← hregs]
        simp only [updateFlags, Option.some.injEq] at hs'
        rw [← hs']
        exact reg?_setCpsr kept _ (Nat.ne_of_lt (Nat.lt_succ_of_le hRd))
      · exact (congrArg (·.2.2.2) hnew).trans (congrArg (·.2.2.2) hflags)
      · exact (congrArg (·.1) hnew).trans (bit_eq_msb lo)
      · exact congrArg (·.2.1) hnew

/-- A product of two registers, written without flags. -/
theorem execMulOperandInstr_long (hlong : multMode s.insMultOp = .logic64)
    (hRdHi : s.insRdHi ≤ 15) (hRdLo : s.insRdLo ≤ 15) (hS : s.insS = false) :
    ∃ s', s.execMulOperandInstr = some s' ∧ s'.flags = s.flags ∧
      s'.reg? s.insRdHi = some (s.product.extractLsb' 32 32) ∧
      (s.insRdLo ≠ s.insRdHi → s'.reg? s.insRdLo = some (s.product.setWidth 32)) := by
  obtain ⟨result, hresult⟩ : ∃ result : Armisa, result = { s with
    insAluResult := s.product.setWidth 32
    insAluResultHi := s.product.extractLsb' 32 32 } := ⟨_, rfl⟩
  obtain ⟨low, hlow⟩ := result.setReg?_of_lt
    (Nat.lt_succ_of_le (Nat.le_succ_of_le hRdLo)) (s.product.setWidth 32)
  obtain ⟨high, hhigh⟩ := low.setReg?_of_lt
    (Nat.lt_succ_of_le (Nat.le_succ_of_le hRdHi)) (s.product.extractLsb' 32 32)
  have hwrite : s.writeLong = some high := by
    simp only [writeLong, ← hresult, hlow, Option.bind_some, hhigh]
  have hcpsr : high.cpsr = s.cpsr := by
    rw [cpsr_setReg? hhigh (Nat.ne_of_lt (Nat.lt_succ_of_le hRdHi)),
      cpsr_setReg? hlow (Nat.ne_of_lt (Nat.lt_succ_of_le hRdLo)), hresult]
    rfl
  refine ⟨{ high with insShiftCarryOut := high.cFlag }, ?_, flags_of_cpsr hcpsr, ?_,
    fun hne => ?_⟩
  · rw [execMulOperandInstr_of_long hlong, hwrite, hS]
    rfl
  · exact (reg?_setReg? hhigh _).trans (if_pos rfl)
  · refine (reg?_setReg? hhigh _).trans ?_
    rw [if_neg hne, reg?_setReg? hlow, if_pos rfl]

/-- The flags of a long multiply fail an assertion. -/
theorem execMulOperandInstr_long_flags (hlong : multMode s.insMultOp = .logic64)
    (hS : s.insS = true) : s.execMulOperandInstr = none := by
  rw [execMulOperandInstr_of_long hlong, hS]
  cases s.writeLong <;> rfl

theorem accumPair_eq_append (hi lo : BitVec 32) : accumPair hi lo = hi ++ lo := by
  refine BitVec.eq_of_getLsbD_eq fun i hi' => ?_
  rw [accumPair, BitVec.getLsbD_or, BitVec.getLsbD_shiftLeft, BitVec.getLsbD_setWidth,
    BitVec.getLsbD_setWidth, BitVec.getLsbD_append]
  by_cases hlt : i < 32
  · simp [hlt, hi']
  · rw [BitVec.getLsbD_of_ge lo i (by omega)]
    simp [hlt, hi', show i - 32 < 64 by omega]

/-- The accumulator of a long multiply. -/
def longAccumulator (s : Armisa) : BitVec 64 :=
  if bit s.instruction 21 then s.operandD ++ s.operandA else 0

/-- What the decode of a multiply leaves, and that it changes no register. -/
theorem decodeMultiply_spec (s : Armisa) :
    ∃ mid, s.decodeMultiply = some mid ∧ mid.rawReg = s.rawReg ∧
      mid.insS = bit s.instruction 20 ∧
      mid.insRd = (bits4 s.instruction 16).toNat ∧
      (bit s.instruction 23 = true → mid.insRdHi = (bits4 s.instruction 16).toNat ∧
        mid.insRdLo = (bits4 s.instruction 12).toNat) ∧
      mid.insMultOp = (if bit s.instruction 23 then
        if bit s.instruction 22 then .signedLong else .unsignedLong else .unsigned) ∧
      mid.product =
        if bit s.instruction 23 then
          if bit s.instruction 22 then
            s.operandN.signExtend 64 * s.operandM.signExtend 64 + s.longAccumulator
          else s.operandN.setWidth 64 * s.operandM.setWidth 64 + s.longAccumulator
        else if bit s.instruction 21 then
          ((if bit s.instruction 22 then s.operandN * -1 else s.operandN) * s.operandM +
            s.operandA).setWidth 64
        else (s.operandN * s.operandM).setWidth 64 := by
  have hpair : s.operandD ++ s.operandA = accumPair s.operandD s.operandA :=
    (accumPair_eq_append _ _).symm
  rw [longAccumulator, hpair]
  unfold decodeMultiply
  simp only [reg?_bits4, Option.bind_eq_bind, Option.bind_some]
  cases h23 : bit s.instruction 23 <;> cases h22 : bit s.instruction 22 <;>
    cases h21 : bit s.instruction 21
  all_goals
    refine ⟨_, rfl, rfl, rfl, rfl, ?_, rfl, ?_⟩
    · simp
    · simp [product]
      rfl

variable {op : Multiply}

/-- The decoder finds the multiplies of words. -/
theorem decodeMultiplies_of_pattern (hop : op ≠ .smulxy)
    (hpattern : s.instruction &&& op.mask = op.pattern) :
    s.decodeMultiplies = s.decodeMultiply := by
  have hmajor : bits s.instruction 25 3 = 0 := by
    have hfield : bits op.mask 25 3 = (1 : BitVec 32) <<< 3 - 1 := by
      cases op <;> rfl
    rw [bits_of_pattern hpattern (by omega) hfield]
    cases op <;> rfl
  have hfour : s.instruction &&& 0xF900010 ≠ 0x1000000 := by
    refine and_ne_of_pattern hpattern 4 ?_ rfl ?_
    all_goals cases op <;> first | rfl | exact absurd rfl hop | decide
  have hclass : s.instruction &&& 0xE000090 = 0x90 := by
    have hpart : op.mask &&& 0xE000090 = 0xE000090 := by
      cases op <;> rfl
    rw [and_of_pattern hpattern hpart]
    cases op <;> first | rfl | exact absurd rfl hop
  have hmultiply : s.instruction &&& 0xF0000F0 = 0x90 := by
    have hpart : op.mask &&& 0xF0000F0 = 0xF0000F0 := by
      cases op <;> first | rfl | exact absurd rfl hop
    rw [and_of_pattern hpattern hpart]
    cases op <;> first | rfl | exact absurd rfl hop
  simp only [decodeMultiplies, if_pos hmajor, if_neg hfour, hclass, hmultiply, true_or,
    true_and, if_true]

/-- The decoder finds the multiplies of halves. -/
theorem decodeMultiplies_of_smul
    (hpattern : s.instruction &&& Multiply.smulxy.mask = Multiply.smulxy.pattern) :
    s.decodeMultiplies = s.decodeSmul := by
  have hmajor : bits s.instruction 25 3 = 0 := bits_of_pattern hpattern (by omega) rfl
  have hclass : s.instruction &&& 0xF900010 = 0x1000000 := and_of_pattern hpattern rfl
  have hop : bits s.instruction 23 5 = 2 := bits_of_pattern hpattern (by omega) rfl
  have h24 : bit s.instruction 24 = true := bit_of_pattern hpattern rfl
  have h22 : bit s.instruction 22 = true := bit_of_pattern hpattern rfl
  have h21 : bit s.instruction 21 = true := bit_of_pattern hpattern rfl
  have h7 : bit s.instruction 7 = true := bit_of_pattern hpattern rfl
  have hfield : bits s.instruction 23 5 = 2 ∧ (bit s.instruction 24 &&
      bit s.instruction 22 && bit s.instruction 21 && bit s.instruction 7) = true := by
    rw [h24, h22, h21, h7]
    exact ⟨hop, rfl⟩
  simp only [decodeMultiplies, if_pos hmajor, if_pos hclass, if_pos hfield]

/-- The exact products of the decoded kinds. -/
theorem ofInt_exactProduct_mul (s : Armisa) :
    BitVec.ofInt 32 (s.exactProduct .mul) = s.operandN * s.operandM := by
  simp only [exactProduct, BitVec.ofInt_mul, BitVec.ofInt_natCast, BitVec.ofNat_toNat,
    BitVec.setWidth_eq]

theorem ofInt_exactProduct_mla (s : Armisa) :
    BitVec.ofInt 32 (s.exactProduct .mla) = s.operandN * s.operandM + s.operandA := by
  simp only [exactProduct, BitVec.ofInt_mul, BitVec.ofInt_add, BitVec.ofInt_natCast,
    BitVec.ofNat_toNat, BitVec.setWidth_eq]

theorem ofInt_exactProduct_mls (s : Armisa) :
    BitVec.ofInt 32 (s.exactProduct .mls) = s.operandN * -1 * s.operandM + s.operandA := by
  simp only [exactProduct, Int.sub_eq_add_neg, BitVec.ofInt_mul, BitVec.ofInt_add,
    BitVec.ofInt_neg, BitVec.ofInt_natCast, BitVec.ofNat_toNat, BitVec.setWidth_eq]
  ring

theorem ofInt_exactProduct_umull (s : Armisa) :
    BitVec.ofInt 64 (s.exactProduct .umull) =
      s.operandN.setWidth 64 * s.operandM.setWidth 64 := by
  simp only [exactProduct, BitVec.ofInt_mul, BitVec.ofInt_natCast, BitVec.ofNat_toNat]

theorem ofInt_exactProduct_umlal (s : Armisa) :
    BitVec.ofInt 64 (s.exactProduct .umlal) =
      s.operandN.setWidth 64 * s.operandM.setWidth 64 + (s.operandD ++ s.operandA) := by
  simp only [exactProduct, BitVec.ofInt_mul, BitVec.ofInt_add, BitVec.ofInt_natCast,
    BitVec.ofNat_toNat, BitVec.setWidth_eq]

theorem ofInt_exactProduct_smull (s : Armisa) :
    BitVec.ofInt 64 (s.exactProduct .smull) =
      s.operandN.signExtend 64 * s.operandM.signExtend 64 := by
  simp only [exactProduct, BitVec.ofInt_mul]
  rfl

theorem ofInt_exactProduct_smlal (s : Armisa) :
    BitVec.ofInt 64 (s.exactProduct .smlal) =
      s.operandN.signExtend 64 * s.operandM.signExtend 64 +
        (s.operandD ++ s.operandA) := by
  simp only [exactProduct, BitVec.ofInt_mul, BitVec.ofInt_add, BitVec.ofInt_toInt]
  rfl

end Armisa

/-- A top half shifted down keeps its sign. -/
theorem sshiftRight_16 (x : BitVec 32) :
    x.sshiftRight 16 = (x.extractLsb' 16 16).signExtend 32 := by
  refine BitVec.eq_of_getLsbD_eq fun i hi => ?_
  have hmsb : (x.extractLsb' 16 16).msb = x.msb := by
    rw [BitVec.msb_eq_getLsbD_last, BitVec.getLsbD_extractLsb', BitVec.msb_eq_getLsbD_last]
    rfl
  rw [BitVec.getLsbD_sshiftRight, BitVec.getLsbD_signExtend, hmsb,
    BitVec.getLsbD_extractLsb', decide_eq_false (show ¬32 ≤ i by omega), decide_eq_true hi]
  by_cases hlt : i < 16
  · simp [hlt, show 16 + i < 32 by omega]
  · simp [hlt, show ¬16 + i < 32 by omega]

/-- A bottom half that is masked loses its sign. -/
theorem and_0xFFFF (x : BitVec 32) : x &&& 0xFFFF = (x.setWidth 16).setWidth 32 := by
  refine BitVec.eq_of_toNat_eq ?_
  rw [BitVec.toNat_and, BitVec.toNat_setWidth, BitVec.toNat_setWidth,
    Nat.mod_eq_of_lt (Nat.lt_of_lt_of_le (Nat.mod_lt _ (by omega)) (by omega))]
  exact Nat.and_two_pow_sub_one_eq_mod x.toNat 16

/-- The operand that the decoder takes from a half: a negative bottom half is read
as a positive number. -/
theorem toInt_half (x : BitVec 32) (high : Bool) :
    (if high then x.sshiftRight 16 else x &&& 0xFFFF).toInt =
      half x high + if high = false ∧ half x high < 0 then 65536 else 0 := by
  cases high with
  | true =>
      rw [if_pos rfl, sshiftRight_16, BitVec.toInt_signExtend_of_le (by omega)]
      simp [half]
  | false =>
      have hlt := (x.setWidth 16).isLt
      rw [if_neg Bool.false_ne_true, and_0xFFFF]
      simp only [half, Bool.false_eq_true, if_false, true_and, BitVec.toInt_eq_toNat_cond,
        BitVec.toNat_setWidth_of_le (show 16 ≤ 32 by omega)]
      split <;> split <;> omega

/-- When two words of 32 bits are the same, of integers. -/
theorem ofInt_eq_ofInt_iff (a b : ℤ) :
    BitVec.ofInt 32 a = BitVec.ofInt 32 b ↔ (a - b) % 4294967296 = 0 := by
  rw [← BitVec.toNat_inj, BitVec.toNat_ofInt, BitVec.toNat_ofInt]
  push_cast
  omega

theorem half_bounds (x : BitVec 32) (high : Bool) :
    -32768 ≤ half x high ∧ half x high < 32768 := by
  cases high with
  | true => exact ⟨(x.extractLsb' 16 16).le_toInt, (x.extractLsb' 16 16).toInt_lt⟩
  | false => exact ⟨(x.setWidth 16).le_toInt, (x.setWidth 16).toInt_lt⟩

namespace Armisa

variable {s mid : Armisa} {op : Multiply}

/-- What the decode of a multiply of halves leaves, and that it changes no register. -/
theorem decodeSmul_spec (s : Armisa) :
    ∃ mid, s.decodeSmul = some mid ∧ mid.rawReg = s.rawReg ∧
      mid.insS = false ∧
      mid.insRd = (bits4 s.instruction 16).toNat ∧ mid.insMultOp = .signed ∧
      mid.product = ((if bit s.instruction 5 then s.operandN.sshiftRight 16
          else s.operandN &&& 0xFFFF) *
        (if bit s.instruction 6 then s.operandM.sshiftRight 16
          else s.operandM &&& 0xFFFF)).setWidth 64 := by
  unfold decodeSmul
  simp only [reg?_bits4, Option.bind_eq_bind, Option.bind_some]
  refine ⟨_, rfl, rfl, rfl, rfl, rfl, ?_⟩
  exact congrArg (BitVec.setWidth 64) (BitVec.add_zero _)

/-- The product of the decoded halves is the exact one when what the lost signs add
to it is a multiple of a word. -/
theorem smul_exact_iff (s : Armisa) :
    (if bit s.instruction 5 then s.operandN.sshiftRight 16 else s.operandN &&& 0xFFFF) *
        (if bit s.instruction 6 then s.operandM.sshiftRight 16
          else s.operandM &&& 0xFFFF) =
      BitVec.ofInt 32 (s.exactProduct .smulxy) ↔ s.HalvesAgree := by
  have hx := half_bounds s.operandN (bit s.instruction 5)
  have hy := half_bounds s.operandM (bit s.instruction 6)
  have hn := toInt_half s.operandN (bit s.instruction 5)
  have hm := toInt_half s.operandM (bit s.instruction 6)
  generalize hxdef : half s.operandN (bit s.instruction 5) = x at hx hn
  generalize hydef : half s.operandM (bit s.instruction 6) = y at hy hm
  generalize hadef : (if bit s.instruction 5 then s.operandN.sshiftRight 16
    else s.operandN &&& 0xFFFF) = a at hn
  generalize hbdef : (if bit s.instruction 6 then s.operandM.sshiftRight 16
    else s.operandM &&& 0xFFFF) = b at hm
  have hproduct : a * b = BitVec.ofInt 32 (a.toInt * b.toInt) := by
    rw [BitVec.ofInt_mul, BitVec.ofInt_toInt, BitVec.ofInt_toInt]
  rw [hproduct, ofInt_eq_ofInt_iff, exactProduct, HalvesAgree, hxdef, hydef, hn, hm]
  by_cases hnegN : bit s.instruction 5 = false ∧ x < 0 <;>
    by_cases hnegM : bit s.instruction 6 = false ∧ y < 0 <;>
    simp only [hnegN, hnegM, if_true, if_false, true_imp_iff, false_imp_iff, true_and,
      and_self, and_true, false_and, or_false, add_zero, sub_self, Int.zero_emod]
  · rw [show (x + 65536) * (y + 65536) - x * y = 65536 * (x + y) + 4294967296 by ring]
    omega
  · rw [show (x + 65536) * y - x * y = 65536 * y by ring]
    omega
  · rw [show x * (y + 65536) - x * y = 65536 * x by ring]
    omega

/-- A multiply into one register is right when its product is. -/
theorem multiplies_short (hlong : op.long = false)
    (hmid : s.decodeFields.decodeMultiplies = some mid) (hregs : mid.rawReg = s.rawReg)
    (hS : mid.insS = bit s.instruction 20)
    (hRd : mid.insRd = (bits4 s.instruction 16).toNat)
    (hmode : multMode mid.insMultOp = .logic32) :
    s.Multiplies op ↔ mid.product.setWidth 32 = BitVec.ofInt 32 (s.exactProduct op) := by
  have hcpsr : mid.cpsr = s.cpsr := by rw [cpsr, hregs]; rfl
  have hflags := flags_of_cpsr hcpsr
  have hle : mid.insRd ≤ 15 := hRd ▸ bits4_le s.instruction 16
  obtain ⟨s', hs', hread, hV, hkeep, hset⟩ := execMulOperandInstr_short hmode hle
  have hrun : s.runMultiply = some s' := by rw [runMultiply, hmid, Option.bind_some, hs']
  rw [hRd] at hread
  rw [hS] at hkeep hset
  unfold Multiplies
  rw [hlong, hrun]
  simp only [Bool.false_eq_true, if_false]
  constructor
  · rintro ⟨s'', hs'', -, -, hvalue, -⟩
    rw [← Option.some.inj hs'', hread] at hvalue
    exact Option.some.inj hvalue
  · intro hproduct
    rw [hproduct] at hread hset
    exact ⟨s', rfl, hV.trans (congrArg (·.2.2.2) hflags), fun h => (hkeep h).trans hflags,
      hread, hset⟩

/-- A multiply into two registers is right when it sets no flags and its product is. -/
theorem multiplies_long (hlong : op.long = true)
    (hmid : s.decodeFields.decodeMultiplies = some mid) (hregs : mid.rawReg = s.rawReg)
    (hS : mid.insS = bit s.instruction 20)
    (hRdHi : mid.insRdHi = (bits4 s.instruction 16).toNat)
    (hRdLo : mid.insRdLo = (bits4 s.instruction 12).toNat)
    (hmode : multMode mid.insMultOp = .logic64)
    (hproduct : mid.product = BitVec.ofInt 64 (s.exactProduct op)) :
    s.Multiplies op ↔ bit s.instruction 20 = false := by
  have hcpsr : mid.cpsr = s.cpsr := by rw [cpsr, hregs]; rfl
  have hflags := flags_of_cpsr hcpsr
  have hleHi : mid.insRdHi ≤ 15 := hRdHi ▸ bits4_le s.instruction 16
  have hleLo : mid.insRdLo ≤ 15 := hRdLo ▸ bits4_le s.instruction 12
  have hrun : s.runMultiply = mid.execMulOperandInstr := by
    rw [runMultiply, hmid, Option.bind_some]
  unfold Multiplies
  rw [hlong, hrun]
  simp only [if_true]
  constructor
  · rintro ⟨s', hs', -⟩
    by_contra hflag
    rw [execMulOperandInstr_long_flags hmode (hS.trans (Bool.eq_true_of_not_eq_false hflag))]
      at hs'
    cases hs'
  · intro hflag
    obtain ⟨s', hs', hkeep, hhi, hlo⟩ :=
      execMulOperandInstr_long hmode hleHi hleLo (hS.trans hflag)
    rw [hRdHi, hproduct] at hhi
    rw [hRdHi, hRdLo, hproduct] at hlo
    refine ⟨s', hs', (congrArg (·.2.2.2) hkeep).trans (congrArg (·.2.2.2) hflags),
      fun _ => hkeep.trans hflags, hhi, hlo, fun h => ?_⟩
    rw [hflag] at h
    cases h

/-- The decode of a multiply of words leaves the exact product. -/
theorem decodeMultiply_exact (hop : op ≠ .smulxy)
    (hpattern : s.instruction &&& op.mask = op.pattern) :
    ∃ mid, s.decodeMultiply = some mid ∧ mid.rawReg = s.rawReg ∧
      mid.insS = bit s.instruction 20 ∧ mid.insRd = (bits4 s.instruction 16).toNat ∧
      multMode mid.insMultOp = (if op.long then .logic64 else .logic32) ∧
      (op.long = true → mid.insRdHi = (bits4 s.instruction 16).toNat ∧
        mid.insRdLo = (bits4 s.instruction 12).toNat ∧
        mid.product = BitVec.ofInt 64 (s.exactProduct op)) ∧
      (op.long = false → mid.product.setWidth 32 = BitVec.ofInt 32 (s.exactProduct op)) := by
  obtain ⟨mid, hmid, hregs, hS, hRd, hpair, hkind, hproduct⟩ := decodeMultiply_spec s
  have h23 : bit s.instruction 23 = op.long := by
    cases op <;> exact bit_of_pattern hpattern rfl
  refine ⟨mid, hmid, hregs, hS, hRd, ?_, fun hlong => ?_, fun hlong => ?_⟩
  · rw [hkind, h23]
    cases op.long
    · rfl
    · cases bit s.instruction 22 <;> rfl
  · rw [h23] at hpair hproduct
    refine ⟨(hpair hlong).1, (hpair hlong).2, ?_⟩
    rw [hproduct, hlong, if_pos rfl]
    cases op <;> cases hlong
    case umull.refl =>
      have h22 : bit s.instruction 22 = false := bit_of_pattern hpattern rfl
      have h21 : bit s.instruction 21 = false := bit_of_pattern hpattern rfl
      simp only [h22, longAccumulator, h21, ofInt_exactProduct_umull, Bool.false_eq_true,
        if_false, add_zero]
    case umlal.refl =>
      have h22 : bit s.instruction 22 = false := bit_of_pattern hpattern rfl
      have h21 : bit s.instruction 21 = true := bit_of_pattern hpattern rfl
      simp only [h22, longAccumulator, h21, ofInt_exactProduct_umlal, Bool.false_eq_true,
        if_false, if_true]
    case smull.refl =>
      have h22 : bit s.instruction 22 = true := bit_of_pattern hpattern rfl
      have h21 : bit s.instruction 21 = false := bit_of_pattern hpattern rfl
      simp only [h22, longAccumulator, h21, ofInt_exactProduct_smull, Bool.false_eq_true,
        if_false, if_true, add_zero]
    case smlal.refl =>
      have h22 : bit s.instruction 22 = true := bit_of_pattern hpattern rfl
      have h21 : bit s.instruction 21 = true := bit_of_pattern hpattern rfl
      simp only [h22, longAccumulator, h21, ofInt_exactProduct_smlal, if_true]
  · rw [h23, hlong, if_neg Bool.false_ne_true] at hproduct
    rw [hproduct]
    cases op <;> cases hlong
    case mul.refl =>
      have h21 : bit s.instruction 21 = false := bit_of_pattern hpattern rfl
      simp only [h21, ofInt_exactProduct_mul, Bool.false_eq_true, if_false,
        BitVec.setWidth_setWidth_of_le _ (show 32 ≤ 64 by omega), BitVec.setWidth_eq]
    case mla.refl =>
      have h22 : bit s.instruction 22 = false := bit_of_pattern hpattern rfl
      have h21 : bit s.instruction 21 = true := bit_of_pattern hpattern rfl
      simp only [h22, h21, ofInt_exactProduct_mla, Bool.false_eq_true, if_false, if_true,
        BitVec.setWidth_setWidth_of_le _ (show 32 ≤ 64 by omega), BitVec.setWidth_eq]
    case mls.refl =>
      have h22 : bit s.instruction 22 = true := bit_of_pattern hpattern rfl
      have h21 : bit s.instruction 21 = true := bit_of_pattern hpattern rfl
      simp only [h22, h21, ofInt_exactProduct_mls, if_true,
        BitVec.setWidth_setWidth_of_le _ (show 32 ≤ 64 by omega), BitVec.setWidth_eq]
    case smulxy.refl => exact absurd rfl hop

/-- Exactly when a multiply is the architecture's: a long one without S, and one of
halves whose lost signs add nothing. -/
theorem multiplies_exact (s : Armisa) (op : Multiply)
    (hpattern : s.instruction &&& op.mask = op.pattern) :
    s.Multiplies op ↔
      (op.long = true → bit s.instruction 20 = false) ∧ (op = .smulxy → s.HalvesAgree) := by
  by_cases hsmul : op = .smulxy
  · subst hsmul
    have hfields : s.decodeFields.decodeMultiplies = s.decodeFields.decodeSmul :=
      decodeMultiplies_of_smul hpattern
    obtain ⟨mid, hmid, hregs, hS, hRd, hop, hproduct⟩ := decodeSmul_spec s.decodeFields
    have h20 : bit s.instruction 20 = false := bit_of_pattern hpattern rfl
    have hmode : multMode mid.insMultOp = .logic32 := by rw [hop]; rfl
    rw [multiplies_short rfl (hfields.trans hmid) hregs (hS.trans h20.symm) hRd hmode,
      hproduct, BitVec.setWidth_setWidth_of_le _ (by omega), BitVec.setWidth_eq]
    refine (smul_exact_iff s).trans ⟨fun h => ⟨fun hlong => ?_, fun _ => h⟩, fun h => h.2 rfl⟩
    cases hlong
  · have hfields : s.decodeFields.decodeMultiplies = s.decodeFields.decodeMultiply :=
      decodeMultiplies_of_pattern hsmul hpattern
    obtain ⟨mid, hmid, hregs, hS, hRd, hmode, hwide, hnarrow⟩ :=
      decodeMultiply_exact (s := s.decodeFields) hsmul hpattern
    cases hlong : op.long with
    | true =>
        obtain ⟨hRdHi, hRdLo, hproduct⟩ := hwide hlong
        rw [hlong] at hmode
        rw [multiplies_long hlong (hfields.trans hmid) hregs hS hRdHi hRdLo hmode hproduct]
        exact ⟨fun h => ⟨fun _ => h, fun hop => absurd hop hsmul⟩, fun h => h.1 rfl⟩
    | false =>
        rw [hlong] at hmode
        rw [multiplies_short hlong (hfields.trans hmid) hregs hS hRd hmode]
        exact iff_of_true (hnarrow hlong)
          ⟨(fun h => by cases h), fun hop => absurd hop hsmul⟩

/-- A core with 5, 7 and -3 in R1, R2 and R3, and -3 in the top half of R4. -/
def factors : Armisa :=
  { idle with
    rawReg := Function.update (Function.update (Function.update (Function.update idle.rawReg
      1 5) 2 7) 3 (-3)) 4 0xFFFD0000 }

/-- MLAS R2, R2, R3, R1 and SMULBT R2, R2, R4, whose top half is negative. -/
theorem multiplies_exact_examples :
    ({ factors with instruction := 0xE0321392 } : Armisa).Multiplies .mla ∧
      ({ factors with instruction := 0xE16204C2 } : Armisa).Multiplies .smulxy := by
  refine ⟨(multiplies_exact _ .mla rfl).mpr ⟨(fun h => by cases h), (fun h => by cases h)⟩,
    (multiplies_exact _ .smulxy rfl).mpr ⟨(fun h => by cases h), fun _ => ?_⟩⟩
  exact ⟨fun h => absurd h.2 (by decide), fun h => by cases h.1⟩

/-- UMULLS fails an assertion where it should set the flags. -/
theorem not_multiplies_exact :
    ¬∀ (s : Armisa) (op : Multiply), s.instruction &&& op.mask = op.pattern →
      s.Multiplies op := by
  intro hclaim
  obtain ⟨s', hs', -⟩ := hclaim { idle with instruction := 0xE0910392 } .umull rfl
  have hnone : ({ idle with instruction := 0xE0910392 } : Armisa).runMultiply = none := by
    rfl
  rw [hnone] at hs'
  cases hs'

end Armisa

end Prazor.Arm
