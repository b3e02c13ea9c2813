import Prazor.Arm.Encodings
import Prazor.Arm.Multiply
import Prazor.Arm.ShifterOperand

/-!
# Words that process data

What a decoder leaves of a data-processing instruction decides the registers after it, so two
decoders that leave the same operation do the same.  The decoder of the 32-bit set leaves what the
fields of the word say.
-/

namespace Prazor.Arm

namespace Armisa

/-- What the executor does with a decoded operation. -/
def execData (s : Armisa) : Option Armisa :=
  match s.insDecodeT with
  | .aluT => s.execAluOperandInstr
  | .mulT => s.execMulOperandInstr
  | _ => none

/-! ## What an operation leaves -/

/-- The CPSR after an operation that sets the flags. -/
def flagged (cpsr : BitVec 32) (shiftCarry : Bool) (out : AluOutcome) : BitVec 32 :=
  if out.arithmetic then (cpsr &&& 0x0FFFFFFF) |||
    (flagAt (bit out.result 31) 31 + flagAt (decide (out.result = 0)) 30 + flagAt out.carry 29 +
      flagAt out.overflow 28)
  else (cpsr &&& 0x1FFFFFFF) |||
    (flagAt (bit out.result 31) 31 + flagAt (decide (out.result = 0)) 30 + flagAt shiftCarry 29)

/-- The registers after the destination is written. -/
def writtenBack (bank : ArmBank) (raw : ℕ → BitVec 32) (rd : ℕ) (out : AluOutcome) :
    ℕ → BitVec 32 :=
  match if out.wbDefault then rawIndex bank rd else none with
  | some i => Function.update raw i (out.result + if rd = 15 then armPcCorrection else 0)
  | none => raw

/-- The registers after an operation. -/
def written (bank : ArmBank) (raw : ℕ → BitVec 32) (setFlags shiftCarry : Bool) (rd : ℕ)
    (out : AluOutcome) : ℕ → BitVec 32 :=
  writtenBack bank
    (if setFlags then Function.update raw cpsrReg (flagged (raw cpsrReg) shiftCarry out) else raw)
    rd out

variable {s t a : Armisa} {out : AluOutcome}

theorem updateFlags_eq (hrd : s.insRd ≠ 15 ∨ out.wbDefault = false) :
    (s.setResult out).updateFlags (if out.arithmetic then .arith32 else .logic32) out.carry
      out.overflow = some ((s.setResult out).setCpsr (flagged s.cpsr s.insShiftCarryOut out)) := by
  cases harithmetic : out.arithmetic with
  | true =>
      have hwrite : (s.setResult out).insRd ≠ 15 ∨ ¬(s.setResult out).insWBdefault := by
        simpa using hrd
      simp only [updateFlags, if_true, if_pos hwrite, flagged, harithmetic]
      rfl
  | false =>
      simp only [updateFlags, flagged, harithmetic, Bool.false_eq_true, if_false]
      rfl

theorem writeBack_rawReg (hdefault : s.insWBdefault = out.wbDefault)
    (hresult : s.insAluResult = out.result) (hrd : out.wbDefault = true → s.insRd < 16)
    (hpc : s.insS = true → s.insRd ≠ 15 ∨ out.wbDefault = false) :
    ∃ s', s.writeBack = some s' ∧
      s'.rawReg = writtenBack s.currentBank s.rawReg s.insRd out := by
  cases hwrite : out.wbDefault with
  | false =>
      refine ⟨s, ?_, ?_⟩
      · simp [writeBack, hdefault, hwrite]
      · simp [writtenBack, hwrite]
  | true =>
      have hlt : s.insRd < 17 := Nat.lt_succ_of_lt (hrd hwrite)
      obtain ⟨i, hi⟩ := rawIndex_of_lt s.currentBank hlt
      by_cases hrd15 : s.insRd = 15
      · have hS : s.insS = false := by
          rw [Bool.eq_false_iff]
          intro hS
          exact (hpc hS).elim (absurd hrd15) (by simp [hwrite])
        rw [hrd15] at hi
        refine ⟨{ s with
          rawReg := Function.update s.rawReg i (s.insAluResult + armPcCorrection) }, ?_, ?_⟩
        · simp [writeBack, setReg?, hdefault, hwrite, hrd15, hi, hS]
        · simp [writtenBack, hwrite, hrd15, hi, hresult]
      · refine ⟨{ s with rawReg := Function.update s.rawReg i s.insAluResult }, ?_, ?_⟩
        · simp [writeBack, setReg?, hdefault, hwrite, hrd15, hi]
        · simp [writtenBack, hwrite, hrd15, hi, hresult]

/-- The executor, where it sets no flags together with the PC. -/
theorem execAluOperandInstr_rawReg (hout : s.aluOperation = some out)
    (hrd : out.wbDefault = true → s.insRd < 16)
    (hpc : s.insS = true → s.insRd ≠ 15 ∨ out.wbDefault = false) :
    ∃ s', s.execAluOperandInstr = some s' ∧
      s'.rawReg = written s.currentBank s.rawReg s.insS s.insShiftCarryOut s.insRd out := by
  cases hS : s.insS with
  | false =>
      obtain ⟨s', hs', hraw⟩ := writeBack_rawReg (s := s.setResult out) rfl rfl hrd hpc
      refine ⟨s', ?_, hraw⟩
      simp only [execAluOperandInstr, hout, Option.bind_eq_bind, Option.bind_some]
      rw [show (s.setResult out).insS = false from hS]
      exact hs'
  | true =>
      obtain ⟨s', hs', hraw⟩ := @writeBack_rawReg
        ((s.setResult out).setCpsr (flagged s.cpsr s.insShiftCarryOut out)) out rfl rfl hrd hpc
      refine ⟨s', ?_, hraw⟩
      rw [execAluOperandInstr_flags hout hS, updateFlags_eq (hpc hS)]
      exact hs'

/-! ## The same operation -/

/-- The operations whose flags take the carry of the shifter. -/
def logicalOpcode (opcode : ℕ) : Bool :=
  decide (opcode ∈ [0, 1, 8, 9, 12, 13, 14, 15])

/-- The operations that only set flags. -/
def comparesOpcode (opcode : ℕ) : Bool :=
  decide (opcode ∈ [8, 9, 10, 11])

/-- What a decoder leaves of an operation for the executor. -/
structure Decoded (s t : Armisa) (opcode : ℕ) (setFlags : Bool) (rd : ℕ)
    (operand1 operand2 : BitVec 32) : Prop where
  insDecodeT : t.insDecodeT = .aluT
  rawReg : t.rawReg = s.rawReg
  currentBank : t.currentBank = s.currentBank
  insS : t.insS = setFlags
  insALUOpcode : t.insALUOpcode = opcode
  insRd : comparesOpcode opcode = false → t.insRd = rd
  insAluOperand1 : opcode ≠ 13 → opcode ≠ 15 → t.insAluOperand1 = operand1
  insAluOperand2 : t.insAluOperand2 = operand2
  movw : opcode = 8 → t.thumbMode = true ∨ bit t.instruction 20 = true

variable {opcode rd : ℕ} {setFlags : Bool} {operand1 operand2 : BitVec 32}

theorem Decoded.not_movw (ht : Decoded s t opcode setFlags rd operand1 operand2)
    (hopcode : opcode = 8) : (!t.thumbMode && !bit t.instruction 20) = false := by
  rcases ht.movw hopcode with hthumb | hbit
  · simp [hthumb]
  · simp [hbit]

/-- Which operations set the flags from the shifter, and which write no result. -/
theorem Decoded.aluOperation (ht : Decoded s t opcode setFlags rd operand1 operand2)
    (hopcode : opcode < 16) :
    ∃ out, t.aluOperation = some out ∧ out.arithmetic = !logicalOpcode opcode ∧
      out.wbDefault = !comparesOpcode opcode := by
  have hop := ht.insALUOpcode
  have hmovw := ht.not_movw
  unfold Armisa.aluOperation
  rw [hop]
  interval_cases opcode <;>
    first
      | exact ⟨_, rfl, rfl, rfl⟩
      | (simp only [hmovw rfl, Bool.false_eq_true, if_false]
         exact ⟨_, rfl, rfl, rfl⟩)

/-- The operation depends on what is decoded and on the carry flag. -/
theorem Decoded.aluOperation_eq (ht : Decoded s t opcode setFlags rd operand1 operand2)
    (ha : Decoded s a opcode setFlags rd operand1 operand2) (hopcode : opcode < 16) :
    t.aluOperation = a.aluOperation := by
  have hc : t.cFlag = a.cFlag := by
    rw [cFlag, cFlag, cpsr, cpsr, ht.rawReg, ha.rawReg]
  have hmovwt := ht.not_movw
  have hmovwa := ha.not_movw
  have ht1 := ht.insAluOperand1
  have ha1 := ha.insAluOperand1
  unfold Armisa.aluOperation
  rw [ht.insALUOpcode, ha.insALUOpcode, ht.insAluOperand2, ha.insAluOperand2, hc]
  interval_cases opcode <;>
    first
      | rfl
      | simp only [hmovwt rfl, hmovwa rfl, ht1 (by decide) (by decide),
          ha1 (by decide) (by decide), Bool.false_eq_true, if_false]
      | simp only [ht1 (by decide) (by decide), ha1 (by decide) (by decide)]

/-- A word with another carry flag. -/
def withCarry (cpsr : BitVec 32) (carry : Bool) : BitVec 32 :=
  (cpsr &&& 0xDFFFFFFF) ||| flagAt carry 29

theorem withCarry_flagged (cpsr : BitVec 32) (c c' : Bool) {out : AluOutcome}
    (harithmetic : out.arithmetic = false) :
    withCarry (flagged cpsr c out) c' = flagged cpsr c' out := by
  have hflags : ∀ n z c c' : Bool, ((flagAt n 31 + flagAt z 30 + flagAt c 29) &&& 0xDFFFFFFF) |||
      flagAt c' 29 = flagAt n 31 + flagAt z 30 + flagAt c' 29 := by
    decide
  have hmask : (0x1FFFFFFF : BitVec 32) &&& 0xDFFFFFFF = 0x1FFFFFFF := by decide
  simp only [withCarry, flagged, harithmetic, Bool.false_eq_true, if_false]
  rw [BitVec.and_or_distrib_right, BitVec.and_assoc, hmask, BitVec.or_assoc, hflags]

theorem writtenBack_of_compares {bank : ArmBank} {raw : ℕ → BitVec 32} {out : AluOutcome}
    (hwrite : out.wbDefault = false) (rd : ℕ) : writtenBack bank raw rd out = raw := by
  simp [writtenBack, hwrite]

/-- No destination is where the CPSR is. -/
theorem update_writtenBack {bank : ArmBank} (raw : ℕ → BitVec 32) {out : AluOutcome}
    (hrd : out.wbDefault = true → rd < 16) (v : BitVec 32) :
    Function.update (writtenBack bank raw rd out) cpsrReg v =
        writtenBack bank (Function.update raw cpsrReg v) rd out ∧
      writtenBack bank raw rd out cpsrReg = raw cpsrReg := by
  cases hwrite : out.wbDefault with
  | false => simp [writtenBack_of_compares hwrite]
  | true =>
      obtain ⟨i, hi⟩ := rawIndex_of_lt bank (Nat.lt_succ_of_lt (hrd hwrite))
      have hne : i ≠ cpsrReg := rawIndex_ne_cpsr (hrd hwrite).ne hi
      simp only [writtenBack, hwrite, if_true, hi]
      exact ⟨Function.update_comm hne _ _ _, Function.update_of_ne hne.symm _ _⟩

/-- What the executor leaves of a decoded operation. -/
theorem Decoded.exec (ht : Decoded s t opcode setFlags rd operand1 operand2)
    (hout : t.aluOperation = some out) (hwrite : out.wbDefault = !comparesOpcode opcode)
    (hrd : comparesOpcode opcode = false → rd < 16 ∧ (setFlags = true → rd ≠ 15)) :
    ∃ t', t.execData = some t' ∧
      t'.rawReg = written s.currentBank s.rawReg setFlags t.insShiftCarryOut rd out := by
  have hwrites : out.wbDefault = true → comparesOpcode opcode = false := by
    intro hdefault
    simpa [hdefault] using hwrite
  have hlt : out.wbDefault = true → t.insRd < 16 := by
    intro hdefault
    rw [ht.insRd (hwrites hdefault)]
    exact (hrd (hwrites hdefault)).1
  have hpc : t.insS = true → t.insRd ≠ 15 ∨ out.wbDefault = false := by
    intro hS
    cases hdefault : out.wbDefault with
    | false => exact .inr rfl
    | true =>
        rw [ht.insRd (hwrites hdefault)]
        exact .inl ((hrd (hwrites hdefault)).2 (ht.insS ▸ hS))
  obtain ⟨t', ht', hraw⟩ := execAluOperandInstr_rawReg hout hlt hpc
  refine ⟨t', ?_, ?_⟩
  · rw [execData, ht.insDecodeT]
    exact ht'
  · rw [hraw, ht.currentBank, ht.rawReg, ht.insS, written, written]
    cases hdefault : out.wbDefault with
    | false => rw [writtenBack_of_compares hdefault, writtenBack_of_compares hdefault]
    | true => rw [ht.insRd (hwrites hdefault)]

/-- Two decoders that leave the same operation make the executor leave the same registers, if they
leave the same carry of the shifter or no flag depends on it. -/
theorem exec_of_decoded (ht : Decoded s t opcode setFlags rd operand1 operand2)
    (ha : Decoded s a opcode setFlags rd operand1 operand2) (hopcode : opcode < 16)
    (hrd : comparesOpcode opcode = false → rd < 16 ∧ (setFlags = true → rd ≠ 15)) :
    ∃ t' a', t.execData = some t' ∧ a.execData = some a' ∧
      (t.insShiftCarryOut = a.insShiftCarryOut ∨ (setFlags && logicalOpcode opcode) = false →
        t'.rawReg = a'.rawReg) ∧
      ((setFlags && logicalOpcode opcode) = true → t'.rawReg =
        Function.update a'.rawReg cpsrReg (withCarry (a'.rawReg cpsrReg) t.insShiftCarryOut)) := by
  obtain ⟨out, hout, harithmetic, hwrite⟩ := ht.aluOperation hopcode
  have houta : a.aluOperation = some out := (ht.aluOperation_eq ha hopcode).symm.trans hout
  obtain ⟨t', ht', hrawt⟩ := ht.exec hout hwrite hrd
  obtain ⟨a', ha', hrawa⟩ := ha.exec houta hwrite hrd
  refine ⟨t', a', ht', ha', ?_, ?_⟩
  · intro hsame
    rw [hrawt, hrawa]
    rcases hsame with hsame | hnone
    · rw [hsame]
    · cases hS : setFlags with
      | false => simp only [written, Bool.false_eq_true, if_false]
      | true =>
          have harith : out.arithmetic = true := by
            rw [hS, Bool.true_and] at hnone
            rw [harithmetic, hnone, Bool.not_false]
          simp only [written, if_true, flagged, harith]
  · intro hlogical
    obtain ⟨hS, hopcode⟩ := Bool.and_eq_true_iff.mp hlogical
    have harith : out.arithmetic = false := by
      rw [harithmetic, hopcode, Bool.not_true]
    have hrd16 : out.wbDefault = true → rd < 16 := by
      intro hdefault
      rw [hdefault] at hwrite
      exact (hrd (by simpa using hwrite.symm)).1
    rw [hrawt, hrawa, written, written, (update_writtenBack _ hrd16 _).1,
      (update_writtenBack _ hrd16 0).2]
    simp only [hS, if_true, Function.update_self, Function.update_idem,
      withCarry_flagged _ _ _ harith]

end Armisa

/-! ## The words -/

/-- An instruction of the 32-bit set that processes data, and is always executed. -/
def armWord (immediate : Bool) (opcode : BitVec 4) (setFlags : Bool) (rn rd : BitVec 4)
    (operand2 : BitVec 12) : BitVec 32 :=
  encode (0b111000#6 ++ BitVec.ofBool immediate ++ opcode ++ BitVec.ofBool setFlags) rn rd operand2

section Words

variable (immediate : Bool) (opcode : BitVec 4) (setFlags : Bool) (rn rd : BitVec 4)
  (operand2 : BitVec 12)

@[simp]
theorem bit_armWord_immediate :
    bit (armWord immediate opcode setFlags rn rd operand2) 25 = immediate := by
  rw [armWord, bit_encode_top _ _ _ _ (by decide)]
  simp only [BitVec.getLsbD_append, BitVec.getLsbD_ofBool]
  rfl

@[simp]
theorem bit_armWord_setFlags :
    bit (armWord immediate opcode setFlags rn rd operand2) 20 = setFlags := by
  rw [armWord, bit_encode_top _ _ _ _ (by decide)]
  simp only [BitVec.getLsbD_append, BitVec.getLsbD_ofBool]
  rfl

@[simp]
theorem bits4_armWord_opcode :
    (bits4 (armWord immediate opcode setFlags rn rd operand2) 21).toNat = opcode.toNat := by
  apply bits4_of_getLsbD
  intro i hi
  rw [armWord, bit_encode_top _ _ _ _ (by omega)]
  simp only [BitVec.getLsbD_append, BitVec.getLsbD_ofBool]
  interval_cases i <;> rfl

@[simp]
theorem bits4_armWord_rn :
    (bits4 (armWord immediate opcode setFlags rn rd operand2) 16).toNat = rn.toNat :=
  bits4_encode_rn _ rn rd operand2

@[simp]
theorem bits4_armWord_rd :
    (bits4 (armWord immediate opcode setFlags rn rd operand2) 12).toNat = rd.toNat :=
  bits4_encode_rd _ rn rd operand2

theorem bit_armWord_operand2 {i : ℕ} (hi : i < 12) :
    bit (armWord immediate opcode setFlags rn rd operand2) i = operand2.getLsbD i :=
  bit_encode_operand _ rn rd operand2 hi

/-- Only a rotation by an immediate of nothing is the rotation through the carry. -/
theorem isMovRrx_armWord (hnot : immediate = true ∨ operand2.getLsbD 4 = true ∨
    operand2.getLsbD 5 = false ∨ operand2.getLsbD 6 = false) :
    Armisa.isMovRrx (armWord immediate opcode setFlags rn rd operand2) = false := by
  rw [Armisa.isMovRrx, decide_eq_false_iff_not]
  intro hpattern
  have himmediate := bit_of_pattern hpattern (show bit 0xFEF0FF0 25 = true by decide)
  have hbit4 := bit_of_pattern hpattern (show bit 0xFEF0FF0 4 = true by decide)
  have hbit5 := bit_of_pattern hpattern (show bit 0xFEF0FF0 5 = true by decide)
  have hbit6 := bit_of_pattern hpattern (show bit 0xFEF0FF0 6 = true by decide)
  rw [bit_armWord_immediate] at himmediate
  rw [bit_armWord_operand2 _ _ _ _ _ _ (by decide)] at hbit4 hbit5 hbit6
  rcases hnot with hnot | hnot | hnot | hnot
  · rw [hnot] at himmediate
    exact absurd himmediate (by decide)
  · rw [hnot] at hbit4
    exact absurd hbit4 (by decide)
  · rw [hnot] at hbit5
    exact absurd hbit5 (by decide)
  · rw [hnot] at hbit6
    exact absurd hbit6 (by decide)

end Words

namespace Armisa

variable {s : Armisa}

/-- What the shifter makes of these fields, whatever else is decoded. -/
def Shifts (s : Armisa) (rm type : ℕ) (computed : Bool) (value : BitVec 32)
    (out : BitVec 32 × Bool) : Prop :=
  ∀ u : Armisa, u.rawReg = s.rawReg → u.currentBank = s.currentBank → u.insRm = rm →
    u.insShiftType = type → u.insShiftComputed = computed → u.insShiftValue = value →
    u.execShiftOperandInstr = some { u with insAluOperand2 := out.1, insShiftCarryOut := out.2 }

/-- The shift depends on its fields, the registers and the carry flag. -/
theorem shifts_of_some {rm type : ℕ} {computed : Bool} {value : BitVec 32}
    {out : BitVec 32 × Bool} (hrm : rm < 16)
    (hout : shiftOperand type (if computed = true ∧ rm = 15 then s.reg rm + 4 else s.reg rm)
      (if computed then (value &&& 255).toNat else value.toNat) s.cFlag = some out) :
    s.Shifts rm type computed value out := by
  intro u hraw hbank hm ht hcomputed hvalue
  have hreg : u.reg? u.insRm = some (s.reg rm) := by
    rw [hm, reg?, hraw, hbank]
    exact s.reg?_of_lt (by omega)
  have hc : u.cFlag = s.cFlag := by
    rw [cFlag, cFlag, cpsr, cpsr, hraw]
  apply execShiftOperandInstr_of_some hreg
  rw [hm, ht, hcomputed, hvalue, hc]
  exact hout

theorem exists_shifts (s : Armisa) {rm type : ℕ} (computed : Bool)
    (value : BitVec 32) (hrm : rm < 16) (htype : type < 4) :
    ∃ out, s.Shifts rm type computed value out := by
  have hsome : ∀ x n, ∃ out, shiftOperand type x n s.cFlag = some out := by
    intro x n
    interval_cases type <;> exact ⟨_, rfl⟩
  obtain ⟨out, hout⟩ := hsome
    (if computed = true ∧ rm = 15 then s.reg rm + 4 else s.reg rm)
    (if computed then (value &&& 255).toNat else value.toNat)
  exact ⟨out, shifts_of_some hrm hout⟩

section Decoders

variable (s : Armisa) (opcode : BitVec 4) (setFlags : Bool) (rn rd : BitVec 4)

/-- The state before the second operand is decoded. -/
def fielded (word : BitVec 32) : Armisa :=
  { s with
    thumbMode := false
    instruction := word
    insS := setFlags
    insRn := rn.toNat
    insRd := rd.toNat }

theorem decodeFields_armWord (immediate : Bool) (operand2 : BitVec 12) :
    (s.asArm (armWord immediate opcode setFlags rn rd operand2)).decodeFields =
      s.fielded setFlags rn rd (armWord immediate opcode setFlags rn rd operand2) := by
  simp [decodeFields, asArm, fielded]

/-- The decode of an instruction of the 32-bit set, once its second operand is decoded. -/
theorem decode_of_operand2 {s : Armisa} {opcode : BitVec 4} {setFlags : Bool} {rn rd : BitVec 4}
    {immediate : Bool} {operand2 : BitVec 12} {word : BitVec 32} {u : Armisa}
    (hword : word = armWord immediate opcode setFlags rn rd operand2)
    (hmov : isMovRrx word = false) (hmovw : opcode.toNat = 8 → setFlags = true)
    (hoperand2 : (s.fielded setFlags rn rd word).decodeOperand2 = some u)
    (hu : u.rawReg = s.rawReg ∧ u.currentBank = s.currentBank ∧ u.insDecodeT = .aluT ∧
      u.insS = setFlags ∧ u.insRn = rn.toNat ∧ u.insRd = rd.toNat ∧ u.instruction = word) :
    ∃ a, (s.asArm word).decodeDataProcessing = some a ∧
      Decoded s a opcode.toNat setFlags rd.toNat (s.reg rn.toNat) u.insAluOperand2 ∧
      a.insShiftCarryOut = u.insShiftCarryOut := by
  obtain ⟨hraw, hbank, hT, hS, hrn, hrd, hinstruction⟩ := hu
  have hreg : u.reg? u.insRn = some (s.reg rn.toNat) := by
    rw [hrn, reg?, hraw, hbank]
    exact s.reg?_toNat rn
  refine ⟨{ u with insALUOpcode := opcode.toNat, insAluOperand1 := s.reg rn.toNat }, ?_, ?_, rfl⟩
  · have hfielded : (s.asArm word).decodeFields = s.fielded setFlags rn rd word := by
      rw [hword]
      exact s.decodeFields_armWord opcode setFlags rn rd immediate operand2
    have hopcode : (bits4 word 21).toNat = opcode.toNat := by
      rw [hword, bits4_armWord_opcode]
    have hmov' : isMovRrx (s.fielded setFlags rn rd word).instruction = false := hmov
    simp only [decodeDataProcessing]
    rw [hfielded, hmov', hoperand2]
    simp [hreg, hinstruction, hopcode]
  · refine ⟨hT, hraw, hbank, hS, rfl, fun _ => hrd, fun _ _ => rfl, rfl, ?_⟩
    intro hopcode
    right
    rw [hinstruction, hword, bit_armWord_setFlags]
    exact hmovw hopcode

theorem decodeOperand2_immediate {u : Armisa} (h25 : bit u.instruction 25 = true) :
    u.decodeOperand2 = some { u with
      insDecodeT := .aluT
      insShiftCarryOut := false
      insAluOperand2 := ror (bits u.instruction 0 8) (2 * (bits4 u.instruction 8).toNat) } := by
  simp only [decodeOperand2, h25, if_true]
  rfl

/-- An instruction of the 32-bit set with an immediate. -/
theorem decode_immediate (operand2 : BitVec 12) (hmovw : opcode.toNat = 8 → setFlags = true) :
    ∃ a, (s.asArm (armWord true opcode setFlags rn rd operand2)).decodeDataProcessing = some a ∧
      Decoded s a opcode.toNat setFlags rd.toNat (s.reg rn.toNat)
        (ror ((operand2.extractLsb' 0 8).setWidth 32) (2 * (operand2.extractLsb' 8 4).toNat)) ∧
      a.insShiftCarryOut = false := by
  obtain ⟨word, hword⟩ : ∃ word, word = armWord true opcode setFlags rn rd operand2 := ⟨_, rfl⟩
  rw [← hword]
  have hbit25 : bit word 25 = true := by
    rw [hword, bit_armWord_immediate]
  have hvalue : bits word 0 8 = (operand2.extractLsb' 0 8).setWidth 32 := by
    rw [hword]
    exact bits_encode_operand _ _ _ _ (by decide)
  have hrotate : (bits4 word 8).toNat = (operand2.extractLsb' 8 4).toNat := by
    rw [hword]
    exact bits4_encode_operand _ _ _ _ le_rfl
  have hmov : isMovRrx word = false := by
    rw [hword]
    exact isMovRrx_armWord _ _ _ _ _ _ (.inl rfl)
  rw [← hvalue, ← hrotate]
  apply decode_of_operand2 hword hmov hmovw (u :=
    { s.fielded setFlags rn rd word with
      insDecodeT := .aluT
      insShiftCarryOut := false
      insAluOperand2 := ror (bits word 0 8) (2 * (bits4 word 8).toNat) })
  · exact decodeOperand2_immediate hbit25
  · exact ⟨rfl, rfl, rfl, rfl, rfl, rfl, rfl⟩

theorem decodeOperand2_shifted {u : Armisa} (h25 : bit u.instruction 25 = false)
    (h4 : bit u.instruction 4 = false) :
    u.decodeOperand2 = execShiftOperandInstr { u with
      insDecodeT := .aluT
      insShiftCarryOut := false
      insRm := (bits4 u.instruction 0).toNat
      insShiftType := (bits u.instruction 5 2).toNat
      insShiftComputed := false
      insShiftValue := bits u.instruction 7 5 } := by
  simp only [decodeOperand2, h25, h4, Bool.false_eq_true, if_false]

theorem decodeOperand2_register {u : Armisa} {value : BitVec 32}
    (h25 : bit u.instruction 25 = false) (h4 : bit u.instruction 4 = true)
    (h7 : bit u.instruction 7 = false)
    (hvalue : u.reg? (bits4 u.instruction 8).toNat = some value) :
    u.decodeOperand2 = execShiftOperandInstr { u with
      insDecodeT := .aluT
      insShiftCarryOut := false
      insRm := (bits4 u.instruction 0).toNat
      insShiftType := (bits u.instruction 5 2).toNat
      insShiftComputed := true
      insShiftValue := value
      insRs := (bits4 u.instruction 8).toNat } := by
  have hguard : (guard True : Option Unit) = some () := rfl
  have hvalue' : reg? { u with
      insDecodeT := .aluT
      insShiftCarryOut := false
      insRm := (bits4 u.instruction 0).toNat
      insShiftType := (bits u.instruction 5 2).toNat
      insShiftComputed := true } (bits4 u.instruction 8).toNat = some value := hvalue
  simp only [decodeOperand2, h25, h4, h7, Bool.false_eq_true, if_false, if_true, hguard,
    hvalue', Option.bind_eq_bind, Option.bind_some]

variable {out : BitVec 32 × Bool}

/-- An instruction of the 32-bit set with a register that is shifted by an immediate. -/
theorem decode_shifted (imm5 : BitVec 5) (type : BitVec 2) (rm : BitVec 4) (htype : type ≠ 3)
    (hmovw : opcode.toNat = 8 → setFlags = true)
    (hout : s.Shifts rm.toNat type.toNat false (imm5.setWidth 32) out) :
    ∃ a, (s.asArm (armWord false opcode setFlags rn rd
        (imm5 ++ type ++ 0#1 ++ rm))).decodeDataProcessing = some a ∧
      Decoded s a opcode.toNat setFlags rd.toNat (s.reg rn.toNat) out.1 ∧
      a.insShiftCarryOut = out.2 := by
  obtain ⟨operand2, hoperand2⟩ : ∃ operand2 : BitVec 12, operand2 = imm5 ++ type ++ 0#1 ++ rm :=
    ⟨_, rfl⟩
  obtain ⟨word, hword⟩ : ∃ word, word = armWord false opcode setFlags rn rd operand2 := ⟨_, rfl⟩
  rw [← hoperand2, ← hword]
  have hbit : ∀ i, operand2.getLsbD i = if i < 4 then rm.getLsbD i else if i - 4 < 1 then
      (0#1).getLsbD (i - 4) else if i - 4 - 1 < 2 then type.getLsbD (i - 4 - 1)
      else imm5.getLsbD (i - 4 - 1 - 2) := by
    intro i
    simp only [hoperand2, BitVec.getLsbD_append]
  have hrm : (bits4 word 0).toNat = rm.toNat := by
    apply bits4_of_getLsbD
    intro i hi
    rw [hword, bit_armWord_operand2 _ _ _ _ _ _ (by omega), hbit]
    interval_cases i <;> rfl
  have hfield : bits word 5 2 = type.setWidth 32 := by
    apply bits_of_getLsbD (by decide)
    intro i hi
    rw [hword, bit_armWord_operand2 _ _ _ _ _ _ (by omega), hbit]
    interval_cases i <;> rfl
  have himm5 : bits word 7 5 = imm5.setWidth 32 := by
    apply bits_of_getLsbD (by decide)
    intro i hi
    rw [hword, bit_armWord_operand2 _ _ _ _ _ _ (by omega), hbit]
    interval_cases i <;> rfl
  have hbit25 : bit word 25 = false := by
    rw [hword, bit_armWord_immediate]
  have hbit4 : bit word 4 = false := by
    rw [hword, bit_armWord_operand2 _ _ _ _ _ _ (by decide), hbit]
    rfl
  have hnot : type.getLsbD 0 = false ∨ type.getLsbD 1 = false := by
    clear hout hbit hfield hoperand2
    revert type
    decide
  have hmov : isMovRrx word = false := by
    rw [hword]
    apply isMovRrx_armWord
    rw [hbit 5, hbit 6]
    exact .inr (.inr hnot)
  apply decode_of_operand2 hword hmov hmovw (u :=
    { s.fielded setFlags rn rd word with
      insDecodeT := .aluT
      insRm := rm.toNat
      insShiftType := type.toNat
      insShiftComputed := false
      insShiftValue := imm5.setWidth 32
      insShiftCarryOut := out.2
      insAluOperand2 := out.1 })
  · rw [decodeOperand2_shifted (u := s.fielded setFlags rn rd word) hbit25 hbit4]
    rw [show ((s.fielded setFlags rn rd word).instruction) = word from rfl, hrm, hfield, himm5,
      toNat_setWidth_32 _ (by decide)]
    exact hout _ rfl rfl rfl rfl rfl rfl
  · exact ⟨rfl, rfl, rfl, rfl, rfl, rfl, rfl⟩

/-- An instruction of the 32-bit set with a register that is shifted by another. -/
theorem decode_register (rs rm : BitVec 4) (type : BitVec 2)
    (hmovw : opcode.toNat = 8 → setFlags = true)
    (hout : s.Shifts rm.toNat type.toNat true (s.reg rs.toNat) out) :
    ∃ a, (s.asArm (armWord false opcode setFlags rn rd
        (rs ++ 0#1 ++ type ++ 1#1 ++ rm))).decodeDataProcessing = some a ∧
      Decoded s a opcode.toNat setFlags rd.toNat (s.reg rn.toNat) out.1 ∧
      a.insShiftCarryOut = out.2 := by
  obtain ⟨operand2, hoperand2⟩ :
      ∃ operand2 : BitVec 12, operand2 = rs ++ 0#1 ++ type ++ 1#1 ++ rm := ⟨_, rfl⟩
  obtain ⟨word, hword⟩ : ∃ word, word = armWord false opcode setFlags rn rd operand2 := ⟨_, rfl⟩
  rw [← hoperand2, ← hword]
  have hbit : ∀ i, operand2.getLsbD i = if i < 4 then rm.getLsbD i else if i - 4 < 1 then
      (1#1).getLsbD (i - 4) else if i - 4 - 1 < 2 then type.getLsbD (i - 4 - 1)
      else if i - 4 - 1 - 2 < 1 then (0#1).getLsbD (i - 4 - 1 - 2)
      else rs.getLsbD (i - 4 - 1 - 2 - 1) := by
    intro i
    simp only [hoperand2, BitVec.getLsbD_append]
  have hrm : (bits4 word 0).toNat = rm.toNat := by
    apply bits4_of_getLsbD
    intro i hi
    rw [hword, bit_armWord_operand2 _ _ _ _ _ _ (by omega), hbit]
    interval_cases i <;> rfl
  have hrs : (bits4 word 8).toNat = rs.toNat := by
    apply bits4_of_getLsbD
    intro i hi
    rw [hword, bit_armWord_operand2 _ _ _ _ _ _ (by omega), hbit]
    interval_cases i <;> rfl
  have hfield : bits word 5 2 = type.setWidth 32 := by
    apply bits_of_getLsbD (by decide)
    intro i hi
    rw [hword, bit_armWord_operand2 _ _ _ _ _ _ (by omega), hbit]
    interval_cases i <;> rfl
  have hbit25 : bit word 25 = false := by
    rw [hword, bit_armWord_immediate]
  have hbit4 : bit word 4 = true := by
    rw [hword, bit_armWord_operand2 _ _ _ _ _ _ (by decide), hbit]
    rfl
  have hbit7 : bit word 7 = false := by
    rw [hword, bit_armWord_operand2 _ _ _ _ _ _ (by decide), hbit]
    rfl
  have hmov : isMovRrx word = false := by
    rw [hword]
    apply isMovRrx_armWord
    rw [hbit 4]
    exact .inr (.inl rfl)
  have hvalue : (s.fielded setFlags rn rd word).reg? (bits4 word 8).toNat =
      some (s.reg rs.toNat) := by
    rw [hrs]
    exact s.reg?_toNat rs
  apply decode_of_operand2 hword hmov hmovw (u :=
    { s.fielded setFlags rn rd word with
      insDecodeT := .aluT
      insRm := rm.toNat
      insShiftType := type.toNat
      insShiftComputed := true
      insShiftValue := s.reg rs.toNat
      insRs := rs.toNat
      insShiftCarryOut := out.2
      insAluOperand2 := out.1 })
  · rw [decodeOperand2_register (u := s.fielded setFlags rn rd word) hbit25 hbit4 hbit7 hvalue]
    rw [show ((s.fielded setFlags rn rd word).instruction) = word from rfl, hrm, hfield, hrs,
      toNat_setWidth_32 _ (by decide)]
    exact hout _ rfl rfl rfl rfl rfl rfl
  · exact ⟨rfl, rfl, rfl, rfl, rfl, rfl, rfl⟩

/-- An immediate of at most 8 bits is not rotated. -/
theorem ror_unrotated {width : ℕ} (x : BitVec width) (hwidth : width ≤ 8) :
    ror (((x.setWidth 12).extractLsb' 0 8).setWidth 32)
      (2 * ((x.setWidth 12).extractLsb' 8 4).toNat) = x.setWidth 32 := by
  have hlt : x.toNat < 2 ^ 8 := x.isLt.trans_le (Nat.pow_le_pow_right (by decide) hwidth)
  have hrotate : ((x.setWidth 12).extractLsb' 8 4).toNat = 0 := by
    rw [BitVec.extractLsb'_toNat, BitVec.toNat_setWidth, Nat.shiftRight_eq_div_pow]
    omega
  rw [hrotate, ror, if_pos rfl]
  apply BitVec.eq_of_toNat_eq
  rw [BitVec.toNat_setWidth, BitVec.extractLsb'_toNat, BitVec.toNat_setWidth,
    BitVec.toNat_setWidth, Nat.shiftRight_zero]
  omega

/-- An instruction of the 32-bit set with an immediate that is not rotated. -/
theorem decode_unrotated {width : ℕ} (x : BitVec width) (hwidth : width ≤ 8)
    (hmovw : opcode.toNat = 8 → setFlags = true) :
    ∃ a, (s.asArm (armWord true opcode setFlags rn rd (x.setWidth 12))).decodeDataProcessing =
        some a ∧
      Decoded s a opcode.toNat setFlags rd.toNat (s.reg rn.toNat) (x.setWidth 32) ∧
      a.insShiftCarryOut = false := by
  rw [← ror_unrotated x hwidth]
  exact s.decode_immediate opcode setFlags rn rd (x.setWidth 12) hmovw

/-- A shift by nothing. -/
theorem shifts_zero (rm : BitVec 4) :
    s.Shifts rm.toNat 0 false 0 (s.reg rm.toNat, s.cFlag) :=
  shifts_of_some rm.isLt rfl

/-- An instruction of the 32-bit set with a register. -/
theorem decode_plain (rm : BitVec 4) (hmovw : opcode.toNat = 8 → setFlags = true) :
    ∃ a, (s.asArm (armWord false opcode setFlags rn rd
        (0#5 ++ 0#2 ++ 0#1 ++ rm))).decodeDataProcessing = some a ∧
      Decoded s a opcode.toNat setFlags rd.toNat (s.reg rn.toNat) (s.reg rm.toNat) ∧
      a.insShiftCarryOut = s.cFlag :=
  s.decode_shifted opcode setFlags rn rd 0#5 0#2 rm (by decide) hmovw (s.shifts_zero rm)

end Decoders

end Armisa

end Prazor.Arm
