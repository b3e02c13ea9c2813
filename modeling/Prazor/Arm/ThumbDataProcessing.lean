import Prazor.Arm.DataWords

/-!
# Data processing in 16 bits

The decoders of the 16-bit instructions that process data leave the same operation for the
executor as the decoder of the 32-bit set does for an equivalent instruction, so the two leave the
same registers.  They differ in one flag: where a logical operation sets the flags and there is
nothing to shift, the 16-bit decoders leave the carry of whatever was shifted last.
-/

namespace Prazor.Arm

namespace Armisa

/-- The branch of `DecodeThumb16ALU1` for a move of a register, shifted or not. -/
def decodeThumb16Shift (s : Armisa) (instr : BitVec 16) (mask : ℕ) : Option Armisa := do
  if field16 instr 9 5 = 0 ∧ field16 instr 6 3 = 0 then
    let operand2 ← s.reg? (field16 instr 3 3)
    return { s with
      insS := true
      insRd := field16 instr 0 3
      insRn := field16 instr 3 3
      insAluOperand2 := operand2
      insALUOpcode := 13 }
  else
    let s ← execShiftOperandInstr { s with
      insRd := field16 instr 0 3
      insRm := field16 instr 3 3
      insShiftType := mask
      insShiftComputed := false
      insShiftValue := bits16 instr 6 5 }
    return { s with insALUOpcode := 13 }

/-- `DecodeThumb16ALU1` -/
def decodeThumb16ALU1 (s : Armisa) (instr : BitVec 16) (inITBlock : Bool) : Option Armisa := do
  let s := { s with insDecodeT := .aluT, insS := !inITBlock }
  match field16 instr 9 5 >>> 2 &&& 7 with
  | 3 =>
      let s := { s with insRd := field16 instr 0 3, insRn := field16 instr 3 3 }
      let operand1 ← s.reg? (field16 instr 3 3)
      let s := { s with insAluOperand1 := operand1 }
      match field16 instr 9 2 with
      | 0 =>
          let operand2 ← s.reg? (field16 instr 6 3)
          return { s with
            insRm := field16 instr 6 3, insAluOperand2 := operand2, insALUOpcode := 4 }
      | 1 =>
          let operand2 ← s.reg? (field16 instr 6 3)
          return { s with
            insRm := field16 instr 6 3, insAluOperand2 := operand2, insALUOpcode := 2 }
      | 2 => return { s with insAluOperand2 := bits16 instr 6 3, insALUOpcode := 4 }
      | _ => return { s with insAluOperand2 := bits16 instr 6 3, insALUOpcode := 2 }
  | 4 =>
      return { s with
        insAluOperand2 := bits16 instr 0 8, insRd := field16 instr 8 3, insALUOpcode := 13 }
  | 5 =>
      let operand1 ← s.reg? (field16 instr 8 3)
      return { s with
        insS := true
        insRn := field16 instr 8 3
        insAluOperand1 := operand1
        insAluOperand2 := bits16 instr 0 8
        insALUOpcode := 10 }
  | 6 =>
      let operand1 ← s.reg? (field16 instr 8 3)
      return { s with
        insRd := field16 instr 8 3
        insRn := field16 instr 8 3
        insAluOperand1 := operand1
        insAluOperand2 := bits16 instr 0 8
        insALUOpcode := 4 }
  | 7 =>
      let operand1 ← s.reg? (field16 instr 8 3)
      return { s with
        insRd := field16 instr 8 3
        insRn := field16 instr 8 3
        insAluOperand1 := operand1
        insAluOperand2 := bits16 instr 0 8
        insALUOpcode := 2 }
  | mask => s.decodeThumb16Shift instr mask

/-- A move of a register that is shifted by another. -/
def shiftMove (s : Armisa) (type : ℕ) : Option Armisa := do
  let s ← execShiftOperandInstr { s with insShiftType := type }
  return { s with insALUOpcode := 13 }

/-- The switch of `DecodeThumb16ALU2`. -/
def switchALU2 (s : Armisa) (opcode : ℕ) : Option Armisa :=
  match opcode with
  | 2 => s.shiftMove 0
  | 3 => s.shiftMove 1
  | 4 => s.shiftMove 2
  | 7 => s.shiftMove 3
  | 9 =>
      -- reverse subtract from 0
      some { s with
        insAluOperand1 := s.insAluOperand2, insAluOperand2 := 0, insALUOpcode := 3 }
  | 13 => some { s with insDecodeT := .mulT, insMultAccum := 0, insMultOp := .unsigned }
  | opcode =>
      if opcode = 8 ∨ opcode = 10 ∨ opcode = 11 then
        some { s with insS := true, insALUOpcode := opcode }
      else some { s with insALUOpcode := opcode }

/-- `DecodeThumb16ALU2` -/
def decodeThumb16ALU2 (s : Armisa) (instr : BitVec 16) (inITBlock : Bool) : Option Armisa := do
  let operand1 ← s.reg? (field16 instr 0 3)
  let operand2 ← s.reg? (field16 instr 3 3)
  switchALU2 { s with
    insDecodeT := .aluT
    insS := !inITBlock
    insRd := field16 instr 0 3
    insRm := field16 instr 0 3
    insRn := field16 instr 3 3
    insAluOperand1 := operand1
    insAluOperand2 := operand2
    insShiftComputed := true
    insShiftValue := operand2 } (field16 instr 6 4)

/-- `DecodeThumb16Special`, but for the branches in it. -/
def decodeThumb16Special (s : Armisa) (instr : BitVec 16) : Option Armisa := do
  let d := field16 instr 7 1 <<< 3 ||| field16 instr 0 3
  let m := field16 instr 3 4
  let valueD ← s.reg? d
  let valueM ← s.reg? m
  match field16 instr 6 4 >>> 2 with
  | 0 =>
      let s := { s with insS := false, insRd := d, insDecodeT := .aluT, insALUOpcode := 4 }
      return if m = 13 then
          { s with insRn := 13, insRm := d, insAluOperand1 := valueM, insAluOperand2 := valueD }
        else { s with insRn := d, insRm := m, insAluOperand1 := valueD, insAluOperand2 := valueM }
  | 1 =>
      return { s with
        insS := true
        insDecodeT := .aluT
        insRn := d
        insRm := m
        insAluOperand1 := valueD
        insAluOperand2 := valueM
        insALUOpcode := 10 }
  | 2 =>
      return { s with
        insS := false
        insRd := d
        insRn := m
        insAluOperand2 := valueM
        insDecodeT := .aluT
        insALUOpcode := 13 }
  | _ => none

/-- ADD and SUB of a multiple of 4 and the stack pointer. -/
def decodeThumb16Sp (s : Armisa) (instr : BitVec 16) : Option Armisa := do
  let operand1 ← s.reg? 13
  if field16 instr 10 6 &&& 0x3E = 0x2A then
    return { s with
      insS := false
      insRd := field16 instr 8 3
      insRn := 13
      insAluOperand1 := operand1
      insAluOperand2 := bits16 instr 0 8 <<< 2
      insDecodeT := .aluT
      insALUOpcode := 4 }
  else
    return { s with
      insS := false
      insDecodeT := .aluT
      insRn := 13
      insAluOperand1 := operand1
      insAluOperand2 := bits16 instr 0 7 <<< 2
      insRd := 13
      insALUOpcode := if field16 instr 7 1 ≠ 0 then 2 else 4 }

/-- `DecodeThumb16`, for the instructions that process data. -/
def decodeThumb16Data (s : Armisa) (instr : BitVec 16) (inITBlock : Bool) : Option Armisa :=
  let opcode := field16 instr 10 6
  if opcode &&& 0x30 = 0 then s.decodeThumb16ALU1 instr inITBlock
  else if opcode = 0x10 then s.decodeThumb16ALU2 instr inITBlock
  else if opcode = 0x11 then s.decodeThumb16Special instr
  else if opcode &&& 0x3E = 0x2A then s.decodeThumb16Sp instr
  else if opcode &&& 0x3C = 0x2C ∧ (field16 instr 5 7 &&& 0x7C = 0 ∨ field16 instr 5 7 &&& 0x7C = 4)
  then s.decodeThumb16Sp instr
  else none

end Armisa

/-! ## Each group of instructions -/

/-- The move of a register, shifted or not, in the 32-bit set. -/
def armShift (instr : BitVec 16) (inITBlock : Bool) (mask : ℕ) : BitVec 32 :=
  if instr.extractLsb' 6 8 = 0 then
    armWord false 13 true 0 (low instr 0) (0#5 ++ 0#2 ++ 0#1 ++ low instr 3)
  else armWord false 13 (!inITBlock) 0 (low instr 0)
    (instr.extractLsb' 6 5 ++ BitVec.ofNat 2 mask ++ 0#1 ++ low instr 3)

/-- The instruction of the 32-bit set with the same registers and immediates, for those of
`DecodeThumb16ALU1`. -/
def armALU1 (instr : BitVec 16) (inITBlock : Bool) : BitVec 32 :=
  match (instr.extractLsb' 11 3).toNat with
  | 3 =>
      match (instr.extractLsb' 9 2).toNat with
      | 0 => armWord false 4 (!inITBlock) (low instr 3) (low instr 0)
          (0#5 ++ 0#2 ++ 0#1 ++ low instr 6)
      | 1 => armWord false 2 (!inITBlock) (low instr 3) (low instr 0)
          (0#5 ++ 0#2 ++ 0#1 ++ low instr 6)
      | 2 => armWord true 4 (!inITBlock) (low instr 3) (low instr 0)
          ((instr.extractLsb' 6 3).setWidth 12)
      | _ => armWord true 2 (!inITBlock) (low instr 3) (low instr 0)
          ((instr.extractLsb' 6 3).setWidth 12)
  | 4 => armWord true 13 (!inITBlock) 0 (low instr 8) ((instr.extractLsb' 0 8).setWidth 12)
  | 5 => armWord true 10 true (low instr 8) 0 ((instr.extractLsb' 0 8).setWidth 12)
  | 6 => armWord true 4 (!inITBlock) (low instr 8) (low instr 8)
      ((instr.extractLsb' 0 8).setWidth 12)
  | 7 => armWord true 2 (!inITBlock) (low instr 8) (low instr 8)
      ((instr.extractLsb' 0 8).setWidth 12)
  | mask => armShift instr inITBlock mask

/-- The instructions of `DecodeThumb16ALU1` that leave the carry of an earlier shift. -/
def leavesALU1 (instr : BitVec 16) (inITBlock : Bool) : Bool :=
  match (instr.extractLsb' 11 3).toNat with
  | 4 => !inITBlock
  | 3 | 5 | 6 | 7 => false
  | _ => instr.extractLsb' 6 8 = 0

namespace Armisa

variable {s t a : Armisa}

/-- Both decoders leave the same operation; `leaves` says whether the 16-bit one leaves the carry
of an earlier shift for the flags. -/
def Agree (s t a : Armisa) (leaves : Bool) : Prop :=
  ∃ opcode setFlags rd operand1 operand2, opcode < 16 ∧
    (comparesOpcode opcode = false → rd < 16 ∧ (setFlags = true → rd ≠ 15)) ∧
    Decoded s t opcode setFlags rd operand1 operand2 ∧
    Decoded s a opcode setFlags rd operand1 operand2 ∧
    if leaves then (setFlags && logicalOpcode opcode) = true ∧
      t.insShiftCarryOut = s.insShiftCarryOut
    else t.insShiftCarryOut = a.insShiftCarryOut ∨ (setFlags && logicalOpcode opcode) = false

theorem field16_mask (instr : BitVec 16) :
    field16 instr 9 5 >>> 2 &&& 7 = (instr.extractLsb' 11 3).toNat := by
  rw [field16_eq instr 9 _ (by decide) (by decide)]
  have hmask : ∀ n, n &&& 7 = n % 8 := fun n => Nat.and_two_pow_sub_one_eq_mod n 3
  simp only [BitVec.extractLsb'_toNat, hmask, Nat.shiftRight_eq_div_pow]
  omega

theorem field16_moves (instr : BitVec 16) :
    (field16 instr 9 5 = 0 ∧ field16 instr 6 3 = 0) ↔ instr.extractLsb' 6 8 = 0 := by
  rw [field16_eq instr 9 _ (by decide) (by decide), field16_eq instr 6 _ (by decide) (by decide),
    ← BitVec.toNat_inj]
  simp only [BitVec.extractLsb'_toNat, Nat.shiftRight_eq_div_pow]
  change _ ↔ instr.toNat / 2 ^ 6 % 2 ^ 8 = 0
  omega

/-- A 16-bit decoder leaves this operation, and the carry of an earlier shift. -/
def Leaves (s : Armisa) (decoded : Option Armisa) (opcode : ℕ) (setFlags : Bool) (rd : ℕ)
    (operand1 operand2 : BitVec 32) : Prop :=
  ∃ t, decoded = some t ∧ Decoded s t opcode setFlags rd operand1 operand2 ∧
    t.insShiftCarryOut = s.insShiftCarryOut

variable {opcode rd : ℕ} {setFlags leaves : Bool} {operand1 operand2 : BitVec 32} {carry : Bool}
  {decoded arm : Option Armisa}

theorem agree_of_leaves (hdecoded : Leaves s decoded opcode setFlags rd operand1 operand2)
    (harm : ∃ a, arm = some a ∧ Decoded s a opcode setFlags rd operand1 operand2 ∧
      a.insShiftCarryOut = carry)
    (hopcode : opcode < 16)
    (hrd : comparesOpcode opcode = false → rd < 16 ∧ (setFlags = true → rd ≠ 15))
    (hleaves : leaves = (setFlags && logicalOpcode opcode)) :
    ∃ t a, decoded = some t ∧ arm = some a ∧ Agree s t a leaves := by
  obtain ⟨t, ht, hdecodedT, hcarry⟩ := hdecoded
  obtain ⟨a, ha, hdecodedA, -⟩ := harm
  refine ⟨t, a, ht, ha, opcode, setFlags, rd, operand1, operand2, hopcode, hrd, hdecodedT,
    hdecodedA, ?_⟩
  cases hcase : leaves with
  | true => exact ⟨hleaves ▸ hcase, hcarry⟩
  | false => exact .inr (hleaves ▸ hcase)

theorem shift_agree (s : Armisa) (instr : BitVec 16) (inITBlock : Bool) {mask : ℕ}
    (hmask : mask < 3) :
    ∃ t a, decodeThumb16Shift { s with insDecodeT := .aluT, insS := !inITBlock } instr mask =
        some t ∧
      (s.asArm (armShift instr inITBlock mask)).decodeDataProcessing = some a ∧
      Agree s t a (decide (instr.extractLsb' 6 8 = 0)) := by
  have hrd0 := toNat_low instr 0 (by decide)
  have hrd3 := toNat_low instr 3 (by decide)
  have hlt := low_lt instr 0
  by_cases hmove : instr.extractLsb' 6 8 = 0
  · rw [armShift, if_pos hmove, decide_eq_true hmove, decodeThumb16Shift,
      if_pos ((field16_moves instr).mpr hmove)]
    refine agree_of_leaves ?_ (s.decode_plain 13 true 0 (low instr 0) (low instr 3) fun _ => rfl)
      (by decide) (fun _ => ⟨by omega, fun _ => by omega⟩) rfl
    simp only [reg?, s.map_rawReg_low instr 3 (by decide)]
    exact ⟨_, rfl, ⟨rfl, rfl, rfl, rfl, rfl, fun _ => hrd0.symm, fun h => absurd rfl h, rfl,
      fun h => absurd h (by decide)⟩, rfl⟩
  · rw [armShift, if_neg hmove, decide_eq_false hmove, decodeThumb16Shift,
      if_neg (mt (field16_moves instr).mp hmove)]
    have htype : (BitVec.ofNat 2 mask).toNat = mask := by
      rw [BitVec.toNat_ofNat]
      exact Nat.mod_eq_of_lt (by omega)
    have hne : BitVec.ofNat 2 mask ≠ 3 := by
      intro heq
      have hthree := congrArg BitVec.toNat heq
      rw [htype] at hthree
      change mask = 3 at hthree
      omega
    obtain ⟨out, hout⟩ := s.exists_shifts false ((instr.extractLsb' 6 5).setWidth 32)
      (show (low instr 3).toNat < 16 by omega) (show mask < 4 by omega)
    obtain ⟨a, ha, hdecodedA, hcarryA⟩ := s.decode_shifted 13 (!inITBlock) 0 (low instr 0)
      (instr.extractLsb' 6 5) (BitVec.ofNat 2 mask) (low instr 3) hne
      (fun h => absurd h (by decide)) (by rw [htype]; exact hout)
    have hvalue := bits16_eq instr 6 5 (by decide) (by decide)
    rw [hout { s with
      insDecodeT := .aluT
      insS := !inITBlock
      insRd := field16 instr 0 3
      insRm := field16 instr 3 3
      insShiftType := mask
      insShiftComputed := false
      insShiftValue := bits16 instr 6 5 } rfl rfl hrd3.symm rfl rfl hvalue]
    refine ⟨_, a, rfl, ha, 13, !inITBlock, _, _, out.1, by decide,
      fun _ => ⟨show (low instr 0).toNat < 16 by omega, fun _ => by omega⟩, ?_, hdecodedA,
      .inl hcarryA.symm⟩
    exact ⟨rfl, rfl, rfl, rfl, rfl, fun _ => hrd0.symm, fun h => absurd rfl h, rfl,
      fun h => absurd h (by decide)⟩

theorem alu1_agree (s : Armisa) (instr : BitVec 16) (inITBlock : Bool) :
    ∃ t a, s.decodeThumb16ALU1 instr inITBlock = some t ∧
      (s.asArm (armALU1 instr inITBlock)).decodeDataProcessing = some a ∧
      Agree s t a (leavesALU1 instr inITBlock) := by
  have hmask := field16_mask instr
  have himm8 := bits16_eq instr 0 8 (by decide) (by decide)
  have himm3 := bits16_eq instr 6 3 (by decide) (by decide)
  have hreg3 := s.map_rawReg_low instr 3 (by decide)
  have hreg6 := s.map_rawReg_low instr 6 (by decide)
  have hreg8 := s.map_rawReg_low instr 8 (by decide)
  have hrd0 := toNat_low instr 0 (by decide)
  have hrd8 := toNat_low instr 8 (by decide)
  have hlow : ∀ n (setFlags : Bool), (low instr n).toNat < 16 ∧
      (setFlags = true → (low instr n).toNat ≠ 15) := by
    intro n setFlags
    have hlt := low_lt instr n
    omega
  obtain ⟨mask, hvalue⟩ : ∃ mask, (instr.extractLsb' 11 3).toNat = mask := ⟨_, rfl⟩
  have hlt : mask < 8 := hvalue ▸ (instr.extractLsb' 11 3).isLt
  rw [hvalue] at hmask
  rw [armALU1, leavesALU1, hvalue]
  have hnever : ∀ opcode : BitVec 4, opcode.toNat ≠ 8 →
      opcode.toNat = 8 → (!inITBlock) = true := fun _ hne heq => absurd heq hne
  by_cases hthree : mask = 3
  · -- add and subtract
    subst hthree
    have hop := field16_eq instr 9 2 (by decide) (by decide)
    obtain ⟨op, hopValue⟩ : ∃ op, (instr.extractLsb' 9 2).toNat = op := ⟨_, rfl⟩
    have hopLt : op < 4 := hopValue ▸ (instr.extractLsb' 9 2).isLt
    rw [hopValue] at hop
    simp only [decodeThumb16ALU1, hmask, hop, hopValue, reg?, hreg3, hreg6, himm3]
    interval_cases op
    · refine agree_of_leaves ?_ (s.decode_plain 4 (!inITBlock) (low instr 3) (low instr 0)
        (low instr 6) (hnever _ (by decide))) (by decide) (fun _ => hlow 0 _)
        (Bool.and_false _).symm
      exact ⟨_, rfl, ⟨rfl, rfl, rfl, rfl, rfl, fun _ => hrd0.symm, fun _ _ => rfl, rfl,
        fun h => absurd h (by decide)⟩, rfl⟩
    · refine agree_of_leaves ?_ (s.decode_plain 2 (!inITBlock) (low instr 3) (low instr 0)
        (low instr 6) (hnever _ (by decide))) (by decide) (fun _ => hlow 0 _)
        (Bool.and_false _).symm
      exact ⟨_, rfl, ⟨rfl, rfl, rfl, rfl, rfl, fun _ => hrd0.symm, fun _ _ => rfl, rfl,
        fun h => absurd h (by decide)⟩, rfl⟩
    · refine agree_of_leaves ?_ (s.decode_unrotated 4 (!inITBlock) (low instr 3) (low instr 0)
        (instr.extractLsb' 6 3) (by decide) (hnever _ (by decide))) (by decide)
        (fun _ => hlow 0 _) (Bool.and_false _).symm
      exact ⟨_, rfl, ⟨rfl, rfl, rfl, rfl, rfl, fun _ => hrd0.symm, fun _ _ => rfl, rfl,
        fun h => absurd h (by decide)⟩, rfl⟩
    · refine agree_of_leaves ?_ (s.decode_unrotated 2 (!inITBlock) (low instr 3) (low instr 0)
        (instr.extractLsb' 6 3) (by decide) (hnever _ (by decide))) (by decide)
        (fun _ => hlow 0 _) (Bool.and_false _).symm
      exact ⟨_, rfl, ⟨rfl, rfl, rfl, rfl, rfl, fun _ => hrd0.symm, fun _ _ => rfl, rfl,
        fun h => absurd h (by decide)⟩, rfl⟩
  by_cases hfour : mask = 4
  · subst hfour
    refine agree_of_leaves ?_ (s.decode_unrotated 13 (!inITBlock) 0 (low instr 8)
      (instr.extractLsb' 0 8) le_rfl (hnever _ (by decide))) (by decide) (fun _ => hlow 8 _)
      (Bool.and_true _).symm
    simp only [decodeThumb16ALU1, hmask, himm8, ← hrd8]
    exact ⟨_, rfl, ⟨rfl, rfl, rfl, rfl, rfl, fun _ => rfl, fun h => absurd rfl h, rfl,
      fun h => absurd h (by decide)⟩, rfl⟩
  by_cases hfive : mask = 5
  · subst hfive
    refine agree_of_leaves ?_ (s.decode_unrotated 10 true (low instr 8) 0
      (instr.extractLsb' 0 8) le_rfl (fun _ => rfl)) (by decide) (fun h => absurd h (by decide)) rfl
    simp only [decodeThumb16ALU1, hmask, himm8, reg?, hreg8]
    exact ⟨_, rfl, ⟨rfl, rfl, rfl, rfl, rfl, fun h => absurd h (by decide), fun _ _ => rfl, rfl,
      fun h => absurd h (by decide)⟩, rfl⟩
  by_cases hsix : mask = 6
  · subst hsix
    refine agree_of_leaves ?_ (s.decode_unrotated 4 (!inITBlock) (low instr 8) (low instr 8)
      (instr.extractLsb' 0 8) le_rfl (hnever _ (by decide))) (by decide) (fun _ => hlow 8 _)
      (Bool.and_false _).symm
    simp only [decodeThumb16ALU1, hmask, himm8, reg?, hreg8]
    exact ⟨_, rfl, ⟨rfl, rfl, rfl, rfl, rfl, fun _ => hrd8.symm, fun _ _ => rfl, rfl,
      fun h => absurd h (by decide)⟩, rfl⟩
  by_cases hseven : mask = 7
  · subst hseven
    refine agree_of_leaves ?_ (s.decode_unrotated 2 (!inITBlock) (low instr 8) (low instr 8)
      (instr.extractLsb' 0 8) le_rfl (hnever _ (by decide))) (by decide) (fun _ => hlow 8 _)
      (Bool.and_false _).symm
    simp only [decodeThumb16ALU1, hmask, himm8, reg?, hreg8]
    exact ⟨_, rfl, ⟨rfl, rfl, rfl, rfl, rfl, fun _ => hrd8.symm, fun _ _ => rfl, rfl,
      fun h => absurd h (by decide)⟩, rfl⟩
  have hshift : mask < 3 := by omega
  obtain ⟨t, a, ht, ha, hagree⟩ := s.shift_agree instr inITBlock hshift
  refine ⟨t, a, ?_, ?_, ?_⟩
  · rw [← ht]
    simp only [decodeThumb16ALU1, hmask]
  · rw [← ha]
    interval_cases mask <;> rfl
  · interval_cases mask <;> exact hagree

end Armisa

/-- The same for those of `DecodeThumb16ALU2`, but for the multiply. -/
def armALU2 (instr : BitVec 16) (inITBlock : Bool) : Option (BitVec 32) :=
  let dn := low instr 0
  let plain : BitVec 12 := 0#5 ++ 0#2 ++ 0#1 ++ low instr 3
  match (instr.extractLsb' 6 4).toNat with
  | 2 => some (armWord false 13 (!inITBlock) 0 dn (low instr 3 ++ 0#1 ++ 0#2 ++ 1#1 ++ dn))
  | 3 => some (armWord false 13 (!inITBlock) 0 dn (low instr 3 ++ 0#1 ++ 1#2 ++ 1#1 ++ dn))
  | 4 => some (armWord false 13 (!inITBlock) 0 dn (low instr 3 ++ 0#1 ++ 2#2 ++ 1#1 ++ dn))
  | 7 => some (armWord false 13 (!inITBlock) 0 dn (low instr 3 ++ 0#1 ++ 3#2 ++ 1#1 ++ dn))
  | 9 => some (armWord true 3 (!inITBlock) (low instr 3) dn 0)
  | 13 => none
  | opcode =>
      if opcode = 8 ∨ opcode = 10 ∨ opcode = 11 then
        some (armWord false (BitVec.ofNat 4 opcode) true dn 0 plain)
      else some (armWord false (BitVec.ofNat 4 opcode) (!inITBlock) dn dn plain)

/-- The instructions of `DecodeThumb16ALU2` that leave the carry of an earlier shift. -/
def leavesALU2 (instr : BitVec 16) (inITBlock : Bool) : Bool :=
  match (instr.extractLsb' 6 4).toNat with
  | 8 => true
  | 0 | 1 | 12 | 14 | 15 => !inITBlock
  | _ => false

/-- The same for those of `DecodeThumb16Special` that are no branches. -/
def armSpecial (instr : BitVec 16) : Option (BitVec 32) :=
  let d := instr.extractLsb' 7 1 ++ instr.extractLsb' 0 3
  let plain : BitVec 12 := 0#5 ++ 0#2 ++ 0#1 ++ instr.extractLsb' 3 4
  match (instr.extractLsb' 8 2).toNat with
  | 0 => some (if instr.extractLsb' 3 4 = 13 then
        armWord false 4 false 13 d (0#5 ++ 0#2 ++ 0#1 ++ d)
      else armWord false 4 false d d plain)
  | 1 => some (armWord false 10 true d 0 plain)
  | 2 => some (armWord false 13 false 0 d plain)
  | _ => none

/-- The same for ADD and SUB of a multiple of 4 and the stack pointer. -/
def armSp (instr : BitVec 16) : BitVec 32 :=
  if instr.extractLsb' 11 5 = 0x15 then
    armWord true 4 false 13 (low instr 8) (15#4 ++ instr.extractLsb' 0 8)
  else armWord true (if instr.extractLsb' 7 1 = 1 then 2 else 4) false 13 13
    (15#4 ++ (instr.extractLsb' 0 7).setWidth 8)

namespace Armisa

variable {s t a : Armisa}

/-- What `DecodeThumb16ALU2` has read before it looks at the opcode. -/
def operands16 (s : Armisa) (instr : BitVec 16) (inITBlock : Bool) : Armisa :=
  { s with
    insDecodeT := .aluT
    insS := !inITBlock
    insRd := field16 instr 0 3
    insRm := field16 instr 0 3
    insRn := field16 instr 3 3
    insAluOperand1 := s.reg (low instr 0).toNat
    insAluOperand2 := s.reg (low instr 3).toNat
    insShiftComputed := true
    insShiftValue := s.reg (low instr 3).toNat }

/-- The shifts by a register. -/
theorem shift16_agree (s : Armisa) (instr : BitVec 16) (inITBlock : Bool) (type : BitVec 2) :
    ∃ t a, (s.operands16 instr inITBlock).shiftMove type.toNat = some t ∧
      (s.asArm (armWord false 13 (!inITBlock) 0 (low instr 0)
        (low instr 3 ++ 0#1 ++ type ++ 1#1 ++ low instr 0))).decodeDataProcessing = some a ∧
      Agree s t a false := by
  have hrd0 := toNat_low instr 0 (by decide)
  have hlt := low_lt instr 0
  obtain ⟨out, hout⟩ := s.exists_shifts true (s.reg (low instr 3).toNat)
    (show (low instr 0).toNat < 16 by omega) (show type.toNat < 4 from type.isLt)
  obtain ⟨a, ha, hdecodedA, hcarryA⟩ := s.decode_register 13 (!inITBlock) 0 (low instr 0)
    (low instr 3) (low instr 0) type (fun h => absurd h (by decide)) hout
  rw [shiftMove, hout { s.operands16 instr inITBlock with insShiftType := type.toNat } rfl rfl
    hrd0.symm rfl rfl rfl]
  refine ⟨_, a, rfl, ha, 13, !inITBlock, _, _, out.1, by decide,
    fun _ => ⟨show (low instr 0).toNat < 16 by omega, fun _ => by omega⟩, ?_, hdecodedA,
    .inl hcarryA.symm⟩
  exact ⟨rfl, rfl, rfl, rfl, rfl, fun _ => hrd0.symm, fun h => absurd rfl h, rfl,
    fun h => absurd h (by decide)⟩

/-- The operations on two registers. -/
theorem plain16_leaves (s : Armisa) (hthumb : s.thumbMode = true) (instr : BitVec 16)
    (inITBlock setFlags : Bool) (opcode : ℕ) {rd : ℕ}
    (hrd : comparesOpcode opcode = false → rd = (low instr 0).toNat) :
    Leaves s (some { s.operands16 instr inITBlock with
      insS := setFlags, insALUOpcode := opcode }) opcode setFlags rd
      (s.reg (low instr 0).toNat) (s.reg (low instr 3).toNat) := by
  have hrd0 := toNat_low instr 0 (by decide)
  exact ⟨_, rfl, ⟨rfl, rfl, rfl, rfl, rfl, fun hwrites => (hrd0.symm.trans (hrd hwrites).symm),
    fun _ _ => rfl, rfl, fun _ => .inl hthumb⟩, rfl⟩

/-- The comparisons of two registers, which always set the flags. -/
theorem compare16_agree (s : Armisa) (hthumb : s.thumbMode = true) (instr : BitVec 16)
    (inITBlock : Bool) (opcode : BitVec 4) (hcompares : comparesOpcode opcode.toNat = true) :
    ∃ t a, some { s.operands16 instr inITBlock with
        insS := true, insALUOpcode := opcode.toNat } = some t ∧
      (s.asArm (armWord false opcode true (low instr 0) 0
        (0#5 ++ 0#2 ++ 0#1 ++ low instr 3))).decodeDataProcessing = some a ∧
      Agree s t a (logicalOpcode opcode.toNat) := by
  have hnever : comparesOpcode opcode.toNat ≠ false := by
    rw [hcompares]
    decide
  exact agree_of_leaves
    (s.plain16_leaves hthumb instr inITBlock true opcode.toNat fun h => absurd h hnever)
    (s.decode_plain opcode true (low instr 0) 0 (low instr 3) fun _ => rfl) opcode.isLt
    (fun h => absurd h hnever) rfl

theorem alu2_agree (s : Armisa) (hthumb : s.thumbMode = true) (instr : BitVec 16)
    (inITBlock : Bool) {word : BitVec 32} (hword : armALU2 instr inITBlock = some word) :
    ∃ t a, s.decodeThumb16ALU2 instr inITBlock = some t ∧
      (s.asArm word).decodeDataProcessing = some a ∧
      Agree s t a (leavesALU2 instr inITBlock) := by
  have hop := field16_eq instr 6 4 (by decide) (by decide)
  have hreg0 := s.map_rawReg_low instr 0 (by decide)
  have hreg3 := s.map_rawReg_low instr 3 (by decide)
  have hlow : ∀ (setFlags : Bool), (low instr 0).toNat < 16 ∧
      (setFlags = true → (low instr 0).toNat ≠ 15) := by
    intro setFlags
    have hlt := low_lt instr 0
    omega
  have hnever : ∀ opcode : BitVec 4, opcode.toNat ≠ 8 →
      opcode.toNat = 8 → (!inITBlock) = true := fun _ hne heq => absurd heq hne
  obtain ⟨op, hvalue⟩ : ∃ op, (instr.extractLsb' 6 4).toNat = op := ⟨_, rfl⟩
  have hlt : op < 16 := hvalue ▸ (instr.extractLsb' 6 4).isLt
  rw [hvalue] at hop
  rw [armALU2, hvalue] at hword
  rw [leavesALU2, hvalue]
  have hdecode : s.decodeThumb16ALU2 instr inITBlock =
      (s.operands16 instr inITBlock).switchALU2 op := by
    simp only [decodeThumb16ALU2, reg?, hreg0, hreg3, hop]
    rfl
  rw [hdecode]
  interval_cases op
  case «2» =>
    cases hword
    exact s.shift16_agree instr inITBlock 0
  case «3» =>
    cases hword
    exact s.shift16_agree instr inITBlock 1
  case «4» =>
    cases hword
    exact s.shift16_agree instr inITBlock 2
  case «7» =>
    cases hword
    exact s.shift16_agree instr inITBlock 3
  case «9» =>
    cases hword
    refine agree_of_leaves ?_ (s.decode_unrotated 3 (!inITBlock) (low instr 3) (low instr 0)
      0#8 le_rfl (hnever _ (by decide))) (by decide) (fun _ => hlow _) (Bool.and_false _).symm
    exact ⟨_, rfl, ⟨rfl, rfl, rfl, rfl, rfl, fun _ => (toNat_low instr 0 (by decide)).symm,
      fun _ _ => rfl, rfl, fun h => absurd h (by decide)⟩, rfl⟩
  case «13» => cases hword
  case «8» =>
    cases hword
    exact s.compare16_agree hthumb instr inITBlock 8 rfl
  case «10» =>
    cases hword
    exact s.compare16_agree hthumb instr inITBlock 10 rfl
  case «11» =>
    cases hword
    exact s.compare16_agree hthumb instr inITBlock 11 rfl
  -- the operations that set the flags outside an IT block
  all_goals
    cases hword
    refine agree_of_leaves (s.plain16_leaves hthumb instr inITBlock (!inITBlock) _ fun _ => rfl)
      (s.decode_plain _ (!inITBlock) (low instr 0) (low instr 0) (low instr 3)
        (hnever _ (by decide))) (by decide) (fun _ => hlow _) ?_
    first
      | exact (Bool.and_true _).symm
      | exact (Bool.and_false _).symm

theorem special_agree (s : Armisa) (instr : BitVec 16) {word : BitVec 32}
    (hword : armSpecial instr = some word) :
    ∃ t a, s.decodeThumb16Special instr = some t ∧
      (s.asArm word).decodeDataProcessing = some a ∧ Agree s t a false := by
  obtain ⟨d, hd⟩ : ∃ d : BitVec 4, d = instr.extractLsb' 7 1 ++ instr.extractLsb' 0 3 := ⟨_, rfl⟩
  obtain ⟨m, hm⟩ : ∃ m : BitVec 4, m = instr.extractLsb' 3 4 := ⟨_, rfl⟩
  have hdValue : field16 instr 7 1 <<< 3 ||| field16 instr 0 3 = d.toNat := by
    rw [field16_eq instr 7 1 (by decide) (by decide),
      field16_eq instr 0 3 (by decide) (by decide), hd]
    exact (BitVec.toNat_append _ _).symm
  have hmValue : field16 instr 3 4 = m.toNat := by
    rw [field16_eq instr 3 _ (by decide) (by decide), hm]
  have hop : field16 instr 6 4 >>> 2 = (instr.extractLsb' 8 2).toNat := by
    rw [field16_eq instr 6 _ (by decide) (by decide)]
    simp only [BitVec.extractLsb'_toNat, Nat.shiftRight_eq_div_pow]
    omega
  have hnever : ∀ opcode : BitVec 4, opcode.toNat ≠ 8 → opcode.toNat = 8 → false = true :=
    fun _ hne heq => absurd heq hne
  have hlt : d.toNat < 16 := d.isLt
  obtain ⟨op, hvalue⟩ : ∃ op, (instr.extractLsb' 8 2).toNat = op := ⟨_, rfl⟩
  have hopLt : op < 4 := hvalue ▸ (instr.extractLsb' 8 2).isLt
  rw [hvalue] at hop
  rw [armSpecial, ← hd, ← hm, hvalue] at hword
  simp only [decodeThumb16Special, hdValue, hmValue, hop, reg?_toNat, Option.bind_eq_bind,
    Option.bind_some]
  interval_cases op
  case «0» =>
    cases hword
    by_cases hsp : m = 13
    · have hspValue : m.toNat = 13 := congrArg BitVec.toNat hsp
      rw [if_pos hsp, if_pos hspValue]
      refine agree_of_leaves ?_ (s.decode_plain 4 false 13 d d (hnever _ (by decide)))
        (by decide) (fun _ => ⟨hlt, fun h => absurd h (by decide)⟩) rfl
      subst hsp
      exact ⟨_, rfl, ⟨rfl, rfl, rfl, rfl, rfl, fun _ => rfl, fun _ _ => rfl, rfl,
        fun h => absurd h (by decide)⟩, rfl⟩
    · have hspValue : m.toNat ≠ 13 := fun h => hsp (BitVec.eq_of_toNat_eq h)
      rw [if_neg hsp, if_neg hspValue]
      refine agree_of_leaves ?_ (s.decode_plain 4 false d d m (hnever _ (by decide)))
        (by decide) (fun _ => ⟨hlt, fun h => absurd h (by decide)⟩) rfl
      exact ⟨_, rfl, ⟨rfl, rfl, rfl, rfl, rfl, fun _ => rfl, fun _ _ => rfl, rfl,
        fun h => absurd h (by decide)⟩, rfl⟩
  case «1» =>
    cases hword
    refine agree_of_leaves ?_ (s.decode_plain 10 true d 0 m fun _ => rfl) (by decide)
      (fun h => absurd h (by decide)) rfl
    exact ⟨_, rfl, ⟨rfl, rfl, rfl, rfl, rfl, fun h => absurd h (by decide), fun _ _ => rfl, rfl,
      fun h => absurd h (by decide)⟩, rfl⟩
  case «2» =>
    cases hword
    refine agree_of_leaves ?_ (s.decode_plain 13 false 0 d m (hnever _ (by decide))) (by decide)
      (fun _ => ⟨hlt, fun h => absurd h (by decide)⟩) rfl
    exact ⟨_, rfl, ⟨rfl, rfl, rfl, rfl, rfl, fun _ => rfl, fun h => absurd rfl h, rfl,
      fun h => absurd h (by decide)⟩, rfl⟩
  case «3» => cases hword

/-- An immediate that is rotated by 30 is multiplied by 4. -/
theorem ror_thirty (x : BitVec 8) :
    ror (((15#4 ++ x : BitVec 12).extractLsb' 0 8).setWidth 32)
      (2 * ((15#4 ++ x : BitVec 12).extractLsb' 8 4).toNat) = x.setWidth 32 <<< 2 := by
  have hror : ∀ x : BitVec 8, ror (x.setWidth 32) (2 * (15#4).toNat) = x.setWidth 32 <<< 2 := by
    decide
  have hlow : (15#4 ++ x : BitVec 12).extractLsb' 0 8 = x := BitVec.extractLsb'_append_eq_right
  have hhigh : (15#4 ++ x : BitVec 12).extractLsb' 8 4 = 15#4 := BitVec.extractLsb'_append_eq_left
  rw [hlow, hhigh]
  exact hror x

/-- A test of the upper bits of the opcode. -/
theorem field16_upper {mask value j v : ℕ} (hmask : ∀ n < 64, (n &&& mask = value ↔ n / 2 ^ j = v))
    (instr : BitVec 16) :
    field16 instr 10 6 &&& mask = value ↔ instr.toNat / 2 ^ (10 + j) = v := by
  have hupper : (instr.extractLsb' 10 6).toNat = instr.toNat / 2 ^ 10 := by
    rw [BitVec.extractLsb'_toNat, Nat.shiftRight_eq_div_pow]
    omega
  rw [field16_eq instr 10 _ (by decide) (by decide), hmask _ (instr.extractLsb' 10 6).isLt, hupper,
    Nat.div_div_eq_div_mul, ← pow_add]

theorem field16_sp (instr : BitVec 16) :
    field16 instr 10 6 &&& 0x3E = 0x2A ↔ instr.extractLsb' 11 5 = 0x15 := by
  rw [field16_upper (j := 1) (v := 0x15) (by decide), ← BitVec.toNat_inj, BitVec.extractLsb'_toNat,
    Nat.shiftRight_eq_div_pow]
  change _ ↔ instr.toNat / 2 ^ 11 % 2 ^ 5 = 0x15
  omega

theorem sp_agree (s : Armisa) (instr : BitVec 16) :
    ∃ t a, s.decodeThumb16Sp instr = some t ∧
      (s.asArm (armSp instr)).decodeDataProcessing = some a ∧ Agree s t a false := by
  have hsp : s.reg? 13 = some (s.reg 13) := s.reg?_of_lt (by decide)
  have hnever : ∀ opcode : BitVec 4, opcode.toNat ≠ 8 → opcode.toNat = 8 → false = true :=
    fun _ hne heq => absurd heq hne
  have hlt := low_lt instr 8
  have hop := field16_sp instr
  by_cases hwide : instr.extractLsb' 11 5 = 0x15
  · rw [decodeThumb16Sp, hsp, armSp, if_pos hwide]
    simp only [if_pos (hop.mpr hwide), Option.bind_eq_bind, Option.bind_some]
    refine agree_of_leaves ?_ (s.decode_immediate 4 false 13 (low instr 8)
      (15#4 ++ instr.extractLsb' 0 8) (hnever _ (by decide))) (by decide)
      (fun _ => ⟨show (low instr 8).toNat < 16 by omega, fun h => absurd h (by decide)⟩) rfl
    rw [ror_thirty, ← bits16_eq instr 0 _ (by decide) (by decide)]
    exact ⟨_, rfl, ⟨rfl, rfl, rfl, rfl, rfl, fun _ => (toNat_low instr 8 (by decide)).symm,
      fun _ _ => rfl, rfl, fun h => absurd h (by decide)⟩, rfl⟩
  · have hbit : ∀ x : BitVec 1, (x.toNat ≠ 0 ↔ x = 1) := by decide
    have hsub : field16 instr 7 1 ≠ 0 ↔ instr.extractLsb' 7 1 = 1 := by
      rw [field16_eq instr 7 _ (by decide) (by decide)]
      exact hbit _
    have himm : bits16 instr 0 7 = ((instr.extractLsb' 0 7).setWidth 8).setWidth 32 := by
      rw [bits16_eq instr 0 _ (by decide) (by decide)]
      apply BitVec.eq_of_toNat_eq
      simp only [BitVec.toNat_setWidth]
      omega
    rw [decodeThumb16Sp, hsp, armSp, if_neg hwide]
    simp only [if_neg (mt hop.mp hwide), Option.bind_eq_bind, Option.bind_some, hsub, himm]
    have hopcode : ∀ opcode : BitVec 4, opcode = 2 ∨ opcode = 4 →
        ∃ t a, some { s with
            insS := false
            insDecodeT := .aluT
            insRn := 13
            insAluOperand1 := s.reg 13
            insAluOperand2 := ((instr.extractLsb' 0 7).setWidth 8).setWidth 32 <<< 2
            insRd := 13
            insALUOpcode := opcode.toNat } = some t ∧
          (s.asArm (armWord true opcode false 13 13
            (15#4 ++ (instr.extractLsb' 0 7).setWidth 8))).decodeDataProcessing = some a ∧
          Agree s t a false := by
      intro opcode hcases
      have hne : opcode.toNat = 2 ∨ opcode.toNat = 4 := by
        rcases hcases with rfl | rfl
        · exact .inl rfl
        · exact .inr rfl
      refine agree_of_leaves ?_ (s.decode_immediate opcode false 13 13
        (15#4 ++ (instr.extractLsb' 0 7).setWidth 8) (by omega)) (by omega)
        (fun _ => ⟨by decide, fun h => absurd h (by decide)⟩) rfl
      rw [ror_thirty]
      exact ⟨_, rfl, ⟨rfl, rfl, rfl, rfl, rfl, fun _ => rfl, fun _ _ => rfl, rfl, by omega⟩, rfl⟩
    by_cases hminus : instr.extractLsb' 7 1 = 1
    · rw [if_pos hminus, if_pos hminus]
      exact hopcode 2 (.inl rfl)
    · rw [if_neg hminus, if_neg hminus]
      exact hopcode 4 (.inr rfl)

end Armisa

/-! ## The instruction sets agree -/

/-- The instruction of the 32-bit set that does what a 16-bit instruction does, for those that
process data and are no multiply. -/
def armEquivalent (instr : BitVec 16) (inITBlock : Bool) : Option (BitVec 32) :=
  if instr.extractLsb' 14 2 = 0 then some (armALU1 instr inITBlock)
  else if instr.extractLsb' 10 6 = 0x10 then armALU2 instr inITBlock
  else if instr.extractLsb' 10 6 = 0x11 then armSpecial instr
  else if instr.extractLsb' 11 5 = 0x15 then some (armSp instr)
  else if instr.extractLsb' 8 8 = 0xB0 then some (armSp instr)
  else none

/-- The instructions that leave the carry of an earlier shift. -/
def leavesCarry (instr : BitVec 16) (inITBlock : Bool) : Bool :=
  if instr.extractLsb' 14 2 = 0 then leavesALU1 instr inITBlock
  else if instr.extractLsb' 10 6 = 0x10 then leavesALU2 instr inITBlock
  else false

namespace Armisa

variable {s t a : Armisa}

theorem field16_alu1 (instr : BitVec 16) :
    field16 instr 10 6 &&& 0x30 = 0 ↔ instr.extractLsb' 14 2 = 0 := by
  rw [field16_upper (j := 4) (v := 0) (by decide), ← BitVec.toNat_inj, BitVec.extractLsb'_toNat,
    Nat.shiftRight_eq_div_pow]
  change _ ↔ instr.toNat / 2 ^ 14 % 2 ^ 2 = 0
  omega

theorem field16_misc (instr : BitVec 16) :
    (field16 instr 10 6 &&& 0x3C = 0x2C ∧
      (field16 instr 5 7 &&& 0x7C = 0 ∨ field16 instr 5 7 &&& 0x7C = 4)) ↔
      instr.extractLsb' 8 8 = 0xB0 := by
  have hmisc : ∀ n < 64, (n &&& 0x3C = 0x2C ↔ n / 4 = 11) := by decide
  have hzero : ∀ n < 128, (n &&& 0x7C = 0 ↔ n / 4 = 0) := by decide
  have hfour : ∀ n < 128, (n &&& 0x7C = 4 ↔ n / 4 = 1) := by decide
  rw [field16_eq instr 10 _ (by decide) (by decide), field16_eq instr 5 _ (by decide) (by decide),
    hmisc _ (instr.extractLsb' 10 6).isLt, hzero _ (instr.extractLsb' 5 7).isLt,
    hfour _ (instr.extractLsb' 5 7).isLt, ← BitVec.toNat_inj]
  simp only [BitVec.extractLsb'_toNat, Nat.shiftRight_eq_div_pow]
  change _ ↔ instr.toNat / 2 ^ 8 % 2 ^ 8 = 0xB0
  omega

theorem field16_opcode (instr : BitVec 16) (opcode : BitVec 6) :
    field16 instr 10 6 = opcode.toNat ↔ instr.extractLsb' 10 6 = opcode := by
  rw [field16_eq instr 10 _ (by decide) (by decide), BitVec.toNat_inj]

theorem data_agree (s : Armisa) (hthumb : s.thumbMode = true) (instr : BitVec 16)
    (inITBlock : Bool) {word : BitVec 32} (hword : armEquivalent instr inITBlock = some word) :
    ∃ t a, s.decodeThumb16Data instr inITBlock = some t ∧
      (s.asArm word).decodeDataProcessing = some a ∧
      Agree s t a (leavesCarry instr inITBlock) := by
  have halu1 := field16_alu1 instr
  have halu2 := field16_opcode instr 0x10
  have hspecial := field16_opcode instr 0x11
  have hsp := field16_sp instr
  have hmisc := field16_misc instr
  change field16 instr 10 6 = 0x10 ↔ _ at halu2
  change field16 instr 10 6 = 0x11 ↔ _ at hspecial
  simp only [decodeThumb16Data, halu1, halu2, hspecial, hsp, hmisc]
  simp only [armEquivalent] at hword
  simp only [leavesCarry]
  by_cases h1 : instr.extractLsb' 14 2 = 0
  · rw [if_pos h1] at hword ⊢
    rw [if_pos h1]
    cases hword
    exact s.alu1_agree instr inITBlock
  rw [if_neg h1] at hword ⊢
  rw [if_neg h1]
  by_cases h2 : instr.extractLsb' 10 6 = 0x10
  · rw [if_pos h2] at hword ⊢
    rw [if_pos h2]
    exact s.alu2_agree hthumb instr inITBlock hword
  rw [if_neg h2] at hword ⊢
  rw [if_neg h2]
  by_cases h3 : instr.extractLsb' 10 6 = 0x11
  · rw [if_pos h3] at hword ⊢
    exact s.special_agree instr hword
  rw [if_neg h3] at hword ⊢
  by_cases h4 : instr.extractLsb' 11 5 = 0x15
  · rw [if_pos h4] at hword ⊢
    cases hword
    exact s.sp_agree instr
  rw [if_neg h4] at hword ⊢
  by_cases h5 : instr.extractLsb' 8 8 = 0xB0
  · rw [if_pos h5] at hword ⊢
    cases hword
    exact s.sp_agree instr
  · rw [if_neg h5] at hword
    cases hword

/-- A 16-bit instruction that processes data leaves the registers of the equivalent instruction of
the 32-bit set, the carry flag excepted where it takes that of an earlier shift. -/
theorem decodeThumb16Data_eq_arm (s : Armisa) (hthumb : s.thumbMode = true) (instr : BitVec 16)
    (inITBlock : Bool) (word : BitVec 32) (hword : armEquivalent instr inITBlock = some word) :
    ∃ t a, (s.decodeThumb16Data instr inITBlock).bind execData = some t ∧
      (s.asArm word).decodeDataProcessing.bind execData = some a ∧
      t.rawReg = if leavesCarry instr inITBlock then
          Function.update a.rawReg cpsrReg (withCarry (a.rawReg cpsrReg) s.insShiftCarryOut)
        else a.rawReg := by
  obtain ⟨t, a, ht, ha, opcode, setFlags, rd, operand1, operand2, hopcode, hrd, hdecodedT,
    hdecodedA, hcarry⟩ := s.data_agree hthumb instr inITBlock hword
  obtain ⟨t', a', ht', ha', hsame, hlogical⟩ := exec_of_decoded hdecodedT hdecodedA hopcode hrd
  rw [ht, ha]
  refine ⟨t', a', ht', ha', ?_⟩
  cases hleaves : leavesCarry instr inITBlock with
  | true =>
      rw [hleaves, if_pos rfl] at hcarry
      rw [if_pos rfl, ← hcarry.2]
      exact hlogical hcarry.1
  | false =>
      rw [hleaves] at hcarry
      exact hsame hcarry

/-- A core in the 16-bit set whose last shift carried. -/
def thumbIdle : Armisa :=
  { idle with thumbMode := true, insShiftCarryOut := true }

/-- ANDS of two registers takes the carry of the last shift. -/
theorem decodeThumb16Data_eq_arm_ands :
    armEquivalent 0x4008 false = some 0xE0100001 ∧ leavesCarry 0x4008 false = true ∧
      ∃ t a, (thumbIdle.decodeThumb16Data 0x4008 false).bind execData = some t ∧
        (thumbIdle.asArm 0xE0100001).decodeDataProcessing.bind execData = some a ∧
        t.rawReg = if leavesCarry 0x4008 false then
            Function.update a.rawReg cpsrReg
              (withCarry (a.rawReg cpsrReg) thumbIdle.insShiftCarryOut)
          else a.rawReg :=
  ⟨by decide, by decide,
    decodeThumb16Data_eq_arm thumbIdle rfl 0x4008 false 0xE0100001 (by decide)⟩

end Armisa

end Prazor.Arm
