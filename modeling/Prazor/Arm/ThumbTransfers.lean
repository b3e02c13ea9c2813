import Prazor.Arm.ExtraTransfers

/-!
# Loads and stores in 16 bits

`DecodeThumb16MemOp` leaves the same transfer for the executor as the decoder of the 32-bit set
does for an equivalent instruction, whichever of its branches that instruction goes through.
-/

namespace Prazor.Arm

namespace SingleArmisa

/-! ## The decoder -/

/-- What `DecodeThumb16MemOp` sets for all of its instructions. -/
def beforeMemOp (s : SingleArmisa) : SingleArmisa :=
  { s with
    insSingleT := true
    insEXCF := false
    insW := false
    insS := true
    insSUser := false
    insU := true
    insP := true
    insSigned := false }

/-- The switch on the operation of a transfer with two registers. -/
def sizeOfOpB (s : SingleArmisa) (opB : ℕ) : Option SingleArmisa :=
  if opB &&& 3 = 3 then
    some { s with
      insL := true, insSigned := true, insSizeCode := if opB >>> 2 = 0 then 0 else 1 }
  else
    match opB &&& 3 with
    | 0 => some { s with insL := opB >>> 2 = 1, insSizeCode := 2 }
    | 1 => some { s with insL := opB >>> 2 = 1, insSizeCode := 1 }
    | 2 => some { s with insL := opB >>> 2 = 1, insSizeCode := 0 }
    | _ => none

/-- `DecodeThumb16MemOp` -/
def decodeThumb16MemOp (s : SingleArmisa) (instr : BitVec 16) : Option SingleArmisa := do
  let opB := field16 instr 9 3
  let imm5 := bits16 instr 6 5
  let s := s.beforeMemOp
  match field16 instr 12 4 with
  | 5 =>
      let rm ← s.reg? (field16 instr 6 3)
      let rn ← s.reg? (field16 instr 3 3)
      sizeOfOpB { s with
        insRm := field16 instr 6 3
        insRn := field16 instr 3 3
        insRd := field16 instr 0 3
        insDataAddress := rm + rn } opB
  | 6 =>
      let rn ← s.reg? (field16 instr 3 3)
      return { s with
        insSizeCode := 2
        insRd := field16 instr 0 3
        insRn := field16 instr 3 3
        insDataAddress := rn + imm5 <<< 2
        insL := opB >>> 2 = 1 }
  | 7 =>
      let rn ← s.reg? (field16 instr 3 3)
      return { s with
        insSizeCode := 0
        insRd := field16 instr 0 3
        insRn := field16 instr 3 3
        insDataAddress := rn + imm5
        insL := opB >>> 2 = 1 }
  | 8 =>
      let rn ← s.reg? (field16 instr 3 3)
      return { s with
        insSizeCode := 1
        insRd := field16 instr 0 3
        insRn := field16 instr 3 3
        insDataAddress := rn + imm5 <<< 1
        insL := opB >>> 2 = 1 }
  | 9 =>
      let sp ← s.reg? 13
      return { s with
        insRd := field16 instr 8 3
        insRn := 13
        insDataAddress := sp + bits16 instr 0 8 <<< 2
        insSizeCode := 2
        insL := opB >>> 2 = 1 }
  | _ => none

/-- `DecodeArmInstruction`, for the loads and stores of one datum. -/
def transferArm (s : SingleArmisa) (port : DataPort) : Option (SingleArmisa × Bool) :=
  if bits s.instruction 26 2 = 1 then s.transfer port else s.transferExtra port

end SingleArmisa

/-! ## The equivalent instructions -/

/-- LDR, LDRB, STR or STRB with an offset that is added. -/
def singleWord (register byte load : Bool) (rn rd : BitVec 4) (offset : BitVec 12) : BitVec 32 :=
  encode (0b111001#6 ++ BitVec.ofBool register ++ 3#2 ++ BitVec.ofBool byte ++ 0#1 ++
    BitVec.ofBool load) rn rd offset

/-- LDRH, STRH, LDRSB or LDRSH with an offset that is added. -/
def extraWord (immediate load signed half : Bool) (rn rd high offset : BitVec 4) : BitVec 32 :=
  encode (0b1110000#7 ++ 3#2 ++ BitVec.ofBool immediate ++ 0#1 ++ BitVec.ofBool load) rn rd
    (high ++ (1#1 ++ BitVec.ofBool signed ++ BitVec.ofBool half ++ 1#1) ++ offset)

/-- The instruction of the 32-bit set with the same three registers. -/
def armRegister (instr : BitVec 16) : BitVec 32 :=
  let load := instr.getLsbD 11
  let rd := low instr 0
  let rn := low instr 3
  let register := (low instr 6).setWidth 12
  match (instr.extractLsb' 9 2).toNat with
  | 0 => singleWord true false load rn rd register
  | 1 => extraWord false load false true rn rd 0 (low instr 6)
  | 2 => singleWord true true load rn rd register
  | _ => extraWord false true true load rn rd 0 (low instr 6)

/-- The instruction of the 32-bit set with the same registers and the same offset. -/
def armMemOp (instr : BitVec 16) : Option (BitVec 32) :=
  let load := instr.getLsbD 11
  let rd := low instr 0
  let rn := low instr 3
  let imm5 := instr.extractLsb' 6 5
  match (instr.extractLsb' 12 4).toNat with
  | 5 => some (armRegister instr)
  | 6 => some (singleWord false false load rn rd (imm5.setWidth 12 <<< 2))
  | 7 => some (singleWord false true load rn rd (imm5.setWidth 12))
  | 8 =>
      some (extraWord true load false true rn rd ((imm5.extractLsb' 3 2).setWidth 4)
        ((imm5.extractLsb' 0 3).setWidth 4 <<< 1))
  | 9 => some (singleWord false false load 13 (low instr 8)
      ((instr.extractLsb' 0 8).setWidth 12 <<< 2))
  | _ => none

section Words

variable (register byte load : Bool) (rn rd : BitVec 4) (offset : BitVec 12)

/-- The bits above the registers. -/
theorem bit_singleWord :
    bit (singleWord register byte load rn rd offset) 25 = register ∧
      bit (singleWord register byte load rn rd offset) 24 = true ∧
      bit (singleWord register byte load rn rd offset) 23 = true ∧
      bit (singleWord register byte load rn rd offset) 22 = byte ∧
      bit (singleWord register byte load rn rd offset) 21 = false ∧
      bit (singleWord register byte load rn rd offset) 20 = load := by
  refine ⟨?_, ?_, ?_, ?_, ?_, ?_⟩
  all_goals
    rw [singleWord, bit_encode_top _ _ _ _ (by decide)]
    simp only [BitVec.getLsbD_append, BitVec.getLsbD_ofBool]
    rfl

theorem bits_singleWord : bits (singleWord register byte load rn rd offset) 26 2 = 1 := by
  rw [singleWord, bits_encode_top _ _ _ _ (by decide) (by decide)]
  cases register <;> cases byte <;> cases load <;> rfl

end Words

namespace SingleArmisa

variable {s t u : SingleArmisa} {port : DataPort} {load signed : Bool} {size rd : ℕ}
  {address : BitVec 32}

/-- What a decoder leaves of a transfer for the executor. -/
structure Takes (s t : SingleArmisa) (load : Bool) (size : ℕ) (signed : Bool) (rd : ℕ)
    (address : BitVec 32) : Prop where
  rawReg : t.rawReg = s.rawReg
  currentBank : t.currentBank = s.currentBank
  accesses : t.accesses = s.accesses
  insL : t.insL = load
  insEXCF : t.insEXCF = false
  insSUser : t.insSUser = false
  insSizeCode : t.insSizeCode = size
  insSigned : t.insSigned = signed
  insRd : t.insRd = rd
  insDataAddress : t.insDataAddress = address
  settled : t.insW = false ∧ t.insP = true

/-- Two decoders that leave the same transfer. -/
theorem exec_of_takes (port : DataPort) (ht : Takes s t load size signed rd address)
    (hu : Takes s u load size signed rd address) (hrd : rd < 16) (hsize : size < 3) :
    ∃ outcome, (t.alone.execMemOperandInstr port).map observed = some outcome ∧
      (u.alone.execMemOperandInstr port).map observed = some outcome := by
  have hsame : SameTransfer t.alone u.alone :=
    ⟨ht.rawReg.trans hu.rawReg.symm, ht.currentBank.trans hu.currentBank.symm,
      ht.accesses.trans hu.accesses.symm, ht.insL.trans hu.insL.symm,
      ht.insEXCF.trans hu.insEXCF.symm, ht.insSUser.trans hu.insSUser.symm,
      ht.insSizeCode.trans hu.insSizeCode.symm, ht.insSigned.trans hu.insSigned.symm,
      ht.insRd.trans hu.insRd.symm, fun hE => absurd (hu.insEXCF.symm.trans hE) (by decide),
      ht.insDataAddress.trans hu.insDataAddress.symm⟩
  have hexecute := hsame.exec port (.inr ht.settled) (.inr hu.settled)
  obtain ⟨result, hresult⟩ := exists_exec (u := t.alone) port (.inr ht.settled)
    (ht.insRd.trans_lt hrd) (fun hE => absurd (ht.insEXCF.symm.trans hE) (by decide)) ht.insSUser
    (ht.insSizeCode.trans_lt hsize)
  refine ⟨observed result, ?_, ?_⟩
  · rw [hresult, Option.map_some]
  · rw [← hexecute, hresult, Option.map_some]

/-! ## The branches of the 32-bit set -/

theorem asArm_instruction (s : SingleArmisa) (word : BitVec 32) :
    (s.asArm word).instruction = word := rfl

section Branches

variable (s : SingleArmisa) (port : DataPort) (byte load : Bool) (rn rd : BitVec 4)

theorem takes_decodedWith (register : Bool) (offset : BitVec 12) (off : BitVec 32) :
    Takes s ((s.asArm (singleWord register byte load rn rd offset)).decodedWith off) load
      (if byte then 0 else 2) false rd.toNat (s.reg rn.toNat + off) := by
  obtain ⟨-, h24, h23, h22, h21, h20⟩ := bit_singleWord register byte load rn rd offset
  have hrn : (bits4 (singleWord register byte load rn rd offset) 16).toNat = rn.toNat :=
    bits4_encode_rn _ rn rd offset
  have hrd : (bits4 (singleWord register byte load rn rd offset) 12).toNat = rd.toNat :=
    bits4_encode_rd _ rn rd offset
  refine ⟨rfl, rfl, rfl, h20, rfl, rfl, ?_, rfl, hrd, ?_, h21, h24⟩
  · exact congrArg (fun b : Bool => if b then 0 else 2) h22
  · have haddress : addressWith
        (s.asArm (singleWord register byte load rn rd offset)).toArmisa off =
          s.reg rn.toNat + off := by
      rw [addressWith, asArm_instruction, if_pos h24, baseWith, asArm_instruction, if_pos h23]
      exact congrArg (fun n => s.reg n + off) hrn
    exact (insDataAddress_decodedWith _ _).trans haddress

theorem offsetFound_immediate (offset : BitVec 12) :
    IsSingle (singleWord false byte load rn rd offset) ∧
      offsetFound (s.asArm (singleWord false byte load rn rd offset)).toArmisa =
        offset.setWidth 32 := by
  have h25 := (bit_singleWord false byte load rn rd offset).1
  have hnot : bit (singleWord false byte load rn rd offset) 25 ≠ true := by
    rw [h25]
    decide
  refine ⟨⟨bits_singleWord false byte load rn rd offset, fun h => hnot h.1⟩, ?_⟩
  rw [offsetFound, if_neg fun h => hnot h.1, SingleArmisa.offset, asArm_instruction, if_neg hnot]
  calc bits (singleWord false byte load rn rd offset) 0 12
      = (offset.extractLsb' 0 12).setWidth 32 := bits_encode_operand _ _ _ _ le_rfl
    _ = offset.setWidth 32 := by rw [BitVec.extractLsb'_eq_self]

theorem offsetFound_register (rm : BitVec 4) :
    IsSingle (singleWord true byte load rn rd (rm.setWidth 12)) ∧
      offsetFound (s.asArm (singleWord true byte load rn rd (rm.setWidth 12))).toArmisa =
        s.reg rm.toNat := by
  obtain ⟨word, hword⟩ : ∃ word, word = singleWord true byte load rn rd (rm.setWidth 12) :=
    ⟨_, rfl⟩
  have hbit : ∀ i < 12, bit word i = (rm.setWidth 12).getLsbD i := by
    intro i hi
    rw [hword, singleWord, bit_encode_operand _ _ _ _ hi]
  have h4 : bit word 4 = false := by
    rw [hbit 4 (by decide)]
    simp
  have htype : shiftTypeOf word = .lsl := by
    rw [shiftTypeOf, hbit 6 (by decide), hbit 5 (by decide)]
    simp
  have h25 : bit word 25 = true := by
    rw [hword]
    exact (bit_singleWord true byte load rn rd _).1
  have hrm : (bits4 word 0).toNat = rm.toNat := by
    apply bits4_of_getLsbD
    intro i hi
    have hlt : i < 12 := by omega
    rw [Nat.zero_add, hbit i hlt, BitVec.getLsbD_setWidth]
    simp [hlt]
  have hamount : bits word 7 5 = 0 := by
    have hnone : ∀ rm : BitVec 4,
        ((rm.setWidth 12).extractLsb' 7 5).setWidth 32 = (0 : BitVec 32) := by
      decide
    rw [hword, singleWord, bits_encode_operand _ _ _ _ (by decide), hnone]
  rw [← hword]
  refine ⟨⟨?_, ?_⟩, ?_⟩
  · rw [hword]
    exact bits_singleWord true byte load rn rd _
  · rintro ⟨-, h⟩
    rw [h4] at h
    exact absurd h (by decide)
  · have hasr : shiftTypeOf word ≠ .asr := by
      rw [htype]
      decide
    rw [offsetFound, asArm_instruction, if_neg fun h => hasr h.2.1, SingleArmisa.offset,
      asArm_instruction, if_pos h25, htype, hrm, hamount]
    rfl

theorem alone_decodedWith (u : SingleArmisa) (off : BitVec 32) :
    (u.decodedWith off).alone = u.decodedWith off := rfl

/-- A transfer that goes through `DecodeSingle`. -/
theorem single_agrees {word off : BitVec 32} (register : Bool) (offset : BitVec 12)
    (hword : word = singleWord register byte load rn rd offset)
    (hoff : IsSingle word ∧ offsetFound (s.asArm word).toArmisa = off) {t : SingleArmisa}
    (ht : Takes s t load (if byte then 0 else 2) false rd.toNat (s.reg rn.toNat + off)) :
    ∃ outcome, (t.alone.execMemOperandInstr port).map observed = some outcome ∧
      ((s.asArm word).transferArm port).map observed = some outcome := by
  have hu := s.takes_decodedWith byte load rn rd register offset off
  have htransfer : (s.asArm word).transferArm port =
      ((s.asArm word).decodedWith off).alone.execMemOperandInstr port :=
    calc (s.asArm word).transferArm port
        = (s.asArm word).transfer port := if_pos hoff.1.1
      _ = ((s.asArm word).decodedWith (offsetFound (s.asArm word).toArmisa)).execMemOperandInstr
            port := transfer_eq port (s.asArm word) hoff.1
      _ = ((s.asArm word).decodedWith off).alone.execMemOperandInstr port := by
          rw [hoff.2, alone_decodedWith]
  rw [htransfer, hword]
  exact exec_of_takes port ht hu (by omega) (by split_ifs <;> decide)

end Branches

/-! ## Halfwords and signed data -/

section Extra

variable (immediate load signed half : Bool) (rn rd high offset : BitVec 4)

theorem bit_extraWord :
    bit (extraWord immediate load signed half rn rd high offset) 24 = true ∧
      bit (extraWord immediate load signed half rn rd high offset) 23 = true ∧
      bit (extraWord immediate load signed half rn rd high offset) 22 = immediate ∧
      bit (extraWord immediate load signed half rn rd high offset) 21 = false ∧
      bit (extraWord immediate load signed half rn rd high offset) 20 = load := by
  refine ⟨?_, ?_, ?_, ?_, ?_⟩
  all_goals
    rw [extraWord, bit_encode_top _ _ _ _ (by decide)]
    simp only [BitVec.getLsbD_append, BitVec.getLsbD_ofBool]
    rfl

theorem bits4_extraWord :
    bits4 (extraWord immediate load signed half rn rd high offset) 8 = high.setWidth 32 ∧
      bits4 (extraWord immediate load signed half rn rd high offset) 0 = offset.setWidth 32 := by
  constructor
  all_goals
    rw [extraWord, bits4_eq_bits]
    apply bits_of_getLsbD (by decide)
    intro i hi
    rw [bit_encode_operand _ _ _ _ (by omega)]
    simp only [BitVec.getLsbD_append]
    interval_cases i <;> rfl

/-- The bits that choose the branch of the decoder. -/
def extraKind (load signed half : Bool) : BitVec 32 :=
  0xE1000090 ||| (if load then 0x100000 else 0) ||| (if signed then 0x40 else 0) |||
    (if half then 0x20 else 0)

theorem extraWord_pattern :
    extraWord immediate load signed half rn rd high offset &&& 0xFF1000F0 =
      extraKind load signed half := by
  apply and_eq_of_bits
  · cases load <;> cases signed <;> cases half <;> decide
  intro i hi hmask
  have hplaces : ∀ i < 32, bit 0xFF1000F0 i = true →
      i = 4 ∨ i = 5 ∨ i = 6 ∨ i = 7 ∨ i = 20 ∨ 24 ≤ i := by
    decide
  rw [extraWord, bit_encode]
  simp only [BitVec.getLsbD_append, BitVec.getLsbD_ofBool]
  rcases hplaces i hi hmask with rfl | rfl | rfl | rfl | rfl | hupper
  case inr.inr.inr.inr.inr =>
    interval_cases i <;> cases load <;> cases signed <;> cases half <;> rfl
  all_goals cases load <;> cases signed <;> cases half <;> rfl

/-- The offset that is added. -/
def extraOff (s : SingleArmisa) (immediate : Bool) (high offset : BitVec 4) : BitVec 32 :=
  if immediate then (high.setWidth 32 <<< 4) ||| offset.setWidth 32 else s.reg offset.toNat

theorem extraOffset_extraWord {b : SingleArmisa} (hraw : b.rawReg = s.rawReg)
    (hbank : b.currentBank = s.currentBank)
    (hword : b.instruction = extraWord immediate load signed half rn rd high offset) :
    b.extraOffset = some (extraOff s immediate high offset) := by
  obtain ⟨-, -, h22, -⟩ := bit_extraWord immediate load signed half rn rd high offset
  obtain ⟨hhigh, hoffset⟩ := bits4_extraWord immediate load signed half rn rd high offset
  rw [extraOffset, hword, h22, hhigh, hoffset, extraOff]
  cases immediate with
  | true => rfl
  | false =>
      rw [Armisa.reg?, hraw, hbank, toNat_setWidth_32 _ (by decide)]
      exact s.reg?_toNat offset

theorem not_exclusive_extraWord (hhigh : high ≠ 15) :
    extraWord immediate load signed half rn rd high offset &&& 0xF00 ≠ 0xF00 := by
  intro hpattern
  have hfield := bits_of_pattern hpattern (show 4 < 32 by decide) (show bits 0xF00 8 4 = _ by rfl)
  have hfield' := (bits4_extraWord immediate load signed half rn rd high offset).1
  rw [bits4_eq_bits, hfield] at hfield'
  apply hhigh
  apply BitVec.eq_of_toNat_eq
  rw [← toNat_setWidth_32 high (by decide), ← hfield']
  rfl

/-- The decoder, before it knows the size. -/
def extraStart (s : SingleArmisa) (word : BitVec 32) : SingleArmisa :=
  (s.asArm word).decodeArmFields.beforeSize

theorem decodeIndexed_extraWord
    (hkind : (load = true ∧ signed = true) ∨ (signed = false ∧ half = true)) :
    (s.extraStart (extraWord immediate load signed half rn rd high offset)).decodeIndexed =
      some { s.extraStart (extraWord immediate load signed half rn rd high offset) with
        insDataOffset := extraOff s immediate high offset
        insL := load
        insSigned := signed
        insSizeCode := if half then 1 else 0 } := by
  obtain ⟨word, hword⟩ :
      ∃ word, word = extraWord immediate load signed half rn rd high offset := ⟨_, rfl⟩
  have hpattern : word &&& 0x100060 = extraKind load signed half &&& 0x100060 := by
    rw [hword]
    exact and_of_pattern (extraWord_pattern immediate load signed half rn rd high offset)
      (by decide)
  have hoffset : (s.extraStart word).extraOffset = some (extraOff s immediate high offset) :=
    extraOffset_extraWord immediate load signed half rn rd high offset rfl rfl hword
  have hinstruction : (s.extraStart word).instruction = word := rfl
  rw [← hword, decodeIndexed, hinstruction, hpattern, hoffset]
  rcases hkind with ⟨rfl, rfl⟩ | ⟨rfl, rfl⟩
  · cases half <;> rfl
  · cases load <;> rfl

/-- A halfword or signed data, as `DecodeArmInstruction` leaves it. -/
theorem takes_extraWord
    (hkind : (load = true ∧ signed = true) ∨ (signed = false ∧ half = true))
    (hhigh : high ≠ 15) :
    ∃ u, (s.asArm (extraWord immediate load signed half rn rd high
        offset)).decodeArmFields.decodeSynchronisation = some u ∧
      Takes s u load (if half then 1 else 0) signed rd.toNat
        (s.reg rn.toNat + extraOff s immediate high offset) := by
  obtain ⟨h24, h23, -, h21, -⟩ := bit_extraWord immediate load signed half rn rd high offset
  have hnot := not_exclusive_extraWord immediate load signed half rn rd high offset hhigh
  have hindexed := s.decodeIndexed_extraWord immediate load signed half rn rd high offset hkind
  obtain ⟨word, hword⟩ :
      ∃ word, word = extraWord immediate load signed half rn rd high offset := ⟨_, rfl⟩
  rw [← hword] at h24 h23 h21 hnot hindexed ⊢
  have hrn : (bits4 word 16).toNat = rn.toNat := by
    rw [hword]
    exact bits4_encode_rn _ rn rd _
  have hrd : (bits4 word 12).toNat = rd.toNat := by
    rw [hword]
    exact bits4_encode_rd _ rn rd _
  have hE : (s.extraStart word).insEXCF = false := decide_eq_false hnot
  have hsize : (s.asArm word).decodeArmFields.beforeSize.decodeSize = some { s.extraStart word with
      insDataOffset := extraOff s immediate high offset
      insL := load
      insSigned := signed
      insSizeCode := if half then 1 else 0 } := by
    have hfalse : ¬((s.asArm word).decodeArmFields.beforeSize.insEXCF = true) := by
      rw [show (s.asArm word).decodeArmFields.beforeSize.insEXCF = false from hE]
      decide
    rw [decodeSize, if_neg fun h => hfalse h.1, if_neg fun h => hfalse h.1,
      if_neg fun h => hfalse h.1]
    exact hindexed
  refine ⟨_, decodeSynchronisation_of_size hsize, rfl, rfl, rfl, rfl, hE, rfl, rfl, rfl, hrd, ?_,
    h21, h24⟩
  rw [insDataAddress_formAddress h24 h23]
  exact congrArg (fun n => s.reg n + extraOff s immediate high offset) hrn

/-- A transfer that goes through `decodeSynchronisation`. -/
theorem extra_agrees (port : DataPort) {t : SingleArmisa}
    (hkind : (load = true ∧ signed = true) ∨ (signed = false ∧ half = true))
    (hhigh : high ≠ 15)
    (ht : Takes s t load (if half then 1 else 0) signed rd.toNat
      (s.reg rn.toNat + extraOff s immediate high offset)) :
    ∃ outcome, (t.alone.execMemOperandInstr port).map observed = some outcome ∧
      ((s.asArm (extraWord immediate load signed half rn rd high offset)).transferArm port).map
        observed = some outcome := by
  obtain ⟨u, hu, htakes⟩ := s.takes_extraWord immediate load signed half rn rd high offset hkind
    hhigh
  have hpattern := extraWord_pattern immediate load signed half rn rd high offset
  obtain ⟨word, hword⟩ :
      ∃ word, word = extraWord immediate load signed half rn rd high offset := ⟨_, rfl⟩
  rw [← hword] at hu hpattern ⊢
  have hnot : bits word 26 2 ≠ 1 := by
    rw [bits_of_pattern hpattern (by decide) (by decide)]
    cases load <;> cases signed <;> cases half <;> decide
  have hextra : IsExtra word := by
    refine ⟨?_, ?_, ?_⟩
    · rw [and_of_pattern hpattern (by decide)]
      cases load <;> cases signed <;> cases half <;> decide
    · rw [and_of_pattern hpattern (by decide)]
      cases load <;> cases signed <;> cases half <;> decide
    · rw [and_of_pattern hpattern (by decide)]
      cases load <;> cases signed <;> cases half <;> decide
  have htransfer : (s.asArm word).transferArm port = u.alone.execMemOperandInstr port := by
    rw [transferArm, asArm_instruction, if_neg hnot, transferExtra, asArm_instruction, hu]
    simp only [guard, if_pos hextra, Option.bind_eq_bind, Option.bind_some]
    rfl
  rw [htransfer]
  exact exec_of_takes port ht htakes (by omega) (by split_ifs <;> decide)

end Extra

/-! ## The 16-bit set -/

theorem load_memOp (instr : BitVec 16) :
    field16 instr 9 3 >>> 2 = (instr.getLsbD 11).toNat := by
  rw [field16_eq instr 9 3 (by decide) (by decide), BitVec.getLsbD,
    Nat.testBit_eq_decide_div_mod_eq]
  simp only [BitVec.extractLsb'_toNat, Nat.shiftRight_eq_div_pow]
  by_cases hbit : instr.toNat / 2 ^ 11 % 2 = 1
  · rw [decide_eq_true hbit, Bool.toNat_true]
    omega
  · rw [decide_eq_false hbit, Bool.toNat_false]
    omega

theorem kind_memOp (instr : BitVec 16) :
    field16 instr 9 3 &&& 3 = (instr.extractLsb' 9 2).toNat := by
  have hmask : ∀ n, n &&& 3 = n % 4 := fun n => Nat.and_two_pow_sub_one_eq_mod n 2
  rw [field16_eq instr 9 3 (by decide) (by decide), hmask]
  simp only [BitVec.extractLsb'_toNat, Nat.shiftRight_eq_div_pow]
  omega

/-- The transfers with two registers. -/
theorem register_agrees (s : SingleArmisa) (port : DataPort) (instr : BitVec 16)
    {t : SingleArmisa} (hsigned : t.insSigned = false)
    (ht : ∀ (load signed : Bool) (size : ℕ), Takes s { t with
      insL := load, insSigned := signed, insSizeCode := size } load size signed
        (low instr 0).toNat (s.reg (low instr 3).toNat + s.reg (low instr 6).toNat)) :
    ∃ u, sizeOfOpB t (field16 instr 9 3) = some u ∧
      ∃ outcome, (u.alone.execMemOperandInstr port).map observed = some outcome ∧
        ((s.asArm (armRegister instr)).transferArm port).map observed = some outcome := by
  obtain ⟨load, hload⟩ : ∃ load, instr.getLsbD 11 = load := ⟨_, rfl⟩
  obtain ⟨kind, hkind⟩ : ∃ kind, (instr.extractLsb' 9 2).toNat = kind := ⟨_, rfl⟩
  have hlt : kind < 4 := hkind ▸ (instr.extractLsb' 9 2).isLt
  have hsame : ∀ (load : Bool) (size : ℕ), { t with insL := load, insSizeCode := size } =
      { t with insL := load, insSigned := false, insSizeCode := size } := by
    intro load size
    rw [← hsigned]
  rw [sizeOfOpB, armRegister, kind_memOp, load_memOp, hload, hkind]
  have hone : decide (load.toNat = 1) = load := by
    cases load <;> rfl
  interval_cases kind
  case «0» =>
    refine ⟨_, rfl, s.single_agrees port false load (low instr 3) (low instr 0) true _ rfl
      (s.offsetFound_register false _ _ _ (low instr 6)) ?_⟩
    rw [hone, hsame]
    exact ht load false 2
  case «1» =>
    refine ⟨_, rfl, s.extra_agrees false load false true (low instr 3) (low instr 0) 0
      (low instr 6) port (.inr ⟨rfl, rfl⟩) (by decide) ?_⟩
    rw [hone, hsame]
    exact ht load false 1
  case «2» =>
    refine ⟨_, rfl, s.single_agrees port true load (low instr 3) (low instr 0) true _ rfl
      (s.offsetFound_register true _ _ _ (low instr 6)) ?_⟩
    rw [hone, hsame]
    exact ht load false 0
  case «3» =>
    refine ⟨_, rfl, s.extra_agrees false true true load (low instr 3) (low instr 0) 0
      (low instr 6) port (.inl ⟨rfl, rfl⟩) (by decide) ?_⟩
    have hsize : (if load.toNat = 0 then 0 else 1) = if load then 1 else 0 := by
      cases load <;> rfl
    rw [hsize]
    exact ht true true (if load then 1 else 0)

/-- Both instruction sets make the same transfer. -/
theorem memOp_agrees (s : SingleArmisa) (port : DataPort) (instr : BitVec 16) {word : BitVec 32}
    (hword : armMemOp instr = some word) :
    ∃ t, s.decodeThumb16MemOp instr = some t ∧
      ∃ outcome, (t.alone.execMemOperandInstr port).map observed = some outcome ∧
        ((s.asArm word).transferArm port).map observed = some outcome := by
  have hop := field16_eq instr 12 4 (by decide) (by decide)
  have hload : decide (field16 instr 9 3 >>> 2 = 1) = instr.getLsbD 11 := by
    rw [load_memOp]
    cases instr.getLsbD 11 <;> rfl
  have himm5 := bits16_eq instr 6 5 (by decide) (by decide)
  have himm8 := bits16_eq instr 0 8 (by decide) (by decide)
  have hreg3 : s.beforeMemOp.reg? (field16 instr 3 3) = some (s.reg (low instr 3).toNat) :=
    s.map_rawReg_low instr 3 (by decide)
  have hreg6 : s.beforeMemOp.reg? (field16 instr 6 3) = some (s.reg (low instr 6).toNat) :=
    s.map_rawReg_low instr 6 (by decide)
  have hsp : s.beforeMemOp.reg? 13 = some (s.reg 13) := s.reg?_of_lt (by decide)
  have hrd0 := toNat_low instr 0 (by decide)
  have hrd8 := toNat_low instr 8 (by decide)
  obtain ⟨op, hvalue⟩ : ∃ op, (instr.extractLsb' 12 4).toNat = op := ⟨_, rfl⟩
  have hlt : op < 16 := hvalue ▸ (instr.extractLsb' 12 4).isLt
  rw [hvalue] at hop
  rw [armMemOp, hvalue] at hword
  simp only [decodeThumb16MemOp, hop, hreg3, hreg6, hsp, hload, himm5, himm8,
    Option.bind_eq_bind, Option.bind_some]
  interval_cases op
  case «5» =>
    cases hword
    apply s.register_agrees port instr rfl
    intro load signed size
    exact ⟨rfl, rfl, rfl, rfl, rfl, rfl, rfl, rfl, hrd0.symm, BitVec.add_comm _ _, rfl, rfl⟩
  case «6» =>
    cases hword
    have hoffset : ∀ x : BitVec 5, (x.setWidth 12 <<< 2).setWidth 32 =
        (x.setWidth 32 <<< 2 : BitVec 32) := by decide
    refine ⟨_, rfl, s.single_agrees port false (instr.getLsbD 11) (low instr 3) (low instr 0) false
      _ rfl (s.offsetFound_immediate false _ _ _ _) ?_⟩
    rw [hoffset]
    exact ⟨rfl, rfl, rfl, rfl, rfl, rfl, rfl, rfl, hrd0.symm, rfl, rfl, rfl⟩
  case «7» =>
    cases hword
    have hoffset : ∀ x : BitVec 5, (x.setWidth 12).setWidth 32 =
        (x.setWidth 32 : BitVec 32) := by decide
    refine ⟨_, rfl, s.single_agrees port true (instr.getLsbD 11) (low instr 3) (low instr 0) false
      _ rfl (s.offsetFound_immediate true _ _ _ _) ?_⟩
    rw [hoffset]
    exact ⟨rfl, rfl, rfl, rfl, rfl, rfl, rfl, rfl, hrd0.symm, rfl, rfl, rfl⟩
  case «8» =>
    cases hword
    have hhigh : ∀ x : BitVec 5, (x.extractLsb' 3 2).setWidth 4 ≠ (15 : BitVec 4) := by decide
    have hoffset : ∀ x : BitVec 5, (((x.extractLsb' 3 2).setWidth 4).setWidth 32 <<< 4 |||
        ((x.extractLsb' 0 3).setWidth 4 <<< 1).setWidth 32 : BitVec 32) = x.setWidth 32 <<< 1 := by
      decide
    refine ⟨_, rfl, s.extra_agrees true (instr.getLsbD 11) false true (low instr 3) (low instr 0)
      _ _ port (.inr ⟨rfl, rfl⟩) (hhigh _) ?_⟩
    rw [extraOff, if_pos rfl, hoffset]
    exact ⟨rfl, rfl, rfl, rfl, rfl, rfl, rfl, rfl, hrd0.symm, rfl, rfl, rfl⟩
  case «9» =>
    cases hword
    have hoffset : ∀ x : BitVec 8, (x.setWidth 12 <<< 2).setWidth 32 =
        (x.setWidth 32 <<< 2 : BitVec 32) := by decide
    refine ⟨_, rfl, s.single_agrees port false (instr.getLsbD 11) 13 (low instr 8) false
      _ rfl (s.offsetFound_immediate false _ _ _ _) ?_⟩
    rw [hoffset]
    exact ⟨rfl, rfl, rfl, rfl, rfl, rfl, rfl, rfl, hrd8.symm, rfl, rfl, rfl⟩
  all_goals cases hword

/-- A 16-bit load or store reads and writes the registers and the memory as the equivalent
instruction of the 32-bit set does, and is granted or refused with it. -/
theorem decodeThumb16MemOp_eq_arm (s : SingleArmisa) (port : DataPort) (instr : BitVec 16)
    (word : BitVec 32) (hword : armMemOp instr = some word) :
    ∃ outcome, ((s.decodeThumb16MemOp instr).bind fun t =>
        t.alone.execMemOperandInstr port).map observed = some outcome ∧
      ((s.asArm word).transferArm port).map observed = some outcome := by
  obtain ⟨t, ht, hagree⟩ := s.memOp_agrees port instr hword
  rw [ht, Option.bind_some]
  exact hagree

/-- `LDRSH R0, [R1, R2]` in both sets. -/
theorem decodeThumb16MemOp_eq_arm_ldrsh :
    armMemOp 0x5E88 = some 0xE19100F2 ∧
      ∃ outcome, (((executing 0 0 false).decodeThumb16MemOp 0x5E88).bind fun t =>
          t.alone.execMemOperandInstr (granting 0x8001)).map observed = some outcome ∧
        (((executing 0 0 false).asArm 0xE19100F2).transferArm (granting 0x8001)).map observed =
          some outcome :=
  ⟨by decide, decodeThumb16MemOp_eq_arm (executing 0 0 false) (granting 0x8001) 0x5E88
    0xE19100F2 (by decide)⟩

end SingleArmisa

end Prazor.Arm
