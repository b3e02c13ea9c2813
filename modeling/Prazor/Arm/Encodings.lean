import Prazor.Arm.Armisa

/-!
# Encodings

A word of the 32-bit instruction set is put together from its fields, and the accessors of the
decoders give the fields back.  The fields of a 16-bit instruction are read with the same
accessors.
-/

namespace Prazor.Arm

/-! ## Fields of a word -/

/-- A field of a word whose bits are known. -/
theorem bits_of_getLsbD {x : BitVec 32} {bitno width : ℕ} {field : BitVec width}
    (hwidth : width < 32) (hfield : ∀ i < width, bit x (bitno + i) = field.getLsbD i) :
    bits x bitno width = field.setWidth 32 := by
  apply BitVec.eq_of_getLsbD_eq
  intro i hi
  have hmask : ((1 : BitVec 32) <<< width - 1).getLsbD i = decide (i < width) := by
    have hvalue : ((1 : BitVec 32) <<< width - 1).toNat = 2 ^ width - 1 := by
      interval_cases width <;> rfl
    rw [BitVec.getLsbD, hvalue, Nat.testBit_two_pow_sub_one]
  rw [bits, if_pos hwidth, BitVec.getLsbD_and, BitVec.getLsbD_ushiftRight, hmask,
    BitVec.getLsbD_setWidth]
  by_cases hlt : i < width
  · simpa [hi, hlt, bit] using hfield i hlt
  · simp [hlt, BitVec.getLsbD_of_ge field i (by omega)]

theorem bits4_eq_bits (x : BitVec 32) (bitno : ℕ) : bits4 x bitno = bits x bitno 4 := rfl

theorem toNat_setWidth_32 {width : ℕ} (x : BitVec width) (hwidth : width < 32) :
    (x.setWidth 32).toNat = x.toNat := by
  rw [BitVec.toNat_setWidth]
  exact Nat.mod_eq_of_lt (x.isLt.trans (Nat.pow_lt_pow_right (by decide) hwidth))

theorem bits4_of_getLsbD {x : BitVec 32} {bitno : ℕ} {field : BitVec 4}
    (hfield : ∀ i < 4, bit x (bitno + i) = field.getLsbD i) :
    (bits4 x bitno).toNat = field.toNat := by
  rw [bits4_eq_bits, bits_of_getLsbD (by decide) hfield, toNat_setWidth_32 _ (by decide)]

/-- A word has a pattern if it has its bits where the mask is set. -/
theorem and_eq_of_bits {x mask value : BitVec 32} (hvalue : value &&& mask = value)
    (hbits : ∀ i < 32, bit mask i = true → bit x i = bit value i) : x &&& mask = value := by
  apply BitVec.eq_of_getLsbD_eq
  intro i hi
  rw [← hvalue, BitVec.getLsbD_and, BitVec.getLsbD_and]
  cases hmask : mask.getLsbD i with
  | true => rw [show x.getLsbD i = value.getLsbD i from hbits i hi hmask]
  | false => rw [Bool.and_false, Bool.and_false]

/-! ## The 32-bit set -/

/-- The layout that most instructions share: what is to be done, two registers and an operand. -/
def encode (top : BitVec 12) (rn rd : BitVec 4) (operand : BitVec 12) : BitVec 32 :=
  top ++ rn ++ rd ++ operand

section Words

variable (top : BitVec 12) (rn rd : BitVec 4) (operand : BitVec 12)

theorem bit_encode (i : ℕ) : bit (encode top rn rd operand) i =
    if i < 12 then operand.getLsbD i
    else if i < 16 then rd.getLsbD (i - 12)
    else if i < 20 then rn.getLsbD (i - 16)
    else top.getLsbD (i - 20) := by
  simp only [bit, encode, BitVec.getLsbD_append, Nat.sub_sub]
  grind

theorem bit_encode_top {i : ℕ} (hi : 20 ≤ i) :
    bit (encode top rn rd operand) i = top.getLsbD (i - 20) := by
  rw [bit_encode, if_neg (by omega), if_neg (by omega), if_neg (by omega)]

theorem bit_encode_operand {i : ℕ} (hi : i < 12) :
    bit (encode top rn rd operand) i = operand.getLsbD i := by
  rw [bit_encode, if_pos hi]

@[simp]
theorem bits4_encode_rn : (bits4 (encode top rn rd operand) 16).toNat = rn.toNat := by
  apply bits4_of_getLsbD
  intro i hi
  rw [bit_encode]
  interval_cases i <;> rfl

@[simp]
theorem bits4_encode_rd : (bits4 (encode top rn rd operand) 12).toNat = rd.toNat := by
  apply bits4_of_getLsbD
  intro i hi
  rw [bit_encode]
  interval_cases i <;> rfl

/-- The fields of what is to be done. -/
theorem bits_encode_top {bitno width : ℕ} (hbitno : 20 ≤ bitno) (hwidth : bitno + width ≤ 32) :
    bits (encode top rn rd operand) bitno width =
      (top.extractLsb' (bitno - 20) width).setWidth 32 := by
  apply bits_of_getLsbD (by omega)
  intro i hi
  rw [bit_encode_top _ _ _ _ (by omega), BitVec.getLsbD_extractLsb']
  simp [hi, Nat.sub_add_comm hbitno]

/-- The fields of the operand. -/
theorem bits_encode_operand {bitno width : ℕ} (hwidth : bitno + width ≤ 12) :
    bits (encode top rn rd operand) bitno width =
      (operand.extractLsb' bitno width).setWidth 32 := by
  apply bits_of_getLsbD (by omega)
  intro i hi
  rw [bit_encode_operand _ _ _ _ (by omega), BitVec.getLsbD_extractLsb']
  simp [hi]

theorem bits4_encode_operand {bitno : ℕ} (hbitno : bitno ≤ 8) :
    (bits4 (encode top rn rd operand) bitno).toNat =
      (operand.extractLsb' bitno 4).toNat := by
  rw [bits4_eq_bits, bits_encode_operand _ _ _ _ (by omega), toNat_setWidth_32 _ (by decide)]

end Words

/-! ## The 16-bit set -/

/-- `Bits(in, bitno, width)` -/
def bits16 (instr : BitVec 16) (bitno width : ℕ) : BitVec 32 :=
  bits (instr.setWidth 32) bitno width

/-- A field of the instruction that numbers a register. -/
def field16 (instr : BitVec 16) (bitno width : ℕ) : ℕ := (bits16 instr bitno width).toNat

theorem bits16_eq (instr : BitVec 16) (bitno width : ℕ) (hwidth : width < 32)
    (hlimit : bitno + width ≤ 16) :
    bits16 instr bitno width = (instr.extractLsb' bitno width).setWidth 32 := by
  apply bits_of_getLsbD hwidth
  intro i hi
  rw [bit, BitVec.getLsbD_setWidth, BitVec.getLsbD_extractLsb']
  simp [hi, show bitno + i < 32 by omega]

theorem field16_eq (instr : BitVec 16) (bitno width : ℕ) (hwidth : width < 32)
    (hlimit : bitno + width ≤ 16) :
    field16 instr bitno width = (instr.extractLsb' bitno width).toNat := by
  rw [field16, bits16_eq instr bitno width hwidth hlimit, toNat_setWidth_32 _ hwidth]

/-- The low register that is numbered at a bit. -/
def low (instr : BitVec 16) (bitno : ℕ) : BitVec 4 := (instr.extractLsb' bitno 3).setWidth 4

theorem toNat_low (instr : BitVec 16) (bitno : ℕ) (hlimit : bitno + 3 ≤ 16) :
    (low instr bitno).toNat = field16 instr bitno 3 := by
  rw [field16_eq instr bitno 3 (by decide) hlimit, low, BitVec.toNat_setWidth]
  exact Nat.mod_eq_of_lt (by omega)

theorem low_lt (instr : BitVec 16) (bitno : ℕ) : (low instr bitno).toNat < 8 := by
  rw [low, BitVec.toNat_setWidth]
  exact (Nat.mod_le _ _).trans_lt (instr.extractLsb' bitno 3).isLt

namespace Armisa

variable (s : Armisa)

theorem reg?_toNat (n : BitVec 4) : s.reg? n.toNat = some (s.reg n.toNat) :=
  s.reg?_of_lt (by omega)

theorem map_rawReg_low (instr : BitVec 16) (bitno : ℕ) (hlimit : bitno + 3 ≤ 16) :
    Option.map s.rawReg (rawIndex s.currentBank (field16 instr bitno 3)) =
      some (s.reg (low instr bitno).toNat) := by
  rw [← toNat_low instr bitno hlimit]
  exact s.reg?_toNat _

/-- The same registers, about to run an instruction of the 32-bit set. -/
def asArm (word : BitVec 32) : Armisa :=
  { s with thumbMode := false, instruction := word }

end Armisa

end Prazor.Arm
