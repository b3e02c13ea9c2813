import Prazor.Arm.ShifterOperand

/-!
# Single transfers: LDR and STR

`DecodeSingle` forms the address and the offset, and `exec_mem_operand_instr` makes the access
and writes the base register back.  The shifts of an index register are written out a second
time here, and that of ASR by 32 reads the carry of the last instruction that went through the
shifter.

`armisa_read1` and `armisa_write1` belong to the core that the interpreter is built into.
A port answers in their place.  The branch predictor and the counters are left out.
-/

namespace Prazor.Arm

open Shifts

/-- The bus accesses of the interpreter. -/
structure SingleAccess where
  load : Bool
  address : BitVec 32
  sizeCode : ℕ

/-- How the core answers: data, or a refusal.  An exclusive store also has an outcome. -/
structure DataPort where
  read : BitVec 32 → ℕ → Bool → Option (BitVec 64)
  write : BitVec 32 → BitVec 64 → ℕ → Bool
  writeExclusive : BitVec 32 → BitVec 64 → ℕ → Bool × BitVec 32

/-- The interpreter with the fields of a single transfer.  `insSingleT` says that `insDecodeT`
is `SingleT`, `midMultiple2S` that a block transfer is going on. -/
structure SingleArmisa extends Armisa where
  insSingleT : Bool
  insP : Bool
  insU : Bool
  insB : Bool
  insW : Bool
  insL : Bool
  insEXCF : Bool
  insSUser : Bool
  insSizeCode : ℕ
  insDataAddress : BitVec 32
  insDataOffset : BitVec 32
  midMultiple2S : Bool
  accesses : List SingleAccess

def sex16 (d : BitVec 32) : BitVec 32 := if d &&& 0x8000 ≠ 0 then d ||| 0xFFFF0000 else d

def sex8 (d : BitVec 32) : BitVec 32 := if d &&& 0x80 ≠ 0 then d ||| 0xFFFFFF00 else d

/-- An index register shifted by a constant amount. -/
def shiftedIndex (shiftType : ℕ) (rm : BitVec 32) (shift : ℕ) (cFlag insShiftCarryOut : Bool) :
    Option (BitVec 32) :=
  match shiftType with
  | 0 => some (rm <<< shift)
  | 1 => some (if shift = 0 then 0 else rm >>> shift)
  | 2 =>
      some (if shift = 0 then 0 - flagWord insShiftCarryOut
        else rm >>> shift |||
          (if bit rm 31 then ((0xFFFFFFFF : BitVec 64) <<< (32 - shift)).setWidth 32 else 0))
  | 3 => some (if shift = 0 then (rm >>> 1) ||| Armisa.flagAt cFlag 31 else ror rm shift)
  | _ => none

namespace SingleArmisa

variable (port : DataPort) (s : SingleArmisa)

/-- The fields that `DecodeArmInstruction` takes from the instruction. -/
def decodeArmFields : SingleArmisa :=
  { s with
    toArmisa := s.toArmisa.decodeFields
    insSUser := false
    insP := bit s.instruction 24
    insU := bit s.instruction 23
    insB := bit s.instruction 22
    insW := bit s.instruction 21
    insL := bit s.instruction 20
    insEXCF := false }

/-- The offset before the U bit. -/
def offsetField : Option (BitVec 32) :=
  let instr := s.instruction
  if bit instr 25 then do
    let rm ← s.reg? (bits4 instr 0).toNat
    guard (bit instr 4 = false)
    shiftedIndex (bits instr 5 2).toNat rm (bits instr 7 5).toNat s.cFlag s.insShiftCarryOut
  else some (bits instr 0 12)

/-- `DecodeSingle` -/
def decodeSingle : Option SingleArmisa := do
  guard (bits s.instruction 26 2 = 1)
  guard (s.insRn = (bits4 s.instruction 16).toNat)
  guard (s.insRd = (bits4 s.instruction 12).toNat)
  let insDataAddress ← s.reg? s.insRn
  let insDataOffset ← s.offsetField
  let insDataOffset := if s.insU then insDataOffset else 0 - insDataOffset
  some { s with
    insDataOffset := insDataOffset
    insDataAddress := if s.insP then insDataAddress + insDataOffset else insDataAddress
    insSizeCode := if s.insB then 0 else 2
    insSigned := false
    insEXCF := false
    insSingleT := true }

/-- Another array of registers. -/
def setRegs (rawReg : ℕ → BitVec 32) : SingleArmisa := { s with rawReg := rawReg }

/-- An assignment to `raw_reg`. -/
def setRaw (i : ℕ) (v : BitVec 32) : SingleArmisa := s.setRegs (Function.update s.rawReg i v)

/-- An assignment to a register of the current bank. -/
def assignReg (r : ℕ) (v : BitVec 32) : Option SingleArmisa :=
  (Armisa.rawIndex s.currentBank r).map fun i => s.setRaw i v

/-- Where a register that is transferred is kept: `raw_reg[r]` or `Reg(r)`. -/
def transferIndex (r : ℕ) : Option ℕ :=
  if s.insSUser then some r else Armisa.rawIndex s.currentBank r

def record (access : SingleAccess) : SingleArmisa := { s with accesses := s.accesses ++ [access] }

/-- The registers that get the data of a load. -/
def loadRegister (rd1 rd2 : ℕ) (data : BitVec 64) : Option SingleArmisa :=
  let readData := data.setWidth 32
  match s.insSizeCode with
  | 0 => some (s.setRaw rd1 (if s.insSigned then sex8 (readData &&& 0xFF) else readData &&& 0xFF))
  | 1 =>
      some (s.setRaw rd1
        (if s.insSigned then sex16 (readData &&& 0xFFFF) else readData &&& 0xFFFF))
  | 2 => some (s.setRaw rd1 readData)
  | 3 => some ((s.setRaw rd1 readData).setRaw rd2 ((data >>> 32).setWidth 32))
  | _ => none

/-- A load of the PC, with its T bit. -/
def loadPc (rd1 : ℕ) : SingleArmisa :=
  let thumbBit := (1 : BitVec 32) <<< 5
  let s :=
    if bit (s.rawReg rd1) 0 then
      (s.setRaw cpsrReg (s.cpsr ||| thumbBit)).setRaw rd1 (s.rawReg rd1 &&& ~~~1)
    else if bit (s.rawReg rd1) 1 then s
    else s.setRaw cpsrReg (s.cpsr &&& ~~~thumbBit)
  s.setRaw rd1 (s.rawReg rd1 + armPcCorrection)

/-- Post-index: the increment is added after the memory operation. -/
def postIndex : SingleArmisa :=
  if s.insP then s else { s with insDataAddress := s.insDataAddress + s.insDataOffset }

/-- The write-back. -/
def writeBack : Option SingleArmisa :=
  if s.midMultiple2S = false ∧ (s.insW ∨ ¬s.insP) then
    let s := s.postIndex
    if s.insDataOffset ≠ 0 then s.assignReg s.insRn s.insDataAddress else some s
  else some s

/-- The end of a load that is granted. -/
def takeData (rd1 rd2 : ℕ) (data : BitVec 64) : Option (SingleArmisa × Bool) := do
  let s ← s.loadRegister rd1 rd2 data
  let s ← (if s.insRd = pcReg then s.loadPc rd1 else s).writeBack
  some (s, true)

/-- The generic loads. -/
def genericLoad : Option (SingleArmisa × Bool) := do
  let rd1 ← s.transferIndex s.insRd
  let rd2 ← s.transferIndex (s.insRd + 1)
  let s := s.record ⟨true, s.insDataAddress, s.insSizeCode⟩
  match port.read s.insDataAddress s.insSizeCode s.insEXCF with
  | none => some (s, false)
  | some data => s.takeData rd1 rd2 data

/-- What a store is to write. -/
def takeResult (value high : BitVec 32) : SingleArmisa :=
  { s with insAluResult := value, insAluResultHi := high }

/-- The exclusive stores. -/
def storeExclusive : Option (SingleArmisa × Bool) := do
  guard (s.insSUser = false)
  let value ← s.reg? s.insRm
  let high ← if s.insSizeCode = 3 then s.reg? (s.insRm + 1) else some 0
  let s := (s.takeResult value high).record ⟨false, s.insDataAddress, s.insSizeCode⟩
  let (rc, outcome) := port.writeExclusive s.insDataAddress (high ++ value) s.insSizeCode
  if outcome = 2 ∨ rc = false then some (s, false)
  else do
    let s ← s.assignReg s.insRd (if outcome ≠ 0 then 0 else 1)
    let s ← s.writeBack
    some (s, true)

/-- The generic stores. -/
def genericStore : Option (SingleArmisa × Bool) := do
  let value ← (s.transferIndex s.insRd).map s.rawReg
  let high ←
    if s.insSizeCode = 3 then do
      guard (s.insSUser = false)
      s.reg? (s.insRd + 1)
    else some 0
  let s := (s.takeResult value high).record ⟨false, s.insDataAddress, s.insSizeCode⟩
  if port.write s.insDataAddress (high ++ value) s.insSizeCode then do
    let s ← s.writeBack
    some (s, true)
  else some (s, false)

/-- `exec_mem_operand_instr`: the result says whether the access was granted. -/
def execMemOperandInstr : Option (SingleArmisa × Bool) :=
  if s.insL then s.genericLoad port
  else if s.insEXCF then s.storeExclusive port
  else s.genericStore port

/-- A single transfer, from its decoding, which leaves the core in the state `MidSingleS`, to
the end of its access. -/
def transfer : Option (SingleArmisa × Bool) := do
  let s ← s.decodeArmFields.decodeSingle
  { s with midMultiple2S := false }.execMemOperandInstr port

/-! ## The architecture -/

/-- The encodings of LDR and STR, less those of the media instructions. -/
def IsSingle (instr : BitVec 32) : Prop :=
  bits instr 26 2 = 1 ∧ ¬(bit instr 25 = true ∧ bit instr 4 = true)

/-- The offset, from the instruction, its index register and the carry flag. -/
def offset (s : Armisa) : BitVec 32 :=
  if bit s.instruction 25 then
    (shiftByImmediate (shiftTypeOf s.instruction) (s.reg (bits4 s.instruction 0).toNat)
      (bits s.instruction 7 5).toNat s.cFlag).1
  else bits s.instruction 0 12

def baseRegister (s : Armisa) : ℕ := (bits4 s.instruction 16).toNat

/-- The base with an offset, which the U bit adds or subtracts. -/
def baseWith (s : Armisa) (off : BitVec 32) : BitVec 32 :=
  if bit s.instruction 23 then s.reg (baseRegister s) + off else s.reg (baseRegister s) - off

def offsetAddress (s : Armisa) : BitVec 32 := baseWith s (offset s)

/-- The address that is accessed. -/
def address (s : Armisa) : BitVec 32 :=
  if bit s.instruction 24 then offsetAddress s else s.reg (baseRegister s)

/-- Whether the base register is written back. -/
def WritesBack (instr : BitVec 32) : Prop := bit instr 24 = false ∨ bit instr 21 = true

instance decidableWritesBack (instr : BitVec 32) : Decidable (WritesBack instr) :=
  inferInstanceAs (Decidable (_ ∨ _))

/-- Whether the base register is loaded. -/
def LoadsBase (instr : BitVec 32) : Prop :=
  bit instr 20 = true ∧ bits4 instr 12 = bits4 instr 16

instance decidableLoadsBase (instr : BitVec 32) : Decidable (LoadsBase instr) :=
  inferInstanceAs (Decidable (_ ∧ _))

/-- The base register after a granted access; what is loaded into it, if it is not written
back, is not said. -/
def BaseAfter (s : Armisa) (after : Option (BitVec 32)) : Prop :=
  (WritesBack s.instruction → after = some (offsetAddress s)) ∧
    (¬WritesBack s.instruction → ¬LoadsBase s.instruction →
      after = some (s.reg (baseRegister s)))

/-- Whatever the port answers, the access is the one of the architecture and the base register
is left as the architecture says, or as it was where the access is refused. -/
def Architectural (s : SingleArmisa) : Prop :=
  ∀ port, ∃ t granted, s.transfer port = some (t, granted) ∧
    t.accesses = s.accesses ++ [⟨bit s.instruction 20, address s.toArmisa,
      if bit s.instruction 22 then 0 else 2⟩] ∧
    (granted = true → BaseAfter s.toArmisa (t.reg? (baseRegister s.toArmisa))) ∧
    (granted = false →
      t.reg? (baseRegister s.toArmisa) = some (s.reg (baseRegister s.toArmisa)))

/-- ASR by 32 with another carry left behind than the sign of the index register. -/
def StaleSign (s : Armisa) : Prop :=
  bit s.instruction 25 = true ∧ shiftTypeOf s.instruction = .asr ∧
    bits s.instruction 7 5 = 0 ∧
    s.insShiftCarryOut ≠ bit (s.reg (bits4 s.instruction 0).toNat) 31

/-- A load of the base register that is also to be written back, by an offset of zero. -/
def LoadsOverBase (s : Armisa) : Prop :=
  WritesBack s.instruction ∧ LoadsBase s.instruction ∧ offset s = 0

/-! ## The offset -/

/-- Only ASR by 32 depends on the carry that is left behind. -/
theorem shiftedIndex_spec (type : ShiftType) (rm : BitVec 32) {n : ℕ} (hn : n < 32)
    (c stale : Bool) :
    shiftedIndex (shiftField type) rm n c stale =
      some (if type = .asr ∧ n = 0 then 0 - flagWord stale
        else (shiftByImmediate type rm n c).1) := by
  rcases Nat.eq_zero_or_pos n with rfl | hpos
  · cases type
    case lsl =>
      rw [if_neg (fun h => ShiftType.noConfusion h.1)]
      exact congrArg some (BitVec.shiftLeft_zero rm)
    case lsr =>
      rw [if_neg (fun h => ShiftType.noConfusion h.1)]
      exact congrArg some (BitVec.ushiftRight_eq_zero (le_refl 32)).symm
    case asr =>
      rw [if_pos ⟨rfl, rfl⟩]
      rfl
    case ror =>
      rw [if_neg (fun h => ShiftType.noConfusion h.1), shiftByImmediate, if_pos rfl,
        Armisa.rrxC_fst, BitVec.or_comm]
      rfl
  · have hne : n ≠ 0 := hpos.ne'
    have hsame : shiftByImmediate type rm n c = shiftC type rm n c := by
      cases type <;> simp only [shiftByImmediate, if_neg hne]
    have hshift := shiftOperand_of_lt type rm hpos hn c
    rw [if_neg (fun h => hne h.2), hsame]
    cases type
    case lsl => simp only [shiftField, shiftedIndex, shiftC, if_neg hne]
    case lsr => simp only [shiftField, shiftedIndex, shiftC, if_neg hne]
    case asr =>
      simp only [shiftField, shiftOperand, if_neg hne, if_neg (show ¬31 < n by omega),
        Option.some.injEq] at hshift
      simp only [shiftField, shiftedIndex, if_neg hne, ← hshift]
    case ror => rw [shiftField, shiftedIndex, if_neg hne, shiftC_ror_fst rm hn]

/-- ASR by 32 copies the sign. -/
theorem shiftByImmediate_asr_zero (rm : BitVec 32) (c : Bool) :
    (shiftByImmediate .asr rm 0 c).1 = 0 - flagWord (bit rm 31) := by
  have hcopies : 0 - flagWord (bit rm 31) = if rm.msb then BitVec.allOnes 32 else 0 := by
    rw [bit_eq_msb]
    cases rm.msb <;> rfl
  rw [hcopies, ← sshiftRight_of_ge rm (le_refl 32)]
  rfl

/-- The offset that `DecodeSingle` finds. -/
def offsetFound (s : Armisa) : BitVec 32 :=
  if bit s.instruction 25 = true ∧ shiftTypeOf s.instruction = .asr ∧
      bits s.instruction 7 5 = 0 then
    0 - flagWord s.insShiftCarryOut
  else offset s

theorem bits_toNat_eq_zero (a : BitVec 32) (bitno width : ℕ) :
    (bits a bitno width).toNat = 0 ↔ bits a bitno width = 0 :=
  @BitVec.toNat_inj 32 (bits a bitno width) 0

theorem offsetField_eq (hsingle : IsSingle s.instruction) :
    s.offsetField = some (offsetFound s.toArmisa) := by
  rw [offsetField, offsetFound, offset]
  cases himm : bit s.instruction 25 with
  | false => simp
  | true =>
      have hfour : bit s.instruction 4 = false := by
        have hnot := hsingle.2
        rw [himm] at hnot
        simpa using hnot
      have hlt : (bits s.instruction 7 5).toNat < 32 := bits_lt s.instruction 7 (by omega)
      simp only [if_true, Armisa.reg?_bits4, Option.bind_eq_bind, Option.bind_some, hfour,
        guard_true, bits_shiftType, shiftedIndex_spec _ _ hlt, bits_toNat_eq_zero, true_and]
      rfl

theorem offsetFound_eq_iff (s : Armisa) : offsetFound s = offset s ↔ ¬StaleSign s := by
  by_cases hasr : bit s.instruction 25 = true ∧ shiftTypeOf s.instruction = .asr ∧
      bits s.instruction 7 5 = 0
  · obtain ⟨himm, htype, hamount⟩ := hasr
    have hoffset : offset s =
        0 - flagWord (bit (s.reg (bits4 s.instruction 0).toNat) 31) := by
      rw [offset, if_pos himm, htype, hamount]
      exact shiftByImmediate_asr_zero _ _
    rw [offsetFound, if_pos ⟨himm, htype, hamount⟩, hoffset]
    simp only [StaleSign, himm, htype, hamount, true_and, ne_eq, not_not]
    cases s.insShiftCarryOut <;> cases bit (s.reg (bits4 s.instruction 0).toNat) 31 <;> decide
  · rw [offsetFound, if_neg hasr]
    exact iff_of_true rfl fun h => hasr ⟨h.1, h.2.1, h.2.2.1⟩

/-! ## Decoding -/

/-- The state after the decoding of an offset. -/
def decodedWith (s : SingleArmisa) (off : BitVec 32) : SingleArmisa :=
  { s.decodeArmFields with
    insDataOffset := if bit s.instruction 23 then off else 0 - off
    insDataAddress :=
      if bit s.instruction 24 then
        s.reg (baseRegister s.toArmisa) + if bit s.instruction 23 then off else 0 - off
      else s.reg (baseRegister s.toArmisa)
    insSizeCode := if bit s.instruction 22 then 0 else 2
    insSigned := false
    insEXCF := false
    insSingleT := true
    midMultiple2S := false }

theorem transfer_eq (hsingle : IsSingle s.instruction) :
    s.transfer port =
      (s.decodedWith (offsetFound s.toArmisa)).execMemOperandInstr port := by
  have hbase : s.decodeArmFields.reg? s.decodeArmFields.insRn =
      some (s.reg (baseRegister s.toArmisa)) := Armisa.reg?_bits4 s.toArmisa s.instruction 16
  have hoffset : s.decodeArmFields.offsetField = some (offsetFound s.toArmisa) :=
    offsetField_eq s hsingle
  have hword : bits s.decodeArmFields.instruction 26 2 = 1 := hsingle.1
  have hrn : s.decodeArmFields.insRn = (bits4 s.decodeArmFields.instruction 16).toNat := rfl
  have hrd : s.decodeArmFields.insRd = (bits4 s.decodeArmFields.instruction 12).toNat := rfl
  simp only [transfer, decodeSingle, hword, hbase, hoffset,
    Option.bind_eq_bind, Option.bind_some, guard, if_pos hrn, if_pos hrd]
  rfl

/-! ## Accesses -/

variable {port s} {r i : ℕ} {v : BitVec 32} {rawReg : ℕ → BitVec 32}

@[simp]
theorem currentBank_setRaw (s : SingleArmisa) (i : ℕ) (v : BitVec 32) :
    (s.setRaw i v).currentBank = s.currentBank := rfl

@[simp]
theorem rawReg_setRaw (s : SingleArmisa) (i : ℕ) (v : BitVec 32) :
    (s.setRaw i v).rawReg = Function.update s.rawReg i v := rfl

/-- What an assignment does to the registers of the bank. -/
theorem reg?_setRaw (s : SingleArmisa) (i : ℕ) (v : BitVec 32) (r : ℕ) :
    (s.setRaw i v).reg? r =
      if Armisa.rawIndex s.currentBank r = some i then some v else s.reg? r := by
  rw [Armisa.reg?, currentBank_setRaw, rawReg_setRaw, Armisa.reg?]
  cases Armisa.rawIndex s.currentBank r with
  | none => rfl
  | some j =>
      simp only [Option.map_some, Option.some.injEq, Function.update_apply]
      by_cases hsame : j = i
      · rw [if_pos hsame, if_pos hsame]
      · rw [if_neg hsame, if_neg hsame]

theorem rawIndex_eq_iff {bank : ArmBank} (hindex : Armisa.rawIndex bank r = some i) (r' : ℕ) :
    Armisa.rawIndex bank r' = some i ↔ r' = r := by
  constructor
  · intro hindex'
    exact Armisa.rawIndex_injective hindex' hindex
  · rintro rfl
    exact hindex

theorem rawIndex_cpsr_iff (bank : ArmBank) (r : ℕ) :
    Armisa.rawIndex bank r = some cpsrReg ↔ r = cpsrReg := by
  apply rawIndex_eq_iff
  cases bank <;> rfl

/-- What a load leaves in its register. -/
def loadedValue (rd : ℕ) (word : BitVec 32) : BitVec 32 :=
  if rd = pcReg then (if bit word 0 then word &&& ~~~1 else word) + armPcCorrection else word

theorem loadPc_spec (hindex : Armisa.rawIndex s.currentBank pcReg = some i) :
    ∃ rawReg, s.loadPc i = s.setRegs rawReg ∧
      ∀ r < 16, (s.setRegs rawReg).reg? r =
        if r = pcReg then some (loadedValue pcReg (s.rawReg i)) else s.reg? r := by
  have hne : cpsrReg ≠ i := (Armisa.rawIndex_ne_cpsr (by decide) hindex).symm
  have hregs : s.loadPc i = s.setRegs (s.loadPc i).rawReg := by
    rw [loadPc]
    split_ifs <;> rfl
  refine ⟨(s.loadPc i).rawReg, hregs, fun r hr => ?_⟩
  have hcpsr : r ≠ cpsrReg := Nat.ne_of_lt hr
  rw [← hregs, loadPc, loadedValue, if_pos rfl]
  by_cases hpc : r = pcReg
  · rw [if_pos hpc]
    split_ifs <;>
      simp only [reg?_setRaw, currentBank_setRaw, rawIndex_eq_iff hindex, if_pos hpc,
        rawReg_setRaw, Function.update_self, Function.update_of_ne hne.symm]
  · rw [if_neg hpc]
    split_ifs <;>
      simp only [reg?_setRaw, currentBank_setRaw, rawIndex_eq_iff hindex, if_neg hpc,
        rawIndex_cpsr_iff, if_neg hcpsr]

/-- The word or the byte that is loaded. -/
def loadedWord (s : Armisa) (data : BitVec 64) : BitVec 32 :=
  if bit s.instruction 22 then data.setWidth 32 &&& 0xFF else data.setWidth 32

/-- The registers after the data have come. -/
theorem loaded_spec (s : SingleArmisa) (off : BitVec 32) (access : SingleAccess) (data : BitVec 64)
    {rd1 : ℕ} (rd2 : ℕ)
    (hindex : Armisa.rawIndex s.currentBank (bits4 s.instruction 12).toNat = some rd1) :
    ∃ loaded rawReg, ((s.decodedWith off).record access).loadRegister rd1 rd2 data = some loaded ∧
      (if loaded.insRd = pcReg then loaded.loadPc rd1 else loaded) =
        ((s.decodedWith off).record access).setRegs rawReg ∧
      ∀ r < 16, (((s.decodedWith off).record access).setRegs rawReg).reg? r =
        if r = (bits4 s.instruction 12).toNat then
          some (loadedValue r (loadedWord s.toArmisa data)) else s.reg? r := by
  set decoded := (s.decodedWith off).record access
  have hload : decoded.loadRegister rd1 rd2 data =
      some (decoded.setRaw rd1 (loadedWord s.toArmisa data)) := by
    have hsize : decoded.insSizeCode = if bit s.instruction 22 then 0 else 2 := rfl
    have hsigned : decoded.insSigned = false := rfl
    cases hB : bit s.instruction 22 <;>
      simp [loadRegister, hsize, hsigned, loadedWord, hB]
  set word := loadedWord s.toArmisa data
  have hplain : ∀ r, (decoded.setRaw rd1 word).reg? r =
      if r = (bits4 s.instruction 12).toNat then some word else s.reg? r := by
    intro r
    have hbank : decoded.currentBank = s.currentBank := rfl
    rw [reg?_setRaw, hbank]
    simp only [rawIndex_eq_iff hindex]
    rfl
  by_cases hpc : (bits4 s.instruction 12).toNat = pcReg
  · have hindexPc : Armisa.rawIndex (decoded.setRaw rd1 word).currentBank pcReg = some rd1 := by
      rw [← hpc]
      exact hindex
    obtain ⟨rawReg, hloadPc, hregs⟩ := loadPc_spec hindexPc
    refine ⟨decoded.setRaw rd1 word, rawReg, hload, (if_pos hpc).trans hloadPc, ?_⟩
    intro r hr
    have hread := hregs r hr
    rw [rawReg_setRaw, Function.update_self, hplain, hpc] at hread
    rw [hpc]
    by_cases hsame : r = pcReg
    · rw [if_pos hsame] at hread ⊢
      rw [hsame] at hread ⊢
      exact hread
    · rw [if_neg hsame, if_neg hsame] at hread
      rw [if_neg hsame]
      exact hread
  · refine ⟨decoded.setRaw rd1 word, Function.update decoded.rawReg rd1 word, hload,
      if_neg hpc, ?_⟩
    intro r _
    have hread := hplain r
    by_cases hsame : r = (bits4 s.instruction 12).toNat
    · rw [if_pos hsame] at hread ⊢
      rw [loadedValue, if_neg (hsame ▸ hpc)]
      exact hread
    · rw [if_neg hsame] at hread ⊢
      exact hread

/-- What the post-index leaves alone. -/
structure SameButAddress (s t : SingleArmisa) : Prop where
  registers : ∀ r, t.reg? r = s.reg? r
  bank : t.currentBank = s.currentBank
  rn : t.insRn = s.insRn
  offset : t.insDataOffset = s.insDataOffset
  accesses : t.accesses = s.accesses

theorem postIndex_spec (s : SingleArmisa) : SameButAddress s s.postIndex := by
  rw [postIndex]
  split_ifs
  · exact ⟨fun _ => rfl, rfl, rfl, rfl, rfl⟩
  · exact ⟨fun _ => rfl, rfl, rfl, rfl, rfl⟩

/-- The base register after the write-back. -/
theorem writeBack_spec (s : SingleArmisa) (off : BitVec 32) (access : SingleAccess)
    (rawReg : ℕ → BitVec 32) :
    ∃ t, (((s.decodedWith off).record access).setRegs rawReg).writeBack = some t ∧
      t.accesses = s.accesses ++ [access] ∧
      t.reg? (baseRegister s.toArmisa) =
        if WritesBack s.instruction ∧ off ≠ 0 then
          some (baseWith s.toArmisa off)
        else (((s.decodedWith off).record access).setRegs rawReg).reg?
          (baseRegister s.toArmisa) := by
  set u := ((s.decodedWith off).record access).setRegs rawReg
  have hwrites : u.midMultiple2S = false ∧ (u.insW = true ∨ ¬u.insP = true) ↔
      WritesBack s.instruction := by
    have hW : u.insW = bit s.instruction 21 := rfl
    have hP : u.insP = bit s.instruction 24 := rfl
    rw [hW, hP, WritesBack, Bool.not_eq_true, or_comm]
    exact and_iff_right rfl
  have hoffset : u.insDataOffset ≠ 0 ↔ off ≠ 0 := by
    have hfield : u.insDataOffset = if bit s.instruction 23 then off else 0 - off := rfl
    rw [hfield]
    cases bit s.instruction 23 <;> simp
  obtain ⟨i, hindex⟩ :=
    Armisa.rawIndex_of_lt s.currentBank (Armisa.bits4_lt s.instruction 16)
  by_cases hwb : WritesBack s.instruction
  · have hpost := postIndex_spec u
    have haddress : u.postIndex.insDataAddress = baseWith s.toArmisa off := by
      have hsum : u.postIndex.insDataAddress = s.reg (baseRegister s.toArmisa) +
          if bit s.instruction 23 then off else 0 - off := by
        have hP : u.insP = bit s.instruction 24 := rfl
        have hbefore : u.insDataAddress = if bit s.instruction 24 then
            s.reg (baseRegister s.toArmisa) + if bit s.instruction 23 then off else 0 - off
            else s.reg (baseRegister s.toArmisa) := rfl
        rw [postIndex, hP]
        cases hpre : bit s.instruction 24 with
        | true => rw [if_pos rfl, hbefore, hpre, if_pos rfl]
        | false =>
            rw [if_neg Bool.false_ne_true]
            dsimp only
            rw [hbefore, hpre, if_neg Bool.false_ne_true]
            rfl
      rw [hsum, baseWith]
      cases bit s.instruction 23 with
      | true => rfl
      | false =>
          have hneg : 0 - off = -off := BitVec.zero_sub off
          rw [if_neg Bool.false_ne_true, if_neg Bool.false_ne_true, hneg,
            ← BitVec.sub_eq_add_neg]
    by_cases hne : off ≠ 0
    · refine ⟨u.postIndex.setRaw i u.postIndex.insDataAddress, ?_, hpost.accesses, ?_⟩
      · rw [writeBack, if_pos (hwrites.mpr hwb)]
        simp only [hpost.offset, if_pos (hoffset.mpr hne), assignReg, hpost.bank, hpost.rn]
        exact congrArg (Option.map _) hindex
      · have hwritten : WritesBack s.instruction ∧ off ≠ 0 := ⟨hwb, hne⟩
        have hplace : Armisa.rawIndex u.postIndex.currentBank (baseRegister s.toArmisa) =
            some i := by
          rw [hpost.bank]
          exact hindex
        rw [reg?_setRaw, if_pos hplace, if_pos hwritten, haddress]
    · refine ⟨u.postIndex, ?_, hpost.accesses, ?_⟩
      · rw [writeBack, if_pos (hwrites.mpr hwb)]
        simp only [hpost.offset, if_neg (mt hoffset.mp hne)]
      · rw [if_neg (fun h => hne h.2), hpost.registers]
  · refine ⟨u, ?_, rfl, ?_⟩
    · rw [writeBack, if_neg (mt hwrites.mp hwb)]
    · rw [if_neg (fun h => hwb h.1)]

/-- The address that an offset leads to. -/
def addressWith (s : Armisa) (off : BitVec 32) : BitVec 32 :=
  if bit s.instruction 24 then baseWith s off else s.reg (baseRegister s)

theorem insDataAddress_decodedWith (s : SingleArmisa) (off : BitVec 32) :
    (s.decodedWith off).insDataAddress = addressWith s.toArmisa off := by
  have hzero : 0 - off = -off := BitVec.zero_sub off
  have hneg : ∀ base : BitVec 32, base + (0 - off) = base - off := by
    intro base
    rw [hzero, ← BitVec.sub_eq_add_neg]
  simp only [decodedWith, addressWith, baseWith]
  split_ifs
  · rfl
  · exact hneg _
  · rfl

/-- The access that an offset leads to. -/
def accessWith (s : Armisa) (off : BitVec 32) : SingleAccess :=
  ⟨bit s.instruction 20, addressWith s off, if bit s.instruction 22 then 0 else 2⟩

/-- The base register after a granted access with an offset. -/
def baseRegisterWith (s : Armisa) (off : BitVec 32) (data : BitVec 64) : BitVec 32 :=
  if WritesBack s.instruction ∧ off ≠ 0 then baseWith s off
  else if LoadsBase s.instruction then loadedValue (baseRegister s) (loadedWord s data)
  else s.reg (baseRegister s)

theorem reg?_base (s : Armisa) : s.reg? (baseRegister s) = some (s.reg (baseRegister s)) :=
  s.reg?_bits4 s.instruction 16

theorem loadsBase_iff (hL : bit s.instruction 20 = true) :
    LoadsBase s.instruction ↔
      baseRegister s.toArmisa = (bits4 s.instruction 12).toNat := by
  rw [LoadsBase, baseRegister, BitVec.toNat_inj, @eq_comm _ (bits4 s.instruction 16)]
  exact and_iff_right hL

/-- A load, granted or refused. -/
theorem exec_load_eq (port : DataPort) (off : BitVec 32) (hL : bit s.instruction 20 = true) :
    ∃ rd1 rd2, Armisa.rawIndex s.currentBank (bits4 s.instruction 12).toNat = some rd1 ∧
      (s.decodedWith off).execMemOperandInstr port =
        match port.read (addressWith s.toArmisa off)
            (if bit s.instruction 22 then 0 else 2) false with
        | none => some ((s.decodedWith off).record (accessWith s.toArmisa off), false)
        | some data =>
            ((s.decodedWith off).record (accessWith s.toArmisa off)).takeData rd1 rd2 data := by
  obtain ⟨rd1, hrd1⟩ := Armisa.rawIndex_of_lt s.currentBank (Armisa.bits4_lt s.instruction 12)
  obtain ⟨rd2, hrd2⟩ := @Armisa.rawIndex_of_lt ((bits4 s.instruction 12).toNat + 1)
    s.currentBank (Nat.succ_lt_succ (Nat.lt_succ_of_le (Armisa.bits4_le s.instruction 12)))
  have hfirst : (s.decodedWith off).transferIndex (s.decodedWith off).insRd = some rd1 := hrd1
  have hsecond : (s.decodedWith off).transferIndex ((s.decodedWith off).insRd + 1) =
      some rd2 := hrd2
  have hload : (s.decodedWith off).insL = true := hL
  refine ⟨rd1, rd2, hrd1, ?_⟩
  have haccess : (s.decodedWith off).record
      ⟨true, (s.decodedWith off).insDataAddress, (s.decodedWith off).insSizeCode⟩ =
        (s.decodedWith off).record (accessWith s.toArmisa off) := by
    rw [insDataAddress_decodedWith, accessWith, hL]
    rfl
  have hport : ∀ t : SingleArmisa, t = (s.decodedWith off).record (accessWith s.toArmisa off) →
      port.read t.insDataAddress t.insSizeCode t.insEXCF =
        port.read (addressWith s.toArmisa off) (if bit s.instruction 22 then 0 else 2) false := by
    rintro t rfl
    rw [← insDataAddress_decodedWith]
    rfl
  simp only [execMemOperandInstr, if_pos hload, genericLoad, hfirst, hsecond,
    Option.bind_eq_bind, Option.bind_some]
  rw [haccess, hport _ rfl]

/-- A granted load. -/
theorem exec_load {off : BitVec 32} {data : BitVec 64} (hL : bit s.instruction 20 = true)
    (hread : port.read (addressWith s.toArmisa off) (if bit s.instruction 22 then 0 else 2) false =
      some data) :
    ∃ t, (s.decodedWith off).execMemOperandInstr port = some (t, true) ∧
      t.accesses = s.accesses ++ [accessWith s.toArmisa off] ∧
      t.reg? (baseRegister s.toArmisa) = some (baseRegisterWith s.toArmisa off data) := by
  obtain ⟨rd1, rd2, hindex, hexec⟩ := exec_load_eq port off hL
  obtain ⟨loaded, rawReg, hload, hpc, hregs⟩ :=
    loaded_spec s off (accessWith s.toArmisa off) data rd2 hindex
  obtain ⟨t, hwrite, haccesses, hbase⟩ :=
    writeBack_spec s off (accessWith s.toArmisa off) rawReg
  refine ⟨t, ?_, haccesses, ?_⟩
  · rw [hexec, hread]
    simp only [takeData, hload, Option.bind_eq_bind, Option.bind_some, hpc, hwrite]
  · have hlt : baseRegister s.toArmisa < 16 := Nat.lt_succ_of_le (Armisa.bits4_le _ _)
    rw [hbase, hregs _ hlt]
    simp only [← loadsBase_iff hL, baseRegisterWith, reg?_base]
    split_ifs <;> rfl

/-- A load that is refused. -/
theorem exec_load_refused {off : BitVec 32} (hL : bit s.instruction 20 = true)
    (hread : port.read (addressWith s.toArmisa off) (if bit s.instruction 22 then 0 else 2) false =
      none) :
    (s.decodedWith off).execMemOperandInstr port =
      some ((s.decodedWith off).record (accessWith s.toArmisa off), false) := by
  obtain ⟨rd1, rd2, -, hexec⟩ := exec_load_eq port off hL
  rw [hexec, hread]

/-- A store, granted or refused. -/
theorem exec_store (port : DataPort) (off : BitVec 32) (hL : bit s.instruction 20 = false) :
    ∃ t granted, (s.decodedWith off).execMemOperandInstr port = some (t, granted) ∧
      t.accesses = s.accesses ++ [accessWith s.toArmisa off] ∧
      (granted = true → ∀ data,
        t.reg? (baseRegister s.toArmisa) = some (baseRegisterWith s.toArmisa off data)) ∧
      (granted = false →
        t.reg? (baseRegister s.toArmisa) = some (s.reg (baseRegister s.toArmisa))) ∧
      ((∀ addr word size, port.write addr word size = true) → granted = true) := by
  obtain ⟨rd1, hrd1⟩ := Armisa.rawIndex_of_lt s.currentBank (Armisa.bits4_lt s.instruction 12)
  have hfirst : (s.decodedWith off).transferIndex (s.decodedWith off).insRd = some rd1 := hrd1
  have hload : ¬(s.decodedWith off).insL = true := by
    have hfield : (s.decodedWith off).insL = bit s.instruction 20 := rfl
    rw [hfield, hL]
    exact Bool.false_ne_true
  have hplain : ¬(s.decodedWith off).insEXCF = true := Bool.false_ne_true
  have hsize : ¬(s.decodedWith off).insSizeCode = 3 := by
    have hfield : (s.decodedWith off).insSizeCode = if bit s.instruction 22 then 0 else 2 := rfl
    rw [hfield]
    cases bit s.instruction 22 <;> decide
  set value := (s.decodedWith off).rawReg rd1
  set stored := (s.takeResult value 0).decodedWith off
  have haccess : ((s.decodedWith off).takeResult value 0).record
      ⟨false, (s.decodedWith off).insDataAddress, (s.decodedWith off).insSizeCode⟩ =
        (stored.record (accessWith s.toArmisa off)).setRegs s.rawReg := by
    rw [insDataAddress_decodedWith, accessWith, hL]
    rfl
  have hexec : (s.decodedWith off).execMemOperandInstr port =
      if port.write (s.decodedWith off).insDataAddress ((0 : BitVec 32) ++ value)
          (s.decodedWith off).insSizeCode then
        (((stored.record (accessWith s.toArmisa off)).setRegs s.rawReg).writeBack).bind
          fun t => some (t, true)
      else some ((stored.record (accessWith s.toArmisa off)).setRegs s.rawReg, false) := by
    simp only [execMemOperandInstr, if_neg hload, if_neg hplain, genericStore, hfirst,
      if_neg hsize, Option.map_some, Option.bind_eq_bind, Option.bind_some]
    rw [← haccess]
    rfl
  have hnotBase : ¬LoadsBase s.instruction := by
    rintro ⟨hl, -⟩
    rw [hL] at hl
    exact Bool.false_ne_true hl
  obtain ⟨t, hwrite, haccesses, hwritten⟩ :=
    writeBack_spec (s.takeResult value 0) off (accessWith s.toArmisa off) s.rawReg
  have hbase : t.reg? (baseRegister s.toArmisa) =
      if WritesBack s.instruction ∧ off ≠ 0 then some (baseWith s.toArmisa off)
      else s.reg? (baseRegister s.toArmisa) := hwritten
  rw [hexec]
  by_cases hport : port.write (s.decodedWith off).insDataAddress ((0 : BitVec 32) ++ value)
      (s.decodedWith off).insSizeCode = true
  · refine ⟨t, true, ?_, haccesses, fun _ data => hbase.trans ?_, fun h => Bool.noConfusion h,
      fun _ => rfl⟩
    · rw [if_pos hport, hwrite, Option.bind_some]
    · rw [baseRegisterWith, if_neg hnotBase, reg?_base]
      split_ifs <;> rfl
  · exact ⟨_, false, if_neg hport, rfl, fun h => Bool.noConfusion h,
      fun _ => reg?_base s.toArmisa, fun h => absurd (h _ _ _) hport⟩

/-! ## All transfers -/

/-- An access at the offset that is found, whatever the port answers. -/
theorem transfer_spec (port : DataPort) (s : SingleArmisa) (hsingle : IsSingle s.instruction) :
    ∃ t granted data, s.transfer port = some (t, granted) ∧
      t.accesses = s.accesses ++ [accessWith s.toArmisa (offsetFound s.toArmisa)] ∧
      (granted = true → t.reg? (baseRegister s.toArmisa) =
        some (baseRegisterWith s.toArmisa (offsetFound s.toArmisa) data)) ∧
      (granted = false →
        t.reg? (baseRegister s.toArmisa) = some (s.reg (baseRegister s.toArmisa))) := by
  rw [transfer_eq port s hsingle]
  set off := offsetFound s.toArmisa
  cases hL : bit s.instruction 20 with
  | false =>
      obtain ⟨t, granted, hexec, haccesses, hgranted, hrefused, -⟩ := exec_store port off hL
      exact ⟨t, granted, 0, hexec, haccesses, fun h => hgranted h 0, hrefused⟩
  | true =>
      cases hread : port.read (addressWith s.toArmisa off)
          (if bit s.instruction 22 then 0 else 2) false with
      | none =>
          exact ⟨_, false, 0, exec_load_refused hL hread, rfl, fun h => Bool.noConfusion h,
            fun _ => reg?_base s.toArmisa⟩
      | some data =>
          obtain ⟨t, hexec, haccesses, hbase⟩ := exec_load hL hread
          exact ⟨t, true, data, hexec, haccesses, fun _ => hbase, fun h => Bool.noConfusion h⟩

/-- A port that grants every access. -/
def granting (data : BitVec 64) : DataPort where
  read _ _ _ := some data
  write _ _ _ := true
  writeExclusive _ _ _ := (true, 0)

theorem transfer_granting (data : BitVec 64) (s : SingleArmisa)
    (hsingle : IsSingle s.instruction) :
    ∃ t, s.transfer (granting data) = some (t, true) ∧
      t.accesses = s.accesses ++ [accessWith s.toArmisa (offsetFound s.toArmisa)] ∧
      t.reg? (baseRegister s.toArmisa) =
        some (baseRegisterWith s.toArmisa (offsetFound s.toArmisa) data) := by
  rw [transfer_eq (granting data) s hsingle]
  set off := offsetFound s.toArmisa
  cases hL : bit s.instruction 20 with
  | false =>
      obtain ⟨t, granted, hexec, haccesses, hbase, -, hall⟩ := exec_store (granting data) off hL
      have hgranted : granted = true := hall fun _ _ _ => rfl
      rw [hgranted] at hexec
      exact ⟨t, hexec, haccesses, hbase hgranted data⟩
  | true => exact exec_load hL rfl

theorem baseWith_injective {s : Armisa} {off off' : BitVec 32}
    (hsame : baseWith s off = baseWith s off') : off = off' := by
  rw [baseWith, baseWith] at hsame
  split_ifs at hsame
  · exact BitVec.add_right_inj _ |>.mp hsame
  · exact BitVec.sub_right_inj _ |>.mp hsame

theorem baseWith_zero (s : Armisa) : baseWith s 0 = s.reg (baseRegister s) := by
  rw [baseWith]
  split_ifs
  · exact BitVec.add_zero _
  · exact BitVec.sub_zero _

/-- Two words that leave different values in a register. -/
theorem loadedValue_ne (s : Armisa) (r : ℕ) :
    loadedValue r (loadedWord s 0) ≠ loadedValue r (loadedWord s 4) := by
  rw [loadedWord, loadedWord, loadedValue, loadedValue]
  split_ifs <;> decide

/-- LDR and STR access the right address and leave the right base register but for ASR by 32,
where the carry that is left behind is not the sign, and for loads that are written over. -/
theorem architectural_iff (s : SingleArmisa) (hsingle : IsSingle s.instruction) :
    s.Architectural ↔ ¬StaleSign s.toArmisa ∧ ¬LoadsOverBase s.toArmisa := by
  constructor
  · intro harch
    -- what the architecture and the code say of an access that is granted
    have hboth : ∀ data, addressWith s.toArmisa (offsetFound s.toArmisa) = address s.toArmisa ∧
        (WritesBack s.instruction →
          baseRegisterWith s.toArmisa (offsetFound s.toArmisa) data =
            offsetAddress s.toArmisa) := by
      intro data
      obtain ⟨t, htransfer, haccesses, hbase⟩ := transfer_granting data s hsingle
      obtain ⟨t', granted, htransfer', haccesses', hafter, -⟩ := harch (granting data)
      rw [htransfer, Option.some.injEq, Prod.mk.injEq] at htransfer'
      obtain ⟨rfl, rfl⟩ := htransfer'
      rw [haccesses, List.append_cancel_left_eq, List.cons.injEq] at haccesses'
      refine ⟨congrArg SingleAccess.address haccesses'.1, fun hwb => ?_⟩
      exact Option.some.inj (hbase.symm.trans ((hafter rfl).1 hwb))
    set off := offsetFound s.toArmisa
    have hnot : ¬(WritesBack s.instruction ∧ LoadsBase s.instruction ∧ off = 0) := by
      rintro ⟨hwb, hload, hzero⟩
      have hvalue : ∀ data, baseRegisterWith s.toArmisa off data =
          loadedValue (baseRegister s.toArmisa) (loadedWord s.toArmisa data) := by
        intro data
        rw [baseRegisterWith, if_neg (fun h => h.2 hzero), if_pos hload]
      apply loadedValue_ne s.toArmisa (baseRegister s.toArmisa)
      rw [← hvalue, ← hvalue, (hboth 0).2 hwb, (hboth 4).2 hwb]
    have hsame : off = offset s.toArmisa := by
      apply @baseWith_injective s.toArmisa
      by_cases hpre : bit s.instruction 24 = true
      · have haddress := (hboth 0).1
        rw [addressWith, if_pos hpre, address, if_pos hpre] at haddress
        exact haddress
      · have hwb : WritesBack s.instruction := Or.inl (Bool.not_eq_true _ ▸ hpre)
        have hbase := (hboth 0).2 hwb
        rw [baseRegisterWith] at hbase
        by_cases hzero : off = 0
        · have hload : ¬LoadsBase s.instruction := fun h => hnot ⟨hwb, h, hzero⟩
          rw [if_neg (fun h => h.2 hzero), if_neg hload] at hbase
          rw [hzero, baseWith_zero]
          exact hbase
        · rw [if_pos ⟨hwb, hzero⟩] at hbase
          exact hbase
    refine ⟨(offsetFound_eq_iff s.toArmisa).mp hsame, ?_⟩
    rintro ⟨hwb, hload, hzero⟩
    exact hnot ⟨hwb, hload, hsame.trans hzero⟩
  · rintro ⟨hstale, hover⟩ port
    have hsame := (offsetFound_eq_iff s.toArmisa).mpr hstale
    obtain ⟨t, granted, data, htransfer, haccesses, hgranted, hrefused⟩ :=
      transfer_spec port s hsingle
    rw [hsame] at haccesses hgranted
    refine ⟨t, granted, htransfer, haccesses, fun h => ?_, hrefused⟩
    rw [hgranted h, baseRegisterWith]
    constructor
    · intro hwb
      by_cases hzero : offset s.toArmisa = 0
      · have hload : ¬LoadsBase s.instruction := fun hload => hover ⟨hwb, hload, hzero⟩
        rw [if_neg (fun h => h.2 hzero), if_neg hload, offsetAddress, hzero, baseWith_zero]
      · rw [if_pos ⟨hwb, hzero⟩, offsetAddress]
    · intro hwb hload
      rw [if_neg (fun h => hwb h.1), if_neg hload]

/-- A core with an instruction to execute, a value in R2 and a carry left behind. -/
def executing (instr r2 : BitVec 32) (insShiftCarryOut : Bool) : SingleArmisa where
  toArmisa := { Armisa.idle with
    rawReg := Function.update Armisa.idle.rawReg 2 r2
    instruction := instr
    insShiftCarryOut := insShiftCarryOut }
  insSingleT := false
  insP := false
  insU := false
  insB := false
  insW := false
  insL := false
  insEXCF := false
  insSUser := false
  insSizeCode := 0
  insDataAddress := 0
  insDataOffset := 0
  midMultiple2S := false
  accesses := []

/-- `LDR R0, [R1, R2, ASR #32]` after a carry of 1, with a negative R2. -/
theorem architectural_asr : (executing 0xE7910042 0x80000000 true).Architectural := by
  refine (architectural_iff _ ⟨by decide, by decide⟩).mpr ⟨?_, ?_⟩
  · rintro ⟨-, -, -, hne⟩
    exact hne (by decide)
  · rintro ⟨-, hload, -⟩
    exact absurd hload (by decide)

/-- The same instruction after a carry of 0 accesses the address of R1. -/
theorem not_architectural :
    ¬∀ s : SingleArmisa, IsSingle s.instruction → s.Architectural := by
  intro hclaim
  obtain ⟨t, granted, htransfer, haccesses, -⟩ :=
    hclaim (executing 0xE7910042 0x80000000 false) ⟨by decide, by decide⟩ (granting 0)
  have haddress : ((executing 0xE7910042 0x80000000 false).transfer (granting 0)).map
      (fun result => result.1.accesses.map SingleAccess.address) = some [0] := by decide
  rw [htransfer, Option.map_some, haccesses] at haddress
  revert haddress
  decide

end SingleArmisa

end Prazor.Arm
