import Prazor.Arm.Encodings
import Prazor.Arm.SingleTransfer

/-!
# Loads and stores of doubles, halfwords and signed data

`DecodeArmInstruction` decodes them together with the exclusive transfers, which it knows by four
set bits.  An immediate offset has its high half in these bits, so a transfer with an offset from
0xF0 on is taken for an exclusive one: where the offset is added and the base register is not
written back, what is done is the exclusive transfer of a byte at the base register.
-/

namespace Prazor.Arm

namespace SingleArmisa

variable (port : DataPort) (s : SingleArmisa)

/-! ## Decoding -/

/-- The immediate or the register that is added to the base register. -/
def extraOffset : Option (BitVec 32) :=
  let instr := s.instruction
  if bit instr 22 then some ((bits4 instr 8 <<< 4) ||| bits4 instr 0)
  else s.reg? (bits4 instr 0).toNat

/-- The switch on the bits L, S and H. -/
def decodeIndexed : Option SingleArmisa := do
  let instr := s.instruction
  let kind := instr &&& 0x100060
  if kind = 0x20 then
    let offset ← s.extraOffset
    return { s with insDataOffset := offset, insSizeCode := 1 }
  else if kind = 0x40 then
    let offset ← s.extraOffset
    return { s with insDataOffset := offset, insL := true, insSizeCode := 3 }
  else if kind = 0x60 then
    let offset ← s.extraOffset
    return { s with insDataOffset := offset, insSizeCode := 3 }
  else if kind = 0x100020 then
    let offset ← s.extraOffset
    return { s with insDataOffset := offset, insL := true, insSizeCode := 1 }
  else if kind = 0x100040 then
    let offset ← s.extraOffset
    return { s with insDataOffset := offset, insL := true, insSigned := true, insSizeCode := 0 }
  else if kind = 0x100060 then
    let offset ← s.extraOffset
    return { s with insDataOffset := offset, insL := true, insSigned := true, insSizeCode := 1 }
  else
    guard s.insEXCF
    return { s with insL := bit instr 20, insSizeCode := 2 }

/-- The size and the offset, which the exclusive transfers have to themselves. -/
def decodeSize : Option SingleArmisa :=
  let instr := s.instruction
  if s.insEXCF ∧ bits instr 21 3 = 7 then
    some { s with
      insL := bit instr 20
      insDataOffset :=
        if bit instr 22 then (bits4 instr 8 <<< 4) ||| bits4 instr 0 else s.insDataOffset
      insSizeCode := 1 }
  else if s.insEXCF ∧ bits instr 21 3 = 6 then
    some { s with insL := bit instr 20, insSizeCode := 0 }
  else if s.insEXCF ∧ bits instr 21 3 = 5 then
    some { s with insL := bit instr 20, insSizeCode := 3 }
  else s.decodeIndexed

/-- What is assumed before the size is known. -/
def beforeSize : SingleArmisa :=
  { s with
    insU := bit s.instruction 23
    insW := bit s.instruction 21
    insDataOffset := 0
    insEXCF := decide (s.instruction &&& 0xF00 = 0xF00)
    insSigned := false
    insL := false
    insSizeCode := 2 }

/-- The address, and the registers that are transferred. -/
def formAddress (base : BitVec 32) : SingleArmisa :=
  let offset := if s.insU then s.insDataOffset else 0 - s.insDataOffset
  { s with
    insDataOffset := offset
    insDataAddress := if s.insP then base + offset else base
    insRd := (bits4 s.instruction 12).toNat
    insRm := if s.insEXCF then (bits4 s.instruction 0).toNat else s.insRm
    insSingleT := false }

/-- The branch of `DecodeArmInstruction` for what it calls synchronisation instructions. -/
def decodeSynchronisation : Option SingleArmisa := do
  let s ← s.beforeSize.decodeSize
  let base ← s.reg? (bits4 s.instruction 16).toNat
  return s.formAddress base

/-- The instructions that this branch is for, which have a condition. -/
def IsExtra (instr : BitVec 32) : Prop :=
  instr &&& 0xF0000000 ≠ 0xF0000000 ∧ instr &&& 0xE000090 = 0x90 ∧ instr &&& 0xF0000F0 ≠ 0x90

instance decidableIsExtra (instr : BitVec 32) : Decidable (IsExtra instr) :=
  inferInstanceAs (Decidable (_ ∧ _))

/-- No block transfer is going on. -/
def alone : SingleArmisa := { s with midMultiple2S := false }

/-- Such an instruction, from its decoding to the end of its access. -/
def transferExtra : Option (SingleArmisa × Bool) := do
  guard (IsExtra s.instruction)
  let s ← s.decodeArmFields.decodeSynchronisation
  s.alone.execMemOperandInstr port

/-! ## Transfers that leave the base register alone -/

/-- What a transfer is seen to do: the registers, the accesses, and whether it is granted. -/
def observed (outcome : SingleArmisa × Bool) : (ℕ → BitVec 32) × List SingleAccess × Bool :=
  (outcome.1.rawReg, outcome.1.accesses, outcome.2)

/-- The base register is not written back, or by an offset of zero. -/
def Settled (s : SingleArmisa) : Prop :=
  s.insDataOffset = 0 ∨ s.insW = false ∧ s.insP = true

/-- The two are about to make the same transfer. -/
structure SameTransfer (u v : SingleArmisa) : Prop where
  rawReg : u.rawReg = v.rawReg
  currentBank : u.currentBank = v.currentBank
  accesses : u.accesses = v.accesses
  insL : u.insL = v.insL
  insEXCF : u.insEXCF = v.insEXCF
  insSUser : u.insSUser = v.insSUser
  insSizeCode : u.insSizeCode = v.insSizeCode
  insSigned : u.insSigned = v.insSigned
  insRd : u.insRd = v.insRd
  insRm : v.insEXCF = true → u.insRm = v.insRm
  insDataAddress : u.insDataAddress = v.insDataAddress

variable {port s} {u v : SingleArmisa}

theorem Settled.writeBack (hu : u.Settled) :
    ∃ t, u.writeBack = some t ∧ t.rawReg = u.rawReg ∧ t.accesses = u.accesses := by
  by_cases hwrites : u.midMultiple2S = false ∧ (u.insW ∨ ¬u.insP)
  · have hoffset : u.insDataOffset = 0 := by
      rcases hu with hoffset | ⟨hW, hP⟩
      · exact hoffset
      · simp [hW, hP] at hwrites
    have hpost : u.postIndex.insDataOffset = 0 := by
      rw [postIndex]
      split_ifs <;> exact hoffset
    refine ⟨u.postIndex, ?_, ?_, ?_⟩
    · rw [SingleArmisa.writeBack, if_pos hwrites]
      simp only [hpost, ne_eq, not_true_eq_false, if_false]
    · rw [postIndex]
      split_ifs <;> rfl
    · rw [postIndex]
      split_ifs <;> rfl
  · refine ⟨u, ?_, rfl, rfl⟩
    rw [SingleArmisa.writeBack, if_neg hwrites]

theorem SameTransfer.setRegs (h : SameTransfer u v) (rawReg : ℕ → BitVec 32) :
    SameTransfer (u.setRegs rawReg) (v.setRegs rawReg) :=
  ⟨rfl, h.currentBank, h.accesses, h.insL, h.insEXCF, h.insSUser, h.insSizeCode, h.insSigned,
    h.insRd, h.insRm, h.insDataAddress⟩

theorem SameTransfer.record (h : SameTransfer u v) (access : SingleAccess) :
    SameTransfer (u.record access) (v.record access) :=
  ⟨h.rawReg, h.currentBank, congrArg (· ++ [access]) h.accesses, h.insL, h.insEXCF, h.insSUser,
    h.insSizeCode, h.insSigned, h.insRd, h.insRm, h.insDataAddress⟩

theorem SameTransfer.transferIndex (h : SameTransfer u v) (r : ℕ) :
    u.transferIndex r = v.transferIndex r := by
  rw [SingleArmisa.transferIndex, SingleArmisa.transferIndex, h.insSUser, h.currentBank]

theorem SameTransfer.reg? (h : SameTransfer u v) (r : ℕ) : u.reg? r = v.reg? r := by
  rw [Armisa.reg?, Armisa.reg?, h.rawReg, h.currentBank]

theorem SameTransfer.loadRegister (h : SameTransfer u v) (rd1 rd2 : ℕ) (data : BitVec 64) :
    (u.loadRegister rd1 rd2 data = none ∧ v.loadRegister rd1 rd2 data = none) ∨
      ∃ rawReg, u.loadRegister rd1 rd2 data = some (u.setRegs rawReg) ∧
        v.loadRegister rd1 rd2 data = some (v.setRegs rawReg) := by
  simp only [SingleArmisa.loadRegister, setRaw, h.rawReg, h.insSizeCode, h.insSigned]
  split
  · exact .inr ⟨_, rfl, rfl⟩
  · exact .inr ⟨_, rfl, rfl⟩
  · exact .inr ⟨_, rfl, rfl⟩
  · exact .inr ⟨_, rfl, rfl⟩
  · exact .inl ⟨rfl, rfl⟩

theorem SameTransfer.loadPc (h : SameTransfer u v) (rd1 : ℕ) :
    ∃ rawReg, u.loadPc rd1 = u.setRegs rawReg ∧ v.loadPc rd1 = v.setRegs rawReg := by
  simp only [SingleArmisa.loadPc, Armisa.cpsr, setRaw, h.rawReg]
  split_ifs
  · exact ⟨_, rfl, rfl⟩
  · exact ⟨_, rfl, by rw [h.rawReg]⟩
  · exact ⟨_, rfl, rfl⟩

/-- A transfer of data that have come. -/
theorem SameTransfer.takeData (h : SameTransfer u v) (hu : u.Settled) (hv : v.Settled)
    (rd1 rd2 : ℕ) (data : BitVec 64) :
    (u.takeData rd1 rd2 data).map observed = (v.takeData rd1 rd2 data).map observed := by
  rcases h.loadRegister rd1 rd2 data with ⟨hu', hv'⟩ | ⟨loaded, hu', hv'⟩
  · rw [SingleArmisa.takeData, SingleArmisa.takeData, hu', hv']
  · have hsame := h.setRegs loaded
    obtain ⟨jumped, hjumpU, hjumpV⟩ := hsame.loadPc rd1
    have hchoice : ∃ rawReg,
        (if (u.setRegs loaded).insRd = pcReg then (u.setRegs loaded).loadPc rd1
          else u.setRegs loaded) = u.setRegs rawReg ∧
        (if (v.setRegs loaded).insRd = pcReg then (v.setRegs loaded).loadPc rd1
          else v.setRegs loaded) = v.setRegs rawReg := by
      rw [hsame.insRd]
      by_cases hpc : (v.setRegs loaded).insRd = pcReg
      · rw [if_pos hpc, if_pos hpc, hjumpU, hjumpV]
        exact ⟨jumped, rfl, rfl⟩
      · rw [if_neg hpc, if_neg hpc]
        exact ⟨loaded, rfl, rfl⟩
    obtain ⟨rawReg, hchoiceU, hchoiceV⟩ := hchoice
    obtain ⟨tu, htu, hrawU, haccU⟩ := Settled.writeBack (u := u.setRegs rawReg) hu
    obtain ⟨tv, htv, hrawV, haccV⟩ := Settled.writeBack (u := v.setRegs rawReg) hv
    simp only [SingleArmisa.takeData, hu', hv', Option.bind_eq_bind, Option.bind_some, hchoiceU,
      hchoiceV, htu, htv, Option.map_some, observed, hrawU, hrawV, haccU, haccV]
    rw [(h.setRegs rawReg).accesses]
    rfl

/-- A transfer that is refused. -/
theorem SameTransfer.refused (h : SameTransfer u v) :
    (some (u, false)).map observed = (some (v, false)).map observed := by
  simp only [Option.map_some, observed, h.rawReg, h.accesses]

/-- The end of a store that is granted. -/
theorem SameTransfer.stored (h : SameTransfer u v) (hu : u.Settled) (hv : v.Settled) :
    (u.writeBack.bind fun t => some (t, true)).map observed =
      (v.writeBack.bind fun t => some (t, true)).map observed := by
  obtain ⟨tu, htu, hrawU, haccU⟩ := hu.writeBack
  obtain ⟨tv, htv, hrawV, haccV⟩ := hv.writeBack
  rw [htu, htv]
  simp only [Option.bind_some, Option.map_some, observed, hrawU, hrawV, haccU, haccV, h.rawReg,
    h.accesses]

theorem SameTransfer.genericLoad (h : SameTransfer u v) (hu : u.Settled) (hv : v.Settled) :
    (u.genericLoad port).map observed = (v.genericLoad port).map observed := by
  simp only [SingleArmisa.genericLoad, h.transferIndex, h.insRd, h.insDataAddress, h.insSizeCode]
  cases v.transferIndex v.insRd with
  | none => rfl
  | some rd1 =>
      cases v.transferIndex (v.insRd + 1) with
      | none => rfl
      | some rd2 =>
          have hsame := h.record ⟨true, v.insDataAddress, v.insSizeCode⟩
          simp only [Option.bind_eq_bind, Option.bind_some, hsame.insDataAddress,
            hsame.insSizeCode, hsame.insEXCF]
          split
          · exact hsame.refused
          · exact hsame.takeData hu hv rd1 rd2 _

theorem SameTransfer.takeResult (h : SameTransfer u v) (value high : BitVec 32) :
    SameTransfer (u.takeResult value high) (v.takeResult value high) :=
  ⟨h.rawReg, h.currentBank, h.accesses, h.insL, h.insEXCF, h.insSUser, h.insSizeCode,
    h.insSigned, h.insRd, h.insRm, h.insDataAddress⟩

theorem SameTransfer.genericStore (h : SameTransfer u v) (hu : u.Settled) (hv : v.Settled) :
    (u.genericStore port).map observed = (v.genericStore port).map observed := by
  simp only [SingleArmisa.genericStore, h.transferIndex, h.reg?, h.insRd, h.insDataAddress,
    h.insSizeCode, h.insSUser, h.rawReg]
  cases (v.transferIndex v.insRd).map v.rawReg with
  | none => rfl
  | some value =>
      have hwritten (high : BitVec 32) :=
        (h.takeResult value high).record ⟨false, v.insDataAddress, v.insSizeCode⟩
      simp only [Option.bind_eq_bind, Option.bind_some, fun high => (hwritten high).insDataAddress,
        fun high => (hwritten high).insSizeCode]
      split
      · cases (guard (v.insSUser = false) : Option Unit) with
        | none => rfl
        | some _ =>
            cases v.reg? (v.insRd + 1) with
            | none => rfl
            | some high =>
                simp only [Option.bind_some]
                split
                · exact (hwritten high).stored hu hv
                · exact (hwritten high).refused
      · split
        · exact (hwritten 0).stored hu hv
        · exact (hwritten 0).refused

/-- The end of an exclusive store that is granted. -/
theorem SameTransfer.outcome (h : SameTransfer u v) (hu : u.Settled) (hv : v.Settled)
    (value : BitVec 32) :
    ((u.assignReg u.insRd value).bind fun t => t.writeBack.bind fun t => some (t, true)).map
        observed =
      ((v.assignReg v.insRd value).bind fun t => t.writeBack.bind fun t => some (t, true)).map
        observed := by
  rw [SingleArmisa.assignReg, SingleArmisa.assignReg, h.currentBank, h.insRd]
  cases Armisa.rawIndex v.currentBank v.insRd with
  | none => rfl
  | some i =>
      simp only [Option.map_some, Option.bind_some]
      rw [setRaw, setRaw, h.rawReg]
      exact (h.setRegs _).stored hu hv

theorem SameTransfer.storeExclusive (h : SameTransfer u v) (hu : u.Settled) (hv : v.Settled)
    (hE : v.insEXCF = true) :
    (u.storeExclusive port).map observed = (v.storeExclusive port).map observed := by
  simp only [SingleArmisa.storeExclusive, h.reg?, h.insRm hE, h.insDataAddress, h.insSizeCode,
    h.insSUser]
  cases (guard (v.insSUser = false) : Option Unit) with
  | none => rfl
  | some _ =>
      cases v.reg? v.insRm with
      | none => rfl
      | some value =>
          have hwritten (high : BitVec 32) :=
            (h.takeResult value high).record ⟨false, v.insDataAddress, v.insSizeCode⟩
          simp only [Option.bind_eq_bind, Option.bind_some,
            fun high => (hwritten high).insDataAddress, fun high => (hwritten high).insSizeCode]
          split
          · cases v.reg? (v.insRm + 1) with
            | none => rfl
            | some high =>
                simp only [Option.bind_some]
                split
                · exact (hwritten high).refused
                · exact (hwritten high).outcome hu hv _
          · split
            · exact (hwritten 0).refused
            · exact (hwritten 0).outcome hu hv _

/-- The executor sees no difference. -/
theorem SameTransfer.exec (port : DataPort) (h : SameTransfer u v) (hu : u.Settled)
    (hv : v.Settled) :
    (u.execMemOperandInstr port).map observed = (v.execMemOperandInstr port).map observed := by
  rw [execMemOperandInstr, execMemOperandInstr, h.insL, h.insEXCF]
  split_ifs with hL hE
  · exact h.genericLoad hu hv
  · exact h.storeExclusive hu hv hE
  · exact h.genericStore hu hv

theorem exists_takeData (hu : u.Settled) (hsize : u.insSizeCode < 3) (rd1 rd2 : ℕ)
    (data : BitVec 64) : ∃ result, u.takeData rd1 rd2 data = some result := by
  have hload : ∃ rawReg, u.loadRegister rd1 rd2 data = some (u.setRegs rawReg) := by
    obtain ⟨size, hvalue⟩ : ∃ size, u.insSizeCode = size := ⟨_, rfl⟩
    rw [hvalue] at hsize
    rw [loadRegister, hvalue]
    interval_cases size
    · exact ⟨_, rfl⟩
    · exact ⟨_, rfl⟩
    · exact ⟨_, rfl⟩
  obtain ⟨loaded, hloaded⟩ := hload
  have hjump : ∃ rawReg, (if (u.setRegs loaded).insRd = pcReg then (u.setRegs loaded).loadPc rd1
      else u.setRegs loaded) = u.setRegs rawReg := by
    split_ifs
    · simp only [loadPc, setRaw]
      split_ifs <;> exact ⟨_, rfl⟩
    · exact ⟨loaded, rfl⟩
  obtain ⟨rawReg, hraw⟩ := hjump
  obtain ⟨t, ht, -⟩ := Settled.writeBack (u := u.setRegs rawReg) hu
  refine ⟨(t, true), ?_⟩
  simp only [takeData, hloaded, Option.bind_eq_bind, Option.bind_some, hraw, ht]

theorem exists_stored (hu : u.Settled) :
    ∃ result, (u.writeBack.bind fun t => some (t, true)) = some result := by
  obtain ⟨t, ht, -⟩ := hu.writeBack
  rw [ht]
  exact ⟨(t, true), rfl⟩

theorem exists_outcome (hu : u.Settled) (hrd : u.insRd < 16) (value : BitVec 32) :
    ∃ result, ((u.assignReg u.insRd value).bind fun t =>
      t.writeBack.bind fun t => some (t, true)) = some result := by
  obtain ⟨i, hi⟩ := Armisa.rawIndex_of_lt u.currentBank (Nat.lt_succ_of_lt hrd)
  rw [assignReg, hi]
  exact exists_stored (u := u.setRaw i value) hu

/-- The executor gets to an end. -/
theorem exists_exec (port : DataPort) (hu : u.Settled) (hrd : u.insRd < 16)
    (hrm : u.insEXCF = true → u.insRm < 16) (huser : u.insSUser = false)
    (hsize : u.insSizeCode < 3) : ∃ result, u.execMemOperandInstr port = some result := by
  obtain ⟨i, hi⟩ := Armisa.rawIndex_of_lt u.currentBank (Nat.lt_succ_of_lt hrd)
  obtain ⟨j, hj⟩ := Armisa.rawIndex_of_lt u.currentBank (Nat.succ_lt_succ hrd)
  have hindex : ∀ r, u.transferIndex r = Armisa.rawIndex u.currentBank r := by
    intro r
    rw [transferIndex, huser]
    rfl
  have hsingle : u.insSizeCode ≠ 3 := by omega
  have hguard : (guard (u.insSUser = false) : Option Unit) = some () := if_pos huser
  rw [execMemOperandInstr]
  split_ifs with hL hE
  · simp only [genericLoad, hindex, hi, hj, Option.bind_eq_bind, Option.bind_some]
    split
    · exact ⟨_, rfl⟩
    · exact exists_takeData (u := u.record _) hu hsize i j _
  · simp only [storeExclusive, hguard, u.reg?_of_lt (Nat.lt_succ_of_lt (hrm hE)), if_neg hsingle,
      Option.bind_eq_bind, Option.bind_some]
    split
    · exact ⟨_, rfl⟩
    · exact exists_outcome (u := (u.takeResult _ 0).record _) hu hrd _
  · simp only [genericStore, hindex, hi, if_neg hsingle, Option.map_some, Option.bind_eq_bind,
      Option.bind_some]
    split
    · exact exists_stored (u := (u.takeResult _ 0).record _) hu
    · exact ⟨_, rfl⟩

/-! ## Offsets that are taken for exclusive transfers -/

/-- The same registers, about to run an instruction of the 32-bit set. -/
def asArm (s : SingleArmisa) (word : BitVec 32) : SingleArmisa :=
  { s with toArmisa := s.toArmisa.asArm word }

/-- The exclusive transfer of a byte with the same registers: `LDREXB` or `STREXB`. -/
def exclusiveByte (instr : BitVec 32) : BitVec 32 := (instr &&& 0xF01FF00F) ||| 0x01C00F90

theorem exclusiveByte_pattern (instr : BitVec 32) :
    exclusiveByte instr &&& 0x0FE00FF0 = 0x01C00F90 := by
  rw [exclusiveByte, BitVec.and_or_distrib_right, BitVec.and_assoc]
  simp

theorem exclusiveByte_kept (instr : BitVec 32) :
    exclusiveByte instr &&& 0xF01FF00F = instr &&& 0xF01FF00F := by
  rw [exclusiveByte, BitVec.and_or_distrib_right, BitVec.and_assoc]
  simp

/-- A field that a mask keeps. -/
theorem bits4_of_kept {x y mask : BitVec 32} (hsame : x &&& mask = y &&& mask) {bitno : ℕ}
    (hmask : bits4 mask bitno = 15) : bits4 x bitno = bits4 y bitno := by
  have hkeep : ∀ z : BitVec 32, bits4 (z &&& mask) bitno = bits4 z bitno := by
    intro z
    rw [bits4] at hmask
    rw [bits4, bits4, BitVec.ushiftRight_and_distrib, BitVec.and_assoc, hmask]
  rw [← hkeep x, hsame, hkeep y]

theorem decodeSynchronisation_of_size {v : SingleArmisa}
    (hsize : s.beforeSize.decodeSize = some v) :
    s.decodeSynchronisation = some (v.formAddress (v.reg (bits4 v.instruction 16).toNat)) := by
  rw [decodeSynchronisation, hsize]
  simp only [Option.bind_eq_bind, Option.bind_some, Armisa.reg?_bits4]
  rfl

theorem insDataAddress_formAddress {v : SingleArmisa} (hP : v.insP = true) (hU : v.insU = true)
    (base : BitVec 32) : (v.formAddress base).insDataAddress = base + v.insDataOffset := by
  simp only [formAddress, hP, hU, if_true]

/-- Without an offset the address is that of the base register. -/
theorem formAddress_zero {v : SingleArmisa} (hE : v.insEXCF = true) (hoffset : v.insDataOffset = 0)
    (base : BitVec 32) :
    v.formAddress base = { v with
      insDataOffset := 0
      insDataAddress := base
      insRd := (bits4 v.instruction 12).toNat
      insRm := (bits4 v.instruction 0).toNat
      insSingleT := false } := by
  have hzero : ∀ up : Bool, (if up then 0 else 0 - 0 : BitVec 32) = 0 := by decide
  have hbase : base + 0 = base := BitVec.add_zero base
  rw [formAddress, hoffset, hzero, hbase, ite_self, if_pos hE]

/-- The exclusive transfer of a byte, as it is decoded. -/
def decodedByte (s : SingleArmisa) : SingleArmisa :=
  { s.decodeArmFields.beforeSize with
    insL := bit s.instruction 20
    insDataOffset := 0
    insSizeCode := 0
    insDataAddress := s.reg (bits4 s.instruction 16).toNat
    insRd := (bits4 s.instruction 12).toNat
    insRm := (bits4 s.instruction 0).toNat
    insSingleT := false }

theorem decodeSynchronisation_byte (s : SingleArmisa) (hhigh : s.instruction &&& 0xF00 = 0xF00)
    (hadd : bits s.instruction 21 3 = 6) :
    s.decodeArmFields.decodeSynchronisation = some s.decodedByte := by
  have hE : decide (s.instruction &&& 0xF00 = 0xF00) = true := decide_eq_true hhigh
  have hsize : s.decodeArmFields.beforeSize.decodeSize = some { s.decodeArmFields.beforeSize with
      insL := bit s.instruction 20
      insSizeCode := 0 } := by
    rw [decodeSize, if_neg, if_pos]
    · rfl
    · exact ⟨hE, hadd⟩
    · intro hseven
      rw [show bits s.decodeArmFields.beforeSize.instruction 21 3 = 6 from hadd] at hseven
      exact absurd hseven.2 (by decide)
  rw [decodeSynchronisation_of_size hsize, formAddress_zero hE rfl]
  rfl

theorem transferExtra_byte (s : SingleArmisa) (port : DataPort) (hextra : IsExtra s.instruction)
    (hhigh : s.instruction &&& 0xF00 = 0xF00) (hadd : bits s.instruction 21 3 = 6) :
    s.transferExtra port = s.decodedByte.alone.execMemOperandInstr port := by
  simp only [transferExtra, guard, if_pos hextra, s.decodeSynchronisation_byte hhigh hadd,
    Option.bind_eq_bind]
  rfl

/-- Only these fields of the instruction decide an exclusive transfer of a byte. -/
theorem sameTransfer_decodedByte (s : SingleArmisa) {instr other : BitVec 32}
    (hkept : instr &&& 0xF01FF00F = other &&& 0xF01FF00F) (hhigh : instr &&& 0xF00 = 0xF00)
    (hhigh' : other &&& 0xF00 = 0xF00) :
    SameTransfer (s.asArm instr).decodedByte.alone (s.asArm other).decodedByte.alone where
  rawReg := rfl
  currentBank := rfl
  accesses := rfl
  insL := by
    have hload : bit (instr &&& 0xF01FF00F) 20 = bit (other &&& 0xF01FF00F) 20 := by rw [hkept]
    have hkeeps : ∀ x : BitVec 32, bit (x &&& 0xF01FF00F) 20 = bit x 20 := by
      intro x
      simp [bit]
    rw [hkeeps, hkeeps] at hload
    exact hload
  insEXCF := (decide_eq_true hhigh).trans (decide_eq_true hhigh').symm
  insSUser := rfl
  insSizeCode := rfl
  insSigned := rfl
  insRd := congrArg BitVec.toNat (bits4_of_kept hkept (by decide))
  insRm := fun _ => congrArg BitVec.toNat (bits4_of_kept hkept (by decide))
  insDataAddress := congrArg (fun n : BitVec 32 => s.reg n.toNat)
    (bits4_of_kept hkept (by decide) : bits4 instr 16 = bits4 other 16)

/-- A transfer of a double, a halfword or signed data with an immediate offset from 0xF0 on that
is added, and no write-back before the access, is the exclusive transfer of a byte at the base
register. -/
theorem transferExtra_exclusive (s : SingleArmisa) (port : DataPort) (instr : BitVec 32)
    (hextra : IsExtra instr) (hhigh : instr &&& 0xF00 = 0xF00) (hadd : bits instr 21 3 = 6) :
    ∃ outcome, ((s.asArm instr).transferExtra port).map observed = some outcome ∧
      ((s.asArm (exclusiveByte instr)).transferExtra port).map observed = some outcome := by
  have hpattern := exclusiveByte_pattern instr
  have hextra' : IsExtra (exclusiveByte instr) := by
    refine ⟨?_, and_of_pattern hpattern (by decide), ?_⟩
    · rw [and_of_pattern (exclusiveByte_kept instr) (by decide), BitVec.and_assoc]
      exact hextra.1
    · rw [and_of_pattern hpattern (by decide)]
      decide
  have hhigh' : exclusiveByte instr &&& 0xF00 = 0xF00 := and_of_pattern hpattern (by decide)
  have hadd' : bits (exclusiveByte instr) 21 3 = 6 := by
    rw [bits_of_pattern hpattern (by decide) (by decide)]
    decide
  have hsame := (s.sameTransfer_decodedByte (exclusiveByte_kept instr) hhigh' hhigh).exec
    port (.inl rfl) (.inl rfl)
  have htransfer := (s.asArm instr).transferExtra_byte port hextra hhigh hadd
  have htransfer' := (s.asArm (exclusiveByte instr)).transferExtra_byte port hextra' hhigh' hadd'
  obtain ⟨result, hresult⟩ := exists_exec (u := (s.asArm instr).decodedByte.alone) port
    (.inl rfl) (Nat.lt_succ_of_le (Armisa.bits4_le instr 12))
    (fun _ => Nat.lt_succ_of_le (Armisa.bits4_le instr 0)) rfl (show 0 < 3 by decide)
  refine ⟨observed result, ?_, ?_⟩
  · rw [htransfer, hresult, Option.map_some]
  · rw [htransfer', hsame, hresult, Option.map_some]

/-- `LDRH R0, [R2, #0xF4]` is taken for `LDREXB R0, [R2]`: with R2 = 0x1000 it reads the byte
0x5A there. -/
theorem transferExtra_exclusive_ldrh :
    exclusiveByte 0xE1D20FB4 = 0xE1D20F94 ∧
      ∃ outcome, (((executing 0 0x1000 false).asArm 0xE1D20FB4).transferExtra
          (granting 0x5A)).map observed = some outcome ∧
        (((executing 0 0x1000 false).asArm (exclusiveByte 0xE1D20FB4)).transferExtra
          (granting 0x5A)).map observed = some outcome ∧
        outcome.1 0 = 0x5A := by
  obtain ⟨outcome, hextra, hexclusive⟩ := transferExtra_exclusive (executing 0 0x1000 false)
    (granting 0x5A) 0xE1D20FB4 ⟨by decide, by decide, by decide⟩ (by decide) (by decide)
  refine ⟨by decide, outcome, hextra, hexclusive, ?_⟩
  have hread : (((executing 0 0x1000 false).asArm 0xE1D20FB4).transferExtra
      (granting 0x5A)).map (fun result => (observed result).1 0) = some 0x5A := by
    decide
  obtain ⟨result, hresult, rfl⟩ := Option.map_eq_some_iff.mp hextra
  rw [hresult] at hread
  exact Option.some.inj hread

end SingleArmisa

end Prazor.Arm
