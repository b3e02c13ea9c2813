import Prazor.Core.Fields
import Prazor.Core.WordBits
import Prazor.Arm.Branches

/-!
# Branch targets

Each form of a branch assembles the architecture's offset from its fields, and the
corrections of the PC that go with its form and length make `ExecuteBL` store the PC of the
architecture's target.  One clock then leaves the interpreter where the next fetch is from
that target.
-/

namespace Prazor.Arm

namespace Armisa

variable {s s' : Armisa} {bank : ArmBank} {r i : ℕ} {v : BitVec 32}

/-! ## The PC -/

/-- No other register is kept where the PC is. -/
theorem rawIndex_ne_pc (hne : r ≠ pcReg) (hr : rawIndex bank r = some i) : i ≠ pcReg := by
  rintro rfl
  have hpc : rawIndex bank pcReg = some pcReg := by
    cases bank <;> rfl
  exact hne (rawIndex_injective hr hpc)

@[simp]
theorem pc_setPc (s : Armisa) (v : BitVec 32) : (s.setPc v).pc = v := by
  simp only [pc, setPc, Function.update_self]

@[simp]
theorem cpsr_setPc (s : Armisa) (v : BitVec 32) : (s.setPc v).cpsr = s.cpsr := rfl

@[simp]
theorem pc_setCpsr (s : Armisa) (v : BitVec 32) : (s.setCpsr v).pc = s.pc := rfl

theorem reg?_setPc (s : Armisa) (v : BitVec 32) (hne : r ≠ pcReg) :
    (s.setPc v).reg? r = s.reg? r := by
  simp only [reg?, setPc]
  cases hr : rawIndex s.currentBank r with
  | none => rfl
  | some i =>
      rw [Option.map_some, Option.map_some, Function.update_of_ne (rawIndex_ne_pc hne hr)]

@[simp]
theorem reg?_pc (s : Armisa) : s.reg? pcReg = some s.pc := by
  rw [reg?, show rawIndex s.currentBank pcReg = some pcReg by cases s.currentBank <;> rfl]
  rfl

end Armisa

namespace Branches

open Fields

/-! ## Fields -/

theorem bits_eq_extractLsb' (a : BitVec 32) (bitno : ℕ) {width : ℕ} (hwidth : width < 32) :
    bits a bitno width = (a.extractLsb' bitno width).setWidth 32 := by
  have hpow : 2 ^ width < 2 ^ 32 := Nat.pow_lt_pow_right (by omega) hwidth
  have hmask : ((1 : BitVec 32) <<< width - 1).toNat = 2 ^ width - 1 := by
    interval_cases width <;> rfl
  apply BitVec.eq_of_toNat_eq
  rw [bits, if_pos hwidth, BitVec.toNat_and, hmask, Nat.and_two_pow_sub_one_eq_mod,
    BitVec.toNat_setWidth, BitVec.extractLsb'_toNat, BitVec.toNat_ushiftRight,
    Nat.mod_eq_of_lt (Nat.lt_trans (Nat.mod_lt _ (Nat.two_pow_pos width)) hpow)]

/-- The fields of a word that is made of fields. -/
theorem bits_setWidth {n : ℕ} (x : BitVec n) {bitno width : ℕ} (hwidth : width < 32)
    (hfit : bitno + width ≤ 32) :
    bits (x.setWidth 32) bitno width = (x.extractLsb' bitno width).setWidth 32 := by
  rw [bits_eq_extractLsb' _ _ hwidth, BitVec.extractLsb'_setWidth_of_le hfit]

theorem bit_setWidth {n : ℕ} (x : BitVec n) {bitno : ℕ} (hfit : bitno < 32) :
    bit (x.setWidth 32) bitno = x.getLsbD bitno := by
  rw [bit, BitVec.getLsbD_setWidth, decide_eq_true hfit, Bool.true_and]

theorem bits_one (a : BitVec 32) (bitno : ℕ) :
    bits a bitno 1 = (BitVec.ofBool (bit a bitno)).setWidth 32 := by
  have hfield : a.extractLsb' bitno 1 = BitVec.ofBool (bit a bitno) := by
    apply BitVec.eq_of_getLsbD_eq
    intro i hi
    rw [BitVec.getLsbD_extractLsb', BitVec.getLsbD_ofBool, Nat.lt_one_iff.mp hi]
    rfl
  rw [bits_eq_extractLsb' _ _ (show 1 < 32 by decide), hfield]

theorem bits_one_ne_zero_iff (a : BitVec 32) (bitno : ℕ) :
    bits a bitno 1 ≠ 0 ↔ bit a bitno = true := by
  rw [bits_one]
  cases bit a bitno <;> decide

/-- A word does not match a pattern that has another bit. -/
theorem and_ne_of_bit {a mask value : BitVec 32} (i : ℕ)
    (hbit : (bit a i && bit mask i) ≠ bit value i) : a &&& mask ≠ value := by
  rintro rfl
  exact hbit (BitVec.getLsbD_and).symm

/-- What a mask leaves is the field that it covers. -/
theorem and_field (a : BitVec 32) (bitno : ℕ) {width : ℕ} (hwidth : width < 32) :
    a &&& (((1 : BitVec 32) <<< width - 1) <<< bitno) = bits a bitno width <<< bitno := by
  rw [bits, if_pos hwidth]
  apply BitVec.eq_of_getLsbD_eq
  intro i hi
  by_cases hlow : i < bitno
  · simp [hlow]
  · simp [hi, hlow, show bitno + (i - bitno) = i by omega]

/-! ## Conditions -/

variable {μ : Type} {port : FetchPort μ} {others : OtherInstructions μ} {s s' : Armisa}
  {running : RunningArmisa μ}

theorem conditionPassed_congr (hcpsr : s'.cpsr = s.cpsr) (cond : BitVec 4) :
    conditionPassed s' cond = conditionPassed s cond := by
  simp only [conditionPassed, Armisa.zFlag, Armisa.cFlag, Armisa.nFlag, Armisa.vFlag, hcpsr]

/-- The condition 14 always holds. -/
theorem conditionPassed_always (s : Armisa) : conditionPassed s 14 = true := rfl

/-- `DecodeCcode` finds whether a condition holds. -/
theorem decodeCcode_spec (running : RunningArmisa μ) {cond : BitVec 4} (hcond : cond ≠ 15) :
    running.decodeCcode cond.toNat =
      some { running with insCcodeTest := conditionPassed running.toArmisa cond } := by
  obtain ⟨⟨n, hn⟩⟩ := cond
  interval_cases n
  case «11» =>
    simp [RunningArmisa.decodeCcode, conditionPassed]
    rfl
  case «12» =>
    simp [RunningArmisa.decodeCcode, conditionPassed]
    exact Bool.and_comm _ _
  case «13» =>
    simp [RunningArmisa.decodeCcode, conditionPassed]
    exact Bool.or_comm _ _
  case «15» => exact absurd rfl hcond
  all_goals simp [RunningArmisa.decodeCcode, conditionPassed]

/-! ## The end of a branch -/

/-- The interpreter at the decoding of an instruction: all registers but the PC are those of
the state before. -/
structure AtDecode (s : Armisa) (pcv : BitVec 32) (running : RunningArmisa μ) : Prop where
  pc : running.pc = pcv
  cpsr : running.cpsr = s.cpsr
  regs : ∀ r, r ≠ pcReg → running.reg? r = s.reg? r

/-- The interpreter goes on as the architecture says. -/
def Goes (s : Armisa) (result : Option (RunningArmisa μ)) (effect : Effect) : Prop :=
  ∃ final, result = some final ∧ final.pc = effect.address + armPcCorrection ∧
    bit final.cpsr 5 = effect.thumb ∧
    final.reg? lrReg = effect.link.or (s.reg? lrReg)

/-- `ExecuteBL` goes to its destination, in the instruction set of the CPSR. -/
theorem executeBL_goes (running : RunningArmisa μ) {t : Bool} {link : Option (BitVec 32)}
    (hlr : running.reg? lrReg = s.reg? lrReg) (hthumb : bit running.cpsr 5 = t)
    (hlink : (if running.insL then some running.linkAddress else none) = link)
    (dest : BitVec 32) : Goes s (running.executeBL dest) ⟨dest, t, link⟩ := by
  subst hthumb hlink
  cases hlink : running.insL with
  | false =>
      refine ⟨running.writePc (dest + armPcCorrection), ?_, Armisa.pc_setPc _ _, rfl, ?_⟩
      · simp [RunningArmisa.executeBL, hlink]
      · exact (Armisa.reg?_setPc _ _ (by decide)).trans hlr
  | true =>
      obtain ⟨core, hcore⟩ :=
        running.setReg?_of_lt (show lrReg < 17 by decide) running.linkAddress
      have hcpsr : core.cpsr = running.cpsr := Armisa.cpsr_setReg? hcore (by decide)
      refine ⟨{ running with toArmisa := core.setPc (dest + armPcCorrection) }, ?_,
        Armisa.pc_setPc _ _, ?_, ?_⟩
      · simp [RunningArmisa.executeBL, RunningArmisa.saveLink, hlink, hcore,
          RunningArmisa.writePc]
      · exact congrArg (bit · 5) hcpsr
      · calc (core.setPc (dest + armPcCorrection)).reg? lrReg
            = core.reg? lrReg := Armisa.reg?_setPc _ _ (by decide)
          _ = some running.linkAddress := by
              rw [Armisa.reg?_setReg? hcore, if_pos rfl]

/-- The PC is behind the stored one. -/
theorem goes_on {pcv : BitVec 32} (hpc : running.pc = pcv + armPcCorrection)
    (hcpsr : running.cpsr = s.cpsr) (hlr : running.reg? lrReg = s.reg? lrReg) :
    Goes s (some running) ⟨pcv, bit s.cpsr 5, none⟩ :=
  ⟨running, rfl, hpc, congrArg (bit · 5) hcpsr, hlr⟩

/-! ## The ARM branches -/

theorem sub_armPcCorrection (address : BitVec 32) :
    address + 8 - armPcCorrection = address + 4 := by
  simp only [armPcCorrection]
  bv_omega

variable {address : BitVec 32}

theorem linkAddress_arm (hpc : running.pc = address + 8) (hmode : running.thumbMode = false) :
    running.linkAddress = address + 4 := by
  rw [RunningArmisa.linkAddress, hmode, if_neg Bool.false_ne_true, hpc, sub_armPcCorrection]

/-- The offset of B and BL. -/
theorem armBranch_goes {cond : BitVec 4} {l : Bool} {imm24 : BitVec 24}
    (hdecode : AtDecode s (address + 8) running) (hmode : running.thumbMode = false)
    (hinstr : running.instruction = (Branch.armBranch cond l imm24).first) :
    Goes s running.armBranch
      ⟨address + 8 + (imm24 ++ 0#2).signExtend 32, bit s.cpsr 5,
        if l then some (address + 4) else none⟩ := by
  have hfield : bits running.instruction 0 24 = imm24.setWidth 32 := by
    rw [hinstr, Branch.first]
    simp (disch := decide) only [bits_setWidth, BitVec.extractLsb'_append_eq_of_add_le,
      BitVec.extractLsb'_eq_self]
  have hsign : bit running.instruction 23 = imm24.msb := by
    rw [hinstr, Branch.first, BitVec.msb_eq_getLsbD_last]
    simp (disch := decide) only [bit_setWidth, getLsbD_append_low]
  have hlink : bit running.instruction 24 = l := by
    rw [hinstr, Branch.first]
    simp (disch := decide) only [bit_setWidth, getLsbD_append_low, getLsbD_append_high]
    cases l <;> rfl
  have hoffset : (if bit running.instruction 23 = true then
      bits running.instruction 0 24 ||| 0xFF000000 else bits running.instruction 0 24) <<< 2 =
        (imm24 ++ 0#2).signExtend 32 := by
    rw [hfield, hsign, ← shiftLeft_signExtend imm24 (by decide), ← or_shiftLeft_allOnes]
    rfl
  simp only [RunningArmisa.armBranch, hoffset, hlink]
  rw [hdecode.pc, ← linkAddress_arm hdecode.pc hmode]
  exact executeBL_goes { running with insL := l } (hdecode.regs lrReg (by decide))
    (congrArg (bit · 5) hdecode.cpsr) rfl _

/-- A T bit that is written. -/
theorem bit_thumb_set (word : BitVec 32) : bit (word ||| (1 : BitVec 32) <<< 5) 5 = true := by
  rw [bit, WordBits.getLsbD_set word (by decide), decide_eq_true rfl, Bool.or_true]

theorem bit_thumb_clear (word : BitVec 32) :
    bit (word &&& ~~~((1 : BitVec 32) <<< 5)) 5 = false := by
  rw [bit, WordBits.getLsbD_clear word (by decide), decide_eq_true rfl, Bool.not_true,
    Bool.and_false]

theorem bit_thumb_write (word : BitVec 32) (t : Bool) :
    bit ((word &&& ~~~((1 : BitVec 32) <<< 5)) ||| (BitVec.ofBool t).setWidth 32 <<< 5) 5 = t := by
  rw [bit, BitVec.getLsbD_or]
  change (bit _ 5 || _) = t
  rw [bit_thumb_clear, Bool.false_or]
  cases t <;> rfl

/-- BLX changes to the Thumb set after the branch. -/
theorem armBlx_goes {l : Bool} {imm24 : BitVec 24}
    (hdecode : AtDecode s (address + 8) running) (hmode : running.thumbMode = false)
    (hinstr : running.instruction = (Branch.armBranch 15 l imm24).first) :
    Goes s running.armBlx
      ⟨address + 8 + (imm24 ++ BitVec.ofBool l ++ 0#1).signExtend 32, true,
        some (address + 4)⟩ := by
  have hfield : bits running.instruction 0 24 = imm24.setWidth 32 := by
    rw [hinstr, Branch.first]
    simp (disch := decide) only [bits_setWidth, BitVec.extractLsb'_append_eq_of_add_le,
      BitVec.extractLsb'_eq_self]
  have hsign : bit running.instruction 23 = imm24.msb := by
    rw [hinstr, Branch.first, BitVec.msb_eq_getLsbD_last]
    simp (disch := decide) only [bit_setWidth, getLsbD_append_low]
  have hhalf : bits running.instruction 24 1 = (BitVec.ofBool l).setWidth 32 := by
    rw [hinstr, Branch.first]
    simp (disch := decide) only [bits_setWidth, BitVec.extractLsb'_append_eq_of_add_le,
      BitVec.extractLsb'_append_eq_of_le, Nat.reduceSub, BitVec.extractLsb'_eq_self]
  have hoffset : ((if bit running.instruction 23 = true then
      bits running.instruction 0 24 ||| 0xFF000000 else bits running.instruction 0 24) <<< 2) |||
        (bits running.instruction 24 1 <<< 1) =
        (imm24 ++ BitVec.ofBool l ++ 0#1).signExtend 32 := by
    rw [hfield, hsign, hhalf, ← shiftLeft_signExtend (imm24 ++ BitVec.ofBool l) (by decide),
      ← shiftLeft_signExtend_or imm24 (BitVec.ofBool l) (by decide), ← or_shiftLeft_allOnes,
      BitVec.shiftLeft_or_distrib, ← BitVec.shiftLeft_add]
    rfl
  obtain ⟨final, hfinal, hpc, -, hlr⟩ :=
    executeBL_goes { running with insL := true }
      (hdecode.regs lrReg (by decide)) rfl rfl
      (running.pc + (imm24 ++ BitVec.ofBool l ++ 0#1).signExtend 32)
  have hlink : ({ running with insL := true } : RunningArmisa μ).linkAddress = address + 4 :=
    linkAddress_arm hdecode.pc hmode
  refine ⟨final.writeCpsr (final.cpsr ||| (1 : BitVec 32) <<< 5), ?_, ?_, ?_, ?_⟩
  · simp only [RunningArmisa.armBlx, hoffset, hfinal, Option.bind_eq_bind, Option.bind_some]
  · exact hpc.trans (by rw [hdecode.pc])
  · exact (congrArg (bit · 5) (Armisa.cpsr_setCpsr _ _)).trans (bit_thumb_set final.cpsr)
  · refine (Armisa.reg?_setCpsr _ _ (by decide)).trans (hlr.trans ?_)
    rw [hlink]
    rfl

/-- A register that an instruction reads. -/
theorem AtDecode.register {pcv : BitVec 32} (hdecode : AtDecode s pcv running) (rm : BitVec 4) :
    running.reg? rm.toNat = some (if rm = 15 then pcv else s.reg rm.toNat) := by
  by_cases hpc : rm = 15
  · rw [if_pos hpc, hpc]
    exact (Armisa.reg?_pc running.toArmisa).trans (congrArg some hdecode.pc)
  · have hne : rm.toNat ≠ pcReg := fun hsame => hpc (BitVec.eq_of_toNat_eq hsame)
    rw [if_neg hpc, hdecode.regs _ hne]
    exact Armisa.reg?_of_lt s (Nat.lt_succ_of_lt rm.isLt)

theorem and_one (v : BitVec 32) : v &&& 1 = (BitVec.ofBool (v.getLsbD 0)).setWidth 32 :=
  BitVec.and_one_eq_setWidth_ofBool_getLsbD

theorem clear_of_even {v : BitVec 32} (heven : v.getLsbD 0 = false) : v &&& ~~~1 = v := by
  have hone : v &&& 1 = 0 := by
    rw [and_one, heven]
    rfl
  calc v &&& ~~~1 = (v &&& ~~~1) ||| (v &&& 1) :=
        BitVec.or_zero.symm.trans (congrArg (_ ||| ·) hone.symm)
    _ = v &&& (~~~1 ||| 1) := BitVec.and_or_distrib_left.symm
    _ = v := BitVec.and_allOnes

/-- `BXWritePC` keeps bit 0 for the instruction set. -/
theorem bxWritePc_spec {v target : BitVec 32} {t : Bool}
    (htarget : Branch.bxWritePc v = some (target, t)) :
    target = v &&& ~~~1 ∧ t = v.getLsbD 0 ∧ (t = false → v.getLsbD 1 = false) := by
  rw [Branch.bxWritePc] at htarget
  cases hlow : v.getLsbD 0 with
  | true =>
      rw [hlow, if_pos rfl] at htarget
      obtain ⟨rfl, rfl⟩ := Prod.mk.inj (Option.some.inj htarget)
      exact ⟨rfl, rfl, fun h => Bool.noConfusion h⟩
  | false =>
      rw [hlow, if_neg Bool.false_ne_true] at htarget
      cases hhigh : v.getLsbD 1 with
      | true =>
          rw [hhigh, if_pos rfl] at htarget
          cases htarget
      | false =>
          rw [hhigh, if_neg Bool.false_ne_true] at htarget
          obtain ⟨rfl, rfl⟩ := Prod.mk.inj (Option.some.inj htarget)
          exact ⟨(clear_of_even hlow).symm, rfl, fun _ => rfl⟩

/-- BX and BLX with a register. -/
theorem armBx_goes {cond : BitVec 4} {l : Bool} {rm : BitVec 4} {target : BitVec 32} {t : Bool}
    (hdecode : AtDecode s (address + 8) running) (hmode : running.thumbMode = false)
    (hinstr : running.instruction = (Branch.armBx cond l rm).first)
    (htarget : Branch.bxWritePc (if rm = 15 then address + 8 else s.reg rm.toNat) =
      some (target, t)) :
    Goes s running.armBx ⟨target, t, if l then some (address + 4) else none⟩ := by
  obtain ⟨rfl, rfl, -⟩ := bxWritePc_spec htarget
  have hrm : (bits4 running.instruction 0).toNat = rm.toNat := by
    rw [hinstr, Branch.first, bits4]
    change (bits _ 0 4).toNat = _
    simp (disch := decide) only [bits_setWidth, BitVec.extractLsb'_append_eq_of_add_le,
      BitVec.extractLsb'_eq_self]
    exact BitVec.toNat_setWidth_of_le (by decide)
  have hlink : bit running.instruction 5 = l := by
    rw [hinstr, Branch.first]
    simp (disch := decide) only [bit_setWidth, getLsbD_append_low, getLsbD_append_high]
    cases l <;> rfl
  have hregister := hdecode.register rm
  set value := if rm = 15 then address + 8 else s.reg rm.toNat
  let core := { running with insL := l, insRn := rm.toNat }
  let written := core.writeCpsr
    ((core.cpsr &&& ~~~((1 : BitVec 32) <<< 5)) ||| ((value &&& 1) <<< 5))
  have hagain : written.reg? rm.toNat = some value :=
    (Armisa.reg?_setCpsr _ _ (Nat.ne_of_lt rm.isLt)).trans hregister
  have hthumb : bit written.cpsr 5 = value.getLsbD 0 := by
    rw [show written.cpsr = _ from Armisa.cpsr_setCpsr _ _, and_one]
    exact bit_thumb_write _ _
  have hvalue : written.linkAddress = address + 4 := linkAddress_arm hdecode.pc hmode
  simp only [RunningArmisa.armBx, hrm, hlink]
  rw [show ({ running with insL := l, insRn := rm.toNat } : RunningArmisa μ).reg? rm.toNat =
    some value from hregister]
  simp only [Option.bind_eq_bind, Option.bind_some]
  rw [hagain, ← hvalue]
  exact executeBL_goes written
    ((Armisa.reg?_setCpsr _ _ (by decide)).trans (hdecode.regs lrReg (by decide))) hthumb rfl _

/-! ## The Thumb branches -/

theorem clear_or_one (v : BitVec 32) : (v &&& ~~~1) ||| 1 = v ||| 1 := by
  apply BitVec.eq_of_getLsbD_eq
  intro i hi
  have hone : (1 : BitVec 32).getLsbD i = decide (i = 0) :=
    BitVec.getLsbD_one.trans (Bool.true_and _)
  rw [BitVec.getLsbD_or, BitVec.getLsbD_or, BitVec.getLsbD_and, BitVec.getLsbD_not, hone,
    decide_eq_true hi]
  cases v.getLsbD i <;> cases decide (i = 0) <;> rfl

/-- The stored PC is two bytes ahead of the link. -/
theorem linkAddress_thumb (running : RunningArmisa μ) {next : BitVec 32}
    (hpc : running.pc = next + 2) (hmode : running.thumbMode = true) :
    running.linkAddress = next ||| 1 := by
  rw [RunningArmisa.linkAddress, hmode, if_pos rfl, hpc, BitVec.add_sub_cancel]
  exact clear_or_one next

theorem thumb_dest (address offset : BitVec 32) :
    address + 6 + offset - thumbPcCorrection = address + 4 + offset := by
  simp only [thumbPcCorrection]
  bv_omega

theorem decodeCcode_flags (running : RunningArmisa μ) {pcv : BitVec 32} {cond : BitVec 4}
    (hdecode : AtDecode s pcv running)
    (hcond : cond ≠ 15) :
    running.decodeCcode cond.toNat =
      some { running with insCcodeTest := conditionPassed s cond } := by
  rw [decodeCcode_spec running hcond, conditionPassed_congr hdecode.cpsr]

/-- The conditional branch of 16 bits. -/
theorem thumbCond_goes {cond : BitVec 4} {imm8 : BitVec 8} {swi : Option (RunningArmisa μ)}
    {inn : BitVec 32}
    {t : Bool} (hset : bit s.cpsr 5 = t) (hdecode : AtDecode s (address + 6) running)
    (hcond : cond < 14)
    (hinn : inn = (Branch.thumbCond cond imm8).first) :
    Goes s (running.decodeThumb16BranchAndSVC swi inn)
      (if conditionPassed s cond then
        ⟨address + 4 + (imm8 ++ 0#1).signExtend 32, t, none⟩
      else ⟨address + 2, t, none⟩) := by
  subst hset
  have hopcode : (bits inn 8 4).toNat = cond.toNat := by
    rw [hinn, Branch.first]
    simp (disch := decide) only [bits_setWidth, BitVec.extractLsb'_append_eq_of_add_le,
      BitVec.extractLsb'_append_eq_of_le, Nat.reduceSub, BitVec.extractLsb'_eq_self]
    exact BitVec.toNat_setWidth_of_le (by decide)
  have hfield : bits inn 0 8 <<< 1 = (imm8 ++ 0#1).setWidth 32 := by
    rw [hinn, Branch.first, ← shiftLeft_setWidth]
    simp (disch := decide) only [bits_setWidth, BitVec.extractLsb'_append_eq_of_add_le,
      BitVec.extractLsb'_eq_self]
  have hoffset : (if bits (bits inn 0 8 <<< 1) 8 1 ≠ 0 then bits inn 0 8 <<< 1 ||| 0xFFFFFE00
      else bits inn 0 8 <<< 1) = (imm8 ++ 0#1).signExtend 32 := by
    simp only [bits_one_ne_zero_iff, hfield, bit_setWidth _ (show 8 < 32 by decide)]
    exact or_shiftLeft_allOnes (imm8 ++ 0#1)
  have hlt : cond.toNat < 14 := hcond
  have hne : cond ≠ 15 := by
    rintro rfl
    exact absurd hcond (by decide)
  have hrun : running.decodeThumb16BranchAndSVC swi inn =
      if conditionPassed s cond then
        ({ running with insL := false, insCcodeTest := true }).executeBL
          (address + 4 + (imm8 ++ 0#1).signExtend 32)
      else some { running with insL := false, insCcodeTest := false } := by
    rw [RunningArmisa.decodeThumb16BranchAndSVC]
    simp only [hopcode, hoffset]
    split
    case h_1 heq => omega
    case h_2 heq => omega
    case h_3 =>
      have hcode := decodeCcode_flags { running with insL := false }
        ⟨hdecode.pc, hdecode.cpsr, hdecode.regs⟩ hne
      rw [hcode]
      simp only [Option.bind_eq_bind, Option.bind_some]
      cases conditionPassed s cond with
      | false => rfl
      | true =>
          rw [if_pos rfl, if_pos rfl, hdecode.pc, thumb_dest]
  rw [hrun]
  cases conditionPassed s cond with
  | false =>
      rw [if_neg Bool.false_ne_true, if_neg Bool.false_ne_true]
      refine goes_on ?_ hdecode.cpsr (hdecode.regs lrReg (by decide))
      exact hdecode.pc.trans (BitVec.add_assoc address 2 4).symm
  | true =>
      rw [if_pos rfl, if_pos rfl]
      exact executeBL_goes { running with insL := false, insCcodeTest := true }
        (hdecode.regs lrReg (by decide)) (congrArg (bit · 5) hdecode.cpsr) rfl _

/-- The unconditional branch of 16 bits. -/
theorem thumbBranch_goes {imm11 : BitVec 11} {inn : BitVec 32}
    {t : Bool} (hset : bit s.cpsr 5 = t) (hdecode : AtDecode s (address + 6) running)
    (hinn : inn = (Branch.thumbBranch imm11).first) :
    Goes s (running.thumb16Branch inn)
      ⟨address + 4 + (imm11 ++ 0#1).signExtend 32, t, none⟩ := by
  subst hset
  have hfield : bits inn 0 11 <<< 1 = (imm11 ++ 0#1).setWidth 32 := by
    rw [hinn, Branch.first, ← shiftLeft_setWidth]
    simp (disch := decide) only [bits_setWidth, BitVec.extractLsb'_append_eq_of_add_le,
      BitVec.extractLsb'_eq_self]
  have hoffset : (if bits (bits inn 0 11 <<< 1) 11 1 ≠ 0 then bits inn 0 11 <<< 1 ||| 0xFFFFF000
      else bits inn 0 11 <<< 1) = (imm11 ++ 0#1).signExtend 32 := by
    simp only [bits_one_ne_zero_iff, hfield, bit_setWidth _ (show 11 < 32 by decide)]
    exact or_shiftLeft_allOnes (imm11 ++ 0#1)
  simp only [RunningArmisa.thumb16Branch, hoffset]
  rw [hdecode.pc, thumb_dest]
  exact executeBL_goes { running with insL := false } (hdecode.regs lrReg (by decide))
    (congrArg (bit · 5) hdecode.cpsr) rfl _

/-- The instruction set that BX selects. -/
theorem exchange_spec (running : RunningArmisa μ) {v target : BitVec 32} {t : Bool}
    (htarget : Branch.bxWritePc v = some (target, t)) :
    ∃ cpsr, running.exchange v = some (running.writeCpsr cpsr, target) ∧ bit cpsr 5 = t := by
  obtain ⟨rfl, rfl, hhigh⟩ := bxWritePc_spec htarget
  rw [RunningArmisa.exchange, and_one, and_one]
  cases hlow : v.getLsbD 0 with
  | true =>
      rw [if_pos (by decide)]
      exact ⟨_, rfl, bit_thumb_set _⟩
  | false =>
      have hone : (v >>> 1).getLsbD 0 = false :=
        (BitVec.getLsbD_ushiftRight v 1 0).trans (hhigh hlow)
      rw [if_neg (by decide), hone, if_pos (by decide), clear_of_even hlow]
      exact ⟨_, rfl, bit_thumb_clear _⟩

/-- BX and BLX with a register. -/
theorem thumbBx_goes {l : Bool} {rm : BitVec 4} {inn target : BitVec 32} {t : Bool}
    (hdecode : AtDecode s (address + 6) running) (hmode : running.thumbMode = true)
    (hinn : inn = (Branch.thumbBx l rm).first)
    (htarget : Branch.bxWritePc (if rm = 15 then address + 4 else s.reg rm.toNat) =
      some (target, t)) :
    Goes s (running.thumb16Bx inn)
      ⟨target, t, if l then some ((address + 2) ||| 1) else none⟩ := by
  have hrm : (bits4 inn 3).toNat = rm.toNat := by
    rw [hinn, Branch.first, bits4]
    change (bits _ 3 4).toNat = _
    simp (disch := decide) only [bits_setWidth, BitVec.extractLsb'_append_eq_of_add_le,
      BitVec.extractLsb'_append_eq_of_le, Nat.reduceSub, BitVec.extractLsb'_eq_self]
    exact BitVec.toNat_setWidth_of_le (by decide)
  have hlink : bit inn 7 = l := by
    rw [hinn, Branch.first]
    simp (disch := decide) only [bit_setWidth, getLsbD_append_low, getLsbD_append_high]
    cases l <;> rfl
  have hvalue : running.reg? rm.toNat = some (if rm = 15 then address + 6 else s.reg rm.toNat) :=
    hdecode.register rm
  set value := if rm = 15 then address + 4 else s.reg rm.toNat with hset
  have hdest : (if rm.toNat = 15 then
      (if rm = 15 then address + 6 else s.reg rm.toNat) - 2
        else if rm = 15 then address + 6 else s.reg rm.toNat) = value := by
    have hiff : rm.toNat = 15 ↔ rm = 15 := BitVec.toNat_inj (x := rm) (y := 15)
    simp only [hiff, hset]
    by_cases hpc : rm = 15
    · rw [if_pos hpc, if_pos hpc, if_pos hpc]
      bv_omega
    · rw [if_neg hpc, if_neg hpc, if_neg hpc]
  obtain ⟨cpsr, hexchange, rfl⟩ := exchange_spec running htarget
  have hlr : (running.setCpsr cpsr).reg? lrReg = s.reg? lrReg :=
    (Armisa.reg?_setCpsr _ _ (by decide)).trans (hdecode.regs lrReg (by decide))
  have hpc : (running.setCpsr cpsr).pc = address + 6 := hdecode.pc
  have hrun : running.thumb16Bx inn =
      (if l then
        { running.writeCpsr cpsr with insL := true }.writePc (address + 6 - 2)
      else { running.writeCpsr cpsr with insL := false }).executeBL target := by
    rw [RunningArmisa.thumb16Bx, hrm, hlink, hvalue]
    simp only [Option.bind_eq_bind, Option.bind_some, hdest, hexchange]
    cases l with
    | false => rfl
    | true =>
        exact congrArg (fun v => RunningArmisa.executeBL (RunningArmisa.writePc _ (v - 2)) _) hpc
  rw [hrun]
  have hcpsr : bit (running.setCpsr cpsr).cpsr 5 = bit cpsr 5 :=
    congrArg (bit · 5) (Armisa.cpsr_setCpsr _ _)
  cases l with
  | false =>
      exact executeBL_goes { running.writeCpsr cpsr with insL := false } hlr hcpsr rfl target
  | true =>
      let back : RunningArmisa μ :=
        { running.writeCpsr cpsr with insL := true }.writePc (address + 6 - 2)
      have hback : back.pc = address + 2 + 2 := by
        refine (Armisa.pc_setPc (running.setCpsr cpsr) _).trans ?_
        bv_omega
      exact executeBL_goes back ((Armisa.reg?_setPc _ _ (by decide)).trans hlr) hcpsr
        (congrArg some (linkAddress_thumb back hback hmode)) target

/-! ### The forms of 32 bits -/

/-- The fields of the second halfword. -/
theorem wideCond_goes {sign : Bool} {cond : BitVec 4} {imm6 : BitVec 6} {j1 j2 : Bool}
    {imm11 : BitVec 11} {in1 in2 : BitVec 32} {t : Bool} (hset : bit s.cpsr 5 = t)
    (hdecode : AtDecode s (address + 6) running)
    (hcond : cond < 14) (hin1 : in1 = (Branch.wideCond sign cond imm6 j1 j2 imm11).first)
    (hin2 : some in2 = (Branch.wideCond sign cond imm6 j1 j2 imm11).second) :
    Goes s (running.thumb32CondBranch in1 in2)
      (if conditionPassed s cond then
        ⟨address + 4 + (BitVec.ofBool sign ++ BitVec.ofBool j2 ++ BitVec.ofBool j1 ++ imm6 ++
          imm11 ++ 0#1).signExtend 32, t, none⟩
      else ⟨address + 4, t, none⟩) := by
  subst hset
  replace hin2 := Option.some.inj hin2
  have hzero : bit in2 12 = false := by
    rw [hin2]
    simp (disch := decide) only [bit_setWidth, getLsbD_append_low, getLsbD_append_high]
    rfl
  have hcode : (bits in1 6 4).toNat = cond.toNat := by
    rw [hin1, Branch.first]
    simp (disch := decide) only [bits_setWidth, BitVec.extractLsb'_append_eq_of_add_le,
      BitVec.extractLsb'_append_eq_of_le, Nat.reduceSub, BitVec.extractLsb'_eq_self]
    exact BitVec.toNat_setWidth_of_le (by decide)
  have hfields : bits in1 10 1 = (BitVec.ofBool sign).setWidth 32 ∧
      bits in1 0 6 = imm6.setWidth 32 ∧ bits in2 11 1 = (BitVec.ofBool j2).setWidth 32 ∧
      bits in2 13 1 = (BitVec.ofBool j1).setWidth 32 ∧ bits in2 0 11 = imm11.setWidth 32 := by
    rw [hin1, hin2, Branch.first]
    simp (disch := decide) only [bits_setWidth, BitVec.extractLsb'_append_eq_of_add_le,
      BitVec.extractLsb'_append_eq_of_le, Nat.reduceSub, BitVec.extractLsb'_eq_self, and_self]
  obtain ⟨hsign, himm6, hj2, hj1, himm11⟩ := hfields
  set offset := BitVec.ofBool sign ++ BitVec.ofBool j2 ++ BitVec.ofBool j1 ++ imm6 ++ imm11 ++ 0#1
  have hfield : (bits in1 10 1 <<< 20) ||| (bits in2 11 1 <<< 19) ||| (bits in2 13 1 <<< 18) |||
      (bits in1 0 6 <<< 12) ||| (bits in2 0 11 <<< 1) = offset.setWidth 32 := by
    rw [hsign, himm6, hj2, hj1, himm11, shiftLeft_or_shiftLeft _ _ (show 20 = 1 + 19 from rfl),
      shiftLeft_or_shiftLeft _ _ (show 19 = 1 + 18 from rfl),
      shiftLeft_or_shiftLeft _ _ (show 18 = 6 + 12 from rfl),
      shiftLeft_or_shiftLeft _ _ (show 12 = 11 + 1 from rfl), shiftLeft_setWidth]
  have hextend : (if bit (offset.setWidth 32) 20 = true then
      offset.setWidth 32 ||| 0xFFE00000 else offset.setWidth 32) = offset.signExtend 32 := by
    rw [bit_setWidth _ (show 20 < 32 by decide)]
    exact or_shiftLeft_allOnes offset
  have hne : cond ≠ 15 := by
    rintro rfl
    exact absurd hcond (by decide)
  simp only [RunningArmisa.thumb32CondBranch, hzero, guard_true, hfield, hextend, hcode,
    decodeCcode_flags running hdecode hne, Option.bind_eq_bind, Option.pure_def, Option.bind_some]
  cases conditionPassed s cond with
  | false =>
      rw [if_neg Bool.false_ne_true, if_neg Bool.false_ne_true]
      refine goes_on ((Armisa.pc_setPc _ _).trans ?_) hdecode.cpsr
        ((Armisa.reg?_setPc _ _ (by decide)).trans (hdecode.regs lrReg (by decide)))
      rw [hdecode.pc]
      simp only [armPcCorrection]
      bv_omega
  | true =>
      rw [if_pos rfl, if_pos rfl, hdecode.pc, thumb_dest]
      exact executeBL_goes { running with insL := false, insCcodeTest := true }
        (hdecode.regs lrReg (by decide)) (congrArg (bit · 5) hdecode.cpsr) rfl _

/-- The offset of the long forms, with its sign. -/
theorem longOffset_fields (sign j1 j2 : Bool) (imm10 : BitVec 10) (imm11 : BitVec 11) :
    (if sign then
      (Armisa.flagAt sign 24 ||| Armisa.flagAt (!(j1 ^^ sign)) 23 |||
        Armisa.flagAt (!(j2 ^^ sign)) 22 ||| (imm10.setWidth 32 <<< 12) |||
        (imm11.setWidth 32 <<< 1)) ||| 0xFE000000
    else
      Armisa.flagAt sign 24 ||| Armisa.flagAt (!(j1 ^^ sign)) 23 |||
        Armisa.flagAt (!(j2 ^^ sign)) 22 ||| (imm10.setWidth 32 <<< 12) |||
        (imm11.setWidth 32 <<< 1)) = Branch.longOffset sign j1 j2 imm10 imm11 := by
  have hmsb : (BitVec.ofBool sign ++ BitVec.ofBool (!(j1 ^^ sign)) ++
      BitVec.ofBool (!(j2 ^^ sign)) ++ imm10 ++ imm11 ++ 0#1).msb = sign := by
    rw [BitVec.msb_eq_getLsbD_last]
    simp (disch := decide) only [getLsbD_append_high]
    cases sign <;> rfl
  simp only [Armisa.flagAt]
  rw [shiftLeft_or_shiftLeft _ _ (show 24 = 1 + 23 from rfl),
    shiftLeft_or_shiftLeft _ _ (show 23 = 1 + 22 from rfl),
    shiftLeft_or_shiftLeft _ _ (show 22 = 10 + 12 from rfl),
    shiftLeft_or_shiftLeft _ _ (show 12 = 11 + 1 from rfl), shiftLeft_setWidth]
  rw [Branch.longOffset, ← or_shiftLeft_allOnes, hmsb]
  rfl

/-- B, BL and BLX with a long offset. -/
theorem wideBranch_goes {sign : Bool} {imm10 : BitVec 10} {l j1 x j2 : Bool}
    {imm11 : BitVec 11} {in1 in2 : BitVec 32} (hdecode : AtDecode s (address + 6) running)
    (hmode : running.thumbMode = true)
    (hin1 : in1 = (Branch.wideBranch sign imm10 l j1 x j2 imm11).first)
    (hin2 : some in2 = (Branch.wideBranch sign imm10 l j1 x j2 imm11).second) :
    Goes s (running.thumb32Branch in1 in2)
      ⟨if x then address + 4 + Branch.longOffset sign j1 j2 imm10 imm11
        else (address + 4 &&& ~~~3) +
          Branch.longOffset sign j1 j2 imm10 (imm11.extractLsb' 1 10 ++ 0#1),
        x, if l then some ((address + 4) ||| 1) else none⟩ := by
  replace hin2 := Option.some.inj hin2
  have hbits : bit in1 10 = sign ∧ bit in2 11 = j2 ∧ bit in2 12 = x ∧ bit in2 13 = j1 ∧
      bit in2 14 = l := by
    rw [hin1, hin2, Branch.first]
    simp (disch := decide) only [bit_setWidth, getLsbD_append_low, getLsbD_append_high,
      Nat.reduceSub, BitVec.getLsbD_ofBool, decide_true, Bool.true_and, and_self]
  have hfields : bits in1 0 10 = imm10.setWidth 32 ∧ bits in2 0 11 = imm11.setWidth 32 ∧
      bits in2 1 10 = (imm11.extractLsb' 1 10).setWidth 32 ∧
      bits in2 12 1 = (BitVec.ofBool x).setWidth 32 := by
    rw [hin1, hin2, Branch.first]
    simp (disch := decide) only [bits_setWidth, BitVec.extractLsb'_append_eq_of_add_le,
      BitVec.extractLsb'_append_eq_of_le, Nat.reduceSub, BitVec.extractLsb'_eq_self, and_self]
  obtain ⟨hsign, hj2, hx, hj1, hl⟩ := hbits
  obtain ⟨himm10, himm11, hhigh, hthumb⟩ := hfields
  have hfield : (if x = true then bits in2 0 11 else bits in2 1 10 <<< 1) =
      (if x then imm11 else imm11.extractLsb' 1 10 ++ 0#1).setWidth 32 := by
    rw [himm11, hhigh]
    cases x with
    | false => exact shiftLeft_setWidth (imm11.extractLsb' 1 10)
    | true => rfl
  have hbase : address + 6 - thumbPcCorrection = address + 4 := by
    simp only [thumbPcCorrection]
    bv_omega
  simp only [RunningArmisa.thumb32Branch, hsign, hj1, hj2, hx, hl, hthumb, himm10, hfield,
    longOffset_fields]
  set cpsr := (running.cpsr &&& ~~~((1 : BitVec 32) <<< 5)) |||
    ((BitVec.ofBool x).setWidth 32 <<< 5)
  have hpc : (running.writeCpsr cpsr).pc = address + 6 := hdecode.pc
  have hahead : address + 6 = address + 4 + 2 := by
    bv_omega
  let linking : RunningArmisa μ := { running.writeCpsr cpsr with insL := l }
  have hlink : linking.linkAddress = (address + 4) ||| 1 :=
    linkAddress_thumb linking (hpc.trans hahead) hmode
  have hlr : linking.reg? lrReg = s.reg? lrReg :=
    (Armisa.reg?_setCpsr _ _ (by decide)).trans (hdecode.regs lrReg (by decide))
  have hset : bit linking.cpsr 5 = x :=
    (congrArg (bit · 5) (Armisa.cpsr_setCpsr _ _)).trans (bit_thumb_write _ x)
  rw [hpc, hbase]
  cases x <;>
    exact executeBL_goes linking hlr hset
      (congrArg (fun link => if l = true then some link else none) hlink) _

/-! ## Decoding -/

/-- The effect of an ARM branch. -/
theorem decodeArm_branch {cond : BitVec 4} {l : Bool} {imm24 : BitVec 24}
    (hdecode : AtDecode s (address + 8) running) (hmode : running.thumbMode = false)
    (hset : bit s.cpsr 5 = false)
    (hinstr : running.instruction = (Branch.armBranch cond l imm24).first) :
    Goes s (running.decodeArmInstruction others)
      (if conditionPassed s cond then
        ⟨address + 8 + (if cond = 15 then (imm24 ++ BitVec.ofBool l ++ 0#1).signExtend 32
          else (imm24 ++ 0#2).signExtend 32), cond == 15,
          if cond == 15 || l then some (address + 4) else none⟩
      else ⟨address + 4, false, none⟩) := by
  have hconder : (bits running.instruction 28 4).toNat = cond.toNat := by
    rw [hinstr, Branch.first]
    simp (disch := decide) only [bits_setWidth, BitVec.extractLsb'_append_eq_of_le,
      Nat.reduceSub, BitVec.extractLsb'_eq_self]
    exact BitVec.toNat_setWidth_of_le (by decide)
  have hmajor : bits running.instruction 25 3 = 5 := by
    rw [hinstr, Branch.first]
    simp (disch := decide) only [bits_setWidth, BitVec.extractLsb'_append_eq_of_add_le,
      BitVec.extractLsb'_append_eq_of_le, Nat.reduceSub, BitVec.extractLsb'_eq_self]
    rfl
  have hiff : cond.toNat = 15 ↔ cond = 15 := BitVec.toNat_inj (x := cond) (y := 15)
  by_cases hcond : cond = 15
  · have htop : bit running.instruction 27 = true := by
      rw [hinstr, Branch.first]
      simp (disch := decide) only [bit_setWidth, getLsbD_append_low, getLsbD_append_high]
      rfl
    have hones : running.instruction ≠ 0xFFFFFFFF := by
      intro hones
      rw [hones] at hmajor
      exact absurd hmajor (by decide)
    have hadvanced : ¬(running.instruction = 0xFFFFFFFF ∨
        running.instruction &&& 0xFB00000 = 0x4200000 ∨
        running.instruction &&& 0xFB00000 = 0x4000000) := by
      rintro (h | h | h)
      · exact hones h
      · exact and_ne_of_bit 27 (by rw [htop]; decide) h
      · exact and_ne_of_bit 27 (by rw [htop]; decide) h
    have hblx : running.instruction &&& 0xE000000 = 0xA000000 := by
      refine (and_field running.instruction 25 (show 3 < 32 by decide)).trans ?_
      rw [hmajor]
      rfl
    simp only [RunningArmisa.decodeArmInstruction, hconder, if_pos (hiff.mpr hcond),
      if_neg hadvanced, if_pos hblx]
    subst hcond
    exact armBlx_goes ⟨hdecode.pc, hdecode.cpsr, hdecode.regs⟩ hmode hinstr
  · have hcode := decodeCcode_flags { running with insDecodeT := .unknownT }
      ⟨hdecode.pc, hdecode.cpsr, hdecode.regs⟩ hcond
    simp only [RunningArmisa.decodeArmInstruction, hconder, if_neg (mt hiff.mp hcond), hcode,
      Option.bind_eq_bind, Option.bind_some, if_neg hcond, beq_false_of_ne hcond, Bool.false_or]
    cases conditionPassed s cond with
    | false =>
        rw [if_neg Bool.false_ne_true, if_neg Bool.false_ne_true, hmajor,
          if_pos (show BitVec.toNat (5 : BitVec 32) = 5 from rfl), ← hset]
        exact goes_on (hdecode.pc.trans (BitVec.add_assoc address 4 4).symm) hdecode.cpsr
          (hdecode.regs lrReg (by decide))
    | true =>
        rw [if_pos rfl, if_pos rfl]
        simp only [RunningArmisa.decodeMajorOpcode, hmajor]
        rw [← hset]
        exact armBranch_goes ⟨hdecode.pc, hdecode.cpsr, hdecode.regs⟩ hmode hinstr

/-- The pattern of BX belongs to no other instruction. -/
theorem bx_pattern (cond : BitVec 4) (l : Bool) (rm : BitVec 4) :
    (Branch.armBx cond l rm).first &&& 0xFFFFFD0 = 0x12fff10 ∧
      ¬RunningArmisa.BeforeBx (Branch.armBx cond l rm).first := by
  cases l <;> revert cond rm <;> decide

/-- The effect of BX and BLX with a register in ARM code. -/
theorem decodeArm_bx {cond : BitVec 4} {l : Bool} {rm : BitVec 4}
    (hdecode : AtDecode s (address + 8) running) (hmode : running.thumbMode = false)
    (hset : bit s.cpsr 5 = false) (hcond : cond ≠ 15)
    (hinstr : running.instruction = (Branch.armBx cond l rm).first)
    {effect : Effect}
    (heffect : (if conditionPassed s cond then
      (Branch.bxWritePc (if rm = 15 then address + 8 else s.reg rm.toNat)).map fun target =>
        ⟨target.1, target.2, if l then some (address + 4) else none⟩
      else some ⟨address + 4, false, none⟩) = some effect) :
    Goes s (running.decodeArmInstruction others) effect := by
  have hconder : (bits running.instruction 28 4).toNat = cond.toNat := by
    rw [hinstr, Branch.first]
    simp (disch := decide) only [bits_setWidth, BitVec.extractLsb'_append_eq_of_le,
      Nat.reduceSub, BitVec.extractLsb'_eq_self]
    exact BitVec.toNat_setWidth_of_le (by decide)
  have hmajor : bits running.instruction 25 3 = 0 := by
    rw [hinstr, Branch.first]
    simp (disch := decide) only [bits_setWidth, BitVec.extractLsb'_append_eq_of_add_le,
      BitVec.extractLsb'_append_eq_of_le, Nat.reduceSub]
    rfl
  have hiff : cond.toNat = 15 ↔ cond = 15 := BitVec.toNat_inj (x := cond) (y := 15)
  obtain ⟨hpattern, hbefore⟩ := bx_pattern cond l rm
  rw [← hinstr] at hpattern hbefore
  have hcode := decodeCcode_flags { running with insDecodeT := .unknownT }
    ⟨hdecode.pc, hdecode.cpsr, hdecode.regs⟩ hcond
  simp only [RunningArmisa.decodeArmInstruction, hconder, if_neg (mt hiff.mp hcond), hcode,
    Option.bind_eq_bind, Option.bind_some]
  cases hpassed : conditionPassed s cond with
  | false =>
      rw [hpassed, if_neg Bool.false_ne_true] at heffect
      rw [if_neg Bool.false_ne_true, hmajor,
        if_neg (show BitVec.toNat (0 : BitVec 32) ≠ 5 by decide), ← Option.some.inj heffect, ← hset]
      exact goes_on (hdecode.pc.trans (BitVec.add_assoc address 4 4).symm) hdecode.cpsr
        (hdecode.regs lrReg (by decide))
  | true =>
      rw [hpassed, if_pos rfl] at heffect
      obtain ⟨target, htarget, rfl⟩ := Option.map_eq_some_iff.mp heffect
      rw [if_pos rfl]
      simp only [RunningArmisa.decodeMajorOpcode, hmajor]
      rw [if_neg hbefore, if_pos hpattern]
      exact armBx_goes ⟨hdecode.pc, hdecode.cpsr, hdecode.regs⟩ hmode hinstr htarget

/-! ### Thumb -/

theorem bits_bits (a : BitVec 32) {i m j n : ℕ} (hm : m < 32) (hfit : j + n ≤ m) :
    bits (bits a i m) j n = bits a (i + j) n := by
  have hn : n < 32 := by omega
  rw [bits_eq_extractLsb' _ _ hn, bits_eq_extractLsb' _ _ hm, bits_eq_extractLsb' _ _ hn]
  apply congrArg (BitVec.setWidth 32)
  apply BitVec.eq_of_getLsbD_eq
  intro k hk
  have hinner : j + k < 32 := by omega
  have hfield : j + k < m := by omega
  simp [hk, hinner, hfield, Nat.add_assoc]

theorem bit_bits (a : BitVec 32) {i m j : ℕ} (hm : m < 32) (hj : j < m) :
    bit (bits a i m) j = bit a (i + j) := by
  have hlt : j < 32 := by omega
  rw [bits_eq_extractLsb' _ _ hm, bit, bit]
  simp [hj, hlt]

variable {state : ThumbArmisa μ}

/-- Inside an IT block the condition of the block is looked at, and its mask is shifted. -/
theorem itCondition_inside (state : ThumbArmisa μ) (hin : state.inITBlock = true)
    (hblock : state.blockCondition ≠ 15) :
    state.itCondition =
      some ({ state with
          insCcodeTest := conditionPassed state.toArmisa state.blockCondition
          itstate := itAdvance state.itstate },
        conditionPassed state.toArmisa state.blockCondition) := by
  have hcond : ((state.itstate >>> 4) &&& 0xF).toNat = state.blockCondition.toNat := by
    rw [ThumbArmisa.blockCondition, hin, if_pos rfl, BitVec.extractLsb'_toNat, BitVec.toNat_and,
      BitVec.toNat_ushiftRight]
    exact Nat.and_two_pow_sub_one_eq_mod _ 4
  rw [ThumbArmisa.itCondition, hin, if_pos rfl]
  simp only [hcond, decodeCcode_spec _ hblock, Option.bind_eq_bind, Option.bind_some]
  rfl

/-- What an IT block says changes no register. -/
theorem itCondition_spec (state : ThumbArmisa μ) (hblock : state.blockCondition ≠ 15) :
    ∃ next test,
      state.itCondition =
        some (next, conditionPassed state.toArmisa state.blockCondition) ∧
      next.toRunningArmisa = { state.toRunningArmisa with insCcodeTest := test } := by
  cases hin : state.inITBlock with
  | false =>
      refine ⟨state, state.insCcodeTest, ?_, rfl⟩
      rw [ThumbArmisa.itCondition, ThumbArmisa.blockCondition, hin,
        if_neg Bool.false_ne_true, if_neg Bool.false_ne_true, conditionPassed_always]
  | true => exact ⟨_, _, itCondition_inside state hin hblock, rfl⟩

/-- A halfword is decoded as a whole. -/
theorem bits_halfword (x : BitVec 16) : bits (x.setWidth 32) 0 16 = x.setWidth 32 := by
  rw [bits_setWidth x (by decide) (by decide), BitVec.extractLsb'_eq_self]

/-- The dispatch of a conditional branch of 16 bits. -/
theorem decodeThumb16_cond {cond : BitVec 4} {imm8 : BitVec 8} (inITBlock : Bool)
    (hinstr : state.instruction = (Branch.thumbCond cond imm8).first) :
    state.decodeThumb16 others true inITBlock =
      (state.decodeThumb16BranchAndSVC (others.thumb16 state.instruction inITBlock state)
        state.instruction).map state.withRunning := by
  have hwhole : bits state.instruction 0 16 = state.instruction := by
    rw [hinstr]
    exact bits_halfword _
  have hhigh : bits state.instruction 12 4 = 13 := by
    rw [hinstr, Branch.first]
    simp (disch := decide) only [bits_setWidth, BitVec.extractLsb'_append_eq_of_le,
      Nat.reduceSub, BitVec.extractLsb'_eq_self]
    rfl
  have hbit : ∀ i, i < 4 → bit state.instruction (12 + i) = bit 13 i := by
    intro i hi
    rw [← hhigh, bit_bits _ (by decide) hi]
  rw [ThumbArmisa.decodeThumb16]
  simp only [hwhole]
  rw [if_neg (Bool.false_ne_true.symm), if_neg, if_neg, if_pos]
  · refine (and_field (bits state.instruction 10 6) 2 (show 4 < 32 by decide)).trans ?_
    rw [bits_bits _ (by decide) (by decide), hhigh]
    rfl
  · apply and_ne_of_bit 4
    rw [bit_bits _ (by decide) (by decide), hbit 2 (by decide)]
    decide
  · apply and_ne_of_bit 5
    rw [bit_bits _ (by decide) (by decide), hbit 3 (by decide)]
    decide

/-- The dispatch of the unconditional branch of 16 bits. -/
theorem decodeThumb16_branch {imm11 : BitVec 11} (inITBlock : Bool)
    (hinstr : state.instruction = (Branch.thumbBranch imm11).first) :
    state.decodeThumb16 others true inITBlock =
      (state.thumb16Branch state.instruction).map state.withRunning := by
  have hwhole : bits state.instruction 0 16 = state.instruction := by
    rw [hinstr]
    exact bits_halfword _
  have hhigh : bits state.instruction 11 5 = 0x1C := by
    rw [hinstr, Branch.first]
    simp (disch := decide) only [bits_setWidth, BitVec.extractLsb'_append_eq_of_le,
      Nat.reduceSub, BitVec.extractLsb'_eq_self]
    rfl
  have hbit : ∀ i, i < 5 → bit state.instruction (11 + i) = bit 0x1C i := by
    intro i hi
    rw [← hhigh, bit_bits _ (by decide) hi]
  rw [ThumbArmisa.decodeThumb16]
  simp only [hwhole]
  rw [if_neg (Bool.false_ne_true.symm), if_neg, if_neg, if_neg, if_pos]
  · refine (and_field (bits state.instruction 10 6) 1 (show 5 < 32 by decide)).trans ?_
    rw [bits_bits _ (by decide) (by decide), hhigh]
    rfl
  · apply and_ne_of_bit 3
    rw [bit_bits _ (by decide) (by decide), hbit 2 (by decide)]
    decide
  · apply and_ne_of_bit 4
    rw [bit_bits _ (by decide) (by decide), hbit 3 (by decide)]
    decide
  · apply and_ne_of_bit 5
    rw [bit_bits _ (by decide) (by decide), hbit 4 (by decide)]
    decide

theorem thumbBx_special (l : Bool) (rm : BitVec 4) :
    12 ≤ (bits (Branch.thumbBx l rm).first 6 4).toNat := by
  cases l <;> revert rm <;> decide

/-- The dispatch of BX and BLX. -/
theorem decodeThumb16_bx {l : Bool} {rm : BitVec 4} (inITBlock : Bool)
    (hinstr : state.instruction = (Branch.thumbBx l rm).first) :
    state.decodeThumb16 others true inITBlock =
      (state.thumb16Bx state.instruction).map state.withRunning := by
  have hwhole : bits state.instruction 0 16 = state.instruction := by
    rw [hinstr]
    exact bits_halfword _
  have hopcode : bits state.instruction 10 6 = 0x11 := by
    rw [hinstr, Branch.first]
    simp (disch := decide) only [bits_setWidth, BitVec.extractLsb'_append_eq_of_le,
      Nat.reduceSub]
    rfl
  have hspecial : 12 ≤ (bits state.instruction 6 4).toNat := by
    rw [hinstr]
    exact thumbBx_special l rm
  rw [ThumbArmisa.decodeThumb16]
  simp only [hwhole, hopcode]
  rw [if_neg (Bool.false_ne_true.symm), if_pos (by decide), RunningArmisa.decodeThumb16Special,
    if_pos hspecial]

/-- The dispatch of a branch of 32 bits. -/
theorem decodeThumb32_branches {branch : Branch} {halfword : BitVec 32}
    {other : BitVec 16 → Option (RunningArmisa μ)}
    (hread : port.read1 running.memory (running.insAddress + 2) 1 = some halfword)
    (hfirst : running.instruction = branch.first) (hsecond : branch.second = some halfword) :
    running.decodeThumb32 port other true =
      running.decodeThumb32Branches branch.first halfword := by
  have hhalf : ∀ z : BitVec 16, (z.setWidth 32).setWidth 16 = z := by
    intro z
    rw [BitVec.setWidth_setWidth_of_le z (by decide), BitVec.setWidth_eq]
  have hbranches : ∀ x y : BitVec 16, branch.first = x.setWidth 32 → halfword = y.setWidth 32 →
      bits (x.setWidth 32) 11 2 = 2 → bit (y.setWidth 32) 15 = true →
      running.decodeThumb32 port other true =
        running.decodeThumb32Branches branch.first halfword := by
    intro x y hx hy hop1 hop
    rw [RunningArmisa.decodeThumb32, hread]
    simp only [Option.bind_eq_bind, Option.bind_some, hfirst, hx, hy, hhalf, hop1, hop]
    rfl
  cases branch with
  | armBranch => cases hsecond
  | armBx => cases hsecond
  | thumbCond => cases hsecond
  | thumbBranch => cases hsecond
  | thumbBx => cases hsecond
  | wideCond sign cond imm6 j1 j2 imm11 =>
      refine hbranches _ _ rfl (Option.some.inj hsecond).symm ?_ ?_
      · simp (disch := decide) only [bits_setWidth, BitVec.extractLsb'_append_eq_of_le,
          Nat.reduceSub]
        rfl
      · simp (disch := decide) only [bit_setWidth, getLsbD_append_high]
        rfl
  | wideBranch sign imm10 l j1 x j2 imm11 =>
      refine hbranches _ _ rfl (Option.some.inj hsecond).symm ?_ ?_
      · simp (disch := decide) only [bits_setWidth, BitVec.extractLsb'_append_eq_of_le,
          Nat.reduceSub]
        rfl
      · simp (disch := decide) only [bit_setWidth, getLsbD_append_high]
        rfl

theorem wideCond_dispatch (sign : Bool) {cond : BitVec 4} (imm6 : BitVec 6) (j1 j2 : Bool)
    (imm11 : BitVec 11) {in1 in2 : BitVec 32} (hcond : cond < 14)
    (hin1 : in1 = (Branch.wideCond sign cond imm6 j1 j2 imm11).first)
    (hin2 : some in2 = (Branch.wideCond sign cond imm6 j1 j2 imm11).second) :
    running.decodeThumb32Branches in1 in2 = running.thumb32CondBranch in1 in2 := by
  replace hin2 := Option.some.inj hin2
  have hlink : bits in2 12 3 &&& 5 = 0 := by
    rw [hin2]
    simp (disch := decide) only [bits_setWidth, BitVec.extractLsb'_append_eq_of_le,
      Nat.reduceSub]
    cases j1 <;> rfl
  have hnever : bits in1 4 7 &&& 0x38 ≠ 0x38 := by
    have hfield : bits (bits in1 4 7) 3 3 = (cond.extractLsb' 1 3).setWidth 32 := by
      refine (bits_bits in1 (by decide) (by decide)).trans ?_
      change bits in1 7 3 = _
      rw [hin1, Branch.first]
      simp (disch := decide) only [bits_setWidth, BitVec.extractLsb'_append_eq_of_add_le,
        BitVec.extractLsb'_append_eq_of_le, Nat.reduceSub]
    have hmask : bits in1 4 7 &&& (0x38 : BitVec 32) =
        (cond.extractLsb' 1 3).setWidth 32 <<< 3 := by
      rw [← hfield]
      exact and_field (bits in1 4 7) 3 (show 3 < 32 by decide)
    rw [hmask]
    clear hmask hfield hin1
    revert cond
    decide
  rw [RunningArmisa.decodeThumb32Branches]
  exact if_pos ⟨hlink, hnever⟩

theorem wideBranch_dispatch (sign : Bool) (imm10 : BitVec 10) {l j1 x j2 : Bool}
    (imm11 : BitVec 11) {in1 in2 : BitVec 32} (hbranch : l = true ∨ x = true)
    (hin2 : some in2 = (Branch.wideBranch sign imm10 l j1 x j2 imm11).second) :
    running.decodeThumb32Branches in1 in2 = running.thumb32Branch in1 in2 := by
  replace hin2 := Option.some.inj hin2
  have hfields : bits in2 12 3 &&& 5 =
      ((1#1 ++ BitVec.ofBool l ++ BitVec.ofBool j1 ++ BitVec.ofBool x).extractLsb' 0 3).setWidth
        32 &&& 5 := by
    rw [hin2]
    simp (disch := decide) only [bits_setWidth, BitVec.extractLsb'_append_eq_of_le,
      Nat.reduceSub]
  simp only [RunningArmisa.decodeThumb32Branches, hfields]
  rw [if_neg, if_pos]
  · cases l <;> cases j1 <;> cases x <;> first | decide | exact absurd hbranch (by decide)
  · rintro ⟨hzero, -⟩
    revert hzero
    cases l <;> cases j1 <;> cases x <;> first | decide | exact absurd hbranch (by decide)

theorem not_wide_of_high {instr : BitVec 32} (hhigh : bits (bits instr 11 5) 1 4 = 13) :
    ¬ThumbArmisa.Wide instr := by
  have hopcode : ∀ n : ℕ, (bits instr 11 5).toNat = n →
      bits (BitVec.ofNat 32 n) 1 4 = 13 := by
    rintro n rfl
    rwa [BitVec.ofNat_toNat, BitVec.setWidth_eq]
  rintro (hwide | hwide | hwide)
  · exact absurd (hopcode _ hwide) (by decide)
  · exact absurd (hopcode _ hwide) (by decide)
  · exact absurd (hopcode _ hwide) (by decide)

/-- A Thumb branch has two halfwords where its first one says so. -/
theorem wide_first {branch : Branch} (hthumb : branch.thumb = true)
    (hbranch : branch.IsBranch) :
    ThumbArmisa.Wide branch.first ↔ branch.second.isSome = true := by
  cases branch with
  | armBranch => exact absurd hthumb Bool.false_ne_true
  | armBx => exact absurd hthumb Bool.false_ne_true
  | thumbCond cond imm8 =>
      refine iff_of_false ?_ Bool.false_ne_true
      apply not_wide_of_high
      refine (bits_bits _ (by decide) (by decide)).trans ?_
      change bits _ 12 4 = 13
      rw [Branch.first]
      simp (disch := decide) only [bits_setWidth, BitVec.extractLsb'_append_eq_of_le,
        Nat.reduceSub, BitVec.extractLsb'_eq_self]
      rfl
  | thumbBranch imm11 =>
      refine iff_of_false ?_ Bool.false_ne_true
      have hopcode : bits (Branch.thumbBranch imm11).first 11 5 = 0x1C := by
        rw [Branch.first]
        simp (disch := decide) only [bits_setWidth, BitVec.extractLsb'_append_eq_of_le,
          Nat.reduceSub, BitVec.extractLsb'_eq_self]
        rfl
      simp only [ThumbArmisa.Wide, hopcode]
      decide
  | thumbBx l rm =>
      refine iff_of_false ?_ Bool.false_ne_true
      have hopcode : bits (Branch.thumbBx l rm).first 11 5 = 8 := by
        rw [Branch.first]
        simp (disch := decide) only [bits_setWidth, BitVec.extractLsb'_append_eq_of_le,
          Nat.reduceSub]
        rfl
      simp only [ThumbArmisa.Wide, hopcode]
      decide
  | wideCond sign cond imm6 j1 j2 imm11 =>
      refine iff_of_true ?_ rfl
      have hopcode : bits (Branch.wideCond sign cond imm6 j1 j2 imm11).first 11 5 = 0x1E := by
        rw [Branch.first]
        simp (disch := decide) only [bits_setWidth, BitVec.extractLsb'_append_eq_of_le,
          Nat.reduceSub, BitVec.extractLsb'_eq_self]
        rfl
      simp only [ThumbArmisa.Wide, hopcode]
      decide
  | wideBranch sign imm10 l j1 x j2 imm11 =>
      refine iff_of_true ?_ rfl
      have hopcode : bits (Branch.wideBranch sign imm10 l j1 x j2 imm11).first 11 5 = 0x1E := by
        rw [Branch.first]
        simp (disch := decide) only [bits_setWidth, BitVec.extractLsb'_append_eq_of_le,
          Nat.reduceSub, BitVec.extractLsb'_eq_self]
        rfl
      simp only [ThumbArmisa.Wide, hopcode]
      decide

/-- `DecodeThumbInstruction` after what an IT block says. -/
theorem decodeThumbInstruction_eq (port : FetchPort μ) (others : OtherInstructions μ)
    {pcv : BitVec 32} (hdecode : AtDecode s pcv state.toRunningArmisa)
    (hmode : state.thumbMode = true) (hblock : state.blockCondition ≠ 15) :
    ∃ next : ThumbArmisa μ, AtDecode s pcv next.toRunningArmisa ∧ next.thumbMode = true ∧
      next.instruction = state.instruction ∧ next.memory = state.memory ∧
      next.insAddress = state.insAddress ∧
      state.decodeThumbInstruction port others =
        if ThumbArmisa.Wide state.instruction then
          (next.decodeThumb32 port (fun instruction2 => others.thumb32 instruction2 next)
            (conditionPassed s state.blockCondition)).map next.withRunning
        else
          next.decodeThumb16 others (conditionPassed s state.blockCondition)
            state.inITBlock := by
  obtain ⟨next, test, hit, hnext⟩ :=
    itCondition_spec { state with insDecodeT := .unknownT } hblock
  have hpassed : conditionPassed { state with insDecodeT := .unknownT }.toArmisa
      state.blockCondition = conditionPassed s state.blockCondition :=
    conditionPassed_congr hdecode.cpsr _
  have hinstr : next.instruction = state.instruction := by
    rw [hnext]
  refine ⟨next, ?_, ?_, hinstr, ?_, ?_, ?_⟩
  · rw [hnext]
    exact ⟨hdecode.pc, hdecode.cpsr, hdecode.regs⟩
  · rw [hnext]
    exact hmode
  · rw [hnext]
  · rw [hnext]
  · have hit : ThumbArmisa.itCondition { state with insDecodeT := .unknownT } =
        some (next, conditionPassed s state.blockCondition) := hit.trans (by rw [← hpassed]; rfl)
    rw [ThumbArmisa.decodeThumbInstruction]
    simp only [hit, Option.bind_eq_bind, Option.bind_some, hinstr]

theorem map_withRunning (state : ThumbArmisa μ) (result : Option (RunningArmisa μ)) :
    (result.map state.withRunning).map (·.toRunningArmisa) = result := by
  rw [Option.map_map]
  exact Option.map_id_apply

/-- The halfwords of a branch are in memory, the second one where the first one was fetched. -/
structure Fetched (port : FetchPort μ) (branch : Branch) (running : RunningArmisa μ) : Prop where
  first : running.instruction = branch.first
  second : ∀ halfword, branch.second = some halfword →
    port.read1 running.memory (running.insAddress + 2) 1 = some halfword

/-- A skipped instruction of 16 bits. -/
theorem decodeThumb16_skipped (inITBlock : Bool)
    (hdecode : AtDecode s (address + 6) state.toRunningArmisa) :
    Goes s ((state.decodeThumb16 others false inITBlock).map (·.toRunningArmisa))
      ⟨address + 2, bit s.cpsr 5, none⟩ :=
  goes_on (hdecode.pc.trans (BitVec.add_assoc address 2 4).symm) hdecode.cpsr
    (hdecode.regs lrReg (by decide))

/-- A skipped instruction of 32 bits. -/
theorem decodeThumb32_skipped {halfword : BitVec 32}
    {other : BitVec 16 → Option (RunningArmisa μ)}
    (hread : port.read1 running.memory (running.insAddress + 2) 1 = some halfword)
    (hdecode : AtDecode s (address + 6) running) :
    Goes s (running.decodeThumb32 port other false) ⟨address + 4, bit s.cpsr 5, none⟩ := by
  have hahead : address + 6 + 2 = address + 4 + armPcCorrection := by
    simp only [armPcCorrection]
    bv_omega
  rw [RunningArmisa.decodeThumb32, hread]
  refine goes_on ((Armisa.pc_setPc _ _).trans ?_) hdecode.cpsr
    ((Armisa.reg?_setPc _ _ (by decide)).trans (hdecode.regs lrReg (by decide)))
  rw [hdecode.pc, hahead]

theorem length_of_wide {branch : Branch} (hthumb : branch.thumb = true) :
    branch.length = if branch.second.isSome then 4 else 2 := by
  cases branch <;> first | rfl | exact absurd hthumb Bool.false_ne_true

/-- The effect of a Thumb branch. -/
theorem decodeThumb_goes {branch : Branch} {original : ThumbArmisa μ} {effect : Effect}
    (hdecode : AtDecode original.toArmisa (address + 6) state.toRunningArmisa)
    (hmode : state.thumbMode = true) (hit : state.itstate = original.itstate)
    (hset : bit original.cpsr 5 = true) (hthumb : branch.thumb = true)
    (hbranch : branch.IsBranch) (hfetched : Fetched port branch state.toRunningArmisa)
    (hblock : original.blockCondition ≠ 15)
    (heffect : branch.effect original address = some effect) :
    Goes original.toArmisa
      ((state.decodeThumbInstruction port others).map (·.toRunningArmisa)) effect := by
  have hcondition : state.blockCondition = original.blockCondition := by
    rw [ThumbArmisa.blockCondition, ThumbArmisa.blockCondition, ThumbArmisa.inITBlock,
      ThumbArmisa.inITBlock, hit]
  obtain ⟨next, hnext, hnextMode, hinstr, hmemory, haddress, hrun⟩ :=
    decodeThumbInstruction_eq port others hdecode hmode
      (hcondition ▸ hblock)
  have hsecond : ∀ halfword, branch.second = some halfword →
      port.read1 next.memory (next.insAddress + 2) 1 = some halfword := by
    rw [hmemory, haddress]
    exact hfetched.second
  have hfirst : next.instruction = branch.first := hinstr.trans hfetched.first
  rw [hrun, hcondition]
  rw [Branch.effect, Branch.taken, hthumb, Bool.not_true, Bool.false_or] at heffect
  cases hpassed : conditionPassed original.toArmisa original.blockCondition with
  | false =>
      rw [hpassed, Bool.and_false, if_neg Bool.false_ne_true, Option.some.injEq] at heffect
      rw [← heffect, ← hset, length_of_wide hthumb]
      by_cases hwide : ThumbArmisa.Wide state.instruction
      · have htwo : branch.second.isSome = true :=
          (wide_first hthumb hbranch).mp (hfetched.first ▸ hwide)
        obtain ⟨halfword, hhalfword⟩ := Option.isSome_iff_exists.mp htwo
        rw [if_pos hwide, map_withRunning, if_pos htwo]
        exact decodeThumb32_skipped (hsecond halfword hhalfword) hnext
      · have hone : ¬branch.second.isSome = true :=
          mt (wide_first hthumb hbranch).mpr (hfetched.first ▸ hwide)
        rw [if_neg hwide, if_neg hone]
        exact decodeThumb16_skipped state.inITBlock hnext
  | true =>
      rw [hpassed, Bool.and_true] at heffect
      rw [hfetched.first]
      cases branch with
      | armBranch => exact absurd hthumb Bool.false_ne_true
      | armBx => exact absurd hthumb Bool.false_ne_true
      | thumbCond cond imm8 =>
          rw [if_neg (mt (wide_first hthumb hbranch).mp Bool.false_ne_true),
            decodeThumb16_cond _ hfirst, map_withRunning,
            ← Option.some.inj ((apply_ite some _ _ _).trans heffect)]
          exact thumbCond_goes hset hnext hbranch hfirst
      | thumbBranch imm11 =>
          rw [if_neg (mt (wide_first hthumb hbranch).mp Bool.false_ne_true),
            decodeThumb16_branch _ hfirst, map_withRunning, ← Option.some.inj heffect]
          exact thumbBranch_goes hset hnext hfirst
      | thumbBx l rm =>
          rw [if_neg (mt (wide_first hthumb hbranch).mp Bool.false_ne_true),
            decodeThumb16_bx _ hfirst, map_withRunning]
          obtain ⟨⟨target, t⟩, htarget, heffect⟩ := Option.map_eq_some_iff.mp heffect
          rw [← heffect]
          exact thumbBx_goes hnext hnextMode hfirst htarget
      | wideCond sign cond imm6 j1 j2 imm11 =>
          rw [if_pos ((wide_first hthumb hbranch).mpr rfl), map_withRunning,
            ← Option.some.inj ((apply_ite some _ _ _).trans heffect),
            decodeThumb32_branches (hsecond _ rfl) hfirst rfl,
            wideCond_dispatch sign imm6 j1 j2 imm11 hbranch rfl rfl]
          exact wideCond_goes hset hnext hbranch rfl rfl
      | wideBranch sign imm10 l j1 x j2 imm11 =>
          rw [if_pos ((wide_first hthumb hbranch).mpr rfl), map_withRunning,
            decodeThumb32_branches (hsecond _ rfl) hfirst rfl,
            wideBranch_dispatch sign imm10 imm11 hbranch.1 rfl]
          cases x with
          | false =>
              rw [← Option.some.inj heffect]
              exact wideBranch_goes hnext hnextMode rfl rfl
          | true =>
              rw [← Option.some.inj heffect]
              exact wideBranch_goes hnext hnextMode rfl rfl

/-- The effect of an ARM branch. -/
theorem decodeArm_goes {branch : Branch} {original : ThumbArmisa μ} {effect : Effect}
    (hdecode : AtDecode original.toArmisa (address + 8) running)
    (hmode : running.thumbMode = false) (hset : bit original.cpsr 5 = false)
    (harm : branch.thumb = false) (hbranch : branch.IsBranch)
    (hfirst : running.instruction = branch.first)
    (heffect : branch.effect original address = some effect) :
    Goes original.toArmisa (running.decodeArmInstruction others) effect := by
  rw [Branch.effect, Branch.taken, harm, Bool.not_false, Bool.true_or, Bool.and_true] at heffect
  cases branch with
  | armBranch cond l imm24 =>
      have htarget : (Branch.armBranch cond l imm24).target original.toArmisa address =
          some (address + 8 + (if cond = 15 then (imm24 ++ BitVec.ofBool l ++ 0#1).signExtend 32
            else (imm24 ++ 0#2).signExtend 32), cond == 15) := by
        by_cases hcond : cond = 15
        · rw [if_pos hcond, beq_iff_eq.mpr hcond]
          exact if_pos hcond
        · rw [if_neg hcond, beq_false_of_ne hcond]
          exact if_neg hcond
      rw [htarget] at heffect
      rw [← Option.some.inj ((apply_ite some _ _ _).trans heffect)]
      exact decodeArm_branch hdecode hmode hset hfirst
  | armBx cond l rm => exact decodeArm_bx hdecode hmode hset hbranch hfirst heffect
  | thumbCond => exact absurd harm.symm Bool.false_ne_true
  | thumbBranch => exact absurd harm.symm Bool.false_ne_true
  | thumbBx => exact absurd harm.symm Bool.false_ne_true
  | wideCond => exact absurd harm.symm Bool.false_ne_true
  | wideBranch => exact absurd harm.symm Bool.false_ne_true

/-- The interpreter at its decoding of what it has fetched. -/
theorem atDecode_fetched (state : ThumbArmisa μ) (instruction : BitVec 32) :
    AtDecode state.toArmisa
      (state.pc - armPcCorrection + if bit state.cpsr 5 then 6 else 8)
      (state.startClock.fetched instruction).toRunningArmisa := by
  refine ⟨?_, rfl, fun r hr => Armisa.reg?_setPc _ _ hr⟩
  have hpc : (state.startClock.fetched instruction).pc =
      state.pc + if bit state.cpsr 5 then 2 else 4 := by
    simp only [Armisa.pc, ThumbArmisa.fetched, Armisa.forgetRegisters, Armisa.setPc,
      Function.update_self]
    rfl
  rw [hpc]
  simp only [armPcCorrection]
  cases bit state.cpsr 5 with
  | false =>
      rw [if_neg Bool.false_ne_true, if_neg Bool.false_ne_true]
      bv_omega
  | true =>
      rw [if_pos rfl, if_pos rfl]
      bv_omega

/-- A clock that fetches a Thumb instruction. -/
theorem clock_thumb (state : ThumbArmisa μ) {instruction : BitVec 32}
    (hset : bit state.cpsr 5 = true)
    (hread : port.read1 state.memory (state.pc - armPcCorrection) 1 = some instruction) :
    state.clock port others =
      (state.startClock.fetched instruction).decodeThumbInstruction port others := by
  have hmode : state.startClock.thumbMode = true := hset
  have hmode' : (state.startClock.fetched instruction).thumbMode = true := hset
  have hread' : port.read1 state.startClock.memory state.startClock.insAddress 1 =
      some instruction := hread
  rw [ThumbArmisa.clock]
  simp only [hmode, if_true, hread', hmode']

/-- A clock that fetches an ARM instruction. -/
theorem clock_arm (state : ThumbArmisa μ) {instruction : BitVec 32}
    (hset : bit state.cpsr 5 = false)
    (hread : port.read1 state.memory (state.pc - armPcCorrection) 2 = some instruction) :
    state.clock port others =
      ((state.startClock.fetched instruction).decodeArmInstruction others).map
        (state.startClock.fetched instruction).withRunning := by
  have hmode : state.startClock.thumbMode = false := hset
  have hmode' : (state.startClock.fetched instruction).thumbMode = false := hset
  have hread' : port.read1 state.startClock.memory state.startClock.insAddress 2 =
      some instruction := hread
  rw [ThumbArmisa.clock]
  simp only [hmode, Bool.false_eq_true, if_false, hread', hmode']

/-- Whatever the address and the fields of a branch, the next instruction is the architecture's
target, in its instruction set, and the link register is written as the architecture says.  A
branch that is not taken goes on with the next instruction. -/
theorem clock_branch (port : FetchPort μ) (others : OtherInstructions μ) (state : ThumbArmisa μ)
    (branch : Branch) (effect : Effect) (hset : bit state.cpsr 5 = branch.thumb)
    (hbranch : branch.IsBranch)
    (hstored : branch.StoredAt port state.memory (state.pc - armPcCorrection))
    (hblock : branch.thumb = true → state.blockCondition ≠ 15)
    (heffect : branch.effect state (state.pc - armPcCorrection) = some effect) :
    ∃ final, state.clock port others = some final ∧
      final.startClock.insAddress = effect.address ∧
      final.startClock.thumbMode = effect.thumb ∧
      final.reg? lrReg = effect.link.or (state.reg? lrReg) := by
  obtain ⟨hfirst, hsecond⟩ := hstored
  have hdecode := atDecode_fetched state branch.first
  have hgoes : Goes state.toArmisa ((state.clock port others).map (·.toRunningArmisa)) effect := by
    cases hthumb : branch.thumb with
    | false =>
        rw [hthumb] at hset
        rw [hthumb, if_neg Bool.false_ne_true] at hfirst
        rw [hset, if_neg Bool.false_ne_true] at hdecode
        rw [clock_arm state hset hfirst, map_withRunning]
        exact decodeArm_goes hdecode hset hset hthumb hbranch rfl heffect
    | true =>
        rw [hthumb] at hset
        rw [hthumb, if_pos rfl] at hfirst
        rw [hset, if_pos rfl] at hdecode
        rw [clock_thumb state hset hfirst]
        exact decodeThumb_goes hdecode hset rfl hset hthumb hbranch ⟨rfl, hsecond⟩
          (hblock hthumb) heffect
  obtain ⟨running, hrunning, hpc, hthumb, hlr⟩ := hgoes
  obtain ⟨final, hfinal, rfl⟩ := Option.map_eq_some_iff.mp hrunning
  refine ⟨final, hfinal, ?_, hthumb, hlr⟩
  change final.pc - armPcCorrection = effect.address
  rw [hpc, BitVec.add_sub_cancel]

/-- BLX at an address that is halfway between two words. -/
def blxStart : ThumbArmisa Unit :=
  { Armisa.idle with
    rawReg := Function.update (Function.update (fun _ => 0) cpsrReg 0x33) pcReg 0x8006
    memory := ()
    insAddress := 0
    insL := false
    insCcodeTest := true
    itstate := 0 }

def blxCode : FetchPort Unit where
  read1 := fun _ address _ => if address = 0x8002 then some 0xF000 else some 0xE802

/-- No other instruction is met. -/
def noOthers : OtherInstructions Unit where
  arm := fun _ => none
  thumb16 := fun _ _ _ => none
  thumb32 := fun _ _ => none
  hint := fun _ _ => none
  fetchTrap := fun _ => none

/-- Its base is aligned, it goes on with ARM code, and its link has bit 0 set. -/
theorem clock_branch_blx :
    ∃ final, blxStart.clock blxCode noOthers = some final ∧
      final.startClock.insAddress = 0x8008 ∧ final.startClock.thumbMode = false ∧
      final.reg? lrReg = some 0x8007 :=
  clock_branch blxCode noOthers blxStart (.wideBranch false 0 true true false true 2)
    ⟨0x8008, false, some 0x8007⟩ rfl ⟨.inl rfl, fun _ => rfl⟩
    ⟨rfl, by rintro _ ⟨⟩; rfl⟩ (fun _ => by decide) rfl

end Branches

end Prazor.Arm
