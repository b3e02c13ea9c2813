import Prazor.Arm.BlockTransfer

/-!
# Runs of block transfers

The state after each of the transfers of a list, what the last one leaves, and what a
handler of data aborts finds.
-/

namespace Prazor.Arm

open Prazor.Assignments

namespace BlockArmisa

variable {s : BlockArmisa} {k : ℕ}

/-- The state after the first transfers of the list, before the next one. -/
def midway (s : BlockArmisa) (k : ℕ) : BlockArmisa :=
  { s with
    prevThumbMode := s.thumbMode
    rawReg := if s.insL then assignAll s.rawReg (s.loads k) else s.rawReg
    insAluResult := if s.insL ∨ k = 0 then s.insAluResult else s.storedAt (k - 1)
    insAluResultHi := if s.insL ∨ k = 0 then s.insAluResultHi else 0
    mem := if s.insL then s.mem else assignAll s.mem (s.stores k)
    insRd := s.listedReg k
    insMultCount := BitVec.ofNat 32 (s.count - k)
    insMultWriteback := s.writeback
    insDataAddress := s.address k
    insSUser := s.userRegisters
    runstate := .midMultiple2S }

/-! ## The decoding -/

theorem reg?_insRn (hlt : s.insRn < 16) : s.reg? s.insRn = some s.base := by
  rw [Armisa.reg?, rawIndex_getD s.currentBank (by omega : s.insRn < 17), Option.map_some]
  rfl

theorem address_zero (s : BlockArmisa) : s.address 0 = s.lowest := by
  rw [address, BitVec.ofNat_eq_ofNat, BitVec.mul_zero, BitVec.add_zero]

theorem address_succ (s : BlockArmisa) (k : ℕ) : s.address k + 4 = s.address (k + 1) := by
  rw [address, address, BitVec.add_assoc, BitVec.ofNat_add, BitVec.mul_add]
  rfl

/-- The first clock finds the lowest address. -/
theorem clocks_one (hdecoded : s.Decoded) : s.clocks 1 = some (s.midway 0) := by
  have hcount : (List.range 16).countP (fun j => s.insMultRegisters.getLsbD j) = s.count :=
    List.countP_eq_length_filter
  have hpos := count_pos hdecoded
  have hfresh : s.refreshed = { s with prevThumbMode := s.thumbMode } := by
    rw [refreshed, ← hdecoded.thumbMode]
  have hdecode : s.refreshed.decodeMultiple.map (fun s => { s with runstate := .midMultiple2S }) =
      some (s.midway 0) := by
    have hreg : s.refreshed.reg? s.refreshed.insRn = some s.base := reg?_insRn hdecoded.insRn
    have hseek : s.refreshed.seek 0 = some (s.listedReg 0) := seek_zero hpos
    have hlist : (List.range 16).countP (fun j => s.refreshed.insMultRegisters.getLsbD j) =
        s.count := hcount
    unfold decodeMultiple
    rw [hlist, if_neg hpos.ne', hreg, hseek, hfresh]
    cases hU : s.insU <;> cases hP : s.insP <;>
      simp [midway, loads, stores, turns, address_zero, lowest, writeback, size, hU, hP,
        BitVec.mul_comm, userRegisters, Option.bind_eq_bind]
  have hrunstate : s.refreshed.runstate = .midMultipleS := hdecoded.runstate
  rw [clocks, clocks, Option.bind_some, bodystateClock]
  dsimp only
  rw [hrunstate]
  exact hdecode

/-! ## One transfer -/

@[simp]
theorem runstate_loadWord (s : BlockArmisa) (rd1 : ℕ) (readData : BitVec 32) :
    (s.loadWord rd1 readData).runstate = s.runstate := by
  dsimp only [loadWord]
  split_ifs <;> rfl

/-- A register other than the PC is assigned the word. -/
theorem loadWord_of_ne {rd1 : ℕ} {readData : BitVec 32} (hne : s.insRd ≠ pcReg) :
    s.loadWord rd1 readData = s.setRaw rd1 readData :=
  if_neg hne

/-- The transfers of a list do not write back. -/
theorem singleWriteback_of_mid (hrunstate : s.runstate = .midMultiple2S) :
    s.singleWriteback = some s := by
  rw [singleWriteback, if_neg]
  exact fun h => h.1 hrunstate

theorem transferIndex_midway {r : ℕ} (hr : r < 17) :
    (s.midway k).transferIndex r = some (s.place r) := by
  rw [transferIndex, place]
  split_ifs with huser huser' huser'
  · rfl
  · exact absurd huser huser'
  · exact absurd huser' huser
  · exact rawIndex_getD s.currentBank hr

/-- The execution comes down to a load of the register's place. -/
theorem exec_load_eq (hL : s.insL = true) (hk : k < s.count) :
    (s.midway k).execMemOperandInstr =
      (s.midway k).genericLoad (s.place (s.listedReg k)) := by
  have hrd2 : (s.midway k).transferIndex ((s.midway k).insRd + 1) =
      some (s.place (s.listedReg k + 1)) :=
    transferIndex_midway (Nat.succ_lt_succ (listedReg_lt hk))
  have hrd1 : (s.midway k).transferIndex (s.midway k).insRd =
      some (s.place (s.listedReg k)) :=
    transferIndex_midway ((listedReg_lt hk).trans (Nat.lt_succ_self 16))
  have hmidL : (s.midway k).insL = true := hL
  simp only [execMemOperandInstr, hrd1, hrd2, hmidL, if_true, Option.bind_eq_bind,
    Option.bind_some]

theorem exec_store_eq (hL : s.insL = false) (hk : k < s.count) :
    (s.midway k).execMemOperandInstr =
      (s.midway k).genericStore (s.place (s.listedReg k)) := by
  have hrd1 : (s.midway k).transferIndex (s.midway k).insRd =
      some (s.place (s.listedReg k)) :=
    transferIndex_midway ((listedReg_lt hk).trans (Nat.lt_succ_self 16))
  have hmidL : (s.midway k).insL = false := hL
  simp only [execMemOperandInstr, hrd1, hmidL, Bool.false_eq_true, if_false,
    Option.bind_eq_bind, Option.bind_some]

/-- A load that is granted. -/
theorem exec_load (hL : s.insL = true) (hk : k < s.count)
    (hgranted : s.fault (s.address k) = false) :
    (s.midway k).execMemOperandInstr =
      some ((s.midway k).loadWord (s.place (s.listedReg k)) (wordAt s.mem (s.address k)),
        true) := by
  have hread : (s.midway k).armisaRead1 (s.midway k).insDataAddress =
      some (wordAt s.mem (s.address k)) := by
    simp only [armisaRead1, midway, hL, if_true]
    exact if_neg (by rw [hgranted]; exact Bool.false_ne_true)
  rw [exec_load_eq hL hk, genericLoad, hread]
  dsimp only
  rw [singleWriteback_of_mid (runstate_loadWord _ _ _), Option.map_some]

/-- A load that is refused changes nothing. -/
theorem exec_load_refused (hL : s.insL = true) (hk : k < s.count)
    (hfault : s.fault (s.address k) = true) :
    (s.midway k).execMemOperandInstr = some (s.midway k, false) := by
  have hread : (s.midway k).armisaRead1 (s.midway k).insDataAddress = none := if_pos hfault
  rw [exec_load_eq hL hk, genericLoad, hread]

theorem rawReg_midway_store (hL : s.insL = false) (k : ℕ) : (s.midway k).rawReg = s.rawReg := by
  simp only [midway, hL, Bool.false_eq_true, if_false]

theorem mem_midway_store (hL : s.insL = false) (k : ℕ) :
    (s.midway k).mem = assignAll s.mem (s.stores k) := by
  simp only [midway, hL, Bool.false_eq_true, if_false]

theorem rawReg_midway_load (hL : s.insL = true) (k : ℕ) :
    (s.midway k).rawReg = assignAll s.rawReg (s.loads k) := by
  simp only [midway, hL, if_true]

theorem mem_midway_load (hL : s.insL = true) (k : ℕ) : (s.midway k).mem = s.mem := by
  simp only [midway, hL, if_true]

/-- One more store. -/
theorem assignAll_stores_succ (s : BlockArmisa) (mem : BitVec 32 → Byte) (k : ℕ) :
    assignAll mem (s.stores (k + 1)) =
      assignAll (assignAll mem (s.stores k)) (wordBytes (s.address k) (s.storedAt k)) := by
  rw [stores, List.range_succ, List.flatMap_append, assignAll_append]
  simp only [List.flatMap_cons, List.flatMap_nil, List.append_nil]
  rfl

theorem genericStore_granted {storing stored : BlockArmisa} {rd1 : ℕ}
    (hstoring : s.takeResult (s.rawReg rd1) = storing)
    (hwrite : storing.armisaWrite1 storing.insDataAddress storing.insAluResult = some stored) :
    s.genericStore rd1 = stored.singleWriteback.map (·, true) := by
  subst hstoring
  simp only [genericStore, hwrite]

theorem genericStore_refused {storing : BlockArmisa} {rd1 : ℕ}
    (hstoring : s.takeResult (s.rawReg rd1) = storing)
    (hwrite : storing.armisaWrite1 storing.insDataAddress storing.insAluResult = none) :
    s.genericStore rd1 = some (storing, false) := by
  subst hstoring
  simp only [genericStore, hwrite]

theorem takeResult_midway (hL : s.insL = false) (k : ℕ) :
    (s.midway k).takeResult ((s.midway k).rawReg (s.place (s.listedReg k))) =
      (s.midway k).takeResult (s.storedAt k) := by
  rw [rawReg_midway_store hL]
  rfl

/-- A store that is granted. -/
theorem exec_store (hL : s.insL = false) (hk : k < s.count)
    (hgranted : s.fault (s.address k) = false) :
    (s.midway k).execMemOperandInstr =
      some (((s.midway k).takeResult (s.storedAt k)).setMem
        (assignAll s.mem (s.stores (k + 1))), true) := by
  set storing := (s.midway k).takeResult (s.storedAt k)
  have hwrite : storing.armisaWrite1 storing.insDataAddress storing.insAluResult =
      some (storing.setMem (assignAll s.mem (s.stores (k + 1)))) := by
    have hmem : storing.mem = assignAll s.mem (s.stores k) := mem_midway_store hL k
    rw [armisaWrite1, hmem, assignAll_stores_succ]
    exact if_neg (by rw [Bool.not_eq_true]; exact hgranted)
  rw [exec_store_eq hL hk, genericStore_granted (takeResult_midway hL k) hwrite]
  exact congrArg (Option.map (·, true)) (singleWriteback_of_mid rfl)

/-- A store that is refused changes the fields of the result only. -/
theorem exec_store_refused (hL : s.insL = false) (hk : k < s.count)
    (hfault : s.fault (s.address k) = true) :
    (s.midway k).execMemOperandInstr =
      some ((s.midway k).takeResult (s.storedAt k), false) := by
  rw [exec_store_eq hL hk]
  exact genericStore_refused (takeResult_midway hL k) (if_pos hfault)

/-! ## One clock -/

/-- What a clock makes of the result of `DecodeMultiple2`. -/
def afterDecode (result : BlockArmisa × Bool) : BlockArmisa :=
  if result.2 then { result.1 with runstate := .runningS } else result.1

theorem loads_ne_cpsr (hk : k ≤ s.count) :
    assignAll s.rawReg (s.loads k) cpsrReg = s.rawReg cpsrReg := by
  apply assignAll_turns_of_ne
  intro i hi
  exact place_ne_cpsr (listedReg_lt (hi.trans_le hk))

theorem cpsr_midway (hk : k ≤ s.count) : (s.midway k).cpsr = s.cpsr := by
  cases hL : s.insL with
  | true => exact (congrFun (rawReg_midway_load hL k) cpsrReg).trans (loads_ne_cpsr hk)
  | false => exact congrFun (rawReg_midway_store hL k) cpsrReg

/-- The transfers do not change the T bit, so the refresh finds what it has found before. -/
theorem refreshed_midway (hdecoded : s.Decoded) (hk : k ≤ s.count) :
    (s.midway k).refreshed = s.midway k := by
  rw [refreshed, cpsr_midway hk, ← hdecoded.thumbMode]
  rfl

theorem clock_granted {t : BlockArmisa} (hdecoded : s.Decoded) (hk : k ≤ s.count)
    (hexec : (s.midway k).execMemOperandInstr = some (t, true)) :
    (s.midway k).bodystateClock = t.decodeMultiple2.map afterDecode := by
  have hblock : (s.midway k).insBlockT = true := hdecoded.blockT
  have hrunstate : (s.midway k).runstate = .midMultiple2S := rfl
  simp only [bodystateClock, refreshed_midway hdecoded hk, hrunstate, hblock, if_true, hexec,
    Option.bind_eq_bind, Option.bind_some]
  cases t.decodeMultiple2 <;> rfl

theorem clock_refused {t : BlockArmisa} (hdecoded : s.Decoded) (hk : k ≤ s.count)
    (hexec : (s.midway k).execMemOperandInstr = some (t, false)) :
    (s.midway k).bodystateClock =
      (t.decodeTrap .abort dataVector).map fun s => { s with runstate := .runningS } := by
  have hblock : (s.midway k).insBlockT = true := hdecoded.blockT
  have hrunstate : (s.midway k).runstate = .midMultiple2S := rfl
  simp only [bodystateClock, refreshed_midway hdecoded hk, hrunstate, hblock, if_true, hexec,
    Option.bind_eq_bind, Option.bind_some, Bool.false_eq_true, if_false]

theorem exceptionReturn_of_ne (hne : s.insRd ≠ pcReg) : s.exceptionReturn = some s := by
  rw [exceptionReturn, decide_eq_false hne, Bool.and_false, if_neg Bool.false_ne_true]

theorem dropPcBit_of_ne (hne : s.insRd ≠ pcReg) : s.dropPcBit = s :=
  if_neg fun h => hne h.1

/-- The move to the next register. -/
theorem decodeMultiple2_next {r : ℕ} (hne : s.insRd ≠ pcReg) (hcount : s.insMultCount ≠ 1)
    (hseek : s.seek (s.insRd + 1) = some r) :
    s.decodeMultiple2 = some ({ s with
      insDataAddress := s.insDataAddress + 4
      insRd := r
      insMultCount := s.insMultCount - 1 }, false) := by
  simp only [decodeMultiple2, exceptionReturn_of_ne hne, dropPcBit_of_ne hne,
    Option.bind_eq_bind, Option.bind_some, if_neg hcount, hseek]

theorem ofNat_count_sub_one (hk : k + 1 < s.count) :
    BitVec.ofNat 32 (s.count - k) - 1 = BitVec.ofNat 32 (s.count - (k + 1)) := by
  have hsplit : s.count - k = s.count - (k + 1) + 1 := by omega
  rw [hsplit, BitVec.ofNat_add]
  exact BitVec.add_sub_cancel _ _

theorem ofNat_count_eq_one (hk : k < s.count) :
    BitVec.ofNat 32 (s.count - k) = 1 ↔ k + 1 = s.count := by
  have hle := count_le s
  rw [BitVec.toNat_eq, BitVec.toNat_ofNat, Nat.mod_eq_of_lt (by omega)]
  change s.count - k = 1 ↔ _
  omega

/-- A clock that loads a register that is not the last one. -/
theorem clock_load (hdecoded : s.Decoded) (hL : s.insL = true) (hk : k + 1 < s.count)
    (hgranted : s.fault (s.address k) = false) :
    (s.midway k).bodystateClock = some (s.midway (k + 1)) := by
  have hne : (s.midway k).insRd ≠ pcReg := listedReg_ne_pc hk
  have hcount : (s.midway k).insMultCount ≠ 1 := by
    intro hone
    exact hk.ne ((ofNat_count_eq_one (Nat.lt_of_succ_lt hk)).mp hone)
  have hregs : Function.update (assignAll s.rawReg (s.loads k)) (s.place (s.listedReg k))
      (wordAt s.mem (s.address k)) = assignAll s.rawReg (s.loads (k + 1)) := by
    have hloaded : s.loaded k = wordAt s.mem (s.address k) := if_neg (listedReg_ne_pc hk)
    rw [loads, loads, assignAll_turns_succ, hloaded]
  have hnext := @decodeMultiple2_next
    ((s.midway k).setRaw (s.place (s.listedReg k)) (wordAt s.mem (s.address k)))
    (s.listedReg (k + 1)) hne hcount (seek_next hk)
  rw [clock_granted hdecoded (by omega) (exec_load hL (Nat.lt_of_succ_lt hk) hgranted),
    loadWord_of_ne hne, hnext, Option.map_some]
  simp only [afterDecode, Bool.false_eq_true, if_false, setRaw, midway, hL, if_true, true_or,
    hregs, address_succ, ofNat_count_sub_one hk]

/-- A clock that stores a register that is not the last one. -/
theorem clock_store (hdecoded : s.Decoded) (hL : s.insL = false) (hk : k + 1 < s.count)
    (hgranted : s.fault (s.address k) = false) :
    (s.midway k).bodystateClock = some (s.midway (k + 1)) := by
  have hne : (s.midway k).insRd ≠ pcReg := listedReg_ne_pc hk
  have hcount : (s.midway k).insMultCount ≠ 1 := by
    intro hone
    exact hk.ne ((ofNat_count_eq_one (Nat.lt_of_succ_lt hk)).mp hone)
  have hnext := @decodeMultiple2_next
    (((s.midway k).takeResult (s.storedAt k)).setMem (assignAll s.mem (s.stores (k + 1))))
    (s.listedReg (k + 1)) hne hcount (seek_next hk)
  rw [clock_granted hdecoded (by omega) (exec_store hL (Nat.lt_of_succ_lt hk) hgranted), hnext,
    Option.map_some]
  simp only [afterDecode, Bool.false_eq_true, if_false, takeResult, setMem, midway, hL,
    address_succ, ofNat_count_sub_one hk, false_or, Nat.succ_ne_zero, Nat.add_sub_cancel]

/-- A clock that is not the last one of a transfer. -/
theorem clock_midway (hdecoded : s.Decoded) (hk : k + 1 < s.count)
    (hgranted : s.fault (s.address k) = false) :
    (s.midway k).bodystateClock = some (s.midway (k + 1)) := by
  cases hL : s.insL with
  | true => exact clock_load hdecoded hL hk hgranted
  | false => exact clock_store hdecoded hL hk hgranted

/-- As long as the accesses are granted, each clock is one transfer. -/
theorem clocks_midway (hdecoded : s.Decoded) (hk : k < s.count)
    (hgranted : ∀ i < k, s.fault (s.address i) = false) :
    s.clocks (k + 1) = some (s.midway k) := by
  induction k with
  | zero => exact clocks_one hdecoded
  | succ k ih =>
      have hbefore : s.clocks (k + 1) = some (s.midway k) :=
        ih (Nat.lt_of_succ_lt hk) fun i hi => hgranted i (hi.trans (Nat.lt_succ_self k))
      rw [clocks, hbefore, Option.bind_some]
      exact clock_midway hdecoded hk (hgranted k (Nat.lt_succ_self k))

/-! ## The last transfer -/

/-- The registers after all transfers, without the write-back. -/
def regsAfter (s : BlockArmisa) : ℕ → BitVec 32 :=
  if s.insL then assignAll s.rawReg (s.loads s.count) else s.rawReg

/-- The memory after all transfers. -/
def memAfter (s : BlockArmisa) : BitVec 32 → Byte :=
  if s.insL then s.mem else assignAll s.mem (s.stores s.count)

/-- A load with S and the PC in its list returns from an exception. -/
def returning (s : BlockArmisa) : Bool := s.insL && s.insS && s.insMultRegisters.getLsbD 15

/-- The bank of the mode that the SPSR gives. -/
def returnBank (s : BlockArmisa) : ArmBank :=
  (s.toArmisa.setCpsr (s.toArmisa.reg spsrReg)).decodeSetModeFromCpsr.currentBank

/-- The bank in which the write-back finds its register. -/
def finalBank (s : BlockArmisa) : ArmBank := if s.returning then s.returnBank else s.currentBank

/-- Where the write-back goes. -/
def writebackPlace (s : BlockArmisa) : ℕ := (Armisa.rawIndex s.finalBank s.insRn).getD 0

/-- All transfers are done and `DecodeMultiple2` is to find that. -/
structure LastStep (s t : BlockArmisa) : Prop where
  insL : t.insL = s.insL
  insS : t.insS = s.insS
  insW : t.insW = s.insW
  insRn : t.insRn = s.insRn
  insMultRegisters : t.insMultRegisters = s.insMultRegisters
  currentBank : t.currentBank = s.currentBank
  insRd : t.insRd = s.listedReg (s.count - 1)
  insMultCount : t.insMultCount = 1
  insMultWriteback : t.insMultWriteback = s.writeback
  mem : t.mem = s.memAfter
  rawReg : ∀ p, p ≠ cpsrReg → t.rawReg p = s.regsAfter p
  cpsr : s.insMultRegisters.getLsbD 15 = false → t.cpsr = s.cpsr

theorem insRd_eq_pc (hdecoded : s.Decoded) :
    s.listedReg (s.count - 1) = pcReg ↔ s.insMultRegisters.getLsbD 15 = true := by
  have hpos := count_pos hdecoded
  constructor
  · intro hpc
    have hmem := listedReg_mem (Nat.sub_lt hpos Nat.one_pos)
    rw [hpc] at hmem
    exact (mem_listed.mp hmem).2
  · intro hbit
    obtain ⟨i, hi, hreg⟩ := exists_listedReg (mem_listed.mpr ⟨by decide, hbit⟩)
    have hlast : i = s.count - 1 := by
      by_contra hne
      exact listedReg_ne_pc (by omega) hreg
    rw [← hlast]
    exact hreg

theorem loadWord_eq (s : BlockArmisa) (rd1 : ℕ) (readData : BitVec 32) :
    s.loadWord rd1 readData = { s with rawReg := (s.loadWord rd1 readData).rawReg } := by
  dsimp only [loadWord]
  split_ifs <;> rfl

theorem and_not_one {word : BitVec 32} (heven : bit word 0 = false) : word &&& ~~~1 = word := by
  apply BitVec.eq_of_getLsbD_eq
  intro i hi
  rw [BitVec.getLsbD_and, BitVec.getLsbD_not, decide_eq_true hi, Bool.true_and]
  rcases Nat.eq_zero_or_pos i with rfl | hpos
  · rw [show word.getLsbD 0 = false from heven, Bool.false_and]
  · have hone : (1 : BitVec 32).getLsbD i = false := by
      simp [BitVec.getLsbD_one, hpos.ne']
    rw [hone, Bool.not_false, Bool.and_true]

@[simp]
theorem rawReg_setRaw (s : BlockArmisa) (i : ℕ) (v : BitVec 32) :
    (s.setRaw i v).rawReg = Function.update s.rawReg i v := rfl

@[simp]
theorem insRd_setRaw (s : BlockArmisa) (i : ℕ) (v : BitVec 32) :
    (s.setRaw i v).insRd = s.insRd := rfl

/-- A load of the PC. -/
theorem rawReg_loadWord_pc {readData : BitVec 32} {p : ℕ} (hpc : s.insRd = pcReg)
    (hp : p ≠ cpsrReg) :
    (s.loadWord pcReg readData).rawReg p =
      Function.update s.rawReg pcReg ((readData &&& ~~~1) + armPcCorrection) p := by
  have hne : pcReg ≠ cpsrReg := by decide
  dsimp only [loadWord]
  rw [insRd_setRaw, if_pos hpc]
  by_cases hat : p = pcReg
  · subst hat
    cases hbit : bit readData 0 with
    | true => simp
    | false =>
        rw [and_not_one hbit]
        cases bit readData 1 <;> simp [hne]
  · cases bit readData 0 <;> cases bit readData 1 <;> simp [hp, hat]

/-- The last load. -/
theorem exec_last_load (hdecoded : s.Decoded) (hL : s.insL = true) (hk : k + 1 = s.count)
    (hgranted : s.fault (s.address k) = false) :
    ∃ t, (s.midway k).execMemOperandInstr = some (t, true) ∧ LastStep s t := by
  have hlt : k < s.count := by omega
  have hlast : s.count - 1 = k := by omega
  refine ⟨_, exec_load hL hlt hgranted, ?_⟩
  have hregs : ∀ p, p ≠ cpsrReg →
      ((s.midway k).loadWord (s.place (s.listedReg k)) (wordAt s.mem (s.address k))).rawReg p =
        s.regsAfter p := by
    intro p hp
    rw [regsAfter, if_pos hL, ← hk, loads, assignAll_turns_succ, ← loads,
      ← rawReg_midway_load hL]
    by_cases hpc : s.listedReg k = pcReg
    · have hmidpc : (s.midway k).insRd = pcReg := hpc
      have hloaded : s.loaded k =
          (wordAt s.mem (s.address k) &&& ~~~1) + armPcCorrection := if_pos hpc
      rw [hpc, place_pc, rawReg_loadWord_pc hmidpc hp, hloaded]
    · have hmidne : (s.midway k).insRd ≠ pcReg := hpc
      have hloaded : s.loaded k = wordAt s.mem (s.address k) := if_neg hpc
      rw [loadWord_of_ne hmidne, hloaded, rawReg_setRaw]
  have hcpsr : s.insMultRegisters.getLsbD 15 = false →
      ((s.midway k).loadWord (s.place (s.listedReg k)) (wordAt s.mem (s.address k))).cpsr =
        s.cpsr := by
    intro hbit
    have hne : (s.midway k).insRd ≠ pcReg := by
      intro hpc
      rw [← hlast] at hpc
      exact Bool.false_ne_true (hbit.symm.trans ((insRd_eq_pc hdecoded).mp hpc))
    rw [loadWord_of_ne hne]
    change Function.update (s.midway k).rawReg _ _ cpsrReg = s.rawReg cpsrReg
    rw [Function.update_of_ne (place_ne_cpsr (listedReg_lt hlt)).symm, rawReg_midway_load hL,
      loads_ne_cpsr hlt.le]
  have hmem : (s.midway k).mem = s.memAfter := by
    rw [mem_midway_load hL, memAfter, if_pos hL]
  have hone : (s.midway k).insMultCount = 1 := (ofNat_count_eq_one hlt).mpr hk
  rw [loadWord_eq]
  exact
    { insL := rfl
      insS := rfl
      insW := rfl
      insRn := rfl
      insMultRegisters := rfl
      currentBank := rfl
      insRd := by rw [hlast]; rfl
      insMultCount := hone
      insMultWriteback := rfl
      mem := hmem
      rawReg := hregs
      cpsr := hcpsr }

/-- The last store. -/
theorem exec_last_store (hL : s.insL = false) (hk : k + 1 = s.count)
    (hgranted : s.fault (s.address k) = false) :
    ∃ t, (s.midway k).execMemOperandInstr = some (t, true) ∧ LastStep s t := by
  have hlt : k < s.count := by omega
  have hlast : s.count - 1 = k := by omega
  refine ⟨_, exec_store hL hlt hgranted, ?_⟩
  have hregs : (s.midway k).rawReg = s.regsAfter := by
    rw [rawReg_midway_store hL, regsAfter, hL, if_neg Bool.false_ne_true]
  have hcpsr : (s.midway k).rawReg cpsrReg = s.rawReg cpsrReg :=
    congrFun (rawReg_midway_store hL k) cpsrReg
  have hmem : assignAll s.mem (s.stores (k + 1)) = s.memAfter := by
    rw [memAfter, hL, if_neg Bool.false_ne_true, hk]
  have hone : (s.midway k).insMultCount = 1 := (ofNat_count_eq_one hlt).mpr hk
  exact
    { insL := rfl
      insS := rfl
      insW := rfl
      insRn := rfl
      insMultRegisters := rfl
      currentBank := rfl
      insRd := by rw [hlast]; rfl
      insMultCount := hone
      insMultWriteback := rfl
      mem := hmem
      rawReg := fun p _ => congrFun hregs p
      cpsr := fun _ => hcpsr }

/-! ## The return from an exception -/

/-- Examining a CPSR sets a mode or does nothing. -/
theorem decodeSetModeFromCpsr_cases (core : Armisa) :
    core.decodeSetModeFromCpsr = core ∨
      ∃ mode, core.decodeSetModeFromCpsr = core.setMode mode false := by
  unfold Armisa.decodeSetModeFromCpsr
  split
  all_goals first
    | exact Or.inr ⟨_, rfl⟩
    | exact Or.inl rfl

theorem insRn_decodeSetModeFromCpsr (core : Armisa) :
    core.decodeSetModeFromCpsr.insRn = core.insRn := by
  rcases decodeSetModeFromCpsr_cases core with hsame | ⟨mode, hset⟩
  · rw [hsame]
  · rw [hset]
    rfl

theorem insRd_decodeSetModeFromCpsr (core : Armisa) :
    core.decodeSetModeFromCpsr.insRd = core.insRd := by
  rcases decodeSetModeFromCpsr_cases core with hsame | ⟨mode, hset⟩
  · rw [hsame]
  · rw [hset]
    rfl

theorem rawReg_decodeSetModeFromCpsr (core : Armisa) {p : ℕ} (hp : p ≠ cpsrReg) :
    core.decodeSetModeFromCpsr.rawReg p = core.rawReg p := by
  rcases decodeSetModeFromCpsr_cases core with hsame | ⟨mode, hset⟩
  · rw [hsame]
  · rw [hset]
    exact Function.update_of_ne hp _ _

/-- The bank that a CPSR selects depends on nothing else but the bank of before. -/
theorem currentBank_decodeSetModeFromCpsr {core core' : Armisa} (hcpsr : core.cpsr = core'.cpsr)
    (hbank : core.currentBank = core'.currentBank) :
    core.decodeSetModeFromCpsr.currentBank = core'.decodeSetModeFromCpsr.currentBank := by
  unfold Armisa.decodeSetModeFromCpsr
  rw [hcpsr]
  split
  all_goals first
    | rfl
    | exact hbank

/-- What `DecodeMultiple2` makes of the state before it looks at the count. -/
structure Returned (s t u : BlockArmisa) : Prop where
  insW : u.insW = s.insW
  insRn : u.insRn = s.insRn
  insRd : u.insRd = t.insRd
  insMultCount : u.insMultCount = 1
  insMultWriteback : u.insMultWriteback = s.writeback
  currentBank : u.currentBank = s.finalBank
  mem : u.mem = t.mem
  rawReg : ∀ p, p ≠ cpsrReg → u.rawReg p = t.rawReg p
  cpsr : s.insMultRegisters.getLsbD 15 = false → u.cpsr = t.cpsr

namespace LastStep

variable {t : BlockArmisa}

theorem insRd_pc (hlast : LastStep s t) (hdecoded : s.Decoded) :
    t.insRd = pcReg ↔ s.insMultRegisters.getLsbD 15 = true := by
  rw [hlast.insRd]
  exact insRd_eq_pc hdecoded

/-- The condition of the return from an exception. -/
theorem returning_eq (hlast : LastStep s t) (hdecoded : s.Decoded) :
    (t.insL && t.insS && t.insMultRegisters.getLsbD 15 && decide (t.insRd = pcReg)) =
      s.returning := by
  rw [hlast.insL, hlast.insS, hlast.insMultRegisters, returning]
  cases hbit : s.insMultRegisters.getLsbD 15 with
  | false => rw [Bool.and_false, Bool.false_and]
  | true => rw [decide_eq_true ((hlast.insRd_pc hdecoded).mpr hbit), Bool.and_true]

/-- The transfer has not changed the SPSR. -/
theorem reg?_spsr (hlast : LastStep s t) (hreturning : s.returning = true) :
    t.reg? spsrReg = s.reg? spsrReg := by
  have huser : s.userRegisters = false := by
    rw [returning] at hreturning
    rw [userRegisters]
    revert hreturning
    cases s.insL <;> cases s.insS <;> cases s.insMultRegisters.getLsbD 15 <;> decide
  rw [Armisa.reg?, Armisa.reg?, hlast.currentBank]
  cases hindex : Armisa.rawIndex s.currentBank spsrReg with
  | none => rfl
  | some i =>
      have hcpsr : i ≠ cpsrReg := Armisa.rawIndex_ne_cpsr (by decide) hindex
      have hkept : s.regsAfter i = s.rawReg i := by
        unfold regsAfter
        split_ifs
        · apply assignAll_turns_of_ne
          intro j hj hplace
          have hlt := listedReg_lt hj
          rw [place, huser, if_neg Bool.false_ne_true] at hplace
          have hreg := rawIndex_getD s.currentBank (by omega : s.listedReg j < 17)
          rw [hplace] at hreg
          have hsame := Armisa.rawIndex_injective hreg hindex
          simp only [spsrReg] at hsame
          omega
        · rfl
      rw [Option.map_some, Option.map_some, hlast.rawReg i hcpsr, hkept]

/-- A return in user or system mode reads an SPSR that is not there. -/
theorem exceptionReturn_none (hlast : LastStep s t) (hdecoded : s.Decoded)
    (hreturning : s.returning = true) (huser : s.currentBank = .user) :
    t.exceptionReturn = none := by
  have hspsr : t.reg? spsrReg = none := by
    rw [hlast.reg?_spsr hreturning, Armisa.reg?, huser]
    rfl
  rw [exceptionReturn, hlast.returning_eq hdecoded, hreturning, if_pos rfl, hspsr,
    Option.map_none]

theorem exceptionReturn_some (hlast : LastStep s t) (hdecoded : s.Decoded)
    (hbank : s.returning = true → s.currentBank ≠ .user) :
    ∃ u, t.exceptionReturn = some u ∧ Returned s t u := by
  rw [exceptionReturn, hlast.returning_eq hdecoded]
  cases hreturning : s.returning with
  | false =>
      refine ⟨t, if_neg Bool.false_ne_true, ?_⟩
      exact
        { insW := hlast.insW
          insRn := hlast.insRn
          insRd := rfl
          insMultCount := hlast.insMultCount
          insMultWriteback := hlast.insMultWriteback
          currentBank := by
            rw [finalBank, hreturning, if_neg Bool.false_ne_true]
            exact hlast.currentBank
          mem := rfl
          rawReg := fun _ _ => rfl
          cpsr := fun _ => rfl }
  | true =>
      have hspsr : t.reg? spsrReg = some (s.toArmisa.reg spsrReg) := by
        rw [hlast.reg?_spsr hreturning, Armisa.reg]
        have hnotUser := hbank hreturning
        revert hnotUser
        rw [Armisa.reg?]
        cases s.currentBank <;> intro hnotUser
        · exact absurd rfl hnotUser
        all_goals rfl
      rw [if_pos rfl, hspsr, Option.map_some]
      refine ⟨_, rfl, ?_⟩
      exact
        { insW := hlast.insW
          insRn := (insRn_decodeSetModeFromCpsr _).trans hlast.insRn
          insRd := insRd_decodeSetModeFromCpsr _
          insMultCount := hlast.insMultCount
          insMultWriteback := hlast.insMultWriteback
          currentBank := by
            rw [finalBank, hreturning, if_pos rfl, returnBank]
            exact currentBank_decodeSetModeFromCpsr
              ((Armisa.cpsr_setCpsr _ _).trans (Armisa.cpsr_setCpsr _ _).symm)
              hlast.currentBank
          mem := rfl
          rawReg := fun p hp => by
            rw [rawReg_decodeSetModeFromCpsr _ hp]
            exact Function.update_of_ne hp _ _
          cpsr := fun hbit => by
            rw [returning, hbit, Bool.and_false] at hreturning
            exact absurd hreturning Bool.false_ne_true }

end LastStep

/-! ## The end of a transfer -/

/-- What a completed transfer leaves.  A store of an odd PC clears the lowest bit of it. -/
structure Finished (s t : BlockArmisa) : Prop where
  runstate : t.runstate = .runningS
  mem : t.mem = s.memAfter
  written : s.insW = true → t.rawReg s.writebackPlace = s.writeback
  kept : ∀ p, p ≠ cpsrReg → (s.insL = true ∨ p ≠ pcReg) →
    ¬(s.insW = true ∧ p = s.writebackPlace) → t.rawReg p = s.regsAfter p
  keptPc : ¬(s.insW = true ∧ pcReg = s.writebackPlace) →
    t.rawReg pcReg = s.regsAfter pcReg ∨ t.rawReg pcReg = s.regsAfter pcReg &&& ~~~1
  cpsr : s.insMultRegisters.getLsbD 15 = false → t.cpsr = s.cpsr

/-- A loaded PC is even. -/
theorem bit_loaded_pc {word : BitVec 32} :
    bit ((word &&& ~~~1) + armPcCorrection) 0 = false := by
  simp [bit, armPcCorrection, BitVec.getLsbD, BitVec.toNat_add, Nat.testBit_zero, Nat.add_mod]

theorem writebackPlace_eq (hdecoded : s.Decoded) :
    Armisa.rawIndex s.finalBank s.insRn = some s.writebackPlace :=
  rawIndex_getD s.finalBank (hdecoded.insRn.trans (by decide))

theorem writebackPlace_ne_cpsr (hdecoded : s.Decoded) : s.writebackPlace ≠ cpsrReg :=
  Armisa.rawIndex_ne_cpsr (hdecoded.insRn.ne) (writebackPlace_eq hdecoded)

theorem dropPcBit_eq (u : BlockArmisa) :
    u.dropPcBit = { u with rawReg := u.dropPcBit.rawReg } := by
  dsimp only [dropPcBit]
  split_ifs <;> rfl

theorem rawReg_dropPcBit {u : BlockArmisa} {p : ℕ} (hcpsr : p ≠ cpsrReg) (hpc : p ≠ pcReg) :
    u.dropPcBit.rawReg p = u.rawReg p := by
  dsimp only [dropPcBit]
  split_ifs
  · rw [rawReg_setRaw, rawReg_setRaw, Function.update_of_ne hcpsr, Function.update_of_ne hpc]
  · rfl

theorem rawReg_dropPcBit_pc (u : BlockArmisa) :
    u.dropPcBit.rawReg pcReg = u.rawReg pcReg ∨
      u.dropPcBit.rawReg pcReg = u.rawReg pcReg &&& ~~~1 := by
  dsimp only [dropPcBit]
  split_ifs
  · right
    rw [rawReg_setRaw, rawReg_setRaw, Function.update_of_ne (by decide), Function.update_self]
  · exact Or.inl rfl

theorem dropPcBit_of_even {u : BlockArmisa}
    (heven : u.insRd = pcReg → bit (u.rawReg pcReg) 0 = false) : u.dropPcBit = u := by
  apply if_neg
  rintro ⟨hpc, hodd⟩
  exact Bool.false_ne_true ((heven hpc).symm.trans hodd)

theorem assignReg_eq {r i : ℕ} (hindex : Armisa.rawIndex s.currentBank r = some i)
    (v : BitVec 32) : s.assignReg r v = some (s.setRaw i v) := by
  rw [assignReg, Armisa.setReg?, hindex, Option.map_some, Option.map_some]
  rfl

/-- What the last call of `DecodeMultiple2` does after the return from an exception. -/
theorem decodeMultiple2_last {t u : BlockArmisa} (hreturn : t.exceptionReturn = some u)
    (hu : Returned s t u) (hdecoded : s.Decoded) :
    t.decodeMultiple2 = some
      (if s.insW then u.dropPcBit.setRaw s.writebackPlace s.writeback else u.dropPcBit,
        true) := by
  set v := u.dropPcBit with hv
  have hveq : v = { u with rawReg := v.rawReg } := dropPcBit_eq u
  have hcount : v.insMultCount = 1 := by
    rw [hveq]
    exact hu.insMultCount
  have hW : v.insW = s.insW := by
    rw [hveq]
    exact hu.insW
  have hwrite : v.assignReg v.insRn v.insMultWriteback =
      some (v.setRaw s.writebackPlace s.writeback) := by
    have hRn : v.insRn = s.insRn := by
      rw [hveq]
      exact hu.insRn
    have hbank : v.currentBank = s.finalBank := by
      rw [hveq]
      exact hu.currentBank
    have hvalue : v.insMultWriteback = s.writeback := by
      rw [hveq]
      exact hu.insMultWriteback
    rw [hvalue, hRn]
    apply assignReg_eq
    rw [hbank]
    exact writebackPlace_eq hdecoded
  simp only [decodeMultiple2, hreturn, Option.bind_eq_bind, Option.bind_some, ← hv, hcount,
    if_true, hW, hwrite]
  cases s.insW <;> rfl

/-- A load leaves an even PC. -/
theorem LastStep.even_pc {t : BlockArmisa} (hlast : LastStep s t) (hdecoded : s.Decoded)
    (hL : s.insL = true) (hpc : t.insRd = pcReg) : bit (s.regsAfter pcReg) 0 = false := by
  have hpos := count_pos hdecoded
  have hlt : s.count - 1 < s.count := Nat.sub_lt hpos Nat.one_pos
  have hreg : s.listedReg (s.count - 1) = pcReg := hlast.insRd.symm.trans hpc
  have hplace : s.place (s.listedReg (s.count - 1)) = pcReg := by rw [hreg, place_pc]
  have hvalue : s.regsAfter pcReg = s.loaded (s.count - 1) := by
    rw [regsAfter, if_pos hL, loads, ← hplace]
    exact assignAll_turns_of_lt listed_place_injective hlt
  rw [hvalue, loaded, if_pos hreg]
  exact bit_loaded_pc

/-- The last clock of a transfer ends it. -/
theorem LastStep.finish {t : BlockArmisa} (hlast : LastStep s t) (hdecoded : s.Decoded)
    (hbank : s.returning = true → s.currentBank ≠ .user) :
    ∃ w, t.decodeMultiple2.map afterDecode = some w ∧ Finished s w := by
  obtain ⟨u, hreturn, hu⟩ := hlast.exceptionReturn_some hdecoded hbank
  set v := u.dropPcBit with hv
  have hureg : ∀ p, p ≠ cpsrReg → u.rawReg p = s.regsAfter p := fun p hp =>
    (hu.rawReg p hp).trans (hlast.rawReg p hp)
  have hvpc : v.rawReg pcReg = s.regsAfter pcReg ∨
      v.rawReg pcReg = s.regsAfter pcReg &&& ~~~1 := by
    rw [← hureg pcReg (by decide)]
    exact rawReg_dropPcBit_pc u
  have hvreg : ∀ p, p ≠ cpsrReg → (s.insL = true ∨ p ≠ pcReg) →
      v.rawReg p = s.regsAfter p := by
    intro p hp hor
    by_cases hpc : p = pcReg
    · have hL : s.insL = true := hor.resolve_right (fun hne => hne hpc)
      have heven : u.insRd = pcReg → bit (u.rawReg pcReg) 0 = false := by
        intro hRd
        rw [hureg pcReg (by decide)]
        exact hlast.even_pc hdecoded hL (hu.insRd.symm.trans hRd)
      rw [hv, dropPcBit_of_even heven]
      exact hureg p hp
    · rw [hv, rawReg_dropPcBit hp hpc]
      exact hureg p hp
  have hvmem : v.mem = s.memAfter := by
    rw [hv, dropPcBit_eq]
    exact hu.mem.trans hlast.mem
  have hvcpsr : s.insMultRegisters.getLsbD 15 = false → v.cpsr = s.cpsr := by
    intro hbit
    have hne : u.insRd ≠ pcReg := by
      rw [hu.insRd]
      intro hpc
      exact Bool.false_ne_true (hbit.symm.trans ((hlast.insRd_pc hdecoded).mp hpc))
    rw [hv, dropPcBit_of_ne hne, hu.cpsr hbit, hlast.cpsr hbit]
  refine ⟨_, by rw [decodeMultiple2_last hreturn hu hdecoded, Option.map_some], ?_⟩
  rw [← hv]
  cases hW : s.insW with
  | false =>
      exact
        { runstate := rfl
          mem := hvmem
          written := fun h => absurd (hW.symm.trans h) Bool.false_ne_true
          kept := fun p hp hor _ => hvreg p hp hor
          keptPc := fun _ => hvpc
          cpsr := hvcpsr }
  | true =>
      have hset : ∀ p, p ≠ s.writebackPlace →
          (v.setRaw s.writebackPlace s.writeback).rawReg p = v.rawReg p := fun p hp =>
        Function.update_of_ne hp _ _
      exact
        { runstate := rfl
          mem := hvmem
          written := fun _ => Function.update_self _ _ _
          kept := fun p hp hor hnot =>
            (hset p fun h => hnot ⟨hW, h⟩).trans (hvreg p hp hor)
          keptPc := fun hnot => by
            rw [← hset pcReg fun h => hnot ⟨hW, h⟩] at hvpc
            exact hvpc
          cpsr := fun hbit =>
            (hset cpsrReg (writebackPlace_ne_cpsr hdecoded).symm).trans (hvcpsr hbit) }

/-- The clock of the last transfer, in which the access is granted. -/
theorem clock_last (hdecoded : s.Decoded) (hk : k + 1 = s.count)
    (hgranted : s.fault (s.address k) = false) :
    ∃ t, LastStep s t ∧ (s.midway k).bodystateClock = t.decodeMultiple2.map afterDecode := by
  cases hL : s.insL with
  | true =>
      obtain ⟨t, hexec, hlast⟩ := exec_last_load hdecoded hL hk hgranted
      exact ⟨t, hlast, clock_granted hdecoded (by omega) hexec⟩
  | false =>
      obtain ⟨t, hexec, hlast⟩ := exec_last_store hL hk hgranted
      exact ⟨t, hlast, clock_granted hdecoded (by omega) hexec⟩

/-- A transfer whose accesses are all granted ends, unless it returns from an exception in
a mode that has no SPSR. -/
theorem clocks_finished (hdecoded : s.Decoded)
    (hgranted : ∀ i < s.count, s.fault (s.address i) = false)
    (hbank : s.returning = true → s.currentBank ≠ .user) :
    ∃ w, s.clocks (s.count + 1) = some w ∧ Finished s w := by
  obtain ⟨k, hk⟩ := Nat.exists_eq_succ_of_ne_zero (count_pos hdecoded).ne'
  have hlt : k < s.count := by omega
  obtain ⟨t, hlast, hclock⟩ := clock_last hdecoded hk.symm (hgranted k hlt)
  obtain ⟨w, hw, hfinished⟩ := hlast.finish hdecoded hbank
  refine ⟨w, ?_, hfinished⟩
  rw [hk, clocks, clocks_midway hdecoded hlt fun i hi => hgranted i (hi.trans hlt),
    Option.bind_some, hclock, hw]

theorem clocks_failed (hdecoded : s.Decoded)
    (hgranted : ∀ i < s.count, s.fault (s.address i) = false)
    (hreturning : s.returning = true) (huser : s.currentBank = .user) :
    s.clocks (s.count + 1) = none := by
  obtain ⟨k, hk⟩ := Nat.exists_eq_succ_of_ne_zero (count_pos hdecoded).ne'
  have hlt : k < s.count := by omega
  obtain ⟨t, hlast, hclock⟩ := clock_last hdecoded hk.symm (hgranted k hlt)
  rw [hk, clocks, clocks_midway hdecoded hlt fun i hi => hgranted i (hi.trans hlt),
    Option.bind_some, hclock, decodeMultiple2,
    hlast.exceptionReturn_none hdecoded hreturning huser]
  rfl

/-! ## Data aborts -/

/-- The places of the link register and of the SPSR of abort mode. -/
def lrAbort : ℕ := 68

def spsrAbort : ℕ := 71

/-- Where a handler of data aborts starts, with the correction for the pipeline. -/
def handlerPc (s : BlockArmisa) : BitVec 32 := dataVector + s.vectorBase + armPcCorrection

/-- What the handler finds. -/
structure Trapped (s h : BlockArmisa) : Prop where
  currentMode : h.currentMode = .abort
  pc : h.rawReg pcReg = s.handlerPc
  lr : h.rawReg lrAbort = s.savedPc
  spsr : h.rawReg spsrAbort = s.cpsr
  kept : ∀ p, p ≠ cpsrReg → p ≠ pcReg → p ≠ lrAbort → p ≠ spsrAbort →
    h.rawReg p = s.rawReg p

theorem decodeTrap_abort (hnot : (s.thumbMode && s.inITBlock) = false) :
    ∃ h, s.decodeTrap .abort dataVector = some h ∧ Trapped s h := by
  set core := if s.thumbMode then s.toArmisa.setCpsr (s.cpsr &&& ~~~thumbBit) else s.toArmisa
    with hcore
  have hkept : ∀ p, p ≠ cpsrReg → core.rawReg p = s.rawReg p := by
    intro p hp
    rw [hcore]
    split_ifs
    · exact Function.update_of_ne hp _ _
    · rfl
  have hmode : ∀ p, p ≠ cpsrReg → (core.setMode .abort false).rawReg p = core.rawReg p :=
    fun p hp => Function.update_of_ne hp _ _
  set regs := Function.update (Function.update (Function.update
    (core.setMode .abort false).rawReg lrAbort s.savedPc) spsrAbort s.cpsr) pcReg s.handlerPc
    with hregs
  have htrap : s.decodeTrap .abort dataVector =
      some { s with toArmisa := { core.setMode .abort false with rawReg := regs } } := by
    rw [decodeTrap, hnot, if_neg Bool.false_ne_true]
    rfl
  refine ⟨_, htrap, ?_⟩
  exact
    { currentMode := rfl
      pc := by
        change regs pcReg = _
        rw [hregs, Function.update_self]
      lr := by
        change regs lrAbort = _
        rw [hregs, Function.update_of_ne (by decide), Function.update_of_ne (by decide),
          Function.update_self]
      spsr := by
        change regs spsrAbort = _
        rw [hregs, Function.update_of_ne (by decide), Function.update_self]
      kept := fun p hcpsr hpc hlr hspsr => by
        change regs p = _
        rw [hregs, Function.update_of_ne hpc, Function.update_of_ne hspsr,
          Function.update_of_ne hlr, hmode p hcpsr, hkept p hcpsr] }

end BlockArmisa

end Prazor.Arm
