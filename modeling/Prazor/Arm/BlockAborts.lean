import Prazor.Arm.BlockRuns

/-!
# Block transfers that abort

A transfer should move the listed registers to or from consecutive words and write the base
back only if that is asked for.  One that aborts should leave the base as it was, so that the
instruction can be executed again.

The loads of a list are written to the registers as they come.  If the base is one of them
and a later access aborts, the base is lost.  A load with S and the PC in its list changes
the mode before it writes the base back, which may be a register of another bank.
-/

namespace Prazor.Arm

open Prazor.Assignments

namespace BlockArmisa

variable {s t u : BlockArmisa} {k : ℕ}

/-! ## What is expected of a transfer -/

/-- The memory refuses no access of the transfer. -/
def AllGranted (s : BlockArmisa) : Prop := ∀ i < s.count, s.fault (s.address i) = false

/-- The access at an index is the first one that the memory refuses. -/
structure FirstFault (s : BlockArmisa) (k : ℕ) : Prop where
  lt : k < s.count
  fault : s.fault (s.address k) = true
  before : ∀ i < k, s.fault (s.address i) = false

/-- The base register is one of those that are loaded. -/
def BaseLoaded (s : BlockArmisa) : Prop :=
  s.insL = true ∧ ∃ i < s.count, s.place (s.listedReg i) = s.basePlace

/-- The listed registers have been transferred and nothing else.  A store of the PC makes it
even. -/
structure Transferred (s t : BlockArmisa) : Prop where
  runstate : t.runstate = .runningS
  loaded : s.insL = true → ∀ i < s.count,
    ¬(s.insW = true ∧ s.place (s.listedReg i) = s.basePlace) →
      t.rawReg (s.place (s.listedReg i)) = s.loaded i
  read : s.insL = true → t.mem = s.mem
  stored : s.insL = false → t.mem = assignAll s.mem (s.stores s.count)
  others : ∀ p, p ≠ cpsrReg → (s.insL = true → ∀ i < s.count, s.place (s.listedReg i) ≠ p) →
    (s.insL = false → p ≠ pcReg) → ¬(s.insW = true ∧ p = s.basePlace) →
      t.rawReg p = s.rawReg p
  cpsr : s.insMultRegisters.getLsbD 15 = false → t.cpsr = s.cpsr
  written : s.insW = true → t.rawReg s.basePlace = s.writeback
  unwritten : s.insW = false → ¬s.BaseLoaded → t.rawReg s.basePlace ≠ s.writeback

/-- The transfer takes one clock for the decoding and one for each register. -/
def Completes (s : BlockArmisa) : Prop :=
  ∃ t, s.clocks (s.count + 1) = some t ∧ Transferred s t

/-- The instruction with a memory that refuses nothing. -/
def granted (s : BlockArmisa) : BlockArmisa := { s with fault := fun _ => false }

/-- The instruction decoded again, with the registers that an abort has left. -/
def again (mid : BlockArmisa) : BlockArmisa :=
  { mid.granted with runstate := .midMultipleS }

/-- An abort at an index leaves the base as it was, before and after the handler is entered,
and the instruction executed again does what it does without the abort. -/
structure Restarts (s : BlockArmisa) (k : ℕ) (mid handler : BlockArmisa) : Prop where
  reached : s.clocks (k + 1) = some mid
  entered : s.clocks (k + 2) = some handler
  running : handler.runstate = .runningS
  mode : handler.currentMode = .abort
  accessed : mid.insDataAddress = s.address k
  base : mid.rawReg s.basePlace = s.base
  handlerBase : handler.rawReg s.basePlace = s.base
  again : ∀ t, s.granted.clocks (s.count + 1) = some t →
    mid.again.clocks (s.count + 1) = some t

/-- Block transfers as they should be. -/
structure Restartable (s : BlockArmisa) : Prop where
  completes : s.AllGranted → s.Completes
  restarts : ∀ k, s.FirstFault k → ∃ mid handler, Restarts s k mid handler

/-! ## When they are -/

/-- A return from an exception has an SPSR and finds the base in the bank that it returns to,
or the write-back changes nothing there and is not missed here. -/
structure ReturnsWell (s : BlockArmisa) : Prop where
  spsr : s.currentBank ≠ .user
  base : s.insW = true → s.writebackPlace = s.basePlace ∨
    ((∃ i < s.count, s.place (s.listedReg i) = s.basePlace ∧ s.loaded i = s.writeback) ∧
      s.rawReg s.writebackPlace = s.writeback)

/-- An abort at an index is not one out of an IT block, the base has not been loaded, unless
with the value that it had, and the trap does not put something else in its place. -/
structure AbortsWell (s : BlockArmisa) (k : ℕ) : Prop where
  outsideIT : (s.thumbMode && s.inITBlock) = false
  notLoaded : s.insL = true → ∀ i < k, s.place (s.listedReg i) = s.basePlace →
    s.loaded i = s.base
  pc : s.basePlace = pcReg → s.handlerPc = s.base
  lr : s.basePlace = lrAbort → s.savedPc = s.base

/-! ## The base register -/

theorem basePlace_eq (hdecoded : s.Decoded) :
    Armisa.rawIndex s.currentBank s.insRn = some s.basePlace :=
  rawIndex_getD s.currentBank (hdecoded.insRn.trans (by decide))

theorem basePlace_ne_cpsr (hdecoded : s.Decoded) : s.basePlace ≠ cpsrReg :=
  Armisa.rawIndex_ne_cpsr hdecoded.insRn.ne (basePlace_eq hdecoded)

/-- A place belongs to registers of one number only. -/
theorem rawIndex_cross {bank bank' : ArmBank} {r r' i : ℕ}
    (hr : Armisa.rawIndex bank r = some i) (hr' : Armisa.rawIndex bank' r' = some i) :
    r = r' := by
  unfold Armisa.rawIndex at hr hr'
  cases bank <;> cases bank' <;> simp [ArmBank.number] at hr hr' <;> grind

theorem basePlace_ne_spsrAbort (hdecoded : s.Decoded) : s.basePlace ≠ spsrAbort := by
  intro hsame
  have hindex := basePlace_eq hdecoded
  rw [hsame] at hindex
  have hspsr : Armisa.rawIndex .abort spsrReg = some spsrAbort := rfl
  have hRn := hdecoded.insRn
  rw [rawIndex_cross hindex hspsr, spsrReg] at hRn
  omega

theorem toNat_size (s : BlockArmisa) : s.size.toNat = 4 * s.count := by
  have hle := count_le s
  rw [size, BitVec.toNat_mul, BitVec.toNat_ofNat]
  change 4 * (s.count % 2 ^ 32) % 2 ^ 32 = _
  omega

/-- The write-back moves the base by some words. -/
theorem toNat_writeback (hdecoded : s.Decoded) :
    ∃ d, 4 ≤ d ∧ d < 2 ^ 32 - 1 ∧ d % 4 = 0 ∧
      s.writeback.toNat = (s.base.toNat + d) % 2 ^ 32 := by
  have hpos := count_pos hdecoded
  have hle := count_le s
  have hsize := toNat_size s
  rw [writeback]
  split_ifs
  · refine ⟨4 * s.count, by omega, by omega, by omega, ?_⟩
    rw [BitVec.toNat_add, hsize]
  · refine ⟨2 ^ 32 - 4 * s.count, by omega, by omega, by omega, ?_⟩
    rw [BitVec.toNat_sub, hsize, Nat.add_comm]

theorem toNat_and_not_one (word : BitVec 32) :
    (word &&& (~~~1 : BitVec 32)).toNat = 2 * (word.toNat / 2) := by
  have hshift : word &&& (~~~1 : BitVec 32) = (word >>> 1) <<< 1 := by
    apply BitVec.eq_of_getLsbD_eq
    intro i hi
    rcases Nat.eq_zero_or_pos i with rfl | hpos
    · simp
    · have hback : 1 + (i - 1) = i := by omega
      have hone : (1 : BitVec 32).getLsbD i = false := by
        simp [BitVec.getLsbD_one, hpos.ne']
      rw [BitVec.getLsbD_and, BitVec.getLsbD_not, hone, BitVec.getLsbD_shiftLeft,
        BitVec.getLsbD_ushiftRight, hback, decide_eq_true hi,
        decide_eq_false (Nat.not_lt.mpr hpos)]
      simp
  have hlt := word.isLt
  rw [hshift, BitVec.toNat_shiftLeft, BitVec.toNat_ushiftRight, Nat.shiftRight_eq_div_pow,
    Nat.shiftLeft_eq]
  omega

/-- It gives neither the base nor the base without its lowest bit. -/
theorem writeback_ne (hdecoded : s.Decoded) :
    s.base ≠ s.writeback ∧ s.base &&& ~~~1 ≠ s.writeback := by
  obtain ⟨d, hlow, hhigh, hwords, hwriteback⟩ := toNat_writeback hdecoded
  have hlt := s.base.isLt
  constructor
  · intro hsame
    rw [← hsame] at hwriteback
    omega
  · intro hsame
    rw [← hsame, toNat_and_not_one] at hwriteback
    omega

/-! ## Completed transfers -/

theorem regsAfter_of_ne {p : ℕ}
    (hne : s.insL = true → ∀ i < s.count, s.place (s.listedReg i) ≠ p) :
    s.regsAfter p = s.rawReg p := by
  unfold regsAfter
  split_ifs with hL
  · exact assignAll_turns_of_ne (hne hL)
  · rfl

theorem regsAfter_loaded {i : ℕ} (hL : s.insL = true) (hi : i < s.count) :
    s.regsAfter (s.place (s.listedReg i)) = s.loaded i := by
  rw [regsAfter, if_pos hL]
  exact assignAll_turns_of_lt listed_place_injective hi

/-- The base that is not written back is not what a write-back would give. -/
theorem Finished.unwritten (hfinished : Finished s t) (hdecoded : s.Decoded)
    (hW : s.insW = false) (hnot : ¬s.BaseLoaded) : t.rawReg s.basePlace ≠ s.writeback := by
  have hbase : s.regsAfter s.basePlace = s.base :=
    regsAfter_of_ne fun hL i hi hplace => hnot ⟨hL, i, hi, hplace⟩
  have hnoW : ∀ p, ¬(s.insW = true ∧ p = s.writebackPlace) := fun p h =>
    Bool.false_ne_true (hW.symm.trans h.1)
  obtain ⟨hne, hneEven⟩ := writeback_ne hdecoded
  by_cases hpc : s.basePlace = pcReg
  · rw [hpc] at hbase ⊢
    rcases hfinished.keptPc (hnoW pcReg) with hkept | hkept
    · rw [hkept, hbase]
      exact hne
    · rw [hkept, hbase]
      exact hneEven
  · rw [hfinished.kept _ (basePlace_ne_cpsr hdecoded) (Or.inr hpc) (hnoW _), hbase]
    exact hne

/-- A transfer that writes back where the base is kept. -/
theorem Finished.transferred (hfinished : Finished s t) (hdecoded : s.Decoded)
    (hplace : s.insW = true → s.writebackPlace = s.basePlace) : Transferred s t := by
  have hkept : ∀ p, p ≠ cpsrReg → (s.insL = true ∨ p ≠ pcReg) →
      ¬(s.insW = true ∧ p = s.basePlace) → t.rawReg p = s.regsAfter p := by
    intro p hp hor hnot
    apply hfinished.kept p hp hor
    rintro ⟨hW, rfl⟩
    exact hnot ⟨hW, hplace hW⟩
  exact
    { runstate := hfinished.runstate
      loaded := fun hL i hi hnot =>
        (hkept _ (place_ne_cpsr (listedReg_lt hi)) (Or.inl hL) hnot).trans
          (regsAfter_loaded hL hi)
      read := fun hL => by rw [hfinished.mem, memAfter, if_pos hL]
      stored := fun hL => by rw [hfinished.mem, memAfter, hL, if_neg Bool.false_ne_true]
      others := fun p hp hne hpc hnot => by
        have hor : s.insL = true ∨ p ≠ pcReg := by
          cases hL : s.insL with
          | true => exact Or.inl rfl
          | false => exact Or.inr (hpc hL)
        rw [hkept p hp hor hnot, regsAfter_of_ne hne]
      cpsr := hfinished.cpsr
      written := fun hW => by rw [← hplace hW, hfinished.written hW]
      unwritten := hfinished.unwritten hdecoded }

/-- The place of a register that is loaded in a return from an exception. -/
theorem place_returning (hreturning : s.returning = true) (r : ℕ) :
    s.place r = (Armisa.rawIndex s.currentBank r).getD 0 := by
  have huser : s.userRegisters = false := by
    rw [returning] at hreturning
    rw [userRegisters]
    revert hreturning
    cases s.insL <;> cases s.insS <;> cases s.insMultRegisters.getLsbD 15 <;> decide
  rw [place, huser, if_neg Bool.false_ne_true]

/-- A loaded register is not the base of another bank. -/
theorem place_ne_writebackPlace {i : ℕ} (hdecoded : s.Decoded) (hreturning : s.returning = true)
    (hother : s.writebackPlace ≠ s.basePlace) (hi : i < s.count) :
    s.place (s.listedReg i) ≠ s.writebackPlace := by
  intro hsame
  have hlt := listedReg_lt hi
  have hindex := rawIndex_getD s.currentBank (by omega : s.listedReg i < 17)
  rw [← place_returning hreturning, hsame] at hindex
  have hreg : s.listedReg i = s.insRn := rawIndex_cross hindex (writebackPlace_eq hdecoded)
  rw [hreg, basePlace_eq hdecoded] at hindex
  exact hother (Option.some.inj hindex).symm

theorem writebackPlace_of_not (hnot : s.returning = false) :
    s.writebackPlace = s.basePlace := by
  rw [writebackPlace, finalBank, hnot, if_neg Bool.false_ne_true]
  rfl

theorem returning_insL (hreturning : s.returning = true) : s.insL = true := by
  rw [returning, Bool.and_assoc, Bool.and_eq_true] at hreturning
  exact hreturning.1

/-- The write-back of a return from an exception that goes to another bank. -/
theorem Finished.transferred_other (hfinished : Finished s t) (hdecoded : s.Decoded)
    (hreturning : s.returning = true) (hW : s.insW = true)
    (hother : s.writebackPlace ≠ s.basePlace) :
    Transferred s t ↔
      (∃ i < s.count, s.place (s.listedReg i) = s.basePlace ∧ s.loaded i = s.writeback) ∧
        s.rawReg s.writebackPlace = s.writeback := by
  have hL := returning_insL hreturning
  have hkept : ∀ p, p ≠ cpsrReg → p ≠ s.writebackPlace → t.rawReg p = s.regsAfter p :=
    fun p hp hne => hfinished.kept p hp (Or.inl hL) fun h => hne h.2
  have hbase : t.rawReg s.basePlace = s.regsAfter s.basePlace :=
    hkept _ (basePlace_ne_cpsr hdecoded) hother.symm
  have hwritten := hfinished.written hW
  constructor
  · intro htransferred
    have hvalue : s.regsAfter s.basePlace = s.writeback :=
      hbase.symm.trans (htransferred.written hW)
    constructor
    · by_contra hnone
      apply (writeback_ne hdecoded).1
      rw [← hvalue, regsAfter_of_ne]
      · rfl
      · intro _ i hi hplace
        apply hnone
        refine ⟨i, hi, hplace, ?_⟩
        rw [← regsAfter_loaded hL hi, hplace]
        exact hvalue
    · rw [← hwritten]
      apply Eq.symm
      apply htransferred.others _ (writebackPlace_ne_cpsr hdecoded)
      · exact fun _ i hi => place_ne_writebackPlace hdecoded hreturning hother hi
      · exact fun hnotL => absurd (hL.symm.trans hnotL) Bool.true_eq_false.mp
      · exact fun h => hother h.2
  · rintro ⟨⟨i, hi, hplace, hloaded⟩, hsame⟩
    have hothers : ∀ p, p ≠ cpsrReg →
        (s.insL = true → ∀ i < s.count, s.place (s.listedReg i) ≠ p) →
        t.rawReg p = s.rawReg p := by
      intro p hp hne
      by_cases hwb : p = s.writebackPlace
      · rw [hwb, hwritten, hsame]
      · rw [hkept p hp hwb, regsAfter_of_ne hne]
    exact
      { runstate := hfinished.runstate
        loaded := fun _ j hj _ => by
          rw [hkept _ (place_ne_cpsr (listedReg_lt hj))
            (place_ne_writebackPlace hdecoded hreturning hother hj)]
          exact regsAfter_loaded hL hj
        read := fun _ => by rw [hfinished.mem, memAfter, if_pos hL]
        stored := fun hnotL => absurd (hL.symm.trans hnotL) Bool.true_eq_false.mp
        others := fun p hp hne _ _ => hothers p hp hne
        cpsr := hfinished.cpsr
        written := fun _ => by
          rw [hbase, ← hplace, regsAfter_loaded hL hi, hloaded]
        unwritten := fun hnotW => absurd (hW.symm.trans hnotW) Bool.true_eq_false.mp }

/-- When a transfer whose accesses are all granted completes as it should. -/
theorem completes_iff (hdecoded : s.Decoded) (hgranted : s.AllGranted) :
    s.Completes ↔ (s.returning = true → s.ReturnsWell) := by
  constructor
  · rintro ⟨t, hclocks, htransferred⟩ hreturning
    have hspsr : s.currentBank ≠ .user := by
      intro huser
      rw [clocks_failed hdecoded hgranted hreturning huser] at hclocks
      cases hclocks
    obtain ⟨w, hw, hfinished⟩ := clocks_finished hdecoded hgranted fun _ => hspsr
    have hsame : w = t := Option.some.inj (hw.symm.trans hclocks)
    subst hsame
    refine ⟨hspsr, fun hW => ?_⟩
    by_cases hother : s.writebackPlace = s.basePlace
    · exact Or.inl hother
    · exact Or.inr
        ((hfinished.transferred_other hdecoded hreturning hW hother).mp htransferred)
  · intro hwell
    obtain ⟨w, hw, hfinished⟩ :=
      clocks_finished hdecoded hgranted fun hreturning => (hwell hreturning).spsr
    refine ⟨w, hw, ?_⟩
    by_cases hother : s.insW = true ∧ s.writebackPlace ≠ s.basePlace
    · have hreturning : s.returning = true := by
        by_contra hnot
        exact hother.2 (writebackPlace_of_not (Bool.not_eq_true _ ▸ hnot))
      apply (hfinished.transferred_other hdecoded hreturning hother.1 hother.2).mpr
      exact ((hwell hreturning).base hother.1).resolve_left hother.2
    · apply hfinished.transferred hdecoded
      intro hW
      by_contra hne
      exact hother ⟨hW, hne⟩

/-! ## Aborted transfers -/

/-- What an earlier transfer has left at the base's place. -/
theorem base_midway (hk : k < s.count) :
    (s.midway k).rawReg s.basePlace = s.base ↔
      (s.insL = true → ∀ i < k, s.place (s.listedReg i) = s.basePlace → s.loaded i = s.base) := by
  cases hL : s.insL with
  | false =>
      rw [rawReg_midway_store hL]
      exact iff_of_true rfl fun h => absurd h Bool.false_ne_true
  | true =>
      have hinjective : ∀ i < k, ∀ j < k,
          s.place (s.listedReg i) = s.place (s.listedReg j) → i = j := fun i hi j hj =>
        listed_place_injective i (hi.trans hk) j (hj.trans hk)
      have hassigned : ∀ i < k, assignAll s.rawReg (s.loads k) (s.place (s.listedReg i)) =
          s.loaded i := fun i hi => assignAll_turns_of_lt hinjective hi
      rw [rawReg_midway_load hL]
      constructor
      · intro hbase _ i hi hplace
        rw [← hassigned i hi, hplace]
        exact hbase
      · intro hloaded
        by_cases hexists : ∃ i < k, s.place (s.listedReg i) = s.basePlace
        · obtain ⟨i, hi, hplace⟩ := hexists
          rw [← hloaded rfl i hi hplace, ← hassigned i hi, hplace]
        · apply assignAll_turns_of_ne
          intro i hi hplace
          exact hexists ⟨i, hi, hplace⟩

/-- The PC is the last register to be transferred. -/
theorem pc_midway (hk : k < s.count) : (s.midway k).rawReg pcReg = s.rawReg pcReg := by
  cases hL : s.insL with
  | false => rw [rawReg_midway_store hL]
  | true =>
      rw [rawReg_midway_load hL]
      apply assignAll_turns_of_ne
      intro i hi hplace
      apply listedReg_ne_pc (Nat.lt_of_le_of_lt (Nat.succ_le_of_lt hi) hk)
      apply place_injective (listedReg_lt (hi.trans hk)) (by decide)
      rw [hplace, place_pc]

/-- The state after an access that is refused: the trap finds what was there before. -/
structure Refused (s : BlockArmisa) (k : ℕ) (t : BlockArmisa) : Prop where
  rawReg : t.rawReg = (s.midway k).rawReg
  savedPc : t.savedPc = s.savedPc
  inITBlock : (t.thumbMode && t.inITBlock) = (s.thumbMode && s.inITBlock)
  handlerPc : t.handlerPc = s.handlerPc

theorem exec_refused (hk : k < s.count) (hfault : s.fault (s.address k) = true) :
    ∃ t, (s.midway k).execMemOperandInstr = some (t, false) ∧ Refused s k t := by
  have hsaved : (s.midway k).savedPc = s.savedPc := by
    rw [savedPc, savedPc, pc_midway hk]
    rfl
  cases hL : s.insL with
  | true => exact ⟨_, exec_load_refused hL hk hfault, rfl, hsaved, rfl, rfl⟩
  | false => exact ⟨_, exec_store_refused hL hk hfault, rfl, hsaved, rfl, rfl⟩

/-- The clock of the first access that is refused. -/
theorem clock_fault (hdecoded : s.Decoded) (hfirst : s.FirstFault k) :
    ∃ t, Refused s k t ∧ s.clocks (k + 2) =
      (t.decodeTrap .abort dataVector).map fun s => { s with runstate := .runningS } := by
  obtain ⟨t, hexec, hrefused⟩ := exec_refused hfirst.lt hfirst.fault
  refine ⟨t, hrefused, ?_⟩
  rw [clocks, clocks_midway hdecoded hfirst.lt hfirst.before, Option.bind_some]
  exact clock_refused hdecoded hfirst.lt.le hexec

theorem Trapped.base {h : BlockArmisa} (htrapped : Trapped u h) (hdecoded : s.Decoded) :
    h.rawReg s.basePlace =
      if s.basePlace = pcReg then u.handlerPc
      else if s.basePlace = lrAbort then u.savedPc else u.rawReg s.basePlace := by
  split_ifs with hpc hlr
  · rw [hpc, htrapped.pc]
  · rw [hlr, htrapped.lr]
  · exact htrapped.kept _ (basePlace_ne_cpsr hdecoded) hpc hlr
      (basePlace_ne_spsrAbort hdecoded)

/-! ## The instruction executed again -/

section Again

variable (hbase : (s.midway k).rawReg s.basePlace = s.base)
include hbase

theorem base_again : (s.midway k).again.base = s.base := hbase

theorem writeback_again : (s.midway k).again.writeback = s.writeback := by
  rw [writeback, base_again hbase]
  rfl

theorem address_again (i : ℕ) : (s.midway k).again.address i = s.address i := by
  rw [address, lowest, base_again hbase]
  rfl

theorem loads_again (hL : s.insL = true) (j : ℕ) : (s.midway k).again.loads j = s.loads j := by
  have hloaded : (s.midway k).again.loaded = s.loaded := by
    funext i
    have hmem : (s.midway k).again.mem = s.mem := mem_midway_load hL k
    rw [loaded, hmem, address_again hbase]
    rfl
  rw [loads, hloaded]
  rfl

theorem stores_again (hL : s.insL = false) (j : ℕ) :
    (s.midway k).again.stores j = s.stores j := by
  have hstored : (s.midway k).again.storedAt = s.storedAt := by
    funext i
    have hregs : (s.midway k).again.rawReg = s.rawReg := rawReg_midway_store hL k
    rw [storedAt, hregs]
    rfl
  rw [stores, hstored]
  simp only [address_again hbase]
  rfl

end Again

/-- More stores after some of them give what they give alone. -/
theorem assignAll_stores_again {j : ℕ} (hle : k ≤ j) (mem : BitVec 32 → Byte) :
    assignAll (assignAll mem (s.stores k)) (s.stores j) = assignAll mem (s.stores j) := by
  apply assignAll_assignAll
  apply List.map_subset
  intro write hwrite
  rw [stores, List.mem_flatMap] at hwrite ⊢
  obtain ⟨i, hi, hmem⟩ := hwrite
  exact ⟨i, List.mem_range.mpr ((List.mem_range.mp hi).trans_le hle), hmem⟩

section Again

variable {j : ℕ}

theorem rawReg_again (hbase : (s.midway k).rawReg s.basePlace = s.base) (hle : k ≤ j) :
    ((s.midway k).again.midway j).rawReg = (s.granted.midway j).rawReg := by
  cases hL : s.insL with
  | true =>
      have hafter : (s.midway k).again.rawReg = assignAll s.rawReg (s.loads k) :=
        rawReg_midway_load hL k
      calc ((s.midway k).again.midway j).rawReg
          = assignAll (s.midway k).again.rawReg ((s.midway k).again.loads j) :=
            @rawReg_midway_load (s.midway k).again hL j
        _ = assignAll (assignAll s.rawReg (s.loads k)) (s.loads j) := by
            rw [hafter, loads_again hbase hL]
        _ = assignAll s.rawReg (s.loads j) := assignAll_turns_again hle s.rawReg
        _ = (s.granted.midway j).rawReg := (@rawReg_midway_load s.granted hL j).symm
  | false =>
      calc ((s.midway k).again.midway j).rawReg
          = (s.midway k).rawReg := @rawReg_midway_store (s.midway k).again hL j
        _ = s.rawReg := rawReg_midway_store hL k
        _ = (s.granted.midway j).rawReg := (@rawReg_midway_store s.granted hL j).symm

theorem mem_again (hbase : (s.midway k).rawReg s.basePlace = s.base) (hle : k ≤ j) :
    ((s.midway k).again.midway j).mem = (s.granted.midway j).mem := by
  cases hL : s.insL with
  | true =>
      calc ((s.midway k).again.midway j).mem
          = (s.midway k).mem := @mem_midway_load (s.midway k).again hL j
        _ = s.mem := mem_midway_load hL k
        _ = (s.granted.midway j).mem := (@mem_midway_load s.granted hL j).symm
  | false =>
      have hafter : (s.midway k).again.mem = assignAll s.mem (s.stores k) :=
        mem_midway_store hL k
      calc ((s.midway k).again.midway j).mem
          = assignAll (s.midway k).again.mem ((s.midway k).again.stores j) :=
            @mem_midway_store (s.midway k).again hL j
        _ = assignAll (assignAll s.mem (s.stores k)) (s.stores j) := by
            rw [hafter, stores_again hbase hL]
        _ = assignAll s.mem (s.stores j) := assignAll_stores_again hle s.mem
        _ = (s.granted.midway j).mem := (@mem_midway_store s.granted hL j).symm

/-- The fields of the result are those of the last store. -/
theorem result_again (hle : k ≤ j) :
    ((s.midway k).again.midway j).insAluResult = (s.granted.midway j).insAluResult ∧
      ((s.midway k).again.midway j).insAluResultHi = (s.granted.midway j).insAluResultHi := by
  have hmidL : (s.midway k).again.insL = s.insL := rfl
  cases hL : s.insL with
  | true =>
      rw [hL] at hmidL
      simp only [midway, granted, again, hL, true_or, if_true, and_self]
  | false =>
      rcases Nat.eq_zero_or_pos j with rfl | hpos
      · obtain rfl : k = 0 := Nat.le_zero.mp hle
        simp only [midway, granted, again, or_true, if_true, and_self]
      · have hstored : (s.midway k).again.storedAt (j - 1) = s.storedAt (j - 1) := by
          have hregs : (s.midway k).again.rawReg = s.rawReg := rawReg_midway_store hL k
          rw [storedAt, hregs]
          rfl
        have hnot : ¬((s.midway k).again.insL = true ∨ j = 0) := by
          rw [hmidL, hL]
          exact fun h => h.elim Bool.false_ne_true hpos.ne'
        constructor
        · exact ((if_neg hnot).trans hstored).trans (if_neg hnot).symm
        · exact (if_neg hnot).trans (if_neg hnot).symm

/-- The second execution goes through the states of one without the abort. -/
theorem midway_again (hbase : (s.midway k).rawReg s.basePlace = s.base) (hle : k ≤ j) :
    (s.midway k).again.midway j = s.granted.midway j := by
  have hresult := @result_again s k j hle
  have hfields : (s.midway k).again.midway j = { s.granted.midway j with
      rawReg := ((s.midway k).again.midway j).rawReg
      insAluResult := ((s.midway k).again.midway j).insAluResult
      insAluResultHi := ((s.midway k).again.midway j).insAluResultHi
      mem := ((s.midway k).again.midway j).mem
      insMultWriteback := (s.midway k).again.writeback
      insDataAddress := (s.midway k).again.address j } := rfl
  rw [hfields, rawReg_again hbase hle, mem_again hbase hle, hresult.1, hresult.2,
    writeback_again hbase, address_again hbase]
  rfl

end Again

theorem Decoded.granted (hdecoded : s.Decoded) : s.granted.Decoded where
  runstate := hdecoded.runstate
  thumbMode := hdecoded.thumbMode
  blockT := hdecoded.blockT
  nonempty := hdecoded.nonempty
  insRn := hdecoded.insRn

theorem Decoded.again (hdecoded : s.Decoded) (hk : k ≤ s.count) :
    (s.midway k).again.Decoded where
  runstate := rfl
  thumbMode := hdecoded.thumbMode.trans (congrArg (bit · 5) (cpsr_midway hk).symm)
  blockT := hdecoded.blockT
  nonempty := hdecoded.nonempty
  insRn := hdecoded.insRn

/-- With the base as it was, the second execution ends as one without the abort. -/
theorem clocks_again (hdecoded : s.Decoded) (hk : k < s.count)
    (hbase : (s.midway k).rawReg s.basePlace = s.base) :
    (s.midway k).again.clocks (s.count + 1) = s.granted.clocks (s.count + 1) := by
  obtain ⟨j, hj⟩ := Nat.exists_eq_succ_of_ne_zero (count_pos hdecoded).ne'
  have hlt : j < s.count := by omega
  have hagain : (s.midway k).again.clocks (j + 1) = some ((s.midway k).again.midway j) :=
    clocks_midway (hdecoded.again hk.le) hlt fun _ _ => rfl
  have hgranted : s.granted.clocks (j + 1) = some (s.granted.midway j) :=
    clocks_midway hdecoded.granted hlt fun _ _ => rfl
  have hsame : (s.midway k).again.midway j = s.granted.midway j :=
    midway_again hbase (by omega)
  calc (s.midway k).again.clocks (s.count + 1)
      = ((s.midway k).again.clocks (j + 1)).bind bodystateClock := by rw [hj]; rfl
    _ = (s.granted.clocks (j + 1)).bind bodystateClock := by rw [hagain, hgranted, hsame]
    _ = s.granted.clocks (s.count + 1) := by rw [hj]; rfl

/-- When an abort can be recovered from. -/
theorem restarts_iff (hdecoded : s.Decoded) (hfirst : s.FirstFault k) :
    (∃ mid handler, Restarts s k mid handler) ↔ s.AbortsWell k := by
  obtain ⟨t, hrefused, hclock⟩ := clock_fault hdecoded hfirst
  have hmid : s.clocks (k + 1) = some (s.midway k) :=
    clocks_midway hdecoded hfirst.lt hfirst.before
  constructor
  · rintro ⟨mid, handler, hrestarts⟩
    have houtside : (s.thumbMode && s.inITBlock) = false := by
      by_contra hin
      rw [Bool.not_eq_false, ← hrefused.inITBlock] at hin
      have hnone : s.clocks (k + 2) = none := by
        rw [hclock, decodeTrap, hin, if_pos rfl, Option.map_none]
      exact Option.some_ne_none _ (hrestarts.entered.symm.trans hnone)
    have hmidBase : (s.midway k).rawReg s.basePlace = s.base := by
      have hsame : s.midway k = mid := Option.some.inj (hmid.symm.trans hrestarts.reached)
      rw [hsame]
      exact hrestarts.base
    obtain ⟨h, htrap, htrapped⟩ := decodeTrap_abort (hrefused.inITBlock.trans houtside)
    have hhandler : handler = { h with runstate := .runningS } := by
      rw [htrap, Option.map_some] at hclock
      exact Option.some.inj (hrestarts.entered.symm.trans hclock)
    have hfound : h.rawReg s.basePlace = s.base := by
      have hbase := hrestarts.handlerBase
      rw [hhandler] at hbase
      exact hbase
    rw [htrapped.base hdecoded, hrefused.handlerPc, hrefused.savedPc] at hfound
    exact
      { outsideIT := houtside
        notLoaded := (base_midway hfirst.lt).mp hmidBase
        pc := fun hpc => by rwa [if_pos hpc] at hfound
        lr := fun hlr => by
          rwa [if_neg (by rw [hlr]; decide), if_pos hlr] at hfound }
  · intro hwell
    obtain ⟨h, htrap, htrapped⟩ := decodeTrap_abort (hrefused.inITBlock.trans hwell.outsideIT)
    have hmidBase : (s.midway k).rawReg s.basePlace = s.base :=
      (base_midway hfirst.lt).mpr hwell.notLoaded
    refine ⟨s.midway k, { h with runstate := .runningS }, ?_⟩
    exact
      { reached := hmid
        entered := by rw [hclock, htrap, Option.map_some]
        running := rfl
        mode := htrapped.currentMode
        accessed := rfl
        base := hmidBase
        handlerBase := by
          change h.rawReg s.basePlace = s.base
          rw [htrapped.base hdecoded, hrefused.handlerPc, hrefused.savedPc, hrefused.rawReg,
            hmidBase]
          split_ifs with hpc hlr
          · exact hwell.pc hpc
          · exact hwell.lr hlr
          · rfl
        again := fun t ht => by rwa [clocks_again hdecoded hfirst.lt hmidBase] }

/-! ## The result -/

/-- A block transfer moves its registers and can be executed again after an abort, exactly if
a return from an exception finds its base and no load of the base comes before the access
that aborts. -/
theorem restartable_iff (hdecoded : s.Decoded) :
    s.Restartable ↔
      (s.AllGranted → s.returning = true → s.ReturnsWell) ∧
        ∀ k, s.FirstFault k → s.AbortsWell k := by
  constructor
  · intro hrestartable
    exact ⟨fun hgranted => (completes_iff hdecoded hgranted).mp (hrestartable.completes hgranted),
      fun k hfirst => (restarts_iff hdecoded hfirst).mp (hrestartable.restarts k hfirst)⟩
  · rintro ⟨hreturns, haborts⟩
    exact ⟨fun hgranted => (completes_iff hdecoded hgranted).mpr (hreturns hgranted),
      fun k hfirst => (restarts_iff hdecoded hfirst).mpr (haborts k hfirst)⟩

/-- `LDMIA R0!, {R1, R2}` of a core in supervisor mode.  The memory holds ones and refuses
the word at `0x1004`. -/
def secondRefused : BlockArmisa where
  toArmisa := { Armisa.idle with
    rawReg := Function.update Armisa.idle.rawReg 0 0x1000
    insRn := 0 }
  insBlockT := true
  insL := true
  insP := false
  insU := true
  insW := true
  insMultRegisters := 6
  insMultCount := 0
  insMultWriteback := 0
  insDataAddress := 0
  insDataOffset := 0
  insSUser := false
  insAddress := 0
  runstate := .midMultipleS
  vectorBase := 0
  itstate := 0
  mem := fun _ => 1
  fault := fun addr => addr == 0x1004

theorem decoded_secondRefused : secondRefused.Decoded where
  runstate := rfl
  thumbMode := by decide
  blockT := rfl
  nonempty := by decide
  insRn := by decide

/-- The abort at the second word comes after the first has been loaded. -/
theorem restartable_secondRefused :
    secondRefused.Restartable ∧ secondRefused.FirstFault 1 := by
  have hfirst : secondRefused.FirstFault 1 :=
    { lt := by decide, fault := by decide, before := by decide }
  refine ⟨(restartable_iff decoded_secondRefused).mpr ⟨?_, ?_⟩, hfirst⟩
  · intro hgranted
    exact absurd (hgranted 1 hfirst.lt) (by decide)
  · intro k hfault
    have hk : k < 2 := hfault.lt
    have hone : k = 1 := by
      interval_cases k
      · exact absurd hfault.fault (by decide)
      · rfl
    subst hone
    exact
      { outsideIT := by decide
        notLoaded := by decide
        pc := by decide
        lr := by decide }

/-- `LDMIA R0, {R0, R1}` with a second word that the memory refuses. -/
def baseFirst : BlockArmisa :=
  { secondRefused with
    insW := false
    insMultRegisters := 3
    mem := fun _ => 0 }

/-- The base is lost when its own load is followed by one that aborts. -/
theorem not_restartable : ¬∀ s : BlockArmisa, s.Decoded → s.Restartable := by
  intro hall
  have hdecoded : baseFirst.Decoded :=
    { runstate := rfl
      thumbMode := by decide
      blockT := rfl
      nonempty := by decide
      insRn := by decide }
  have hfirst : baseFirst.FirstFault 1 :=
    { lt := by decide, fault := by decide, before := by decide }
  obtain ⟨mid, handler, hrestarts⟩ := (hall baseFirst hdecoded).restarts 1 hfirst
  have hlost : (baseFirst.clocks 2).map (fun mid => mid.rawReg 0) = some 0 := by decide
  rw [hrestarts.reached, Option.map_some] at hlost
  have hbase : mid.rawReg 0 = 0x1000 := hrestarts.base
  rw [hbase] at hlost
  exact absurd hlost (by decide)

end BlockArmisa

end Prazor.Arm
