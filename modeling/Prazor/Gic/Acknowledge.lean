import Prazor.Core.WordBits
import Prazor.Gic.CpuInterface
import Prazor.Gic.RegisterMap

/-!
# Acknowledging and ending interrupts

An acknowledgement moves one interrupt from the pending to the active state.
The bits of both states are spread over words that are private to a CPU for the
first 32 interrupts and shared for the others.
-/

namespace Prazor.Gic

open Prazor.WordBits

variable {nCpus cpuID cpuID' id id' no no' src src' : ℕ} {gic next : GicArmTlm} {grp : Fin 2}

/-! ## The states of an interrupt -/

/-- The words that have a bit for each interrupt. -/
inductive BitFamily where
  | unmasked
  | pendings
  | actives
  deriving DecidableEq

def BitFamily.own : BitFamily → CpuFile
  | .unmasked => .unmasked
  | .pendings => .pendings
  | .actives => .actives

def BitFamily.shared : BitFamily → Fin 32 → DistFile
  | .unmasked => .unmasked
  | .pendings => .pendings
  | .actives => .actives

/-- The word of an interrupt. -/
def bitPlace (family : BitFamily) (cpuID id : ℕ) : Place :=
  if id / 32 = 0 then .cpustate cpuID family.own
  else .diststate (family.shared (Fin.ofNat 32 (id / 32)))

/-- The bit of an interrupt as a CPU sees it. -/
def stateBit (family : BitFamily) (gic : GicArmTlm) (cpuID id : ℕ) : Bool :=
  (gic.word (bitPlace family cpuID id)).getLsbD (id % 32)

/-- The request of an input. -/
def pendingLine (gic : GicArmTlm) (cpuID id : ℕ) : Bool :=
  stateBit .unmasked gic cpuID id

/-- The request of a write of `GICD_ISPENDR`. -/
def pendingSet (gic : GicArmTlm) (cpuID id : ℕ) : Bool :=
  stateBit .pendings gic cpuID id

def activeState (gic : GicArmTlm) (cpuID id : ℕ) : Bool :=
  stateBit .actives gic cpuID id

/-- The request of a source for a software interrupt. -/
def pendingSgi (gic : GicArmTlm) (cpuID no src : ℕ) : Bool :=
  (gic.word (sgiPlace cpuID no)).getLsbD (src + sgiShift no)

/-- The interrupt as one CPU sees it is the interrupt as the other does. -/
def SameInterrupt (cpuID id cpuID' id' : ℕ) : Prop := id' = id ∧ (id < 32 → cpuID' = cpuID)

instance : Decidable (SameInterrupt cpuID id cpuID' id') := by
  unfold SameInterrupt
  infer_instance

theorem BitFamily.shared_injective (family : BitFamily) :
    Function.Injective family.shared := by
  cases family
  · exact fun _ _ h => DistFile.unmasked.inj h
  · exact fun _ _ h => DistFile.pendings.inj h
  · exact fun _ _ h => DistFile.actives.inj h

theorem bitPlace_eq_iff (family : BitFamily) (hid : id < 1024) (hid' : id' < 1024) :
    bitPlace family cpuID' id' = bitPlace family cpuID id ↔
      id' / 32 = id / 32 ∧ (id < 32 → cpuID' = cpuID) := by
  have hofNat : Fin.ofNat 32 (id' / 32) = Fin.ofNat 32 (id / 32) ↔ id' / 32 = id / 32 := by
    rw [Fin.ext_iff, Fin.val_ofNat, Fin.val_ofNat, Nat.mod_eq_of_lt (by omega),
      Nat.mod_eq_of_lt (by omega)]
  unfold bitPlace
  split_ifs with hown hown' hown'
  · simp only [Place.cpustate.injEq, and_true]
    omega
  · rw [false_iff]
    omega
  · rw [false_iff]
    omega
  · rw [Place.diststate.injEq, family.shared_injective.eq_iff, hofNat]
    omega

section StateBit

variable {family : BitFamily}

/-- What an edit of the word of an interrupt does to the bits of the family. -/
theorem stateBit_modify (hid : id < 1024)
    (hid' : id' < 1024) (edit : Word → Word) :
    stateBit family (gic.modify (bitPlace family cpuID id) edit) cpuID' id' =
      if id' / 32 = id / 32 ∧ (id < 32 → cpuID' = cpuID) then
        (edit (gic.word (bitPlace family cpuID id))).getLsbD (id' % 32)
      else stateBit family gic cpuID' id' := by
  unfold stateBit
  rw [modify_word]
  simp only [bitPlace_eq_iff family hid hid']
  split_ifs <;> rfl

theorem stateBit_clear (hid : id < 1024)
    (hid' : id' < 1024) :
    stateBit family (gic.modify (bitPlace family cpuID id)
        (· &&& ~~~((1 : Word) <<< (id % 32)))) cpuID' id' =
      (stateBit family gic cpuID' id' && !decide (SameInterrupt cpuID id cpuID' id')) := by
  rw [stateBit_modify hid hid']
  by_cases hword : id' / 32 = id / 32 ∧ (id < 32 → cpuID' = cpuID)
  · rw [if_pos hword, getLsbD_clear _ (by omega), stateBit,
      (bitPlace_eq_iff family hid hid').mpr hword]
    congr 2
    rw [decide_eq_decide, SameInterrupt]
    omega
  · rw [if_neg hword, decide_eq_false, Bool.not_false, Bool.and_true]
    rintro ⟨rfl, hcpu⟩
    exact hword ⟨rfl, hcpu⟩

theorem stateBit_set (hid : id < 1024)
    (hid' : id' < 1024) :
    stateBit family (gic.modify (bitPlace family cpuID id)
        (· ||| (1 : Word) <<< (id % 32))) cpuID' id' =
      (stateBit family gic cpuID' id' || decide (SameInterrupt cpuID id cpuID' id')) := by
  rw [stateBit_modify hid hid']
  by_cases hword : id' / 32 = id / 32 ∧ (id < 32 → cpuID' = cpuID)
  · rw [if_pos hword, getLsbD_set _ (by omega), stateBit,
      (bitPlace_eq_iff family hid hid').mpr hword]
    congr 1
    rw [decide_eq_decide, SameInterrupt]
    omega
  · rw [if_neg hword, decide_eq_false, Bool.or_false]
    rintro ⟨rfl, hcpu⟩
    exact hword ⟨rfl, hcpu⟩

/-- Keeping the bit of an interrupt clears only it for the empty word only. -/
theorem stateBit_keep_iff (hid : id < 1024) :
    (∀ cpuID' id', id' < 1024 →
      stateBit family (gic.modify (bitPlace family cpuID id)
          (· &&& (1 : Word) <<< (id % 32))) cpuID' id' =
        (stateBit family gic cpuID' id' &&
          !decide (SameInterrupt cpuID id cpuID' id'))) ↔
      gic.word (bitPlace family cpuID id) = 0 := by
  constructor
  · intro hbits
    rw [← keep_eq_clear_iff (i := id % 32)]
    refine BitVec.eq_of_getLsbD_eq fun j hj => ?_
    have hj' : 32 * (id / 32) + j < 1024 := by omega
    have hbit := hbits cpuID (32 * (id / 32) + j) hj'
    rw [← stateBit_clear hid hj', stateBit_modify hid hj',
      stateBit_modify hid hj', if_pos (by omega), if_pos (by omega),
      show (32 * (id / 32) + j) % 32 = j by omega] at hbit
    exact hbit
  · intro hzero cpuID' id' hid'
    rw [← stateBit_clear hid hid', stateBit_modify hid hid',
      stateBit_modify hid hid', hzero]
    simp

/-- Edits of other words leave the bits of a family as they are. -/
theorem stateBit_modify_of_ne {place : Place} (edit : Word → Word)
    (hplace : place ≠ bitPlace family cpuID' id') :
    stateBit family (gic.modify place edit) cpuID' id' =
      stateBit family gic cpuID' id' := by
  rw [stateBit, modify_word, if_neg hplace.symm, stateBit]

end StateBit

/-! ## Software interrupts -/

theorem sgiPlace_eq_iff (hno : no < 16) (hno' : no' < 16) :
    sgiPlace cpuID' no' = sgiPlace cpuID no ↔ cpuID' = cpuID ∧ no' / 4 = no / 4 := by
  have hofNat : Fin.ofNat 4 (no' / 4) = Fin.ofNat 4 (no / 4) ↔ no' / 4 = no / 4 := by
    rw [Fin.ext_iff, Fin.val_ofNat, Fin.val_ofNat, Nat.mod_eq_of_lt (by omega),
      Nat.mod_eq_of_lt (by omega)]
  unfold sgiPlace
  rw [Place.cpustate.injEq, CpuFile.sgiMatrix.injEq, hofNat]

/-- What an edit of the word of a software interrupt does to the sources. -/
theorem pendingSgi_modify (hno : no < 16) (hno' : no' < 16) (edit : Word → Word) :
    pendingSgi (gic.modify (sgiPlace cpuID no) edit) cpuID' no' src' =
      if cpuID' = cpuID ∧ no' / 4 = no / 4 then
        (edit (gic.word (sgiPlace cpuID no))).getLsbD (src' + sgiShift no')
      else pendingSgi gic cpuID' no' src' := by
  unfold pendingSgi
  rw [modify_word]
  simp only [sgiPlace_eq_iff hno hno']
  split_ifs <;> rfl

/-- The bit of one source has been cleared. -/
theorem pendingSgi_clear (hno : no < 16) (hno' : no' < 16) (hsrc : src < 8) (hsrc' : src' < 8) :
    pendingSgi (gic.modify (sgiPlace cpuID no)
        (· &&& ~~~((1 : Word) <<< (src + sgiShift no)))) cpuID' no' src' =
      (pendingSgi gic cpuID' no' src' &&
        !decide (cpuID' = cpuID ∧ no' = no ∧ src' = src)) := by
  rw [pendingSgi_modify hno hno']
  by_cases hword : cpuID' = cpuID ∧ no' / 4 = no / 4
  · rw [if_pos hword, getLsbD_clear _ (by unfold sgiShift; omega), pendingSgi,
      (sgiPlace_eq_iff hno hno').mpr hword]
    congr 2
    rw [decide_eq_decide, sgiShift, sgiShift]
    omega
  · rw [if_neg hword, decide_eq_false, Bool.not_false, Bool.and_true]
    rintro ⟨rfl, rfl, -⟩
    exact hword ⟨rfl, rfl⟩

/-- The bit of one source has been set. -/
theorem pendingSgi_set (hno : no < 16) (hno' : no' < 16) (hsrc : src < 8) (hsrc' : src' < 8) :
    pendingSgi (gic.modify (sgiPlace cpuID no)
        (· ||| (1 : Word) <<< (src + sgiShift no))) cpuID' no' src' =
      (pendingSgi gic cpuID' no' src' ||
        decide (cpuID' = cpuID ∧ no' = no ∧ src' = src)) := by
  rw [pendingSgi_modify hno hno']
  by_cases hword : cpuID' = cpuID ∧ no' / 4 = no / 4
  · rw [if_pos hword, getLsbD_set _ (by unfold sgiShift; omega), pendingSgi,
      (sgiPlace_eq_iff hno hno').mpr hword]
    congr 1
    rw [decide_eq_decide, sgiShift, sgiShift]
    omega
  · rw [if_neg hword, decide_eq_false, Bool.or_false]
    rintro ⟨rfl, rfl, -⟩
    exact hword ⟨rfl, rfl⟩

theorem pendingSgi_modify_of_ne {place : Place} (edit : Word → Word)
    (hplace : ∀ cpuID n, place ≠ .cpustate cpuID (.sgiMatrix n)) :
    pendingSgi (gic.modify place edit) cpuID' no' src' = pendingSgi gic cpuID' no' src' := by
  have hne : sgiPlace cpuID' no' ≠ place := (hplace cpuID' _).symm
  rw [pendingSgi, modify_word, if_neg hne, pendingSgi]

/-- The sources of an interrupt as the scan sees them. -/
theorem getLsbD_srcBitfield : (srcBitfield gic cpuID no).getLsbD src =
    (decide (src < 8) && pendingSgi gic cpuID no src) := by
  have hmask : (0xFF : Word) = (BitVec.allOnes 8).setWidth 32 := rfl
  rw [srcBitfield, BitVec.getLsbD_setWidth, BitVec.getLsbD_and, BitVec.getLsbD_ushiftRight,
    hmask, BitVec.getLsbD_setWidth, BitVec.getLsbD_allOnes, pendingSgi, Nat.add_comm]
  by_cases hsrc : src < 8
  · simp [hsrc, Nat.lt_trans hsrc (by norm_num : 8 < 32)]
  · simp [hsrc]

/-- The scan finds the first pending source of a CPU. -/
theorem firstSource_of_pending (hsrc : src < nCpus) (hpending : pendingSgi gic cpuID no src)
    (hlow : src < 8) :
    firstSource nCpus (srcBitfield gic cpuID no) < nCpus ∧
      firstSource nCpus (srcBitfield gic cpuID no) < 8 ∧
      pendingSgi gic cpuID no (firstSource nCpus (srcBitfield gic cpuID no)) := by
  have hsome : ((List.range nCpus).find? fun srcCpu =>
      (srcBitfield gic cpuID no).getLsbD srcCpu).isSome := by
    rw [List.find?_isSome]
    refine ⟨src, List.mem_range.mpr hsrc, ?_⟩
    rw [getLsbD_srcBitfield, decide_eq_true hlow, hpending]
    rfl
  obtain ⟨found, hfound⟩ := Option.isSome_iff_exists.mp hsome
  have hbit := List.find?_some hfound
  rw [getLsbD_srcBitfield, Bool.and_eq_true, decide_eq_true_eq] at hbit
  rw [firstSource, hfound, Option.getD_some]
  exact ⟨List.mem_range.mp (List.mem_of_find?_eq_some hfound), hbit⟩

/-- Without a pending source the scan gives the number of CPUs. -/
theorem firstSource_of_none
    (hnone : ∀ src, src < nCpus → src < 8 → pendingSgi gic cpuID no src = false) :
    firstSource nCpus (srcBitfield gic cpuID no) = nCpus := by
  have hfind : ((List.range nCpus).find? fun srcCpu =>
      (srcBitfield gic cpuID no).getLsbD srcCpu) = none := by
    rw [List.find?_eq_none]
    intro src hsrc
    rw [getLsbD_srcBitfield]
    by_cases hlow : src < 8
    · rw [hnone src (List.mem_range.mp hsrc) hlow, Bool.and_false]
      exact Bool.false_ne_true
    · rw [decide_eq_false hlow]
      exact Bool.false_ne_true
  rw [firstSource, hfind, Option.getD_none]

/-! ## What the two operations do -/

theorem element_pendings (hcpu : cpuID < nCpus) (id : ℕ) :
    element nCpus cpuID ⟨.pendings, id / 32⟩ =
      some (bitPlace .pendings cpuID id) := by
  simp only [element, banked, if_pos hcpu, bitPlace]
  split_ifs <;> rfl

theorem element_actives (hcpu : cpuID < nCpus) (id : ℕ) :
    element nCpus cpuID ⟨.actives, id / 32⟩ =
      some (bitPlace .actives cpuID id) := by
  simp only [element, banked, if_pos hcpu, bitPlace]
  split_ifs <;> rfl

/-- The places that the two operations find for an interrupt. -/
theorem writeThrough_bits (hcpu : cpuID < nCpus) (hid : id < 1024) (edit : Word → Word) :
    writeThrough nCpus gic (0x280 + id / 32 * 4) cpuID edit =
        some (gic.modify (bitPlace .pendings cpuID id) edit) ∧
      writeThrough nCpus gic (0x300 + id / 32 * 4) cpuID edit =
        some (gic.modify (bitPlace .actives cpuID id) edit) ∧
      writeThrough nCpus gic (0x380 + id / 32 * 4) cpuID edit =
        some (gic.modify (bitPlace .actives cpuID id) edit) := by
  have hpendings : registerAt (0x280 + id / 32 * 4) = some ⟨.pendings, id / 32⟩ := by
    simp only [registerAt, inRange_iff]
    rw [if_neg (by omega), if_neg (by omega), if_pos (by omega),
      show (0x280 + id / 32 * 4) / 4 % 32 = id / 32 by omega]
  have hset : registerAt (0x300 + id / 32 * 4) = some ⟨.actives, id / 32⟩ := by
    simp only [registerAt, inRange_iff]
    rw [if_neg (by omega), if_neg (by omega), if_neg (by omega), if_pos (by omega),
      show (0x300 + id / 32 * 4) / 4 % 32 = id / 32 by omega]
  have hclear : registerAt (0x380 + id / 32 * 4) = some ⟨.actives, id / 32⟩ := by
    simp only [registerAt, inRange_iff]
    rw [if_neg (by omega), if_neg (by omega), if_neg (by omega), if_pos (by omega),
      show (0x380 + id / 32 * 4) / 4 % 32 = id / 32 by omega]
  simp only [writeThrough, distAddresser_eq, hpendings, hset, hclear, Option.bind_some,
    element_pendings hcpu, element_actives hcpu, Option.map_some, and_self]

/-- The words of an interrupt after its request has been taken. -/
def acknowledged (gic : GicArmTlm) (cpuID id : ℕ) : GicArmTlm :=
  (gic.modify (bitPlace .pendings cpuID id)
    (· &&& (1 : Word) <<< (id % 32))).modify (bitPlace .actives cpuID id)
    (· ||| (1 : Word) <<< (id % 32))

theorem notifyIntAcknowledge_eq (hcpu : cpuID < nCpus)
    (hia : (gic.word (.cpustate cpuID (.ia grp))).toNat = id) (hid : id < 1024) :
    notifyIntAcknowledge nCpus gic grp cpuID =
      (takeRequest nCpus gic id cpuID).map fun taken =>
        (acknowledged taken.1 cpuID id,
          gic.word (.cpustate cpuID (.ia grp)) ||| BitVec.ofNat 32 taken.2 <<< 10) := by
  have hmsb : (gic.word (.cpustate cpuID (.ia grp))).msb = false := by
    rw [BitVec.msb_eq_decide, hia, decide_eq_false]
    norm_num
    omega
  unfold notifyIntAcknowledge
  dsimp only
  rw [hmsb, if_neg Bool.false_ne_true, hia]
  cases takeRequest nCpus gic id cpuID with
  | none => rfl
  | some taken =>
      rw [Option.bind_some, (writeThrough_bits hcpu hid _).1, Option.bind_some,
        (writeThrough_bits hcpu hid _).2.1]
      rfl

/-- The number in the answer of an acknowledgement. -/
theorem answer_mod {ia : Word} (hia : ia.toNat < 1024) (src : ℕ) :
    (ia ||| BitVec.ofNat 32 src <<< 10).toNat % 1024 = ia.toNat := by
  have hlow : (ia ||| BitVec.ofNat 32 src <<< 10).setWidth 10 = ia.setWidth 10 := by
    refine BitVec.eq_of_getLsbD_eq fun i hi => ?_
    rw [BitVec.getLsbD_setWidth, BitVec.getLsbD_setWidth, BitVec.getLsbD_or,
      BitVec.getLsbD_shiftLeft]
    simp [hi]
  have hnat := congrArg BitVec.toNat hlow
  rw [BitVec.toNat_setWidth, BitVec.toNat_setWidth, Nat.mod_eq_of_lt hia] at hnat
  exact hnat

/-- The words of the families are apart. -/
theorem bitPlace_ne {family other : BitFamily} (hne : family ≠ other)
    (cpuID cpuID' id id' : ℕ) : bitPlace family cpuID id ≠ bitPlace other cpuID' id' := by
  unfold bitPlace
  cases family <;> cases other <;> first
    | exact absurd rfl hne
    | (split_ifs <;> exact fun h => nomatch h)

/-- `clear_sgi` for a source clears its bit. -/
theorem clearSgi_source (gic : GicArmTlm) (no cpuID src : ℕ) :
    clearSgi nCpus gic no cpuID src =
      if src + sgiShift no < 32 then
        some (gic.modify (sgiPlace cpuID no) (· &&& ~~~((1 : Word) <<< (src + sgiShift no))))
      else none := by
  rw [clearSgi, if_pos (Int.natCast_nonneg src), clearSgiBit]
  rw [← Int.natCast_add, Int.toNat_natCast]
  by_cases hshift : src + sgiShift no < 32
  · rw [if_pos hshift, if_pos ⟨Int.natCast_nonneg _, by omega⟩]
  · rw [if_neg hshift, if_neg (by omega)]

/-- The request of an input is taken back. -/
theorem takeRequest_line (hlow : 16 ≤ id) (hhigh : id < 1021) :
    takeRequest nCpus gic id cpuID =
      some (gic.modify (bitPlace .unmasked cpuID id)
        (· &&& ~~~((1 : Word) <<< (id % 32))), 0) := by
  unfold takeRequest bitPlace
  dsimp only
  rw [if_neg (by omega), if_pos hhigh]
  by_cases hown : id < 32
  · rw [if_pos hown, if_pos (by omega)]
    rfl
  · rw [if_neg hown, if_neg (by omega)]
    rfl

theorem takeRequest_none (hhigh : 1021 ≤ id) :
    takeRequest nCpus gic id cpuID = some (gic, 0) := by
  unfold takeRequest
  dsimp only
  rw [if_neg (by omega), if_neg (by omega), if_neg (by omega)]

theorem takeRequest_sgi (hid : id < 16) :
    takeRequest nCpus gic id cpuID =
      if firstSource nCpus (srcBitfield gic cpuID id) + sgiShift id < 32 then
        some (gic.modify (sgiPlace cpuID id) (· &&& ~~~((1 : Word) <<<
          (firstSource nCpus (srcBitfield gic cpuID id) + sgiShift id))),
          firstSource nCpus (srcBitfield gic cpuID id))
      else none := by
  unfold takeRequest
  dsimp only
  rw [if_pos hid, clearSgi_source]
  split_ifs <;> rfl

/-! ## The frame of an acknowledgement -/

/-- Nothing pending or active has changed. -/
structure SameStates (gic next : GicArmTlm) : Prop where
  sgi : ∀ cpuID no src, no < 16 → src < 8 →
    pendingSgi next cpuID no src = pendingSgi gic cpuID no src
  line : ∀ cpuID id, id < 1024 → pendingLine next cpuID id = pendingLine gic cpuID id
  set : ∀ cpuID id, id < 1024 → pendingSet next cpuID id = pendingSet gic cpuID id
  active : ∀ cpuID id, id < 1024 → activeState next cpuID id = activeState gic cpuID id

/-- What has become of the requests of software interrupts: one source of the
interrupt has lost its request, if it is one. -/
def SgiTaken (gic next : GicArmTlm) (cpuID id : ℕ) : Prop :=
  if id < 16 then
    ∃ src < 8, pendingSgi gic cpuID id src ∧
      ∀ cpuID' no' src', no' < 16 → src' < 8 →
        pendingSgi next cpuID' no' src' =
          (pendingSgi gic cpuID' no' src' &&
            !decide (cpuID' = cpuID ∧ no' = id ∧ src' = src))
  else ∀ cpuID' no' src', no' < 16 → src' < 8 →
    pendingSgi next cpuID' no' src' = pendingSgi gic cpuID' no' src'

/-- A requested interrupt has moved from the pending to the active state. -/
structure Acknowledged (gic next : GicArmTlm) (cpuID id : ℕ) : Prop where
  requested : 16 ≤ id → pendingLine gic cpuID id ∨ pendingSet gic cpuID id
  sgi : SgiTaken gic next cpuID id
  line : ∀ cpuID' id', id' < 1024 → pendingLine next cpuID' id' =
    (pendingLine gic cpuID' id' && !decide (16 ≤ id ∧ SameInterrupt cpuID id cpuID' id'))
  set : ∀ cpuID' id', id' < 1024 → pendingSet next cpuID' id' =
    (pendingSet gic cpuID' id' && !decide (SameInterrupt cpuID id cpuID' id'))
  active : ∀ cpuID' id', id' < 1024 → activeState next cpuID' id' =
    (activeState gic cpuID' id' || decide (SameInterrupt cpuID id cpuID' id'))

variable (nCpus) in
/-- An acknowledgement ends, moves the interrupt it returns, and moves nothing if
it returns none. -/
def AcknowledgeFrame (gic : GicArmTlm) (grp : Fin 2) (cpuID : ℕ) : Prop :=
  ∃ next data, notifyIntAcknowledge nCpus gic grp cpuID = some (next, data) ∧
    (data.toNat % 1024 < 1020 → Acknowledged gic next cpuID (data.toNat % 1024)) ∧
    (data.toNat % 1024 = 1023 → SameStates gic next)

variable (nCpus) in
/-- The end of an interrupt clears its active bit and changes nothing else. -/
def EndFrame (gic : GicArmTlm) (cpuID : ℕ) (data : Word) : Prop :=
  ∃ next, notifyEndOfInt nCpus gic cpuID data = some next ∧
    (∀ cpuID' no' src', no' < 16 → src' < 8 →
      pendingSgi next cpuID' no' src' = pendingSgi gic cpuID' no' src') ∧
    (∀ cpuID' id', id' < 1024 → pendingLine next cpuID' id' = pendingLine gic cpuID' id') ∧
    (∀ cpuID' id', id' < 1024 → pendingSet next cpuID' id' = pendingSet gic cpuID' id') ∧
    ∀ cpuID' id', id' < 1024 → activeState next cpuID' id' =
      (activeState gic cpuID' id' &&
        !decide (SameInterrupt cpuID (eoiNumber data) cpuID' id'))

variable (nCpus) in
/-- The interrupts that an acknowledgement moves as it should: nothing is set
pending by software in their word, and they are requested. -/
def Requested (gic : GicArmTlm) (cpuID id : ℕ) : Prop :=
  gic.word (bitPlace .pendings cpuID id) = 0 ∧
    (id < 16 → ∃ src ≤ nCpus, src < 8 ∧ pendingSgi gic cpuID id src) ∧
    (16 ≤ id → pendingLine gic cpuID id)

variable (nCpus) in
/-- The states in which an acknowledgement does what it should. -/
def Acknowledgeable (gic : GicArmTlm) (grp : Fin 2) (cpuID : ℕ) : Prop :=
  let id := (gic.word (.cpustate cpuID (.ia grp))).toNat
  (id < 1020 → Requested nCpus gic cpuID id) ∧
    (id = 1023 → activeState gic cpuID 1023 ∧
      ∀ id', 992 ≤ id' → id' < 1023 → pendingSet gic cpuID id' = false)

theorem firstSource_spec (hsource : ∃ src ≤ nCpus, src < 8 ∧ pendingSgi gic cpuID no src) :
    firstSource nCpus (srcBitfield gic cpuID no) < 8 ∧
      pendingSgi gic cpuID no (firstSource nCpus (srcBitfield gic cpuID no)) := by
  obtain ⟨src, hle, hlow, hpending⟩ := hsource
  by_cases hsome : ∃ src, src < nCpus ∧ src < 8 ∧ pendingSgi gic cpuID no src
  · obtain ⟨other, hlt, hother, hbit⟩ := hsome
    exact (firstSource_of_pending hlt hbit hother).2
  · have hnone : ∀ src, src < nCpus → src < 8 → pendingSgi gic cpuID no src = false := by
      intro other hlt hother
      exact Bool.eq_false_iff.mpr fun hbit => hsome ⟨other, hlt, hother, hbit⟩
    rw [firstSource_of_none hnone]
    obtain rfl | hlt := Nat.eq_or_lt_of_le hle
    · exact ⟨hlow, hpending⟩
    · exact absurd ⟨src, hlt, hlow, hpending⟩ hsome

/-! ## When the frame holds -/

theorem bitPlace_ne_matrix (family : BitFamily) (cpuID id cpuID' : ℕ) (n : Fin 4) :
    bitPlace family cpuID id ≠ .cpustate cpuID' (.sgiMatrix n) := by
  unfold bitPlace
  cases family <;> split_ifs <;> exact fun h => nomatch h

section Acknowledged

variable (gic cpuID id cpuID' id')

@[simp]
theorem acknowledged_sgi :
    pendingSgi (acknowledged gic cpuID id) cpuID' no' src' = pendingSgi gic cpuID' no' src' := by
  rw [acknowledged, pendingSgi_modify_of_ne _ (bitPlace_ne_matrix .actives cpuID id),
    pendingSgi_modify_of_ne _ (bitPlace_ne_matrix .pendings cpuID id)]

@[simp]
theorem acknowledged_line :
    pendingLine (acknowledged gic cpuID id) cpuID' id' = pendingLine gic cpuID' id' := by
  rw [acknowledged, pendingLine, stateBit_modify_of_ne, stateBit_modify_of_ne, pendingLine]
  · exact bitPlace_ne (by decide) _ _ _ _
  · exact bitPlace_ne (by decide) _ _ _ _

theorem acknowledged_set :
    pendingSet (acknowledged gic cpuID id) cpuID' id' =
      stateBit .pendings (gic.modify (bitPlace .pendings cpuID id)
        (· &&& (1 : Word) <<< (id % 32))) cpuID' id' := by
  rw [acknowledged, pendingSet, stateBit_modify_of_ne]
  exact bitPlace_ne (by decide) _ _ _ _

theorem acknowledged_active (hid : id < 1024) (hid' : id' < 1024) :
    activeState (acknowledged gic cpuID id) cpuID' id' =
      (activeState gic cpuID' id' || decide (SameInterrupt cpuID id cpuID' id')) := by
  rw [acknowledged, activeState, stateBit_set hid hid',
    stateBit_modify_of_ne, activeState]
  exact bitPlace_ne (by decide) _ _ _ _

end Acknowledged

/-- Taking a request changes no bits but those of requests of its kind. -/
structure TakeFrame (gic taken : GicArmTlm) : Prop where
  pendings : ∀ cpuID id, taken.word (bitPlace .pendings cpuID id) =
    gic.word (bitPlace .pendings cpuID id)
  actives : ∀ cpuID id, taken.word (bitPlace .actives cpuID id) =
    gic.word (bitPlace .actives cpuID id)

theorem TakeFrame.of_modify {place : Place} (edit : Word → Word)
    (hpendings : ∀ cpuID id, place ≠ bitPlace .pendings cpuID id)
    (hactives : ∀ cpuID id, place ≠ bitPlace .actives cpuID id) :
    TakeFrame gic (gic.modify place edit) where
  pendings cpuID id := by rw [modify_word, if_neg (hpendings cpuID id).symm]
  actives cpuID id := by rw [modify_word, if_neg (hactives cpuID id).symm]

theorem takeFrame_of_takeRequest {taken : GicArmTlm × ℕ}
    (htake : takeRequest nCpus gic id cpuID = some taken) : TakeFrame gic taken.1 := by
  rcases Nat.lt_or_ge id 16 with hsgi | hlow
  · rw [takeRequest_sgi hsgi] at htake
    split_ifs at htake
    cases htake
    dsimp only
    refine .of_modify _ (fun cpuID' id' => ?_) fun cpuID' id' => ?_
    · exact (bitPlace_ne_matrix .pendings cpuID' id' cpuID _).symm
    · exact (bitPlace_ne_matrix .actives cpuID' id' cpuID _).symm
  rcases Nat.lt_or_ge id 1021 with hline | hhigh
  · rw [takeRequest_line hlow hline] at htake
    cases htake
    dsimp only
    refine .of_modify _ (fun cpuID' id' => ?_) fun cpuID' id' => ?_
    · exact bitPlace_ne (by decide) _ _ _ _
    · exact bitPlace_ne (by decide) _ _ _ _
  · rw [takeRequest_none hhigh] at htake
    cases htake
    exact ⟨fun _ _ => rfl, fun _ _ => rfl⟩

/-- The bits set by software are as they should be for an empty word only. -/
theorem acknowledged_set_iff {taken : GicArmTlm} (hframe : TakeFrame gic taken)
    (hid : id < 1024) :
    (∀ cpuID' id', id' < 1024 → pendingSet (acknowledged taken cpuID id) cpuID' id' =
      (pendingSet gic cpuID' id' && !decide (SameInterrupt cpuID id cpuID' id'))) ↔
      gic.word (bitPlace .pendings cpuID id) = 0 := by
  rw [← hframe.pendings, ← stateBit_keep_iff hid]
  refine forall_congr' fun cpuID' => forall_congr' fun id' => imp_congr_right fun _ => ?_
  rw [acknowledged_set, pendingSet, stateBit, stateBit, stateBit, hframe.pendings]

/-- A request of an input that is taken back, for the bits of the inputs. -/
theorem pendingLine_taken (hlow : 16 ≤ id) (hid : id < 1024) (hid' : id' < 1024) :
    pendingLine (gic.modify (bitPlace .unmasked cpuID id)
        (· &&& ~~~((1 : Word) <<< (id % 32)))) cpuID' id' =
      (pendingLine gic cpuID' id' &&
        !decide (16 ≤ id ∧ SameInterrupt cpuID id cpuID' id')) := by
  rw [pendingLine, stateBit_clear hid hid', pendingLine]
  simp only [hlow, true_and]

/-- A source that is taken back was pending. -/
theorem source_of_sgiTaken (hid : id < 16) {taken : GicArmTlm × ℕ}
    (htake : takeRequest nCpus gic id cpuID = some taken)
    (hsgi : SgiTaken gic (acknowledged taken.1 cpuID id) cpuID id) :
    ∃ src ≤ nCpus, src < 8 ∧ pendingSgi gic cpuID id src := by
  rw [SgiTaken, if_pos hid] at hsgi
  obtain ⟨src, hlow, hpending, hsources⟩ := hsgi
  by_contra hnone
  have hfirst : firstSource nCpus (srcBitfield gic cpuID id) = nCpus := by
    refine firstSource_of_none fun other hlt hother => Bool.eq_false_iff.mpr fun hbit => ?_
    exact hnone ⟨other, hlt.le, hother, hbit⟩
  have hafter := hsources cpuID id src hid hlow
  rw [acknowledged_sgi] at hafter
  rw [takeRequest_sgi hid, hfirst] at htake
  split_ifs at htake
  cases htake
  -- the bit that was cleared belongs to no source
  rw [pendingSgi_modify hid hid, if_pos ⟨rfl, rfl⟩,
    getLsbD_clear _ (by unfold sgiShift; omega)] at hafter
  have hother : nCpus + sgiShift id ≠ src + sgiShift id := by
    intro hsame
    exact hnone ⟨src, by omega, hlow, hpending⟩
  rw [decide_eq_false hother, Bool.not_false, Bool.and_true] at hafter
  change pendingSgi gic cpuID id src = _ at hafter
  rw [hpending] at hafter
  simp at hafter

/-- What an acknowledgement that does as it should says about the state. -/
theorem acknowledgeable_of_frame (hcpu : cpuID < nCpus)
    (hia : (gic.word (.cpustate cpuID (.ia grp))).toNat < 1024)
    (hframe : AcknowledgeFrame nCpus gic grp cpuID) : Acknowledgeable nCpus gic grp cpuID := by
  obtain ⟨next, data, hnotify, hmoved, hspurious⟩ := hframe
  rw [notifyIntAcknowledge_eq hcpu rfl hia, Option.map_eq_some_iff] at hnotify
  obtain ⟨taken, htake, hresult⟩ := hnotify
  rw [Prod.mk.injEq] at hresult
  obtain ⟨rfl, rfl⟩ := hresult
  rw [answer_mod hia] at hmoved hspurious
  have htaken := takeFrame_of_takeRequest htake
  refine ⟨fun hid => ?_, fun hid => ?_⟩
  · obtain ⟨hrequested, hsgi, hline, hset, -⟩ := hmoved hid
    have hzero := (acknowledged_set_iff htaken hia).mp hset
    refine ⟨hzero, fun hlow => source_of_sgiTaken hlow htake hsgi, fun hhigh => ?_⟩
    rcases hrequested hhigh with hpending | hpending
    · exact hpending
    · rw [pendingSet, stateBit, hzero] at hpending
      simp at hpending
  · obtain ⟨-, -, hset, hactive⟩ := hspurious hid
    rw [hid, takeRequest_none (by norm_num), Option.some.injEq] at htake
    subst htake
    rw [hid] at hset hactive
    refine ⟨?_, fun id' hlow hhigh => ?_⟩
    · have hbit := hactive cpuID 1023 (by norm_num)
      rw [acknowledged_active _ _ _ _ _ (by norm_num) (by norm_num)] at hbit
      rw [← hbit, decide_eq_true ⟨rfl, fun _ => rfl⟩, Bool.or_true]
    · have hbit := hset cpuID id' (by omega)
      rw [acknowledged_set, stateBit_modify (by norm_num) (by omega), if_pos (by omega),
        getLsbD_keep _ (by omega), decide_eq_false (by omega), Bool.and_false] at hbit
      exact hbit.symm

/-- A source of a software interrupt is taken. -/
theorem taken_of_source (hid : id < 16)
    (hsource : ∃ src ≤ nCpus, src < 8 ∧ pendingSgi gic cpuID id src) :
    ∃ taken src, takeRequest nCpus gic id cpuID = some (taken, src) ∧
      SgiTaken gic (acknowledged taken cpuID id) cpuID id ∧
      ∀ cpuID' id', pendingLine taken cpuID' id' = pendingLine gic cpuID' id' := by
  obtain ⟨hsrc, hpending⟩ := firstSource_spec hsource
  have hshift : firstSource nCpus (srcBitfield gic cpuID id) + sgiShift id < 32 := by
    unfold sgiShift
    omega
  refine ⟨_, _, (takeRequest_sgi hid).trans (if_pos hshift), ?_, fun cpuID' id' => ?_⟩
  · rw [SgiTaken, if_pos hid]
    refine ⟨_, hsrc, hpending, fun cpuID' no' src' hno' hsrc' => ?_⟩
    rw [acknowledged_sgi, pendingSgi_clear hid hno' hsrc hsrc']
  · exact stateBit_modify_of_ne _ (bitPlace_ne_matrix .unmasked cpuID' id' cpuID _).symm

/-- A request of an input is taken. -/
theorem taken_of_line (hlow : 16 ≤ id) (hid : id < 1020) :
    ∃ taken src, takeRequest nCpus gic id cpuID = some (taken, src) ∧
      SgiTaken gic (acknowledged taken cpuID id) cpuID id ∧
      ∀ cpuID' id', id' < 1024 → pendingLine taken cpuID' id' =
        (pendingLine gic cpuID' id' &&
          !decide (16 ≤ id ∧ SameInterrupt cpuID id cpuID' id')) := by
  have hhigh : id < 1021 := by omega
  refine ⟨_, _, takeRequest_line hlow hhigh, ?_, fun cpuID' id' hother => ?_⟩
  · rw [SgiTaken, if_neg (Nat.not_lt.mpr hlow)]
    intro cpuID' no' src' _ _
    rw [acknowledged_sgi]
    exact pendingSgi_modify_of_ne _ (bitPlace_ne_matrix .unmasked cpuID id)
  · exact pendingLine_taken hlow (by omega) hother

/-- What a request that can be taken leaves. -/
theorem acknowledged_of_requested (hcpu : cpuID < nCpus) (hid : id < 1020)
    (hia : (gic.word (.cpustate cpuID (.ia grp))).toNat = id)
    (hrequested : Requested nCpus gic cpuID id) : AcknowledgeFrame nCpus gic grp cpuID := by
  obtain ⟨hzero, hsource, hline⟩ := hrequested
  have hid' : id < 1024 := by omega
  obtain ⟨taken, src, htake, hsgi, hlines⟩ :
      ∃ taken src, takeRequest nCpus gic id cpuID = some (taken, src) ∧
        SgiTaken gic (acknowledged taken cpuID id) cpuID id ∧
        ∀ cpuID' id', id' < 1024 → pendingLine taken cpuID' id' =
          (pendingLine gic cpuID' id' &&
            !decide (16 ≤ id ∧ SameInterrupt cpuID id cpuID' id')) := by
    rcases Nat.lt_or_ge id 16 with hlow | hlow
    · obtain ⟨taken, src, htake, hsgi, hlines⟩ := taken_of_source hlow (hsource hlow)
      refine ⟨taken, src, htake, hsgi, fun cpuID' id' _ => ?_⟩
      rw [hlines, decide_eq_false fun h => Nat.not_lt.mpr h.1 hlow, Bool.not_false,
        Bool.and_true]
    · exact taken_of_line hlow hid
  have htaken := takeFrame_of_takeRequest htake
  refine ⟨_, _, (notifyIntAcknowledge_eq hcpu hia hid').trans (congrArg _ htake), ?_, ?_⟩
  · have hmod := answer_mod (hia.trans_lt hid') src
    rw [hmod, hia]
    refine fun _ => ⟨fun hhigh => .inl (hline hhigh), hsgi, fun cpuID' id' hother => ?_,
      (acknowledged_set_iff htaken hid').mpr hzero, fun cpuID' id' hother => ?_⟩
    · rw [acknowledged_line, hlines cpuID' id' hother]
    · rw [acknowledged_active _ _ _ _ _ hid' hother, activeState, activeState, stateBit,
        stateBit, htaken.actives]
  · have hmod := answer_mod (hia.trans_lt hid') src
    rw [hmod, hia]
    omega

/-- An answer that is no interrupt, when nothing is left to change. -/
theorem frame_of_spurious (hcpu : cpuID < nCpus)
    (hia : (gic.word (.cpustate cpuID (.ia grp))).toNat = 1023)
    (hactive : activeState gic cpuID 1023)
    (hset : ∀ id', 992 ≤ id' → id' < 1023 → pendingSet gic cpuID id' = false) :
    AcknowledgeFrame nCpus gic grp cpuID := by
  refine ⟨_, _, (notifyIntAcknowledge_eq hcpu hia (by norm_num)).trans
    (congrArg _ (takeRequest_none (by norm_num))), ?_, fun _ => ?_⟩
  · rw [answer_mod (by omega), hia]
    norm_num
  · have hshared : ∀ family cpuID' id', 32 ≤ id' →
        stateBit family gic cpuID' id' = stateBit family gic cpuID id' := by
      intro family cpuID' id' hhigh
      rw [stateBit, stateBit, bitPlace, bitPlace, if_neg (by omega), if_neg (by omega)]
    refine ⟨fun _ _ _ _ _ => acknowledged_sgi _ _ _ _, fun _ _ _ => acknowledged_line _ _ _ _ _,
      fun cpuID' id' hid' => ?_, fun cpuID' id' hid' => ?_⟩
    · rw [acknowledged_set, stateBit_modify (by norm_num) hid', pendingSet]
      by_cases hword : id' / 32 = 1023 / 32
      · rw [if_pos ⟨hword, by omega⟩, getLsbD_keep _ (by omega), hshared _ cpuID' _ (by omega)]
        obtain rfl | hlt := Nat.eq_or_lt_of_le (by omega : id' ≤ 1023)
        · exact Bool.and_true _
        · have hclear := hset id' (by omega) hlt
          rw [pendingSet] at hclear
          rw [decide_eq_false (by omega), Bool.and_false, hclear]
      · rw [if_neg fun h => hword h.1]
    · rw [acknowledged_active _ _ _ _ _ (by norm_num) hid']
      by_cases hlast : SameInterrupt cpuID 1023 cpuID' id'
      · obtain ⟨rfl, -⟩ := hlast
        have hbit : activeState gic cpuID' 1023 = activeState gic cpuID 1023 :=
          hshared .actives cpuID' 1023 (by norm_num)
        rw [hbit, hactive, Bool.true_or]
      · rw [decide_eq_false hlast, Bool.or_false]

/-- An acknowledgement does what it should in exactly the states that it can be
acknowledged in. -/
theorem acknowledgeFrame_iff (hcpu : cpuID < nCpus)
    (hia : (gic.word (.cpustate cpuID (.ia grp))).toNat < 1024) :
    AcknowledgeFrame nCpus gic grp cpuID ↔ Acknowledgeable nCpus gic grp cpuID := by
  refine ⟨acknowledgeable_of_frame hcpu hia, fun ⟨hmoved, hspurious⟩ => ?_⟩
  rcases Nat.lt_or_ge (gic.word (.cpustate cpuID (.ia grp))).toNat 1020 with hlow | hhigh
  · exact acknowledged_of_requested hcpu hlow rfl (hmoved hlow)
  by_cases hlast : (gic.word (.cpustate cpuID (.ia grp))).toNat = 1023
  · exact frame_of_spurious hcpu hlast (hspurious hlast).1 (hspurious hlast).2
  · -- the three numbers between are reserved, and are not taken
    obtain ⟨taken, htake⟩ : ∃ taken, takeRequest nCpus gic
        (gic.word (.cpustate cpuID (.ia grp))).toNat cpuID = some taken := by
      rcases Nat.lt_or_ge (gic.word (.cpustate cpuID (.ia grp))).toNat 1021 with hline | hnone
      · exact ⟨_, takeRequest_line (by omega) hline⟩
      · exact ⟨_, takeRequest_none hnone⟩
    refine ⟨_, _, (notifyIntAcknowledge_eq hcpu rfl hia).trans (congrArg _ htake), ?_, ?_⟩
    · have hmod := answer_mod hia taken.2
      rw [hmod]
      omega
    · have hmod := answer_mod hia taken.2
      rw [hmod]
      omega

theorem eoiNumber_lt (data : Word) : eoiNumber data < 1024 := by
  have hmask : (1023 : Word).toNat = 2 ^ 10 - 1 := rfl
  rw [eoiNumber, BitVec.toNat_and, hmask, Nat.and_two_pow_sub_one_eq_mod]
  exact Nat.mod_lt _ (by norm_num)

/-- The end of an interrupt clears its active bit. -/
theorem endFrame (hcpu : cpuID < nCpus) (gic : GicArmTlm) (data : Word) :
    EndFrame nCpus gic cpuID data := by
  have hid := eoiNumber_lt data
  refine ⟨_, (writeThrough_bits hcpu hid _).2.2, fun cpuID' no' src' _ _ => ?_,
    fun cpuID' id' _ => ?_, fun cpuID' id' _ => ?_, fun cpuID' id' hid' => ?_⟩
  · exact pendingSgi_modify_of_ne _ (bitPlace_ne_matrix .actives cpuID _)
  · exact stateBit_modify_of_ne _ (bitPlace_ne (by decide) _ _ _ _)
  · exact stateBit_modify_of_ne _ (bitPlace_ne (by decide) _ _ _ _)
  · exact stateBit_clear hid hid'

end Prazor.Gic
