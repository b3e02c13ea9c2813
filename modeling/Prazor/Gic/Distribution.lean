import Prazor.Core.Election
import Prazor.Gic.Runs

/-!
# What the distributor signals

`distribute` elects a leader for each group and CPU in one scan, tells the CPUs, and drives
their interrupt lines.  The priority, the group and the enable bit of an interrupt are what
the CPU reads in the registers of the distributor.
-/

namespace Prazor.Gic

open Prazor.WordBits Prazor.Election

variable {nCpus cpuID id : ℕ} {gic : GicArmTlm} {grp : Fin 2}

/-! ## The interrupts of a CPU -/

/-- A software interrupt has a source, or the interrupt is active, or its input is on. -/
def Requesting (gic : GicArmTlm) (cpuID id : ℕ) : Prop :=
  (id < 16 ∧ ∃ src < 8, pendingSgi gic cpuID id src = true) ∨
    activeState gic cpuID id = true ∨ pendingLine gic cpuID id = true

section Registers

variable (nCpus : ℕ) (gic : GicArmTlm) (cpuID id : ℕ)

/-- The bit of `GICD_ISENABLER`. -/
def enabledFor : Bool :=
  (readDist nCpus gic (0x100 + id / 32 * 4) cpuID).getLsbD (id % 32)

/-- The byte of `GICD_IPRIORITYR`; a lower number is a higher priority. -/
def priorityOf : ℕ :=
  ((readDist nCpus gic (0x400 + id / 4 * 4) cpuID >>> (id % 4 * 8)) &&& 0xFF).toNat

/-- The bit of `GICD_IGROUPR`. -/
def groupOf : Fin 2 :=
  if (readDist nCpus gic (0x080 + id / 32 * 4) cpuID).getLsbD (id % 32) then 1 else 0

end Registers

/-- Private interrupts go to their own CPU, the shared ones below 96 to the first CPU, and
the others to every CPU. -/
def Routed (cpuID id : ℕ) : Prop := ¬(32 ≤ id ∧ id ≤ 95 ∧ cpuID ≠ 0)

/-- The bit of a group in `GICD_CTLR`. -/
def distEnabled (gic : GicArmTlm) (grp : Fin 2) : Bool :=
  if grp = 1 then gic.enableGrp1 else gic.enableGrp0

/-- A group is enabled in the interface of a CPU and in the distributor. -/
def GroupEnabled (gic : GicArmTlm) (cpuID : ℕ) (grp : Fin 2) : Prop :=
  (gic.word (.cpustate cpuID .ctl)).getLsbD grp = true ∧ distEnabled gic grp = true

/-- An interrupt of a group that can be signalled to a CPU. -/
structure Candidate (nCpus : ℕ) (gic : GicArmTlm) (cpuID : ℕ) (grp : Fin 2) (id : ℕ) :
    Prop where
  requesting : Requesting gic cpuID id
  enabled : enabledFor nCpus gic cpuID id = true
  routed : Routed cpuID id
  group : groupOf nCpus gic cpuID id = grp
  groupEnabled : GroupEnabled gic cpuID grp

/-- `FIQEn` in the control register of a CPU. -/
def fiqEnabled (gic : GicArmTlm) (cpuID : ℕ) : Bool :=
  (gic.word (.cpustate cpuID .ctl)).getLsbD 3

/-! ## The requests -/

theorem byte_ne_zero_iff (word : Word) (shift : ℕ) :
    (word >>> shift) &&& 0xFF ≠ 0 ↔ ∃ i < 8, word.getLsbD (i + shift) = true := by
  have hmask : (0xFF : Word) = (BitVec.allOnes 8).setWidth 32 := rfl
  have hbit : ∀ i < 32, ((word >>> shift) &&& 0xFF).getLsbD i =
      (word.getLsbD (i + shift) && decide (i < 8)) := by
    intro i hi
    rw [BitVec.getLsbD_and, BitVec.getLsbD_ushiftRight, hmask, BitVec.getLsbD_setWidth,
      BitVec.getLsbD_allOnes, Nat.add_comm, decide_eq_true hi, Bool.true_and]
  constructor
  · intro hne
    by_contra hnone
    apply hne
    apply BitVec.eq_of_getLsbD_eq
    intro i hi
    rw [hbit i hi]
    by_cases hlow : i < 8
    · have hclear : word.getLsbD (i + shift) = false :=
        Bool.eq_false_iff.mpr fun hset => hnone ⟨i, hlow, hset⟩
      rw [hclear]
      simp
    · simp [hlow]
  · rintro ⟨i, hlow, hset⟩ hzero
    have hclear := hbit i (by omega)
    rw [hzero, hset, decide_eq_true hlow] at hclear
    simp at hclear

/-- The flags of the software interrupts below a bound that have a source. -/
def Collected (gic : GicArmTlm) (cpuID count : ℕ) (flags : Word) : Prop :=
  ∀ id < 32, flags.getLsbD id = true ↔
    id < count ∧ ∃ src < 8, pendingSgi gic cpuID id src = true

theorem collected_sgiFlags : Collected gic cpuID 16 (sgiFlags gic cpuID) := by
  apply foldl_range_holds
  · intro id _
    simp
  · intro no _ flags hflags id hid
    have hsource := byte_ne_zero_iff (gic.word (sgiPlace cpuID no)) (sgiShift no)
    split
    case isTrue hpending =>
      rw [getLsbD_set flags hid, Bool.or_eq_true, hflags id hid, decide_eq_true_eq]
      by_cases hno : no = id
      · subst hno
        simpa [pendingSgi] using hsource.mp hpending
      · rw [or_iff_left hno]
        apply and_congr_left'
        omega
    case isFalse hnone =>
      rw [hflags id hid]
      by_cases hno : no = id
      · subst hno
        simpa [pendingSgi] using mt hsource.mpr hnone
      · apply and_congr_left'
        omega

/-- A bit of `read_requesting_disjunction`. -/
theorem getLsbD_readRequestingDisjunction (sgi : Fin 32) {bit : ℕ} (hbit : bit < 32) :
    (readRequestingDisjunction gic sgi cpuID).getLsbD bit = true ↔
      Requesting gic cpuID (sgi * 32 + bit) := by
  have hword : (sgi.val * 32 + bit) / 32 = sgi := by omega
  have hmod : (sgi.val * 32 + bit) % 32 = bit := by omega
  by_cases hsgi : sgi = 0
  · subst hsgi
    rw [readRequestingDisjunction, if_pos rfl, BitVec.getLsbD_or, BitVec.getLsbD_or,
      Bool.or_eq_true, Bool.or_eq_true, collected_sgiFlags bit hbit, or_assoc]
    simp [Requesting, activeState, pendingLine, stateBit, bitPlace, BitFamily.own,
      Nat.mod_eq_of_lt hbit, Nat.div_eq_of_lt hbit]
  · have hne : sgi.val ≠ 0 := fun h => hsgi (Fin.ext h)
    have hlarge : ¬sgi.val * 32 + bit < 16 := by omega
    rw [readRequestingDisjunction, if_neg hsgi, BitVec.getLsbD_or, Bool.or_eq_true, or_comm]
    simp [Requesting, activeState, pendingLine, stateBit, bitPlace, BitFamily.shared, hword,
      hmod, hne, hlarge]

/-! ## The scan -/

section Scan

variable {leaders : Leaders} {no n : ℕ}

/-- A turn for another CPU. -/
theorem consider_other (hne : n ≠ cpuID) :
    consider nCpus gic cpuID leaders no grp n = leaders grp n := by
  rcases consider_cases leaders cpuID no with hsame | ⟨other, pri, hnew⟩
  · rw [hsame]
  · rw [hnew, Function.update_apply]
    split
    case isTrue hgrp => rw [Function.update_of_ne hne, hgrp]
    case isFalse => rfl

/-- A turn for an interrupt that is routed to the CPU. -/
theorem consider_routed (hrouted : Routed cpuID no) :
    consider nCpus gic cpuID leaders no =
      let grp := groupOf nCpus gic cpuID no
      if (gic.word (.cpustate cpuID .ctl)).getLsbD grp = true ∧
          distEnabled gic grp = true ∧
          (leaders grp cpuID).all
            (fun leader => priorityOf nCpus gic cpuID no < leader.1) = true then
        Function.update leaders grp (Function.update (leaders grp) cpuID
          (some (priorityOf nCpus gic cpuID no, no)))
      else leaders :=
  if_neg hrouted

/-- A candidate with a lower number takes the lead. -/
theorem consider_take (hcandidate : Candidate nCpus gic cpuID grp no)
    (hbetter : ∀ best ∈ leaders grp cpuID, priorityOf nCpus gic cpuID no < best.1) :
    consider nCpus gic cpuID leaders no grp cpuID =
      some (priorityOf nCpus gic cpuID no, no) := by
  have hall : (leaders grp cpuID).all
      (fun leader => priorityOf nCpus gic cpuID no < leader.1) = true := by
    rw [Option.all_eq_true]
    exact fun best hbest => decide_eq_true (hbetter best hbest)
  rw [consider_routed hcandidate.routed, hcandidate.group]
  dsimp only
  rw [if_pos ⟨hcandidate.groupEnabled.1, hcandidate.groupEnabled.2, hall⟩,
    Function.update_self, Function.update_self]

/-- Otherwise the lead stays as it is. -/
theorem consider_keep (hrequesting : Requesting gic cpuID no)
    (henabled : enabledFor nCpus gic cpuID no = true)
    (hworse : Candidate nCpus gic cpuID grp no →
      ∃ best ∈ leaders grp cpuID, best.1 ≤ priorityOf nCpus gic cpuID no) :
    consider nCpus gic cpuID leaders no grp cpuID = leaders grp cpuID := by
  by_cases hrouted : Routed cpuID no
  · rw [consider_routed hrouted]
    dsimp only
    split
    case isTrue htaken =>
      have hgroup : grp ≠ groupOf nCpus gic cpuID no := by
        rintro rfl
        have hcandidate : Candidate nCpus gic cpuID (groupOf nCpus gic cpuID no) no :=
          ⟨hrequesting, henabled, hrouted, rfl, htaken.1, htaken.2.1⟩
        obtain ⟨best, hbest, hle⟩ := hworse hcandidate
        have hlt := Option.all_eq_true _ _ |>.mp htaken.2.2 best hbest
        exact absurd (of_decide_eq_true hlt) (Nat.not_lt.mpr hle)
      rw [Function.update_of_ne hgroup]
    case isFalse => rfl
  · rw [consider, if_pos (not_not.mp hrouted)]

/-- What a turn of the loop over the bits finds. -/
theorem found_consider
    (hfound : Found (Candidate nCpus gic cpuID grp) (priorityOf nCpus gic cpuID) no
      (leaders grp cpuID))
    (hrequesting : Requesting gic cpuID no)
    (henabled : enabledFor nCpus gic cpuID no = true) :
    Found (Candidate nCpus gic cpuID grp) (priorityOf nCpus gic cpuID) (no + 1)
      (consider nCpus gic cpuID leaders no grp cpuID) := by
  by_cases htakes : Candidate nCpus gic cpuID grp no ∧
      ∀ best ∈ leaders grp cpuID, priorityOf nCpus gic cpuID no < best.1
  · rw [consider_take htakes.1 htakes.2]
    exact hfound.take htakes.1 htakes.2
  · have hworse : Candidate nCpus gic cpuID grp no →
        ∃ best ∈ leaders grp cpuID, best.1 ≤ priorityOf nCpus gic cpuID no := by
      intro hcandidate
      by_contra hnone
      apply htakes
      refine ⟨hcandidate, fun best hbest => Nat.not_le.mp fun hle => ?_⟩
      exact hnone ⟨best, hbest, hle⟩
    rw [consider_keep hrequesting henabled hworse]
    exact hfound.keep hworse

/-- What the loop over the bits of a word finds for the CPU that is scanned. -/
theorem found_considerAll (sgi : Fin 32)
    (hfound : Found (Candidate nCpus gic cpuID grp) (priorityOf nCpus gic cpuID)
      (sgi * 32) (leaders grp cpuID)) :
    Found (Candidate nCpus gic cpuID grp) (priorityOf nCpus gic cpuID) ((sgi + 1) * 32)
      (considerAll nCpus gic sgi leaders cpuID grp cpuID) := by
  have hscan := @foldl_range_holds Leaders
    (fun bit leaders => Found (Candidate nCpus gic cpuID grp) (priorityOf nCpus gic cpuID)
      (sgi * 32 + bit) (leaders grp cpuID))
  rw [Nat.succ_mul]
  refine hscan hfound fun bit hbit leaders hfound => ?_
  have hword : (sgi.val * 32 + bit) / 32 = sgi := by omega
  have hmod : (sgi.val * 32 + bit) % 32 = bit := by omega
  have henabled : enabledFor nCpus gic cpuID (sgi * 32 + bit) =
      (readDist nCpus gic (0x100 + sgi * 4) cpuID).getLsbD bit := by
    rw [enabledFor, hword, hmod]
  split
  case isTrue hreq =>
    rw [BitVec.getLsbD_and, Bool.and_eq_true] at hreq
    exact found_consider hfound
      ((getLsbD_readRequestingDisjunction sgi hbit).mp hreq.1) (henabled.trans hreq.2)
  case isFalse hreq =>
    refine hfound.keep fun hcandidate => absurd ?_ hreq
    rw [BitVec.getLsbD_and, Bool.and_eq_true]
    exact ⟨(getLsbD_readRequestingDisjunction sgi hbit).mpr hcandidate.requesting,
      henabled.symm.trans hcandidate.enabled⟩

/-- The loop over the bits leaves the leaders of the other CPUs. -/
theorem considerAll_other (sgi : Fin 32) (hne : n ≠ cpuID) :
    considerAll nCpus gic sgi leaders cpuID grp n = leaders grp n := by
  have hkeeps := @foldl_range_holds Leaders (fun _ mid => mid grp n = leaders grp n)
  refine hkeeps rfl fun bit _ mid hmid => ?_
  split
  · rw [consider_other hne, hmid]
  · exact hmid

/-- The scan finds the leader of each group of a CPU. -/
theorem found_elect (hcpu : cpuID < nCpus) :
    Found (Candidate nCpus gic cpuID grp) (priorityOf nCpus gic cpuID) 1024
      (elect nCpus gic grp cpuID) := by
  have hwords := @foldl_finRange_holds Leaders
    (fun words leaders => Found (Candidate nCpus gic cpuID grp)
      (priorityOf nCpus gic cpuID) (words * 32) (leaders grp cpuID))
  refine hwords found_zero fun sgi leaders hfound => ?_
  -- the word is scanned for the CPUs one after another
  have hcpus := @foldl_range_holds Leaders
    (fun scanned leaders => Found (Candidate nCpus gic cpuID grp)
      (priorityOf nCpus gic cpuID) ((if cpuID < scanned then sgi.val + 1 else sgi.val) * 32)
      (leaders grp cpuID)) leaders (considerAll nCpus gic sgi) nCpus
  rw [if_neg (Nat.not_lt_zero _), if_pos hcpu] at hcpus
  refine hcpus hfound fun other _ mid hmid => ?_
  by_cases hown : cpuID = other
  · subst hown
    rw [if_neg (lt_irrefl _)] at hmid
    rw [if_pos (Nat.lt_succ_self _)]
    exact found_considerAll sgi hmid
  · have hsame : cpuID < other + 1 ↔ cpuID < other := by omega
    rw [considerAll_other sgi hown]
    simpa only [hsame] using hmid

end Scan

/-! ## The outputs -/

/-- The bit that `distribute` takes for `FIQEn`. -/
def fiqTaken (gic : GicArmTlm) : Bool := (gic.word (.cpustate 0 .ctl)).getLsbD 8

/-- Telling a CPU changes neither the lines nor the control registers. -/
theorem tellGroup_frame (leaders : Leaders) (n : ℕ) (gic : GicArmTlm) (g : Fin 2) :
    fiqTaken (tellGroup leaders n gic g) = fiqTaken gic ∧
      (tellGroup leaders n gic g).irqOut = gic.irqOut ∧
      (tellGroup leaders n gic g).fiqOut = gic.fiqOut := by
  unfold tellGroup fiqTaken
  split
  · rw [modify_word, if_neg (by simp), modify_word, if_neg (by simp)]
    exact ⟨rfl, rfl, rfl⟩
  · rw [modify_word, if_neg (by simp)]
    exact ⟨rfl, rfl, rfl⟩

theorem driveOutputs_fiqTaken (leaders : Leaders) (n : ℕ) :
    fiqTaken (driveOutputs leaders gic n) = fiqTaken gic :=
  (tellGroup_frame leaders n (tellGroup leaders n gic 0) 1).1.trans
    (tellGroup_frame leaders n gic 0).1

/-- The lines of the other CPUs stay as they are. -/
theorem driveOutputs_other (leaders : Leaders) {n : ℕ} (hne : cpuID ≠ n) :
    (driveOutputs leaders gic n).irqOut cpuID = gic.irqOut cpuID ∧
      (driveOutputs leaders gic n).fiqOut cpuID = gic.fiqOut cpuID := by
  obtain ⟨_, hirq, hfiq⟩ := tellGroup_frame leaders n gic 0
  obtain ⟨_, hirq', hfiq'⟩ := tellGroup_frame leaders n (tellGroup leaders n gic 0) 1
  constructor
  · calc
      _ = (tellGroup leaders n (tellGroup leaders n gic 0) 1).irqOut cpuID :=
        Function.update_of_ne hne ..
      _ = gic.irqOut cpuID := by rw [hirq', hirq]
  · calc
      _ = (tellGroup leaders n (tellGroup leaders n gic 0) 1).fiqOut cpuID :=
        Function.update_of_ne hne ..
      _ = gic.fiqOut cpuID := by rw [hfiq', hfiq]

/-- The lines that `distribute` drives. -/
theorem distribute_lines (gic : GicArmTlm) (hcpu : cpuID < nCpus) :
    (distribute nCpus gic).irqOut cpuID =
        (((elect nCpus gic 0 cpuID).isSome && !fiqTaken gic) ||
          (elect nCpus gic 1 cpuID).isSome) ∧
      (distribute nCpus gic).fiqOut cpuID =
        ((elect nCpus gic 0 cpuID).isSome && fiqTaken gic) := by
  have hdriven := @foldl_range_holds GicArmTlm
    (fun count next => fiqTaken next = fiqTaken gic ∧ (cpuID < count →
      next.irqOut cpuID = (((elect nCpus gic 0 cpuID).isSome && !fiqTaken gic) ||
        (elect nCpus gic 1 cpuID).isSome) ∧
      next.fiqOut cpuID = ((elect nCpus gic 0 cpuID).isSome && fiqTaken gic)))
  refine (hdriven ⟨rfl, fun hnone => absurd hnone (Nat.not_lt_zero _)⟩ ?_).2 hcpu
  rintro n _ mid ⟨htaken, hlines⟩
  refine ⟨(driveOutputs_fiqTaken _ n).trans htaken, fun hn => ?_⟩
  by_cases hown : cpuID = n
  · subst hown
    rw [← htaken]
    exact ⟨Function.update_self .., Function.update_self ..⟩
  · have hbefore := hlines (by omega)
    have hother := @driveOutputs_other cpuID mid (elect nCpus gic) n hown
    exact ⟨hother.1.trans hbefore.1, hother.2.trans hbefore.2⟩

/-- What `distribute` is for: a CPU is told the first one of the interrupts of a group with
the lowest number of a priority, and its lines are on when there is one, that of `FIQ` for
group 0 when the CPU has enabled it. -/
structure Signalled (nCpus : ℕ) (gic next : GicArmTlm) (cpuID : ℕ) : Prop where
  ia : ∀ grp,
    (∃ id, FirstLeast (Candidate nCpus gic cpuID grp) (priorityOf nCpus gic cpuID) 1024 id ∧
      next.word (.cpustate cpuID (.ia grp)) = BitVec.ofNat 32 id) ∨
    (∀ id < 1024, ¬Candidate nCpus gic cpuID grp id) ∧
      next.word (.cpustate cpuID (.ia grp)) = 1023
  irq : next.irqOut cpuID = true ↔
    (∃ id < 1024, Candidate nCpus gic cpuID 1 id) ∨
      (∃ id < 1024, Candidate nCpus gic cpuID 0 id) ∧ fiqEnabled gic cpuID = false
  fiq : next.fiqOut cpuID = true ↔
    (∃ id < 1024, Candidate nCpus gic cpuID 0 id) ∧ fiqEnabled gic cpuID = true

/-- A CPU is told the leader of each group. -/
theorem distribute_tells (hcpu : cpuID < nCpus) (grp : Fin 2) :
    (∃ id, FirstLeast (Candidate nCpus gic cpuID grp) (priorityOf nCpus gic cpuID) 1024 id ∧
      (distribute nCpus gic).word (.cpustate cpuID (.ia grp)) = BitVec.ofNat 32 id) ∨
    (∀ id < 1024, ¬Candidate nCpus gic cpuID grp id) ∧
      (distribute nCpus gic).word (.cpustate cpuID (.ia grp)) = 1023 := by
  have hfound : Found (Candidate nCpus gic cpuID grp) (priorityOf nCpus gic cpuID) 1024
      (elect nCpus gic grp cpuID) := found_elect hcpu
  rw [distribute_ia hcpu, told]
  cases hleader : elect nCpus gic grp cpuID with
  | none =>
      rw [hleader] at hfound
      exact Or.inr ⟨hfound, rfl⟩
  | some leader =>
      rw [hleader] at hfound
      exact Or.inl ⟨leader.2, hfound.2, rfl⟩

/-- The lines in terms of the interrupts. -/
theorem distribute_lines_iff (gic : GicArmTlm) (hcpu : cpuID < nCpus) :
    ((distribute nCpus gic).irqOut cpuID = true ↔
      (∃ id < 1024, Candidate nCpus gic cpuID 1 id) ∨
        (∃ id < 1024, Candidate nCpus gic cpuID 0 id) ∧ fiqTaken gic = false) ∧
    ((distribute nCpus gic).fiqOut cpuID = true ↔
      (∃ id < 1024, Candidate nCpus gic cpuID 0 id) ∧ fiqTaken gic = true) := by
  obtain ⟨hirq, hfiq⟩ := distribute_lines gic hcpu
  have hleader : ∀ grp, (elect nCpus gic grp cpuID).isSome = true ↔
      ∃ id < 1024, Candidate nCpus gic cpuID grp id :=
    fun grp => (found_elect hcpu).isSome_iff
  rw [hirq, hfiq, Bool.or_eq_true, Bool.and_eq_true, Bool.and_eq_true, hleader 0, hleader 1,
    Bool.not_eq_true', or_comm]
  exact ⟨Iff.rfl, Iff.rfl⟩

/-- The CPUs are signalled as they should be exactly if every CPU with an interrupt of
group 0 has in its `FIQEn` what bit 8 of the first CPU's control register has. -/
theorem distribute_signals_iff (nCpus : ℕ) (gic : GicArmTlm) :
    (∀ cpuID < nCpus, Signalled nCpus gic (distribute nCpus gic) cpuID) ↔
      ∀ cpuID < nCpus, (∃ id < 1024, Candidate nCpus gic cpuID 0 id) →
        fiqEnabled gic cpuID = (gic.word (.cpustate 0 .ctl)).getLsbD 8 := by
  constructor
  · intro hsignalled cpuID hcpu hcandidate
    have hfiq := (distribute_lines_iff gic hcpu).2.symm.trans (hsignalled cpuID hcpu).fiq
    rw [and_iff_right hcandidate, and_iff_right hcandidate] at hfiq
    exact (Bool.eq_iff_iff.mpr hfiq).symm
  · intro hsame cpuID hcpu
    obtain ⟨hirq, hfiq⟩ := distribute_lines_iff gic hcpu
    refine ⟨distribute_tells hcpu, ?_, ?_⟩
    · rw [hirq]
      apply or_congr_right
      apply and_congr_right
      intro hcandidate
      rw [hsame cpuID hcpu hcandidate, fiqTaken]
    · rw [hfiq]
      apply and_congr_right
      intro hcandidate
      rw [hsame cpuID hcpu hcandidate, fiqTaken]

/-- One CPU that has enabled group 0 and `FIQ`, and a software interrupt of group 0. -/
def fiqWanted : GicArmTlm where
  enableGrp0 := true
  enableGrp1 := false
  word := fun place =>
    if place = .cpustate 0 .ctl then 0x9
    else if place = .cpustate 0 .enables ∨ place = .cpustate 0 (.sgiMatrix 0) then 0x1
    else 0
  irqOut := fun _ => false
  fiqOut := fun _ => false

theorem not_distribute_signals :
    ¬Signalled 1 fiqWanted (distribute 1 fiqWanted) 0 := by
  intro hsignalled
  have hcandidate : Candidate 1 fiqWanted 0 0 0 := by
    constructor
    · exact Or.inl ⟨by decide, 0, by decide, by decide⟩
    · decide
    · exact fun hrouted => hrouted.2.2 rfl
    · decide
    · exact ⟨by decide, by decide⟩
  have hfiq := hsignalled.fiq.mpr ⟨⟨0, by decide, hcandidate⟩, by decide⟩
  have htaken := ((distribute_lines_iff fiqWanted Nat.zero_lt_one).2.mp hfiq).2
  exact absurd htaken (by decide)

end Prazor.Gic
