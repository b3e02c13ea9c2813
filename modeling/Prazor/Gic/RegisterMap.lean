import Prazor.Core.Guarded
import Prazor.Gic.Distributor

/-!
# The register map of the distributor

A distributor register is a word of one of seven families.  The words for the
first 32 interrupts are private to each CPU and the others are shared.  An
offset finds the word of its register, except for the priorities of interrupts
16 to 31, which are shared, and for their targets, which fall outside their
array.
-/

namespace Prazor.Gic

/-! ## Registers and banks -/

inductive Family where
  | igroup
  | enables
  | pendings
  | actives
  | priorities
  | targets
  | configs
  deriving DecidableEq, Repr

structure Register where
  family : Family
  n : ℕ
  deriving DecidableEq, Repr

namespace Register

/-- The registers for interrupts 0 to 31. -/
def IsPrivate (register : Register) : Prop :=
  match register.family with
  | .igroup | .enables | .pendings | .actives => register.n = 0
  | .priorities | .targets => register.n < 8
  | .configs => register.n < 2

instance (register : Register) : Decidable register.IsPrivate := by
  unfold IsPrivate
  split <;> infer_instance

/-- The registers for the priorities and the targets of interrupts 16 to 31. -/
def Misplaced (register : Register) : Prop :=
  (register.family = .priorities ∨ register.family = .targets) ∧
    4 ≤ register.n ∧ register.n < 8

instance (register : Register) : Decidable register.Misplaced := by
  unfold Misplaced
  infer_instance

end Register

/-- A register and the CPU that it is private to. -/
abbrev Bank := Register × Option ℕ

def bank (register : Register) (cpuID : ℕ) : Bank :=
  (register, if register.IsPrivate then some cpuID else none)

/-- The register of an offset. -/
def registerAt (reg : ℕ) : Option Register :=
  if inRange 0x080 128 reg then some ⟨.igroup, reg / 4 % 32⟩
  else if inRange 0x100 128 reg ∨ inRange 0x180 128 reg then some ⟨.enables, reg / 4 % 32⟩
  else if inRange 0x200 128 reg ∨ inRange 0x280 128 reg then some ⟨.pendings, reg / 4 % 32⟩
  else if inRange 0x300 128 reg ∨ inRange 0x380 128 reg then some ⟨.actives, reg / 4 % 32⟩
  else if inRange 0x400 1024 reg then some ⟨.priorities, reg / 4 % 256⟩
  else if inRange 0x800 1024 reg then some ⟨.targets, reg / 4 % 256⟩
  else if inRange 0xC00 256 reg then some ⟨.configs, reg / 4 % 64⟩
  else none

/-- The register and the bank that a word is the element for. -/
def Place.bank : Place → Option Bank
  | .cpustate cpuID .igroup => some (⟨.igroup, 0⟩, some cpuID)
  | .cpustate cpuID .enables => some (⟨.enables, 0⟩, some cpuID)
  | .cpustate cpuID .pendings => some (⟨.pendings, 0⟩, some cpuID)
  | .cpustate cpuID .actives => some (⟨.actives, 0⟩, some cpuID)
  | .cpustate cpuID (.priorities n) => some (⟨.priorities, n⟩, some cpuID)
  | .cpustate cpuID (.targets n) => some (⟨.targets, n⟩, some cpuID)
  | .cpustate cpuID (.configs n) => some (⟨.configs, n⟩, some cpuID)
  | .diststate (.igroup n) => some (⟨.igroup, n⟩, none)
  | .diststate (.enables n) => some (⟨.enables, n⟩, none)
  | .diststate (.pendings n) => some (⟨.pendings, n⟩, none)
  | .diststate (.actives n) => some (⟨.actives, n⟩, none)
  | .diststate (.priorities n) => some (⟨.priorities, n⟩, none)
  | .diststate (.targets n) => some (⟨.targets, n⟩, none)
  | .diststate (.configs n) => some (⟨.configs, n⟩, none)
  | .cpustate _ _ | .diststate _ => none

/-- The word of a bank. -/
def Bank.word : Bank → Place
  | (⟨.igroup, _⟩, some cpuID) => .cpustate cpuID .igroup
  | (⟨.enables, _⟩, some cpuID) => .cpustate cpuID .enables
  | (⟨.pendings, _⟩, some cpuID) => .cpustate cpuID .pendings
  | (⟨.actives, _⟩, some cpuID) => .cpustate cpuID .actives
  | (⟨.priorities, n⟩, some cpuID) => .cpustate cpuID (.priorities (Fin.ofNat 4 n))
  | (⟨.targets, n⟩, some cpuID) => .cpustate cpuID (.targets (Fin.ofNat 4 n))
  | (⟨.configs, n⟩, some cpuID) => .cpustate cpuID (.configs (Fin.ofNat 2 n))
  | (⟨.igroup, n⟩, none) => .diststate (.igroup (Fin.ofNat 32 n))
  | (⟨.enables, n⟩, none) => .diststate (.enables (Fin.ofNat 32 n))
  | (⟨.pendings, n⟩, none) => .diststate (.pendings (Fin.ofNat 32 n))
  | (⟨.actives, n⟩, none) => .diststate (.actives (Fin.ofNat 32 n))
  | (⟨.priorities, n⟩, none) => .diststate (.priorities (Fin.ofNat 256 n))
  | (⟨.targets, n⟩, none) => .diststate (.targets (Fin.ofNat 256 n))
  | (⟨.configs, n⟩, none) => .diststate (.configs (Fin.ofNat 64 n))

theorem Place.word_of_bank {place : Place} {target : Bank}
    (hplace : place.bank = some target) : target.word = place := by
  unfold Place.bank at hplace
  split at hplace <;> cases hplace <;> simp [Bank.word]

/-- A bank has one word. -/
theorem Place.eq_of_bank {place other : Place} {target : Bank}
    (hplace : place.bank = some target) (hother : other.bank = some target) :
    place = other := by
  rw [← word_of_bank hplace, word_of_bank hother]

/-! ## Where offsets lead -/

section Addresser

variable (nCpus : ℕ)

/-- The place that `dist_addresser` gives for a register. -/
def element (cpuID : ℕ) (register : Register) : Option Place :=
  let n := register.n
  match register.family with
  | .igroup =>
      if n = 0 then banked nCpus cpuID .igroup
      else some (.diststate (.igroup (Fin.ofNat 32 n)))
  | .enables =>
      if n = 0 then banked nCpus cpuID .enables
      else some (.diststate (.enables (Fin.ofNat 32 n)))
  | .pendings =>
      if n = 0 then banked nCpus cpuID .pendings
      else some (.diststate (.pendings (Fin.ofNat 32 n)))
  | .actives =>
      if n = 0 then banked nCpus cpuID .actives
      else some (.diststate (.actives (Fin.ofNat 32 n)))
  | .priorities =>
      if h : n < 4 then banked nCpus cpuID (.priorities ⟨n, h⟩)
      else some (.diststate (.priorities (Fin.ofNat 256 n)))
  | .targets =>
      if h : n < 8 then banked nCpus cpuID (targetsElement ⟨n, h⟩)
      else some (.diststate (.targets (Fin.ofNat 256 n)))
  | .configs =>
      if h : n < 2 then banked nCpus cpuID (.configs ⟨n, h⟩)
      else some (.diststate (.configs (Fin.ofNat 64 n)))

theorem distAddresser_eq (reg cpuID : ℕ) :
    distAddresser nCpus reg cpuID = (registerAt reg).bind (element nCpus cpuID) := by
  have hzero : Fin.ofNat 32 (reg / 4) = 0 ↔ reg / 4 % 32 = 0 := Fin.ext_iff
  have hmod : ∀ m, ∀ _ : NeZero m, Fin.ofNat m (reg / 4 % m) = Fin.ofNat m (reg / 4) :=
    fun m _ => Fin.ext (Nat.mod_mod (reg / 4) m)
  unfold distAddresser registerAt
  by_cases higroup : inRange 0x080 128 reg
  · simp only [if_pos higroup, Option.bind_some, element, hzero, hmod]
  by_cases henables : inRange 0x100 128 reg ∨ inRange 0x180 128 reg
  · simp only [if_neg higroup, if_pos henables, Option.bind_some, element, hzero, hmod]
  by_cases hpendings : inRange 0x200 128 reg ∨ inRange 0x280 128 reg
  · simp only [if_neg higroup, if_neg henables, if_pos hpendings, Option.bind_some, element,
      hzero, hmod]
  by_cases hactives : inRange 0x300 128 reg ∨ inRange 0x380 128 reg
  · simp only [if_neg higroup, if_neg henables, if_neg hpendings, if_pos hactives,
      Option.bind_some, element, hzero, hmod]
  by_cases hpriorities : inRange 0x400 1024 reg
  · simp only [if_neg higroup, if_neg henables, if_neg hpendings, if_neg hactives,
      if_pos hpriorities, Option.bind_some, element, hmod]
    rfl
  by_cases htargets : inRange 0x800 1024 reg
  · simp only [if_neg higroup, if_neg henables, if_neg hpendings, if_neg hactives,
      if_neg hpriorities, if_pos htargets, Option.bind_some, element, hmod]
    rfl
  by_cases hconfigs : inRange 0xC00 256 reg
  · simp only [if_neg higroup, if_neg henables, if_neg hpendings, if_neg hactives,
      if_neg hpriorities, if_neg htargets, if_pos hconfigs, Option.bind_some, element, hmod]
    rfl
  · simp only [if_neg higroup, if_neg henables, if_neg hpendings, if_neg hactives,
      if_neg hpriorities, if_neg htargets, if_neg hconfigs, Option.bind_none]

/-- The registers of a family have numbers below the number of its words. -/
theorem n_lt_of_registerAt {reg : ℕ} {register : Register}
    (hregister : registerAt reg = some register) :
    match register.family with
    | .igroup | .enables | .pendings | .actives => register.n < 32
    | .priorities | .targets => register.n < 256
    | .configs => register.n < 64 := by
  unfold registerAt at hregister
  split_ifs at hregister <;> cases hregister <;> exact Nat.mod_lt _ (by norm_num)

end Addresser

variable {nCpus reg cpuID : ℕ} {register : Register}

/-- The first four elements of the targets of a CPU are those of the array. -/
theorem targetsElement_bank (n : Fin 8) (cpuID : ℕ) :
    (Place.cpustate cpuID (targetsElement n)).bank =
        some (⟨.targets, n⟩, some cpuID) ↔ n.val < 4 := by
  fin_cases n <;> simp [targetsElement, Place.bank]

/-- The place of an offset is the word of its bank, for exactly the registers
that are not misplaced. -/
theorem element_bank_iff (hcpu : cpuID < nCpus)
    (hregister : registerAt reg = some register) :
    (element nCpus cpuID register).bind Place.bank = some (bank register cpuID) ↔
      ¬register.Misplaced := by
  have hbound := n_lt_of_registerAt hregister
  obtain ⟨family, n⟩ := register
  cases family with
  | igroup | enables | pendings | actives =>
      by_cases hzero : n = 0
      · simp [element, hzero, banked, hcpu, Place.bank, bank, Register.IsPrivate,
          Register.Misplaced]
      · simp [element, hzero, Place.bank, bank, Register.IsPrivate, Register.Misplaced,
          Nat.mod_eq_of_lt hbound]
  | configs =>
      by_cases hown : n < 2
      · simp [element, hown, banked, hcpu, Place.bank, bank, Register.IsPrivate,
          Register.Misplaced]
      · simp [element, hown, Place.bank, bank, Register.IsPrivate, Register.Misplaced,
          Nat.mod_eq_of_lt hbound]
  | priorities =>
      by_cases hown : n < 4
      · simp [element, hown, banked, hcpu, Place.bank, bank, Register.IsPrivate,
          Register.Misplaced, Nat.lt_of_lt_of_le hown]
      · simp only [element, hown, Place.bank, bank, Register.IsPrivate, Register.Misplaced,
          dite_false, Option.bind_some, Fin.val_ofNat, Nat.mod_eq_of_lt hbound]
        by_cases hown' : n < 8
        · simp [hown', Nat.not_lt.mp hown]
        · simp [hown']
  | targets =>
      by_cases hown : n < 8
      · simp only [element, hown, banked, hcpu, bank, Register.IsPrivate, Register.Misplaced,
          dite_true, if_true, Option.bind_some]
        rw [targetsElement_bank ⟨n, hown⟩ cpuID]
        simp
      · simp [element, hown, Place.bank, bank, Register.IsPrivate, Register.Misplaced,
          Nat.mod_eq_of_lt hbound]

/-- Two offsets share a place for a register of one bank only. -/
theorem bank_eq_of_place {reg' cpuID' : ℕ} {register' : Register} {place : Place}
    (hcpu : cpuID < nCpus) (hcpu' : cpuID' < nCpus)
    (hregister : registerAt reg = some register)
    (hregister' : registerAt reg' = some register')
    (hplaced : ¬register.Misplaced) (hplaced' : ¬register'.Misplaced)
    (hplace : distAddresser nCpus reg cpuID = some place)
    (hplace' : distAddresser nCpus reg' cpuID' = some place) :
    bank register cpuID = bank register' cpuID' := by
  have hbank := (element_bank_iff hcpu hregister).mpr hplaced
  have hbank' := (element_bank_iff hcpu' hregister').mpr hplaced'
  rw [distAddresser_eq, hregister, Option.bind_some] at hplace
  rw [distAddresser_eq, hregister', Option.bind_some] at hplace'
  rw [hplace, Option.bind_some] at hbank
  rw [hplace', Option.bind_some] at hbank'
  exact Option.some.inj (hbank.symm.trans hbank')

/-! ## What a write does -/

@[simp]
theorem modify_word (gic : GicArmTlm) (place other : Place) (edit : Word → Word) :
    (gic.modify place edit).word other =
      if other = place then edit (gic.word place) else gic.word other :=
  Function.update_apply gic.word place _ other

/-- A write of a distributor register by a CPU. -/
structure DistWrite where
  reg : ℕ
  cpuID : ℕ
  data : Word

variable (nCpus) in
/-- `WriteDist` for a CPU that there is. -/
def distStep (gic : GicArmTlm) (write : DistWrite) : Option GicArmTlm :=
  if write.cpuID < nCpus then writeDist nCpus gic write.reg write.data write.cpuID else none

/-- What an offset does with the word of its register. -/
def operation (reg : ℕ) (data old : Word) : Word :=
  if inRange 0x100 128 reg ∨ inRange 0x200 128 reg ∨ inRange 0x300 128 reg then old ||| data
  else if inRange 0x180 128 reg ∨ inRange 0x280 128 reg ∨ inRange 0x380 128 reg then
    old &&& ~~~data
  else data

/-- What a write means for the word of a bank. -/
def DistWrite.effect (write : DistWrite) (target : Bank) (old : Word) : Word :=
  if (registerAt write.reg).map (fun register => bank register write.cpuID) = some target then
    operation write.reg write.data old
  else old

/-- The offset is not one of a misplaced register. -/
def Placed (reg : ℕ) : Prop :=
  ∀ register, registerAt reg = some register → ¬register.Misplaced

/-- The registers of the matrix of software interrupts. -/
def SgiRegister (reg : ℕ) : Prop :=
  reg = 0xF00 ∨ inRange 0xF10 16 reg ∨ inRange 0xF20 16 reg

/-- The writes that do what their registers are for. -/
structure DistWrite.WellPlaced (write : DistWrite) : Prop where
  register : Placed write.reg
  pendingClear : inRange 0x280 4 write.reg → ∀ i < 16, write.data.getLsbD i = false
  control : write.reg = 0x00 → write.data.getLsbD 0 = write.data.getLsbD 1

/-- What a write of a register changes. -/
structure DistEffect (write : DistWrite) (gic next : GicArmTlm) : Prop where
  banks : ∀ place target, place.bank = some target →
    next.word place = write.effect target (gic.word place)
  control : next.enableGrp0 =
      (if write.reg = 0x00 then write.data.getLsbD 0 else gic.enableGrp0) ∧
    next.enableGrp1 = if write.reg = 0x00 then write.data.getLsbD 1 else gic.enableGrp1
  matrix : ¬SgiRegister write.reg → ∀ cpuID n,
    next.word (.cpustate cpuID (.sgiMatrix n)) = gic.word (.cpustate cpuID (.sgiMatrix n))

/-- Only software interrupts have changed. -/
structure MatrixOnly (gic next : GicArmTlm) : Prop where
  word : ∀ place, (∀ cpuID n, place ≠ .cpustate cpuID (.sgiMatrix n)) →
    next.word place = gic.word place
  enableGrp0 : next.enableGrp0 = gic.enableGrp0
  enableGrp1 : next.enableGrp1 = gic.enableGrp1

theorem MatrixOnly.refl (gic : GicArmTlm) : MatrixOnly gic gic := ⟨fun _ _ => rfl, rfl, rfl⟩

theorem MatrixOnly.modify {gic next : GicArmTlm} (hmatrix : MatrixOnly gic next)
    (cpuID : ℕ) (n : Fin 4) (edit : Word → Word) :
    MatrixOnly gic (next.modify (.cpustate cpuID (.sgiMatrix n)) edit) where
  word place hplace := by
    rw [modify_word, if_neg (hplace cpuID n)]
    exact hmatrix.word place hplace
  enableGrp0 := hmatrix.enableGrp0
  enableGrp1 := hmatrix.enableGrp1

theorem writeGicSgir_matrixOnly {gic next : GicArmTlm} {data : Word}
    (hwrite : writeGicSgir nCpus gic data cpuID = some next) : MatrixOnly gic next := by
  unfold writeGicSgir at hwrite
  split at hwrite
  · cases hwrite
    exact .refl gic
  · have hturn : ∀ mid n last, n ∈ List.range nCpus → MatrixOnly gic mid →
        writeGicSgirFor data cpuID mid n = some last → MatrixOnly gic last := by
      intro mid n last _ hmid hstep
      unfold writeGicSgirFor at hstep
      dsimp only at hstep
      split_ifs at hstep
      · cases hstep
        exact hmid.modify n _ _
      · cases hstep
        exact hmid
    exact Guarded.foldlM_keeps hturn (.refl gic) hwrite

/-- A write of an offset without a word, and not of the control register. -/
theorem writeDist_matrixOnly {gic next : GicArmTlm} {data : Word}
    (hregister : registerAt reg = none) (hcontrol : reg ≠ 0x00)
    (hwrite : writeDist nCpus gic reg data cpuID = some next) :
    MatrixOnly gic next ∧ (¬SgiRegister reg → next = gic) := by
  unfold registerAt at hregister
  split_ifs at hregister with h1 h2 h3 h4 h5 h6 h7
  rw [not_or] at h2 h3 h4
  simp only [writeDist, if_neg hcontrol, if_neg h1, if_neg h2.1, if_neg h2.2, if_neg h3.1,
    if_neg h3.2, if_neg h4.1, if_neg h4.2, if_neg h5, if_neg h6, if_neg h7] at hwrite
  split_ifs at hwrite with hlow hset hclear hsoft
  · cases hwrite
    exact ⟨.refl gic, fun _ => rfl⟩
  · cases hwrite
    exact ⟨(MatrixOnly.refl gic).modify cpuID _ _, fun hnone => absurd (.inr (.inr hset)) hnone⟩
  · cases hwrite
    exact ⟨(MatrixOnly.refl gic).modify cpuID _ _, fun hnone => absurd (.inr (.inl hclear)) hnone⟩
  · exact ⟨writeGicSgir_matrixOnly hwrite, fun hnone => absurd (.inl hsoft) hnone⟩
  · cases hwrite
    exact ⟨.refl gic, fun _ => rfl⟩

/-- A write that clears no software interrupts clears the word only. -/
theorem writePendingClear_eq {gic : GicArmTlm} {data : Word}
    (hlow : inRange 0x280 4 reg → ∀ i < 16, data.getLsbD i = false)
    (hrange : inRange 0x280 128 reg) :
    writePendingClear nCpus gic reg data cpuID =
      writeThrough nCpus gic reg cpuID (· &&& ~~~data) := by
  unfold writePendingClear
  dsimp only
  split_ifs with hzero
  · have hfirst : inRange 0x280 4 reg := by
      simp only [inRange, decide_eq_true_eq] at hrange ⊢
      omega
    have hloop : ∀ numbers : List ℕ, (∀ i ∈ numbers, i < 16) → numbers.foldlM
        (fun gic i => if data.getLsbD i then clearSgi nCpus gic i cpuID (-1) else some gic)
        gic = some gic := by
      intro numbers hnumbers
      induction numbers with
      | nil => rfl
      | cons i rest ih =>
          rw [List.foldlM_cons, hlow hfirst i (hnumbers i List.mem_cons_self)]
          exact ih fun i hi => hnumbers i (List.mem_cons_of_mem _ hi)
    rw [hloop _ fun i hi => List.mem_range.mp hi, Option.bind_some]
  · rw [Option.bind_some]

theorem inRange_iff {start size : ℕ} :
    inRange start size reg = true ↔ start ≤ reg ∧ reg < start + size := decide_eq_true_iff

theorem operation_set (data : Word)
    (hset : inRange 0x100 128 reg ∨ inRange 0x200 128 reg ∨ inRange 0x300 128 reg) :
    operation reg data = (· ||| data) := by
  funext old
  exact if_pos hset

theorem operation_clear (data : Word)
    (hclear : inRange 0x180 128 reg ∨ inRange 0x280 128 reg ∨ inRange 0x380 128 reg) :
    operation reg data = (· &&& ~~~data) := by
  funext old
  refine (if_neg ?_).trans (if_pos hclear)
  simp only [inRange_iff] at hclear ⊢
  omega

theorem operation_assign (data : Word) (hassign : reg < 0x100 ∨ 0x400 ≤ reg) :
    operation reg data = fun _ => data := by
  funext old
  refine (if_neg ?_).trans (if_neg ?_) <;> simp only [inRange_iff] <;> omega

theorem writeDist_pendingClear {gic : GicArmTlm} {data : Word}
    (hrange : inRange 0x280 128 reg) :
    writeDist nCpus gic reg data cpuID = writePendingClear nCpus gic reg data cpuID := by
  have hwords := inRange_iff.mp hrange
  have hout : ∀ start size, start + size ≤ 0x280 → ¬inRange start size reg := by
    intro start size hbelow
    rw [inRange_iff]
    omega
  rw [writeDist, if_neg (by omega), if_neg (hout _ _ (by norm_num)),
    if_neg (hout _ _ (by norm_num)), if_neg (hout _ _ (by norm_num)),
    if_neg (hout _ _ (by norm_num)), if_pos hrange]

/-- A write of an offset with a word. -/
theorem writeDist_of_register {gic : GicArmTlm} {data : Word}
    (hregister : registerAt reg = some register) (hunpend : ¬inRange 0x280 128 reg) :
    writeDist nCpus gic reg data cpuID =
      writeThrough nCpus gic reg cpuID (operation reg data) := by
  have hwords : 0x080 ≤ reg ∧ reg < 0xD00 := by
    unfold registerAt at hregister
    simp only [inRange_iff] at hregister
    split_ifs at hregister <;> omega
  rw [writeDist, if_neg (by omega : ¬reg < 0x80)]
  by_cases higroup : inRange 0x080 128 reg
  · rw [if_pos higroup, operation_assign data (.inl (by have := inRange_iff.mp higroup; omega))]
  rw [if_neg higroup]
  by_cases henable : inRange 0x100 128 reg
  · rw [if_pos henable, operation_set data (.inl henable)]
  rw [if_neg henable]
  by_cases hdisable : inRange 0x180 128 reg
  · rw [if_pos hdisable, operation_clear data (.inl hdisable)]
  rw [if_neg hdisable]
  by_cases hpend : inRange 0x200 128 reg
  · rw [if_pos hpend, operation_set data (.inr (.inl hpend))]
  rw [if_neg hpend]
  rw [if_neg hunpend]
  by_cases hactive : inRange 0x300 128 reg
  · rw [if_pos hactive, operation_set data (.inr (.inr hactive))]
  rw [if_neg hactive]
  by_cases hinactive : inRange 0x380 128 reg
  · rw [if_pos hinactive, operation_clear data (.inr (.inr hinactive))]
  rw [if_neg hinactive]
  have hrest : registerAt reg ≠ none := by
    rw [hregister]
    exact Option.some_ne_none register
  simp only [registerAt, if_neg higroup, henable, hdisable, hpend, hunpend, hactive, hinactive,
    or_self] at hrest
  by_cases hpriority : inRange 0x400 1024 reg
  · rw [if_pos hpriority,
      operation_assign data (.inr (by have := inRange_iff.mp hpriority; omega))]
  rw [if_neg hpriority]
  by_cases htarget : inRange 0x800 1024 reg
  · rw [if_pos htarget,
      operation_assign data (.inr (by have := inRange_iff.mp htarget; omega))]
  rw [if_neg htarget]
  by_cases hconfig : inRange 0xC00 256 reg
  · rw [if_pos hconfig,
      operation_assign data (.inr (by have := inRange_iff.mp hconfig; omega))]
  · exact absurd (by simp [hpriority, htarget, hconfig]) hrest

/-- A write through a register that is well placed. -/
theorem distEffect_of_register {write : DistWrite} {gic next : GicArmTlm}
    (hwell : write.WellPlaced) (hregister : registerAt write.reg = some register)
    (hstep : distStep nCpus gic write = some next) : DistEffect write gic next := by
  unfold distStep at hstep
  split_ifs at hstep with hcpu
  have hwrite : writeDist nCpus gic write.reg write.data write.cpuID =
      writeThrough nCpus gic write.reg write.cpuID (operation write.reg write.data) := by
    by_cases hclear : inRange 0x280 128 write.reg
    · rw [writeDist_pendingClear hclear, writePendingClear_eq hwell.pendingClear hclear,
        operation_clear _ (.inr (.inl hclear))]
    · exact writeDist_of_register hregister hclear
  rw [hwrite, writeThrough, distAddresser_eq, hregister, Option.bind_some,
    Option.map_eq_some_iff] at hstep
  obtain ⟨place, hplace, rfl⟩ := hstep
  have hbank := (element_bank_iff hcpu hregister).mpr (hwell.register register hregister)
  rw [hplace, Option.bind_some] at hbank
  have hcontrol : write.reg ≠ 0x00 := by
    intro hzero
    rw [hzero] at hregister
    cases hregister
  refine ⟨fun other target hother => ?_, ⟨(if_neg hcontrol).symm, (if_neg hcontrol).symm⟩,
    fun _ cpuID n => ?_⟩
  · rw [modify_word, DistWrite.effect, hregister, Option.map_some]
    by_cases htarget : bank register write.cpuID = target
    · have hsame := Place.eq_of_bank hother (htarget ▸ hbank)
      rw [if_pos (congrArg some htarget), if_pos hsame, hsame]
    · rw [if_neg fun h => htarget (Option.some.inj h), if_neg]
      rintro rfl
      exact htarget (Option.some.inj (hbank.symm.trans hother))
  · rw [modify_word, if_neg]
    rintro rfl
    cases hbank

/-- What a well placed write changes. -/
theorem distEffect_of_wellPlaced {write : DistWrite} {gic next : GicArmTlm}
    (hwell : write.WellPlaced) (hstep : distStep nCpus gic write = some next) :
    DistEffect write gic next := by
  cases hregister : registerAt write.reg with
  | some register => exact distEffect_of_register hwell hregister hstep
  | none =>
      unfold distStep at hstep
      split_ifs at hstep with hcpu
      have heffect : ∀ target old, write.effect target old = old := by
        intro target old
        rw [DistWrite.effect, hregister]
        rfl
      by_cases hcontrol : write.reg = 0x00
      · rw [writeDist, if_pos (by omega), if_pos hcontrol, Option.some.injEq] at hstep
        subst hstep
        exact ⟨fun _ _ _ => (heffect _ _).symm, ⟨(if_pos hcontrol).symm, (if_pos hcontrol).symm⟩,
          fun _ _ _ => rfl⟩
      · obtain ⟨hmatrix, hnothing⟩ := writeDist_matrixOnly hregister hcontrol hstep
        refine ⟨fun place target hplace => ?_, ?_, fun hsgi cpuID n => by rw [hnothing hsgi]⟩
        · rw [heffect, hmatrix.word place]
          rintro cpuID n rfl
          cases hplace
        · rw [if_neg hcontrol, if_neg hcontrol]
          exact ⟨hmatrix.enableGrp0, hmatrix.enableGrp1⟩

/-! ## Runs of writes -/

/-- The data of a write of the control register. -/
def DistWrite.controlData (write : DistWrite) : Option Word :=
  if write.reg = 0x00 then some write.data else none

section Runs

variable {start final : GicArmTlm} {writes : List DistWrite}

/-- The word of a bank after a run: the writes of its register have changed it. -/
theorem word_of_run (hwell : ∀ write ∈ writes, write.WellPlaced)
    (hrun : Guarded.exec (distStep nCpus) start writes = some final) {place : Place}
    {target : Bank} (hplace : place.bank = some target) :
    final.word place =
      writes.foldl (fun old write => write.effect target old) (start.word place) := by
  induction writes generalizing start with
  | nil =>
      rw [Guarded.exec_nil, Option.some.injEq] at hrun
      rw [hrun]
      rfl
  | cons write rest ih =>
      obtain ⟨next, hnext, hrest⟩ := Guarded.exec_cons_eq_some.mp hrun
      have heffect := distEffect_of_wellPlaced (hwell write List.mem_cons_self) hnext
      rw [ih (fun other hother => hwell other (List.mem_cons_of_mem _ hother)) hrest,
        heffect.banks place target hplace, List.foldl_cons]

/-- The group enables after a run are those written last. -/
theorem control_of_run (hwell : ∀ write ∈ writes, write.WellPlaced)
    (hrun : Guarded.exec (distStep nCpus) start writes = some final) :
    (final.enableGrp0, final.enableGrp1) =
      (Guarded.latest DistWrite.controlData writes).elim
        (start.enableGrp0, start.enableGrp1)
        fun data => (data.getLsbD 0, data.getLsbD 1) := by
  have hstep : ∀ (gic : GicArmTlm) (write : DistWrite) next, write.WellPlaced →
      distStep nCpus gic write = some next →
      (next.enableGrp0, next.enableGrp1) =
        write.controlData.elim (gic.enableGrp0, gic.enableGrp1)
          fun data => (data.getLsbD 0, data.getLsbD 1) := by
    intro gic write next hwrite hnext
    obtain ⟨hgrp0, hgrp1⟩ := (distEffect_of_wellPlaced hwrite hnext).control
    rw [hgrp0, hgrp1, DistWrite.controlData]
    split_ifs <;> rfl
  exact Guarded.exec_latest hstep (Guarded.meets_of_forall start hwell) hrun

/-- Writes of other registers leave the software interrupts as they are. -/
theorem matrix_of_run (hwell : ∀ write ∈ writes, write.WellPlaced)
    (hother : ∀ write ∈ writes, ¬SgiRegister write.reg)
    (hrun : Guarded.exec (distStep nCpus) start writes = some final) (cpuID : ℕ) (n : Fin 4) :
    final.word (.cpustate cpuID (.sgiMatrix n)) =
      start.word (.cpustate cpuID (.sgiMatrix n)) := by
  have hstep : ∀ (gic : GicArmTlm) (write : DistWrite) next,
      gic.word (.cpustate cpuID (.sgiMatrix n)) =
        start.word (.cpustate cpuID (.sgiMatrix n)) →
      (write.WellPlaced ∧ ¬SgiRegister write.reg) → distStep nCpus gic write = some next →
      next.word (.cpustate cpuID (.sgiMatrix n)) =
        start.word (.cpustate cpuID (.sgiMatrix n)) := by
    intro gic write next hsame hwrite hnext
    rw [(distEffect_of_wellPlaced hwrite.1 hnext).matrix hwrite.2, hsame]
  have hguard : ∀ write ∈ writes, write.WellPlaced ∧ ¬SgiRegister write.reg :=
    fun write hwrite => ⟨hwell write hwrite, hother write hwrite⟩
  exact Guarded.exec_invariant hstep rfl (Guarded.meets_of_forall start hguard) hrun

end Runs

/-- A read of a register that is well placed. -/
theorem readDist_of_bank (hcpu : cpuID < nCpus) (hregister : registerAt reg = some register)
    (hplaced : ¬register.Misplaced) :
    ∃ place, place.bank = some (bank register cpuID) ∧
      ∀ gic, readDist nCpus gic reg cpuID = gic.word place := by
  obtain ⟨place, hplace, hbank⟩ :=
    Option.bind_eq_some_iff.mp ((element_bank_iff hcpu hregister).mpr hplaced)
  have hwords : 0x080 ≤ reg ∧ reg < 0xD00 := by
    unfold registerAt at hregister
    simp only [inRange_iff] at hregister
    split_ifs at hregister <;> omega
  have hsgi : ¬(inRange 0xF20 16 reg ∨ inRange 0xF10 16 reg) := by
    simp only [inRange_iff]
    omega
  refine ⟨place, hbank, fun gic => ?_⟩
  unfold readDist
  rw [if_neg (by omega), if_neg hsgi, distAddresser_eq, hregister, Option.bind_some, hplace]
  rfl

/-- The enables as a read gives them, when they are the same. -/
theorem readDist_control {gic : GicArmTlm} {data : Word}
    (hgrp1 : gic.enableGrp1 = data.getLsbD 1) (hsame : data.getLsbD 0 = data.getLsbD 1) :
    readDist nCpus gic 0x00 cpuID = data &&& 0x3 := by
  have hmask : (0x3 : Word) = (BitVec.allOnes 2).setWidth 32 := rfl
  have hread : readDist nCpus gic 0x00 cpuID = if data.getLsbD 1 then 3 else 0 := by
    unfold readDist
    rw [if_pos (by norm_num), hgrp1]
    cases data.getLsbD 1 <;> rfl
  refine BitVec.eq_of_getLsbD_eq fun i hi => ?_
  rw [hread, BitVec.getLsbD_and, hmask, BitVec.getLsbD_setWidth, BitVec.getLsbD_allOnes]
  obtain rfl | rfl | hhigh : i = 0 ∨ i = 1 ∨ 2 ≤ i := by omega
  · rw [hsame]
    cases data.getLsbD 1 <;> rfl
  · cases data.getLsbD 1 <;> rfl
  · have hout : decide (i < 2) = false := decide_eq_false (by omega)
    rw [hout, Bool.and_false, Bool.and_false]
    split_ifs
    · rw [BitVec.getLsbD_setWidth, BitVec.getLsbD_allOnes, hout, Bool.and_false]
    · exact BitVec.getLsbD_zero

variable (nCpus) in
/-- A read of an offset gives what the writes of its register have made. -/
def ReadsWrites (start final : GicArmTlm) (writes : List DistWrite) (reg cpuID : ℕ) : Prop :=
  ∀ register, registerAt reg = some register →
    readDist nCpus final reg cpuID =
      writes.foldl (fun old write => write.effect (bank register cpuID) old)
        (readDist nCpus start reg cpuID)

variable (nCpus) in
/-- A read of the control register gives the group enables that were written last. -/
def ReadsControl (final : GicArmTlm) (writes : List DistWrite) (cpuID : ℕ) : Prop :=
  ∀ data, Guarded.latest DistWrite.controlData writes = some data →
    readDist nCpus final 0x00 cpuID = data &&& 0x3

/-- No write of another register has changed a software interrupt. -/
def KeepsMatrix (start final : GicArmTlm) (writes : List DistWrite) : Prop :=
  (∀ write ∈ writes, ¬SgiRegister write.reg) → ∀ cpuID n,
    final.word (.cpustate cpuID (.sgiMatrix n)) = start.word (.cpustate cpuID (.sgiMatrix n))

variable (nCpus) in
/-- An offset leads to the element for its register in the bank of the CPU. -/
def LeadsToBank (reg cpuID : ℕ) : Prop :=
  ∀ register, registerAt reg = some register →
    (distAddresser nCpus reg cpuID).bind Place.bank = some (bank register cpuID)

variable (nCpus) in
/-- Two offsets lead to one place for one bank only. -/
def KeepsApart (reg reg' cpuID cpuID' : ℕ) : Prop :=
  ∀ register register' place, registerAt reg = some register →
    registerAt reg' = some register' → distAddresser nCpus reg cpuID = some place →
    distAddresser nCpus reg' cpuID' = some place →
    bank register cpuID = bank register' cpuID'

/-- The register map of the distributor: offsets lead to their banks for exactly
the registers that are not misplaced, and after a run of well placed writes a
read gives what the writes of its register have made. -/
theorem register_map (nCpus : ℕ) (start final : GicArmTlm) (writes : List DistWrite)
    (hwell : ∀ write ∈ writes, write.WellPlaced)
    (hrun : Guarded.exec (distStep nCpus) start writes = some final) :
    (∀ reg cpuID, cpuID < nCpus → (LeadsToBank nCpus reg cpuID ↔ Placed reg)) ∧
    (∀ reg reg' cpuID cpuID', cpuID < nCpus → cpuID' < nCpus → Placed reg → Placed reg' →
      KeepsApart nCpus reg reg' cpuID cpuID') ∧
    (∀ reg cpuID, cpuID < nCpus → Placed reg →
      ReadsWrites nCpus start final writes reg cpuID) ∧
    (∀ cpuID, ReadsControl nCpus final writes cpuID) ∧
    KeepsMatrix start final writes := by
  refine ⟨fun reg cpuID hcpu => ?_, fun reg reg' cpuID cpuID' hcpu hcpu' hplaced hplaced' => ?_,
    fun reg cpuID hcpu hplaced => ?_, fun cpuID data hlatest => ?_,
    fun hother cpuID n => matrix_of_run hwell hother hrun cpuID n⟩
  · refine forall_congr' fun register => imp_congr_right fun hregister => ?_
    rw [distAddresser_eq, hregister, Option.bind_some]
    exact element_bank_iff hcpu hregister
  · intro register register' place hregister hregister' hplace hplace'
    exact bank_eq_of_place hcpu hcpu' hregister hregister' (hplaced register hregister)
      (hplaced' register' hregister') hplace hplace'
  · intro register hregister
    obtain ⟨place, hbank, hread⟩ :=
      readDist_of_bank hcpu hregister (hplaced register hregister)
    rw [hread, hread, word_of_run hwell hrun hbank]
  · have hcontrol := control_of_run hwell hrun
    rw [hlatest, Option.elim_some, Prod.mk.injEq] at hcontrol
    obtain ⟨write, hwrite, hdata⟩ := Guarded.exists_of_latest hlatest
    refine readDist_control hcontrol.2 ?_
    unfold DistWrite.controlData at hdata
    split_ifs at hdata with hreg
    cases hdata
    exact (hwell write hwrite).control hreg

/-- A controller with nothing in its registers. -/
def blank : GicArmTlm where
  enableGrp0 := false
  enableGrp1 := false
  word := fun _ => 0
  irqOut := fun _ => false
  fiqOut := fun _ => false

/-- Two CPUs enable and disable private interrupts, and one enables both groups. -/
def enabling : List DistWrite :=
  [⟨0x100, 0, 0x5⟩, ⟨0x100, 1, 0x2⟩, ⟨0x180, 0, 0x1⟩, ⟨0x000, 1, 0x3⟩]

theorem enabling_wellPlaced : ∀ write ∈ enabling, write.WellPlaced := by
  intro write hwrite
  simp only [enabling, List.mem_cons, List.not_mem_nil, or_false] at hwrite
  rcases hwrite with rfl | rfl | rfl | rfl
  · exact ⟨fun _ h => (by cases h; decide), by decide, by decide⟩
  · exact ⟨fun _ h => (by cases h; decide), by decide, by decide⟩
  · exact ⟨fun _ h => (by cases h; decide), by decide, by decide⟩
  · exact ⟨fun _ h => (by cases h), by decide, by decide⟩

theorem register_map_enabling :
    ∃ final, Guarded.exec (distStep 2) blank enabling = some final ∧
      readDist 2 final 0x100 0 = 0x4 ∧ readDist 2 final 0x180 1 = 0x2 ∧
      readDist 2 final 0x000 0 = 0x3 := by
  refine ⟨_, rfl, ?_⟩
  obtain ⟨-, -, hreads, hcontrol, -⟩ :=
    register_map 2 blank _ enabling enabling_wellPlaced rfl
  refine ⟨?_, ?_, hcontrol 0 0x3 rfl⟩
  · exact hreads 0x100 0 (by norm_num) (fun _ h => (by cases h; decide)) _ rfl
  · exact hreads 0x180 1 (by norm_num) (fun _ h => (by cases h; decide)) _ rfl

/-- Only the first group is enabled, and the control register reads as zero. -/
theorem not_register_map_firstGroup :
    ¬∀ (nCpus : ℕ) (start final : GicArmTlm) (writes : List DistWrite),
      Guarded.exec (distStep nCpus) start writes = some final →
      (∀ reg cpuID, cpuID < nCpus → LeadsToBank nCpus reg cpuID) ∧
      (∀ reg reg' cpuID cpuID', cpuID < nCpus → cpuID' < nCpus →
        KeepsApart nCpus reg reg' cpuID cpuID') ∧
      (∀ reg cpuID, cpuID < nCpus → ReadsWrites nCpus start final writes reg cpuID) ∧
      (∀ cpuID, ReadsControl nCpus final writes cpuID) ∧
      KeepsMatrix start final writes := by
  intro hclaim
  obtain ⟨-, -, -, hcontrol, -⟩ := hclaim 1 blank _ [⟨0x000, 0, 0x1⟩] rfl
  have hread := hcontrol 0 0x1 rfl
  revert hread
  decide

end Prazor.Gic
