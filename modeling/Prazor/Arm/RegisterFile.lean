import Prazor.Core.Guarded
import Prazor.Arm.Mmu

/-!
# Reading back the registers of coprocessor 15

After any run of writes a read gives the most recent value written to the same
register, and no other write changes it, as long as the run avoids what the two
decoders do not agree on: the reads of TTBR1 and TTBCR give TTBR0, a write of
CONTEXTIDR writes TPIDRURW also, and no register can be read while it is all
ones.
-/

namespace Prazor.Arm

/-- The registers that are read and written, with the coordinate of both. -/
def Register.coordinate : Register → Option Coordinate
  | .sctlr => some ⟨1, 0, 0, 0⟩
  | .actlr => some ⟨1, 0, 0, 1⟩
  | .cpacr => some ⟨1, 0, 0, 2⟩
  | .ttbr0 => some ⟨2, 0, 0, 0⟩
  | .ttbr1 => some ⟨2, 0, 0, 1⟩
  | .ttbcr => some ⟨2, 0, 0, 2⟩
  | .dacr => some ⟨3, 0, 0, 0⟩
  | .dfsr => some ⟨5, 0, 0, 0⟩
  | .ifsr => some ⟨5, 0, 0, 1⟩
  | .dfar => some ⟨6, 0, 0, 0⟩
  | .ifar => some ⟨6, 0, 0, 2⟩
  | .contextidr => some ⟨13, 0, 0, 1⟩
  | .tpidrurw => some ⟨13, 0, 0, 2⟩
  | .tpidruro => some ⟨13, 0, 0, 3⟩
  | .tpidrprw => some ⟨13, 0, 0, 4⟩
  | _ => none

/-- The register whose value a read of a register gives. -/
def Register.source : Register → Register
  | .ttbr1 | .ttbcr => .ttbr0
  | register => register

namespace Cp15

variable {cp15 : Cp15} {register other : Register} {c : Coordinate}

/-- What a read makes of a register's value: all ones cannot be read. -/
def shown (value : Word) : Option Word := if value = -1 then none else some value

theorem shown_eq_some {value data : Word} :
    shown value = some data ↔ data ≠ -1 ∧ value = data := by
  unfold shown
  split
  case isTrue hones =>
    subst hones
    constructor
    · intro h
      cases h
    · rintro ⟨hne, heq⟩
      exact absurd heq.symm hne
  case isFalse hones =>
    rw [Option.some.injEq]
    constructor
    · rintro rfl
      exact ⟨hones, rfl⟩
    · exact fun h => h.2

theorem read_of_coordinate (hregister : register.coordinate = some c) (cp15 : Cp15) :
    cp15.read c = shown (cp15.reg register.source) := by
  cases register <;> cases hregister <;> rfl

theorem writeSwitch_of_coordinate (hregister : register.coordinate = some c) :
    writeSwitch c = some register := by
  cases register <;> cases hregister <;> rfl

/-- The write decoder has one coordinate for each of the registers. -/
theorem coordinate_of_writeSwitch {c' : Coordinate} (hswitch : writeSwitch c = some register)
    (hregister : register.coordinate = some c') : c = c' := by
  obtain ⟨cpr, crm, op1, op2⟩ := c
  unfold writeSwitch at hswitch
  repeat' split at hswitch
  all_goals
    cases hswitch
    all_goals
      cases hregister
      all_goals simp_all

/-- The registers after the assignments of a branch. -/
theorem reg_assign_of_ne {register other : Register} (hne : other ≠ register)
    (hcontext : ¬(register = .contextidr ∧ other = .tpidrurw)) (cp15 : Cp15) (data : Word) :
    (cp15.assign register data).reg other = cp15.reg other := by
  unfold assign
  split
  · rw [reg_store_of_ne _ fun h => hcontext ⟨rfl, h⟩, reg_store_of_ne _ hne]
  · exact reg_store_of_ne _ hne _
  · exact reg_store_of_ne _ hne _

theorem reg_assign_self (hregister : register.coordinate = some c) (cp15 : Cp15)
    (data : Word) : (cp15.assign register data).reg register = data := by
  cases register <;> cases hregister <;> simp [assign, reg_store_of_ne]

end Cp15

/-- The maintenance of the caches by address, which translates the address first. -/
def Register.byMva : Register → Bool
  | .icimvau | .dcimvac | .dccmvac | .dccmvau | .dccimvac => true
  | _ => false

namespace MemorySystem

variable {memory : Word → Option Word64} {sys next : MemorySystem}
variable {register : Register} {c : Coordinate} {data : Word}

/-- What a write that translates no address does to the table. -/
inductive Invalidates : (List TlbEntry → List TlbEntry) → Prop where
  | nothing : Invalidates id
  | all : Invalidates invalidAll
  | mva (vaddr : Word) : Invalidates (invalidByMva vaddr)
  | asid (asid : Byte) : Invalidates (invalidByAsid asid)

/-- What a write does: the assignments of its branch and perhaps an invalidation,
after a translation where the branch has one. -/
theorem writeRegister_cases {messages : List CacheControl}
    (hwrite : writeRegister memory sys register data = some (next, messages)) :
    (register.byMva = false ∧ next.cp15 = sys.cp15.assign register data ∧
        ∃ f, Invalidates f ∧ next.mmu.table = f sys.mmu.table) ∨
      (register.byMva = true ∧ ∃ mid paddr, translateMva memory sys data = some (mid, paddr) ∧
        next.cp15 = mid.cp15.assign register paddr ∧ next.mmu = mid.mmu) := by
  have hmva : ∀ types op stop,
      writeByMva memory sys register data types op stop = some (next, messages) →
      ∃ mid paddr, translateMva memory sys data = some (mid, paddr) ∧
        next.cp15 = mid.cp15.assign register paddr ∧ next.mmu = mid.mmu := by
    intro types op stop h
    obtain ⟨translated, htranslated, h⟩ := Option.map_eq_some_iff.mp h
    rw [Prod.mk.injEq] at h
    exact ⟨translated.1, translated.2, htranslated, by rw [← h.1], by rw [← h.1]⟩
  cases register
  case sctlr =>
    obtain ⟨enabled, henabled, h⟩ := Option.map_eq_some_iff.mp hwrite
    rw [Prod.mk.injEq] at h
    have hsame : enabled.cp15 = sys.cp15 ∧ enabled.mmu.table = sys.mmu.table := by
      split at henabled
      · unfold enable at henabled
        split at henabled
        · cases henabled
        · rw [← Option.some.inj henabled]
          exact ⟨rfl, rfl⟩
      · rw [← Option.some.inj henabled]
        exact ⟨rfl, rfl⟩
    refine .inl ⟨rfl, ?_, id, .nothing, ?_⟩
    · rw [← h.1, hsame.1]
    · rw [← h.1]
      exact hsame.2
  case icimvau => exact .inr ⟨rfl, hmva _ _ _ hwrite⟩
  case dcimvac => exact .inr ⟨rfl, hmva _ _ _ hwrite⟩
  case dccmvac => exact .inr ⟨rfl, hmva _ _ _ hwrite⟩
  case dccmvau => exact .inr ⟨rfl, hmva _ _ _ hwrite⟩
  case dccimvac => exact .inr ⟨rfl, hmva _ _ _ hwrite⟩
  all_goals
    simp only [writeRegister, mapTable, Option.some.injEq, Prod.mk.injEq] at hwrite
    refine .inl ⟨rfl, by rw [← hwrite.1], ?_⟩
    rw [← hwrite.1]
  case tlbimvais => exact ⟨_, .mva data, rfl⟩
  case tlbiasidis => exact ⟨_, .asid (data.setWidth 8), rfl⟩
  case tlbiall => exact ⟨_, .all, rfl⟩
  all_goals exact ⟨_, .nothing, rfl⟩

/-- A write of a register, by coordinate and value. -/
abbrev RegisterWrite := Coordinate × Word

/-- One write, with what it does to the registers and the table. -/
def writeStep (memory : Word → Option Word64) (sys : MemorySystem)
    (write : RegisterWrite) : Option MemorySystem :=
  (MemorySystem.write memory sys write.1 write.2).map Prod.fst

/-- The value that a write gives to a coordinate. -/
def written (c : Coordinate) (write : RegisterWrite) : Option Word :=
  if write.1 = c then some write.2 else none

/-- The write translates no address whose translation faults. -/
def Faultless (memory : Word → Option Word64) (sys : MemorySystem)
    (write : RegisterWrite) : Prop :=
  ∀ branch, Cp15.writeSwitch write.1 = some branch → branch.byMva = true →
    ∀ mid, translate memory sys write.2 .read ≠ some (mid, none)

/-- The writes after which a register reads as it should: a write of it is of a
value that can be read, and no other write reaches what its reads give. -/
structure ReadsBack (memory : Word → Option Word64) (register : Register)
    (sys : MemorySystem) (write : RegisterWrite) : Prop where
  own : register.coordinate = some write.1 → write.2 ≠ -1 ∧
    (register.source ≠ register → sys.cp15.reg register.source = write.2)
  base : write.1 = ⟨2, 0, 0, 0⟩ → register.source ≠ register →
    write.2 = sys.cp15.reg register.source
  context : write.1 = ⟨13, 0, 0, 1⟩ → register = .tpidrurw →
    write.2 = sys.cp15.reg .tpidrurw
  fault : register = .dfsr ∨ register = .dfar → Faultless memory sys write

theorem source_eq_ttbr0 (hsource : register.source ≠ register) :
    register.source = .ttbr0 := by
  cases register <;> first | rfl | exact absurd rfl hsource

theorem coordinate_byMva (hmva : register.byMva = true) : register.coordinate = none := by
  cases register <;> first | rfl | cases hmva

/-- The translation of a write changes a register only by recording a fault. -/
theorem reg_translateMva {write : RegisterWrite} {branch : Register} {mid : MemorySystem}
    {paddr : Word} (hbranch : Cp15.writeSwitch write.1 = some branch)
    (hmva : branch.byMva = true)
    (hfault : register = .dfsr ∨ register = .dfar → Faultless memory sys write)
    (htranslate : translateMva memory sys write.2 = some (mid, paddr)) :
    mid.cp15.reg register = sys.cp15.reg register := by
  obtain ⟨⟨translated, result⟩, htranslate, hmid⟩ := Option.map_eq_some_iff.mp htranslate
  rw [Prod.mk.injEq] at hmid
  rw [← hmid.1]
  by_cases hrecorded : register = .dfsr ∨ register = .dfar
  · cases result with
    | none => exact absurd htranslate (hfault hrecorded branch hbranch hmva translated)
    | some paddr => rw [translate_granted htranslate]
  · rw [not_or] at hrecorded
    exact translate_frame htranslate register hrecorded.1 hrecorded.2

/-- What a register holds after one write. -/
theorem reg_write (hregister : register.coordinate = some c)
    {write : RegisterWrite} {messages : List CacheControl}
    (hwrite : MemorySystem.write memory sys write.1 write.2 = some (next, messages))
    (hcontext : write.1 = ⟨13, 0, 0, 1⟩ → register = .tpidrurw →
      write.2 = sys.cp15.reg register)
    (hfault : register = .dfsr ∨ register = .dfar → Faultless memory sys write) :
    next.cp15.reg register = (written c write).getD (sys.cp15.reg register) := by
  obtain ⟨branch, hbranch, hwrite⟩ := Option.bind_eq_some_iff.mp hwrite
  have hown : write.1 = c ↔ branch = register := by
    constructor
    · rintro rfl
      exact Option.some.inj (hbranch.symm.trans (Cp15.writeSwitch_of_coordinate hregister))
    · rintro rfl
      exact Cp15.coordinate_of_writeSwitch hbranch hregister
  rw [written]
  simp only [hown]
  rcases writeRegister_cases hwrite with
    ⟨-, hnext, -⟩ | ⟨hmva, mid, paddr, htranslate, hnext, -⟩
  · rw [hnext]
    by_cases hself : branch = register
    · rw [if_pos hself, Option.getD_some, hself, Cp15.reg_assign_self hregister]
    · rw [if_neg hself, Option.getD_none]
      by_cases hboth : branch = .contextidr ∧ register = .tpidrurw
      · obtain ⟨rfl, rfl⟩ := hboth
        have hcoordinate : write.1 = ⟨13, 0, 0, 1⟩ :=
          Cp15.coordinate_of_writeSwitch hbranch rfl
        rw [← hcontext hcoordinate rfl]
        simp [Cp15.assign]
      · exact Cp15.reg_assign_of_ne (fun h => hself h.symm) hboth _ _
  · have hself : branch ≠ register := by
      rintro rfl
      rw [coordinate_byMva hmva] at hregister
      cases hregister
    rw [if_neg hself, Option.getD_none, hnext,
      Cp15.reg_assign_of_ne (fun h => hself h.symm),
      reg_translateMva hbranch hmva hfault htranslate]
    rintro ⟨rfl, -⟩
    cases hmva

/-- What the reads of a register give after one write. -/
theorem reg_source_write (hregister : register.coordinate = some c)
    {write : RegisterWrite} {messages : List CacheControl}
    (hwrite : MemorySystem.write memory sys write.1 write.2 = some (next, messages))
    (hsafe : ReadsBack memory register sys write) :
    next.cp15.reg register.source =
      (written c write).getD (sys.cp15.reg register.source) := by
  by_cases halias : register.source = register
  · rw [halias]
    exact reg_write hregister hwrite
      (fun hcoordinate h => h ▸ hsafe.context hcoordinate h) hsafe.fault
  · -- only TTBR0 is read for other registers
    have hbase := hsafe.base
    have hown := fun h => (hsafe.own h).2 halias
    rw [source_eq_ttbr0 halias] at hbase hown ⊢
    rw [reg_write rfl hwrite (fun _ h => by cases h) (fun h => by rcases h with h | h <;> cases h)]
    by_cases hthis : write.1 = c
    · have hother : write.1 ≠ ⟨2, 0, 0, 0⟩ := by
        rintro hcoordinate
        rw [← hthis, hcoordinate] at hregister
        have hsame := Cp15.writeSwitch_of_coordinate hregister
        exact halias (by rw [← Option.some.inj hsame]; rfl)
      rw [written, if_neg hother, written, if_pos hthis, Option.getD_none,
        Option.getD_some, hown (hthis ▸ hregister)]
    · rw [written, written, if_neg hthis, Option.getD_none]
      split
      case isTrue hcoordinate => exact hbase hcoordinate (source_eq_ttbr0 halias ▸ halias)
      case isFalse => rfl

/-- One write is read back, and what it does not write stays. -/
theorem read_writeStep (hregister : register.coordinate = some c)
    {write : RegisterWrite} (hsafe : ReadsBack memory register sys write)
    (hstep : writeStep memory sys write = some next) :
    next.cp15.read c = (written c write).elim (sys.cp15.read c) some := by
  obtain ⟨⟨_, messages⟩, hwrite, rfl⟩ := Option.map_eq_some_iff.mp hstep
  have hreg := reg_source_write hregister hwrite hsafe
  rw [Cp15.read_of_coordinate hregister, Cp15.read_of_coordinate hregister, hreg]
  by_cases hown : write.1 = c
  · rw [written, if_pos hown]
    exact Cp15.shown_eq_some.mpr ⟨(hsafe.own (hown ▸ hregister)).1, rfl⟩
  · rw [written, if_neg hown]
    rfl

/-- After a run of writes that all suit a register, a read gives the value of
the last write to it, or what a read gave before. -/
theorem read_latest (memory : Word → Option Word64) (register : Register) (c : Coordinate)
    (hregister : register.coordinate = some c) (sys final : MemorySystem)
    (writes : List RegisterWrite)
    (hsafe : Guarded.Meets (writeStep memory) (ReadsBack memory register) sys writes)
    (hrun : Guarded.exec (writeStep memory) sys writes = some final) :
    final.cp15.read c =
      (Guarded.latest (written c) writes).elim (sys.cp15.read c) some := by
  have hstep : ∀ sys write next, ReadsBack memory register sys write →
      writeStep memory sys write = some next →
      next.cp15.read c = (written c write).elim (sys.cp15.read c) some :=
    fun sys write next hsafe hstep => read_writeStep hregister hsafe hstep
  exact Guarded.exec_latest hstep hsafe hrun

/-- A core after its constructors, with a unit that is off and has one entry. -/
def afterReset : MemorySystem where
  cp15 := .constructed 0 fun _ => 0
  mmu := { active := false, table := [.constructed 0 0 0] }

/-- DACR is read back after writes of other registers. -/
theorem read_latest_dacr :
    ∃ final, Guarded.exec (writeStep fun _ => none) afterReset
        [(⟨3, 0, 0, 0⟩, 0x55555555), (⟨2, 0, 0, 0⟩, 0x4000), (⟨13, 0, 0, 1⟩, 7)] =
          some final ∧
      final.cp15.read ⟨3, 0, 0, 0⟩ = some 0x55555555 := by
  refine ⟨_, rfl, ?_⟩
  refine read_latest (fun _ => none) .dacr ⟨3, 0, 0, 0⟩ rfl afterReset _
    [(⟨3, 0, 0, 0⟩, 0x55555555), (⟨2, 0, 0, 0⟩, 0x4000), (⟨13, 0, 0, 1⟩, 7)]
    (Guarded.meets_cons rfl ?_ (Guarded.meets_cons rfl ?_ (Guarded.meets_cons rfl ?_
      trivial))) rfl
  all_goals
    refine ⟨fun _ => ⟨by decide, fun halias => absurd rfl halias⟩,
      fun _ halias => absurd rfl halias, (fun _ hregister => by cases hregister), ?_⟩
    rintro (hregister | hregister) <;> cases hregister

/-- A write of CONTEXTIDR changes what a read of TPIDRURW gives. -/
theorem not_read_latest_tpidrurw :
    ¬∀ (memory : Word → Option Word64) (register : Register) (c : Coordinate),
      register.coordinate = some c → ∀ (sys final : MemorySystem)
        (writes : List RegisterWrite),
      Guarded.exec (writeStep memory) sys writes = some final →
      final.cp15.read c =
        (Guarded.latest (written c) writes).elim (sys.cp15.read c) some := by
  intro hclaim
  have hread := hclaim (fun _ => none) .tpidrurw ⟨13, 0, 0, 2⟩ rfl afterReset _
    [(⟨13, 0, 0, 2⟩, 1), (⟨13, 0, 0, 1⟩, 2)] rfl
  revert hread
  decide

end MemorySystem

end Prazor.Arm
