import Prazor.Arm.Cp15

/-!
# The memory management unit and the coprocessor that controls it

`arm_mmu` reads the registers of coprocessor 15 for every translation and writes
its fault registers; `arm_cp15` sends the unit a message for some of its writes.
Both are one state here.  The page tables are read through the data cache, whose
answers are the parameter `memory`.
-/

namespace Prazor.Arm

/-- `tlb_entry`. -/
structure TlbEntry where
  pfn : Word
  vpn : Word
  size : Word
  bits : ℕ
  asid : Byte
  isGlobal : Bool
  valid : Bool
  access : Byte
  domain : Byte
  deriving DecidableEq, Repr

namespace TlbEntry

/-- `get_vpn`, which `match` computes also. -/
def getVpn (entry : TlbEntry) : Word := entry.vpn <<< entry.bits

/-- `match`; the end of the page is computed in 32 bits. -/
def isMatch (entry : TlbEntry) (vaddr : Word) (context : Byte) : Bool :=
  entry.valid ∧ entry.asid = context ∧ entry.getVpn ≤ vaddr ∧
    vaddr < entry.getVpn + entry.size

/-- `get_pfn`. -/
def getPfn (entry : TlbEntry) (vaddr : Word) : Word :=
  (entry.pfn <<< entry.bits) ||| (vaddr &&& (entry.size - 1))

/-- An entry after its constructor, which leaves three members as they are. -/
def constructed (bits : ℕ) (access domain : Byte) : TlbEntry where
  pfn := 0
  vpn := 0
  size := 0
  bits := bits
  asid := 0
  isGlobal := false
  valid := true
  access := access
  domain := domain

end TlbEntry

/-- `arm_mmu::faults`. -/
inductive Faults where
  | noFault
  | tlbMiss
  | translationSection
  | translationPage
  deriving DecidableEq, Repr

/-- `base_mmu::access_type`. -/
inductive AccessType where
  | read
  | write
  | execute
  deriving DecidableEq, Repr

/-- `m_active` and the table, whose length is `size`. -/
structure Mmu where
  active : Bool
  table : List TlbEntry

/-- Coprocessor 15 and the memory management unit of a core. -/
structure MemorySystem where
  cp15 : Cp15
  mmu : Mmu

namespace MemorySystem

variable (memory : Word → Option Word64)

/-- `external_memory_access`. -/
def externalMemoryAccess (addr : Word) : Option Word :=
  (memory (addr &&& ~~~7)).map fun data64 =>
    ((data64 : Word64) >>> (8 * (addr &&& 4).toNat)).setWidth 32

/-- `lookup`, by the place of the entry. -/
def lookup (table : List TlbEntry) (vaddr : Word) (asid : Byte) : Option ℕ :=
  table.findIdx? fun entry => entry.isMatch vaddr asid

/-- `insert`; a table of no entries has no place for the new one. -/
def insert (table : List TlbEntry) (entry : TlbEntry) : Option (List TlbEntry) :=
  if table.length = 0 then none else some (entry :: table.dropLast)

/-- `l2_descriptor`, `none` where an assertion fails. -/
def l2Descriptor (l2DescriptorAddr vaddr : Word) (entry : TlbEntry) :
    Option (Faults × TlbEntry) :=
  (externalMemoryAccess memory l2DescriptorAddr).bind fun content =>
    let access : Byte := ((content >>> 9) &&& 0x1).setWidth 8
    if content &&& 0x3 = 0 then some (.translationPage, entry)
    else if content &&& 0x3 = 1 then none
    else
      let paddr := ((content >>> 12) <<< 12) ||| ((vaddr <<< 20) >>> 20)
      some (.noFault, { entry with
        size := (1 : Word) <<< 12
        bits := 12
        pfn := paddr >>> 12
        vpn := vaddr >>> 12
        access := access })

/-- `l1_descriptor`. -/
def l1Descriptor (cp15 : Cp15) (l1DescriptorAddr vaddr : Word) (entry : TlbEntry) :
    Option (Faults × TlbEntry) :=
  (externalMemoryAccess memory l1DescriptorAddr).bind fun content =>
    let domainSelector := (content >>> 5) &&& 0xF
    (cp15.read ⟨3, 0, 0, 0⟩).bind fun domains =>
      let domain : Byte := ((domains >>> (domainSelector.toNat * 2)) &&& 3).setWidth 8
      let access : Byte := ((content >>> 10) &&& 0x3).setWidth 8
      if content &&& 0x3 = 0 ∨ content &&& 0x3 = 3 then some (.translationSection, entry)
      else if content &&& 0x3 = 1 then
        let l2DescriptorAddr :=
          ((content >>> 10) <<< 10) ||| (((vaddr <<< 12) >>> 24) <<< 2)
        l2Descriptor memory l2DescriptorAddr vaddr { entry with domain := domain }
      else
        let paddr := ((content >>> 20) <<< 20) ||| (vaddr &&& (((1 : Word) <<< 20) - 1))
        some (.noFault, { entry with
          domain := domain
          access := access
          size := (1 : Word) <<< 20
          bits := 20
          vpn := vaddr >>> 20
          pfn := paddr >>> 20 })

/-- The address that `page_table_walk` fetches the first descriptor from. -/
def l1DescriptorAddr (cp15 : Cp15) (vaddr : Word) : Option Word :=
  (cp15.read ⟨2, 0, 0, 2⟩).bind fun ttbcr =>
    let n := (ttbcr &&& 0x7).toNat
    if 0 < n ∧ vaddr &&& ~~~(((1 : Word) <<< (32 - n)) - 1) ≠ 0 then
      (cp15.read ⟨2, 0, 0, 1⟩).map fun ttbr1 : Word =>
        ((ttbr1 >>> 14) <<< 14 : Word) ||| ((vaddr >>> 20) <<< 2 : Word)
    else
      (cp15.read ⟨2, 0, 0, 0⟩).map fun ttbr0 : Word =>
        let shift := 14 - n
        ((ttbr0 >>> shift) <<< shift : Word) |||
          ((((vaddr <<< n) >>> n) >>> 20) <<< 2 : Word)

/-- `page_table_walk`. -/
def pageTableWalk (cp15 : Cp15) (vaddr : Word) (entry : TlbEntry) :
    Option (Faults × TlbEntry) :=
  (l1DescriptorAddr cp15 vaddr).bind fun addr =>
    l1Descriptor memory cp15 addr vaddr entry

/-- The registers that take the status and the address of a fault. -/
def faultRegisters (mode : AccessType) : Coordinate × Coordinate :=
  match mode with
  | .execute => (⟨5, 0, 0, 1⟩, ⟨6, 0, 0, 2⟩)
  | .read | .write => (⟨5, 0, 0, 0⟩, ⟨6, 0, 0, 0⟩)

/-- `cp15_op` with `read` false, for registers whose writes send no message. -/
def cp15Write (cp15 : Cp15) (c : Coordinate) (data : Word) : Option Cp15 :=
  (Cp15.writeSwitch c).map fun register => cp15.assign register data

/-- `fsr` after a fault of the walk. -/
def walkStatus (faults : Faults) (mode : AccessType) : Word :=
  let fsr : Word :=
    match faults with
    | .translationSection => 5
    | .translationPage => 7
    | .noFault | .tlbMiss => 0
  if mode = .write then fsr ||| (1 : Word) <<< 11 else fsr

/-- Writing the fault registers. -/
def recordFault (sys : MemorySystem) (mode : AccessType) (fsr far : Word) :
    Option MemorySystem :=
  (cp15Write sys.cp15 (faultRegisters mode).1 fsr).bind fun cp15 =>
    (cp15Write cp15 (faultRegisters mode).2 far).map fun cp15 => { sys with cp15 := cp15 }

/-- Writing to a page that can only be read. -/
def denied (entry : TlbEntry) (mode : AccessType) : Bool :=
  mode = .write ∧ entry.bits = 12 ∧ entry.access = 1 ∧ entry.domain = 1

/-- The part of `translate` once the entry has been found; the result is the
physical address, or none for `false`. -/
def useEntry (sys : MemorySystem) (vaddr : Word) (mode : AccessType) (place : ℕ)
    (entry : TlbEntry) : Option (MemorySystem × Option Word) :=
  if denied entry mode then
    let table := sys.mmu.table.set place { entry with valid := false }
    (recordFault { sys with mmu := { sys.mmu with table := table } } mode
      ((15 : Word) ||| (1 : Word) <<< 11) vaddr).map fun sys => (sys, none)
  else some (sys, some (entry.getPfn vaddr))

/-- `lookup` and the use of the entry it gives. -/
def useLookup (sys : MemorySystem) (vaddr : Word) (context : Byte) (mode : AccessType) :
    Option (Option (MemorySystem × Option Word)) :=
  (lookup sys.mmu.table vaddr context).bind fun place =>
    (sys.mmu.table[place]?).map fun entry => useEntry sys vaddr mode place entry

/-- `translate`, `none` where an assertion fails. -/
def translate (sys : MemorySystem) (vaddr : Word) (mode : AccessType) :
    Option (MemorySystem × Option Word) :=
  (sys.cp15.read ⟨1, 0, 0, 0⟩).bind fun sctlr =>
    if sctlr &&& 0x1 = 0 then none
    else
      (sys.cp15.read ⟨13, 0, 0, 1⟩).bind fun contextidr =>
        let context : Byte := (contextidr &&& 0xFF).setWidth 8
        match useLookup sys vaddr context mode with
        | some used => used
        | none =>
            (pageTableWalk memory sys.cp15 vaddr (.constructed 0 0 0)).bind fun walked =>
              (sys.cp15.read (faultRegisters mode).1).bind fun _ =>
                (sys.cp15.read (faultRegisters mode).2).bind fun _ =>
                  if walked.1 = .noFault then
                    let entry := { walked.2 with
                      asid := context
                      isGlobal := false
                      valid := true }
                    (insert sys.mmu.table entry).bind fun table =>
                      let sys := { sys with mmu := { sys.mmu with table := table } }
                      -- the second lookup has to find the entry
                      (useLookup sys vaddr context mode).bind id
                  else
                    (recordFault sys mode (walkStatus walked.1 mode) vaddr).map
                      fun sys => (sys, none)

/-- The registers of a fault in a translation for a mode. -/
def statusRegister (mode : AccessType) : Register :=
  match mode with
  | .execute => .ifsr
  | .read | .write => .dfsr

def addressRegister (mode : AccessType) : Register :=
  match mode with
  | .execute => .ifar
  | .read | .write => .dfar

theorem recordFault_eq (sys : MemorySystem) (mode : AccessType) (fsr far : Word) :
    recordFault sys mode fsr far =
      some { sys with
        cp15 := (sys.cp15.store (statusRegister mode) fsr).store (addressRegister mode)
          far } := by
  cases mode <;> rfl

section Translate

variable {memory : Word → Option Word64} {sys next : MemorySystem} {vaddr : Word}
variable {mode : AccessType} {result : Option Word}

/-- Where a translation comes from: an entry of the table, a fault of the walk,
or the entry that the walk has brought. -/
theorem translate_cases (htranslate : translate memory sys vaddr mode = some (next, result)) :
    ∃ sctlr contextidr, sys.cp15.read ⟨1, 0, 0, 0⟩ = some sctlr ∧ sctlr &&& 0x1 ≠ 0 ∧
      sys.cp15.read ⟨13, 0, 0, 1⟩ = some contextidr ∧
      (useLookup sys vaddr ((contextidr &&& 0xFF).setWidth 8) mode =
          some (some (next, result)) ∨
        (useLookup sys vaddr ((contextidr &&& 0xFF).setWidth 8) mode = none ∧
          ∃ faults entry,
            pageTableWalk memory sys.cp15 vaddr (.constructed 0 0 0) =
              some (faults, entry) ∧
            (sys.cp15.read (faultRegisters mode).1).isSome ∧
            (sys.cp15.read (faultRegisters mode).2).isSome ∧
            ((faults ≠ .noFault ∧ result = none ∧
                recordFault sys mode (walkStatus faults mode) vaddr = some next) ∨
              (faults = .noFault ∧ ∃ table,
                insert sys.mmu.table { entry with
                  asid := (contextidr &&& 0xFF).setWidth 8
                  isGlobal := false
                  valid := true } = some table ∧
                useLookup { sys with mmu := { sys.mmu with table := table } } vaddr
                  ((contextidr &&& 0xFF).setWidth 8) mode =
                  some (some (next, result)))))) := by
  obtain ⟨sctlr, hsctlr, h⟩ := Option.bind_eq_some_iff.mp htranslate
  by_cases hoff : sctlr &&& 0x1 = 0
  · rw [if_pos hoff] at h
    cases h
  rw [if_neg hoff] at h
  obtain ⟨contextidr, hcontext, h⟩ := Option.bind_eq_some_iff.mp h
  refine ⟨sctlr, contextidr, hsctlr, hoff, hcontext, ?_⟩
  dsimp only at h
  cases huse : useLookup sys vaddr ((contextidr &&& 0xFF).setWidth 8) mode with
  | some used =>
      rw [huse] at h
      exact .inl (congrArg some h)
  | none =>
      rw [huse] at h
      dsimp only at h
      obtain ⟨⟨faults, entry⟩, hwalk, h⟩ := Option.bind_eq_some_iff.mp h
      obtain ⟨status, hstatus, h⟩ := Option.bind_eq_some_iff.mp h
      obtain ⟨address, haddress, h⟩ := Option.bind_eq_some_iff.mp h
      refine .inr ⟨rfl, faults, entry, hwalk, Option.isSome_iff_exists.mpr ⟨_, hstatus⟩,
        Option.isSome_iff_exists.mpr ⟨_, haddress⟩, ?_⟩
      by_cases hfault : faults = .noFault
      · rw [if_pos hfault] at h
        obtain ⟨table, htable, h⟩ := Option.bind_eq_some_iff.mp h
        obtain ⟨used, hused, h⟩ := Option.bind_eq_some_iff.mp h
        exact .inr ⟨hfault, table, htable, hused.trans (congrArg some h)⟩
      · rw [if_neg hfault] at h
        obtain ⟨recorded, hrecord, h⟩ := Option.map_eq_some_iff.mp h
        rw [Prod.mk.injEq] at h
        exact .inl ⟨hfault, h.2.symm, hrecord.trans (congrArg some h.1)⟩

/-- Registers that keep their values in a translation for a mode. -/
def SameRegisters (mode : AccessType) (cp15 cp15' : Cp15) : Prop :=
  ∀ register, register ≠ statusRegister mode → register ≠ addressRegister mode →
    cp15'.reg register = cp15.reg register

theorem recordFault_frame {fsr far : Word}
    (hrecord : recordFault sys mode fsr far = some next) :
    SameRegisters mode sys.cp15 next.cp15 ∧ next.mmu = sys.mmu := by
  rw [recordFault_eq, Option.some.injEq] at hrecord
  subst hrecord
  refine ⟨fun register hstatus haddress => ?_, rfl⟩
  rw [Cp15.reg_store_of_ne _ haddress, Cp15.reg_store_of_ne _ hstatus]

theorem useLookup_frame {context : Byte}
    (huse : useLookup sys vaddr context mode = some (some (next, result))) :
    SameRegisters mode sys.cp15 next.cp15 := by
  obtain ⟨place, -, h⟩ := Option.bind_eq_some_iff.mp huse
  obtain ⟨entry, -, h⟩ := Option.map_eq_some_iff.mp h
  unfold useEntry at h
  split at h
  · obtain ⟨recorded, hrecord, h⟩ := Option.map_eq_some_iff.mp h
    rw [Prod.mk.injEq] at h
    exact h.1 ▸ (recordFault_frame hrecord).1
  · rw [Option.some.injEq, Prod.mk.injEq] at h
    rw [← h.1]
    exact fun _ _ _ => rfl

/-- An entry that grants the access changes no register. -/
theorem useLookup_granted {context : Byte} {paddr : Word}
    (huse : useLookup sys vaddr context mode = some (some (next, some paddr))) :
    next.cp15 = sys.cp15 := by
  obtain ⟨place, -, h⟩ := Option.bind_eq_some_iff.mp huse
  obtain ⟨entry, -, h⟩ := Option.map_eq_some_iff.mp h
  unfold useEntry at h
  split at h
  · obtain ⟨recorded, -, h⟩ := Option.map_eq_some_iff.mp h
    cases congrArg Prod.snd h
  · rw [Option.some.injEq, Prod.mk.injEq] at h
    rw [← h.1]

/-- A translation changes the registers of its faults only. -/
theorem translate_frame (htranslate : translate memory sys vaddr mode = some (next, result)) :
    SameRegisters mode sys.cp15 next.cp15 := by
  obtain ⟨sctlr, contextidr, -, -, -, huse | ⟨-, faults, entry, -, -, -,
    ⟨-, -, hrecord⟩ | ⟨-, table, -, huse⟩⟩⟩ := translate_cases htranslate
  · exact useLookup_frame huse
  · exact (recordFault_frame hrecord).1
  · have hframe := useLookup_frame huse
    exact hframe

/-- A translation that gives an address changes no register. -/
theorem translate_granted {paddr : Word}
    (htranslate : translate memory sys vaddr mode = some (next, some paddr)) :
    next.cp15 = sys.cp15 := by
  obtain ⟨sctlr, contextidr, -, -, -, huse | ⟨-, faults, entry, -, -, -,
    ⟨-, hnone, -⟩ | ⟨-, table, -, huse⟩⟩⟩ := translate_cases htranslate
  · exact useLookup_granted huse
  · cases hnone
  · have hsame := useLookup_granted huse
    exact hsame

end Translate

/-! ## Messages from coprocessor 15 -/

/-- `InvalidAll`. -/
def invalidAll (table : List TlbEntry) : List TlbEntry :=
  table.map fun entry => { entry with valid := false }

/-- The entry that `InvalidByMVA` is about. -/
def holdsMva (vaddr : Word) (entry : TlbEntry) : Bool :=
  entry.valid ∧ entry.getVpn ≤ vaddr ∧ vaddr < entry.getVpn + entry.size

/-- `InvalidByMVA`, which ends at the first entry it has changed. -/
def invalidByMva (vaddr : Word) : List TlbEntry → List TlbEntry
  | [] => []
  | entry :: rest =>
      if holdsMva vaddr entry then { entry with valid := false } :: rest
      else entry :: invalidByMva vaddr rest

/-- `InvalidByASID`. -/
def invalidByAsid (asid : Byte) (table : List TlbEntry) : List TlbEntry :=
  table.map fun entry =>
    if entry.asid = asid ∧ entry.valid then { entry with valid := false } else entry

/-- A change of the table alone. -/
def mapTable (f : List TlbEntry → List TlbEntry) (sys : MemorySystem) : MemorySystem :=
  { sys with mmu := { sys.mmu with table := f sys.mmu.table } }

/-- `Enable`. -/
def enable (sys : MemorySystem) : Option MemorySystem :=
  if sys.mmu.active then none
  else some { sys with mmu := { sys.mmu with active := true } }

/-- `Translate`: the address goes back through the data pointer. -/
def translateMva (sys : MemorySystem) (data : Word) : Option (MemorySystem × Word) :=
  (translate memory sys data .read).map fun translated =>
    (translated.1, translated.2.getD data)

/-! ## Writing registers -/

/-- The branch of SCTLR: enabling the unit and the caches. -/
def writeSctlr (sys : MemorySystem) (data : Word) :
    Option (MemorySystem × List CacheControl) :=
  let sctlr := sys.cp15.reg .sctlr
  let enabled := if sctlr &&& 1 = 0 ∧ data &&& 1 = 1 then enable sys else some sys
  let dataCaches :=
    if sctlr &&& ((1 : Word) <<< 2) = 0 ∧ data &&& ((1 : Word) <<< 2) ≠ 0 then
      [CacheControl.message CacheControl.dataAndUnified (-1) CacheControl.enable (-1) 1]
    else []
  let instructionCaches :=
    if sctlr &&& ((1 : Word) <<< 12) = 0 ∧ data &&& ((1 : Word) <<< 12) ≠ 0 then
      [CacheControl.message CacheControl.instruction (-1) CacheControl.enable (-1) 1]
    else []
  enabled.map fun sys =>
    ({ sys with cp15 := sys.cp15.assign .sctlr data }, dataCaches ++ instructionCaches)

/-- Maintenance of the caches by address: the address is translated first. -/
def writeByMva (sys : MemorySystem) (register : Register) (data : Word)
    (types op stop : Byte) : Option (MemorySystem × List CacheControl) :=
  (translateMva memory sys data).map fun translated =>
    ({ translated.1 with cp15 := translated.1.cp15.assign register translated.2 },
      [CacheControl.message types translated.2 op stop 1])

/-- The branch of `write` for a register. -/
def writeRegister (sys : MemorySystem) (register : Register) (data : Word) :
    Option (MemorySystem × List CacheControl) :=
  let plain (messages : List CacheControl) (f : List TlbEntry → List TlbEntry) :=
    some ({ mapTable f sys with cp15 := sys.cp15.assign register data }, messages)
  match register with
  | .sctlr => writeSctlr sys data
  | .icialluis =>
      plain [{ types := CacheControl.instruction, domain := 0, shareable := 1, data := -1,
               op := CacheControl.invalid, stop := CacheControl.stopPoU, address := 1 }] id
  | .iciallu =>
      plain [CacheControl.message CacheControl.instruction (-1) CacheControl.invalid
        CacheControl.stopPoU 1] id
  | .icimvau =>
      writeByMva memory sys register data CacheControl.instruction CacheControl.invalid
        CacheControl.stopPoU
  | .dcimvac =>
      writeByMva memory sys register data CacheControl.dataAndUnified
        (CacheControl.clean ||| CacheControl.invalid) CacheControl.stopPoC
  | .dcisw =>
      plain [CacheControl.message CacheControl.dataAndUnified data CacheControl.invalid
        CacheControl.stopNone 0] id
  | .dccmvac =>
      writeByMva memory sys register data CacheControl.dataAndUnified CacheControl.clean
        CacheControl.stopPoC
  | .dccmvau =>
      writeByMva memory sys register data CacheControl.dataAndUnified
        (CacheControl.clean ||| CacheControl.invalid) CacheControl.stopPoU
  | .dccimvac =>
      writeByMva memory sys register data CacheControl.dataAndUnified
        (CacheControl.clean ||| CacheControl.invalid) CacheControl.stopPoC
  | .dccisw =>
      plain [CacheControl.message CacheControl.dataAndUnified data
        (CacheControl.clean ||| CacheControl.invalid) CacheControl.stopNone 0] id
  | .tlbimvais => plain [] (invalidByMva data)
  | .tlbiasidis => plain [] (invalidByAsid (data.setWidth 8))
  | .tlbiall => plain [] invalidAll
  | _ => plain [] id

/-- `arm_cp15::write`, with the messages to the caches; `none` where an
assertion fails. -/
def write (sys : MemorySystem) (c : Coordinate) (data : Word) :
    Option (MemorySystem × List CacheControl) :=
  (Cp15.writeSwitch c).bind fun register => writeRegister memory sys register data

end MemorySystem

end Prazor.Arm
