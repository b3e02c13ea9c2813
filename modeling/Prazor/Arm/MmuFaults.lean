import Prazor.Arm.TlbTransparency

/-!
# Accesses that the memory management unit refuses

`b_core_access` translates the address of a core's transaction and sends the
transaction on, unless the translation faults.  A fault comes from the first or
the second descriptor of the walk, or from an entry that does not let the page be
written, be it an old one or the one the walk has just brought.
-/

namespace Prazor.Arm

/-- A transaction of a core, as far as `b_core_access` reads and changes it. -/
structure CoreTransaction where
  address : Word64
  data : Buffer
  isRead : Bool
  genericError : Bool

/-- The access type `b_core_access` translates with. -/
def CoreTransaction.mode (trans : CoreTransaction) : AccessType :=
  if trans.isRead then .read else .write

/-- `u32_t vaddr`. -/
def CoreTransaction.vaddr (trans : CoreTransaction) : Word := trans.address.setWidth 32

namespace MemorySystem

/-- The socket of `memories_initiator` that a physical address is served by; `none`
at the assertion before the global timer. -/
def memoriesInitiator (id : ℕ) (paddr : Word) : Option ℕ :=
  if 0xf8f00600 ≤ paddr ∧ paddr < (0xf8f00600 : Word) + 0xFF then some 0
  else if periphbase + 0x200 ≤ paddr ∧ paddr < periphbase + 0x200 + 0xFF then none
  else if (periphbase + 0x100 ≤ paddr ∧ paddr < periphbase + 0x100 + 0x100) ∨
      (periphbase + 0x1000 ≤ paddr ∧ paddr < periphbase + 0x1000 + 0x1000) then some 2
  else some (id + 3)

/-- `b_core_access`: the transaction as it is left or sent on, and the socket it is
sent to, if it is; `none` where an assertion fails. -/
def bCoreAccess (memory : Word → Option Word64) (sys : MemorySystem) (id : ℕ)
    (trans : CoreTransaction) : Option (MemorySystem × CoreTransaction × Option ℕ) :=
  if ¬sys.mmu.active then some (sys, trans, some (id + 3))
  else
    (translate memory sys trans.vaddr trans.mode).bind fun translated =>
      match translated.2 with
      | none => some (translated.1, { trans with genericError := true }, none)
      | some paddr =>
          (memoriesInitiator id paddr).map fun socket =>
            (translated.1, { trans with address := paddr.setWidth 64 }, some socket)

/-- The address space a translation takes place in. -/
def context (cp15 : Cp15) : Option Byte :=
  (cp15.read ⟨13, 0, 0, 1⟩).map fun contextidr => (contextidr &&& 0xFF).setWidth 8

/-- The table has no entry for the address. -/
def Misses (sys : MemorySystem) (vaddr : Word) (asid : Byte) : Prop :=
  ∀ entry ∈ sys.mmu.table, entry.isMatch vaddr asid = false

/-- A walk's entry, as it is inserted. -/
def filled (entry : TlbEntry) (asid : Byte) : TlbEntry :=
  { entry with asid := asid, isGlobal := false, valid := true }

/-- What a translation faults for: its status without the write bit, and the table
it leaves. -/
inductive Fault (memory : Word → Option Word64) (sys : MemorySystem) (vaddr : Word)
    (mode : AccessType) (asid : Byte) : Word → List TlbEntry → Prop where
  /-- The first descriptor is none of a section or a page table. -/
  | ofSection (entry : TlbEntry) (hmiss : Misses sys vaddr asid)
      (hwalk : pageTableWalk memory sys.cp15 vaddr (.constructed 0 0 0) =
        some (.translationSection, entry)) :
      Fault memory sys vaddr mode asid 5 sys.mmu.table
  /-- The second descriptor is none of a page. -/
  | ofPage (entry : TlbEntry) (hmiss : Misses sys vaddr asid)
      (hwalk : pageTableWalk memory sys.cp15 vaddr (.constructed 0 0 0) =
        some (.translationPage, entry)) :
      Fault memory sys vaddr mode asid 7 sys.mmu.table
  /-- The first entry for the address refuses the write and becomes invalid. -/
  | refused (place : ℕ) (entry : TlbEntry)
      (hplace : lookup sys.mmu.table vaddr asid = some place)
      (hentry : sys.mmu.table[place]? = some entry) (hdenied : denied entry mode = true) :
      Fault memory sys vaddr mode asid 15
        (sys.mmu.table.set place { entry with valid := false })
  /-- The entry of the walk has taken its place, and refuses the write. -/
  | refusedFresh (entry : TlbEntry) (hmiss : Misses sys vaddr asid)
      (hwalk : pageTableWalk memory sys.cp15 vaddr (.constructed 0 0 0) =
        some (.noFault, entry)) (hdenied : denied (filled entry asid) mode = true) :
      Fault memory sys vaddr mode asid 15
        ({ filled entry asid with valid := false } :: sys.mmu.table.dropLast)

/-- The bit of the fault status that says the access was a write. -/
def writeBit (mode : AccessType) : Word :=
  if mode = .write then (1 : Word) <<< 11 else 0

variable {memory : Word → Option Word64} {sys next : MemorySystem} {vaddr : Word}
variable {mode : AccessType} {asid : Byte} {result : Option Word}

theorem lookup_eq_none_iff :
    lookup sys.mmu.table vaddr asid = none ↔ Misses sys vaddr asid := by
  rw [lookup, List.findIdx?_eq_none_iff, Misses]

/-- A use of the table that faults has found an entry that refuses the write. -/
theorem useLookup_faults (huse : useLookup sys vaddr asid mode = some (some (next, none))) :
    ∃ place entry, lookup sys.mmu.table vaddr asid = some place ∧
      sys.mmu.table[place]? = some entry ∧ denied entry mode = true ∧
      recordFault { sys with mmu := { sys.mmu with
          table := sys.mmu.table.set place { entry with valid := false } } } mode
        ((15 : Word) ||| (1 : Word) <<< 11) vaddr = some next := by
  obtain ⟨place, hplace, huse⟩ := Option.bind_eq_some_iff.mp huse
  obtain ⟨entry, hentry, huse⟩ := Option.map_eq_some_iff.mp huse
  refine ⟨place, entry, hplace, hentry, ?_⟩
  unfold useEntry at huse
  split at huse
  case isTrue hdenied =>
    obtain ⟨recorded, hrecord, heq⟩ := Option.map_eq_some_iff.mp huse
    obtain ⟨rfl, -⟩ := Prod.mk.inj heq
    exact ⟨hdenied, hrecord⟩
  case isFalse =>
    obtain ⟨-, hsome⟩ := Prod.mk.inj (Option.some.inj huse)
    cases hsome

theorem mode_of_denied {entry : TlbEntry} (hdenied : denied entry mode = true) :
    mode = .write := by
  simp only [denied, decide_eq_true_eq] at hdenied
  exact hdenied.1

/-- After a miss, the entry that has been put in front is the one that is found. -/
theorem lookup_cons_of_misses {entry : TlbEntry} {table : List TlbEntry} {place : ℕ}
    (hmiss : ∀ other ∈ table, other.isMatch vaddr asid = false)
    (hplace : lookup (entry :: table) vaddr asid = some place) : place = 0 := by
  obtain ⟨hlt, hmatch, -⟩ := List.findIdx?_eq_some_iff_getElem.mp hplace
  cases place with
  | zero => rfl
  | succ place =>
      rw [List.getElem_cons_succ, hmiss _ (List.getElem_mem _)] at hmatch
      cases hmatch

/-- A walk has no result but a page and the two faults. -/
theorem pageTableWalk_ne_tlbMiss {cp15 : Cp15} {entry entry' : TlbEntry} :
    pageTableWalk memory cp15 vaddr entry ≠ some (.tlbMiss, entry') := by
  intro hwalk
  obtain ⟨addr, -, hwalk⟩ := Option.bind_eq_some_iff.mp hwalk
  obtain ⟨content, -, hwalk⟩ := Option.bind_eq_some_iff.mp hwalk
  obtain ⟨domains, -, hwalk⟩ := Option.bind_eq_some_iff.mp hwalk
  dsimp only at hwalk
  split at hwalk
  · cases hwalk
  · split at hwalk
    · obtain ⟨second, -, hwalk⟩ := Option.bind_eq_some_iff.mp hwalk
      dsimp only at hwalk
      split at hwalk
      · cases hwalk
      · split at hwalk <;> cases hwalk
    · cases hwalk

/-- What a translation that faults leaves: the registers of its mode, and the table
of its cause. -/
theorem translate_faults (htranslate : translate memory sys vaddr mode = some (next, none)) :
    ∃ asid status table, context sys.cp15 = some asid ∧
      Fault memory sys vaddr mode asid status table ∧
      recordFault { sys with mmu := { sys.mmu with table := table } } mode
        (status ||| writeBit mode) vaddr = some next := by
  obtain ⟨sctlr, contextidr, -, -, hcontext, huse | ⟨hmiss, faults, entry, hwalk, -, -,
    ⟨hfault, -, hrecord⟩ | ⟨rfl, table, hinsert, huse⟩⟩⟩ := translate_cases htranslate
  all_goals
    refine ⟨(contextidr &&& 0xFF).setWidth 8, ?_⟩
    have hasid : context sys.cp15 = some ((contextidr &&& 0xFF).setWidth 8) := by
      rw [context, hcontext, Option.map_some]
  · obtain ⟨place, entry, hplace, hentry, hdenied, hrecord⟩ := useLookup_faults huse
    refine ⟨15, _, hasid, .refused place entry hplace hentry hdenied, ?_⟩
    rwa [writeBit, if_pos (mode_of_denied hdenied)]
  · have hmiss := lookup_eq_none_iff.mp (useLookup_eq_none.mp hmiss)
    have hwritten : ∀ faults, walkStatus faults mode =
        walkStatus faults .read ||| writeBit mode := by
      intro faults
      cases faults <;> cases mode <;> rfl
    rw [hwritten] at hrecord
    cases faults with
    | noFault => exact absurd rfl hfault
    | tlbMiss => exact absurd hwalk pageTableWalk_ne_tlbMiss
    | translationSection => exact ⟨5, _, hasid, .ofSection entry hmiss hwalk, hrecord⟩
    | translationPage => exact ⟨7, _, hasid, .ofPage entry hmiss hwalk, hrecord⟩
  · have hmiss := lookup_eq_none_iff.mp (useLookup_eq_none.mp hmiss)
    obtain ⟨place, found, hplace, hfound, hdenied, hrecord⟩ := useLookup_faults huse
    unfold MemorySystem.insert at hinsert
    split at hinsert
    case isTrue => cases hinsert
    case isFalse =>
      obtain rfl := Option.some.inj hinsert
      obtain rfl := lookup_cons_of_misses
        (fun other hother => hmiss other (List.dropLast_subset _ hother)) hplace
      obtain rfl := Option.some.inj hfound
      refine ⟨15, _, hasid, .refusedFresh entry hmiss hwalk hdenied, ?_⟩
      rw [writeBit, if_pos (mode_of_denied hdenied)]
      exact hrecord

/-- A fault that `recordFault` has written down. -/
theorem registers_of_recordFault {fsr far : Word}
    (hrecord : recordFault sys mode fsr far = some next) :
    next.cp15.reg (statusRegister mode) = fsr ∧ next.cp15.reg (addressRegister mode) = far ∧
      SameRegisters mode sys.cp15 next.cp15 ∧ next.mmu = sys.mmu := by
  obtain ⟨hframe, hmmu⟩ := recordFault_frame hrecord
  rw [recordFault_eq, Option.some.injEq] at hrecord
  subst hrecord
  have hne : statusRegister mode ≠ addressRegister mode := by
    cases mode <;> decide
  refine ⟨?_, Cp15.reg_store_self _ _ _, hframe, hmmu⟩
  rw [Cp15.reg_store_of_ne _ hne, Cp15.reg_store_self]

/-- An access that faults is answered with an error and goes nowhere.  The two
registers of its mode are written, with the cause of this fault and its address, and
no other register; the table is that of the cause. -/
theorem fault_atomic (memory : Word → Option Word64) (sys next : MemorySystem)
    (vaddr : Word) (mode : AccessType)
    (htranslate : translate memory sys vaddr mode = some (next, none)) :
    (∃ asid status, context sys.cp15 = some asid ∧
        Fault memory sys vaddr mode asid status next.mmu.table ∧
        next.cp15.reg (statusRegister mode) = status ||| writeBit mode) ∧
      next.cp15.reg (addressRegister mode) = vaddr ∧
      SameRegisters mode sys.cp15 next.cp15 ∧ next.mmu.active = sys.mmu.active ∧
      ∀ id (trans : CoreTransaction), sys.mmu.active = true → trans.vaddr = vaddr →
        trans.mode = mode →
        bCoreAccess memory sys id trans =
          some (next, { trans with genericError := true }, none) := by
  obtain ⟨asid, status, table, hasid, hfault, hrecord⟩ := translate_faults htranslate
  obtain ⟨hstatus, haddress, hframe, hmmu⟩ := registers_of_recordFault hrecord
  refine ⟨⟨asid, status, hasid, ?_, hstatus⟩, haddress, hframe, ?_, ?_⟩
  · rw [hmmu]
    exact hfault
  · rw [hmmu]
  · intro id trans hactive hvaddr hmode
    unfold bCoreAccess
    rw [if_neg (not_not.mpr hactive), hvaddr, hmode, htranslate]
    rfl

/-- Page tables of one table of pages: every other page can only be read. -/
def alternatePages : Word → Option Word64 := fun addr =>
  some (if addr < 0x4000 then 0x0000400100004001 else 0x0000520200005002)

/-- A unit whose table has two places, with domain 0 checked. -/
def twoPlaces : MemorySystem where
  cp15 := ((Cp15.constructed 0 fun _ => 0).store .sctlr 0x08C50079).store .dacr 1
  mmu := { active := true, table := [.constructed 12 0 0, .constructed 12 0 0] }

/-- A read of an address for which there is no section. -/
theorem fault_atomic_noSection : ∃ next,
    translate (fun _ => some 0) twoPlaces 0x1000 .read = some (next, none) ∧
      next.cp15.reg .dfar = 0x1000 ∧ next.cp15.reg .ifar = twoPlaces.cp15.reg .ifar := by
  have hfault := fault_atomic (fun _ => some 0) twoPlaces _ 0x1000 .read rfl
  exact ⟨_, rfl, hfault.2.1, hfault.2.2.1 .ifar (by decide) (by decide)⟩

/-- Two pages are read, and a third one is written, which its new entry refuses: the
entry of the first page is pushed out of the table. -/
theorem not_fault_atomic_table :
    ¬∀ (memory : Word → Option Word64) (start sys next : MemorySystem)
        (events : List TlbEvent),
      (∀ entry ∈ start.mmu.table, ∃ bits access domain,
        entry = .constructed bits access domain) →
      Guarded.exec (tlbStep memory) start events = some sys →
      ∀ id trans answer, bCoreAccess memory sys id trans = some (next, answer, none) →
      ∀ entry ∈ sys.mmu.table, entry.valid = true → denied entry trans.mode = false →
        entry ∈ next.mmu.table := by
  intro hclaim
  have hnew : ∀ entry ∈ twoPlaces.mmu.table, ∃ bits access domain,
      entry = .constructed bits access domain := by
    intro entry hentry
    refine ⟨12, 0, 0, ?_⟩
    simpa [twoPlaces] using hentry
  have hkept := hclaim alternatePages twoPlaces _ _
    [.translate 0x2000 .read, .translate 0x4000 .read] hnew rfl 0
    { address := 0x3000, data := fun _ => 0, isRead := false, genericError := false } _ rfl
    { pfn := 5, vpn := 2, size := 0x1000, bits := 12, asid := 0, isGlobal := false
      valid := true, access := 0, domain := 1 }
    (List.mem_cons_of_mem _ List.mem_cons_self) rfl rfl
  revert hkept
  decide

end MemorySystem

end Prazor.Arm
