import Prazor.Arm.TlbTransparency

/-!
# Invalidations of the translation lookaside buffer

An invalidation has to make the entries it is for invalid, all of them and no
others.  The one by address ends at the first entry whose page has the address,
of whatever address space: it does what it has to when that entry is of the
operand's address space and no other entry of this space has the page.
-/

namespace Prazor.Arm

namespace TlbEntry

/-- The page of an entry begins and ends at multiples of 4 KB. -/
structure Aligned (entry : TlbEntry) : Prop where
  start : 2 ^ 12 ∣ entry.getVpn.toNat
  size : 2 ^ 12 ∣ entry.size.toNat

theorem aligned_constructed (bits : ℕ) (access domain : Byte) :
    (constructed bits access domain).Aligned := by
  have hzero : (constructed bits access domain).getVpn = 0 := BitVec.zero_shiftLeft bits
  exact ⟨by rw [hzero]; exact Nat.dvd_zero _, Nat.dvd_zero _⟩

theorem SamePage.aligned {entry other : TlbEntry} (hsame : entry.SamePage other)
    (haligned : other.Aligned) : entry.Aligned := by
  have hstart : entry.getVpn = other.getVpn := by
    rw [getVpn, getVpn, hsame.vpn, hsame.bits]
  exact ⟨hstart ▸ haligned.start, hsame.size ▸ haligned.size⟩

theorem PageOf.aligned {entry : TlbEntry} {vaddr : Word} (hpage : entry.PageOf vaddr) :
    entry.Aligned := by
  have hbits : 2 ^ 12 ∣ 2 ^ entry.bits := by
    refine Nat.pow_dvd_pow 2 ?_
    rcases hpage.bits with hbits | hbits <;> omega
  have hstart : entry.getVpn.toNat = vaddr.toNat / 2 ^ entry.bits * 2 ^ entry.bits := by
    rw [getVpn, hpage.vpn, toNat_upperField, upperField]
  exact ⟨hstart ▸ hbits.mul_left _, hpage.size_toNat ▸ hbits⟩

/-- An aligned entry covers all addresses of a page of 4 KB or none. -/
theorem Aligned.covers_congr {entry : TlbEntry} (haligned : entry.Aligned) {vaddr other : Word}
    (hpage : vaddr.toNat / 2 ^ 12 = other.toNat / 2 ^ 12) :
    entry.Covers vaddr ↔ entry.Covers other := by
  obtain ⟨start, hstart⟩ := haligned.start
  obtain ⟨size, hsize⟩ := haligned.size
  rw [Covers, Covers, BitVec.le_def, BitVec.le_def, BitVec.lt_def, BitVec.lt_def,
    BitVec.toNat_add, hstart, hsize]
  omega

end TlbEntry

/-- The invalidations of `b_cp15_access`, with the word written. -/
inductive Invalidation where
  | all (data : Word)
  | byMva (data : Word)
  | byAsid (data : Word)

namespace Invalidation

open MemorySystem

/-- What `b_cp15_access` does to the table. -/
def apply : Invalidation → List TlbEntry → List TlbEntry
  | all _ => invalidAll
  | byMva data => invalidByMva data
  | byAsid data => invalidByAsid (data.setWidth 8)

/-- The entries an invalidation is for.  The operand of the one by address has the
page in the upper bits and the address space in the lower ones. -/
def Addressed : Invalidation → TlbEntry → Prop
  | all _, entry => entry.valid = true
  | byMva data, entry =>
      ∃ vaddr : Word, vaddr.toNat / 2 ^ 12 = data.toNat / 2 ^ 12 ∧
        entry.isMatch vaddr (data.setWidth 8) = true
  | byAsid data, entry => entry.valid = true ∧ entry.asid = data.setWidth 8

/-- Nothing that is addressed stays valid, and what is not addressed stays as it
was. -/
structure Exact (op : Invalidation) (table : List TlbEntry) : Prop where
  length : (op.apply table).length = table.length
  complete : ∀ entry ∈ op.apply table, ¬op.Addressed entry
  frame : ∀ (i : ℕ) (entry : TlbEntry), table[i]? = some entry → ¬op.Addressed entry →
    (op.apply table)[i]? = some entry

/-- The first valid entry whose page has the address is of the operand's address
space, and the only one of this space. -/
def FirstHitOnly (data : Word) (table : List TlbEntry) : Prop :=
  ∀ first rest, table.filter (holdsMva data) = first :: rest →
    first.asid = data.setWidth 8 ∧ ∀ other ∈ rest, other.asid ≠ data.setWidth 8

variable {data : Word} {entry : TlbEntry} {table rest : List TlbEntry}

theorem holdsMva_iff :
    holdsMva data entry = true ↔ entry.valid = true ∧ entry.Covers data := by
  simp [holdsMva, TlbEntry.Covers]

theorem addressed_byMva_iff (haligned : entry.Aligned) :
    (byMva data).Addressed entry ↔
      holdsMva data entry = true ∧ entry.asid = data.setWidth 8 := by
  rw [holdsMva_iff]
  constructor
  · rintro ⟨vaddr, hpage, hmatch⟩
    obtain ⟨hvalid, hasid, hcovers⟩ := TlbEntry.isMatch_iff.mp hmatch
    exact ⟨⟨hvalid, (haligned.covers_congr hpage).mp hcovers⟩, hasid⟩
  · rintro ⟨⟨hvalid, hcovers⟩, hasid⟩
    exact ⟨data, rfl, TlbEntry.isMatch_iff.mpr ⟨hvalid, hasid, hcovers⟩⟩

/-- An invalidation that looks at each entry alone, and invalidates the addressed
ones, is exact. -/
theorem exact_of_map {op : Invalidation} {f : TlbEntry → TlbEntry}
    (hmap : ∀ table, op.apply table = table.map f)
    (hinvalid : ∀ entry, ¬op.Addressed (f entry))
    (hsame : ∀ entry, ¬op.Addressed entry → f entry = entry) (table : List TlbEntry) :
    op.Exact table where
  length := by rw [hmap, List.length_map]
  complete := by
    intro entry hentry
    rw [hmap] at hentry
    obtain ⟨before, -, rfl⟩ := List.mem_map.mp hentry
    exact hinvalid before
  frame := by
    intro i entry hget hnot
    rw [hmap, List.getElem?_map, hget, Option.map_some, hsame entry hnot]

theorem exact_all (data : Word) (table : List TlbEntry) : (all data).Exact table := by
  refine exact_of_map (fun _ => rfl) ?_ ?_ table
  · exact fun entry hvalid => Bool.false_ne_true hvalid
  · intro entry hnot
    have hvalid : entry.valid = false := Bool.eq_false_iff.mpr hnot
    rw [← hvalid]

theorem exact_byAsid (data : Word) (table : List TlbEntry) : (byAsid data).Exact table := by
  refine exact_of_map (fun _ => rfl) ?_ ?_ table
  · rintro entry ⟨hvalid, hasid⟩
    split at hvalid
    case isTrue => exact Bool.false_ne_true hvalid
    case isFalse hnot =>
      rw [if_neg hnot] at hasid
      exact hnot ⟨hasid, hvalid⟩
  · intro entry hnot
    exact if_neg fun h => hnot ⟨h.2, h.1⟩

/-! ## Invalidation by address -/

/-- An entry that does not have the address is passed over. -/
theorem exact_byMva_cons_of_miss (haligned : entry.Aligned)
    (hmiss : holdsMva data entry = false) :
    (byMva data).Exact (entry :: rest) ↔ (byMva data).Exact rest := by
  have hnot : ¬(byMva data).Addressed entry := by
    rw [addressed_byMva_iff haligned, hmiss]
    exact fun h => Bool.false_ne_true h.1
  have happly : (byMva data).apply (entry :: rest) = entry :: (byMva data).apply rest := by
    show invalidByMva data (entry :: rest) = entry :: invalidByMva data rest
    rw [invalidByMva, hmiss, if_neg Bool.false_ne_true]
  constructor
  · rintro ⟨hlength, hcomplete, hframe⟩
    rw [happly] at hlength hcomplete hframe
    refine ⟨Nat.succ.inj hlength, ?_, fun i => hframe (i + 1)⟩
    exact fun other hother => hcomplete other (List.mem_cons_of_mem entry hother)
  · rintro ⟨hlength, hcomplete, hframe⟩
    refine ⟨?_, ?_, ?_⟩
    · rw [happly, List.length_cons, List.length_cons, hlength]
    · rw [happly]
      exact List.forall_mem_cons.mpr ⟨hnot, hcomplete⟩
    · intro i other hget hother
      rw [happly]
      cases i with
      | zero => exact hget
      | succ i => exact hframe i other hget hother

/-- The first entry that has the address is invalidated, and the others are left. -/
theorem exact_byMva_cons_of_hit (haligned : ∀ other ∈ entry :: rest, other.Aligned)
    (hhit : holdsMva data entry = true) :
    (byMva data).Exact (entry :: rest) ↔
      entry.asid = data.setWidth 8 ∧
        ∀ other ∈ rest.filter (holdsMva data), other.asid ≠ data.setWidth 8 := by
  have haddressed : (byMva data).Addressed entry ↔
      holdsMva data entry = true ∧ entry.asid = data.setWidth 8 :=
    addressed_byMva_iff (haligned entry List.mem_cons_self)
  have hrest : ∀ other ∈ rest, ((byMva data).Addressed other ↔
      holdsMva data other = true ∧ other.asid = data.setWidth 8) :=
    fun other hother => addressed_byMva_iff (haligned other (List.mem_cons_of_mem _ hother))
  have happly : (byMva data).apply (entry :: rest) = { entry with valid := false } :: rest := by
    show invalidByMva data (entry :: rest) = _
    rw [invalidByMva, hhit, if_pos rfl]
  constructor
  · rintro ⟨-, hcomplete, hframe⟩
    rw [happly] at hcomplete hframe
    constructor
    · by_contra hasid
      have hkept := hframe 0 entry rfl fun h => hasid (haddressed.mp h).2
      have hvalid := (holdsMva_iff.mp hhit).1
      rw [List.getElem?_cons_zero, Option.some.injEq] at hkept
      rw [← hkept] at hvalid
      exact Bool.false_ne_true hvalid
    · intro other hother hasid
      obtain ⟨hmem, hholds⟩ := List.mem_filter.mp hother
      exact hcomplete other (List.mem_cons_of_mem _ hmem) ((hrest other hmem).mpr ⟨hholds, hasid⟩)
  · rintro ⟨hasid, hothers⟩
    refine ⟨?_, ?_, ?_⟩
    · rw [happly, List.length_cons, List.length_cons]
    · rw [happly]
      refine List.forall_mem_cons.mpr ⟨?_, fun other hother h => ?_⟩
      · rintro ⟨vaddr, -, hmatch⟩
        exact Bool.false_ne_true (TlbEntry.isMatch_iff.mp hmatch).1
      · obtain ⟨hholds, hsame⟩ := (hrest other hother).mp h
        exact hothers other (List.mem_filter.mpr ⟨hother, hholds⟩) hsame
    · intro i other hget hnot
      rw [happly]
      cases i with
      | zero =>
          obtain rfl := Option.some.inj hget
          exact absurd (haddressed.mpr ⟨hhit, hasid⟩) hnot
      | succ i => exact hget

theorem exact_byMva_iff (haligned : ∀ entry ∈ table, entry.Aligned) :
    (byMva data).Exact table ↔ FirstHitOnly data table := by
  induction table with
  | nil =>
      constructor
      · rintro - first rest hfilter
        cases hfilter
      · rintro -
        exact ⟨rfl, fun _ hentry => absurd hentry List.not_mem_nil,
          fun _ _ hget => by cases hget⟩
  | cons entry rest ih =>
      have hrest := fun other hother => haligned other (List.mem_cons_of_mem entry hother)
      cases hhit : holdsMva data entry with
      | true =>
          rw [exact_byMva_cons_of_hit haligned hhit, FirstHitOnly,
            List.filter_cons_of_pos hhit]
          constructor
          · rintro h first others hfilter
            obtain ⟨rfl, rfl⟩ := List.cons.inj hfilter
            exact h
          · exact fun h => h entry _ rfl
      | false =>
          have hnot : ¬holdsMva data entry = true := Bool.eq_false_iff.mp hhit
          rw [exact_byMva_cons_of_miss (haligned entry List.mem_cons_self) hhit, ih hrest,
            FirstHitOnly, FirstHitOnly, List.filter_cons_of_neg hnot]

/-! ## Writes of coprocessor 15 -/

/-- The register an invalidation is written to. -/
def coordinate : Invalidation → Coordinate
  | all _ => ⟨8, 7, 0, 0⟩
  | byMva _ => ⟨8, 3, 0, 1⟩
  | byAsid _ => ⟨8, 3, 0, 2⟩

def operand : Invalidation → Word
  | all data | byMva data | byAsid data => data

/-- A write of the register invalidates, and changes nothing else of the unit. -/
theorem mmu_of_write (memory : Word → Option Word64) (sys : MemorySystem)
    (op : Invalidation) :
    (MemorySystem.write memory sys op.coordinate op.operand).map (fun next => next.1.mmu) =
      some { sys.mmu with table := op.apply sys.mmu.table } := by
  cases op <;> rfl

end Invalidation

namespace MemorySystem

variable {memory : Word → Option Word64} {sys next : MemorySystem} {vaddr : Word}
variable {mode : AccessType}

/-! ## The tables that are reached -/

def AllAligned (sys : MemorySystem) : Prop := ∀ entry ∈ sys.mmu.table, entry.Aligned

theorem AllAligned.of_derived (haligned : sys.AllAligned)
    (hderived : Derived sys.mmu.table next.mmu.table) : next.AllAligned := by
  intro entry' hentry'
  obtain ⟨entry, hentry, hsame⟩ := hderived.2 entry' hentry'
  exact hsame.aligned (haligned entry hentry)

theorem AllAligned.insert {entry : TlbEntry} {table : List TlbEntry}
    (haligned : sys.AllAligned) (hentry : entry.Aligned)
    (hinsert : MemorySystem.insert sys.mmu.table entry = some table) :
    AllAligned { sys with mmu := { sys.mmu with table := table } } := by
  unfold MemorySystem.insert at hinsert
  split at hinsert
  case isTrue => cases hinsert
  case isFalse =>
    obtain rfl := Option.some.inj hinsert
    intro other hother
    rcases List.mem_cons.mp hother with rfl | hrest
    · exact hentry
    · exact haligned other (List.dropLast_subset _ hrest)

theorem AllAligned.translate (haligned : sys.AllAligned) {result : Option Word}
    (htranslate : translate memory sys vaddr mode = some (next, result)) :
    next.AllAligned := by
  obtain ⟨sctlr, contextidr, -, -, -, huse | ⟨-, faults, entry, hwalk, -, -,
    ⟨-, -, hrecord⟩ | ⟨hfault, table, hinsert, huse⟩⟩⟩ := translate_cases htranslate
  · obtain ⟨-, -, -, -, hderived⟩ := useLookup_cases huse
    exact haligned.of_derived hderived
  · exact haligned.of_derived ((recordFault_frame hrecord).2 ▸ .refl _)
  · rw [hfault] at hwalk
    have hsame : TlbEntry.SamePage { entry with
        asid := (contextidr &&& 0xFF).setWidth 8
        isGlobal := false
        valid := true } entry := ⟨rfl, rfl, rfl, rfl, rfl, rfl⟩
    have hentry := hsame.aligned (pageTableWalk_page hwalk).1.aligned
    obtain ⟨-, -, -, -, hderived⟩ := useLookup_cases huse
    exact (haligned.insert hentry hinsert).of_derived hderived

/-- One event, with the page tables as they are then. -/
def tlbStepIn (sys : MemorySystem) (input : (Word → Option Word64) × TlbEvent) :
    Option MemorySystem :=
  tlbStep input.1 sys input.2

theorem AllAligned.step (haligned : sys.AllAligned)
    {input : (Word → Option Word64) × TlbEvent} (hstep : tlbStepIn sys input = some next) :
    next.AllAligned := by
  obtain ⟨memory, event⟩ := input
  cases event with
  | translate vaddr mode =>
      obtain ⟨⟨_, result⟩, htranslate, rfl⟩ := Option.map_eq_some_iff.mp hstep
      exact haligned.translate htranslate
  | write c data =>
      obtain ⟨⟨_, messages⟩, hwrite, rfl⟩ := Option.map_eq_some_iff.mp hstep
      obtain ⟨branch, -, hwrite⟩ := Option.bind_eq_some_iff.mp hwrite
      rcases writeRegister_cases hwrite with
        ⟨-, -, f, hf, htable⟩ | ⟨-, mid, paddr, htranslate, -, hmmu⟩
      · exact haligned.of_derived (htable ▸ derived_of_invalidates hf _)
      · obtain ⟨⟨_, result⟩, hresult, hmid⟩ := Option.map_eq_some_iff.mp htranslate
        rw [Prod.mk.injEq] at hmid
        obtain ⟨rfl, -⟩ := hmid
        exact (haligned.translate hresult).of_derived (hmmu ▸ .refl _)

/-- In every state that a run from a new table reaches, whatever becomes of the
page tables meanwhile: an invalidation is exact, the one by address if and only if
the first entry it meets is the one it is for. -/
theorem invalidation_exact_iff (start sys : MemorySystem)
    (hnew : ∀ entry ∈ start.mmu.table, ∃ bits access domain,
      entry = .constructed bits access domain)
    (inputs : List ((Word → Option Word64) × TlbEvent))
    (hrun : Guarded.exec tlbStepIn start inputs = some sys) (op : Invalidation) :
    op.Exact sys.mmu.table ↔
      ∀ data, op = .byMva data → Invalidation.FirstHitOnly data sys.mmu.table := by
  have hstart : start.AllAligned := by
    intro entry hentry
    obtain ⟨bits, access, domain, rfl⟩ := hnew entry hentry
    exact TlbEntry.aligned_constructed bits access domain
  have haligned : sys.AllAligned :=
    Guarded.exec_keeps (fun _ _ _ haligned hstep => haligned.step hstep) hstart hrun
  cases op with
  | all data =>
      refine ⟨fun _ _ heq => ?_, fun _ => Invalidation.exact_all data _⟩
      cases heq
  | byAsid data =>
      refine ⟨fun _ _ heq => ?_, fun _ => Invalidation.exact_byAsid data _⟩
      cases heq
  | byMva data =>
      rw [Invalidation.exact_byMva_iff haligned]
      constructor
      · rintro hfirst _ heq
        cases heq
        exact hfirst
      · exact fun h => h data rfl

/-- A page is translated in one address space and invalidated there. -/
theorem invalidation_exact_one : ∃ sys,
    Guarded.exec tlbStepIn twoEntries [(sections, .translate 0x1000 .read)] = some sys ∧
      (Invalidation.byMva 0x1000).Exact sys.mmu.table := by
  refine ⟨_, rfl, (invalidation_exact_iff twoEntries _ twoEntries_new
    [(sections, .translate 0x1000 .read)] rfl (.byMva 0x1000)).mpr ?_⟩
  intro data hdata first rest hfilter
  cases hdata
  cases hfilter
  exact ⟨rfl, by decide⟩

/-- A page is translated in two address spaces, and then invalidated in the first:
the entry of the second, which comes first, is lost and the other stays. -/
theorem not_invalidation_exact :
    ¬∀ (start sys : MemorySystem), (∀ entry ∈ start.mmu.table, ∃ bits access domain,
        entry = .constructed bits access domain) →
      ∀ inputs : List ((Word → Option Word64) × TlbEvent),
      Guarded.exec tlbStepIn start inputs = some sys →
      ∀ op : Invalidation, op.Exact sys.mmu.table := by
  intro hclaim
  have hexact := hclaim twoEntries _ twoEntries_new
    [(sections, .translate 0x1000 .read), (sections, .write ⟨13, 0, 0, 1⟩ 1),
      (sections, .translate 0x1000 .read)] rfl (.byMva 0x1000)
  have hlast := hexact.complete _ (List.mem_cons_of_mem _ List.mem_cons_self)
  exact hlast ⟨0x1000, rfl, rfl⟩

end MemorySystem

end Prazor.Arm
