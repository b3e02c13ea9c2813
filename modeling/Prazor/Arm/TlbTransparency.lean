import Prazor.Arm.TranslationBase

/-!
# The translation lookaside buffer against fresh walks

A translation gives what a walk of the page tables would give.  Every entry of
the table came from a walk, and a walk has the same result for all addresses of
its page; only an entry for the last page of the address space is never found
again, since its end is computed in 32 bits.
-/

namespace Prazor.Arm

namespace TlbEntry

/-- The address is in the page, as `match` computes it. -/
def Covers (entry : TlbEntry) (vaddr : Word) : Prop :=
  entry.getVpn ≤ vaddr ∧ vaddr < entry.getVpn + entry.size

theorem isMatch_iff {entry : TlbEntry} {vaddr : Word} {context : Byte} :
    entry.isMatch vaddr context = true ↔
      entry.valid = true ∧ entry.asid = context ∧ entry.Covers vaddr := by
  simp [isMatch, Covers]

/-- Two entries for one page, of any address space and validity. -/
structure SamePage (entry other : TlbEntry) : Prop where
  pfn : entry.pfn = other.pfn
  vpn : entry.vpn = other.vpn
  size : entry.size = other.size
  bits : entry.bits = other.bits
  access : entry.access = other.access
  domain : entry.domain = other.domain

theorem SamePage.covers {entry other : TlbEntry} (hsame : entry.SamePage other)
    (vaddr : Word) : entry.Covers vaddr ↔ other.Covers vaddr := by
  simp only [Covers, getVpn, hsame.vpn, hsame.size, hsame.bits]

theorem SamePage.getPfn {entry other : TlbEntry} (hsame : entry.SamePage other)
    (vaddr : Word) : entry.getPfn vaddr = other.getPfn vaddr := by
  simp only [TlbEntry.getPfn, hsame.pfn, hsame.bits, hsame.size]

theorem SamePage.trans {entry other third : TlbEntry} (hsame : entry.SamePage other)
    (hsame' : other.SamePage third) : entry.SamePage third :=
  ⟨hsame.pfn.trans hsame'.pfn, hsame.vpn.trans hsame'.vpn, hsame.size.trans hsame'.size,
    hsame.bits.trans hsame'.bits, hsame.access.trans hsame'.access,
    hsame.domain.trans hsame'.domain⟩

/-- An entry for the page of an address, of 4 KB or 1 MB. -/
structure PageOf (entry : TlbEntry) (vaddr : Word) : Prop where
  bits : entry.bits = 12 ∨ entry.bits = 20
  size : entry.size = 1 <<< entry.bits
  vpn : entry.vpn = vaddr >>> entry.bits

theorem PageOf.size_toNat {entry : TlbEntry} {vaddr : Word} (hpage : entry.PageOf vaddr) :
    entry.size.toNat = 2 ^ entry.bits := by
  rw [hpage.size]
  rcases hpage.bits with hbits | hbits <;> rw [hbits] <;> rfl

/-- An entry covers its page, unless the page is the last one. -/
theorem PageOf.covers_iff {entry : TlbEntry} {vaddr : Word} (hpage : entry.PageOf vaddr)
    (other : Word) :
    entry.Covers other ↔
      other.toNat / 2 ^ entry.bits = vaddr.toNat / 2 ^ entry.bits ∧
        vaddr.toNat < 2 ^ 32 - entry.size.toNat := by
  have hstart : entry.getVpn.toNat = vaddr.toNat / 2 ^ entry.bits * 2 ^ entry.bits := by
    rw [getVpn, hpage.vpn, toNat_upperField, upperField]
  have hvaddr := vaddr.isLt
  have hother := other.isLt
  rw [Covers, BitVec.le_def, BitVec.lt_def, BitVec.toNat_add, hstart, hpage.size_toNat]
  rcases hpage.bits with hbits | hbits <;> rw [hbits] <;> omega

end TlbEntry

namespace MemorySystem

variable {memory : Word → Option Word64} {sys next : MemorySystem} {vaddr other : Word}
variable {mode : AccessType}

/-! ## A walk looks at the page of its address only -/

theorem l1DescriptorAddr_congr (cp15 : Cp15)
    (hpage : other.toNat / 2 ^ 20 = vaddr.toNat / 2 ^ 20) :
    l1DescriptorAddr cp15 other = l1DescriptorAddr cp15 vaddr := by
  have hlow : ∀ n, n < 8 → (other.toNat < 2 ^ (32 - n) ↔ vaddr.toNat < 2 ^ (32 - n)) := by
    intro n hn
    interval_cases n <;> omega
  have hmap : (l1DescriptorAddr cp15 other).map BitVec.toNat =
      (l1DescriptorAddr cp15 vaddr).map BitVec.toNat := by
    rw [l1DescriptorAddr_eq, l1DescriptorAddr_eq, firstDescriptor_eq, firstDescriptor_eq,
      hpage]
    simp only [hlow _ (Nat.mod_lt _ (by norm_num : 0 < 8))]
  exact Option.map_injective (fun _ _ h => BitVec.eq_of_toNat_eq h) hmap

/-- The frame of a physical address does not depend on the offset. -/
theorem frame_of_offset (content : Word) {low : ℕ} {offset : Word}
    (hoffset : offset.toNat < 2 ^ low) :
    (((content >>> low) <<< low) ||| offset) >>> low = content >>> low := by
  apply BitVec.eq_of_toNat_eq
  rw [BitVec.toNat_ushiftRight, BitVec.toNat_or, toNat_upperField, or_eq_add content hoffset,
    BitVec.toNat_ushiftRight, Nat.shiftRight_eq_div_pow, Nat.shiftRight_eq_div_pow,
    upperField, Nat.mul_comm, Nat.mul_add_div (Nat.two_pow_pos low),
    Nat.div_eq_of_lt hoffset, Nat.add_zero]

theorem section_frame (content vaddr : Word) :
    (((content >>> 20) <<< 20) ||| (vaddr &&& (((1 : Word) <<< 20) - 1))) >>> 20 =
      content >>> 20 := by
  refine frame_of_offset content ?_
  have hmask : (((1 : Word) <<< 20) - 1).toNat = 2 ^ 20 - 1 := rfl
  rw [BitVec.toNat_and, hmask, Nat.and_two_pow_sub_one_eq_mod]
  exact Nat.mod_lt _ (Nat.two_pow_pos 20)

theorem page_frame (content vaddr : Word) :
    (((content >>> 12) <<< 12) ||| ((vaddr <<< 20) >>> 20)) >>> 12 = content >>> 12 := by
  refine frame_of_offset content ?_
  rw [BitVec.toNat_ushiftRight, BitVec.toNat_shiftLeft, Nat.shiftRight_eq_div_pow,
    Nat.shiftLeft_eq]
  omega

theorem ushiftRight_congr {low : ℕ}
    (hpage : other.toNat / 2 ^ low = vaddr.toNat / 2 ^ low) :
    other >>> low = vaddr >>> low := by
  apply BitVec.eq_of_toNat_eq
  rw [BitVec.toNat_ushiftRight, BitVec.toNat_ushiftRight, Nat.shiftRight_eq_div_pow,
    Nat.shiftRight_eq_div_pow, hpage]

/-- The second descriptor of an address. -/
theorem secondIndex_congr (hpage : other.toNat / 2 ^ 12 = vaddr.toNat / 2 ^ 12) :
    ((other <<< 12) >>> 24) <<< 2 = ((vaddr <<< 12) >>> 24) <<< 2 := by
  have hindex : ∀ addr : Word, ((addr <<< 12) >>> 24).toNat = addr.toNat / 2 ^ 12 % 2 ^ 8 := by
    intro addr
    rw [BitVec.toNat_ushiftRight, BitVec.toNat_shiftLeft, Nat.shiftRight_eq_div_pow,
      Nat.shiftLeft_eq]
    omega
  rw [BitVec.eq_of_toNat_eq ((hindex other).trans (by rw [hpage, hindex]))]

theorem l2Descriptor_congr (addr : Word) (entry : TlbEntry)
    (hpage : other.toNat / 2 ^ 12 = vaddr.toNat / 2 ^ 12) :
    l2Descriptor memory addr other entry = l2Descriptor memory addr vaddr entry := by
  unfold l2Descriptor
  simp only [page_frame, ushiftRight_congr hpage]

/-- The page that a second descriptor gives. -/
theorem l2Descriptor_page {addr : Word} {entry entry' : TlbEntry}
    (hwalk : l2Descriptor memory addr vaddr entry = some (.noFault, entry')) :
    entry'.bits = 12 ∧ entry'.PageOf vaddr := by
  obtain ⟨content, -, h⟩ := Option.bind_eq_some_iff.mp hwalk
  dsimp only at h
  split at h
  · cases h
  split at h
  · cases h
  rw [Option.some.injEq, Prod.mk.injEq] at h
  rw [← h.2]
  exact ⟨rfl, .inl rfl, rfl, rfl⟩

/-- What a walk that finds a page gives, it gives for all addresses of the page. -/
theorem l1Descriptor_page {cp15 : Cp15} {addr : Word} {entry entry' : TlbEntry}
    (hwalk : l1Descriptor memory cp15 addr vaddr entry = some (.noFault, entry')) :
    entry'.PageOf vaddr ∧ ∀ other : Word,
      other.toNat / 2 ^ entry'.bits = vaddr.toNat / 2 ^ entry'.bits →
      l1Descriptor memory cp15 addr other entry = some (.noFault, entry') := by
  obtain ⟨content, hcontent, h⟩ := Option.bind_eq_some_iff.mp hwalk
  obtain ⟨domains, hdomains, h⟩ := Option.bind_eq_some_iff.mp h
  dsimp only at h
  by_cases hfault : content &&& 0x3 = 0 ∨ content &&& 0x3 = 3
  · rw [if_pos hfault] at h
    cases h
  by_cases htable : content &&& 0x3 = 1
  · rw [if_neg hfault, if_pos htable] at h
    obtain ⟨hbits, hpage⟩ := l2Descriptor_page h
    refine ⟨hpage, fun other hother => ?_⟩
    rw [hbits] at hother
    rw [l1Descriptor, hcontent, Option.bind_some, hdomains, Option.bind_some]
    dsimp only
    rw [if_neg hfault, if_pos htable, secondIndex_congr hother, l2Descriptor_congr _ _ hother]
    exact h
  · rw [if_neg hfault, if_neg htable, Option.some.injEq, Prod.mk.injEq] at h
    have hentry := h.2
    refine ⟨?_, fun other hother => ?_⟩
    · rw [← hentry]
      exact ⟨.inr rfl, rfl, rfl⟩
    · have hbits : entry'.bits = 20 := by rw [← hentry]
      rw [hbits] at hother
      rw [l1Descriptor, hcontent, Option.bind_some, hdomains, Option.bind_some]
      dsimp only
      rw [if_neg hfault, if_neg htable, ← hentry]
      simp only [section_frame, ushiftRight_congr hother]

/-- A page that a walk finds. -/
theorem pageTableWalk_page {cp15 : Cp15} {entry entry' : TlbEntry}
    (hwalk : pageTableWalk memory cp15 vaddr entry = some (.noFault, entry')) :
    entry'.PageOf vaddr ∧ ∀ other : Word,
      other.toNat / 2 ^ entry'.bits = vaddr.toNat / 2 ^ entry'.bits →
      pageTableWalk memory cp15 other entry = some (.noFault, entry') := by
  obtain ⟨addr, haddr, h⟩ := Option.bind_eq_some_iff.mp hwalk
  obtain ⟨hpage, hothers⟩ := l1Descriptor_page h
  refine ⟨hpage, fun other hother => ?_⟩
  have hsection : other.toNat / 2 ^ 20 = vaddr.toNat / 2 ^ 20 := by
    rcases hpage.bits with hbits | hbits <;> rw [hbits] at hother <;> omega
  rw [pageTableWalk, l1DescriptorAddr_congr cp15 hsection, haddr, Option.bind_some]
  exact hothers other hother

/-! ## The entries of the table -/

/-- A walk reads TTBR0 and DACR. -/
theorem pageTableWalk_congr {cp15 cp15' : Cp15} (hbase : cp15'.reg .ttbr0 = cp15.reg .ttbr0)
    (hdomains : cp15'.reg .dacr = cp15.reg .dacr) (vaddr : Word) (entry : TlbEntry) :
    pageTableWalk memory cp15' vaddr entry = pageTableWalk memory cp15 vaddr entry := by
  have hread : ∀ (register : Register) c, register.coordinate = some c →
      cp15'.reg register.source = cp15.reg register.source → cp15'.read c = cp15.read c := by
    intro register c hregister hsame
    rw [Cp15.read_of_coordinate hregister, Cp15.read_of_coordinate hregister, hsame]
  simp only [pageTableWalk, l1DescriptorAddr, l1Descriptor, hread .ttbcr _ rfl hbase,
    hread .ttbr1 _ rfl hbase, hread .ttbr0 _ rfl hbase, hread .dacr _ rfl hdomains]

/-- An entry says what walks say for the addresses it covers. -/
def Faithful (memory : Word → Option Word64) (cp15 : Cp15) (entry : TlbEntry) : Prop :=
  ∀ vaddr, entry.Covers vaddr → ∃ walked,
    pageTableWalk memory cp15 vaddr (.constructed 0 0 0) = some (.noFault, walked) ∧
      entry.SamePage walked

theorem Faithful.samePage {cp15 : Cp15} {entry entry' : TlbEntry}
    (hfaithful : Faithful memory cp15 entry) (hsame : entry'.SamePage entry) :
    Faithful memory cp15 entry' := by
  intro vaddr hcovers
  obtain ⟨walked, hwalk, hpage⟩ := hfaithful vaddr ((hsame.covers vaddr).mp hcovers)
  exact ⟨walked, hwalk, hsame.trans hpage⟩

/-- The entry of a walk is faithful. -/
theorem faithful_of_walk {cp15 : Cp15} {walked : TlbEntry}
    (hwalk : pageTableWalk memory cp15 vaddr (.constructed 0 0 0) =
      some (.noFault, walked)) : Faithful memory cp15 walked := by
  obtain ⟨hpage, hothers⟩ := pageTableWalk_page hwalk
  intro other hcovers
  exact ⟨walked, hothers other ((hpage.covers_iff other).mp hcovers).1,
    rfl, rfl, rfl, rfl, rfl, rfl⟩

theorem faithful_constructed (memory : Word → Option Word64) (cp15 : Cp15) (bits : ℕ)
    (access domain : Byte) : Faithful memory cp15 (.constructed bits access domain) := by
  rintro vaddr ⟨-, hlt⟩
  have hzero : (TlbEntry.constructed bits access domain).getVpn = 0 :=
    BitVec.zero_shiftLeft bits
  rw [hzero] at hlt
  exact absurd hlt (by simp [TlbEntry.constructed])

/-- A table of entries for pages of another one, of the same length. -/
def Derived (table table' : List TlbEntry) : Prop :=
  table'.length = table.length ∧
    ∀ entry' ∈ table', ∃ entry ∈ table, entry'.SamePage entry

theorem Derived.refl (table : List TlbEntry) : Derived table table :=
  ⟨rfl, fun entry hentry => ⟨entry, hentry, rfl, rfl, rfl, rfl, rfl, rfl⟩⟩

theorem derived_map {f : TlbEntry → TlbEntry} (hf : ∀ entry, (f entry).SamePage entry)
    (table : List TlbEntry) : Derived table (table.map f) := by
  refine ⟨List.length_map f, fun entry' hentry' => ?_⟩
  obtain ⟨entry, hentry, rfl⟩ := List.mem_map.mp hentry'
  exact ⟨entry, hentry, hf entry⟩

theorem derived_invalidByMva (vaddr : Word) (table : List TlbEntry) :
    Derived table (invalidByMva vaddr table) := by
  induction table with
  | nil => exact .refl []
  | cons entry rest ih =>
      rw [invalidByMva]
      split
      · refine ⟨rfl, fun entry' hentry' => ?_⟩
        rcases List.mem_cons.mp hentry' with rfl | hrest
        · exact ⟨entry, List.mem_cons_self, rfl, rfl, rfl, rfl, rfl, rfl⟩
        · exact ⟨entry', List.mem_cons_of_mem _ hrest, rfl, rfl, rfl, rfl, rfl, rfl⟩
      · refine ⟨by rw [List.length_cons, List.length_cons, ih.1], fun entry' hentry' => ?_⟩
        rcases List.mem_cons.mp hentry' with rfl | hrest
        · exact ⟨entry', List.mem_cons_self, rfl, rfl, rfl, rfl, rfl, rfl⟩
        · obtain ⟨other, hother, hsame⟩ := ih.2 entry' hrest
          exact ⟨other, List.mem_cons_of_mem _ hother, hsame⟩

theorem derived_of_invalidates {f : List TlbEntry → List TlbEntry} (hf : Invalidates f)
    (table : List TlbEntry) : Derived table (f table) := by
  cases hf with
  | nothing => exact .refl table
  | all =>
      refine derived_map ?_ table
      exact fun _ => ⟨rfl, rfl, rfl, rfl, rfl, rfl⟩
  | mva vaddr => exact derived_invalidByMva vaddr table
  | asid asid =>
      refine derived_map (fun entry => ?_) table
      split <;> exact ⟨rfl, rfl, rfl, rfl, rfl, rfl⟩

/-- The table has places, and its entries say what walks say. -/
structure Sound (memory : Word → Option Word64) (sys : MemorySystem) : Prop where
  nonempty : sys.mmu.table.length ≠ 0
  faithful : ∀ entry ∈ sys.mmu.table, Faithful memory sys.cp15 entry

theorem Sound.of_derived (hsound : Sound memory sys)
    (hbase : next.cp15.reg .ttbr0 = sys.cp15.reg .ttbr0)
    (hdomains : next.cp15.reg .dacr = sys.cp15.reg .dacr)
    (hderived : Derived sys.mmu.table next.mmu.table) : Sound memory next where
  nonempty := by
    rw [hderived.1]
    exact hsound.nonempty
  faithful entry' hentry' := by
    obtain ⟨entry, hentry, hsame⟩ := hderived.2 entry' hentry'
    intro vaddr hcovers
    rw [pageTableWalk_congr hbase hdomains]
    exact (hsound.faithful entry hentry).samePage hsame vaddr hcovers

/-! ## What a translation leaves -/

/-- A use of the table finds an entry that matches and may make it invalid. -/
theorem useLookup_cases {context : Byte} {result : Option Word}
    (huse : useLookup sys vaddr context mode = some (some (next, result))) :
    ∃ entry ∈ sys.mmu.table, entry.isMatch vaddr context = true ∧
      result = (if denied entry mode then none else some (entry.getPfn vaddr)) ∧
      Derived sys.mmu.table next.mmu.table := by
  obtain ⟨place, hplace, huse⟩ := Option.bind_eq_some_iff.mp huse
  obtain ⟨hlt, hmatch, -⟩ := List.findIdx?_eq_some_iff_getElem.mp hplace
  rw [List.getElem?_eq_getElem hlt, Option.map_some, Option.some.injEq] at huse
  refine ⟨sys.mmu.table[place], List.getElem_mem hlt, hmatch, ?_⟩
  unfold useEntry at huse
  split at huse
  case isTrue hdenied =>
    dsimp only at huse
    rw [recordFault_eq, Option.map_some, Option.some.injEq, Prod.mk.injEq] at huse
    rw [if_pos hdenied, ← huse.1]
    refine ⟨huse.2.symm, List.length_set, fun entry' hentry' => ?_⟩
    rcases List.mem_or_eq_of_mem_set hentry' with hold | rfl
    · exact ⟨entry', hold, rfl, rfl, rfl, rfl, rfl, rfl⟩
    · exact ⟨_, List.getElem_mem hlt, rfl, rfl, rfl, rfl, rfl, rfl⟩
  case isFalse hdenied =>
    rw [Option.some.injEq, Prod.mk.injEq] at huse
    rw [if_neg hdenied, ← huse.1]
    exact ⟨huse.2.symm, .refl _⟩

/-- The table after `insert` is sound when the new entry is. -/
theorem Sound.insert (hsound : Sound memory sys) {entry : TlbEntry}
    (hentry : Faithful memory sys.cp15 entry) {table : List TlbEntry}
    (hinsert : MemorySystem.insert sys.mmu.table entry = some table) :
    Sound memory { sys with mmu := { sys.mmu with table := table } } := by
  rw [MemorySystem.insert, if_neg hsound.nonempty, Option.some.injEq] at hinsert
  refine ⟨by simp [← hinsert], fun entry' hentry' => ?_⟩
  rw [← hinsert] at hentry'
  rcases List.mem_cons.mp hentry' with rfl | hrest
  · exact hentry
  · exact hsound.faithful entry' (List.dropLast_subset _ hrest)

theorem Sound.useLookup (hsound : Sound memory sys) {context : Byte} {result : Option Word}
    (huse : useLookup sys vaddr context mode = some (some (next, result))) :
    Sound memory next := by
  have hframe := useLookup_frame huse
  obtain ⟨-, -, -, -, hderived⟩ := useLookup_cases huse
  refine hsound.of_derived (hframe .ttbr0 ?_ ?_) (hframe .dacr ?_ ?_) hderived <;>
    cases mode <;> decide

theorem Sound.translate (hsound : Sound memory sys) {result : Option Word}
    (htranslate : translate memory sys vaddr mode = some (next, result)) :
    Sound memory next := by
  obtain ⟨sctlr, contextidr, -, -, -, huse | ⟨-, faults, entry, hwalk, -, -,
    ⟨-, -, hrecord⟩ | ⟨hfault, table, hinsert, huse⟩⟩⟩ := translate_cases htranslate
  · exact hsound.useLookup huse
  · obtain ⟨hframe, hmmu⟩ := recordFault_frame hrecord
    refine hsound.of_derived (hframe .ttbr0 ?_ ?_) (hframe .dacr ?_ ?_) (hmmu ▸ .refl _) <;>
      cases mode <;> decide
  · rw [hfault] at hwalk
    have hfaithful : Faithful memory sys.cp15 { entry with
        asid := (contextidr &&& 0xFF).setWidth 8
        isGlobal := false
        valid := true } :=
      (faithful_of_walk hwalk).samePage ⟨rfl, rfl, rfl, rfl, rfl, rfl⟩
    have hinserted := hsound.insert hfaithful hinsert
    exact hinserted.useLookup huse

/-! ## Runs -/

/-- What happens to the unit: a translation, or a write of coprocessor 15. -/
inductive TlbEvent where
  | translate (vaddr : Word) (mode : AccessType)
  | write (c : Coordinate) (data : Word)

/-- The registers of the page tables, which are held fixed. -/
def TlbEvent.KeepsTables : TlbEvent → Prop
  | .translate _ _ => True
  | .write c _ => c ∉ [⟨1, 0, 0, 0⟩, ⟨2, 0, 0, 0⟩, ⟨2, 0, 0, 1⟩, ⟨2, 0, 0, 2⟩, ⟨3, 0, 0, 0⟩]

def tlbStep (memory : Word → Option Word64) (sys : MemorySystem) :
    TlbEvent → Option MemorySystem
  | .translate vaddr mode => (translate memory sys vaddr mode).map Prod.fst
  | .write c data => writeStep memory sys (c, data)

/-- A write that leaves the registers of the page tables keeps the table sound. -/
theorem Sound.write (hsound : Sound memory sys) {c : Coordinate} {data : Word}
    (hkeeps : (TlbEvent.write c data).KeepsTables)
    (hstep : writeStep memory sys (c, data) = some next) : Sound memory next := by
  obtain ⟨⟨_, messages⟩, hwrite, rfl⟩ := Option.map_eq_some_iff.mp hstep
  rename_i next
  have hreg : ∀ (register : Register) {c' : Coordinate}, register.coordinate = some c' →
      c ≠ c' → register = .ttbr0 ∨ register = .dacr →
      next.cp15.reg register = sys.cp15.reg register := by
    intro register c' hregister hne heither
    have h := reg_write hregister hwrite
      (fun _ h => by rcases heither with rfl | rfl <;> cases h)
      (fun h => by rcases heither with rfl | rfl <;> rcases h with h | h <;> cases h)
    rw [written, if_neg hne, Option.getD_none] at h
    exact h
  simp only [TlbEvent.KeepsTables, List.mem_cons, List.not_mem_nil, or_false, not_or] at hkeeps
  obtain ⟨-, hbase, -, -, hdomains⟩ := hkeeps
  have hbase := hreg .ttbr0 rfl hbase (.inl rfl)
  have hdomains := hreg .dacr rfl hdomains (.inr rfl)
  obtain ⟨branch, -, hwrite⟩ := Option.bind_eq_some_iff.mp hwrite
  rcases writeRegister_cases hwrite with
    ⟨-, -, f, hf, htable⟩ | ⟨-, mid, paddr, htranslate, -, hmmu⟩
  · exact hsound.of_derived hbase hdomains (htable ▸ derived_of_invalidates hf _)
  · obtain ⟨⟨_, result⟩, hresult, hmid⟩ := Option.map_eq_some_iff.mp htranslate
    rw [Prod.mk.injEq] at hmid
    obtain ⟨rfl, -⟩ := hmid
    have hframe := translate_frame hresult
    have htranslated := hsound.translate hresult
    refine htranslated.of_derived ?_ ?_ (hmmu ▸ .refl _)
    · rw [hbase, hframe .ttbr0 (by decide) (by decide)]
    · rw [hdomains, hframe .dacr (by decide) (by decide)]

/-- Every run from a table of new entries leaves a sound table. -/
theorem sound_of_run {start : MemorySystem} (hsize : start.mmu.table.length ≠ 0)
    (hnew : ∀ entry ∈ start.mmu.table, ∃ bits access domain,
      entry = .constructed bits access domain)
    {events : List TlbEvent} (hkeeps : ∀ event ∈ events, event.KeepsTables)
    (hrun : Guarded.exec (tlbStep memory) start events = some sys) : Sound memory sys := by
  have hstart : Sound memory start := by
    refine ⟨hsize, fun entry hentry => ?_⟩
    obtain ⟨bits, access, domain, rfl⟩ := hnew entry hentry
    exact faithful_constructed memory _ bits access domain
  have hstep : ∀ sys event next, Sound memory sys → TlbEvent.KeepsTables event →
      tlbStep memory sys event = some next → Sound memory next := by
    intro sys event next hsound hevent hstep
    cases event with
    | translate vaddr mode =>
        obtain ⟨⟨_, result⟩, htranslate, rfl⟩ := Option.map_eq_some_iff.mp hstep
        exact hsound.translate htranslate
    | write c data => exact hsound.write hevent hstep
  exact Guarded.exec_invariant hstep hstart (Guarded.meets_of_forall start hkeeps) hrun

/-! ## Translations against walks -/

/-- A fresh walk and the rule for writing. -/
def freshTranslate (memory : Word → Option Word64) (cp15 : Cp15) (vaddr : Word)
    (mode : AccessType) : Option (Option Word) :=
  (pageTableWalk memory cp15 vaddr (.constructed 0 0 0)).map fun walked =>
    if walked.1 = .noFault ∧ denied walked.2 mode = false then
      some (walked.2.getPfn vaddr)
    else none

/-- The page tables map the address by the last page of the address space. -/
def LastPage (memory : Word → Option Word64) (cp15 : Cp15) (vaddr : Word) : Prop :=
  ∃ entry, pageTableWalk memory cp15 vaddr (.constructed 0 0 0) = some (.noFault, entry) ∧
    2 ^ 32 - entry.size.toNat ≤ vaddr.toNat

/-- The address space of CONTEXTIDR. -/
def currentAsid (cp15 : Cp15) : Byte := (cp15.reg .contextidr &&& 0xFF).setWidth 8

/-- The translations that end: the registers they read can be read, the unit is
on, and what is looked up again can be found. -/
structure Serviceable (memory : Word → Option Word64) (sys : MemorySystem) (vaddr : Word)
    (mode : AccessType) : Prop where
  sctlr : sys.cp15.reg .sctlr ≠ -1
  enabled : sys.cp15.reg .sctlr &&& 0x1 ≠ 0
  contextidr : sys.cp15.reg .contextidr ≠ -1
  miss : lookup sys.mmu.table vaddr (currentAsid sys.cp15) = none →
    sys.cp15.reg (statusRegister mode) ≠ -1 ∧ sys.cp15.reg (addressRegister mode) ≠ -1 ∧
      ¬LastPage memory sys.cp15 vaddr

theorem read_faultRegisters (cp15 : Cp15) (mode : AccessType) :
    cp15.read (faultRegisters mode).1 = Cp15.shown (cp15.reg (statusRegister mode)) ∧
      cp15.read (faultRegisters mode).2 = Cp15.shown (cp15.reg (addressRegister mode)) := by
  cases mode <;> exact ⟨rfl, rfl⟩

theorem isSome_shown {value : Word} : (Cp15.shown value).isSome ↔ value ≠ -1 := by
  unfold Cp15.shown
  split <;> simp_all

theorem useLookup_eq_none {context : Byte} :
    useLookup sys vaddr context mode = none ↔ lookup sys.mmu.table vaddr context = none := by
  unfold useLookup
  cases hlookup : lookup sys.mmu.table vaddr context with
  | none => simp
  | some place =>
      obtain ⟨hlt, -⟩ := List.findIdx?_eq_some_iff_getElem.mp hlookup
      simp [List.getElem?_eq_getElem hlt]

/-- A use of a matching entry ends. -/
theorem useLookup_of_match {context : Byte}
    (hmatch : lookup sys.mmu.table vaddr context ≠ none) :
    ∃ next result, useLookup sys vaddr context mode = some (some (next, result)) := by
  obtain ⟨place, hplace⟩ := Option.ne_none_iff_exists'.mp hmatch
  obtain ⟨hlt, -⟩ := List.findIdx?_eq_some_iff_getElem.mp hplace
  unfold useLookup useEntry
  rw [hplace, Option.bind_some, List.getElem?_eq_getElem hlt, Option.map_some]
  dsimp only
  rw [recordFault_eq]
  split
  · exact ⟨_, _, rfl⟩
  · exact ⟨_, _, rfl⟩

/-- The result of an entry that is used is that of a fresh walk. -/
theorem result_of_useLookup (hsound : Sound memory sys) {context : Byte}
    {result outcome : Option Word}
    (huse : useLookup sys vaddr context mode = some (some (next, result)))
    (hfresh : freshTranslate memory sys.cp15 vaddr mode = some outcome) :
    result = outcome := by
  obtain ⟨entry, hentry, hmatch, hresult, -⟩ := useLookup_cases huse
  have hcovers := (TlbEntry.isMatch_iff.mp hmatch).2.2
  obtain ⟨walked, hwalk, hsame⟩ := hsound.faithful entry hentry vaddr hcovers
  rw [freshTranslate, hwalk, Option.map_some, Option.some.injEq] at hfresh
  have hdenied : denied entry mode = denied walked mode := by
    simp only [denied, hsame.bits, hsame.access, hsame.domain]
  rw [hresult, ← hfresh, hdenied, hsame.getPfn]
  cases denied walked mode <;> simp

/-- A translation that has ended was one that can. -/
theorem serviceable_of_translate {result : Option Word}
    (htranslate : translate memory sys vaddr mode = some (next, result)) :
    Serviceable memory sys vaddr mode := by
  obtain ⟨sctlr, contextidr, hsctlr, hon, hcontextidr, hcases⟩ :=
    translate_cases htranslate
  have hreads : Cp15.shown (sys.cp15.reg .sctlr) = some sctlr := hsctlr
  have hreadc : Cp15.shown (sys.cp15.reg .contextidr) = some contextidr := hcontextidr
  obtain ⟨hsctlr, rfl⟩ := Cp15.shown_eq_some.mp hreads
  obtain ⟨hcontextidr, rfl⟩ := Cp15.shown_eq_some.mp hreadc
  refine ⟨hsctlr, hon, hcontextidr, fun hmiss => ?_⟩
  rw [currentAsid] at hmiss
  obtain ⟨hstatus, haddress⟩ := read_faultRegisters sys.cp15 mode
  rcases hcases with huse | ⟨-, faults, entry, hwalk, hreads, hreada, hrest⟩
  · rw [useLookup_eq_none.mpr hmiss] at huse
    cases huse
  rw [hstatus] at hreads
  rw [haddress] at hreada
  refine ⟨isSome_shown.mp hreads, isSome_shown.mp hreada, ?_⟩
  rintro ⟨last, hlast, htop⟩
  rw [hlast, Option.some.injEq, Prod.mk.injEq] at hwalk
  obtain ⟨rfl, rfl⟩ := hwalk
  rcases hrest with ⟨hfault, -⟩ | ⟨-, table, hinsert, huse⟩
  · exact hfault rfl
  · -- the old entries do not match, and the new one covers no last page
    obtain ⟨found, hfound, hmatch, -⟩ := useLookup_cases huse
    rw [insert] at hinsert
    split at hinsert
    · cases hinsert
    rw [Option.some.injEq] at hinsert
    rw [← hinsert] at hfound
    rcases List.mem_cons.mp hfound with rfl | hold
    · have hcovers := (TlbEntry.isMatch_iff.mp hmatch).2.2
      have hpage := (pageTableWalk_page hlast).1
      have hbelow := ((hpage.covers_iff vaddr).mp hcovers).2
      omega
    · have hnone := List.findIdx?_eq_none_iff.mp hmiss found (List.dropLast_subset _ hold)
      rw [hmatch] at hnone
      cases hnone

/-- A translation that can end gives what a fresh walk gives. -/
theorem translate_of_serviceable (hsound : Sound memory sys) {outcome : Option Word}
    (hfresh : freshTranslate memory sys.cp15 vaddr mode = some outcome)
    (hserviceable : Serviceable memory sys vaddr mode) :
    ∃ next, translate memory sys vaddr mode = some (next, outcome) := by
  obtain ⟨hsctlr, hon, hcontextidr, hmiss⟩ := hserviceable
  have hreads : sys.cp15.read ⟨1, 0, 0, 0⟩ = some (sys.cp15.reg .sctlr) :=
    Cp15.shown_eq_some.mpr ⟨hsctlr, rfl⟩
  have hreadc : sys.cp15.read ⟨13, 0, 0, 1⟩ = some (sys.cp15.reg .contextidr) :=
    Cp15.shown_eq_some.mpr ⟨hcontextidr, rfl⟩
  have hasid : (sys.cp15.reg .contextidr &&& 0xFF).setWidth 8 = currentAsid sys.cp15 := rfl
  rw [translate, hreads, Option.bind_some, if_neg hon, hreadc, Option.bind_some]
  simp only [hasid]
  by_cases hlookup : lookup sys.mmu.table vaddr (currentAsid sys.cp15) = none
  swap
  · obtain ⟨next, result, huse⟩ : ∃ next result, useLookup sys vaddr
        (currentAsid sys.cp15) mode = some (some (next, result)) :=
      useLookup_of_match hlookup
    exact ⟨next, by rw [huse, result_of_useLookup hsound huse hfresh]⟩
  obtain ⟨hstatus, haddress, hlast⟩ := hmiss hlookup
  obtain ⟨hreadf, hreada⟩ := read_faultRegisters sys.cp15 mode
  rw [Cp15.shown, if_neg hstatus] at hreadf
  rw [Cp15.shown, if_neg haddress] at hreada
  obtain ⟨⟨faults, entry⟩, hwalk, houtcome⟩ := Option.map_eq_some_iff.mp hfresh
  simp only [useLookup_eq_none.mpr hlookup, hwalk, Option.bind_some, hreadf, hreada]
  by_cases hfault : faults = .noFault
  swap
  · rw [if_neg fun h => hfault h.1] at houtcome
    rw [if_neg hfault, recordFault_eq, Option.map_some, houtcome]
    exact ⟨_, rfl⟩
  subst hfault
  let inserted : TlbEntry :=
    { entry with asid := currentAsid sys.cp15, isGlobal := false, valid := true }
  have hinsert : MemorySystem.insert sys.mmu.table inserted =
      some (inserted :: sys.mmu.table.dropLast) := if_neg hsound.nonempty
  have hpage := (pageTableWalk_page hwalk).1
  have hcovers : entry.Covers vaddr := by
    refine (hpage.covers_iff vaddr).mpr ⟨rfl, ?_⟩
    by_contra htop
    exact hlast ⟨entry, hwalk, by omega⟩
  have hmatch : inserted.isMatch vaddr (currentAsid sys.cp15) = true :=
    TlbEntry.isMatch_iff.mpr ⟨rfl, rfl, hcovers⟩
  have hagain : lookup (inserted :: sys.mmu.table.dropLast) vaddr (currentAsid sys.cp15) ≠
      none := by
    intro hnone
    have hno := List.findIdx?_eq_none_iff.mp hnone inserted List.mem_cons_self
    rw [hmatch] at hno
    cases hno
  have hfaithful : Faithful memory sys.cp15 inserted :=
    (faithful_of_walk hwalk).samePage ⟨rfl, rfl, rfl, rfl, rfl, rfl⟩
  have hsound' := hsound.insert hfaithful hinsert
  obtain ⟨next, result, huse⟩ : ∃ next result, useLookup { sys with
      mmu := { sys.mmu with table := inserted :: sys.mmu.table.dropLast } } vaddr
      (currentAsid sys.cp15) mode = some (some (next, result)) :=
    useLookup_of_match hagain
  refine ⟨next, ?_⟩
  rw [if_pos rfl]
  change (MemorySystem.insert sys.mmu.table inserted).bind _ = _
  rw [hinsert, Option.bind_some]
  change (useLookup _ vaddr (currentAsid sys.cp15) mode).bind id = _
  rw [huse, Option.bind_some, result_of_useLookup hsound' huse hfresh]
  rfl

/-- In every state that a run reaches, a translation gives what a fresh walk and
the rule for writing give, for exactly the addresses and states it can serve. -/
theorem translate_matches_walk_iff (memory : Word → Option Word64)
    (start sys : MemorySystem) (hsize : start.mmu.table.length ≠ 0)
    (hnew : ∀ entry ∈ start.mmu.table, ∃ bits access domain,
      entry = .constructed bits access domain)
    (events : List TlbEvent) (hkeeps : ∀ event ∈ events, event.KeepsTables)
    (hrun : Guarded.exec (tlbStep memory) start events = some sys) (vaddr : Word)
    (mode : AccessType) (outcome : Option Word)
    (hfresh : freshTranslate memory sys.cp15 vaddr mode = some outcome) :
    (∃ next, translate memory sys vaddr mode = some (next, outcome)) ↔
      Serviceable memory sys vaddr mode := by
  have hsound := sound_of_run hsize hnew hkeeps hrun
  constructor
  · rintro ⟨next, htranslate⟩
    exact serviceable_of_translate htranslate
  · exact translate_of_serviceable hsound hfresh

/-- Tables of one section descriptor throughout, and a unit that has been enabled. -/
def sections : Word → Option Word64 := fun _ => some 0x00100C0200100C02

def twoEntries : MemorySystem where
  cp15 := (Cp15.constructed 0 fun _ => 0).store .sctlr 0x08C50079
  mmu := { active := true, table := [.constructed 12 0 0, .constructed 12 0 0] }

theorem twoEntries_new : ∀ entry ∈ twoEntries.mmu.table, ∃ bits access domain,
    entry = .constructed bits access domain := by
  intro entry hentry
  refine ⟨12, 0, 0, ?_⟩
  rcases List.mem_cons.mp hentry with rfl | hrest
  · rfl
  · exact List.mem_singleton.mp hrest

/-- Two translations in different address spaces, with an invalidation between. -/
def twoSpaces : List TlbEvent :=
  [.translate 0x1000 .read, .write ⟨13, 0, 0, 1⟩ 5, .write ⟨8, 7, 0, 0⟩ 0,
    .translate 0x23456 .write]

theorem translate_matches_walk_twoSpaces :
    ∃ sys, Guarded.exec (tlbStep sections) twoEntries twoSpaces = some sys ∧
      ∃ next, translate sections sys 0x23458 .read = some (next, some 0x123458) := by
  refine ⟨_, rfl, ?_⟩
  refine (translate_matches_walk_iff sections twoEntries _ (by decide) twoEntries_new
    twoSpaces ?_ rfl 0x23458 .read (some 0x123458) rfl).mpr ?_
  · simp [twoSpaces, TlbEvent.KeepsTables]
  · refine ⟨by decide, by decide, by decide, fun hmiss => ?_⟩
    exact absurd hmiss (by decide)

/-- The page tables map the last page, and its translation ends in an assertion. -/
theorem not_translate_matches_walk_lastPage :
    ¬∀ (memory : Word → Option Word64) (start sys : MemorySystem),
      start.mmu.table.length ≠ 0 →
      (∀ entry ∈ start.mmu.table, ∃ bits access domain,
        entry = .constructed bits access domain) →
      ∀ events : List TlbEvent, (∀ event ∈ events, event.KeepsTables) →
      Guarded.exec (tlbStep memory) start events = some sys →
      ∀ (vaddr : Word) (mode : AccessType) (outcome : Option Word),
      freshTranslate memory sys.cp15 vaddr mode = some outcome →
      ∃ next, translate memory sys vaddr mode = some (next, outcome) := by
  intro hclaim
  obtain ⟨next, hnext⟩ := hclaim sections twoEntries twoEntries (by decide)
    twoEntries_new [] (fun _ h => absurd h List.not_mem_nil) rfl 0xFFFFFFF0 .read
    (some 0x1FFFF0) rfl
  have hnone : translate sections twoEntries 0xFFFFFFF0 .read = none := rfl
  rw [hnone] at hnext
  cases hnext

end MemorySystem

end Prazor.Arm
