import Prazor.Memory.ElfLoading

/-!
# The memory after an ELF file is loaded

The bytes that a program header describes hold what the file has for them, the other bytes of an
`SHT_NOBITS` section hold zero, and the rest of the memory is as it was.
-/

namespace Prazor.Memory.Elf

open Prazor.Assignments

variable {config : MemoryConfig} {l : File} {bigEndian : Bool} {image : Image}
  {s : Loaded} {pages : Pages}

/-- A program header describes the byte at an address. -/
def Segment.Covers (segment : Segment) (address : ℕ) : Prop :=
  segment.pPaddr ≤ address ∧ address < segment.pPaddr + segment.bytes.length

/-- The byte at an address is in a section that is cleared. -/
def Section.Covers (area : Section) (address : ℕ) : Prop :=
  area.clears ∧ area.shAddr ≤ address ∧ address < area.shAddr + area.shSize

/-- Program headers describe the same bytes where they overlap. -/
def Image.Agrees (image : Image) : Prop :=
  ∀ first ∈ image.segments, ∀ second ∈ image.segments,
    ∀ i < first.bytes.length, ∀ j < second.bytes.length,
      first.pPaddr + i = second.pPaddr + j → first.bytes[i]? = second.bytes[j]?

instance decidableAgrees (image : Image) : Decidable image.Agrees :=
  inferInstanceAs (Decidable (∀ first ∈ image.segments, ∀ second ∈ image.segments,
    ∀ i < first.bytes.length, ∀ j < second.bytes.length, _))

/-- What loading an image leaves in the memory. -/
structure Leaves (config : MemoryConfig) (image : Image) (before after : Pages) : Prop where
  segments : ∀ segment ∈ image.segments, ∀ k (hk : k < segment.bytes.length),
    after.byte (place config image.bigEndian (segment.pPaddr + k)) = some segment.bytes[k]
  sections : ∀ area ∈ image.sections, ∀ address, area.Covers address →
    (∀ segment ∈ image.segments, ¬segment.Covers address) →
      after.byte (place config image.bigEndian address) = some 0
  others : ∀ x stored,
    (∀ address, (∃ segment ∈ image.segments, segment.Covers address) ∨
        (∃ area ∈ image.sections, area.Covers address) →
      x ≠ place config image.bigEndian address) →
    Holds config.newPage before x stored → Holds config.newPage after x stored

/-! ## One write -/

theorem xor_and_distrib (a b mask : Word64) :
    (a ^^^ b) &&& mask = (a &&& mask) ^^^ (b &&& mask) := by
  apply BitVec.eq_of_getLsbD_eq
  intro i hi
  simp only [BitVec.getLsbD_and, BitVec.getLsbD_xor, Bool.and_xor_distrib_right]

/-- A write with `es` goes to the other end of its doubleword. -/
theorem ipWriteSwapped_eq (newPage : Word64 → Buffer) (pages : Pages) (a : Word64) (d : Byte)
    (es : Bool) :
    ipWriteSwapped newPage pages a d es = ipWrite8 newPage pages (lane es a) d := by
  cases es with
  | false =>
      rw [ipWriteSwapped, ipWrite8, if_neg Bool.false_ne_true, Nat.xor_zero]
      rfl
  | true =>
      have hmask : (7 : Word64) &&& ~~~0xFFF = 0 := by decide
      have hlow : (7 : Word64) &&& 0xFFF = 7 := by decide
      have hbase : pageBase (a ^^^ 7) = pageBase a := by
        rw [pageBase, xor_and_distrib, hmask]
        exact BitVec.xor_zero
      have hoffset : pageOffset (a ^^^ 7) = pageOffset a ^^^ 7 := by
        rw [pageOffset, xor_and_distrib, hlow, BitVec.toNat_xor]
        rfl
      rw [ipWriteSwapped, ipWrite8, lane, if_pos rfl, if_pos rfl, pageForWrite, pageForWrite,
        hbase, hoffset]

theorem lane_injective (bigEndian : Bool) : Function.Injective (lane bigEndian) := by
  intro a b heq
  cases bigEndian with
  | false => exact heq
  | true => exact (BitVec.xor_left_inj 7).mp heq

/-- The assignments of bytes that writes come to. -/
def assignments (bigEndian : Bool) (writes : List (ℕ × Byte)) : List (Word64 × Option Byte) :=
  writes.map fun write => (lane bigEndian (BitVec.ofNat 64 write.1), some write.2)

theorem holds_writes {f : Word64 → Option Byte} {x : Word64} (writes : List (ℕ × Byte))
    (hholds : Holds config.newPage s.pages x (f x)) :
    Holds config.newPage (writes.foldl (Loaded.put config bigEndian) s).pages x
      (assignAll f (assignments bigEndian writes) x) := by
  induction writes generalizing f s with
  | nil => exact hholds
  | cons write writes ih =>
      rw [List.foldl_cons, assignments, List.map_cons, assignAll_cons]
      apply ih
      rw [Loaded.put, ipWriteSwapped_eq, Function.update_apply]
      exact holds_ipWrite8 hholds

theorem holds_byte (newPage : Word64 → Buffer) (pages : Pages) (x : Word64) :
    Holds newPage pages x (pages.byte x) := by
  cases hbyte : pages.byte x with
  | none => exact .inl hbyte
  | some data => exact hbyte

/-! ## Addresses -/

theorem Inside.below {address length k : ℕ} (hinside : Inside config address length)
    (hk : k < length) : config.memBase.toNat ≤ address + k ∧
      offsetOf config (address + k) < 2 ^ 64 :=
  ⟨hinside.base_le hk, (hinside.offset_lt hk).trans config.memSizeBytes.isLt⟩

theorem place_eq {address : ℕ} (hbase : config.memBase.toNat ≤ address) :
    lane bigEndian (BitVec.ofNat 64 (offsetOf config address)) =
      place config bigEndian address := by
  have hsum := ofNat_offset 64 (k := 0) hbase
  have hself : config.memBase = BitVec.ofNat 64 config.memBase.toNat := by
    rw [BitVec.ofNat_toNat, BitVec.setWidth_eq]
  rw [← hself, Nat.add_zero] at hsum
  rw [place, offsetOf, ← hsum]
  congr 2
  exact BitVec.zero_add _

/-- Different addresses in the memory have different places. -/
theorem place_injective {a b : ℕ}
    (ha : config.memBase.toNat ≤ a ∧ offsetOf config a < 2 ^ 64)
    (hb : config.memBase.toNat ≤ b ∧ offsetOf config b < 2 ^ 64)
    (heq : place config bigEndian a = place config bigEndian b) : a = b := by
  rw [← place_eq ha.1, ← place_eq hb.1] at heq
  have hoffsets := congrArg BitVec.toNat (lane_injective bigEndian heq)
  rw [BitVec.toNat_ofNat, BitVec.toNat_ofNat, Nat.mod_eq_of_lt ha.2, Nat.mod_eq_of_lt hb.2,
    offsetOf, offsetOf] at hoffsets
  have hbelow := ha.1
  have hbelow' := hb.1
  omega

/-- What the copies of program headers assign. -/
theorem mem_copies (hfits : Fits config image) {write : Word64 × Option Byte} :
    write ∈ assignments bigEndian (image.segments.flatMap (Segment.writes config)) ↔
      ∃ segment ∈ image.segments, ∃ k, ∃ hk : k < segment.bytes.length,
        write = (place config bigEndian (segment.pPaddr + k), some segment.bytes[k]) := by
  simp only [assignments, List.mem_map, List.mem_flatMap, Segment.writes, List.mem_mapIdx]
  constructor
  · rintro ⟨_, ⟨segment, hsegment, k, hk, rfl⟩, rfl⟩
    have hplace := @place_eq config bigEndian _ ((hfits.segments segment hsegment).base_le hk)
    exact ⟨segment, hsegment, k, hk, Prod.ext hplace rfl⟩
  · rintro ⟨segment, hsegment, k, hk, rfl⟩
    have hplace := @place_eq config bigEndian _ ((hfits.segments segment hsegment).base_le hk)
    exact ⟨_, ⟨segment, hsegment, k, hk, rfl⟩, Prod.ext hplace rfl⟩

/-- What the clearing of sections assigns. -/
theorem mem_clears (hfits : Fits config image) {write : Word64 × Option Byte} :
    write ∈ assignments bigEndian (image.sections.flatMap (Section.writes config)) ↔
      ∃ area ∈ image.sections, area.clears ∧ ∃ k < area.shSize,
        write = (place config bigEndian (area.shAddr + k), some 0) := by
  simp only [assignments, List.mem_map, List.mem_flatMap]
  constructor
  · rintro ⟨write, ⟨area, hsection, hwrite⟩, rfl⟩
    by_cases hclears : area.clears
    · rw [Section.writes, if_pos hclears, List.mem_map] at hwrite
      obtain ⟨k, hk, rfl⟩ := hwrite
      have hk' := List.mem_range.mp hk
      have hplace := @place_eq config bigEndian _
        ((hfits.sections area hsection hclears).base_le hk')
      exact ⟨area, hsection, hclears, k, hk', Prod.ext hplace rfl⟩
    · rw [Section.writes, if_neg hclears] at hwrite
      exact absurd hwrite List.not_mem_nil
  · rintro ⟨area, hsection, hclears, k, hk, rfl⟩
    have hplace := @place_eq config bigEndian _
      ((hfits.sections area hsection hclears).base_le hk)
    refine ⟨(offsetOf config (area.shAddr + k), 0), ⟨area, hsection, ?_⟩,
      Prod.ext hplace rfl⟩
    rw [Section.writes, if_pos hclears]
    exact List.mem_map_of_mem (List.mem_range.mpr hk)

/-! ## All writes -/

theorem holds_loaded {f : Word64 → Option Byte} {x : Word64}
    (hholds : Holds config.newPage pages x (f x)) :
    Holds config.newPage (image.loaded config pages).pages x
      (assignAll (assignAll f (assignments image.bigEndian
          (image.sections.flatMap (Section.writes config))))
        (assignments image.bigEndian (image.segments.flatMap (Segment.writes config))) x) := by
  rw [← assignAll_append, assignments, assignments, ← List.map_append]
  exact holds_writes _ hholds

/-- A byte that is known to be written holds what was written. -/
theorem byte_loaded {x : Word64} {data : Byte} (hwritten : ∀ f : Word64 → Option Byte,
      assignAll (assignAll f (assignments image.bigEndian
          (image.sections.flatMap (Section.writes config))))
        (assignments image.bigEndian (image.segments.flatMap (Segment.writes config))) x =
      some data) :
    (image.loaded config pages).pages.byte x = some data := by
  have hholds := @holds_loaded config image pages _ x (holds_byte config.newPage pages x)
  rw [hwritten] at hholds
  exact hholds

theorem leaves_loaded (hfits : Fits config image) (hagrees : image.Agrees) (pages : Pages) :
    Leaves config image pages (image.loaded config pages).pages where
  segments segment hsegment k hk := by
    apply byte_loaded
    intro f
    apply assignAll_of_agree
    · exact List.mem_map_of_mem ((mem_copies hfits).mpr ⟨segment, hsegment, k, hk, rfl⟩)
    · intro write hwrite hkey
      obtain ⟨other, hother, j, hj, rfl⟩ := (mem_copies hfits).mp hwrite
      have hsame := place_injective ((hfits.segments other hother).below hj)
        ((hfits.segments segment hsegment).below hk) hkey
      have hbytes := hagrees other hother segment hsegment j hj k hk hsame
      rw [List.getElem?_eq_getElem hj, List.getElem?_eq_getElem hk] at hbytes
      exact hbytes
  sections area hsection address hcovers hfree := by
    obtain ⟨hclears, hle, hlt⟩ := hcovers
    obtain ⟨k, rfl⟩ := Nat.exists_eq_add_of_le hle
    have hk : k < area.shSize := by omega
    have hbelow := (hfits.sections area hsection hclears).below hk
    apply byte_loaded
    intro f
    rw [assignAll_of_notMem]
    · apply assignAll_of_agree
      · exact List.mem_map_of_mem ((mem_clears hfits).mpr ⟨area, hsection, hclears, k, hk, rfl⟩)
      · intro write hwrite _
        obtain ⟨_, _, _, _, _, rfl⟩ := (mem_clears hfits).mp hwrite
        rfl
    · intro hmem
      obtain ⟨write, hwrite, hkey⟩ := List.mem_map.mp hmem
      obtain ⟨segment, hsegment, j, hj, rfl⟩ := (mem_copies hfits).mp hwrite
      have hsame := place_injective ((hfits.segments segment hsegment).below hj) hbelow hkey
      exact hfree segment hsegment ⟨by omega, by omega⟩
  others x stored hfree hholds := by
    have hkept := @holds_loaded config image pages (fun _ => stored) x hholds
    rw [assignAll_of_notMem, assignAll_of_notMem] at hkept
    · exact hkept
    · intro hmem
      obtain ⟨write, hwrite, rfl⟩ := List.mem_map.mp hmem
      obtain ⟨area, hsection, hclears, k, hk, rfl⟩ := (mem_clears hfits).mp hwrite
      apply hfree (area.shAddr + k) _ rfl
      exact .inr ⟨area, hsection, hclears, Nat.le_add_right _ _, Nat.add_lt_add_left hk _⟩
    · intro hmem
      obtain ⟨write, hwrite, rfl⟩ := List.mem_map.mp hmem
      obtain ⟨segment, hsegment, k, hk, rfl⟩ := (mem_copies hfits).mp hwrite
      apply hfree (segment.pPaddr + k) _ rfl
      exact .inl ⟨segment, hsegment, Nat.le_add_right _ _, Nat.add_lt_add_left hk _⟩

/-- A file of either class and byte order is loaded as its image says: the bytes of its program
headers are in the memory, the rest of the sections of type `SHT_NOBITS` is zero, and the rest of
the memory is as it was.  Files of both classes with one image are loaded alike. -/
theorem reader_loads (config : MemoryConfig) (image : Image) (pages : Pages)
    (hfits : Fits config image) (hagrees : image.Agrees) :
    Leaves config image pages (image.reading config pages).pages ∧
      ∀ fileClass l, Encodes fileClass l image → Suits config l image fileClass →
        reader config l false pages = .ok (image.reading config pages) := by
  constructor
  · exact leaves_loaded hfits hagrees pages
  · intro fileClass l hencodes hsuits
    exact reader_eq hencodes hfits hsuits

/-! ## Small files -/

/-- The bytes of a header with some of its fields. -/
def headerBytes (bigEndian : Bool) (size : ℕ) (fields : List (Field × ℕ)) : List Byte :=
  (List.range size).map fun i =>
    match fields.find? fun field =>
        field.1.offset ≤ i ∧ i < field.1.offset + field.1.width with
    | some (field, value) => numberByte bigEndian field.width value (i - field.offset)
    | none => 0

/-- A file with one program header and perhaps a section. -/
def singleFile (fileClass : FileClass) (bigEndian : Bool) (segment : Segment)
    (sections : List Section) : File :=
  let layout := fileClass.layout
  let size := match fileClass with
    | .elf32 => 52
    | .elf64 => 64
  let shoff := size + layout.phdrSize
  let contents := shoff + layout.shdrSize * sections.length
  [0x7F, 0x45, 0x4C, 0x46, layout.eiClass, if bigEndian then 2 else 1] ++
    (headerBytes bigEndian size [(layout.ePhoff, size), (layout.eShoff, shoff),
      (layout.ePhnum, 1), (layout.eShnum, sections.length)]).drop 6 ++
    headerBytes bigEndian layout.phdrSize [(layout.pType, segment.pType),
      (layout.pOffset, contents), (layout.pVaddr, segment.pVaddr),
      (layout.pPaddr, segment.pPaddr), (layout.pFilesz, segment.bytes.length),
      (layout.pMemsz, segment.pMemsz)] ++
    sections.flatMap (fun area => headerBytes bigEndian layout.shdrSize
      [(layout.shType, area.shType), (layout.shAddr, area.shAddr),
        (layout.shSize, area.shSize)]) ++
    segment.bytes

def singleImage (bigEndian : Bool) (segment : Segment) (sections : List Section) : Image where
  bigEndian := bigEndian
  entry := 0
  segments := [segment]
  sections := sections

/-- What `Encodes` asks of a file with one program header, its places being known. -/
theorem encodes_single {fileClass : FileClass} {segment : Segment} {sections : List Section}
    (phoff shoff pOffset : ℕ)
    (hhead : l.take 6 = [0x7F, 0x45, 0x4C, 0x46, fileClass.layout.eiClass,
        if bigEndian then 2 else 1] ∧
      l.length < 2 ^ 63 ∧
      fileClass.layout.eEntry.Is l bigEndian 0 0 ∧
      fileClass.layout.ePhnum.Is l bigEndian 0 1 ∧
      fileClass.layout.eShnum.Is l bigEndian 0 sections.length ∧
      fileClass.layout.ePhoff.Is l bigEndian 0 phoff ∧
      fileClass.layout.eShoff.Is l bigEndian 0 shoff)
    (hsegment : fileClass.layout.pType.Is l bigEndian phoff segment.pType ∧
      fileClass.layout.pVaddr.Is l bigEndian phoff segment.pVaddr ∧
      fileClass.layout.pPaddr.Is l bigEndian phoff segment.pPaddr ∧
      fileClass.layout.pFilesz.Is l bigEndian phoff segment.bytes.length ∧
      fileClass.layout.pMemsz.Is l bigEndian phoff segment.pMemsz ∧
      fileClass.layout.pOffset.Is l bigEndian phoff pOffset ∧
      ∀ k < segment.bytes.length, l[pOffset + k]? = segment.bytes[k]?)
    (hsections : ∀ i (hi : i < sections.length),
      fileClass.layout.shType.Is l bigEndian (shoff + fileClass.layout.shdrSize * i)
        sections[i].shType ∧
      fileClass.layout.shAddr.Is l bigEndian (shoff + fileClass.layout.shdrSize * i)
        sections[i].shAddr ∧
      fileClass.layout.shSize.Is l bigEndian (shoff + fileClass.layout.shdrSize * i)
        sections[i].shSize) :
    Encodes fileClass l (singleImage bigEndian segment sections) := by
  obtain ⟨hident, hsize, hentry, hphnum, hshnum, hphoff, hshoff⟩ := hhead
  obtain ⟨htype, hvaddr, hpaddr, hfilesz, hmemsz, hoffset, hbytes⟩ := hsegment
  have hheader : IsSegment fileClass.layout l bigEndian phoff segment :=
    ⟨htype, hvaddr, hpaddr, hfilesz, hmemsz, pOffset, hoffset, hbytes⟩
  refine ⟨hident, hsize, hentry, hphnum, hshnum, ⟨phoff, hphoff, ?_⟩, ⟨shoff, hshoff, ?_⟩⟩
  · intro i hi
    obtain rfl := Nat.lt_one_iff.mp hi
    exact hheader
  · intro i hi
    obtain ⟨htype, haddr, hsize⟩ := hsections i hi
    exact ⟨htype, haddr, hsize⟩

/-- A memory of one page, in which `new` leaves `0xAA`. -/
def onePage : MemoryConfig where
  memBase := 0
  memSizeBytes := 4096
  newPage := fun _ _ => 0xAA

/-- A program with two bytes in the file and a section behind them that is cleared. -/
def program : Segment where
  pType := 1
  pVaddr := 16
  pPaddr := 16
  pMemsz := 4
  bytes := [0x12, 0x34]

def bss : Section where
  shType := 8
  shAddr := 18
  shSize := 2

set_option maxRecDepth 4000 in
theorem encodes_program32 :
    Encodes .elf32 (singleFile .elf32 true program [bss]) (singleImage true program [bss]) :=
  encodes_single 52 84 124 (by decide) (by decide) (by decide)

set_option maxRecDepth 4000 in
theorem encodes_program64 :
    Encodes .elf64 (singleFile .elf64 true program [bss]) (singleImage true program [bss]) :=
  encodes_single 64 120 184 (by decide) (by decide) (by decide)

set_option maxRecDepth 4000 in
/-- A program of 32 bits and the same program of 64 bits. -/
theorem reader_loads_program :
    Leaves onePage (singleImage true program [bss]) (fun _ => none)
        ((singleImage true program [bss]).reading onePage fun _ => none).pages ∧
      reader onePage (singleFile .elf32 true program [bss]) false (fun _ => none) =
        .ok ((singleImage true program [bss]).reading onePage fun _ => none) ∧
      reader onePage (singleFile .elf64 true program [bss]) false (fun _ => none) =
        .ok ((singleImage true program [bss]).reading onePage fun _ => none) := by
  have hfits : Fits onePage (singleImage true program [bss]) := {
    segments := by decide
    sections := by decide }
  have hagrees : (singleImage true program [bss]).Agrees := by decide
  obtain ⟨hleaves, hread⟩ := reader_loads onePage _ (fun _ => none) hfits hagrees
  have hsuits32 : Suits onePage (singleFile .elf32 true program [bss])
      (singleImage true program [bss]) .elf32 := by
    constructor <;> decide
  have hsuits64 : Suits onePage (singleFile .elf64 true program [bss])
      (singleImage true program [bss]) .elf64 := by
    intro segment hsegment
    obtain rfl := List.mem_singleton.mp hsegment
    exact ⟨by decide, fun _ => rfl⟩
  exact ⟨hleaves, hread .elf32 _ encodes_program32 hsuits32,
    hread .elf64 _ encodes_program64 hsuits64⟩

/-! ## What the reader does not look at -/

/-- `PT_LOAD` -/
def Segment.loadable (segment : Segment) : Prop := segment.pType = 1

/-- An address is in the part of the memory that a program header asks for. -/
def Segment.Reserves (segment : Segment) (address : ℕ) : Prop :=
  segment.pPaddr ≤ address ∧ address < segment.pPaddr + segment.pMemsz

/-- The memory after a program is loaded by its headers of type `PT_LOAD` alone. -/
structure LoadsSegments (config : MemoryConfig) (image : Image) (before after : Pages) :
    Prop where
  file : ∀ segment ∈ image.segments, segment.loadable →
    ∀ k (hk : k < segment.bytes.length),
      after.byte (place config image.bigEndian (segment.pPaddr + k)) = some segment.bytes[k]
  zero : ∀ segment ∈ image.segments, segment.loadable → ∀ address, segment.Reserves address →
    ¬segment.Covers address → after.byte (place config image.bigEndian address) = some 0
  others : ∀ x stored,
    (∀ segment ∈ image.segments, segment.loadable → ∀ address,
      segment.Reserves address → x ≠ place config image.bigEndian address) →
    Holds config.newPage before x stored → Holds config.newPage after x stored

/-- The programs for which the reader is expected to do so: those that ask for disjoint parts of
the memory. -/
structure WellFormed (config : MemoryConfig) (image : Image) : Prop where
  filesz : ∀ segment ∈ image.segments, segment.bytes.length ≤ segment.pMemsz
  inside : ∀ segment ∈ image.segments, segment.loadable →
    Inside config segment.pPaddr segment.pMemsz
  disjoint : image.segments.Pairwise fun first second => first.loadable → second.loadable →
    ∀ address, first.Reserves address → ¬second.Reserves address

/-- The reader does so for a file. -/
def LoadedBySegments (fileClass : FileClass) (config : MemoryConfig) (l : File) (image : Image)
    (pages : Pages) : Prop :=
  Encodes fileClass l image → WellFormed config image →
    ∃ reading, reader config l false pages = .ok reading ∧
      LoadsSegments config image pages reading.pages

/-- Memory behind the bytes of the file, without a section. -/
def unclearedProgram : Segment := { program with pMemsz := 3 }

/-- A header of type `PT_NOTE`. -/
def noteProgram : Segment := { program with pType := 4, pMemsz := 2 }

/-- A program that is loaded at another address than it runs at. -/
def movedProgram : Segment := { program with pVaddr := 32, pMemsz := 2 }

theorem wellFormed_single {segment : Segment} {sections : List Section}
    (hfilesz : segment.bytes.length ≤ segment.pMemsz)
    (hinside : Inside config segment.pPaddr segment.pMemsz) :
    WellFormed config (singleImage bigEndian segment sections) where
  filesz other hother := by
    obtain rfl := List.mem_singleton.mp hother
    exact hfilesz
  inside other hother _ := by
    obtain rfl := List.mem_singleton.mp hother
    exact hinside
  disjoint := List.pairwise_singleton _ _

set_option maxRecDepth 4000 in
/-- Memory that is asked for is not cleared where no section says so, program headers of every type
are copied, and the second branch copies to `p_vaddr`. -/
theorem not_loadedBySegments :
    ¬LoadedBySegments .elf32 onePage (singleFile .elf32 false unclearedProgram [])
        (singleImage false unclearedProgram []) (fun _ => none) ∧
      ¬LoadedBySegments .elf32 onePage (singleFile .elf32 false noteProgram [])
        (singleImage false noteProgram []) (fun _ => none) ∧
      ¬LoadedBySegments .elf64 onePage (singleFile .elf64 false movedProgram [])
        (singleImage false movedProgram []) (fun _ => none) := by
  refine ⟨fun hclaim => ?_, fun hclaim => ?_, fun hclaim => ?_⟩
  · obtain ⟨reading, hreading, hloads⟩ := hclaim
      (encodes_single 52 84 84 (by decide) (by decide) (by decide))
      (wellFormed_single (by decide) (by decide))
    have hbyte : (reader onePage (singleFile .elf32 false unclearedProgram []) false
        fun _ => none).toOption.bind (fun reading => reading.pages.byte 18) = some 0xAA := by
      decide
    have hzero := hloads.zero _ (List.mem_singleton_self _) rfl 18 ⟨by decide, by decide⟩
      fun hcovers => absurd hcovers.2 (by decide)
    rw [hreading] at hbyte
    exact absurd (hzero.symm.trans hbyte) (by decide)
  · obtain ⟨reading, hreading, hloads⟩ := hclaim
      (encodes_single 52 84 84 (by decide) (by decide) (by decide))
      (wellFormed_single (by decide) (by decide))
    have hbyte : (reader onePage (singleFile .elf32 false noteProgram []) false
        fun _ => none).toOption.bind (fun reading => reading.pages.byte 16) = some 0x12 := by
      decide
    have hkept := hloads.others 16 none (fun segment hsegment hloadable => by
      obtain rfl := List.mem_singleton.mp hsegment
      exact absurd (show (4 : ℕ) = 1 from hloadable) (by decide)) (.inl rfl)
    rw [hreading] at hbyte
    obtain hnone | hnew := hkept
    · exact absurd (hnone.symm.trans hbyte) (by decide)
    · exact absurd (hnew.symm.trans hbyte) (by decide)
  · obtain ⟨reading, hreading, hloads⟩ := hclaim
      (encodes_single 64 120 120 (by decide) (by decide) (by decide))
      (wellFormed_single (by decide) (by decide))
    have hbyte : (reader onePage (singleFile .elf64 false movedProgram []) false
        fun _ => none).toOption.bind (fun reading => reading.pages.byte 16) = some 0xAA := by
      decide
    have hfile := hloads.file _ (List.mem_singleton_self _) rfl 0 (by decide)
    rw [hreading] at hbyte
    exact absurd (hfile.symm.trans hbyte) (by decide)

end Prazor.Memory.Elf
