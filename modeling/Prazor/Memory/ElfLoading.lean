import Prazor.Core.Assignments
import Prazor.Memory.ElfImage
import Prazor.Memory.SparsePages

/-!
# What loading an ELF image leaves in the memory

Both branches of the reader write the same bytes in the same order: zeros where sections are
`SHT_NOBITS`, then the bytes of every program header, whatever its type.  The last write of a
byte is what the memory holds.
-/

namespace Prazor.Memory.Elf

open Prazor.Assignments

variable {config : MemoryConfig} {l : File} {bigEndian : Bool} {image : Image}
  {s : Loaded} {pages : Pages}

/-! ## The writes of an image -/

/-- The place in a doubleword of a byte that is written with `es`. -/
def lane (bigEndian : Bool) (a : Word64) : Word64 := if bigEndian then a ^^^ 7 else a

/-- Where a byte of an image is held. -/
def place (config : MemoryConfig) (bigEndian : Bool) (address : ℕ) : Word64 :=
  lane bigEndian (BitVec.ofNat 64 address - config.memBase)

/-- The offset in the memory of an address. -/
def offsetOf (config : MemoryConfig) (address : ℕ) : ℕ := address - config.memBase.toNat

/-- The bytes from an address on lie in the memory. -/
def Inside (config : MemoryConfig) (address length : ℕ) : Prop :=
  length = 0 ∨ config.memBase.toNat ≤ address ∧
    address + length ≤ config.memBase.toNat + config.memSizeBytes.toNat

instance decidableInside (config : MemoryConfig) (address length : ℕ) :
    Decidable (Inside config address length) :=
  inferInstanceAs (Decidable (_ ∨ _))

/-- A write of a byte at an offset. -/
def Loaded.put (config : MemoryConfig) (bigEndian : Bool) (s : Loaded) (write : ℕ × Byte) :
    Loaded where
  pages := ipWriteSwapped config.newPage s.pages (BitVec.ofNat 64 write.1) write.2 bigEndian
  hwm :=
    if s.hwm.signExtend 64 < BitVec.ofNat 64 write.1 then BitVec.ofNat 32 write.1 else s.hwm

/-- The section is cleared. -/
def Section.clears (area : Section) : Prop := area.shType = 8

instance decidableClears (area : Section) : Decidable area.clears :=
  inferInstanceAs (Decidable (_ = _))

def Section.writes (config : MemoryConfig) (area : Section) : List (ℕ × Byte) :=
  if area.clears then
    (List.range area.shSize).map fun k => (offsetOf config (area.shAddr + k), 0)
  else []

def Segment.writes (config : MemoryConfig) (segment : Segment) : List (ℕ × Byte) :=
  segment.bytes.mapIdx fun k data => (offsetOf config (segment.pPaddr + k), data)

/-- The writes of the reader, in their order. -/
def Image.writes (config : MemoryConfig) (image : Image) : List (ℕ × Byte) :=
  image.sections.flatMap (Section.writes config) ++
    image.segments.flatMap (Segment.writes config)

/-! ## Offsets -/

theorem ofNat_offset (width : ℕ) {address k base : ℕ} (hbase : base ≤ address + k) :
    BitVec.ofNat width k + BitVec.ofNat width address - BitVec.ofNat width base =
      BitVec.ofNat width (address + k - base) := by
  have hsum : BitVec.ofNat width (address + k) =
      BitVec.ofNat width (address + k - base) + BitVec.ofNat width base := by
    rw [← BitVec.ofNat_add, Nat.sub_add_cancel hbase]
  rw [← BitVec.ofNat_add, Nat.add_comm k, hsum, BitVec.add_sub_cancel]

theorem setWidth_eq_ofNat (base : Word64) : base.setWidth 32 = BitVec.ofNat 32 base.toNat := by
  apply BitVec.eq_of_toNat_eq
  rw [BitVec.toNat_setWidth, BitVec.toNat_ofNat]

theorem signExtend_ofNat {n : ℕ} (hn : n < 2 ^ 31) :
    (BitVec.ofNat 32 n).signExtend 64 = BitVec.ofNat 64 n := by
  have hmsb : (BitVec.ofNat 32 n).msb = false := by
    rw [BitVec.msb_eq_false_iff_two_mul_lt, BitVec.toNat_ofNat]
    omega
  rw [BitVec.signExtend_eq_setWidth_of_msb_false hmsb]
  apply BitVec.eq_of_toNat_eq
  rw [BitVec.toNat_setWidth, BitVec.toNat_ofNat, BitVec.toNat_ofNat]
  omega

theorem toInt_ofNat {n : ℕ} (hn : n < 2 ^ 31) : (BitVec.ofNat 32 n).toInt = n := by
  rw [BitVec.toInt_eq_toNat_of_lt (by rw [BitVec.toNat_ofNat]; omega), BitVec.toNat_ofNat,
    Nat.mod_eq_of_lt (by omega)]

theorem slt_zero_ofNat {n : ℕ} (hn : n < 2 ^ 31) : (BitVec.ofNat 32 n).slt 0 = false := by
  have hzero : (0 : BitVec 32).toInt = 0 := rfl
  rw [BitVec.slt, toInt_ofNat hn, hzero, decide_eq_false_iff_not]
  omega

/-- Where `hwm` is not negative, both branches compare it in the same way. -/
theorem slt_eq_lt {hwm : BitVec 32} {n : ℕ} (hhwm : hwm.toNat < 2 ^ 31) (hn : n < 2 ^ 31) :
    hwm.slt (BitVec.ofNat 32 n) = decide (hwm.signExtend 64 < BitVec.ofNat 64 n) := by
  have hself : hwm = BitVec.ofNat 32 hwm.toNat := by rw [BitVec.ofNat_toNat, BitVec.setWidth_eq]
  have hcompare : (hwm.toNat : ℤ) < n ↔ BitVec.ofNat 64 hwm.toNat < BitVec.ofNat 64 n := by
    rw [BitVec.lt_def, BitVec.toNat_ofNat, BitVec.toNat_ofNat, Nat.mod_eq_of_lt (by omega),
      Nat.mod_eq_of_lt (by omega), Nat.cast_lt]
  rw [hself, BitVec.slt, toInt_ofNat hhwm, toInt_ofNat hn, signExtend_ofNat hhwm]
  exact decide_eq_decide.mpr hcompare

/-- `hwm` is not negative. -/
def Loaded.NotNegative (s : Loaded) : Prop := s.hwm.toNat < 2 ^ 31

theorem Loaded.NotNegative.put {write : ℕ × Byte} (hs : s.NotNegative)
    (hwrite : write.1 < 2 ^ 31) : (s.put config bigEndian write).NotNegative := by
  have hoffset : (BitVec.ofNat 32 write.1).toNat < 2 ^ 31 := by
    rw [BitVec.toNat_ofNat]
    omega
  unfold Loaded.NotNegative Loaded.put
  split
  · exact hoffset
  · exact hs

/-- A write at an `int` that is not negative. -/
theorem put_eq_int {n : ℕ} {data : Byte} (hs : s.NotNegative) (hn : n < 2 ^ 31) :
    (⟨ipWriteSwapped config.newPage s.pages ((BitVec.ofNat 32 n).signExtend 64) data bigEndian,
      if s.hwm.slt (BitVec.ofNat 32 n) then BitVec.ofNat 32 n else s.hwm⟩ : Loaded) =
      s.put config bigEndian (n, data) := by
  simp only [Loaded.put, signExtend_ofNat hn, slt_eq_lt hs hn, decide_eq_true_eq]

theorem put_eq_u64 {n : ℕ} {data : Byte} :
    (⟨ipWriteSwapped config.newPage s.pages (BitVec.ofNat 64 n) data bigEndian,
      if s.hwm.signExtend 64 < BitVec.ofNat 64 n then (BitVec.ofNat 64 n).setWidth 32
      else s.hwm⟩ : Loaded) = s.put config bigEndian (n, data) := by
  have hwidth : (BitVec.ofNat 64 n).setWidth 32 = BitVec.ofNat 32 n := by
    apply BitVec.eq_of_toNat_eq
    rw [BitVec.toNat_setWidth, BitVec.toNat_ofNat, BitVec.toNat_ofNat]
    omega
  rw [hwidth]
  rfl

/-! ## The loops -/

theorem getElem_segment_writes (config : MemoryConfig) {segment : Segment} {k : ℕ}
    (hk : k < segment.bytes.length) (hk' : k < (segment.writes config).length) :
    (segment.writes config)[k] = (offsetOf config (segment.pPaddr + k), segment.bytes[k]) :=
  List.getElem_mapIdx

theorem length_segment_writes (config : MemoryConfig) (segment : Segment) :
    (segment.writes config).length = segment.bytes.length :=
  List.length_mapIdx

theorem length_section_writes (config : MemoryConfig) {area : Section}
    (hclears : area.clears) :
    (area.writes config).length = area.shSize := by
  rw [Section.writes, if_pos hclears, List.length_map, List.length_range]

theorem getElem_section_writes (config : MemoryConfig) {area : Section} {k : ℕ}
    (hclears : area.clears) (hk : k < (area.writes config).length) :
    (area.writes config)[k] = (offsetOf config (area.shAddr + k), 0) := by
  simp only [Section.writes, if_pos hclears, List.getElem_map, List.getElem_range]

theorem Inside.base_le {address length k : ℕ} (hinside : Inside config address length)
    (hk : k < length) : config.memBase.toNat ≤ address + k := by
  obtain hnone | ⟨hle, -⟩ := hinside <;> omega

theorem Inside.offset_lt {address length k : ℕ} (hinside : Inside config address length)
    (hk : k < length) : offsetOf config (address + k) < config.memSizeBytes.toNat := by
  unfold offsetOf
  obtain hnone | ⟨hle, hlast⟩ := hinside <;> omega

theorem clear32_eq {area : Section} (hclears : area.clears)
    (hsize : area.shSize < 2 ^ 32)
    (hinside : Inside config area.shAddr area.shSize)
    (hlow : ∀ write ∈ area.writes config, write.1 < 2 ^ 31) (hs : s.NotNegative) :
    clear32 config bigEndian (BitVec.ofNat 32 area.shSize)
        (BitVec.ofNat 32 area.shAddr) s =
      (area.writes config).foldl (Loaded.put config bigEndian) s := by
  have hlength := length_section_writes config hclears
  rw [clear32, BitVec.toNat_ofNat, Nat.mod_eq_of_lt hsize, ← hlength]
  apply foldl_range Loaded.NotNegative
    (fun s write hwrite hs => hs.put (hlow write hwrite)) _ hs
  intro s k hk hs
  have hwrite := getElem_section_writes config hclears hk
  have hoffset := hlow _ (List.getElem_mem hk)
  rw [hwrite] at hoffset ⊢
  rw [setWidth_eq_ofNat, ofNat_offset 32 (hinside.base_le (hlength ▸ hk))]
  exact put_eq_int hs hoffset

theorem clear64_eq {area : Section} (hclears : area.clears)
    (hsize : area.shSize < 2 ^ 64)
    (hinside : Inside config area.shAddr area.shSize) :
    clear64 config bigEndian (BitVec.ofNat 64 area.shSize)
        (BitVec.ofNat 64 area.shAddr) s =
      (area.writes config).foldl (Loaded.put config bigEndian) s := by
  have hlength := length_section_writes config hclears
  have hself : config.memBase = BitVec.ofNat 64 config.memBase.toNat := by
    rw [BitVec.ofNat_toNat, BitVec.setWidth_eq]
  rw [clear64, BitVec.toNat_ofNat, Nat.mod_eq_of_lt hsize, ← hlength]
  apply foldl_range (fun _ => True) (fun s write hwrite hs => hs) _ trivial
  intro s k hk _
  have hplace := ofNat_offset 64 (hinside.base_le (hlength ▸ hk))
  rw [← hself] at hplace
  rw [getElem_section_writes config hclears hk, hplace]
  exact put_eq_u64

theorem byte_of_getElem? {i : ℕ} {data : Byte} (hbyte : l[i]? = some data) (hi : i < 2 ^ 64) :
    l.byte (BitVec.ofNat 64 i) = .ok data := by
  rw [File.byte, BitVec.toNat_ofNat, Nat.mod_eq_of_lt hi, hbyte]

section Copy

variable {segment : Segment} {foffset d : ℕ}

/-- A round of the copy of a program header. -/
theorem copyByte32_eq (hd : d < segment.bytes.length)
    (hbyte : l[foffset + d]? = segment.bytes[d]?) (hfile : l.length < 2 ^ 31)
    (hinside : Inside config segment.pPaddr segment.bytes.length)
    (hlow : offsetOf config (segment.pPaddr + d) < 2 ^ 31) (hs : s.NotNegative) :
    copyByte32 config l bigEndian (BitVec.ofNat 32 foffset) (BitVec.ofNat 32 segment.pPaddr) s d =
      .ok (s.put config bigEndian
        (offsetOf config (segment.pPaddr + d), segment.bytes[d])) := by
  rw [List.getElem?_eq_getElem hd] at hbyte
  have hplace : foffset + d < 2 ^ 31 :=
    (List.getElem?_eq_some_iff.mp hbyte).1.trans hfile
  have ha : BitVec.ofNat 32 d + BitVec.ofNat 32 segment.pPaddr - config.memBase.setWidth 32 =
      BitVec.ofNat 32 (offsetOf config (segment.pPaddr + d)) := by
    rw [setWidth_eq_ofNat, ofNat_offset 32 (hinside.base_le hd)]
    rfl
  have hin : ¬config.memSizeBytes ≤ BitVec.ofNat 64 (offsetOf config (segment.pPaddr + d)) := by
    rw [BitVec.le_def, BitVec.toNat_ofNat, Nat.mod_eq_of_lt (by omega)]
    exact Nat.not_le.mpr (hinside.offset_lt hd)
  have hread : l.byte ((BitVec.ofNat 32 foffset + BitVec.ofNat 32 d).signExtend 64) =
      .ok segment.bytes[d] := by
    rw [← BitVec.ofNat_add, signExtend_ofNat hplace]
    exact byte_of_getElem? hbyte (by omega)
  rw [← put_eq_int hs hlow]
  simp only [copyByte32, ha, slt_zero_ofNat hlow, signExtend_ofNat hlow, hin, hread,
    Bool.false_eq_true, or_self, if_false]
  rfl

theorem copyByte64_eq (hd : d < segment.bytes.length)
    (hbyte : l[foffset + d]? = segment.bytes[d]?) (hfile : l.length < 2 ^ 63)
    (hint : d < 2 ^ 31)
    (hinside : Inside config segment.pPaddr segment.bytes.length) :
    copyByte64 config l bigEndian (BitVec.ofNat 64 foffset) (BitVec.ofNat 64 segment.pPaddr) s d =
      .ok (s.put config bigEndian
        (offsetOf config (segment.pPaddr + d), segment.bytes[d])) := by
  rw [List.getElem?_eq_getElem hd] at hbyte
  have hplace : foffset + d < 2 ^ 64 :=
    (List.getElem?_eq_some_iff.mp hbyte).1.trans (hfile.trans (by decide))
  have hself : config.memBase = BitVec.ofNat 64 config.memBase.toNat := by
    rw [BitVec.ofNat_toNat, BitVec.setWidth_eq]
  have ha : BitVec.ofNat 64 d + BitVec.ofNat 64 segment.pPaddr - config.memBase =
      BitVec.ofNat 64 (offsetOf config (segment.pPaddr + d)) := by
    have hsum := ofNat_offset 64 (hinside.base_le hd)
    rw [← hself] at hsum
    exact hsum
  have hoffset := hinside.offset_lt hd
  have hin : ¬config.memSizeBytes ≤ BitVec.ofNat 64 (offsetOf config (segment.pPaddr + d)) := by
    rw [BitVec.le_def, BitVec.toNat_ofNat,
      Nat.mod_eq_of_lt (hoffset.trans config.memSizeBytes.isLt)]
    exact Nat.not_le.mpr hoffset
  have hread : l.byte (BitVec.ofNat 64 foffset + BitVec.ofNat 64 d) = .ok segment.bytes[d] := by
    rw [← BitVec.ofNat_add]
    exact byte_of_getElem? hbyte hplace
  rw [← put_eq_u64]
  simp only [copyByte64, signExtend_ofNat hint, ha, hin, hread, if_false]
  rfl

/-- The copy of a program header. -/
theorem copy32_eq (hbytes : ∀ k < segment.bytes.length, l[foffset + k]? = segment.bytes[k]?)
    (hfile : l.length < 2 ^ 31)
    (hinside : Inside config segment.pPaddr segment.bytes.length)
    (hlow : ∀ write ∈ segment.writes config, write.1 < 2 ^ 31) (hs : s.NotNegative) :
    (List.range segment.bytes.length).foldlM (copyByte32 config l bigEndian
        (BitVec.ofNat 32 foffset) (BitVec.ofNat 32 segment.pPaddr)) s =
      .ok ((segment.writes config).foldl (Loaded.put config bigEndian) s) := by
  rw [← length_segment_writes config segment]
  apply foldlM_range Loaded.NotNegative
    (fun s write hwrite hs => hs.put (hlow write hwrite)) _ hs
  intro s k hk hs
  have hd : k < segment.bytes.length := length_segment_writes config segment ▸ hk
  have hoffset := hlow _ (List.getElem_mem hk)
  rw [getElem_segment_writes config hd hk] at hoffset ⊢
  exact copyByte32_eq hd (hbytes k hd) hfile hinside hoffset hs

theorem copy64_eq (hbytes : ∀ k < segment.bytes.length, l[foffset + k]? = segment.bytes[k]?)
    (hfile : l.length < 2 ^ 63) (hint : segment.bytes.length ≤ 2 ^ 31)
    (hinside : Inside config segment.pPaddr segment.bytes.length) :
    (List.range segment.bytes.length).foldlM (copyByte64 config l bigEndian
        (BitVec.ofNat 64 foffset) (BitVec.ofNat 64 segment.pPaddr)) s =
      .ok ((segment.writes config).foldl (Loaded.put config bigEndian) s) := by
  rw [← length_segment_writes config segment]
  apply foldlM_range (fun _ => True) (fun _ _ _ hs => hs) _ trivial
  intro s k hk _
  have hd : k < segment.bytes.length := length_segment_writes config segment ▸ hk
  rw [getElem_segment_writes config hd hk]
  exact copyByte64_eq hd (hbytes k hd) hfile (hd.trans_le hint) hinside

end Copy

/-! ## The headers -/

section Headers

variable {area : Section} {segment : Segment} {header : ℕ}

theorem type_eq_iff (htype : area.shType < 2 ^ 32) :
    BitVec.ofNat 32 area.shType = 8 ↔ area.clears := by
  have height : (8 : BitVec 32) = BitVec.ofNat 32 8 := rfl
  constructor
  · intro heq
    have hnat := congrArg BitVec.toNat (heq.trans height)
    rwa [BitVec.toNat_ofNat, BitVec.toNat_ofNat, Nat.mod_eq_of_lt htype] at hnat
  · intro hclears
    exact congrArg (BitVec.ofNat 32) hclears

/-- A section of the first branch. -/
theorem section32_eq (hheader : IsSection FileClass.elf32.layout l bigEndian header area)
    (hinside : area.clears → Inside config area.shAddr area.shSize)
    (hlow : ∀ write ∈ area.writes config, write.1 < 2 ^ 31) (hs : s.NotNegative) :
    section32 config l bigEndian header s =
      .ok ((area.writes config).foldl (Loaded.put config bigEndian) s) := by
  have hsize := word_of_stored hheader.shSize
  have htype := word_of_stored hheader.shType
  have haddr := word_of_stored hheader.shAddr
  rw [section32]
  change es32 bigEndian <$> l.word (header + 20) = _ at hsize
  change es32 bigEndian <$> l.word (header + 4) = _ at htype
  change es32 bigEndian <$> l.word (header + 12) = _ at haddr
  rw [hsize, htype, haddr]
  change Except.ok _ = _
  by_cases hclears : area.clears
  · rw [if_pos ((type_eq_iff hheader.shType.1).mpr hclears),
      clear32_eq hclears hheader.shSize.1 (hinside hclears) hlow hs]
  · rw [if_neg (mt (type_eq_iff hheader.shType.1).mp hclears), Section.writes, if_neg hclears]
    rfl

theorem section64_eq (hheader : IsSection FileClass.elf64.layout l bigEndian header area)
    (hinside : area.clears → Inside config area.shAddr area.shSize) :
    section64 config l bigEndian header s =
      .ok ((area.writes config).foldl (Loaded.put config bigEndian) s) := by
  have hsize := xword_of_stored hheader.shSize
  have htype := word_of_stored hheader.shType
  have haddr := xword_of_stored hheader.shAddr
  rw [section64]
  change es64 bigEndian <$> l.xword (header + 32) = _ at hsize
  change es32 bigEndian <$> l.word (header + 4) = _ at htype
  change es64 bigEndian <$> l.xword (header + 16) = _ at haddr
  rw [hsize, htype, haddr]
  change Except.ok _ = _
  by_cases hclears : area.clears
  · rw [if_pos ((type_eq_iff hheader.shType.1).mpr hclears),
      clear64_eq hclears hheader.shSize.1 (hinside hclears)]
  · rw [if_neg (mt (type_eq_iff hheader.shType.1).mp hclears), Section.writes, if_neg hclears]
    rfl

theorem length_le_of_contents {pOffset : ℕ}
    (hbytes : ∀ k < segment.bytes.length, l[pOffset + k]? = segment.bytes[k]?) :
    segment.bytes.length ≤ l.length := by
  by_cases hnone : segment.bytes.length = 0
  · omega
  · have hlast : segment.bytes.length - 1 < segment.bytes.length := by omega
    have hbyte := hbytes _ hlast
    rw [List.getElem?_eq_getElem hlast] at hbyte
    have hplace := (List.getElem?_eq_some_iff.mp hbyte).1
    omega

/-- A program header of the first branch. -/
theorem segment32_eq (hheader : IsSegment FileClass.elf32.layout l bigEndian header segment)
    (hfile : l.length < 2 ^ 31)
    (hinside : Inside config segment.pPaddr segment.bytes.length)
    (hlow : ∀ write ∈ segment.writes config, write.1 < 2 ^ 31) (hs : s.NotNegative) :
    segment32 config l bigEndian header s =
      .ok ((segment.writes config).foldl (Loaded.put config bigEndian) s) := by
  obtain ⟨pOffset, hoffset, hbytes⟩ := hheader.contents
  have hfoffset := word_of_stored hoffset
  have hpaddr := word_of_stored hheader.pPaddr
  have hsize := word_of_stored hheader.pFilesz
  have hlength : (BitVec.ofNat 32 segment.bytes.length).toInt.toNat = segment.bytes.length := by
    rw [toInt_ofNat ((length_le_of_contents hbytes).trans_lt hfile), Int.toNat_natCast]
  rw [segment32]
  change es32 bigEndian <$> l.word (header + 4) = _ at hfoffset
  change es32 bigEndian <$> l.word (header + 12) = _ at hpaddr
  change es32 bigEndian <$> l.word (header + 16) = _ at hsize
  rw [hfoffset, hpaddr, hsize]
  change List.foldlM _ _ (List.range (BitVec.ofNat 32 segment.bytes.length).toInt.toNat) = _
  rw [hlength]
  exact copy32_eq hbytes hfile hinside hlow hs

theorem intRounds_ofNat {n : ℕ} (hn : n ≤ 2 ^ 31) : intRounds (BitVec.ofNat 64 n) = n := by
  have hself : (BitVec.ofNat 64 n).toNat = n := by
    rw [BitVec.toNat_ofNat, Nat.mod_eq_of_lt (by omega)]
  rw [intRounds, hself, if_pos hn]

theorem segment64_eq (hheader : IsSegment FileClass.elf64.layout l bigEndian header segment)
    (hfile : l.length < 2 ^ 63) (hint : segment.bytes.length ≤ 2 ^ 31)
    (hsame : segment.bytes ≠ [] → segment.pVaddr = segment.pPaddr)
    (hinside : Inside config segment.pPaddr segment.bytes.length) :
    segment64 config l bigEndian header s =
      .ok ((segment.writes config).foldl (Loaded.put config bigEndian) s) := by
  obtain ⟨pOffset, hoffset, hbytes⟩ := hheader.contents
  have hfoffset := xword_of_stored hoffset
  have hvaddr := xword_of_stored hheader.pVaddr
  have hsize := xword_of_stored hheader.pFilesz
  rw [segment64]
  change es64 bigEndian <$> l.xword (header + 8) = _ at hfoffset
  change es64 bigEndian <$> l.xword (header + 32) = _ at hsize
  change es64 bigEndian <$> l.xword (header + 16) = _ at hvaddr
  rw [hfoffset, hsize, hvaddr]
  change List.foldlM _ _ (List.range (intRounds (BitVec.ofNat 64 segment.bytes.length))) = _
  rw [intRounds_ofNat hint]
  by_cases hempty : segment.bytes = []
  · rw [Segment.writes, hempty]
    rfl
  · rw [hsame hempty]
    exact copy64_eq hbytes hfile hint hinside

end Headers

/-! ## The reader -/

/-- The image lies in the memory. -/
structure Fits (config : MemoryConfig) (image : Image) : Prop where
  segments : ∀ segment ∈ image.segments, Inside config segment.pPaddr segment.bytes.length
  sections : ∀ area ∈ image.sections, area.clears →
    Inside config area.shAddr area.shSize

/-- What the variables of a branch can hold: `int` offsets in the file and in the memory in the
first one; in the second one an `int` counter, and `p_vaddr` for the address. -/
def Suits (config : MemoryConfig) (l : File) (image : Image) : FileClass → Prop
  | .elf32 => l.length < 2 ^ 31 ∧ ∀ write ∈ image.writes config, write.1 < 2 ^ 31
  | .elf64 => ∀ segment ∈ image.segments, segment.bytes.length ≤ 2 ^ 31 ∧
      (segment.bytes ≠ [] → segment.pVaddr = segment.pPaddr)

/-- The memory and `hwm` after the writes of an image. -/
def Image.loaded (config : MemoryConfig) (image : Image) (pages : Pages) : Loaded :=
  (image.writes config).foldl (Loaded.put config image.bigEndian) ⟨pages, 0⟩

/-- What the reader gives back for an image. -/
def Image.reading (config : MemoryConfig) (image : Image) (pages : Pages) : Reading where
  hwm := (image.loaded config pages).hwm.signExtend 64
  bigEndian := image.bigEndian
  entrypt := BitVec.ofNat 64 image.entry
  pages := (image.loaded config pages).pages

theorem header_lt {field : Field} {header value : ℕ} (hwidth : 0 < field.width)
    (hfield : field.Is l bigEndian header value) : header < l.length := by
  obtain ⟨hplace, -⟩ := List.getElem?_eq_some_iff.mp (hfield.2 0 hwidth)
  omega

theorem toNat_header {base offset : ℕ} (hsize : l.length < 2 ^ 63)
    (hlt : base + offset < l.length) :
    (BitVec.ofNat 64 base + BitVec.ofNat 64 offset).toNat = base + offset := by
  rw [← BitVec.ofNat_add, BitVec.toNat_ofNat, Nat.mod_eq_of_lt (by omega)]

theorem mem_writes_of_section {area : Section} {write : ℕ × Byte}
    (hsection : area ∈ image.sections) (hwrite : write ∈ area.writes config) :
    write ∈ image.writes config :=
  List.mem_append_left _ (List.mem_flatMap.mpr ⟨area, hsection, hwrite⟩)

theorem mem_writes_of_segment {segment : Segment} {write : ℕ × Byte}
    (hsegment : segment ∈ image.segments) (hwrite : write ∈ segment.writes config) :
    write ∈ image.writes config :=
  List.mem_append_right _ (List.mem_flatMap.mpr ⟨segment, hsegment, hwrite⟩)

theorem keeps_writes {writes : List (ℕ × Byte)} (hlow : ∀ write ∈ writes, write.1 < 2 ^ 31)
    (hs : s.NotNegative) : (writes.foldl (Loaded.put config bigEndian) s).NotNegative :=
  foldl_keeps (fun _ write hwrite hs => hs.put (hlow write hwrite)) hs

/-- The count of headers. -/
theorem count_eq {n : ℕ} (hn : n < 2 ^ 16) : (BitVec.ofNat 32 n).toInt.toNat = n := by
  rw [toInt_ofNat (by omega), Int.toNat_natCast]

section Tables

variable {phoff shoff : ℕ}

/-- The sections of the first branch. -/
theorem sections32_eq (hsections : ∀ i (hi : i < image.sections.length),
      IsSection FileClass.elf32.layout l bigEndian (shoff + 40 * i) image.sections[i])
    (hfits : Fits config image) (hlow : ∀ write ∈ image.writes config, write.1 < 2 ^ 31)
    (hs : s.NotNegative) :
    (List.range image.sections.length).foldlM
        (fun s i => section32 config l bigEndian (shoff + 40 * i) s) s =
      .ok ((image.sections.flatMap (Section.writes config)).foldl
        (Loaded.put config bigEndian) s) := by
  have hlow' : ∀ area ∈ image.sections, ∀ write ∈ area.writes config,
      write.1 < 2 ^ 31 :=
    fun area hsection write hwrite => hlow write (mem_writes_of_section hsection hwrite)
  rw [List.foldl_flatMap]
  apply foldlM_range Loaded.NotNegative
    (fun s area hsection hs => keeps_writes (hlow' area hsection) hs) _ hs
  intro s i hi hs
  have hmem := List.getElem_mem hi
  exact section32_eq (hsections i hi) (hfits.sections _ hmem) (hlow' _ hmem) hs

/-- The program headers of the first branch. -/
theorem segments32_eq (hsegments : ∀ i (hi : i < image.segments.length),
      IsSegment FileClass.elf32.layout l bigEndian (phoff + 32 * i) image.segments[i])
    (hfile : l.length < 2 ^ 31) (hfits : Fits config image)
    (hlow : ∀ write ∈ image.writes config, write.1 < 2 ^ 31) (hs : s.NotNegative) :
    (List.range image.segments.length).foldlM
        (fun s i => segment32 config l bigEndian (phoff + 32 * i) s) s =
      .ok ((image.segments.flatMap (Segment.writes config)).foldl
        (Loaded.put config bigEndian) s) := by
  have hlow' : ∀ segment ∈ image.segments, ∀ write ∈ segment.writes config, write.1 < 2 ^ 31 :=
    fun segment hsegment write hwrite => hlow write (mem_writes_of_segment hsegment hwrite)
  rw [List.foldl_flatMap]
  apply foldlM_range Loaded.NotNegative
    (fun s segment hsegment hs => keeps_writes (hlow' segment hsegment) hs) _ hs
  intro s i hi hs
  have hmem := List.getElem_mem hi
  exact segment32_eq (hsegments i hi) hfile (hfits.segments _ hmem) (hlow' _ hmem) hs

/-- The sections of the second branch. -/
theorem sections64_eq (hsections : ∀ i (hi : i < image.sections.length),
      IsSection FileClass.elf64.layout l bigEndian (shoff + 64 * i) image.sections[i])
    (hsize : l.length < 2 ^ 63) (hfits : Fits config image) :
    (List.range image.sections.length).foldlM
        (fun s i => section64 config l bigEndian
          (BitVec.ofNat 64 shoff + BitVec.ofNat 64 (64 * i)).toNat s) s =
      .ok ((image.sections.flatMap (Section.writes config)).foldl
        (Loaded.put config bigEndian) s) := by
  rw [List.foldl_flatMap]
  apply foldlM_range (fun _ => True) (fun _ _ _ hs => hs) _ trivial
  intro s i hi _
  rw [toNat_header hsize (header_lt (by decide) (hsections i hi).shType)]
  exact section64_eq (hsections i hi) (hfits.sections _ (List.getElem_mem hi))

/-- The program headers of the second branch. -/
theorem segments64_eq (hsegments : ∀ i (hi : i < image.segments.length),
      IsSegment FileClass.elf64.layout l bigEndian (phoff + 56 * i) image.segments[i])
    (hsize : l.length < 2 ^ 63) (hfits : Fits config image)
    (hsuits : Suits config l image .elf64) :
    (List.range image.segments.length).foldlM
        (fun s i => segment64 config l bigEndian
          (BitVec.ofNat 64 phoff + BitVec.ofNat 64 (56 * i)).toNat s) s =
      .ok ((image.segments.flatMap (Segment.writes config)).foldl
        (Loaded.put config bigEndian) s) := by
  rw [List.foldl_flatMap]
  apply foldlM_range (fun _ => True) (fun _ _ _ hs => hs) _ trivial
  intro s i hi _
  have hmem := List.getElem_mem hi
  rw [toNat_header hsize (header_lt (by decide) (hsegments i hi).pType)]
  exact segment64_eq (hsegments i hi) hsize (hsuits _ hmem).1 (hsuits _ hmem).2
    (hfits.segments _ hmem)

end Tables

theorem toNat_ofNat32 {n : ℕ} (hn : n < 2 ^ 32) : (BitVec.ofNat 32 n).toNat = n := by
  rw [BitVec.toNat_ofNat, Nat.mod_eq_of_lt hn]

/-- The first branch makes the writes of the image. -/
theorem reader32_eq (hencodes : Encodes .elf32 l image) (hfits : Fits config image)
    (hsuits : Suits config l image .elf32) :
    reader32 config l image.bigEndian ⟨pages, 0⟩ =
      .ok (BitVec.ofNat 64 image.entry, image.loaded config pages) := by
  obtain ⟨hfile, hlow⟩ := hsuits
  obtain ⟨phoff, hphoff, hsegments⟩ := hencodes.segments
  obtain ⟨shoff, hshoff, hsections⟩ := hencodes.sections
  have hentry := word_of_stored hencodes.entry
  have hphdrs := word_of_stored hphoff
  have hshdrs := word_of_stored hshoff
  have hphnum := half_of_stored hencodes.phnum
  have hshnum := half_of_stored hencodes.shnum
  have hentrypt : (BitVec.ofNat 32 image.entry).setWidth 64 = BitVec.ofNat 64 image.entry :=
    BitVec.setWidth_ofNat_of_le_of_lt (by decide) hencodes.entry.1
  have hstart : (⟨pages, 0⟩ : Loaded).NotNegative := by
    change (0 : BitVec 32).toNat < 2 ^ 31
    decide
  have hcleared := sections32_eq hsections hfits hlow hstart
  have hmid := @keeps_writes config image.bigEndian _ _
    (fun write hwrite => hlow write (List.mem_append_left _ hwrite)) hstart
  have hcopied := segments32_eq hsegments hfile hfits hlow hmid
  change es32 image.bigEndian <$> l.word 24 = _ at hentry
  change es32 image.bigEndian <$> l.word 28 = _ at hphdrs
  change es32 image.bigEndian <$> l.word 32 = _ at hshdrs
  change es16 image.bigEndian <$> l.half 44 = _ at hphnum
  change es16 image.bigEndian <$> l.half 48 = _ at hshnum
  rw [reader32, hentry, hphdrs, hshdrs, hphnum, hshnum]
  change (Except.bind (List.foldlM _ _ (List.range (BitVec.ofNat 32 _).toInt.toNat)) fun s => _) = _
  rw [count_eq hencodes.shnum.1, toNat_ofNat32 hshoff.1, hcleared]
  change (Except.bind (List.foldlM _ _ (List.range (BitVec.ofNat 32 _).toInt.toNat)) fun s => _) = _
  rw [count_eq hencodes.phnum.1, toNat_ofNat32 hphoff.1, hcopied, hentrypt, ← List.foldl_append]
  rfl

/-- The second branch makes them too. -/
theorem reader64_eq (hencodes : Encodes .elf64 l image) (hfits : Fits config image)
    (hsuits : Suits config l image .elf64) :
    reader64 config l image.bigEndian ⟨pages, 0⟩ =
      .ok (BitVec.ofNat 64 image.entry, image.loaded config pages) := by
  obtain ⟨phoff, hphoff, hsegments⟩ := hencodes.segments
  obtain ⟨shoff, hshoff, hsections⟩ := hencodes.sections
  have hentry := xword_of_stored hencodes.entry
  have hphdrs := xword_of_stored hphoff
  have hshdrs := xword_of_stored hshoff
  have hphnum := half_of_stored hencodes.phnum
  have hshnum := half_of_stored hencodes.shnum
  have hcleared := @sections64_eq config l image.bigEndian image ⟨pages, 0⟩ _ hsections
    hencodes.size hfits
  have hcopied := fun s => @segments64_eq config l image.bigEndian image s _ hsegments
    hencodes.size hfits hsuits
  change es64 image.bigEndian <$> l.xword 24 = _ at hentry
  change es64 image.bigEndian <$> l.xword 32 = _ at hphdrs
  change es64 image.bigEndian <$> l.xword 40 = _ at hshdrs
  change es16 image.bigEndian <$> l.half 56 = _ at hphnum
  change es16 image.bigEndian <$> l.half 60 = _ at hshnum
  rw [reader64, hentry, hphdrs, hshdrs, hphnum, hshnum]
  change (Except.bind (List.foldlM _ _ (List.range (BitVec.ofNat 32 _).toInt.toNat)) fun s => _) = _
  rw [count_eq hencodes.shnum.1, hcleared]
  change (Except.bind (List.foldlM _ _ (List.range (BitVec.ofNat 32 _).toInt.toNat)) fun s => _) = _
  rw [count_eq hencodes.phnum.1, hcopied, ← List.foldl_append]
  rfl

/-- The reader gives the same for all encodings of an image. -/
theorem reader_eq {fileClass : FileClass} (hencodes : Encodes fileClass l image)
    (hfits : Fits config image) (hsuits : Suits config l image fileClass) :
    reader config l false pages = .ok (image.reading config pages) := by
  have hident := hencodes.ident
  have hbyte : ∀ i < 6, l[i]? = ([0x7F, 0x45, 0x4C, 0x46, fileClass.layout.eiClass,
      if image.bigEndian then 2 else 1] : List Byte)[i]? := by
    intro i hi
    rw [← hident, List.getElem?_take_of_lt hi]
  have hmagic : (l.drop 1).take 3 = [0x45, 0x4C, 0x46] := by
    have hpart : (l.drop 1).take 3 = ((l.take 6).drop 1).take 3 := by
      rw [List.drop_take, List.take_take]
      rfl
    rw [hpart, hident]
    rfl
  have hclass : l.byte 4 = .ok fileClass.layout.eiClass :=
    byte_of_getElem? (hbyte 4 (by decide)) (by decide)
  have hdata : l.byte 5 = .ok (if image.bigEndian then 2 else 1) :=
    byte_of_getElem? (hbyte 5 (by decide)) (by decide)
  have hendian : (if (if image.bigEndian then (2 : Byte) else 1) = 2 then true else false) =
      image.bigEndian := by
    cases image.bigEndian <;> rfl
  rw [reader, if_neg (not_not_intro hmagic), hdata, hclass]
  cases fileClass with
  | elf32 =>
      change (Except.bind (reader32 config l (if (if image.bigEndian then (2 : Byte) else 1) = 2
        then true else false) ⟨pages, 0⟩) fun _ => _) = _
      rw [hendian, reader32_eq hencodes hfits hsuits]
      rfl
  | elf64 =>
      change (Except.bind (reader64 config l (if (if image.bigEndian then (2 : Byte) else 1) = 2
        then true else false) ⟨pages, 0⟩) fun _ => _) = _
      rw [hendian, reader64_eq hencodes hfits hsuits]
      rfl

end Prazor.Memory.Elf
