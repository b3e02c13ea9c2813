import Prazor.Memory.ElfReader

/-!
# ELF images

What an image holds, whatever its class and byte order, and which files are encodings of it: the
numbers stand at the places that the layout of the class gives, in the byte order of the image.
-/

namespace Prazor.Memory.Elf

open Prazor.Bytes

/-! ## Byte orders -/

/-- The byte `i` of a number of `width` bytes. -/
def numberByte (bigEndian : Bool) (width value i : ℕ) : Byte :=
  BitVec.ofNat 8 (value >>> (8 * if bigEndian then width - 1 - i else i))

/-- A number stands in the file. -/
def StoredAt (l : File) (bigEndian : Bool) (offset width value : ℕ) : Prop :=
  value < 2 ^ (8 * width) ∧
    ∀ i < width, l[offset + i]? = some (numberByte bigEndian width value i)

instance decidableStoredAt (l : File) (bigEndian : Bool) (offset width value : ℕ) :
    Decidable (StoredAt l bigEndian offset width value) :=
  inferInstanceAs (Decidable (_ ∧ _))

theorem extractLsb'_ofNat {n width i : ℕ} (hi : 8 * i + 8 ≤ width) :
    (BitVec.ofNat width n).extractLsb' (8 * i) 8 = BitVec.ofNat 8 (n >>> (8 * i)) := by
  apply BitVec.eq_of_getLsbD_eq
  intro bit hbit
  have hbelow : 8 * i + bit < width := by omega
  simp only [BitVec.getLsbD_extractLsb', BitVec.getLsbD_ofNat, Nat.testBit_shiftRight, hbit,
    hbelow, decide_true, Bool.true_and]

theorem es32_true (x : BitVec 32) : es32 true x = load32 fun i => bytes32 x (3 - i) := by
  apply BitVec.eq_of_getLsbD_eq
  intro i hi
  simp only [es32, load32, bytes32, if_true, BitVec.getLsbD_append, BitVec.getLsbD_extractLsb',
    BitVec.getLsbD_or, BitVec.getLsbD_and, BitVec.getLsbD_shiftLeft, BitVec.getLsbD_ushiftRight]
  interval_cases i <;> simp

theorem es64_true (x : Word64) : es64 true x = load64 fun i => bytes64 x (7 - i) := by
  apply BitVec.eq_of_getLsbD_eq
  intro i hi
  simp only [es64, load64, load32, bytes64, if_true, BitVec.getLsbD_append,
    BitVec.getLsbD_extractLsb', BitVec.getLsbD_or, BitVec.getLsbD_and, BitVec.getLsbD_shiftLeft,
    BitVec.getLsbD_ushiftRight]
  interval_cases i <;> simp

theorem es16_true (b : Buffer) : es16 true (load16 b) = (b 0 ++ b 1).setWidth 32 := by
  apply BitVec.eq_of_getLsbD_eq
  intro i hi
  simp only [es16, load16, if_true, BitVec.getLsbD_append, BitVec.getLsbD_setWidth,
    BitVec.getLsbD_or, BitVec.getLsbD_and, BitVec.getLsbD_shiftLeft, BitVec.getLsbD_ushiftRight]
  interval_cases i <;> simp

section Stored

variable {l : File} {bigEndian : Bool} {offset width value : ℕ}

/-- The bytes of a number are in the file. -/
theorem bytes_of_stored (hstored : StoredAt l bigEndian offset width value) (hwidth : 0 < width) :
    ∃ b, l.bytes offset width = .ok b ∧ ∀ i < width, b i = numberByte bigEndian width value i := by
  have hbyte := hstored.2
  have hinside : offset + width ≤ l.length := by
    obtain ⟨hlast, -⟩ := List.getElem?_eq_some_iff.mp (hbyte (width - 1) (by omega))
    omega
  refine ⟨_, by rw [File.bytes, if_pos hinside], fun i hi => ?_⟩
  rw [List.getD_eq_getElem?_getD, hbyte i hi, Option.getD_some]

theorem word_of_stored (hstored : StoredAt l bigEndian offset 4 value) :
    es32 bigEndian <$> l.word offset = .ok (BitVec.ofNat 32 value) := by
  obtain ⟨b, hb, hbyte⟩ := bytes_of_stored hstored (by decide)
  have hnumber : ∀ i < 4, bytes32 (BitVec.ofNat 32 value) i = BitVec.ofNat 8 (value >>> (8 * i)) :=
    fun i hi => extractLsb'_ofNat (by omega)
  have hvalue : es32 bigEndian (load32 b) = BitVec.ofNat 32 value := by
    rw [← load32_bytes32 (BitVec.ofNat 32 value)]
    cases bigEndian with
    | false =>
        apply load32_congr
        intro i hi
        rw [hnumber i hi, hbyte i hi]
        rfl
    | true =>
        rw [es32_true]
        apply load32_congr
        intro i hi
        have hback : 4 - 1 - (3 - i) = i := by omega
        rw [hnumber i hi, bytes32_load32 b (by omega), hbyte (3 - i) (by omega), numberByte,
          if_pos rfl, hback]
  rw [File.word, hb]
  exact congrArg Except.ok hvalue

theorem xword_of_stored (hstored : StoredAt l bigEndian offset 8 value) :
    es64 bigEndian <$> l.xword offset = .ok (BitVec.ofNat 64 value) := by
  obtain ⟨b, hb, hbyte⟩ := bytes_of_stored hstored (by decide)
  have hnumber : ∀ i < 8, bytes64 (BitVec.ofNat 64 value) i = BitVec.ofNat 8 (value >>> (8 * i)) :=
    fun i hi => extractLsb'_ofNat (by omega)
  have hvalue : es64 bigEndian (load64 b) = BitVec.ofNat 64 value := by
    rw [← load64_bytes64 (BitVec.ofNat 64 value)]
    cases bigEndian with
    | false =>
        apply load64_congr
        intro i hi
        rw [hnumber i hi, hbyte i hi]
        rfl
    | true =>
        rw [es64_true]
        apply load64_congr
        intro i hi
        have hback : 8 - 1 - (7 - i) = i := by omega
        rw [hnumber i hi, bytes64_load64 b (by omega), hbyte (7 - i) (by omega), numberByte,
          if_pos rfl, hback]
  rw [File.xword, hb]
  exact congrArg Except.ok hvalue

theorem half_of_stored (hstored : StoredAt l bigEndian offset 2 value) :
    es16 bigEndian <$> l.half offset = .ok (BitVec.ofNat 32 value) := by
  obtain ⟨b, hb, hbyte⟩ := bytes_of_stored hstored (by decide)
  have hsmall : value < 2 ^ 16 := hstored.1
  have hjoin : (BitVec.ofNat 8 (value >>> 8) ++ BitVec.ofNat 8 value : BitVec 16).setWidth 32 =
      BitVec.ofNat 32 value := by
    apply BitVec.eq_of_toNat_eq
    simp only [BitVec.toNat_setWidth, BitVec.toNat_append, BitVec.toNat_ofNat,
      Nat.shiftRight_eq_div_pow]
    rw [← Nat.shiftLeft_add_eq_or_of_lt (by omega), Nat.shiftLeft_eq]
    omega
  have hvalue : es16 bigEndian (load16 b) = BitVec.ofNat 32 value := by
    cases bigEndian with
    | false =>
        rw [← hjoin]
        change (b 1 ++ b 0).setWidth 32 = _
        rw [hbyte 0 (by decide), hbyte 1 (by decide)]
        rfl
    | true =>
        rw [es16_true, hbyte 0 (by decide), hbyte 1 (by decide), ← hjoin]
        rfl
  rw [File.half, hb]
  exact congrArg Except.ok hvalue

end Stored

/-! ## Images -/

inductive FileClass
  | elf32
  | elf64

/-- A field of a header. -/
structure Field where
  offset : ℕ
  width : ℕ

/-- A field of the header at an offset of the file has a value. -/
def Field.Is (field : Field) (l : File) (bigEndian : Bool) (header value : ℕ) : Prop :=
  StoredAt l bigEndian (header + field.offset) field.width value

instance decidableFieldIs (field : Field) (l : File) (bigEndian : Bool) (header value : ℕ) :
    Decidable (field.Is l bigEndian header value) :=
  inferInstanceAs (Decidable (StoredAt _ _ _ _ _))

/-- `Elf32_Ehdr`, `Elf32_Phdr` and `Elf32_Shdr`, or those of 64 bits. -/
structure Layout where
  eiClass : Byte
  eEntry : Field
  ePhoff : Field
  eShoff : Field
  ePhnum : Field
  eShnum : Field
  phdrSize : ℕ
  pType : Field
  pOffset : Field
  pVaddr : Field
  pPaddr : Field
  pFilesz : Field
  pMemsz : Field
  shdrSize : ℕ
  shType : Field
  shAddr : Field
  shSize : Field

def FileClass.layout : FileClass → Layout
  | .elf32 => {
      eiClass := 1
      eEntry := ⟨24, 4⟩
      ePhoff := ⟨28, 4⟩
      eShoff := ⟨32, 4⟩
      ePhnum := ⟨44, 2⟩
      eShnum := ⟨48, 2⟩
      phdrSize := 32
      pType := ⟨0, 4⟩
      pOffset := ⟨4, 4⟩
      pVaddr := ⟨8, 4⟩
      pPaddr := ⟨12, 4⟩
      pFilesz := ⟨16, 4⟩
      pMemsz := ⟨20, 4⟩
      shdrSize := 40
      shType := ⟨4, 4⟩
      shAddr := ⟨12, 4⟩
      shSize := ⟨20, 4⟩ }
  | .elf64 => {
      eiClass := 2
      eEntry := ⟨24, 8⟩
      ePhoff := ⟨32, 8⟩
      eShoff := ⟨40, 8⟩
      ePhnum := ⟨56, 2⟩
      eShnum := ⟨60, 2⟩
      phdrSize := 56
      pType := ⟨0, 4⟩
      pOffset := ⟨8, 8⟩
      pVaddr := ⟨16, 8⟩
      pPaddr := ⟨24, 8⟩
      pFilesz := ⟨32, 8⟩
      pMemsz := ⟨40, 8⟩
      shdrSize := 64
      shType := ⟨4, 4⟩
      shAddr := ⟨16, 8⟩
      shSize := ⟨32, 8⟩ }

/-- A program header, with the bytes of the file it describes. -/
structure Segment where
  pType : ℕ
  pVaddr : ℕ
  pPaddr : ℕ
  pMemsz : ℕ
  bytes : List Byte

/-- A section header. -/
structure Section where
  shType : ℕ
  shAddr : ℕ
  shSize : ℕ

structure Image where
  bigEndian : Bool
  entry : ℕ
  segments : List Segment
  sections : List Section

/-- A program header in a file, with the bytes it describes. -/
structure IsSegment (layout : Layout) (l : File) (bigEndian : Bool) (header : ℕ)
    (segment : Segment) : Prop where
  pType : layout.pType.Is l bigEndian header segment.pType
  pVaddr : layout.pVaddr.Is l bigEndian header segment.pVaddr
  pPaddr : layout.pPaddr.Is l bigEndian header segment.pPaddr
  pFilesz : layout.pFilesz.Is l bigEndian header segment.bytes.length
  pMemsz : layout.pMemsz.Is l bigEndian header segment.pMemsz
  contents : ∃ pOffset, layout.pOffset.Is l bigEndian header pOffset ∧
    ∀ k < segment.bytes.length, l[pOffset + k]? = segment.bytes[k]?

/-- A section header in a file. -/
structure IsSection (layout : Layout) (l : File) (bigEndian : Bool) (header : ℕ)
    (area : Section) : Prop where
  shType : layout.shType.Is l bigEndian header area.shType
  shAddr : layout.shAddr.Is l bigEndian header area.shAddr
  shSize : layout.shSize.Is l bigEndian header area.shSize

/-- A file is an encoding of an image. -/
structure Encodes (fileClass : FileClass) (l : File) (image : Image) : Prop where
  ident : l.take 6 = [0x7F, 0x45, 0x4C, 0x46, fileClass.layout.eiClass,
    if image.bigEndian then 2 else 1]
  size : l.length < 2 ^ 63
  entry : fileClass.layout.eEntry.Is l image.bigEndian 0 image.entry
  phnum : fileClass.layout.ePhnum.Is l image.bigEndian 0 image.segments.length
  shnum : fileClass.layout.eShnum.Is l image.bigEndian 0 image.sections.length
  segments : ∃ phoff, fileClass.layout.ePhoff.Is l image.bigEndian 0 phoff ∧
    ∀ i (hi : i < image.segments.length), IsSegment fileClass.layout l image.bigEndian
      (phoff + fileClass.layout.phdrSize * i) image.segments[i]
  sections : ∃ shoff, fileClass.layout.eShoff.Is l image.bigEndian 0 shoff ∧
    ∀ i (hi : i < image.sections.length), IsSection fileClass.layout l image.bigEndian
      (shoff + fileClass.layout.shdrSize * i) image.sections[i]

end Prazor.Memory.Elf
