import Prazor.Memory.GenericTlmMem

/-!
# Loading an ELF file

`cbgelf::reader` clears the sections of type `SHT_NOBITS` of a file and copies what its program
headers describe to a memory, in one branch for files of 32 bits and one for files of 64 bits.
A file is the list of its bytes, and signed arithmetic wraps.

The passes over the sections that hand the symbols to `argv_backdoor_su` write no memory and are
left out, and so is the check against `expected_magic_no`, which nothing sets.  `xoffset` is 0,
and the workstation is little-endian.
-/

namespace Prazor.Memory.Elf

open Prazor.Bytes

/-- The mapped file `l`. -/
abbrev File := List Byte

/-- Where the program ends. -/
inductive LoadStop
  | notElf
  | noClass
  | outside (address base top : Word64)
  | outsideFile

/-! ## Numbers in the file -/

/-- `*(u16_t *) pointer` on a little-endian workstation. -/
def load16 (buffer : Buffer) : BitVec 16 := buffer 1 ++ buffer 0

namespace File

variable (l : File)

/-- `l[i]` -/
def byte (i : Word64) : Except LoadStop Byte :=
  match l[i.toNat]? with
  | some data => .ok data
  | none => .error .outsideFile

/-- The bytes of a number. -/
def bytes (i width : ℕ) : Except LoadStop Buffer :=
  if i + width ≤ l.length then .ok fun k => l.getD (i + k) 0 else .error .outsideFile

def half (i : ℕ) : Except LoadStop (BitVec 16) := load16 <$> l.bytes i 2

def word (i : ℕ) : Except LoadStop (BitVec 32) := load32 <$> l.bytes i 4

def xword (i : ℕ) : Except LoadStop Word64 := load64 <$> l.bytes i 8

end File

/-- `ES16`, an `int`. -/
def es16 (bigEndian : Bool) (x : BitVec 16) : BitVec 32 :=
  let x := x.setWidth 32
  if bigEndian then ((x >>> 8) &&& 0xFF) ||| ((x <<< 8) &&& 0xFF00) else x

/-- `ES32` -/
def es32 (bigEndian : Bool) (x : BitVec 32) : BitVec 32 :=
  if bigEndian then
    ((x >>> 24) &&& 0xFF) ||| ((x >>> 8) &&& 0xFF00) ||| ((x <<< 8) &&& 0xFF0000) ||| (x <<< 24)
  else x

/-- `ES64` -/
def es64 (bigEndian : Bool) (x : Word64) : Word64 :=
  if bigEndian then
    ((x >>> 56) &&& 0x00000000000000FF) |||
    ((x >>> 40) &&& 0x000000000000FF00) |||
    ((x >>> 24) &&& 0x0000000000FF0000) |||
    ((x >>> 8) &&& 0x00000000FF000000) |||
    ((x <<< 8) &&& 0x000000FF00000000) |||
    ((x <<< 24) &&& 0x0000FF0000000000) |||
    ((x <<< 40) &&& 0x00FF000000000000) |||
    ((x <<< 56) &&& 0xFF00000000000000)
  else x

/-! ## Writing -/

/-- The 8-bit `ip_write` with its `es`. -/
def ipWriteSwapped (newPage : Word64 → Buffer) (pages : Pages) (a : Word64) (d : Byte)
    (es : Bool) : Pages :=
  Function.update pages (pageBase a) (some (Function.update (pageForWrite newPage pages a)
    (pageOffset a ^^^ if es then 7 else 0) d))

/-- The memory and `hwm` while a file is loaded. -/
structure Loaded where
  pages : Pages
  hwm : BitVec 32

section Elf32

variable (config : MemoryConfig) (l : File) (bigEndian : Bool)

/-- `bss - need to clear it` -/
def clear32 (size shAddr : BitVec 32) (s : Loaded) : Loaded :=
  (List.range size.toNat).foldl (fun s k =>
    let a := BitVec.ofNat 32 k + shAddr - config.memBase.setWidth 32
    { pages := ipWriteSwapped config.newPage s.pages (a.signExtend 64) 0 bigEndian
      hwm := if s.hwm.slt a then a else s.hwm }) s

/-- The section whose header is at an offset of the file. -/
def section32 (header : ℕ) (s : Loaded) : Except LoadStop Loaded := do
  let size ← es32 bigEndian <$> l.word (header + 20)
  let type ← es32 bigEndian <$> l.word (header + 4)
  let shAddr ← es32 bigEndian <$> l.word (header + 12)
  return if type = 8 then clear32 config bigEndian size shAddr s else s

/-- The round `d` of the loop that copies to the memory. -/
def copyByte32 (foffset paddr : BitVec 32) (s : Loaded) (d : ℕ) : Except LoadStop Loaded := do
  let a := BitVec.ofNat 32 d + paddr - config.memBase.setWidth 32
  if a.slt 0 ∨ config.memSizeBytes ≤ a.signExtend 64 then
    .error (.outside (a.signExtend 64 + config.memBase) config.memBase
      (config.memBase + config.memSizeBytes))
  else
    let dd ← l.byte ((foffset + BitVec.ofNat 32 d).signExtend 64)
    return {
      pages := ipWriteSwapped config.newPage s.pages (a.signExtend 64) dd bigEndian
      hwm := if s.hwm.slt a then a else s.hwm }

/-- What the program header at an offset of the file describes. -/
def segment32 (header : ℕ) (s : Loaded) : Except LoadStop Loaded := do
  let foffset ← es32 bigEndian <$> l.word (header + 4)
  let paddr ← es32 bigEndian <$> l.word (header + 12)
  let size ← es32 bigEndian <$> l.word (header + 16)
  (List.range size.toInt.toNat).foldlM (copyByte32 config l bigEndian foffset paddr) s

/-- The branch for `ELFCLASS32`, with the entry point. -/
def reader32 (s : Loaded) : Except LoadStop (Word64 × Loaded) := do
  let entrypt ← es32 bigEndian <$> l.word 24
  let shdrs ← es32 bigEndian <$> l.word 32
  let shnum ← es16 bigEndian <$> l.half 48
  let s ← (List.range shnum.toInt.toNat).foldlM
    (fun s i => section32 config l bigEndian (shdrs.toNat + 40 * i) s) s
  let phdrs ← es32 bigEndian <$> l.word 28
  let phnum ← es16 bigEndian <$> l.half 44
  let s ← (List.range phnum.toInt.toNat).foldlM
    (fun s i => segment32 config l bigEndian (phdrs.toNat + 32 * i) s) s
  return (entrypt.setWidth 64, s)

end Elf32

section Elf64

variable (config : MemoryConfig) (l : File) (bigEndian : Bool)

/-- `bss - need to clear it` -/
def clear64 (size shAddr : Word64) (s : Loaded) : Loaded :=
  (List.range size.toNat).foldl (fun s k =>
    let a := BitVec.ofNat 64 k + shAddr - config.memBase
    { pages := ipWriteSwapped config.newPage s.pages a 0 bigEndian
      hwm := if s.hwm.signExtend 64 < a then a.setWidth 32 else s.hwm }) s

/-- The section whose header is at an offset of the file. -/
def section64 (header : ℕ) (s : Loaded) : Except LoadStop Loaded := do
  let size ← es64 bigEndian <$> l.xword (header + 32)
  let type ← es32 bigEndian <$> l.word (header + 4)
  let shAddr ← es64 bigEndian <$> l.xword (header + 16)
  return if type = 8 then clear64 config bigEndian size shAddr s else s

/-- The rounds of `for (int d = 0; d<size; d++)`: a negative `d` counts as a large number. -/
def intRounds (size : Word64) : ℕ :=
  if size.toNat ≤ 2 ^ 31 then size.toNat
  else if size.toNat ≤ 2 ^ 64 - 2 ^ 31 then 2 ^ 31
  else (size.setWidth 32).toNat

/-- The round `d` of the loop that copies to the memory. -/
def copyByte64 (foffset v : Word64) (s : Loaded) (d : ℕ) : Except LoadStop Loaded := do
  let a := (BitVec.ofNat 32 d).signExtend 64 + v - config.memBase
  if config.memSizeBytes ≤ a then
    .error (.outside (a + config.memBase) config.memBase (config.memBase + config.memSizeBytes))
  else
    let dd ← l.byte (foffset + (BitVec.ofNat 32 d).signExtend 64)
    return {
      pages := ipWriteSwapped config.newPage s.pages a dd bigEndian
      hwm := if s.hwm.signExtend 64 < a then a.setWidth 32 else s.hwm }

/-- What the program header at an offset of the file describes. -/
def segment64 (header : ℕ) (s : Loaded) : Except LoadStop Loaded := do
  let foffset ← es64 bigEndian <$> l.xword (header + 8)
  let size ← es64 bigEndian <$> l.xword (header + 32)
  let v ← es64 bigEndian <$> l.xword (header + 16)
  (List.range (intRounds size)).foldlM (copyByte64 config l bigEndian foffset v) s

/-- The branch for `ELFCLASS64`, with the entry point. -/
def reader64 (s : Loaded) : Except LoadStop (Word64 × Loaded) := do
  let entrypt ← es64 bigEndian <$> l.xword 24
  let shdrs ← es64 bigEndian <$> l.xword 40
  let shnum ← es16 bigEndian <$> l.half 60
  let s ← (List.range shnum.toInt.toNat).foldlM
    (fun s i => section64 config l bigEndian (shdrs + BitVec.ofNat 64 (64 * i)).toNat s) s
  let phnum ← es16 bigEndian <$> l.half 56
  let phdrs ← es64 bigEndian <$> l.xword 32
  let s ← (List.range phnum.toInt.toNat).foldlM
    (fun s i => segment64 config l bigEndian (phdrs + BitVec.ofNat 64 (56 * i)).toNat s) s
  return (entrypt, s)

end Elf64

/-- What `reader` returns, stores through its arguments and leaves in the memory. -/
structure Reading where
  hwm : Word64
  bigEndian : Bool
  entrypt : Word64
  pages : Pages

/-- `cbgelf::reader`; its callers set `big_endian` to false. -/
def reader (config : MemoryConfig) (l : File) (bigEndian : Bool) (pages : Pages) :
    Except LoadStop Reading := do
  if (l.drop 1).take 3 ≠ [0x45, 0x4C, 0x46] then
    .error .notElf
  else
    let bigEndian := if (← l.byte 5) = 2 then true else bigEndian
    let start : Loaded := { pages := pages, hwm := 0 }
    let fileClass ← l.byte 4
    let (entrypt, s) ←
      if fileClass = 1 then reader32 config l bigEndian start
      else if fileClass = 2 then reader64 config l bigEndian start
      else .error .noClass
    return {
      hwm := s.hwm.signExtend 64
      bigEndian := bigEndian
      entrypt := entrypt
      pages := s.pages }

end Prazor.Memory.Elf
