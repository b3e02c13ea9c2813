import Prazor.Core.ArraySizes

/-!
# Bytes and bus transactions

The modelling workstation is little-endian, so a `u32_t` read through a byte
pointer has its least significant byte at the lowest address.  A generic
payload carries a command, a 64-bit address, a data pointer, the optional byte
enables and the optional load-linked extension; its response status is written
by the target.
-/

namespace Prazor

abbrev Byte := BitVec 8
abbrev Word64 := BitVec 64

/-- What a data pointer points at: byte `i` is `buffer i`. -/
abbrev Buffer := ℕ → Byte

namespace Bytes

/-- `*(u32_t *) pointer` on a little-endian workstation. -/
def load32 (buffer : Buffer) : BitVec 32 :=
  buffer 3 ++ buffer 2 ++ buffer 1 ++ buffer 0

/-- `*(u64_t *) pointer` on a little-endian workstation. -/
def load64 (buffer : Buffer) : Word64 :=
  load32 (fun i => buffer (4 + i)) ++ load32 buffer

/-- The bytes of a 32-bit word, least significant byte first. -/
def bytes32 (word : BitVec 32) : Buffer := fun i =>
  word.extractLsb' (8 * i) 8

/-- The bytes of a 64-bit word, least significant byte first. -/
def bytes64 (word : Word64) : Buffer := fun i =>
  word.extractLsb' (8 * i) 8

/-- `memcpy(destination, source, length)`. -/
def memcpy (length : ℕ) (source destination : Buffer) : Buffer := fun i =>
  if i < length then source i else destination i

theorem memcpy_of_lt {length i : ℕ} (hi : i < length)
    (source destination : Buffer) :
    memcpy length source destination i = source i := by
  simp [memcpy, hi]

@[simp]
theorem load32_bytes32 (word : BitVec 32) : load32 (bytes32 word) = word := by
  apply BitVec.eq_of_getLsbD_eq
  intro i hi
  simp only [load32, bytes32, BitVec.getLsbD_append, BitVec.getLsbD_extractLsb']
  interval_cases i <;> simp

/-- Only the first four bytes matter to a 32-bit load. -/
theorem load32_congr {left right : Buffer}
    (heq : ∀ i, i < 4 → left i = right i) : load32 left = load32 right := by
  simp [load32, heq]

theorem memcpy_congr {length : ℕ} {source source' : Buffer}
    (hsame : ∀ i, i < length → source i = source' i) (destination : Buffer) :
    memcpy length source destination = memcpy length source' destination := by
  funext i
  unfold memcpy
  split
  case isTrue hi => exact hsame i hi
  case isFalse => rfl

theorem load32_memcpy (source destination : Buffer) :
    load32 (memcpy 4 source destination) = load32 source :=
  load32_congr fun _ hi => memcpy_of_lt hi source destination

theorem bytes32_load32 (buffer : Buffer) {i : ℕ} (hi : i < 4) :
    bytes32 (load32 buffer) i = buffer i := by
  apply BitVec.eq_of_getLsbD_eq
  intro bit hbit
  simp only [load32, bytes32, BitVec.getLsbD_append, BitVec.getLsbD_extractLsb']
  interval_cases i <;> interval_cases bit <;> simp

theorem bytes64_load64 (buffer : Buffer) {i : ℕ} (hi : i < 8) :
    bytes64 (load64 buffer) i = buffer i := by
  rcases Nat.lt_or_ge i 4 with hlow | hhigh
  · rw [← bytes32_load32 buffer hlow]
    apply BitVec.eq_of_getLsbD_eq
    intro bit hbit
    have hbelow : 8 * i + bit < 32 := by omega
    simp only [load64, bytes64, bytes32, BitVec.getLsbD_append,
      BitVec.getLsbD_extractLsb', hbelow, if_true]
  · obtain ⟨j, rfl⟩ : ∃ j, i = 4 + j := ⟨i - 4, by omega⟩
    rw [← bytes32_load32 (fun i => buffer (4 + i)) (show j < 4 by omega)]
    apply BitVec.eq_of_getLsbD_eq
    intro bit hbit
    have habove : ¬8 * (4 + j) + bit < 32 := by omega
    have hshift : 8 * (4 + j) + bit - 32 = 8 * j + bit := by omega
    simp only [load64, bytes64, bytes32, BitVec.getLsbD_append,
      BitVec.getLsbD_extractLsb', habove, if_false, hshift]

theorem load32_bytes64 (word : Word64) :
    load32 (bytes64 word) = word.setWidth 32 := by
  apply BitVec.eq_of_getLsbD_eq
  intro i hi
  simp only [load32, bytes64, BitVec.getLsbD_append, BitVec.getLsbD_extractLsb',
    BitVec.getLsbD_setWidth]
  interval_cases i <;> simp

@[simp]
theorem setWidth_load64 (buffer : Buffer) :
    (load64 buffer).setWidth 32 = load32 buffer := by
  rw [load64, BitVec.setWidth_append]
  simp

/-- The bytes of a doubleword make it up. -/
theorem eq_of_bytes64 {left right : Word64} (hsame : ∀ i < 8, bytes64 left i = bytes64 right i) :
    left = right := by
  apply BitVec.eq_of_getLsbD_eq
  intro bit hbit
  have hbyte := congrArg (fun byte : Byte => byte.getLsbD (bit % 8)) (hsame (bit / 8) (by omega))
  simpa only [bytes64, BitVec.getLsbD_extractLsb', Nat.mod_lt bit (by decide : 0 < 8),
    decide_true, Bool.true_and, Nat.div_add_mod] using hbyte

theorem load64_bytes64 (word : Word64) : load64 (bytes64 word) = word :=
  eq_of_bytes64 fun _ hi => bytes64_load64 _ hi

theorem load64_congr {left right : Buffer} (hsame : ∀ i < 8, left i = right i) :
    load64 left = load64 right := by
  have hhigh : load32 (fun i => left (4 + i)) = load32 (fun i => right (4 + i)) :=
    load32_congr fun i hi => hsame (4 + i) (by omega)
  rw [load64, load64, hhigh, load32_congr fun i hi => hsame i (by omega)]

end Bytes

namespace Tlm

inductive Command where
  | read
  | write
  | ignore
  deriving DecidableEq, Repr

inductive Response where
  | incomplete
  | ok
  | genericError
  | addressError
  | burstError
  deriving DecidableEq, Repr

/-- The fields of a generic payload that the modelled components read or
write.  `llsc` is the identity carried by a load-linked / store-conditional
extension, absent on a plain transaction. -/
structure Payload where
  command : Command
  address : Word64
  data : Buffer
  dataLength : ℕ
  byteEnable : Option Buffer
  byteEnableLength : ℕ
  llsc : Option ℕ
  response : Response

end Tlm

end Prazor
