import Prazor.Core.Payload

/-!
# The heap of prlibc

`malloc` moves a pointer through the heap and puts the size of each block in the
four bytes below it.  The sizes are `int`, the pointers 32-bit words.  Which bytes
the library has read or written is recorded, so that it can be said that it stays
inside the heap.  A result of `none` is the message that the heap is exhausted,
after which the program exits.
-/

namespace Prazor.Crt

open Prazor.Bytes

abbrev Word := BitVec 32

/-- `HEAPBASE` and `HEAPEND`, which a makefile gives for each board. -/
structure HeapMap where
  heapBase : Word
  heapEnd : Word
  base_aligned : heapBase.toNat % 4 = 0
  end_aligned : heapEnd.toNat % 4 = 0
  base_le_end : heapBase.toNat ≤ heapEnd.toNat
  end_lt : heapEnd.toNat < 2 ^ 31

/-- The heap of the ARM images. -/
def armHeap : HeapMap where
  heapBase := 0x10000000
  heapEnd := 0x7FF00000
  base_aligned := rfl
  end_aligned := rfl
  base_le_end := by decide
  end_lt := by decide

/-- The memory, the pointer and the bytes that were touched. -/
structure Heap where
  bytes : Word → Byte
  heapbase : Word
  touched : Set Word

namespace Heap

/-- The bytes from an address on become those of a source. -/
def fill (heap : Heap) (address : Word) (length : ℕ) (source : Buffer) : Heap :=
  { heap with
    bytes := fun other =>
      if (other - address).toNat < length then source (other - address).toNat
      else heap.bytes other
    touched := heap.touched ∪ {other | (other - address).toNat < length} }

def store32 (heap : Heap) (address data : Word) : Heap :=
  heap.fill address 4 (bytes32 data)

def store8 (heap : Heap) (address : Word) (data : Byte) : Heap :=
  { heap with
    bytes := Function.update heap.bytes address data
    touched := insert address heap.touched }

/-- The word that a pointer points at. -/
def word (heap : Heap) (address : Word) : Word :=
  load32 fun i => heap.bytes (address + BitVec.ofNat 32 i)

def touch32 (heap : Heap) (address : Word) : Heap :=
  { heap with touched := heap.touched ∪ {other | (other - address).toNat < 4} }

/-- `*dest = *src` -/
def copy8 (heap : Heap) (src dest : Word) : Heap :=
  { heap with
    bytes := Function.update heap.bytes dest (heap.bytes src)
    touched := insert dest (insert src heap.touched) }

end Heap

/-- The rounds of `while (--length >= 0) *(dest++) = *(src++)`. -/
def bcopyRounds (heap : Heap) (src dest : Word) : ℕ → Heap
  | 0 => heap
  | rounds + 1 => bcopyRounds (heap.copy8 src dest) (src + 1) (dest + 1) rounds

def bcopy (heap : Heap) (src dest length : Word) : Heap :=
  bcopyRounds heap src dest length.toInt.toNat

variable (map : HeapMap)

def malloc (heap : Heap) (size : Word) : Heap × Option Word :=
  let size := (size + 3) &&& ~~~(3 : Word)
  let size := size + 4
  let heap := heap.store32 heap.heapbase (size - 4)
  let r := heap.heapbase + 4
  if map.heapEnd < r then (heap, none)
  else ({ heap with heapbase := heap.heapbase + size }, some r)

/-- The rounds of `for (i = 0; i < num*size; ++i) r[i] = 0`. -/
def zeroRounds (heap : Heap) (r : Word) : ℕ → Heap
  | 0 => heap
  | rounds + 1 => (zeroRounds heap r rounds).store8 (r + BitVec.ofNat 32 rounds) 0

def calloc (heap : Heap) (num size : Word) : Heap × Option Word :=
  match malloc map heap (num * size) with
  | (heap, none) => (heap, none)
  | (heap, some r) => (zeroRounds heap r (num * size).toInt.toNat, some r)

/-- `free` does nothing. -/
def free (heap : Heap) (_x : Word) : Heap := heap

def realloc (heap : Heap) (ptr size : Word) : Heap × Option Word :=
  if ptr = 0 then malloc map heap size
  else
    let cur := heap.word (ptr - 4)
    let heap := heap.touch32 (ptr - 4)
    if cur.sle size then (heap, some ptr)
    else
      match malloc map heap size with
      | (heap, none) => (heap, none)
      | (heap, some newp) => (free (bcopy heap ptr newp cur) ptr, some newp)

end Prazor.Crt
