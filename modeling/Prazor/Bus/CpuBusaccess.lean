import Prazor.Core.Payload

/-!
# The bus access unit of a simulated CPU

`cpu_busaccess` turns loads and stores of the instruction set simulator into
transactions.  A 32-bit store is sent as an aligned doubleword carrying the
word in both halves, with byte enables choosing one half.  A 32-bit load of an
uncached address is sent as a four-byte read of that address; any other load is
sent as a doubleword read from which one half is taken.

No atomic prefix is pending in the operations modelled here, and the targets
grant no direct memory pointer, so every load and store becomes one
transaction.
-/

namespace Prazor.Bus

open Prazor.Tlm Prazor.Bytes

/-- `UNCACHED_ADDRESS_SPACE64`. -/
def uncachedAddressSpace64 (address : Word64) : Bool :=
  0xE0000000 ≤ address

/-- The byte enable array built from a lane mask: entry `i ^ ENDIAN_FLIP` is
`0xFF` when bit `i` of the mask is set. -/
def laneEnables (endianFlip : ℕ) (mask : BitVec 8) : Buffer :=
  (List.range 8).foldl
    (fun bmask i =>
      Function.update bmask (i ^^^ endianFlip)
        (if mask.getLsbD i then 0xFF else 0x00))
    (fun _ => 0)

/-- The transaction `mem_write` sends.  A zero mask means all eight lanes. -/
def memWrite (endianFlip : ℕ) (memaddr : Word64) (mask : BitVec 8)
    (wdata : Word64) : Payload :=
  { command := .write
    address := memaddr
    data := bytes64 wdata
    dataLength := 8
    byteEnable := if mask = 0 then none else some (laneEnables endianFlip mask)
    byteEnableLength := if mask = 0 then 0 else 8
    llsc := none
    response := .incomplete }

/-- The transaction `mem_read` sends when it is not linked.  `stale` is the
content of the caller's uninitialised `rdata`, which the target overwrites as
far as it answers. -/
def memRead (memaddr : Word64) (not64 : ℕ) (stale : Word64) : Payload :=
  { command := .read
    address := memaddr
    data := bytes64 stale
    dataLength := if not64 ≠ 3 then 4 else 8
    byteEnable := none
    byteEnableLength := 0
    llsc := none
    response := .incomplete }

/-- The transaction of a 32-bit store: bit 2 of the address moves from the
address into the lane mask. -/
def setMem32 (endianFlip : ℕ) (memaddr : Word64) (wdata : BitVec 32) : Payload :=
  memWrite endianFlip (memaddr &&& ~~~4) (15 <<< (memaddr &&& 4).toNat)
    (wdata.setWidth 64 <<< 32 ||| wdata.setWidth 64)

/-- The transaction of a 64-bit store, for which no lane is disabled. -/
def setMem64 (endianFlip : ℕ) (memaddr : Word64) (wdata : Word64) : Payload :=
  memWrite endianFlip memaddr 0 wdata

/-- The transaction of a 16-bit store. -/
def setMem16 (endianFlip : ℕ) (memaddr : Word64) (wdata : BitVec 16) : Payload :=
  let wd : Word64 := wdata.setWidth 64 <<< 16 ||| wdata.setWidth 64
  memWrite endianFlip (memaddr &&& ~~~6) (3 <<< (memaddr &&& 6).toNat) (wd ||| wd <<< 32)

/-- The transaction of a byte store. -/
def setMem8 (endianFlip : ℕ) (memaddr : Word64) (wdata : BitVec 8) : Payload :=
  let wd : Word64 := wdata.setWidth 64 <<< 8 ||| wdata.setWidth 64
  let wd := wd ||| wd <<< 16
  memWrite endianFlip (memaddr &&& ~~~7) (1 <<< (memaddr &&& 7).toNat) (wd ||| wd <<< 32)

/-- The widths of an access. -/
inductive Width where
  | w8
  | w16
  | w32
  | w64
  deriving DecidableEq, Repr

abbrev Width.bytes : Width → ℕ
  | .w8 => 1
  | .w16 => 2
  | .w32 => 4
  | .w64 => 8

abbrev Width.bits (width : Width) : ℕ := 8 * width.bytes

/-- `mask_left`, `mask_right`, `short_write_masks` and `byte_write_masks`: the lanes of
one of the pieces of a doubleword. -/
def writeMask (bytes piece : ℕ) : Buffer := fun i => if i / bytes = piece then 0xFF else 0

/-- The transaction of `cpu_mem_store_conditional`.  The mask of a 16-bit store is
overwritten by that of a 32-bit store. -/
def storeConditional (endianFlip procID : ℕ) (memaddr value : Word64) (width : Width) :
    Payload :=
  let lane := (memaddr ^^^ BitVec.ofNat 64 endianFlip) &&& 7
  let half := writeMask 4 (lane.toNat / 4)
  let wdata : Word64 × Option Buffer :=
    match width with
    | .w64 => (value, none)
    | .w8 =>
        let value : Word64 := value &&& 0xFF
        let wdata := value ||| value <<< 8
        let wdata := wdata ||| wdata <<< 16
        (wdata ||| wdata <<< 32, some (writeMask 1 lane.toNat))
    | .w16 =>
        let value : Word64 := value &&& 0xFFFF
        let wdata := value ||| value <<< 16
        (wdata ||| wdata <<< 32, some half)
    | .w32 =>
        let value : Word64 := value &&& 0xFFFFFFFF
        (value ||| value <<< 32, some half)
  { command := .write
    address := memaddr &&& ~~~7
    data := bytes64 wdata.1
    dataLength := 8
    byteEnable := wdata.2
    byteEnableLength := if width = .w64 then 0 else 8
    llsc := some procID
    response := .incomplete }

variable {Target : Type*}

/-- `cpu_mem_store_conditional` through the socket: 1 for success, 0 for failure and 2
for an error of the target. -/
def cpuMemStoreConditional (endianFlip procID : ℕ)
    (socket : Target → Payload → Target × Payload) (target : Target)
    (memaddr value : Word64) (width : Width) : Target × ℕ :=
  let answer := socket target (storeConditional endianFlip procID memaddr value width)
  (answer.1,
    match answer.2.response with
    | .ok => 1
    | .genericError => 2
    | _ => 0)

/-- A read of a doubleword or, for `not64 = 2`, of a word; `none` when the target answers
with an error. -/
def loadThrough (socket : Target → Payload → Target × Payload) (target : Target)
    (memaddr : Word64) (not64 : ℕ) (stale : Word64) : Target × Option Word64 :=
  let answer := socket target (memRead memaddr not64 stale)
  (answer.1, if answer.2.response = .ok then some (load64 answer.2.data) else none)

/-- A 64-bit load through the socket. -/
def evalMem64 (socket : Target → Payload → Target × Payload) (target : Target)
    (memaddr stale : Word64) : Target × Option Word64 :=
  loadThrough socket target memaddr 3 stale

/-- The two bytes of a load that crosses into the next doubleword, put together.  With
`bigEndianDefined` the library's headers define `BIG_ENDIAN`; without it the second
doubleword is not used. -/
def splitShort (bigEndianDefined : Bool) (rdata1 rdata2 : Word64) : BitVec 16 :=
  let parts : Word64 × Word64 :=
    if bigEndianDefined then (rdata1 <<< 56 >>> 56, rdata2 >>> 56)
    else (rdata1 >>> 56, (rdata1 >>> 56) <<< 56 >>> 56)
  (parts.1 <<< 8 ||| parts.2).setWidth 16

/-- A 16-bit load through the socket. -/
def evalMem16 (bigEndianDefined : Bool) (endianFlip : ℕ)
    (socket : Target → Payload → Target × Payload) (target : Target)
    (memaddr stale : Word64) : Target × Option (BitVec 16) :=
  if (memaddr &&& ~~~7) + 8 - memaddr = 1 then
    let first := loadThrough socket target (memaddr &&& ~~~7) 3 stale
    match first.2 with
    | none => (first.1, none)
    | some rdata1 =>
        let second := loadThrough socket first.1 ((memaddr &&& ~~~7) + 8) 3 stale
        (second.1, second.2.map fun rdata2 => splitShort bigEndianDefined rdata1 rdata2)
  else
    let answer := loadThrough socket target (memaddr &&& ~~~7) 3 stale
    let flipped := ~~~(BitVec.ofNat 64 endianFlip)
    let shift := ((memaddr ^^^ flipped) &&& 7) - (flipped &&& 1)
    (answer.1, answer.2.map fun (rdata : Word64) =>
      (rdata <<< (shift * 8).toNat >>> 48).setWidth 16)

/-- A byte load through the socket. -/
def evalMem8 (endianFlip : ℕ) (socket : Target → Payload → Target × Payload)
    (target : Target) (memaddr stale : Word64) : Target × Option (BitVec 8) :=
  let flipped := BitVec.ofNat 64 endianFlip ^^^ memaddr
  if uncachedAddressSpace64 memaddr then
    let busAddress := (memaddr &&& ~~~3) ^^^ BitVec.ofNat 64 (endianFlip &&& 4)
    let answer := loadThrough socket target busAddress 2 stale
    (answer.1, answer.2.map fun (r0 : Word64) => (r0 >>> (8 * (flipped &&& 3).toNat)).setWidth 8)
  else
    let answer := loadThrough socket target (memaddr &&& ~~~7) 3 stale
    (answer.1, answer.2.map fun (r0 : Word64) => (r0 >>> (8 * (flipped &&& 7).toNat)).setWidth 8)

/-- A 32-bit load through the socket: `none` when the target answers with an
error, otherwise the loaded word. -/
def evalMem32 (endianFlip : ℕ) (socket : Target → Payload → Target × Payload)
    (target : Target) (memaddr : Word64) (stale : Word64) :
    Target × Option (BitVec 32) :=
  if uncachedAddressSpace64 memaddr then
    let busAddress := (memaddr &&& ~~~3) ^^^ BitVec.ofNat 64 (endianFlip &&& 4)
    let answer := socket target (memRead busAddress 2 stale)
    (answer.1,
      if answer.2.response = .ok then
        some ((load64 answer.2.data).setWidth 32)
      else none)
  else
    let busAddress := memaddr &&& ~~~7
    let shift := 8 * ((BitVec.ofNat 64 endianFlip ^^^ memaddr) &&& 4).toNat
    let answer := socket target (memRead busAddress 3 stale)
    (answer.1,
      if answer.2.response = .ok then
        some ((load64 answer.2.data >>> shift).setWidth 32)
      else none)

/-- The first four data bytes of a 32-bit store are the stored word, whichever
half of the doubleword the mask enables. -/
theorem load32_setMem32 (endianFlip : ℕ) (memaddr : Word64) (wdata : BitVec 32) :
    load32 (setMem32 endianFlip memaddr wdata).data = wdata := by
  simp only [setMem32, memWrite, load32_bytes64]
  apply BitVec.eq_of_getLsbD_eq
  intro i hi
  simp [hi]

end Prazor.Bus
