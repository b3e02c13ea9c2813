import Prazor.Arm.Cp15
import Prazor.Bus.AccessWidths

/-!
# Data accesses of the ARM core

`armisa_read1` and `armisa_write1` turn the loads and stores of the instruction set
simulator into operations of the bus access unit.  An access that is not aligned becomes two
or four of them, and their success codes are put together by hand.

The memory may refuse any of the transactions; one that is refused changes nothing.  The
core answers the reset vector and its backdoor registers itself.  `none` is a failed
assertion.
-/

namespace Prazor.Arm.DataAccess

open Prazor.Bus Prazor.Tlm

/-! ## The memory -/

/-- A memory, and how many transactions it has got. -/
structure Target where
  mem : LaneMemory
  served : ℕ

/-- The answers of a memory that refuses some transactions. -/
def transport (fault : ℕ → Bool) (answer : Payload → Response) (target : Target)
    (payload : Payload) : Target × Payload :=
  if fault target.served then
    ({ target with served := target.served + 1 }, { payload with response := .genericError })
  else
    let result := target.mem.transport answer payload
    ({ mem := result.1, served := target.served + 1 }, result.2)

/-! ## The core -/

/-- What the devices behind the backdoor registers give. -/
structure Backdoors where
  stdin : Word → Word
  argv : Word → Word
  argc : Word
  ticks : Word
  speedoRead : Word → Word × Bool
  speedoWrite : Word → Word64 → Bool

/-- A core at its memory.  `left` is what variables hold that are not initialised. -/
structure ArmcoreTlm where
  backdoors : Backdoors
  bigEndianDefined : Bool
  procID : ℕ
  insSizeCode : Width
  left : Word64
  fault : ℕ → Bool
  answer : Payload → Response

/-- `read_data` and `read_data64` -/
structure ReadFields where
  readData : Word
  readData64 : Word64

structure ReadResult where
  target : Target
  fields : ReadFields
  success : Bool

/-- `scp` is what is stored through the pointer. -/
structure WriteResult where
  target : Target
  success : Bool
  scp : Option ℕ

namespace ArmcoreTlm

variable (core : ArmcoreTlm)

/-- The part of a backdoor word that the instruction wants. -/
def sized (memaddr readData : Word) : Option Word :=
  match core.insSizeCode with
  | .w8 => some ((readData >>> ((memaddr &&& 3) * 8)) &&& 0xFF)
  | .w32 => some readData
  | _ => none

/-- `backdoor_reads.C`: `none` for an address that goes on to the bus. -/
def backdoorRead (memaddr : Word) : Option (Option (Word × Bool)) :=
  if memaddr &&& 0xFFFF0000 = 0xFFFD0000 ∧ memaddr &&& 0xFFFF < 0x4000 then
    some ((core.sized memaddr (core.backdoors.stdin (memaddr &&& 0xFFFF))).map
      fun readData => (readData, true))
  else if memaddr &&& 0xFFFF0000 = 0xFFFE0000 then
    some ((core.sized memaddr (core.backdoors.argv (memaddr &&& 0xFFFF))).map
      fun readData => (readData, true))
  else if memaddr &&& 0xFFFFF000 = 0xFFFD4000 then some (some (core.backdoors.speedoRead memaddr))
  else if memaddr &&& 0xFFFFFF00 = 0xFFFFFF00 then
    if memaddr &&& 0xF8 = 0x40 then some (some (core.backdoors.ticks, true))
    else if memaddr &&& 0xF8 = 0x30 then some (some (core.backdoors.argc, true))
    else if memaddr &&& 0xF8 = 0x10 then some (some (BitVec.ofNat 32 core.procID, true))
    -- `backaddr & 0xF0 == 0xF0` is `backaddr & 1`
    else if memaddr &&& 1 ≠ 0 then some none
    else some (some (0x1234DEAD, true))
  else none

/-- `backdoor_writes.C`: `none` for an address that goes on to the bus. -/
def backdoorWrite (memaddr : Word) (wdata : Word64) : Option (Option Unit) :=
  if memaddr ≥ 0xFFFFFF00 then
    if memaddr = 0xFFFFFF90 then some (some ())
    else if memaddr = 0xFFFFFFF0 then some none
    else none
  else if memaddr &&& 0xFFFFFF00 = 0xFFFD4000 ∧ core.backdoors.speedoWrite memaddr wdata then
    some (some ())
  else none

/-- `initiator_socket`; a linked load carries the processor. -/
def socket (linked : Bool) (target : Target) (payload : Payload) : Target × Payload :=
  transport core.fault core.answer target
    { payload with llsc := if linked then some core.procID else payload.llsc }

/-- `busaccess.eval_mem8` to `eval_mem64` for a little-endian core. -/
def evalMem (linked : Bool) (target : Target) (width : Width) (addr : Word64) :
    Target × Option (BitVec width.bits) :=
  Bus.evalMem core.bigEndianDefined 0 (core.socket linked) target width addr core.left

/-- Two of these operations: their data, and the success of the last one. -/
def evalTwo (linked : Bool) (target : Target) (width : Width) (first second : Word64) :
    Target × BitVec width.bits × BitVec width.bits × Bool :=
  let part1 := core.evalMem linked target width first
  let part2 := core.evalMem linked part1.1 width second
  (part2.1, part1.2.getD (core.left.setWidth _), part2.2.getD (core.left.setWidth _),
    part2.2.isSome)

/-- `armisa_read1` for data. -/
def armisaRead1 (target : Target) (fields : ReadFields) (vmemaddr : Word) (sizeCode : Width)
    (linkedf : Bool) : Option ReadResult :=
  let a64 : Word64 := vmemaddr.setWidth 64
  if vmemaddr = 0xFFFFFFFC then some ⟨target, { fields with readData := 0 }, true⟩
  else
    match core.backdoorRead vmemaddr with
    | some answer =>
        answer.map fun (readData, success) =>
          ⟨target, { fields with readData := readData }, success⟩
    | none =>
        match sizeCode with
        | .w8 =>
            let (target, r) := core.evalMem linkedf target .w8 a64
            some ⟨target, { fields with
              readData := (r.getD (core.left.setWidth _)).setWidth 32 }, r.isSome⟩
        | .w16 =>
            if a64 &&& 1 ≠ 0 then
              let (target, r1, r2, success) := core.evalTwo linkedf target .w8 a64 (a64 + 1)
              some ⟨target, { fields with
                readData := r2.setWidth 32 <<< 8 ||| r1.setWidth 32 }, success⟩
            else
              let (target, r) := core.evalMem linkedf target .w16 a64
              some ⟨target, { fields with
                readData := (r.getD (core.left.setWidth _)).setWidth 32 }, r.isSome⟩
        | .w32 =>
            if a64 &&& 3 ≠ 0 then
              let (target, part1, part2, success) :=
                core.evalTwo linkedf target .w32 (a64 &&& ~~~3) ((a64 &&& ~~~3) + 4)
              let shift1 := (a64 &&& 3).toNat * 8
              let shift2 := 32 - 8 * (a64 &&& 3).toNat
              some ⟨target, { fields with
                readData := part1 >>> shift1 ||| part2 <<< shift2 }, success⟩
            else
              let (target, r) := core.evalMem linkedf target .w32 a64
              some ⟨target, { fields with readData := r.getD fields.readData }, r.isSome⟩
        | .w64 =>
            if a64 &&& 4 ≠ 0 then
              if a64 &&& 3 ≠ 0 then none
              else
                let (target, r0, r1, success) :=
                  core.evalTwo linkedf target .w32 a64 (a64 + 4)
                some ⟨target, { fields with
                  readData64 := r0.setWidth 64 ||| r1.setWidth 64 <<< 32 }, success⟩
            else
              let (target, r) := core.evalMem linkedf target .w64 a64
              some ⟨target, { fields with readData64 := r.getD fields.readData64 }, r.isSome⟩

/-- `busaccess.set_mem8` to `set_mem64` -/
def setMem (target : Target) (width : Width) (addr : Word64) (wdata : BitVec width.bits) :
    Target × Bool :=
  let (target, payload) := core.socket false target (Bus.setMem 0 width addr wdata)
  (target, payload.response = .ok)

/-- Stores of the bytes at some offsets, as long as they succeed. -/
def setBytes (target : Target) (a64 wdata : Word64) : List ℕ → Target × Bool
  | [] => (target, true)
  | i :: rest =>
      let (target, success) :=
        core.setMem target .w8 (a64 + BitVec.ofNat 64 i) ((wdata >>> (8 * i)).setWidth 8)
      if success then setBytes target a64 wdata rest else (target, false)

/-- `busaccess.cpu_mem_store_conditional` -/
def storeConditional (target : Target) (width : Width) (addr wdata : Word64) : WriteResult :=
  let (target, outcome) :=
    cpuMemStoreConditional 0 core.procID (core.socket false) target addr wdata width
  ⟨target, true, some outcome⟩

/-- An aligned store of `armisa_write1`, with or without `scp`. -/
def writeAligned (target : Target) (width : Width) (a64 wdata : Word64) (scp : Bool) :
    WriteResult :=
  if scp then core.storeConditional target width a64 wdata
  else
    let (target, success) := core.setMem target width a64 (wdata.setWidth _)
    ⟨target, success, none⟩

/-- A store of `armisa_write1` that is split into bytes. -/
def writeSplit (target : Target) (a64 wdata : Word64) (count : ℕ) (scp : Bool) :
    Option WriteResult :=
  if scp then none
  else
    let (target, success) := core.setBytes target a64 wdata (List.range count)
    some ⟨target, success, none⟩

/-- `armisa_write1` -/
def armisaWrite1 (target : Target) (vmemaddr : Word) (wdata : Word64) (sizeCode : Width)
    (scp : Bool) : Option WriteResult :=
  let a64 : Word64 := vmemaddr.setWidth 64
  match core.backdoorWrite vmemaddr wdata with
  | some answer => answer.map fun _ => ⟨target, true, none⟩
  | none =>
      match sizeCode with
      | .w8 => some (core.writeAligned target .w8 a64 wdata scp)
      | .w16 =>
          if a64 &&& 1 ≠ 0 then core.writeSplit target a64 wdata 2 scp
          else some (core.writeAligned target .w16 a64 wdata scp)
      | .w32 =>
          if a64 &&& 3 ≠ 0 then core.writeSplit target a64 wdata 4 scp
          else some (core.writeAligned target .w32 a64 wdata scp)
      | .w64 =>
          if a64 &&& 4 ≠ 0 then
            if a64 &&& 3 ≠ 0 then none
            else
              let first := core.writeAligned target .w32 a64 (wdata <<< 32 >>> 32) scp
              some (core.writeAligned first.target .w32 (a64 + 4) (wdata >>> 32) scp)
          else some (core.writeAligned target .w64 a64 wdata scp)

end ArmcoreTlm

end Prazor.Arm.DataAccess
