import Prazor.Arm.Cp15
import Prazor.Core.Guarded

/-!
# The alternate branch target buffer

A call through a trampoline of the dynamic linker executes three instructions
that load the program counter from a slot of a table, the via.
`alternate_banch_target_buffer` watches the instructions a core decodes.  When it
sees a trampoline it remembers the via and waits for the linker to patch it; the
store that does so installs the address of the trampoline with its destination,
and from then on branches to the trampoline go straight there.  A later store to
the via empties the buffer.  The core here executes the instructions in its
memory, of which only those of a trampoline have a meaning of their own, and the
steps between are any others.
-/

namespace Prazor.Arm.Abtb

/-- An entry of `m_abtable`.  The tag is `-1` when it is not valid. -/
structure Entry where
  tag : Word
  finalDest : Word

/-- `abt`, with the table and its index mask. -/
structure Buffer where
  tDet : ℕ
  viaToSrc : Word → Option Word
  via : Word → Bool
  abtbViaEntries : Word → Bool
  table : Word → Entry

/-- The first instruction of a trampoline, `add ip, pc, #`. -/
def isAddPc (ins : Word) : Bool := ins &&& 0xFFFFF000 == 0xE28FC000

/-- The second, `add ip, ip, #`. -/
def isAddIp (ins : Word) : Bool := ins &&& 0xFFFFF000 == 0xE28CC000

/-- The third, `ldr pc, [ip, #]!`. -/
def isLdrPc (ins : Word) : Bool := ins &&& 0xFFFFF000 == 0xE5BCF000

/-- The address the third instruction loads from, as `ins32_monitor` finds it.
The test for an index compares where it means to shift. -/
def operandAddress (ins ip : Word) : Word :=
  if 24 < ins.toNat then
    if ins.getLsbD 23 then ip + (ins &&& 0xFFF) else ip - (ins &&& 0xFFF)
  else ip

namespace Buffer

/-- After the constructor: no entry is valid. -/
def made (finalDest : Word → Word) : Buffer where
  tDet := 0
  viaToSrc := fun _ => none
  via := fun _ => false
  abtbViaEntries := fun _ => false
  table := fun i => { tag := -1, finalDest := finalDest i }

/-- The third instruction of a trampoline was seen: wait for a store to the via.
It fails an assertion when the buffer waits there for another trampoline. -/
def await (abt : Buffer) (address src : Word) : Option Buffer :=
  if abt.via address = false then
    if abt.viaToSrc address = none then
      some { abt with
        via := Function.update abt.via address true
        viaToSrc := Function.update abt.viaToSrc address (some src) }
    else none
  else if abt.viaToSrc address = some src then some abt
  else none

/-- `ins32_monitor` -/
def ins32Monitor (abt : Buffer) (ins ip pc : Word) : Option Buffer :=
  if abt.tDet = 0 ∧ ins &&& 0xF800D000 = 0xF000C000 then some { abt with tDet := 1 }
  else if abt.tDet = 1 then some { abt with tDet := if isAddPc ins then 2 else 0 }
  else if abt.tDet = 2 then some { abt with tDet := if isAddIp ins then 3 else 0 }
  else if abt.tDet = 3 then
    if isLdrPc ins then
      (abt.await (operandAddress ins ip) (pc - 16)).map fun abt => { abt with tDet := 0 }
    else some { abt with tDet := 0 }
  else some abt

/-- `hash` -/
def hash (mask address : Word) : Word := (address >>> 2) &&& mask

/-- The state bit of `cpsr` and the address of a branch to a loaded value, the
same lines in `query` and in the load to the program counter. -/
def branchTo (value cpsr : Word) : Word × Word :=
  if value.getLsbD 0 then (value &&& ~~~1, cpsr ||| (1 <<< 5))
  else if value.getLsbD 1 = false then (value, cpsr &&& ~~~((1 : Word) <<< 5))
  else (value, cpsr)

/-- `query`: where a branch to `pc` goes instead, with the new `cpsr`. -/
def query (mask : Word) (abt : Buffer) (pc cpsr : Word) : Option (Word × Word) :=
  if (abt.table (hash mask pc)).tag = pc then
    some (branchTo (abt.table (hash mask pc)).finalDest cpsr)
  else none

/-- `invalidate_all` -/
def invalidateAll (mask : Word) (abt : Buffer) : Buffer :=
  { abt with table := fun i => if i ≤ mask then { abt.table i with tag := -1 } else abt.table i }

/-- The via that was stored to is patched: its trampoline is installed. -/
def install (mask : Word) (abt : Buffer) (address src data : Word) : Buffer :=
  { abt with
    abtbViaEntries := Function.update abt.abtbViaEntries address true
    table := Function.update abt.table (hash mask src) { tag := src, finalDest := data }
    via := Function.update abt.via address false
    viaToSrc := Function.update abt.viaToSrc address none }

/-- A store to the via of an installed trampoline empties the buffer. -/
def flush (mask : Word) (abt : Buffer) (address : Word) : Buffer :=
  if abt.abtbViaEntries address then
    { abt.invalidateAll mask with abtbViaEntries := fun _ => false }
  else abt

/-- `written_address_snoop` -/
def writtenAddressSnoop (mask : Word) (abt : Buffer) (address data : Word) :
    Option Buffer :=
  let abt := abt.flush mask address
  if abt.via address then
    (abt.viaToSrc address).map fun src => abt.install mask address src data
  else some abt

end Buffer

section Memory

abbrev Memory := Word → Byte

/-- The word at an address. -/
def word (mem : Memory) (address : Word) : Word :=
  Bytes.load32 fun i => mem (address + BitVec.ofNat 32 i)

/-- The halfword at an address. -/
def halfword (mem : Memory) (address : Word) : BitVec 16 := mem (address + 1) ++ mem address

/-- A store of 1, 2, 4 or 8 bytes, as `insSizeCode` has it, of a register or a
pair of registers. -/
structure Store where
  address : Word
  sizeCode : Fin 4
  value : Word64

/-- Memory after a store. -/
def write (mem : Memory) (store : Store) : Memory := fun address =>
  if (address - store.address).toNat < 2 ^ store.sizeCode.val then
    Bytes.bytes64 store.value (address - store.address).toNat
  else mem address

/-- The immediate of a data instruction: eight bits, rotated. -/
def expandImm (ins : Word) : Word :=
  (ins &&& 0xFF).rotateRight (2 * ((ins >>> 8) &&& 0xF).toNat)

/-- The via of the trampoline at an address, if there is one. -/
def trampoline (mem : Memory) (address : Word) : Option Word :=
  if isAddPc (word mem address) && isAddIp (word mem (address + 4)) &&
      isLdrPc (word mem (address + 8)) then
    some (address + 8 + expandImm (word mem address) + expandImm (word mem (address + 4)) +
      (word mem (address + 8) &&& 0xFFF))
  else none

end Memory

section Core

/-- The core: memory, the address of the next instruction, register 12 and the
flags, and its buffer. -/
structure Cpu where
  mem : Memory
  pc : Word
  ip : Word
  cpsr : Word
  abt : Buffer

/-- What an instruction without a meaning here, or one that is stopped (by a
fault, or by the conditions of an IT block), leaves. -/
structure Effect where
  pc : Word
  ip : Word
  cpsr : Word
  stopped : Bool

inductive Event where
  /-- The core decodes and executes the instruction at its program counter. -/
  | instr (effect : Effect)
  /-- It takes an exception, or changes its state in any other way. -/
  | exception (effect : Effect)
  /-- The store of its last instruction goes to the buffer and to memory, unless
  it faults. -/
  | store (store : Store) (done : Bool)
  /-- A store the buffer does not see: by another core or a device, exclusive, or
  of floating point registers. -/
  | foreign (store : Store)

namespace Cpu

/-- The thumb state bit. -/
def thumb (cpu : Cpu) : Bool := cpu.cpsr.getLsbD 5

/-- The instruction the monitor is given, with the register of the program
counter: every ARM instruction, and the Thumb instructions of 32 bits that execute,
when that register has advanced by the first halfword only. -/
def monitored (cpu : Cpu) (effect : Effect) : Option (Word × Word) :=
  if cpu.thumb then
    if 0x1D ≤ (halfword cpu.mem cpu.pc >>> 11).toNat ∧ effect.stopped = false then
      some (halfword cpu.mem cpu.pc ++ halfword cpu.mem (cpu.pc + 2), cpu.pc + 6)
    else none
  else some (word cpu.mem cpu.pc, cpu.pc + 8)

/-- What an instruction does to the core. -/
def execute (cpu : Cpu) (effect : Effect) : Cpu :=
  let ins := word cpu.mem cpu.pc
  if cpu.thumb || effect.stopped then
    { cpu with pc := effect.pc, ip := effect.ip, cpsr := effect.cpsr }
  else if isAddPc ins then
    { cpu with pc := cpu.pc + 4, ip := cpu.pc + 8 + expandImm ins }
  else if isAddIp ins then { cpu with pc := cpu.pc + 4, ip := cpu.ip + expandImm ins }
  else if isLdrPc ins then
    let address := cpu.ip + (ins &&& 0xFFF)
    let branch := Buffer.branchTo (word cpu.mem address) cpu.cpsr
    { cpu with pc := branch.1, ip := address, cpsr := branch.2 }
  else { cpu with pc := effect.pc, ip := effect.ip, cpsr := effect.cpsr }

/-- The buffer after it has watched an instruction. -/
def watch (cpu : Cpu) (effect : Effect) : Option Buffer :=
  match cpu.monitored effect with
  | some (ins, pc) => cpu.abt.ins32Monitor ins cpu.ip pc
  | none => some cpu.abt

/-- A step, `none` when an assertion of the buffer fails. -/
def step (mask : Word) (cpu : Cpu) : Event → Option Cpu
  | .instr effect => (cpu.watch effect).map fun abt => { cpu.execute effect with abt := abt }
  | .exception effect =>
      some { cpu with pc := effect.pc, ip := effect.ip, cpsr := effect.cpsr }
  | .store store done =>
      (cpu.abt.writtenAddressSnoop mask store.address (store.value.setWidth 32)).map fun abt =>
        { cpu with mem := if done then write cpu.mem store else cpu.mem, abt := abt }
  | .foreign store => some { cpu with mem := write cpu.mem store }

end Cpu

end Core

end Prazor.Arm.Abtb
