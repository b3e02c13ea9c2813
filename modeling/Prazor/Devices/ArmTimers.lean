import Prazor.Core.Guarded
import Prazor.Core.Payload

/-!
# The register files of the timers

`arm_ttc` has three timers whose registers are elements of arrays, and `arm_glbt`
one timer with some registers for each core.  Both decode the offset of a register
for reads and for writes apart.  `none` is a failed assertion, or an index outside
an array.  Of the threads that count only the start is modelled, which clears a bit
of the counter control; what a read of a counter gives is an input.
-/

namespace Prazor.Devices.Timers

open Prazor.Tlm Prazor.Bytes

abbrev Word := BitVec 32

/-- An element of an array of three. -/
def elementAt {α : Type*} (array : Fin 3 → α) (index : ℕ) : Option α :=
  if h : index < 3 then some (array ⟨index, h⟩) else none

/-- The array with another element. -/
def setElement {α : Type*} (array : Fin 3 → α) (index : ℕ) (value : α) :
    Option (Fin 3 → α) :=
  if h : index < 3 then some (Function.update array ⟨index, h⟩ value) else none

/-- The address of a write: that of the upper word if its lanes are enabled. -/
def writeAddress (payload : Payload) : Word :=
  let adr := payload.address.setWidth 32
  match payload.byteEnable with
  | some lanes => if lanes 4 = 0xFF then adr + 4 else adr
  | none => adr

/-- The answer of a read that copies a word to the data. -/
def copied (payload : Payload) (word : Word) : Payload :=
  { payload with data := memcpy 4 (bytes32 word) payload.data }

/-! ## The triple timer counter -/

/-- `timerInterval` is in picoseconds. -/
structure ArmTtc where
  clockControl : Fin 3 → BitVec 8
  counterControl : Fin 3 → BitVec 8
  intervalCounter : Fin 3 → BitVec 16
  matchCounter : Fin 3 → Fin 3 → BitVec 16
  interruptRegister : Fin 3 → BitVec 8
  interruptEnable : Fin 3 → BitVec 8
  eventControlTimer : Fin 3 → BitVec 8
  eventRegister : Fin 3 → BitVec 16
  timerInterval : Fin 3 → ℕ

def ttc0BaseAddr : Word := 0xf8001000

/-- The reads of `arm_ttc::b_access`, with the values of the counters now; an offset
without a case leaves the data. -/
def ArmTtc.read (ttc : ArmTtc) (now : Fin 3 → Word) (offset : ℕ) (payload : Payload) :
    Option (ArmTtc × Payload) :=
  let give (word : Option Word) := word.map fun word => (ttc, copied payload word)
  match offset with
  | 0x0 | 0x4 | 0x8 =>
      give ((elementAt ttc.clockControl (offset / 4)).map fun data => data.setWidth 32)
  | 0xC | 0x10 | 0x14 =>
      give ((elementAt ttc.counterControl ((offset - 0xC) / 4)).map fun data => data.setWidth 32)
  | 0x18 | 0x1C | 0x20 => give (elementAt now ((offset - 0x18) / 4))
  | 0x24 | 0x28 | 0x2C =>
      give ((elementAt ttc.intervalCounter ((offset - 0x20) / 4)).map fun data => data.setWidth 32)
  | 0x30 | 0x34 | 0x38 | 0x3C | 0x40 | 0x44 | 0x48 | 0x4C | 0x50 =>
      let index := (offset - 0x30) / 4
      give ((elementAt ttc.matchCounter (index / 3)).bind fun counters =>
        (elementAt counters (index % 3)).map fun data => data.setWidth 32)
  | 0x54 | 0x58 | 0x5C =>
      let index := (offset - 0x54) / 4
      (elementAt ttc.interruptRegister index).bind fun data =>
        (setElement ttc.interruptRegister index 0).map fun cleared =>
          ({ ttc with interruptRegister := cleared }, copied payload (data.setWidth 32))
  | 0x60 | 0x64 | 0x68 =>
      give ((elementAt ttc.interruptEnable ((offset - 0x60) / 4)).map fun data => data.setWidth 32)
  | 0x6C | 0x70 | 0x74 =>
      give ((elementAt ttc.eventControlTimer ((offset - 0x6C) / 4)).map fun data =>
        data.setWidth 32)
  | 0x78 | 0x7C | 0x80 =>
      give ((elementAt ttc.eventRegister ((offset - 0x78) / 4)).map fun data => data.setWidth 32)
  | _ => some (ttc, payload)

/-- The prescaler of a write of a clock control register. -/
def prescaler (data : Word) : ℕ := 2 ^ (((data &&& 0x1E) >>> 1).toNat + 1)

/-- The writes of `arm_ttc::b_access`, with the period of the clock. -/
def ArmTtc.write (ttc : ArmTtc) (period offset : ℕ) (data : Word) : Option ArmTtc :=
  match offset with
  | 0x0 | 0x4 | 0x8 =>
      let index := offset / 4
      if data.getLsbD 6 = false ∧ data.getLsbD 5 = false then
        (setElement ttc.clockControl index (data.setWidth 8)).bind fun clockControl =>
          if data.getLsbD 0 then
            (elementAt ttc.timerInterval index).bind fun interval =>
              if interval = 0 then
                (setElement ttc.timerInterval index (period * prescaler data)).map
                  fun timerInterval =>
                    { ttc with clockControl := clockControl, timerInterval := timerInterval }
              else none
          else some { ttc with clockControl := clockControl }
      else none
  | 0xC | 0x10 | 0x14 =>
      (setElement ttc.counterControl ((offset - 0xC) / 4) (data.setWidth 8)).map
        fun counterControl => { ttc with counterControl := counterControl }
  | 0x24 | 0x28 | 0x2C =>
      (setElement ttc.intervalCounter ((offset - 0x24) / 4) (data.setWidth 16)).map
        fun intervalCounter => { ttc with intervalCounter := intervalCounter }
  | 0x30 | 0x34 | 0x38 | 0x3C | 0x40 | 0x44 | 0x48 | 0x4C | 0x50 =>
      let index := (offset - 0x30) / 4
      (elementAt ttc.matchCounter (index / 3)).bind fun counters =>
        (setElement counters (index % 3) (data.setWidth 16)).bind fun counters =>
          (setElement ttc.matchCounter (index / 3) counters).map fun matchCounter =>
            { ttc with matchCounter := matchCounter }
  | 0x60 | 0x64 | 0x68 =>
      (setElement ttc.interruptEnable ((offset - 0x60) / 4) (data.setWidth 8)).map
        fun interruptEnable => { ttc with interruptEnable := interruptEnable }
  | _ => none

/-- `arm_ttc::b_access`. -/
def ArmTtc.bAccess (ttc : ArmTtc) (now : Fin 3 → Word) (period : ℕ) (payload : Payload) :
    Option (ArmTtc × Payload) :=
  match payload.command with
  | .read =>
      if payload.dataLength = 4 then
        (ttc.read now ((payload.address.setWidth 32 - ttc0BaseAddr).toNat) payload).map
          fun answer => (answer.1, { answer.2 with response := .ok })
      else none
  | .write =>
      if payload.dataLength = 8 then
        (ttc.write period ((writeAddress payload - ttc0BaseAddr).toNat)
          (load32 payload.data)).map fun ttc => (ttc, { payload with response := .ok })
      else none
  | .ignore => none

/-- The thread `arm_ttc::run_timer` from its wait for a start to the next one: it clears
the restart bit of the counter control, and asserts that the clock runs. -/
def ArmTtc.runTimer (ttc : ArmTtc) (id : Fin 3) : Option ArmTtc :=
  if ttc.timerInterval id = 0 then none
  else
    some { ttc with
      counterControl :=
        Function.update ttc.counterControl id (ttc.counterControl id &&& ~~~0x10) }

/-! ## The global timer -/

structure ArmGlbt (nCpus : ℕ) where
  timerCounter : BitVec 64
  timerEnabled : Bool
  prescaler : BitVec 8
  compEnabled : Fin nCpus → Bool
  irqEnabled : Fin nCpus → Bool
  autoIncrement : Fin nCpus → Bool
  interruptStatus : Fin nCpus → Bool
  comparator : Fin nCpus → BitVec 64
  autoIncrementValue : Fin nCpus → Word

def periphbase : Word := 0xf8f00000

/-- `adr - GLBT_BASE_ADDR`, where the macro stands for `PERIPHBASE+0x200`. -/
def glbtOffset (adr : Word) : Word := adr - periphbase + 0x200

variable {nCpus : ℕ}

/-- A flag as a word. -/
def flag (b : Bool) : Word := (BitVec.ofBool b).setWidth 32

/-- The control register as a core reads it. -/
def ArmGlbt.control (glbt : ArmGlbt nCpus) (idx : Fin nCpus) : Word :=
  glbt.prescaler.setWidth 32 <<< 8 ||| flag (glbt.autoIncrement idx) <<< 3 |||
    flag (glbt.irqEnabled idx) <<< 2 ||| flag (glbt.compEnabled idx) <<< 1 |||
    flag glbt.timerEnabled

/-- The reads of `arm_glbt::b_access`, with the value of the counter now. -/
def ArmGlbt.read (glbt : ArmGlbt nCpus) (idx : Fin nCpus) (now : BitVec 64) (offset : ℕ)
    (payload : Payload) : Payload :=
  let counter := if glbt.timerEnabled then now else glbt.timerCounter
  match offset with
  | 0x0 => copied payload ((counter <<< 32 >>> 32).setWidth 32)
  | 0x4 => copied payload ((counter >>> 32).setWidth 32)
  | 0x8 => copied payload (glbt.control idx)
  | 0xC => copied payload (flag (glbt.interruptStatus idx))
  | 0x10 => copied payload ((glbt.comparator idx <<< 32 >>> 32).setWidth 32)
  | 0x14 => copied payload ((glbt.comparator idx <<< 32 >>> 32).setWidth 32)
  | 0x18 => copied payload (glbt.autoIncrementValue idx)
  | _ => payload

/-- A word with another lower half, and with another upper half. -/
def withLow (word : BitVec 64) (data : Word) : BitVec 64 :=
  (word >>> 32) <<< 32 ||| data.setWidth 64

def withHigh (word : BitVec 64) (data : Word) : BitVec 64 :=
  data.setWidth 64 <<< 32 ||| (word <<< 32) >>> 32

/-- The writes of `arm_glbt::b_access`; an offset without a case leaves the registers. -/
def ArmGlbt.write (glbt : ArmGlbt nCpus) (idx : Fin nCpus) (offset : ℕ) (data : Word) :
    Option (ArmGlbt nCpus) :=
  match offset with
  | 0x0 => some { glbt with timerCounter := withLow glbt.timerCounter data }
  | 0x4 => some { glbt with timerCounter := withHigh glbt.timerCounter data }
  | 0x8 =>
      some { glbt with
        prescaler := (data >>> 8).setWidth 8
        autoIncrement := Function.update glbt.autoIncrement idx (data.getLsbD 3)
        irqEnabled := Function.update glbt.irqEnabled idx (data.getLsbD 2)
        compEnabled := Function.update glbt.compEnabled idx (data.getLsbD 1)
        timerEnabled := data.getLsbD 0 }
  | 0xC =>
      if data = 1 then
        some { glbt with interruptStatus := Function.update glbt.interruptStatus idx false }
      else none
  | 0x10 =>
      some { glbt with
        comparator := Function.update glbt.comparator idx (withLow (glbt.comparator idx) data) }
  | 0x14 =>
      some { glbt with
        comparator := Function.update glbt.comparator idx (withHigh (glbt.comparator idx) data) }
  | 0x18 =>
      some { glbt with
        autoIncrementValue := Function.update glbt.autoIncrementValue idx data }
  | _ => some glbt

/-- `arm_glbt::b_access`, which does not set the response. -/
def ArmGlbt.bAccess (glbt : ArmGlbt nCpus) (idx : Fin nCpus) (now : BitVec 64)
    (payload : Payload) : Option (ArmGlbt nCpus × Payload) :=
  match payload.command with
  | .read =>
      if payload.dataLength = 4 then
        some (glbt, glbt.read idx now (glbtOffset (payload.address.setWidth 32)).toNat payload)
      else none
  | .write =>
      if payload.dataLength = 8 then
        (glbt.write idx (glbtOffset (writeAddress payload)).toNat (load32 payload.data)).map
          fun glbt => (glbt, payload)
      else none
  | .ignore => none

end Prazor.Devices.Timers
