import Prazor.Core.Payload

/-!
# The UART

`uart64_cbg` takes its input from a canned string or file and, when that is used up, from threads
that read characters from standard input or an xterm.  `none` is a read through a null pointer or
behind the end of the canned string.

The stats, the delay, and the opening of the xterm and of files are left out.
-/

namespace Prazor.Devices

open Prazor.Tlm Prazor.Bytes

/-! ## Registers -/

def uart2Cr : BitVec 8 := 0x00
def uart2Mr : BitVec 8 := 0x04
def uart2Ier : BitVec 8 := 0x08
def uart2Idr : BitVec 8 := 0x0C
def uart2Imr : BitVec 8 := 0x10
def uart2Isr : BitVec 8 := 0x14
def uart2Rxwm : BitVec 8 := 0x20
def uart2Sr : BitVec 8 := 0x2C
def uart2Fifo : BitVec 8 := 0x30
def uart2Txwm : BitVec 8 := 0x44

def uart2IntTxEmpty : BitVec 32 := 0x08
def uart2IntRxFull : BitVec 32 := 0x04
def uart2IntRxEmpty : BitVec 32 := 0x02
def uart2IntRxTrigger : BitVec 32 := 0x01

def uart2StatusTxEmpty : Byte := 0x08
def uart2StatusRxEmpty : Byte := 0x02

structure Uart64 where
  cannedInput : Option ℕ
  cannedText : List Byte
  cannedFd : Option (List Byte)
  logged : BitVec 32
  txready : Bool
  txInterruptLevel : BitVec 32
  rxInterruptLevel : BitVec 32
  modeRegister : BitVec 32
  interruptMaskRegister : BitVec 32
  controlRegister : BitVec 32
  readNextChar : Bool
  raisedInterrupt : Bool
  transmitChar : Bool
  irq : Bool
  sent : List Byte

namespace Uart64

/-- The constructor.  It leaves the mode register as it was. -/
def new (modeRegister : BitVec 32) : Uart64 where
  cannedInput := none
  cannedText := []
  cannedFd := none
  logged := 0
  txready := true
  txInterruptLevel := 3
  rxInterruptLevel := 3
  modeRegister := modeRegister
  interruptMaskRegister := 0
  controlRegister := 0x28
  readNextChar := true
  raisedInterrupt := false
  transmitChar := true
  irq := false
  sent := []

variable (s : Uart64)

/-! ## Input -/

/-- `testch`.  It also starts the threads that read characters. -/
def testch : Bool := s.cannedInput.isSome || s.logged != 0

/-- `interrupts_unmasked` -/
def interruptsUnmasked : BitVec 32 :=
  let exist := s.testch
  (if exist then uart2IntRxFull else 0) ||| (if exist then uart2IntRxTrigger else 0) |||
    (if exist then 0 else uart2IntRxEmpty) ||| uart2IntTxEmpty

/-- `update_interrupt` -/
def updateInterrupt : Uart64 :=
  let flip := uart2IntRxEmpty
  let unmasked := s.interruptsUnmasked
  if !s.raisedInterrupt && s.interruptMaskRegister &&& (flip ^^^ unmasked) != 0 then
    { s with raisedInterrupt := true, irq := true }
  else if s.raisedInterrupt && unmasked &&& flip != 0 then
    { s with raisedInterrupt := false, irq := false }
  else s

/-- `register_canned_input`, of a file when there is one to open. -/
def registerCannedInput (d : List Byte) (file : List Byte) : Uart64 :=
  { s with
    cannedInput := some 0
    cannedText := d
    cannedFd := if d.head? = some 0x2F ∨ d.head? = some 0x2E then some file else s.cannedFd }

/-- `*canned_input` at a place of the string, which a NUL ends. -/
def cannedChar (i : ℕ) : Option Byte := (s.cannedText ++ [0])[i]?

/-- `r = *canned_input; canned_input ++; if (!*canned_input) canned_input = 0;` -/
def nextCanned : Option (Byte × Uart64) := do
  let i ← s.cannedInput
  let r ← s.cannedChar i
  let following ← s.cannedChar (i + 1)
  some (r, { s with cannedInput := if following = 0 then none else some (i + 1) })

/-- The escapes of an immediate string. -/
def decodeEscape (r : Byte) : Byte :=
  if r = 0x71 then 0x71       -- \q
  else if r = 0x6E then 0x0A  -- \n
  else if r = 0x72 then 0x0D  -- \r
  else if r = 0x62 then 0x08  -- \b
  else if r = 0x66 then 0x0C  -- \f
  else if r = 0x5C then 0x5C  -- \\
  else if r = 0x76 then 0x0B  -- \v
  else if r = 0x74 then 0x09  -- \t
  else r &&& 0x1F

/-- `rdch_nonblock` -/
def rdchNonblock : Option (Byte × Uart64) :=
  match s.cannedInput with
  | some _ =>
      match s.cannedFd with
      | some (r :: file) => some (r, { s with cannedFd := some file })
      | some [] => some (0xFF, { s with cannedFd := none, cannedInput := none })
      | none => do
          let (r, s) ← s.nextCanned
          if r = 0x5C then
            let (r, s) ← s.nextCanned
            some (decodeEscape r, s)
          else some (r, s)
  | none =>
      if s.logged ≠ 0 then
        some (s.logged.setWidth 8, updateInterrupt { s with logged := 0 })
      else some (0, s)

/-- `status_register_read` -/
def statusRegisterRead : Byte :=
  (if s.testch then 0 else uart2StatusRxEmpty) ||| (if s.txready then uart2StatusTxEmpty else 0)

/-! ## Accesses -/

/-- `adr & 0xFC` -/
def regOffset (trans : Payload) : BitVec 8 := trans.address.setWidth 8 &&& 0xFC

/-- A read of a register: the value, and whether there is one there. -/
def readRegister (offset : BitVec 8) : Option (Byte × Response × Uart64) :=
  if offset = uart2Fifo then s.rdchNonblock.map fun (r, s) => (r, .ok, s)
  else if offset = uart2Mr then some (s.modeRegister.setWidth 8, .ok, s)
  else if offset = uart2Cr then some (s.controlRegister.setWidth 8, .ok, s)
  else if offset = uart2Imr then some (s.interruptMaskRegister.setWidth 8, .ok, s)
  else if offset = uart2Isr then
    some ((s.interruptMaskRegister &&& s.interruptsUnmasked).setWidth 8, .ok, s)
  else if offset = uart2Sr then some (s.statusRegisterRead, .ok, s)
  else if offset = uart2Rxwm then some (s.txInterruptLevel.setWidth 8, .ok, s)
  else if offset = uart2Txwm then some (s.txInterruptLevel.setWidth 8, .ok, s)
  else some (0, .addressError, s)

/-- A write of the control register. -/
def writeControl (d : Byte) : Uart64 :=
  let s := if d &&& 0x1 ≠ 0 then { s with logged := 0 } else s
  let d := if d &&& 0x1 ≠ 0 then d &&& ~~~0x1 else d
  let d := if d &&& 0x2 ≠ 0 then d &&& ~~~0x2 else d
  let s := if d &&& 0x4 ≠ 0 then { s with readNextChar := !s.readNextChar } else s
  { s with controlRegister := d.setWidth 32 }

/-- A write of a register. -/
def writeRegister (offset : BitVec 8) (d : Byte) : Response × Uart64 :=
  if offset = uart2Fifo then (.ok, { s with sent := s.sent ++ [d] })
  else if offset = uart2Cr then (.ok, s.writeControl d)
  else if offset = uart2Mr then (.ok, { s with modeRegister := d.setWidth 32 })
  else if offset = uart2Ier then
    (.ok, { s with
      interruptMaskRegister := s.interruptMaskRegister ||| d.setWidth 32
      transmitChar := if d &&& 0x8 ≠ 0 then true else s.transmitChar })
  else if offset = uart2Idr then
    (.ok, { s with
      transmitChar := if d &&& 0x8 ≠ 0 then false else s.transmitChar
      interruptMaskRegister := s.interruptMaskRegister &&& ~~~(d.setWidth 32) })
  else if offset = uart2Sr then (.genericError, s)
  else if offset = uart2Isr then (.ok, s)
  else if offset = uart2Rxwm then (.ok, { s with txInterruptLevel := d.setWidth 32 })
  else (.ok, s)

/-- `lanes && lanes[4]` -/
def hiWord (trans : Payload) : Bool :=
  match trans.byteEnable with
  | none => false
  | some lanes => lanes 4 ≠ 0

/-- `b_access` -/
def bAccess (trans : Payload) : Option (Uart64 × Payload) :=
  match trans.command with
  | .read =>
      (s.readRegister (regOffset trans)).map fun (r, rc, s) =>
        let word : Word64 := r.setWidth 64 ||| (r.setWidth 64 <<< 32)
        (s, { trans with
          data := memcpy 8 (bytes64 word) trans.data
          response := rc })
  | .write =>
      let offset := if hiWord trans then regOffset trans + 4 else regOffset trans
      let (rc, s) := s.writeRegister offset (trans.data 0)
      some (s, { trans with response := rc })
  | .ignore => some (s, { trans with response := .addressError })

/-- The value is in the lowest byte of the answer. -/
theorem data_answer (r : Byte) (data : Buffer) :
    memcpy 8 (bytes64 (r.setWidth 64 ||| (r.setWidth 64 <<< 32))) data 0 = r := by
  rw [memcpy_of_lt (by decide)]
  apply BitVec.eq_of_getLsbD_eq
  intro i hi
  have hlow : i < 32 := by omega
  have hword : i < 64 := by omega
  simp [bytes64, hi, hlow, hword]

/-! ## The threads that read characters -/

/-- Where the characters come from. -/
inductive UartInput
  | stdin
  | xterm
  deriving DecidableEq

/-- A round of `input_process` in which a character comes.  The thread looked at `read_next_char`
before it blocked in the read. -/
def inputProcess (source : UartInput) (ch : Byte) : Uart64 :=
  match source with
  | .stdin => updateInterrupt { s with logged := ch.setWidth 32 ||| 256 }
  | .xterm =>
      if s.controlRegister.getLsbD 4 then
        updateInterrupt { s with logged := ch.setWidth 32 ||| 256, readNextChar := false }
      else s

end Uart64

end Prazor.Devices
