import Prazor.Core.Payload

/-!
# The SD host controller

`sdio_cbg` is a controller with its card.  A write of the upper byte of 0xC executes a command; the
acknowledgement of a command starts the transfer that a descriptor table in memory describes.
`none` is a failed assertion, or an access outside an array or a buffer.

The buffers of the data commands are kept in a list, with what was allocated, what was filled and
how often each was freed, and the memory that is reached by DMA holds a byte at every address that
answers.  Pointers have eight bytes.  The stats are left out, and the virtual disk has no end.
-/

namespace Prazor.Devices.Sdio

open Prazor.Tlm Prazor.Bytes

inductive CardType
  | sdio
  | sd
  deriving DecidableEq

inductive OperatingState
  | invalid
  | stby
  | tran
  | data
  | rcv
  | prg
  | dis
  deriving DecidableEq

/-- A buffer of `malloc`: how many elements it has room for, those that were filled, and how often
it was freed. -/
structure Buffer32 where
  room : ℕ
  filled : List (BitVec 32)
  freed : ℕ

/-- The memory that DMA reaches; `none` where no target answers. -/
abbrev Memory := BitVec 32 → Option Byte

/-- The registers that no command writes. -/
structure HostRegisters where
  systemAddress : BitVec 32
  blockSizeAndCount : BitVec 32
  argument : BitVec 32
  transferModeCommand : BitVec 32
  bufferDataPort : BitVec 32
  presentState : BitVec 32
  control : BitVec 32
  controlReset : BitVec 32
  interruptStatusEnable : BitVec 32
  interruptSignalEnable : BitVec 32
  errorStatus : BitVec 8
  capabilities : BitVec 32
  maximumCurrentCapabilities : BitVec 32
  forceEvent : BitVec 32
  admaErrorStatus : BitVec 8
  admaSystemAddress : BitVec 32
  bootTimeoutControl : BitVec 32
  debugSelection : BitVec 8
  interruptSupport : BitVec 8
  slotHost : BitVec 32

/-- What a data command and the transfer behind it work on. -/
structure TransferState where
  opState : OperatingState
  blockSize : BitVec 16
  blockCount : BitVec 16
  rxFifo : Option ℕ
  buffers : List Buffer32
  rxFifoIdx : BitVec 32
  blockOffset : BitVec 32
  dataVdd : BitVec 32 → Byte
  memory : Memory

structure SdioCbg extends HostRegisters, TransferState where
  card : CardType
  interruptFlag : Bool
  irq : Bool
  response : Fin 4 → BitVec 32
  interruptStatus : BitVec 32
  cccr : Fin 256 → Byte
  ocr : BitVec 32
  rca : BitVec 16
  cis : List Byte
  scr : BitVec 64
  sd : Fin 64 → Byte
  nextAcmd : Bool

namespace SdioCbg

/-- The constructor, with the disk and the memory that belong to it.  The block offset is left as
it was, and all bytes of the SD status end as zero. -/
def new (card : CardType) (blockOffset : BitVec 32) (dataVdd : BitVec 32 → Byte)
    (memory : Memory) : SdioCbg where
  card := card
  opState := .invalid
  interruptFlag := false
  irq := false
  systemAddress := 0
  blockSizeAndCount := 0
  argument := 0
  transferModeCommand := 0
  response := fun _ => 0
  bufferDataPort := 0
  presentState := 0x1f20000
  control := 0
  controlReset := 0
  interruptStatus := 0
  interruptStatusEnable := 0
  interruptSignalEnable := 0
  errorStatus := 0
  capabilities := 0x69ec0080
  maximumCurrentCapabilities := 1
  forceEvent := 0
  admaErrorStatus := 0
  admaSystemAddress := 0
  bootTimeoutControl := 0
  debugSelection := 0
  interruptSupport := 0
  slotHost := 0x89010000
  cccr := fun i => if i = 0 then 0x32 else if i = 8 then 0x02 else if i = 10 then 0x10 else 0
  ocr := 0x00FF8000
  rca := 0xe624
  cis := [0x20, 4, 0x71, 0x02, 0x0a, 0x01, 0x22, 4, 0x00, 0x00, 0x08, 0x62, 0xff, 0xff]
  scr := 0x0000000000000401
  sd := fun _ => 0
  nextAcmd := false
  blockSize := 0
  blockCount := 0
  rxFifo := none
  buffers := []
  rxFifoIdx := 0
  blockOffset := blockOffset
  dataVdd := dataVdd
  memory := memory

variable (s : SdioCbg)

/-! ## Buffers -/

/-- `parse_block_size_and_count` -/
def parseBlockSizeAndCount : SdioCbg :=
  { s with
    blockSize := (s.blockSizeAndCount &&& 0x3FF).setWidth 16
    blockCount := (s.blockSizeAndCount >>> 16).setWidth 16 }

/-- `m_block_size * m_block_count` -/
def requested : ℕ := s.blockSize.toNat * s.blockCount.toNat

/-- `m_RX_FIFO = malloc(sizeof(u32_t*)*(requested/4))`, and the elements that are then assigned. -/
def fillFifo (elements : List (BitVec 32)) : Option SdioCbg :=
  let room := 2 * (s.requested / 4)
  if elements.length ≤ room then
    some { s with
      rxFifo := some s.buffers.length
      buffers := s.buffers ++ [{ room, filled := elements, freed := 0 }] }
  else none

/-- `m_RX_FIFO[index]` -/
def fifoElement (index : BitVec 32) : Option (BitVec 32) := do
  let buffer ← s.buffers[← s.rxFifo]?
  if buffer.freed = 0 then buffer.filled[index.toNat]? else none

/-- `m_RX_FIFO_idx = 0; m_block_count = 0; m_block_size = 0; free(m_RX_FIFO); m_RX_FIFO = NULL;` -/
def dropFifo : SdioCbg :=
  { s with
    rxFifoIdx := 0
    blockCount := 0
    blockSize := 0
    buffers := match s.rxFifo with
      | none => s.buffers
      | some buffer => s.buffers.modify buffer fun b => { b with freed := b.freed + 1 }
    rxFifo := none }

/-! ## Commands -/

/-- `m_interrupt_status |= bits` -/
def raise (bits : BitVec 32) : SdioCbg := { s with interruptStatus := s.interruptStatus ||| bits }

/-- `m_response[0] = value` -/
def respond (value : BitVec 32) : SdioCbg :=
  { s with response := Function.update s.response 0 value }

/-- CMD5 -/
def sendOpCond (arg : BitVec 32) : SdioCbg :=
  match s.card with
  | .sd => s.raise 0x10000
  | .sdio =>
      let ocr := if arg = 0 then s.ocr else arg &&& 0xFFFFFF
      let value := 0x80000000 ||| 0x08000000 ||| (ocr &&& 0xFFFFFF)
      raise (respond { s with ocr := ocr } value) 1

/-- CMD6 -/
def switchFunction : Option SdioCbg := do
  let mode := s.argument.getLsbD 31
  let s := s.parseBlockSizeAndCount
  if s.blockCount = 1 ∧ s.blockSize = 64 then
    let elements := (List.range 16).map fun i : ℕ =>
      if mode then if i = 4 then 1 else 0 else if i = 3 then 0x200 else 0
    let s ← s.fillFifo elements
    some (raise (respond { s with opState := .data } 0) 1)
  else none

/-- CMD7 -/
def selectCard : SdioCbg :=
  let opState := match s.opState with
    | .stby => .tran
    | .tran | .data => .stby
    | opState => opState
  { (s.respond 0).raise 1 with opState }

/-- CMD12 -/
def stopTransmission : SdioCbg :=
  let opState := match s.opState with
    | .data | .rcv => .tran
    | opState => opState
  let s := { s with opState }
  let s := if 0 < s.blockCount then s.dropFifo else s
  ((s.respond 0).raise 1).raise 2

/-- An element of the disk. -/
def diskElement (i : ℕ) : BitVec 32 :=
  s.dataVdd (s.blockOffset + BitVec.ofNat 32 (i * 4 + 3)) ++
    s.dataVdd (s.blockOffset + BitVec.ofNat 32 (i * 4 + 2)) ++
    s.dataVdd (s.blockOffset + BitVec.ofNat 32 (i * 4 + 1)) ++
    s.dataVdd (s.blockOffset + BitVec.ofNat 32 (i * 4))

/-- CMD18 -/
def readMultipleBlock : Option SdioCbg := do
  let s := s.parseBlockSizeAndCount
  let s := { s with blockOffset := s.argument * 512 }
  let s ← s.fillFifo ((List.range (s.requested / 4)).map s.diskElement)
  some (raise (respond { s with rxFifoIdx := 0, opState := .data } 0) 1)

/-- CMD25 -/
def writeMultipleBlock : SdioCbg :=
  let s := s.parseBlockSizeAndCount
  raise (respond { s with blockOffset := s.argument * 512, opState := .rcv } 0) 1

/-- CMD52 -/
def ioRwDirect (arg : BitVec 32) : Option SdioCbg := do
  let registerAddress := ((arg >>> 9) &&& 0x1FFFF).toNat
  let writeData : Byte := arg.setWidth 8
  if (arg >>> 28) &&& 7 ≠ 0 then none
  else if arg.getLsbD 31 then
    if hregister : registerAddress < 256 then
      some (raise (respond { s with
        cccr := Function.update s.cccr ⟨registerAddress, hregister⟩ writeData }
          (writeData.setWidth 32)) 1)
    else none
  else if hregister : registerAddress < 256 then
    some ((s.respond ((s.cccr ⟨registerAddress, hregister⟩).setWidth 32)).raise 1)
  else if 0x1000 ≤ registerAddress ∧ registerAddress < 0x17FFF then do
    let value ← s.cis[registerAddress - 0x1000]?
    some ((s.respond (value.setWidth 32)).raise 1)
  else none

/-- ACMD13 -/
def sdStatus : Option SdioCbg := do
  let s := s.parseBlockSizeAndCount
  if s.blockCount = 1 ∧ s.blockSize = 64 then
    let elements := (List.range 16).map fun i : ℕ =>
      s.sd (Fin.ofNat 64 (i * 4 + 3)) ++ s.sd (Fin.ofNat 64 (i * 4 + 2)) ++
        s.sd (Fin.ofNat 64 (i * 4 + 1)) ++ s.sd (Fin.ofNat 64 (i * 4))
    let s ← s.fillFifo elements
    some (raise (respond { s with opState := .data } 0) 1)
  else none

/-- ACMD41 -/
def sdSendOpCond (arg : BitVec 32) : Option SdioCbg :=
  let voltageWindowField := if arg = 0 then s.ocr &&& 0xFFFFFF else arg &&& 0xFFFFFF
  if arg.getLsbD 24 then none
  else some ((s.respond (0x80000000 ||| (if arg.getLsbD 30 then 0x40000000 else 0) |||
    voltageWindowField)).raise 1)

/-- ACMD51 -/
def sendScr : Option SdioCbg := do
  let s := s.parseBlockSizeAndCount
  if s.blockCount = 1 then
    let s ← s.fillFifo [s.scr.setWidth 32, (s.scr >>> 32).setWidth 32]
    some (raise (respond { s with opState := .data } 0) 1)
  else none

/-- `(cmd >> 24) & 0x3F` -/
def cmdId (cmd : BitVec 32) : BitVec 32 := (cmd >>> 24) &&& 0x3F

/-- The commands after no CMD55. -/
def execCmd (cmd arg : BitVec 32) : Option SdioCbg :=
  match (cmdId cmd).toNat with
  | 0 => some ((s.respond 1).raise 1)
  | 2 => some (raise { s with
      response := ![0x56780014, 0x47301234, 0x534C3332, 0x00035344] } 1)
  | 3 => some (raise (respond { s with opState := .stby } (s.rca.setWidth 32 <<< 16)) 1)
  | 5 => some (s.sendOpCond arg)
  | 6 => s.switchFunction
  | 7 => some s.selectCard
  | 8 => some ((s.respond (arg &&& 0xFFF)).raise 1)
  | 9 => some (raise { s with
      response := ![0x00000000, 0x00EE1600, 0x5A5F5000, 0x00480000] } 1)
  | 12 => some s.stopTransmission
  | 13 => some ((s.respond 0x100).raise 1)
  | 18 => s.readMultipleBlock
  | 25 => some s.writeMultipleBlock
  | 52 => s.ioRwDirect arg
  | 55 => some (raise (respond { s with nextAcmd := true } 0x20) 1)
  | _ => none

/-- The commands after CMD55. -/
def execAcmd (cmd arg : BitVec 32) : Option SdioCbg :=
  match (cmdId cmd).toNat with
  | 6 => some ((s.respond 0).raise 1)
  | 13 => s.sdStatus
  | 41 => s.sdSendOpCond arg
  | 51 => s.sendScr
  | _ => none

/-- `parse_and_exec_cmd`, which returns true. -/
def parseAndExecCmd (cmd arg : BitVec 32) : Option SdioCbg :=
  if s.nextAcmd then execAcmd { s with nextAcmd := false } cmd arg else s.execCmd cmd arg

/-! ## ADMA2 -/

/-- A read of a doubleword by DMA. -/
def dmaRead (memory : Memory) (address : BitVec 32) : Option Word64 := do
  let bytes ← (List.range 8).mapM fun i : ℕ => memory (address + BitVec.ofNat 32 i)
  some (load64 fun i => bytes.getD i 0)

/-- A write of a doubleword by DMA. -/
def dmaWrite (memory : Memory) (address : BitVec 32) (data : Word64) : Option Memory :=
  (List.range 8).foldlM (fun (memory : Memory) (i : ℕ) =>
    let at' := address + BitVec.ofNat 32 i
    if (memory at').isSome then some (Function.update memory at' (some (bytes64 data i)))
    else none) memory

/-- One doubleword of a transfer from the card. -/
def sendWord (addr : BitVec 32) (i : ℕ) : Option SdioCbg := do
  let high ← s.fifoElement (BitVec.ofNat 32 (2 * i + 1) + s.rxFifoIdx)
  let low ← s.fifoElement (BitVec.ofNat 32 (2 * i) + s.rxFifoIdx)
  let memory ← dmaWrite s.memory (addr + BitVec.ofNat 32 (i * 8)) (high ++ low)
  some { s with memory }

/-- `m_data_vdd[m_block_offset+j] = (data >> j*8) & 0xFF`; a shift by 64 or more has no
result. -/
def storeByte (data : Word64) (s : SdioCbg) (j : BitVec 32) : Option SdioCbg :=
  if j.toNat < 8 then
    let value : Byte := (data >>> (j.toNat * 8)).setWidth 8
    some { s with dataVdd := Function.update s.dataVdd (s.blockOffset + j) value }
  else none

/-- One doubleword of a transfer to the card.  The loop runs from the block offset on. -/
def receiveWord (addr : BitVec 32) (i : ℕ) : Option SdioCbg := do
  let data ← dmaRead s.memory (addr + BitVec.ofNat 32 (i * 8))
  let rounds := (s.blockOffset + 8).toNat - s.blockOffset.toNat
  let s ← ((List.range rounds).map fun j : ℕ => s.blockOffset + BitVec.ofNat 32 j).foldlM
    (storeByte data) s
  some { s with blockOffset := s.blockOffset + 8 }

/-- The loop of `do_adma2_tfr`. -/
def transferWords (addr : BitVec 32) (length : ℕ) : Option SdioCbg :=
  (List.range (length / 8)).foldlM
    (fun s i => if s.opState = .rcv then s.receiveWord addr i else s.sendWord addr i) s

/-- The length of a transfer. -/
def transferLength (len : BitVec 16) : ℕ := if len = 0 then 65536 else len.toNat

/-- What is left behind a transfer.  A length that is not less than what was requested is equal to
it by the first assertion of `do_adma2_tfr`. -/
def countBlocks (length : ℕ) : Option SdioCbg :=
  if length < s.requested then
    if length % s.blockSize.toNat = 0 then
      some { s with blockCount := s.blockCount - BitVec.ofNat 16 (length / s.blockSize.toNat) }
    else none
  else some s.dropFifo

/-- `do_adma2_tfr` up to its end. -/
def adma2Tfr (addr : BitVec 32) (len : BitVec 16) : Option SdioCbg :=
  let length := transferLength len
  if length ≤ s.requested ∧ length % 8 = 0 then
    (s.transferWords addr length).bind fun s =>
      (countBlocks { s with
        rxFifoIdx := s.rxFifoIdx + BitVec.ofNat 32 (length / 8 * 2) } length).bind fun s =>
          if s.control.getLsbD 16 then none else some s
  else none

/-- A line of the descriptor table. -/
structure Descriptor where
  valid : Bool
  atEnd : Bool
  act : BitVec 2
  length : BitVec 16
  addr : BitVec 32

def descriptor (data : Word64) : Descriptor where
  valid := data.getLsbD 0
  atEnd := data.getLsbD 1
  act := data.extractLsb' 4 2
  length := data.extractLsb' 16 16
  addr := data.extractLsb' 32 32

/-- The new ADMA system address of `do_adma2_cadr`. -/
def nextAddress (line : Descriptor) : BitVec 32 :=
  if line.act = 3 then line.addr else s.admaSystemAddress + 8

/-- `do_adma2_fds`, `do_adma2_cadr` and the call from the end of `do_adma2_tfr`.  Every transfer
takes at least one block, so the number of blocks bounds the calls. -/
def adma2Fds : ℕ → SdioCbg → Option SdioCbg
  | 0, _ => none
  | fuel + 1, s => do
      let line := descriptor (← dmaRead s.memory s.admaSystemAddress)
      if line.valid then
        let s := { s with admaSystemAddress := s.nextAddress line }
        if line.act = 2 ∧ ¬line.atEnd then
          let s ← s.adma2Tfr line.addr line.length
          adma2Fds fuel s
        else if line.atEnd ∧ line.act ≠ 2 then some s
        else none
      else none

/-- `do_adma2_fds` -/
def doAdma2Fds : Option SdioCbg := adma2Fds (s.blockCount.toNat + 1) s

/-! ## Accesses -/

/-- A read of the register at an offset. -/
def readRegister (offset : BitVec 32) : Option (BitVec 32) :=
  if offset = 0x0 then some s.systemAddress
  else if offset = 0x4 then some s.blockSizeAndCount
  else if offset = 0x8 then some s.argument
  else if offset = 0xC then some s.transferModeCommand
  else if offset = 0x10 then some (s.response 0)
  else if offset = 0x14 then some (s.response 1)
  else if offset = 0x18 then some (s.response 2)
  else if offset = 0x1C then some (s.response 3)
  else if offset = 0x20 then none
  else if offset = 0x24 then some s.presentState
  else if offset = 0x28 then some s.control
  else if offset = 0x2C then some s.controlReset
  else if offset = 0x30 then some s.interruptStatus
  else if offset = 0x34 then some s.interruptStatusEnable
  else if offset = 0x38 then some s.interruptSignalEnable
  else if offset = 0x3C then some (s.errorStatus.setWidth 32)
  else if offset = 0x40 then some s.capabilities
  else if offset = 0x48 then some s.maximumCurrentCapabilities
  else if offset = 0x50 then some s.forceEvent
  else if offset = 0x54 then some (s.admaErrorStatus.setWidth 32)
  else if offset = 0x58 then some s.admaSystemAddress
  else if offset = 0x60 then some s.bootTimeoutControl
  else if offset = 0x68 then some (s.debugSelection.setWidth 32)
  else if offset = 0xF0 then some (s.interruptSupport.setWidth 32)
  else if offset = 0xFC then some s.slotHost
  else some 0

/-- `m_interrupt_flag = flag; m_interrupt_change_event.notify();`, and the thread that then sets
the output. -/
def setInterrupt (flag : Bool) : SdioCbg := { s with interruptFlag := flag, irq := flag }

/-- A lane as a word. -/
def lane (lanes : Buffer) (i : ℕ) : BitVec 32 := (lanes i).setWidth 32

/-- The loop of a write at 0x4, over the upper lanes. -/
def writeBlockSizeAndCount (data : BitVec 32) (lanes : Buffer) : SdioCbg :=
  (List.range 4).foldl (fun (s : SdioCbg) (i : ℕ) =>
    if lanes (i + 4) = 0 then s
    else
      let bits := lane lanes (i + 4) <<< (i * 8)
      { s with blockSizeAndCount := (s.blockSizeAndCount &&& ~~~bits) ||| (data &&& bits) }) s

/-- A write at 0xC. -/
def writeTransferModeCommand (data : BitVec 32) (lanes : Buffer) : Option SdioCbg :=
  let s := { s with transferModeCommand :=
    (data &&& lane lanes 4) ||| (data &&& (lane lanes 5 <<< 8)) |||
      (data &&& (lane lanes 6 <<< 16)) ||| (data &&& (lane lanes 7 <<< 24)) }
  if lanes 7 = 0xFF then do
    let s := { s with presentState := s.presentState ||| 1 }
    let s ← s.parseAndExecCmd s.transferModeCommand s.argument
    some (s.setInterrupt true)
  else some s

/-- A write at 0x28.  The test for the card detection is never true. -/
def writeControl (data : BitVec 32) (lanes : Buffer) : Option SdioCbg :=
  let s := if lanes 0 = 0xFF then
      let control := (s.control &&& ~~~0xFF) ||| (data &&& 0xFF)
      { s with
        control := if data &&& 0x80 = 1 then control ||| 0x80 else control &&& ~~~0x80 }
    else s
  let s := if lanes 1 = 0xFF then
      let busPowerOn : Bool := (data &&& 0xFF00) >>> 8 ≠ 0
      { s with
        presentState := if busPowerOn then s.presentState ||| 0xF0000 else s.presentState
        control := (s.control &&& ~~~0xFF00) ||| (data &&& 0xFF00) }
    else s
  if lanes 2 = 0xFF ∨ lanes 3 = 0xFF then none else some s

/-- The software reset for all. -/
def resetAll : SdioCbg :=
  { s with
    systemAddress := 0
    blockSizeAndCount := 0
    argument := 0
    transferModeCommand := 0
    bufferDataPort := 0
    control := 0
    controlReset := 0
    interruptStatus := 0
    interruptStatusEnable := 0
    interruptSignalEnable := 0
    forceEvent := 0
    admaErrorStatus := 0
    admaSystemAddress := 0
    bootTimeoutControl := 0
    debugSelection := 0
    interruptSupport := 0 }

/-- The software reset for the CMD line. -/
def resetCmd : SdioCbg :=
  { s with
    presentState := s.presentState &&& ~~~1
    interruptStatus := s.interruptStatus &&& ~~~1 }

/-- The software reset for the DAT line. -/
def resetDat : SdioCbg :=
  { s with
    bufferDataPort := 0
    presentState := s.presentState &&& ~~~0xF06
    control := s.control &&& ~~~0x30000
    interruptStatus := s.interruptStatus &&& ~~~0x36 }

/-- A write at 0x2C. -/
def writeControlReset (data : BitVec 32) (lanes : Buffer) : Option SdioCbg :=
  let s := if lanes 4 = 0xFF then
      let clock := if data &&& 1 ≠ 0 then s.controlReset ||| 3 else s.controlReset
      { s with controlReset := if data &&& 4 ≠ 0 then clock ||| 4 else clock }
    else s
  if lanes 7 = 0xFF then
    if lanes 4 = 0 ∧ lanes 5 = 0 ∧ lanes 6 = 0 then
      let data := data >>> 24
      if data = 1 then some s.resetAll
      else if data = 2 then some s.resetCmd
      else if data = 4 then some s.resetDat
      else none
    else none
  else some s

/-- A write at 0x30, up to the look for blocks that are left. -/
def acknowledge (data : BitVec 32) : SdioCbg :=
  let s := if data &&& 1 ≠ 0 then { s with presentState := s.presentState &&& ~~~1 } else s
  let data := if data &&& 1 ≠ 0 then data &&& ~~~1 else data
  let data := if data &&& 2 ≠ 0 then data &&& ~~~2 else data
  let data := if data &&& 0x10000 ≠ 0 then data &&& ~~~0x10000 else data
  let s := if data = 0 then s.setInterrupt false else s
  { s with interruptStatus := data &&& 0x3FFFFFFF }

/-- A write at 0x30.  The acknowledgement of a command starts the transfer of its blocks. -/
def writeInterruptStatus (data : BitVec 32) : Option SdioCbg :=
  if 0 < s.blockCount ∧ data &&& 1 ≠ 0 then
    (s.acknowledge data).doAdma2Fds.map fun s => (s.raise 2).setInterrupt true
  else some (s.acknowledge data)

/-- A write of the register at an offset.  Some cases look at the lanes, which then must not be
null. -/
def writeRegister (offset data : BitVec 32) (lanes : Option Buffer) : Option SdioCbg :=
  if offset = 0x0 then some { s with systemAddress := data }
  else if offset = 0x4 then lanes.map fun lanes => s.writeBlockSizeAndCount data lanes
  else if offset = 0x8 then some { s with argument := data }
  else if offset = 0xC then lanes.bind fun lanes => s.writeTransferModeCommand data lanes
  else if offset = 0x10 then some { s with response := Function.update s.response 0 data }
  else if offset = 0x14 then some { s with response := Function.update s.response 1 data }
  else if offset = 0x18 then some { s with response := Function.update s.response 2 data }
  else if offset = 0x1C then some { s with response := Function.update s.response 3 data }
  else if offset = 0x20 then some s
  else if offset = 0x24 then some { s with presentState := data &&& 0x1FFFFFF }
  else if offset = 0x28 then lanes.bind fun lanes => s.writeControl data lanes
  else if offset = 0x2C then lanes.bind fun lanes => s.writeControlReset data lanes
  else if offset = 0x30 then s.writeInterruptStatus data
  else if offset = 0x34 then some { s with interruptStatusEnable := data &&& 0x3FFFFFFF }
  else if offset = 0x38 then some { s with interruptSignalEnable := data &&& 0x3FFFFFFF }
  else if offset = 0x3C then some { s with errorStatus := data.setWidth 8 }
  else if offset = 0x40 then some { s with capabilities := data &&& 0x7FFFFFFF }
  else if offset = 0x48 then some { s with maximumCurrentCapabilities := data &&& 0xFFFFFF }
  else if offset = 0x50 then some { s with forceEvent := data }
  else if offset = 0x54 then some { s with admaErrorStatus := data.setWidth 8 &&& 3 }
  else if offset = 0x58 then some { s with admaSystemAddress := data }
  else if offset = 0x60 then some { s with bootTimeoutControl := data }
  else if offset = 0x68 then some { s with debugSelection := data.setWidth 8 &&& 1 }
  else if offset = 0xF0 then some { s with interruptSupport := data.setWidth 8 }
  else if offset = 0xFC then some { s with slotHost := data }
  else none

/-- Only upper lanes are enabled. -/
def upperOnly (lanes : Option Buffer) : Bool :=
  match lanes with
  | none => false
  | some lanes => lanes 0 = 0 && lanes 1 = 0 && lanes 2 = 0 && lanes 3 = 0 &&
      (lanes 4 = 0xFF || lanes 5 = 0xFF || lanes 6 = 0xFF || lanes 7 = 0xFF)

/-- The offset of a write. -/
def writtenOffset (base : BitVec 32) (trans : Payload) : BitVec 32 :=
  (if upperOnly trans.byteEnable then trans.address.setWidth 32 + 4
    else trans.address.setWidth 32) - base

/-- `b_access` -/
def bAccess (base : BitVec 32) (trans : Payload) : Option (SdioCbg × Payload) :=
  match trans.command with
  | .read => do
      let offset := trans.address.setWidth 32 - base
      let low ← s.readRegister offset
      if trans.dataLength = 8 then
        let high ← s.readRegister (offset + 4)
        some (s, { trans with
          data := memcpy 8 (bytes64 (high ++ low)) trans.data, response := .ok })
      else some (s, { trans with data := memcpy 4 (bytes32 low) trans.data, response := .ok })
  | .write =>
      if trans.dataLength = 8 then
        (s.writeRegister (writtenOffset base trans) (load32 trans.data) trans.byteEnable).map
          fun s => (s, { trans with response := .ok })
      else none
  | .ignore => none

end SdioCbg

end Prazor.Devices.Sdio
