import Prazor.Devices.Adma2

/-!
# Buffers and transfers of the SD host controller

A data command allocates a buffer and fills it; the acknowledgement that finds blocks left walks the
descriptor table, and the last transfer frees the buffer, as does the end of a transmission.  In
a run whose commands find no buffer outstanding and whose tables the controller can walk, every
table is performed, and every buffer but the outstanding one was freed exactly once.
-/

namespace Prazor.Devices.Sdio

open Prazor.Tlm Prazor.Bytes SdioCbg

/-! ## Events -/

/-- The controller is written to, or others write the memory. -/
inductive Event
  | write (trans : Payload)
  | memory (memory : Memory)

def step (base : BitVec 32) (s : SdioCbg) : Event → Option SdioCbg
  | .write payload => (s.bAccess base payload).map Prod.fst
  | .memory memory => some { s with memory := memory }

/-- The elements of the outstanding buffer. -/
def held (s : SdioCbg) : List (BitVec 32) :=
  match s.rxFifo.bind fun i => s.buffers[i]? with
  | some buffer => buffer.filled
  | none => []

/-- What the lines of the table at the ADMA system address move. -/
def Table (s : SdioCbg) (lines : List Descriptor) (final : BitVec 32) (t : Stream) : Prop :=
  Walk (decide (s.opState = .rcv)) (held s) s.admaSystemAddress
    { memory := s.memory, disk := s.dataVdd, offset := s.blockOffset, sent := 0 } lines final t

/-- A write acknowledges a command and finds blocks to transfer. -/
def starts (base : BitVec 32) (s : SdioCbg) (trans : Payload) : Prop :=
  writtenOffset base trans = 0x30 ∧ 0 < s.blockCount ∧ load32 trans.data &&& 1 ≠ 0

/-- CMD6, CMD18, ACMD13 and ACMD51 fill a buffer. -/
def fills (s : SdioCbg) (cmd : BitVec 32) : Prop :=
  if s.nextAcmd then cmdId cmd = 13 ∨ cmdId cmd = 51 else cmdId cmd = 6 ∨ cmdId cmd = 18

/-- CMD25 -/
def receives (s : SdioCbg) (cmd : BitVec 32) : Prop := s.nextAcmd = false ∧ cmdId cmd = 25

/-- What a command that fills a buffer asserts of size and count of the blocks. -/
def Asserted (s : SdioCbg) (cmd : BitVec 32) : Prop :=
  let parsed := s.parseBlockSizeAndCount
  if s.nextAcmd then
    parsed.blockCount = 1 ∧ (cmdId cmd = 13 → parsed.blockSize = 64)
  else cmdId cmd = 6 → parsed.blockCount = 1 ∧ parsed.blockSize = 64

/-! ## What commands and transfers are for -/

/-- Every buffer was freed once, but for the outstanding one, which was not freed, and no buffer
was filled behind its end. -/
structure Accounts (s : SdioCbg) : Prop where
  current : ∀ i, s.rxFifo = some i → i < s.buffers.length
  freed : ∀ i buffer, s.buffers[i]? = some buffer →
    buffer.freed = if s.rxFifo = some i then 0 else 1
  room : ∀ buffer ∈ s.buffers, buffer.filled.length ≤ buffer.room

/-- A write does what its command or its table says. -/
structure Performs (base : BitVec 32) (s : SdioCbg) (trans : Payload) : Prop where
  transfers : starts base s trans → ∀ lines final t, Table s lines final t → Sized s lines →
    ∃ s' answer, s.bAccess base trans = some (s', answer) ∧ s'.memory = t.memory ∧
      s'.dataVdd = t.disk ∧ s'.admaSystemAddress = final ∧ (0 < s.requested → s'.rxFifo = none)
  fits : isCommand base trans = true → fills s (load32 trans.data) →
    Asserted s (load32 trans.data) → (s.bAccess base trans).isSome
  sizes : isCommand base trans = true →
    fills s (load32 trans.data) ∨ receives s (load32 trans.data) →
      ∀ s' answer, s.bAccess base trans = some (s', answer) →
        s'.blockSize.toNat = (s.blockSizeAndCount &&& 0x7FF).toNat ∧
          s'.blockCount.toNat = (s.blockSizeAndCount >>> 16).toNat

/-! ## When they do it -/

/-- The table of a transfer is valid up to its end, in whole blocks and doublewords, and transfers
what was requested. -/
def WellFormed (base : BitVec 32) (s : SdioCbg) (trans : Payload) : Prop :=
  starts base s trans → ∃ lines final t, Table s lines final t ∧ Sized s lines

/-- A command that fills a buffer finds none outstanding, sizes are below 1024 (and for the SCR
that of the SCR, or nothing that a table can transfer), and the card does not leave the state of a
write before its transfer.  A table has the end flag on a line if and only if it does not
transfer, and a transfer to the card is one doubleword to the first block. -/
structure InStep (base : BitVec 32) (s : SdioCbg) (trans : Payload) : Prop where
  free : isCommand base trans = true → fills s (load32 trans.data) → s.rxFifo = none
  small : isCommand base trans = true →
    fills s (load32 trans.data) ∨ receives s (load32 trans.data) →
      s.blockSizeAndCount.getLsbD 10 = false
  scr : isCommand base trans = true → s.nextAcmd = true → cmdId (load32 trans.data) = 51 →
    4 ≤ s.parseBlockSizeAndCount.blockSize.toNat ∧
      (8 ∣ s.parseBlockSizeAndCount.blockSize.toNat →
        s.parseBlockSizeAndCount.blockSize.toNat = 8)
  receiving : isCommand base trans = true → s.nextAcmd = false →
    cmdId (load32 trans.data) = 3 → s.opState = .rcv → s.requested = 0
  ends : starts base s trans → ∀ lines final t, Table s lines final t →
    ∀ line ∈ lines, line.atEnd = true ↔ line.act ≠ 2
  first : starts base s trans → s.opState = .rcv → 0 < s.requested →
    s.blockOffset = 0 ∧ s.requested = 8

variable {base cmd arg data offset : BitVec 32} {s s' : SdioCbg} {payload : Payload}
  {elements : List (BitVec 32)}

/-! ## States between transfers -/

/-- What holds between writes: a transfer begins at the start of a buffer that holds it. -/
structure Ready (s : SdioCbg) : Prop extends Accounts s where
  index : s.rxFifoIdx = 0
  loaded : s.opState ≠ .rcv → 0 < s.requested →
    s.rxFifo.isSome ∧ (8 ∣ s.requested → s.requested ≤ 4 * (held s).length)
  length : (held s).length < 2 ^ 32
  gap : s.control.getLsbD 16 = false

/-- A state with the same buffers and sizes. -/
structure Alike (s s' : SdioCbg) : Prop where
  rxFifo : s'.rxFifo = s.rxFifo
  buffers : s'.buffers = s.buffers
  index : s'.rxFifoIdx = s.rxFifoIdx

theorem Alike.held (halike : Alike s s') : held s' = held s := by
  rw [Sdio.held, Sdio.held, halike.rxFifo, halike.buffers]

theorem Alike.accounts (halike : Alike s s') (haccounts : Accounts s) : Accounts s' := by
  constructor
  · rw [halike.rxFifo, halike.buffers]
    exact haccounts.current
  · rw [halike.rxFifo, halike.buffers]
    exact haccounts.freed
  · rw [halike.buffers]
    exact haccounts.room

/-- A step that keeps the buffers, and loads no transfer from the card, keeps all. -/
theorem Alike.ready (halike : Alike s s')
    (hloaded : s'.opState ≠ .rcv → 0 < s'.requested →
      s.opState ≠ .rcv ∧ s'.requested = s.requested)
    (hgap : s'.control.getLsbD 16 = false) (hready : Ready s) : Ready s' := by
  refine ⟨halike.accounts hready.toAccounts, ?_, ?_, ?_, hgap⟩
  · rw [halike.index]
    exact hready.index
  · intro hsends hpos
    obtain ⟨hbefore, hrequested⟩ := hloaded hsends hpos
    rw [hrequested] at hpos
    rw [halike.rxFifo, halike.held, hrequested]
    exact hready.loaded hbefore hpos
  · rw [halike.held]
    exact hready.length

/-- A step that keeps what transfers work on. -/
theorem Ready.quiet (hready : Ready s) (htransfer : s'.toTransferState = s.toTransferState)
    (hgap : s'.control.getLsbD 16 = false) : Ready s' := by
  have halike : Alike s s' := by
    constructor <;> rw [htransfer]
  refine halike.ready (fun hsends _ => ⟨?_, ?_⟩) hgap hready
  · rw [← htransfer]
    exact hsends
  · rw [requested, requested, htransfer]

/-- The outstanding buffer is dropped. -/
theorem accounts_dropFifo (haccounts : Accounts s) : Accounts s.dropFifo := by
  refine ⟨?_, ?_, ?_⟩
  · intro i hcurrent
    cases hcurrent
  · intro i buffer hbuffer
    cases hcurrent : s.rxFifo with
    | none =>
        simp only [dropFifo, hcurrent] at hbuffer
        have hfreed := haccounts.freed i buffer hbuffer
        rw [hcurrent] at hfreed
        exact hfreed
    | some j =>
        simp only [dropFifo, hcurrent, List.getElem?_modify] at hbuffer
        obtain ⟨before, hbefore, heq⟩ := Option.map_eq_some_iff.mp hbuffer
        have hfreed := haccounts.freed i before hbefore
        rw [hcurrent] at hfreed
        by_cases hij : j = i
        · rw [if_pos (congrArg some hij)] at hfreed
          rw [if_pos hij] at heq
          rw [← heq]
          exact congrArg (· + 1) hfreed
        · have hne : ¬some j = some i := fun heq => hij (Option.some.inj heq)
          rw [if_neg hne] at hfreed
          rw [if_neg hij] at heq
          rw [← heq]
          exact hfreed
  · intro buffer hbuffer
    cases hcurrent : s.rxFifo with
    | none =>
        simp only [dropFifo, hcurrent] at hbuffer
        exact haccounts.room buffer hbuffer
    | some j =>
        simp only [dropFifo, hcurrent] at hbuffer
        obtain ⟨i, hi⟩ := List.mem_iff_getElem?.mp hbuffer
        rw [List.getElem?_modify] at hi
        obtain ⟨before, hbefore, heq⟩ := Option.map_eq_some_iff.mp hi
        have hroom := haccounts.room before (List.mem_of_getElem? hbefore)
        split_ifs at heq <;> cases heq <;> exact hroom

theorem ready_dropFifo (haccounts : Accounts s) (hgap : s.control.getLsbD 16 = false) :
    Ready s.dropFifo := by
  have hnone : s.dropFifo.requested = 0 := rfl
  have hheld : held s.dropFifo = [] := rfl
  refine ⟨accounts_dropFifo haccounts, rfl, ?_, ?_, hgap⟩
  · intro _ hpos
    exact absurd hnone hpos.ne'
  · rw [hheld]
    decide

/-! ## Commands that fill a buffer -/

/-- A buffer of a command: it holds what the command asks for when that is in doublewords. -/
structure Filled (s s' : SdioCbg) : Prop where
  rxFifo : s'.rxFifo = some s.buffers.length
  buffers : ∃ buffer, s'.buffers = s.buffers ++ [buffer] ∧ buffer.freed = 0 ∧
    buffer.filled.length ≤ buffer.room ∧ buffer.filled.length < 2 ^ 32 ∧
      (8 ∣ s'.requested → s'.requested ≤ 4 * buffer.filled.length)
  index : s.rxFifoIdx = 0 → s'.rxFifoIdx = 0
  blockSize : s'.blockSize = s.parseBlockSizeAndCount.blockSize
  blockCount : s'.blockCount = s.parseBlockSizeAndCount.blockCount

/-- A new buffer while none is outstanding. -/
theorem Filled.ready (hfilled : Filled s s') (hfree : s.rxFifo = none)
    (hgap : s'.control.getLsbD 16 = false) (hready : Ready s) : Ready s' := by
  obtain ⟨buffer, hbuffers, hfreed, hroom, hlength, hholds⟩ := hfilled.buffers
  have hheld : held s' = buffer.filled := by
    rw [held, hfilled.rxFifo, hbuffers]
    simp
  refine ⟨⟨?_, ?_, ?_⟩, hfilled.index hready.index, ?_, ?_, hgap⟩
  · intro i hi
    rw [hfilled.rxFifo] at hi
    cases hi
    rw [hbuffers, List.length_append]
    exact Nat.lt_succ_self _
  · intro i other hother
    rw [hbuffers] at hother
    rw [hfilled.rxFifo]
    rcases Nat.lt_or_ge i s.buffers.length with hlt | hge
    · rw [List.getElem?_append_left hlt] at hother
      have hne : ¬some s.buffers.length = some i := fun heq =>
        Nat.ne_of_gt hlt (Option.some.inj heq)
      have hbefore := hready.freed i other hother
      rw [hfree] at hbefore
      rw [if_neg hne]
      exact hbefore
    · rw [List.getElem?_append_right hge, List.getElem?_singleton] at hother
      split_ifs at hother with hlast
      cases hother
      have heq : i = s.buffers.length := by omega
      rw [if_pos (congrArg some heq.symm)]
      exact hfreed
  · intro other hother
    rw [hbuffers, List.mem_append, List.mem_singleton] at hother
    rcases hother with hbefore | rfl
    · exact hready.room other hbefore
    · exact hroom
  · intro _ _
    rw [hfilled.rxFifo, hheld]
    exact ⟨rfl, hholds⟩
  · rw [hheld]
    exact hlength

/-- The buffer that is filled with the elements of a command, after which it goes on. -/
theorem fillFifo_filled {parsed filled : SdioCbg} {opState : OperatingState} {idx : BitVec 32}
    (hfill : parsed.fillFifo elements = some filled) (hbuffers : parsed.buffers = s.buffers)
    (hindex : s.rxFifoIdx = 0 → idx = 0)
    (hsize : parsed.blockSize = s.parseBlockSizeAndCount.blockSize)
    (hcount : parsed.blockCount = s.parseBlockSizeAndCount.blockCount)
    (hlength : elements.length < 2 ^ 32)
    (hholds : 8 ∣ parsed.requested → parsed.requested ≤ 4 * elements.length) :
    Filled s (raise (respond { filled with rxFifoIdx := idx, opState := opState } 0) 1) := by
  rw [fillFifo] at hfill
  obtain ⟨hroom, heq⟩ := Option.ite_none_right_eq_some.mp hfill
  cases heq
  constructor
  · exact congrArg (fun buffers => some (List.length buffers)) hbuffers
  · refine ⟨_, congrArg (· ++ _) hbuffers, rfl, hroom, hlength, hholds⟩
  · exact hindex
  · exact hsize
  · exact hcount

theorem requested_of_one_block {parsed : SdioCbg} (hcount : parsed.blockCount = 1) :
    parsed.requested = parsed.blockSize.toNat := by
  rw [requested, hcount]
  exact Nat.mul_one _

/-- CMD6 and ACMD13 fill sixteen elements for one block of 64 bytes. -/
theorem block_filled {filled : SdioCbg} (hlength : elements.length = 16)
    (hsize : s.parseBlockSizeAndCount.blockCount = 1 ∧ s.parseBlockSizeAndCount.blockSize = 64)
    (hfill : s.parseBlockSizeAndCount.fillFifo elements = some filled) :
    Filled s (raise (respond { filled with opState := .data } 0) 1) := by
  have hindex : filled.rxFifoIdx = s.rxFifoIdx := by
    rw [fillFifo] at hfill
    obtain ⟨-, heq⟩ := Option.ite_none_right_eq_some.mp hfill
    cases heq
    rfl
  have hrequested : s.parseBlockSizeAndCount.requested = 64 := by
    rw [requested_of_one_block hsize.1, hsize.2]
    rfl
  have hall : Filled s (raise (respond { filled with
      rxFifoIdx := filled.rxFifoIdx
      opState := .data } 0) 1) := by
    refine fillFifo_filled hfill rfl (fun hzero => hindex.trans hzero) rfl rfl ?_ ?_
    · rw [hlength]
      decide
    · rw [hrequested, hlength]
      exact fun _ => Nat.le_refl 64
  exact hall

/-- What the commands of a filled buffer leave. -/
theorem execCmd_filled (hfills : cmdId cmd = 6 ∨ cmdId cmd = 18)
    (hexec : s.execCmd cmd arg = some s') : Filled s s' := by
  rcases hfills with h6 | h18
  · rw [execCmd, h6] at hexec
    have hswitch : s.switchFunction = some s' := hexec
    simp only [switchFunction] at hswitch
    obtain ⟨hsize, hswitch⟩ := Option.ite_none_right_eq_some.mp hswitch
    obtain ⟨filled, hfill, heq⟩ := Option.bind_eq_some_iff.mp hswitch
    cases heq
    apply block_filled _ hsize hfill
    rw [List.length_map, List.length_range]
  · rw [execCmd, h18] at hexec
    have hread : s.readMultipleBlock = some s' := hexec
    simp only [readMultipleBlock] at hread
    obtain ⟨filled, hfill, heq⟩ := Option.bind_eq_some_iff.mp hread
    cases heq
    have hbound : s.parseBlockSizeAndCount.requested < 2 ^ 16 * 2 ^ 16 :=
      Nat.mul_lt_mul'' (BitVec.isLt _) (BitVec.isLt _)
    refine fillFifo_filled hfill rfl (fun _ => rfl) rfl rfl ?_ ?_
    · rw [List.length_map, List.length_range]
      change s.parseBlockSizeAndCount.requested / 4 < 2 ^ 32
      omega
    · rw [List.length_map, List.length_range]
      change 8 ∣ s.parseBlockSizeAndCount.requested →
        s.parseBlockSizeAndCount.requested ≤ 4 * (s.parseBlockSizeAndCount.requested / 4)
      intro heights
      omega

theorem execAcmd_filled (hfills : cmdId cmd = 13 ∨ cmdId cmd = 51)
    (hscr : cmdId cmd = 51 → 8 ∣ s.parseBlockSizeAndCount.blockSize.toNat →
      s.parseBlockSizeAndCount.blockSize.toNat = 8)
    (hexec : s.execAcmd cmd arg = some s') : Filled s s' := by
  rcases hfills with h13 | h51
  · rw [execAcmd, h13] at hexec
    have hstatus : s.sdStatus = some s' := hexec
    simp only [sdStatus] at hstatus
    obtain ⟨hsize, hstatus⟩ := Option.ite_none_right_eq_some.mp hstatus
    obtain ⟨filled, hfill, heq⟩ := Option.bind_eq_some_iff.mp hstatus
    cases heq
    apply block_filled _ hsize hfill
    rw [List.length_map, List.length_range]
  · rw [execAcmd, h51] at hexec
    have hscr' : s.sendScr = some s' := hexec
    simp only [sendScr] at hscr'
    obtain ⟨hcount, hscr'⟩ := Option.ite_none_right_eq_some.mp hscr'
    obtain ⟨filled, hfill, heq⟩ := Option.bind_eq_some_iff.mp hscr'
    cases heq
    have hindex : filled.rxFifoIdx = s.rxFifoIdx := by
      rw [fillFifo] at hfill
      obtain ⟨-, heq⟩ := Option.ite_none_right_eq_some.mp hfill
      cases heq
      rfl
    have hall : Filled s (raise (respond { filled with
        rxFifoIdx := filled.rxFifoIdx
        opState := .data } 0) 1) := by
      refine fillFifo_filled hfill rfl (fun hzero => hindex.trans hzero) rfl rfl ?_ ?_
      · change 2 < 2 ^ 32
        decide
      · rw [requested_of_one_block hcount]
        intro heights
        exact (hscr h51 heights).le
    exact hall

theorem parseAndExecCmd_filled (hfills : fills s cmd)
    (hscr : s.nextAcmd = true → cmdId cmd = 51 →
      8 ∣ s.parseBlockSizeAndCount.blockSize.toNat →
        s.parseBlockSizeAndCount.blockSize.toNat = 8)
    (hexec : s.parseAndExecCmd cmd arg = some s') : Filled s s' := by
  rw [parseAndExecCmd] at hexec
  rw [fills] at hfills
  split_ifs at hexec hfills with hacmd
  · obtain ⟨hrx, hbuffers, hindex, hsize, hcount⟩ :=
      execAcmd_filled (s := { s with nextAcmd := false }) hfills (hscr hacmd) hexec
    exact ⟨hrx, hbuffers, hindex, hsize, hcount⟩
  · exact execCmd_filled hfills hexec

theorem fillFifo_bind_isSome {parsed : SdioCbg} {rest : SdioCbg → SdioCbg}
    (hroom : elements.length ≤ 2 * (parsed.requested / 4)) :
    ((parsed.fillFifo elements).bind fun filled => some (rest filled)).isSome := by
  rw [fillFifo, if_pos hroom]
  rfl

theorem requested_of_block {parsed : SdioCbg} (hcount : parsed.blockCount = 1)
    (hsize : parsed.blockSize = 64) : parsed.requested = 64 := by
  rw [requested_of_one_block hcount, hsize]
  rfl

theorem switchFunction_isSome (hcount : s.parseBlockSizeAndCount.blockCount = 1)
    (hsize : s.parseBlockSizeAndCount.blockSize = 64) : s.switchFunction.isSome := by
  simp only [switchFunction]
  rw [if_pos ⟨hcount, hsize⟩]
  apply fillFifo_bind_isSome
  rw [List.length_map, List.length_range, requested_of_block hcount hsize]
  decide

theorem sdStatus_isSome (hcount : s.parseBlockSizeAndCount.blockCount = 1)
    (hsize : s.parseBlockSizeAndCount.blockSize = 64) : s.sdStatus.isSome := by
  simp only [sdStatus]
  rw [if_pos ⟨hcount, hsize⟩]
  apply fillFifo_bind_isSome
  rw [List.length_map, List.length_range, requested_of_block hcount hsize]
  decide

theorem sendScr_isSome (hcount : s.parseBlockSizeAndCount.blockCount = 1)
    (hsize : 4 ≤ s.parseBlockSizeAndCount.blockSize.toNat) : s.sendScr.isSome := by
  simp only [sendScr]
  rw [if_pos hcount]
  apply fillFifo_bind_isSome
  rw [requested_of_one_block hcount, List.length_cons, List.length_singleton]
  omega

theorem readMultipleBlock_isSome (s : SdioCbg) : s.readMultipleBlock.isSome := by
  simp only [readMultipleBlock]
  apply fillFifo_bind_isSome
  rw [List.length_map, List.length_range]
  omega

/-- A command whose assertions hold fills no element behind the end of its buffer. -/
theorem parseAndExecCmd_isSome (hfills : fills s cmd) (hasserted : Asserted s cmd)
    (hscr : s.nextAcmd = true → cmdId cmd = 51 → 4 ≤ s.parseBlockSizeAndCount.blockSize.toNat) :
    (s.parseAndExecCmd cmd arg).isSome := by
  rw [fills] at hfills
  simp only [Asserted] at hasserted
  rw [parseAndExecCmd]
  by_cases hacmd : s.nextAcmd = true
  · rw [if_pos hacmd] at hfills hasserted ⊢
    obtain ⟨hcount, hsize⟩ := hasserted
    rcases hfills with h13 | h51
    · rw [execAcmd, h13]
      exact sdStatus_isSome hcount (hsize h13)
    · rw [execAcmd, h51]
      exact sendScr_isSome hcount (hscr hacmd h51)
  · rw [if_neg hacmd] at hfills hasserted ⊢
    rcases hfills with h6 | h18
    · obtain ⟨hcount, hsize⟩ := hasserted h6
      rw [execCmd, h6]
      exact switchFunction_isSome hcount hsize
    · rw [execCmd, h18]
      exact readMultipleBlock_isSome s

/-! ## The other commands -/

/-- A command that keeps the buffers. -/
structure Plain (s s' : SdioCbg) : Prop extends Alike s s' where
  loaded : s'.opState ≠ .rcv → 0 < s'.requested →
    s.opState ≠ .rcv ∧ s'.requested = s.requested

theorem ioRwDirect_plain (hexec : s.ioRwDirect arg = some s') : Plain s s' := by
  simp only [ioRwDirect] at hexec
  split_ifs at hexec
  · cases hexec
    exact ⟨⟨rfl, rfl, rfl⟩, fun hsends _ => ⟨hsends, rfl⟩⟩
  · cases hexec
    exact ⟨⟨rfl, rfl, rfl⟩, fun hsends _ => ⟨hsends, rfl⟩⟩
  · obtain ⟨value, -, hs'⟩ := Option.bind_eq_some_iff.mp hexec
    cases hs'
    exact ⟨⟨rfl, rfl, rfl⟩, fun hsends _ => ⟨hsends, rfl⟩⟩

theorem selectCard_plain (s : SdioCbg) : Plain s s.selectCard := by
  refine ⟨⟨rfl, rfl, rfl⟩, fun hsends _ => ⟨?_, rfl⟩⟩
  intro hrcv
  rw [selectCard, hrcv] at hsends
  exact hsends rfl

theorem sendOpCond_plain (s : SdioCbg) (arg : BitVec 32) : Plain s (s.sendOpCond arg) := by
  cases hcard : s.card with
  | sd =>
      simp only [sendOpCond, hcard]
      exact ⟨⟨rfl, rfl, rfl⟩, fun hsends _ => ⟨hsends, rfl⟩⟩
  | sdio =>
      simp only [sendOpCond, hcard]
      exact ⟨⟨rfl, rfl, rfl⟩, fun hsends _ => ⟨hsends, rfl⟩⟩

theorem execAcmd_plain (hfills : ¬(cmdId cmd = 13 ∨ cmdId cmd = 51))
    (hexec : s.execAcmd cmd arg = some s') : Plain s s' := by
  unfold execAcmd at hexec
  split at hexec
  case h_1 =>
      cases hexec
      exact ⟨⟨rfl, rfl, rfl⟩, fun hsends _ => ⟨hsends, rfl⟩⟩
  case h_2 hn => exact absurd (Or.inl (BitVec.eq_of_toNat_eq hn)) hfills
  case h_3 =>
      simp only [sdSendOpCond] at hexec
      split_ifs at hexec <;> cases hexec <;>
        exact ⟨⟨rfl, rfl, rfl⟩, fun hsends _ => ⟨hsends, rfl⟩⟩
  case h_4 hn => exact absurd (Or.inr (BitVec.eq_of_toNat_eq hn)) hfills
  case h_5 => cases hexec

/-- The end of a transmission drops what is outstanding. -/
theorem stopTransmission_ready (hready : Ready s) : Ready s.stopTransmission := by
  simp only [stopTransmission]
  split_ifs with hblocks
  · have halike : Alike s { s with opState := .tran } := ⟨rfl, rfl, rfl⟩
    have hdropped : Ready (dropFifo { s with opState := .tran }) :=
      ready_dropFifo (halike.accounts hready.toAccounts) hready.gap
    refine Alike.ready ?_ ?_ ?_ hdropped
    · exact ⟨rfl, rfl, rfl⟩
    · intro _ hpos
      exact absurd rfl hpos.ne'
    · exact hready.gap
  · have hzero : s.blockCount = 0 := BitVec.eq_of_toNat_eq (Nat.eq_zero_of_not_pos hblocks)
    have hnone : s.requested = 0 := by
      rw [requested, hzero]
      rfl
    refine Alike.ready ?_ ?_ ?_ hready
    · exact ⟨rfl, rfl, rfl⟩
    · intro _ hpos
      exact absurd hnone hpos.ne'
    · exact hready.gap

theorem execCmd_ready (hready : Ready s) (hgap : s'.control.getLsbD 16 = false)
    (hfills : ¬(cmdId cmd = 6 ∨ cmdId cmd = 18))
    (hreceiving : cmdId cmd = 3 → s.opState = .rcv → s.requested = 0)
    (hexec : s.execCmd cmd arg = some s') : Ready s' := by
  have hplain (hplain : Plain s s') : Ready s' := hplain.ready hplain.loaded hgap hready
  unfold execCmd at hexec
  split at hexec
  case h_3 hn =>
      have h3 : cmdId cmd = 3 := BitVec.eq_of_toNat_eq hn
      cases hexec
      apply hplain
      refine ⟨⟨rfl, rfl, rfl⟩, fun _ hpos => ⟨fun hrcv => ?_, rfl⟩⟩
      exact absurd (hreceiving h3 hrcv) hpos.ne'
  case h_4 =>
      cases hexec
      exact hplain (sendOpCond_plain s arg)
  case h_5 hn => exact absurd (Or.inl (BitVec.eq_of_toNat_eq hn)) hfills
  case h_6 =>
      cases hexec
      exact hplain (selectCard_plain s)
  case h_9 =>
      cases hexec
      exact stopTransmission_ready hready
  case h_11 hn => exact absurd (Or.inr (BitVec.eq_of_toNat_eq hn)) hfills
  case h_12 =>
      cases hexec
      apply hplain
      exact ⟨⟨rfl, rfl, rfl⟩, fun hsends _ => absurd rfl hsends⟩
  case h_13 => exact hplain (ioRwDirect_plain hexec)
  case h_15 => cases hexec
  all_goals
    cases hexec
    apply hplain
    exact ⟨⟨rfl, rfl, rfl⟩, fun hsends _ => ⟨hsends, rfl⟩⟩

/-- A command leaves a state between transfers. -/
theorem parseAndExecCmd_ready (hready : Ready s)
    (hfree : fills s cmd → s.rxFifo = none)
    (hscr : s.nextAcmd = true → cmdId cmd = 51 →
      8 ∣ s.parseBlockSizeAndCount.blockSize.toNat →
        s.parseBlockSizeAndCount.blockSize.toNat = 8)
    (hreceiving : s.nextAcmd = false → cmdId cmd = 3 → s.opState = .rcv → s.requested = 0)
    (hexec : s.parseAndExecCmd cmd arg = some s') : Ready s' := by
  have hgap : s'.control.getLsbD 16 = false := by
    rw [(parseAndExecCmd_executed hexec).host]
    exact hready.gap
  by_cases hfills : fills s cmd
  · exact (parseAndExecCmd_filled hfills hscr hexec).ready (hfree hfills) hgap hready
  · rw [fills] at hfills
    rw [parseAndExecCmd] at hexec
    by_cases hacmd : s.nextAcmd = true
    · rw [if_pos hacmd] at hfills hexec
      obtain ⟨halike, hloaded⟩ := execAcmd_plain hfills hexec
      have hsame : Alike s s' := ⟨halike.rxFifo, halike.buffers, halike.index⟩
      exact hsame.ready hloaded hgap hready
    · rw [if_neg hacmd] at hfills hexec
      exact execCmd_ready hready hgap hfills (hreceiving (Bool.eq_false_iff.mpr hacmd)) hexec

/-! ## Tables -/

variable {lines : List Descriptor} {final : BitVec 32} {t : Stream}

/-- A transfer begins at the start of a buffer that holds it. -/
theorem Ready.follows (hready : Ready s) (hsized : Sized s lines)
    (hfirst : s.opState = .rcv → 0 < s.requested → s.blockOffset = 0 ∧ s.requested = 8) :
    Follows s (held s)
      { memory := s.memory, disk := s.dataVdd, offset := s.blockOffset, sent := 0 } := by
  have heights : 8 ∣ s.requested := by
    rw [← hsized.sum]
    apply List.dvd_sum
    intro count hcount
    obtain ⟨line, hline, rfl⟩ := List.mem_map.mp hcount
    exact hsized.doublewords line hline
  refine ⟨rfl, rfl, rfl, hready.length, ?_, ?_, hfirst⟩
  · intro hsends hpos
    obtain ⟨i, hi⟩ := Option.isSome_iff_exists.mp (hready.loaded hsends hpos).1
    obtain ⟨buffer, hbuffer⟩ : ∃ buffer, s.buffers[i]? = some buffer :=
      ⟨_, List.getElem?_eq_getElem (hready.current i hi)⟩
    have hfreed := hready.freed i buffer hbuffer
    rw [if_pos hi] at hfreed
    have hheld : held s = buffer.filled := by
      rw [held, hi, Option.bind_some, hbuffer]
    exact ⟨i, buffer, hi, hbuffer, hfreed, hheld.symm⟩
  · intro hsends hpos
    rw [hready.index, Nat.zero_add]
    exact ⟨rfl, (hready.loaded hsends hpos).2 heights⟩

/-- A table is performed from a state between transfers. -/
theorem table_performs (hready : Ready s) (htable : Table s lines final t) (hsized : Sized s lines)
    (hends : ∀ line ∈ lines, line.atEnd = true ↔ line.act ≠ 2)
    (hfirst : s.opState = .rcv → 0 < s.requested → s.blockOffset = 0 ∧ s.requested = 8) :
    s.doAdma2Fds = some { moved (finished s) t with admaSystemAddress := final } :=
  doAdma2Fds_performs htable rfl hready.gap (hready.follows hsized hfirst) hends hsized

theorem ready_finished (hready : Ready s) : Ready (finished s) := by
  rw [finished]
  split_ifs
  · exact ready_dropFifo hready.toAccounts hready.gap
  · exact hready

/-! ## Writes -/

theorem writeTransferModeCommand_exec {lanes : Buffer} (hon : lanes 7 = 0xFF)
    (hwrite : s.writeTransferModeCommand data lanes = some s') :
    ∃ executed, parseAndExecCmd { s with
        transferModeCommand := commandWord data lanes
        presentState := s.presentState ||| 1 } (commandWord data lanes) s.argument =
          some executed ∧ s' = executed.setInterrupt true := by
  simp only [writeTransferModeCommand, if_pos hon] at hwrite
  obtain ⟨executed, hexec, hs'⟩ := Option.bind_eq_some_iff.mp hwrite
  cases hs'
  exact ⟨executed, hexec, rfl⟩

/-- A reset keeps what transfers work on. -/
theorem writeControlReset_quiet {lanes : Buffer}
    (hwrite : s.writeControlReset data lanes = some s') :
    s'.toTransferState = s.toTransferState ∧
      (s.control.getLsbD 16 = false → s'.control.getLsbD 16 = false) := by
  by_cases hlast : lanes 7 = 0xFF
  · simp only [writeControlReset, if_pos hlast] at hwrite
    obtain ⟨hclock, hwrite⟩ := Option.ite_none_right_eq_some.mp hwrite
    have hstopped : lanes 4 ≠ 0xFF := by
      rw [hclock.1]
      decide
    rw [if_neg hstopped] at hwrite
    split_ifs at hwrite <;> cases hwrite
    · exact ⟨rfl, fun _ => BitVec.getLsbD_zero⟩
    · exact ⟨rfl, id⟩
    · refine ⟨rfl, fun hgap => ?_⟩
      rw [resetDat, BitVec.getLsbD_and, hgap, Bool.false_and]
  · obtain ⟨controlReset, heq, -⟩ := writeControlReset_eq hwrite hlast
    rw [heq]
    exact ⟨rfl, id⟩

/-- A write that is neither a command nor an acknowledgement keeps what transfers work on. -/
theorem writeRegister_quiet (hbus : BusWrite base payload)
    (hcommand : writtenOffset base payload ≠ 0xC) (hack : writtenOffset base payload ≠ 0x30)
    (hwrite : s.writeRegister (writtenOffset base payload) data payload.byteEnable = some s') :
    s'.toTransferState = s.toTransferState ∧
      (s.control.getLsbD 16 = false → s'.control.getLsbD 16 = false) := by
  rcases writeRegister_cases hwrite with ⟨value, hassigned⟩ | hsix
  · obtain ⟨-, hothers, -, -, htransfer⟩ := writeRegister_assigned hassigned hwrite
    have hne : (0x28 : BitVec 32) ≠ writtenOffset base payload := by
      intro heq
      rw [← heq] at hassigned
      cases hassigned
    have hcontrol : s'.control = s.control := Option.some.inj (hothers 0x28 hne)
    rw [hcontrol]
    exact ⟨htransfer, id⟩
  · simp only [List.mem_cons, List.not_mem_nil, or_false, hcommand, hack, false_or] at hsix
    obtain ⟨-, -, lanes, hlanes, hvalues⟩ := hbus
    rw [hlanes] at hwrite
    obtain hoffset | hoffset | hoffset | hoffset := hsix <;> rw [hoffset] at hwrite
    · obtain ⟨value, heq, -⟩ := writeBlockSizeAndCount_eq s data lanes
      have hs' : s' = { s with blockSizeAndCount := value } := by
        cases hwrite
        exact heq
      rw [hs']
      exact ⟨rfl, id⟩
    · cases hwrite
      exact ⟨rfl, id⟩
    · have hwritten : s.writeControl data lanes = some s' := hwrite
      obtain ⟨control, presentState, heq, hkept⟩ := writeControl_eq hwritten
      simp only [writeControl] at hwritten
      obtain ⟨hhigh, -⟩ := Option.ite_none_left_eq_some.mp hwritten
      have hoff : lanes 2 = 0 :=
        (hvalues 2 (by decide)).resolve_right fun hon => hhigh (Or.inl hon)
      have hbit := bytes32_eq_iff.mp (hkept 2 (by decide) hoff) 0 (by decide)
      rw [heq]
      exact ⟨rfl, fun hgap => hbit.trans hgap⟩
    · exact writeControlReset_quiet hwrite

theorem table_congr (htransfer : s'.toTransferState = s.toTransferState)
    (haddress : s'.admaSystemAddress = s.admaSystemAddress) :
    Table s' lines final t ↔ Table s lines final t := by
  rw [Table, Table, held, held, htransfer, haddress]

theorem sized_congr (htransfer : s'.toTransferState = s.toTransferState) (hsized : Sized s lines) :
    Sized s' lines := by
  obtain ⟨hdoublewords, hblocks, hsum⟩ := hsized
  rw [requested] at hblocks hsum
  refine ⟨hdoublewords, ?_, ?_⟩
  · rw [requested, htransfer]
    exact hblocks
  · rw [requested, htransfer]
    exact hsum

/-- The state behind a table, with the end of its transfer announced. -/
theorem announced_ready (hready : Ready s) (t : Stream) (final : BitVec 32) :
    Ready (setInterrupt (raise { moved s t with admaSystemAddress := final } 2) true) := by
  have halike : Alike s (setInterrupt (raise
      { moved s t with admaSystemAddress := final } 2) true) := ⟨rfl, rfl, rfl⟩
  exact halike.ready (fun hsends _ => ⟨hsends, rfl⟩) hready.gap hready

/-- What an acknowledgement that finds blocks does. -/
theorem acknowledgement_performs (hready : Ready s) (hstarts : 0 < s.blockCount ∧ data &&& 1 ≠ 0)
    (htable : Table s lines final t) (hsized : Sized s lines)
    (hends : ∀ line ∈ lines, line.atEnd = true ↔ line.act ≠ 2)
    (hfirst : s.opState = .rcv → 0 < s.requested → s.blockOffset = 0 ∧ s.requested = 8) :
    ∃ s', s.writeInterruptStatus data = some s' ∧ Ready s' ∧ s'.memory = t.memory ∧
      s'.dataVdd = t.disk ∧ s'.admaSystemAddress = final ∧
        (0 < s.requested → s'.rxFifo = none) := by
  obtain ⟨presentState, flag, heq⟩ := acknowledge_eq s data
  have htransfer : (s.acknowledge data).toTransferState = s.toTransferState := by
    rw [heq]
  have haddress : (s.acknowledge data).admaSystemAddress = s.admaSystemAddress := by
    rw [heq]
  have hgap : (s.acknowledge data).control.getLsbD 16 = false := by
    rw [heq]
    exact hready.gap
  have hacknowledged := hready.quiet htransfer hgap
  have hrequested : (s.acknowledge data).requested = s.requested := by
    rw [requested, requested, htransfer]
  have hperformed := table_performs hacknowledged ((table_congr htransfer haddress).mpr htable)
    (sized_congr htransfer hsized) hends (by rw [hrequested, htransfer]; exact hfirst)
  have hfinished := ready_finished hacknowledged
  have hfreed : 0 < s.requested → (finished (s.acknowledge data)).rxFifo = none := by
    intro hpos
    rw [← hrequested] at hpos
    have hdropped : finished (s.acknowledge data) = (s.acknowledge data).dropFifo := if_pos hpos
    rw [hdropped]
    rfl
  rw [writeInterruptStatus, if_pos hstarts, hperformed]
  generalize finished (s.acknowledge data) = s₁ at hfinished hfreed
  exact ⟨_, rfl, announced_ready hfinished t final, rfl, rfl, rfl, hfreed⟩

/-- A command that a write executes leaves a state between transfers. -/
theorem command_ready {lanes : Buffer} (hready : Ready s) (hon : lanes 7 = 0xFF)
    (hwrite : s.writeTransferModeCommand data lanes = some s')
    (hfree : fills s data → s.rxFifo = none)
    (hscr : s.nextAcmd = true → cmdId data = 51 →
      8 ∣ s.parseBlockSizeAndCount.blockSize.toNat →
        s.parseBlockSizeAndCount.blockSize.toNat = 8)
    (hreceiving : s.nextAcmd = false → cmdId data = 3 → s.opState = .rcv → s.requested = 0) :
    Ready s' := by
  obtain ⟨executed, hexec, hs'⟩ := writeTransferModeCommand_exec hon hwrite
  have hid : cmdId (commandWord data lanes) = cmdId data := cmdId_commandWord data hon
  have hinhibited : Ready { s with
      transferModeCommand := commandWord data lanes
      presentState := s.presentState ||| 1 } := hready.quiet rfl hready.gap
  have hexecuted : Ready executed := by
    apply parseAndExecCmd_ready hinhibited _ _ _ hexec
    · rw [fills, hid]
      exact hfree
    · rw [hid]
      exact hscr
    · rw [hid]
      exact hreceiving
  rw [hs']
  exact hexecuted.quiet rfl hexecuted.gap

/-- The sizes that a command takes from the register, if the block size is below 1024. -/
theorem parsed_sizes (hsmall : s.blockSizeAndCount.getLsbD 10 = false) :
    s.parseBlockSizeAndCount.blockSize.toNat = (s.blockSizeAndCount &&& 0x7FF).toNat ∧
      s.parseBlockSizeAndCount.blockCount.toNat = (s.blockSizeAndCount >>> 16).toNat := by
  have hmask : s.blockSizeAndCount &&& 0x3FF = s.blockSizeAndCount &&& 0x7FF := by
    apply BitVec.eq_of_getLsbD_eq
    intro k hk
    rw [BitVec.getLsbD_and, BitVec.getLsbD_and]
    by_cases hten : k = 10
    · rw [hten, hsmall, Bool.false_and, Bool.false_and]
    · have hbits : (0x3FF : BitVec 32).getLsbD k = (0x7FF : BitVec 32).getLsbD k := by
        interval_cases k <;> first | rfl | exact absurd rfl hten
      rw [hbits]
  have hsize : (s.blockSizeAndCount &&& 0x3FF).toNat < 2 ^ 16 := by
    rw [BitVec.toNat_and]
    exact Nat.and_le_right.trans_lt (by decide)
  have hcount : (s.blockSizeAndCount >>> 16).toNat < 2 ^ 16 := by
    rw [BitVec.toNat_ushiftRight, Nat.shiftRight_eq_div_pow]
    have hword := s.blockSizeAndCount.isLt
    omega
  constructor
  · rw [← hmask]
    exact (BitVec.toNat_setWidth _ _).trans (Nat.mod_eq_of_lt hsize)
  · exact (BitVec.toNat_setWidth _ _).trans (Nat.mod_eq_of_lt hcount)

theorem bAccess_of_write (hbus : BusWrite base payload) (hlength : payload.dataLength = 8)
    (hwrite : s.writeRegister (writtenOffset base payload) (load32 payload.data)
      payload.byteEnable = some s') :
    s.bAccess base payload = some (s', { payload with response := .ok }) := by
  rw [bAccess, hbus.1]
  exact (if_pos hlength).trans (congrArg (Option.map _) hwrite)

/-- The command lane of a write of a command. -/
theorem isCommand_lanes (hbus : BusWrite base payload) (hcommand : isCommand base payload = true) :
    ∃ lanes, payload.byteEnable = some lanes ∧ lanes 7 = 0xFF ∧
      ∀ s : SdioCbg, s.writeRegister (writtenOffset base payload) (load32 payload.data)
        payload.byteEnable = s.writeTransferModeCommand (load32 payload.data) lanes := by
  rw [isCommand, decide_eq_true_iff] at hcommand
  obtain ⟨hoffset, hlast⟩ := hcommand
  have hupper := upperOnly_of_offset hbus hoffset rfl
  obtain ⟨-, -, lanes, hlanes, hvalues⟩ := hbus
  have hon : lanes 7 = 0xFF := by
    apply (hvalues 7 (by decide)).resolve_left
    intro hoff
    rw [(enabled_upper hlanes hupper 3).mpr hoff] at hlast
    cases hlast
  refine ⟨lanes, hlanes, hon, fun s => ?_⟩
  rw [hoffset, hlanes]
  rfl

theorem writeTransferModeCommand_isSome {lanes : Buffer} (hon : lanes 7 = 0xFF)
    (hfills : fills s data) (hasserted : Asserted s data)
    (hscr : s.nextAcmd = true → cmdId data = 51 → 4 ≤ s.parseBlockSizeAndCount.blockSize.toNat) :
    (s.writeTransferModeCommand data lanes).isSome := by
  have hid : cmdId (commandWord data lanes) = cmdId data := cmdId_commandWord data hon
  have hsome : (parseAndExecCmd { s with
      transferModeCommand := commandWord data lanes
      presentState := s.presentState ||| 1 } (commandWord data lanes) s.argument).isSome := by
    apply parseAndExecCmd_isSome
    · rw [fills, hid]
      exact hfills
    · rw [Asserted, hid]
      exact hasserted
    · rw [hid]
      exact hscr
  obtain ⟨executed, hexec⟩ := Option.isSome_iff_exists.mp hsome
  have hwrite : s.writeTransferModeCommand data lanes = some (executed.setInterrupt true) := by
    rw [writeTransferModeCommand, if_pos hon]
    exact congrArg (Option.bind · _) hexec
  rw [hwrite]
  rfl

/-- The sizes that a command leaves. -/
theorem command_sizes {lanes : Buffer} (hon : lanes 7 = 0xFF)
    (hscr : s.nextAcmd = true → cmdId data = 51 →
      8 ∣ s.parseBlockSizeAndCount.blockSize.toNat →
        s.parseBlockSizeAndCount.blockSize.toNat = 8)
    (hkind : fills s data ∨ receives s data)
    (hwrite : s.writeTransferModeCommand data lanes = some s') :
    s'.blockSize = s.parseBlockSizeAndCount.blockSize ∧
      s'.blockCount = s.parseBlockSizeAndCount.blockCount := by
  obtain ⟨executed, hexec, hs'⟩ := writeTransferModeCommand_exec hon hwrite
  have hid : cmdId (commandWord data lanes) = cmdId data := cmdId_commandWord data hon
  rw [hs']
  rcases hkind with hfills | ⟨hacmd, h25⟩
  · rw [← hid] at hscr
    rw [fills, ← hid] at hfills
    have hfilled := parseAndExecCmd_filled (s := { s with
      transferModeCommand := commandWord data lanes
      presentState := s.presentState ||| 1 }) hfills hscr hexec
    exact ⟨hfilled.blockSize, hfilled.blockCount⟩
  · have hnot : ¬s.nextAcmd = true := Bool.eq_false_iff.mp hacmd
    rw [parseAndExecCmd, if_neg hnot, execCmd, hid, h25] at hexec
    cases hexec
    exact ⟨rfl, rfl⟩

theorem write_performs (hready : Ready s) (hbus : BusWrite base payload)
    (hlength : payload.dataLength = 8) (hin : InStep base s payload) :
    Performs base s payload := by
  constructor
  case transfers =>
      intro hstarts lines final t htable hsized
      obtain ⟨hoffset, hblocks⟩ := hstarts
      obtain ⟨s', hwrite, -, hmemory, hdisk, haddress, hfreed⟩ :=
        acknowledgement_performs hready hblocks htable hsized
          (hin.ends ⟨hoffset, hblocks⟩ lines final t htable) (hin.first ⟨hoffset, hblocks⟩)
      have hwritten : s.writeRegister (writtenOffset base payload) (load32 payload.data)
          payload.byteEnable = some s' := by
        rw [hoffset]
        exact hwrite
      exact ⟨s', _, bAccess_of_write hbus hlength hwritten, hmemory, hdisk, haddress, hfreed⟩
  case fits =>
      intro hcommand hfills hasserted
      obtain ⟨lanes, hlanes, hon, hregister⟩ := isCommand_lanes hbus hcommand
      have hsome := writeTransferModeCommand_isSome hon hfills hasserted
        fun hacmd h51 => (hin.scr hcommand hacmd h51).1
      obtain ⟨s', hwrite⟩ := Option.isSome_iff_exists.mp hsome
      rw [bAccess_of_write hbus hlength ((hregister s).trans hwrite)]
      rfl
  case sizes =>
      intro hcommand hkind s' answer haccess
      obtain ⟨lanes, hlanes, hon, hregister⟩ := isCommand_lanes hbus hcommand
      have hwrite := bAccess_write hbus haccess
      rw [hregister] at hwrite
      obtain ⟨hsize, hcount⟩ := command_sizes hon
        (fun hacmd h51 => (hin.scr hcommand hacmd h51).2) hkind hwrite
      rw [hsize, hcount]
      exact parsed_sizes (hin.small hcommand hkind)

/-- A write leaves a state between transfers. -/
theorem write_ready (hready : Ready s) (hbus : BusWrite base payload)
    (hwell : WellFormed base s payload) (hin : InStep base s payload) {answer : Payload}
    (haccess : s.bAccess base payload = some (s', answer)) : Ready s' := by
  have hwrite := bAccess_write hbus haccess
  by_cases hcommand : writtenOffset base payload = 0xC
  · have hupper := upperOnly_of_offset hbus hcommand rfl
    obtain ⟨-, -, lanes, hlanes, -⟩ := hbus
    rw [hcommand, hlanes] at hwrite
    have hwritten : s.writeTransferModeCommand (load32 payload.data) lanes = some s' := hwrite
    by_cases hon : lanes 7 = 0xFF
    · have hlast : enabled payload 3 = true := by
        rw [← Bool.not_eq_false, enabled_upper hlanes hupper 3, hon]
        decide
      have hexecutes : isCommand base payload = true := by
        rw [isCommand, decide_eq_true_iff]
        exact ⟨hcommand, hlast⟩
      exact command_ready hready hon hwritten (hin.free hexecutes)
        (fun hacmd h51 => (hin.scr hexecutes hacmd h51).2) (hin.receiving hexecutes)
    · have heq := writeTransferModeCommand_eq hwritten
      rw [if_neg hon] at heq
      rw [heq]
      exact hready.quiet rfl hready.gap
  · by_cases hack : writtenOffset base payload = 0x30
    · rw [hack] at hwrite
      have hwritten : s.writeInterruptStatus (load32 payload.data) = some s' := hwrite
      by_cases hblocks : 0 < s.blockCount ∧ load32 payload.data &&& 1 ≠ 0
      · obtain ⟨lines, final, t, htable, hsized⟩ := hwell ⟨hack, hblocks⟩
        obtain ⟨s₁, hfirst, hready₁, -⟩ := acknowledgement_performs hready hblocks htable hsized
          (hin.ends ⟨hack, hblocks⟩ lines final t htable) (hin.first ⟨hack, hblocks⟩)
        cases hwritten.symm.trans hfirst
        exact hready₁
      · obtain ⟨presentState, flag, heq⟩ := acknowledge_eq s (load32 payload.data)
        rw [writeInterruptStatus, if_neg hblocks, heq] at hwritten
        cases hwritten
        exact hready.quiet rfl hready.gap
    · obtain ⟨htransfer, hgap⟩ := writeRegister_quiet hbus hcommand hack hwrite
      exact hready.quiet htransfer (hgap hready.gap)

/-! ## Runs -/

/-- What the events of a run are for. -/
def Event.performs (base : BitVec 32) (s : SdioCbg) : Event → Prop
  | .write payload => Performs base s payload
  | .memory _ => True

def Event.wellFormed (base : BitVec 32) (s : SdioCbg) : Event → Prop
  | .write payload => WellFormed base s payload
  | .memory _ => True

def Event.inStep (base : BitVec 32) (s : SdioCbg) : Event → Prop
  | .write payload => InStep base s payload
  | .memory _ => True

/-- The writes of the bus. -/
def Event.onBus (base : BitVec 32) : Event → Prop
  | .write payload => BusWrite base payload ∧ payload.dataLength = 8
  | .memory _ => True

theorem new_ready (card : CardType) (blockOffset : BitVec 32) (dataVdd : BitVec 32 → Byte)
    (memory : Memory) : Ready (new card blockOffset dataVdd memory) := by
  have hnone : (new card blockOffset dataVdd memory).requested = 0 := rfl
  refine ⟨⟨?_, ?_, ?_⟩, rfl, ?_, ?_, BitVec.getLsbD_zero⟩
  · intro i hi
    cases hi
  · intro i buffer hbuffer
    cases hbuffer
  · intro buffer hbuffer
    cases hbuffer
  · intro _ hpos
    exact absurd hnone hpos.ne'
  · exact Nat.two_pow_pos 32

theorem step_ready {event : Event} (hready : Ready s) (hbus : event.onBus base)
    (hwell : event.wellFormed base s) (hin : event.inStep base s)
    (hstep : step base s event = some s') : Ready s' := by
  cases event with
  | write payload =>
      obtain ⟨⟨written, answer⟩, haccess, heq⟩ := Option.map_eq_some_iff.mp hstep
      cases heq
      exact write_ready hready hbus.1 hwell hin haccess
  | memory memory =>
      cases hstep
      have halike : Alike s { s with memory := memory } := ⟨rfl, rfl, rfl⟩
      exact halike.ready (fun hsends _ => ⟨hsends, rfl⟩) hready.gap hready

theorem step_performs {event : Event} (hready : Ready s) (hbus : event.onBus base)
    (hin : event.inStep base s) : event.performs base s := by
  cases event with
  | write payload => exact write_performs hready hbus.1 hbus.2 hin
  | memory memory => trivial

/-- In a run that keeps in step, every table that a transfer walks is performed and every command
fills its buffer within its bounds, and in every state reached every buffer but the outstanding one
was freed exactly once. -/
theorem run_performs (base : BitVec 32) (card : CardType) (blockOffset : BitVec 32)
    (dataVdd : BitVec 32 → Byte) (memory : Memory) (events : List Event)
    (hbus : ∀ event ∈ events, event.onBus base)
    (hwell : Guarded.Meets (step base) (fun s event => event.wellFormed base s)
      (new card blockOffset dataVdd memory) events)
    (hin : Guarded.Meets (step base) (fun s event => event.inStep base s)
      (new card blockOffset dataVdd memory) events) :
    Guarded.Meets (step base) (fun s event => Accounts s ∧ event.performs base s)
        (new card blockOffset dataVdd memory) events ∧
      ∀ s, Guarded.exec (step base) (new card blockOffset dataVdd memory) events = some s →
        Accounts s := by
  have hmeets := Guarded.meets_and (Guarded.meets_of_forall
    (new card blockOffset dataVdd memory) hbus) (Guarded.meets_and hwell hin)
  have hstart := new_ready card blockOffset dataVdd memory
  have hkept (s : SdioCbg) (event : Event) (next : SdioCbg) (hready : Ready s)
      (hguard : event.onBus base ∧ event.wellFormed base s ∧ event.inStep base s)
      (hnext : step base s event = some next) : Ready next :=
    step_ready hready hguard.1 hguard.2.1 hguard.2.2 hnext
  constructor
  · apply Guarded.meets_mono _ (Guarded.meets_invariant hkept hstart hmeets)
    intro s event _ hboth
    exact ⟨hboth.1.toAccounts, step_performs hboth.1 hboth.2.1 hboth.2.2.2⟩
  · intro s hrun
    exact (Guarded.exec_invariant hkept hstart hmeets hrun).toAccounts

/-- A write that neither executes a command nor acknowledges one. -/
theorem inStep_quiet (hcommand : isCommand base payload = false)
    (hack : writtenOffset base payload ≠ 0x30) : InStep base s payload := by
  have hno : ¬isCommand base payload = true := Bool.eq_false_iff.mp hcommand
  exact ⟨fun hyes => absurd hyes hno, fun hyes => absurd hyes hno, fun hyes => absurd hyes hno,
    fun hyes => absurd hyes hno, fun hstarts => absurd hstarts.1 hack,
    fun hstarts => absurd hstarts.1 hack⟩

/-! ## A table of two lines -/

/-- Memory with a table of two lines at its start. -/
def tableMemory (first second : Word64) : Memory := fun a =>
  if a.toNat < 8 then some (bytes64 first a.toNat)
  else if a.toNat < 16 then some (bytes64 second (a.toNat - 8))
  else some 0

theorem dmaRead_congr {memory memory' : Memory} {address : BitVec 32}
    (hsame : ∀ i < 8, memory (address + BitVec.ofNat 32 i) =
      memory' (address + BitVec.ofNat 32 i)) :
    dmaRead memory address = dmaRead memory' address := by
  have hmap (places : List ℕ) (hplaces : ∀ i ∈ places, i < 8) :
      places.mapM (fun i : ℕ => memory (address + BitVec.ofNat 32 i)) =
        places.mapM fun i : ℕ => memory' (address + BitVec.ofNat 32 i) := by
    induction places with
    | nil => rfl
    | cons i rest ih =>
        rw [List.mapM_cons, List.mapM_cons, hsame i (hplaces i List.mem_cons_self),
          ih fun j hj => hplaces j (List.mem_cons_of_mem i hj)]
  rw [dmaRead, dmaRead, hmap _ fun i hi => List.mem_range.mp hi]

/-- A doubleword goes to 0x100, and the second line ends the table. -/
theorem tableMemory_table (hmemory : s.memory = tableMemory 0x0000010000080021 3)
    (haddress : s.admaSystemAddress = 0) (hsends : s.opState ≠ .rcv) :
    ∃ final t, Table s [descriptor 0x0000010000080021, descriptor 3] final t := by
  have hfirst : dmaRead (tableMemory 0x0000010000080021 3) 0 = some 0x0000010000080021 := by
    decide
  have hsecond : dmaRead (tableMemory 0x0000010000080021 3) 8 = some 3 := by
    decide
  have hanswers : ∀ i < 8,
      (tableMemory 0x0000010000080021 3 (0x100 + BitVec.ofNat 32 i)).isSome := by
    decide
  have hapart : ∀ j < 8, ∀ i < 8,
      (0x100 : BitVec 32) + BitVec.ofNat 32 i ≠ 8 + BitVec.ofNat 32 j := by
    decide
  have hlater (elements : List (BitVec 32)) : dmaRead (Assignments.assignAll
      (tableMemory 0x0000010000080021 3) (Assignments.turns
        (fun i => (0x100 : BitVec 32) + BitVec.ofNat 32 i)
        (fun i => some (fifoByte elements (0 + i))) 8)) 8 = some 3 := by
    rw [← hsecond]
    apply dmaRead_congr
    intro j hj
    exact Assignments.assignAll_turns_of_ne (hapart j hj)
  simp only [Table, decide_eq_false hsends, hmemory, haddress]
  exact ⟨_, _, Walk.next hfirst rfl rfl (if_pos hanswers)
    (Walk.last (hlater (held s)) rfl rfl (Stream.move_zero _ _))⟩

theorem tableMemory_wellFormed (hmemory : s.memory = tableMemory 0x0000010000080021 3)
    (haddress : s.admaSystemAddress = 0) (hsends : s.opState ≠ .rcv) (hsize : s.blockSize = 8)
    (hcount : s.blockCount = 1) : ∃ lines final t, Table s lines final t ∧ Sized s lines := by
  obtain ⟨final, t, htable⟩ := tableMemory_table hmemory haddress hsends
  have hrequested : s.requested = 8 := by
    rw [requested, hsize, hcount]
    rfl
  refine ⟨_, final, t, htable, ?_, ?_, ?_⟩
  · decide
  · intro _
    rw [hsize]
    decide
  · rw [hrequested]
    rfl

theorem tableMemory_ends (hmemory : s.memory = tableMemory 0x0000010000080021 3)
    (haddress : s.admaSystemAddress = 0) (hsends : s.opState ≠ .rcv)
    (htable : Table s lines final t) : ∀ line ∈ lines, line.atEnd = true ↔ line.act ≠ 2 := by
  obtain ⟨final', t', htable'⟩ := tableMemory_table hmemory haddress hsends
  obtain ⟨rfl, -, -⟩ := Walk.unique htable htable'
  intro line hline
  simp only [List.mem_cons, List.not_mem_nil, or_false] at hline
  rcases hline with rfl | rfl <;> decide

/-- One block of one doubleword is read. -/
theorem run_performs_block :
    Guarded.Meets (step 0) (fun s event => Accounts s ∧ event.performs 0 s)
        (new .sd 0 (fun _ => 0x5A) (tableMemory 0x0000010000080021 3))
        [.write (Bus.setMem32 0 0x4 0x00010008), .write (Bus.setMem32 0 0xC 0x12000000),
          .write (Bus.setMem32 0 0x30 1)] ∧
      ∀ s, Guarded.exec (step 0) (new .sd 0 (fun _ => 0x5A) (tableMemory 0x0000010000080021 3))
        [.write (Bus.setMem32 0 0x4 0x00010008), .write (Bus.setMem32 0 0xC 0x12000000),
          .write (Bus.setMem32 0 0x30 1)] = some s → Accounts s := by
  apply run_performs
  · intro event hevent
    simp only [List.mem_cons, List.not_mem_nil, or_false] at hevent
    rcases hevent with rfl | rfl | rfl <;>
      exact ⟨⟨rfl, by decide, _, rfl, by decide⟩, rfl⟩
  · apply Guarded.meets_cons rfl
    · exact fun hstarts => absurd hstarts.1 (by decide)
    · apply Guarded.meets_cons rfl
      · exact fun hstarts => absurd hstarts.1 (by decide)
      · refine ⟨fun _ => ?_, fun _ _ => trivial⟩
        exact tableMemory_wellFormed rfl rfl (by decide) rfl rfl
  · apply Guarded.meets_cons rfl
    · exact inStep_quiet (by decide) (by decide)
    · apply Guarded.meets_cons rfl
      · refine ⟨fun _ _ => rfl, fun _ _ => rfl, fun _ hacmd => absurd hacmd (by decide),
          fun _ _ h3 => absurd h3 (by decide), fun hstarts => absurd hstarts.1 (by decide),
          fun hstarts => absurd hstarts.1 (by decide)⟩
      · refine ⟨⟨fun hcommand => absurd hcommand (by decide),
          fun hcommand => absurd hcommand (by decide), fun hcommand => absurd hcommand (by decide),
          fun hcommand => absurd hcommand (by decide), ?_, ?_⟩, fun _ _ => trivial⟩
        · intro _ lines final t htable
          exact tableMemory_ends rfl rfl (by decide) htable
        · intro _ hrcv
          exact absurd hrcv (by decide)

/-- A line that transfers and ends. -/
theorem endTable_wellFormed (hmemory : s.memory = tableMemory 0x0000010000080023 0)
    (haddress : s.admaSystemAddress = 0) (hsends : s.opState ≠ .rcv) (hsize : s.blockSize = 8)
    (hcount : s.blockCount = 1) : ∃ lines final t, Table s lines final t ∧ Sized s lines := by
  have hline : dmaRead (tableMemory 0x0000010000080023 0) 0 = some 0x0000010000080023 := by
    decide
  have hanswers : ∀ i < 8,
      (tableMemory 0x0000010000080023 0 (0x100 + BitVec.ofNat 32 i)).isSome := by
    decide
  have hrequested : s.requested = 8 := by
    rw [requested, hsize, hcount]
    rfl
  have htable : ∃ final t, Table s [descriptor 0x0000010000080023] final t := by
    simp only [Table, decide_eq_false hsends, hmemory, haddress]
    exact ⟨_, _, Walk.last hline rfl rfl (if_pos hanswers)⟩
  obtain ⟨final, t, htable⟩ := htable
  refine ⟨_, final, t, htable, ?_, ?_, ?_⟩
  · decide
  · intro _
    rw [hsize]
    decide
  · rw [hrequested]
    rfl

/-- Its transfer is not performed. -/
theorem endTable_stops (hmemory : s.memory = tableMemory 0x0000010000080023 0)
    (haddress : s.admaSystemAddress = 0) (hblocks : 0 < s.blockCount ∧ data &&& 1 ≠ 0) :
    s.writeInterruptStatus data = none := by
  have hline : dmaRead (tableMemory 0x0000010000080023 0) 0 = some 0x0000010000080023 := by
    decide
  obtain ⟨presentState, flag, heq⟩ := acknowledge_eq s data
  have hvalid : (descriptor 0x0000010000080023).valid = true := rfl
  have hact : (descriptor 0x0000010000080023).act = 2 := rfl
  have hend : (descriptor 0x0000010000080023).atEnd = true := rfl
  rw [writeInterruptStatus, if_pos hblocks, heq, doAdma2Fds]
  simp only [adma2Fds, Option.bind_eq_bind, hmemory, haddress, hline, Option.bind_some, hvalid,
    hact, hend, if_true, not_true, and_false, if_false, ne_eq]
  rfl

theorem endTable_not_performs (hmemory : s.memory = tableMemory 0x0000010000080023 0)
    (haddress : s.admaSystemAddress = 0) (hsends : s.opState ≠ .rcv) (hsize : s.blockSize = 8)
    (hcount : s.blockCount = 1) (hbus : BusWrite base payload)
    (hstarts : starts base s payload) : ¬Performs base s payload := by
  intro hperforms
  obtain ⟨lines, final, t, htable, hsized⟩ :=
    endTable_wellFormed hmemory haddress hsends hsize hcount
  obtain ⟨s', answer, haccess, -⟩ := hperforms.transfers hstarts lines final t htable hsized
  have hwrite := bAccess_write hbus haccess
  rw [hstarts.1] at hwrite
  exact Option.some_ne_none s' (hwrite.symm.trans
    (endTable_stops hmemory haddress hstarts.2))

/-- A table that ends with its transfer stops the controller. -/
theorem not_run_performs :
    ¬∀ (base : BitVec 32) (card : CardType) (blockOffset : BitVec 32)
      (dataVdd : BitVec 32 → Byte) (memory : Memory) (events : List Event),
      (∀ event ∈ events, event.onBus base) →
      Guarded.Meets (step base) (fun s event => event.wellFormed base s)
        (new card blockOffset dataVdd memory) events →
        Guarded.Meets (step base) (fun s event => Accounts s ∧ event.performs base s)
            (new card blockOffset dataVdd memory) events ∧
          ∀ s, Guarded.exec (step base) (new card blockOffset dataVdd memory) events = some s →
            Accounts s := by
  intro hperforms
  have hbus : ∀ event ∈ [Event.write (Bus.setMem32 0 0x4 0x00010008),
      .write (Bus.setMem32 0 0xC 0x12000000), .write (Bus.setMem32 0 0x30 1)],
      event.onBus 0 := by
    intro event hevent
    simp only [List.mem_cons, List.not_mem_nil, or_false] at hevent
    rcases hevent with rfl | rfl | rfl <;>
      exact ⟨⟨rfl, by decide, _, rfl, by decide⟩, rfl⟩
  have hwell : Guarded.Meets (step 0) (fun s event => event.wellFormed 0 s)
      (new .sd 0 (fun _ => 0x5A) (tableMemory 0x0000010000080023 0))
      [.write (Bus.setMem32 0 0x4 0x00010008), .write (Bus.setMem32 0 0xC 0x12000000),
        .write (Bus.setMem32 0 0x30 1)] := by
    apply Guarded.meets_cons rfl
    · exact fun hstarts => absurd hstarts.1 (by decide)
    · apply Guarded.meets_cons rfl
      · exact fun hstarts => absurd hstarts.1 (by decide)
      · refine ⟨fun _ => ?_, fun _ _ => trivial⟩
        exact endTable_wellFormed rfl rfl (by decide) rfl rfl
  obtain ⟨hmeets, -⟩ := hperforms 0 .sd 0 (fun _ => 0x5A) _ _ hbus hwell
  have hlast := ((hmeets.2 _ rfl).2 _ rfl).1.2
  revert hlast
  apply endTable_not_performs
  · rfl
  · rfl
  · decide
  · rfl
  · rfl
  · exact ⟨rfl, by decide, _, rfl, by decide⟩
  · exact ⟨by decide, by decide, by decide⟩

end Prazor.Devices.Sdio
