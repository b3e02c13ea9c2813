import Prazor.Bus.CpuBusaccess
import Prazor.Core.Guarded
import Prazor.Core.WordBits
import Prazor.Devices.SdioCbg

/-!
# Register writes and interrupt status of the SD host controller

Beside the device we keep the events that occurred and were not acknowledged.  The status register
holds exactly these, and the output is up while there is one, as long as an acknowledgement writes
nothing but events that are pending and leaves none of them pending; a register keeps the bytes
that a write does not enable as long as the word written has the same bytes there.
-/

namespace Prazor.Devices.Sdio

open Prazor.Tlm Prazor.Bytes SdioCbg

/-! ## Writes on the bus -/

/-- A write by the bus: an aligned doubleword of which some bytes are enabled. -/
def BusWrite (base : BitVec 32) (trans : Payload) : Prop :=
  trans.command = .write ∧ (trans.address.setWidth 32 - base) % 8 = 0 ∧
    ∃ lanes, trans.byteEnable = some lanes ∧ ∀ i < 8, lanes i = 0 ∨ lanes i = 0xFF

/-- The register has a byte `i` that is enabled. -/
def enabled (trans : Payload) (i : ℕ) : Bool :=
  match trans.byteEnable with
  | none => true
  | some lanes => lanes (if upperOnly trans.byteEnable then i + 4 else i) ≠ 0

/-- The bits of a word in the enabled bytes. -/
def enabledBits (trans : Payload) (data : BitVec 32) : BitVec 32 :=
  load32 fun i => if enabled trans i then bytes32 data i else 0

/-- A write of the upper byte of 0xC executes a command. -/
def isCommand (base : BitVec 32) (trans : Payload) : Bool :=
  writtenOffset base trans = 0xC ∧ enabled trans 3

/-- A write of the upper byte of 0x2C resets. -/
def isReset (base : BitVec 32) (trans : Payload) : Bool :=
  writtenOffset base trans = 0x2C ∧ enabled trans 3

/-- The registers beside the one written that a write acts on: a command responds, the power of the
bus is seen in the state of the card, and an acknowledgement ends the inhibition of commands and
starts a transfer. -/
def besides (base : BitVec 32) (trans : Payload) : List (BitVec 32) :=
  if writtenOffset base trans = 0xC then
    if isCommand base trans then [0x10, 0x14, 0x18, 0x1C, 0x24, 0x30] else []
  else if writtenOffset base trans = 0x28 then [0x24]
  else if writtenOffset base trans = 0x30 then [0x24, 0x58]
  else []

/-! ## What a write is for -/

/-- A write changes the enabled bytes of the register it is to.  A reset and the status are not
written so. -/
structure Framed (base : BitVec 32) (s : SdioCbg) (trans : Payload) (s' : SdioCbg) : Prop where
  bytes : writtenOffset base trans ≠ 0x30 → isReset base trans = false → ∀ old new : BitVec 32,
    s.readRegister (writtenOffset base trans) = some old →
      s'.readRegister (writtenOffset base trans) = some new →
        ∀ i < 4, enabled trans i = false → bytes32 new i = bytes32 old i
  others : isReset base trans = false → ∀ other, other ≠ writtenOffset base trans →
    other ∉ besides base trans → s'.readRegister other = s.readRegister other

/-- The events of a command. -/
def commandEvents (s : SdioCbg) (cmd : BitVec 32) : BitVec 32 :=
  if s.nextAcmd = false ∧ cmdId cmd = 5 ∧ s.card = .sd then 0x10000
  else if s.nextAcmd = false ∧ cmdId cmd = 12 then 3
  else 1

/-- The events that occur in a write: those of a command, and the end of a transfer. -/
def occurring (base : BitVec 32) (s : SdioCbg) (trans : Payload) : BitVec 32 :=
  let data := load32 trans.data
  if isCommand base trans then commandEvents s data
  else if writtenOffset base trans = 0x30 then
    if 0 < s.blockCount ∧ data &&& 1 ≠ 0 then 2 else 0
  else 0

/-- The events that a write acknowledges or resets. -/
def acknowledging (base : BitVec 32) (trans : Payload) : BitVec 32 :=
  let data := load32 trans.data
  if writtenOffset base trans = 0x30 then enabledBits trans data
  else if isReset base trans then
    if data >>> 24 = 1 then BitVec.allOnes 32 else if data >>> 24 = 2 then 1 else 0x36
  else 0

/-- The device, and the events that occurred and were not acknowledged. -/
structure Session where
  device : SdioCbg
  pending : BitVec 32

def Session.step (base : BitVec 32) (session : Session) (trans : Payload) : Option Session :=
  (session.device.bAccess base trans).map fun (s', _) =>
    { device := s'
      pending := (session.pending &&& ~~~acknowledging base trans) |||
        occurring base session.device trans }

/-! ## When a write does it -/

local instance lawfulBEq_offset : LawfulBEq (BitVec 32) := inferInstance

/-- What a register that is written as a whole is written with. -/
def assigned (offset data : BitVec 32) : Option (BitVec 32) :=
  if offset ∈ [0x0, 0x8, 0x50, 0x58, 0x60, 0xFC] then some data
  else if offset ∈ [0x10, 0x14, 0x18, 0x1C] then some data
  else if offset = 0x24 then some (data &&& 0x1FFFFFF)
  else if offset ∈ [0x34, 0x38] then some (data &&& 0x3FFFFFFF)
  else if offset ∈ [0x3C, 0xF0] then some (data &&& 0xFF)
  else if offset = 0x40 then some (data &&& 0x7FFFFFFF)
  else if offset = 0x48 then some (data &&& 0xFFFFFF)
  else if offset = 0x54 then some (data &&& 3)
  else if offset = 0x68 then some (data &&& 1)
  else none

/-- The bytes that a write does not enable are those the register has: of the word written, or
zero for the command register. -/
def KeepsBytes (base : BitVec 32) (s : SdioCbg) (trans : Payload) : Prop :=
  let offset := writtenOffset base trans
  (∀ value, assigned offset (load32 trans.data) = some value → ∀ old,
    s.readRegister offset = some old → ∀ i < 4, enabled trans i = false →
      bytes32 value i = bytes32 old i) ∧
  (offset = 0xC → ∀ i < 4, enabled trans i = false → bytes32 s.transferModeCommand i = 0)

/-- An acknowledgement writes nothing but command complete, transfer complete and command timeout,
and leaves no event pending. -/
def AcknowledgesAll (base : BitVec 32) (s : SdioCbg) (trans : Payload) : Prop :=
  writtenOffset base trans = 0x30 →
    load32 trans.data &&& ~~~0x10003 &&& 0x3FFFFFFF = 0 ∧
      s.interruptStatus &&& ~~~enabledBits trans (load32 trans.data) = 0

def Clean (base : BitVec 32) (session : Session) (trans : Payload) : Prop :=
  KeepsBytes base session.device trans ∧ AcknowledgesAll base session.device trans

variable {base cmd arg data offset : BitVec 32} {s s' : SdioCbg} {payload : Payload}
variable {lanes : Buffer}
  {session session' : Session}

/-! ## Commands -/

/-- A command leaves the registers and raises its events. -/
structure Executed (s s' : SdioCbg) (events : BitVec 32) : Prop where
  host : s'.toHostRegisters = s.toHostRegisters
  status : s'.interruptStatus = s.interruptStatus ||| events

theorem fillFifo_executed {elements : List (BitVec 32)} (hfill : s.fillFifo elements = some s') :
    Executed s s' 0 := by
  simp only [fillFifo] at hfill
  split_ifs at hfill
  cases hfill
  exact ⟨rfl, BitVec.or_zero.symm⟩

theorem Executed.trans {s'' : SdioCbg} {events events' : BitVec 32}
    (hfirst : Executed s s' events) (hsecond : Executed s' s'' events') :
    Executed s s'' (events ||| events') := by
  constructor
  · rw [hsecond.host, hfirst.host]
  · rw [hsecond.status, hfirst.status, BitVec.or_assoc]

/-- A data command parses, fills the buffer and goes on. -/
theorem filled_executed {parsed : SdioCbg} {elements : List (BitVec 32)}
    {rest : SdioCbg → Option SdioCbg} (hparsed : Executed s parsed 0)
    (hrest : ∀ filled s', rest filled = some s' → Executed filled s' 1)
    (hexec : (parsed.fillFifo elements).bind rest = some s') : Executed s s' 1 := by
  obtain ⟨filled, hfill, hs'⟩ := Option.bind_eq_some_iff.mp hexec
  have hboth := (hparsed.trans (fillFifo_executed hfill)).trans (hrest filled s' hs')
  simpa using hboth

/-- What a data command does to the rest. -/
theorem answered_executed {filled s' : SdioCbg} {opState : OperatingState}
    {idx : BitVec 32} (hs' : some (raise (respond { filled with
      rxFifoIdx := idx, opState := opState } 0) 1) = some s') : Executed filled s' 1 := by
  cases hs'
  exact ⟨rfl, rfl⟩

theorem parsed_executed (s : SdioCbg) : Executed s s.parseBlockSizeAndCount 0 :=
  ⟨rfl, BitVec.or_zero.symm⟩

theorem execAcmd_executed (hexec : s.execAcmd cmd arg = some s') : Executed s s' 1 := by
  unfold execAcmd at hexec
  split at hexec
  case h_1 =>
      cases hexec
      exact ⟨rfl, rfl⟩
  case h_2 =>
      simp only [sdStatus] at hexec
      split_ifs at hexec
      exact filled_executed (parsed_executed s) (fun _ _ => answered_executed) hexec
  case h_3 =>
      simp only [sdSendOpCond] at hexec
      split_ifs at hexec <;> cases hexec <;> exact ⟨rfl, rfl⟩
  case h_4 =>
      simp only [sendScr] at hexec
      split_ifs at hexec
      exact filled_executed (parsed_executed s) (fun _ _ => answered_executed) hexec
  case h_5 => cases hexec

theorem stopTransmission_executed (s : SdioCbg) : Executed s s.stopTransmission 3 := by
  have hthree : (1 : BitVec 32) ||| 2 = 3 := rfl
  constructor
  · simp only [stopTransmission]
    split_ifs <;> rfl
  · simp only [stopTransmission, raise, respond]
    rw [BitVec.or_assoc, hthree]
    split_ifs <;> rfl

theorem ioRwDirect_executed (hexec : s.ioRwDirect arg = some s') : Executed s s' 1 := by
  simp only [ioRwDirect] at hexec
  split_ifs at hexec
  · cases hexec
    exact ⟨rfl, rfl⟩
  · cases hexec
    exact ⟨rfl, rfl⟩
  · obtain ⟨value, -, hs'⟩ := Option.bind_eq_some_iff.mp hexec
    cases hs'
    exact ⟨rfl, rfl⟩

theorem sendOpCond_executed (s : SdioCbg) (arg : BitVec 32) :
    Executed s (s.sendOpCond arg) (if s.card = .sd then 0x10000 else 1) := by
  cases hcard : s.card with
  | sd =>
      simp only [sendOpCond, hcard]
      exact ⟨rfl, rfl⟩
  | sdio =>
      simp only [sendOpCond, hcard]
      exact ⟨rfl, rfl⟩

theorem execCmd_executed (hacmd : s.nextAcmd = false) (hexec : s.execCmd cmd arg = some s') :
    Executed s s' (commandEvents s cmd) := by
  have hid (n : ℕ) (hn : (cmdId cmd).toNat = n) (h5 : n ≠ 5) (h12 : n ≠ 12) :
      commandEvents s cmd = 1 := by
    have hne5 : cmdId cmd ≠ 5 := fun heq => h5 (by rw [← hn, heq]; rfl)
    have hne12 : cmdId cmd ≠ 12 := fun heq => h12 (by rw [← hn, heq]; rfl)
    rw [commandEvents, if_neg fun hand => hne5 hand.2.1, if_neg fun hand => hne12 hand.2]
  unfold execCmd at hexec
  split at hexec
  case h_4 hn =>
      have h5 : cmdId cmd = 5 := BitVec.eq_of_toNat_eq hn
      have hevents : commandEvents s cmd = if s.card = .sd then 0x10000 else 1 := by
        simp [commandEvents, hacmd, h5]
      cases hexec
      rw [hevents]
      exact sendOpCond_executed s arg
  case h_9 hn =>
      have h12 : cmdId cmd = 12 := BitVec.eq_of_toNat_eq hn
      have hevents : commandEvents s cmd = 3 := by
        simp [commandEvents, hacmd, h12]
      cases hexec
      rw [hevents]
      exact stopTransmission_executed s
  case h_5 hn =>
      rw [hid 6 hn (by decide) (by decide)]
      simp only [switchFunction] at hexec
      by_cases hsize : s.parseBlockSizeAndCount.blockCount = 1 ∧
          s.parseBlockSizeAndCount.blockSize = 64
      · rw [if_pos hsize] at hexec
        exact filled_executed (parsed_executed s) (fun _ _ => answered_executed) hexec
      · rw [if_neg hsize] at hexec
        cases hexec
  case h_11 hn =>
      rw [hid 18 hn (by decide) (by decide)]
      have hparsed : Executed s { s.parseBlockSizeAndCount with
          blockOffset := s.argument * 512 } 0 := ⟨rfl, BitVec.or_zero.symm⟩
      exact filled_executed hparsed (fun _ _ => answered_executed) hexec
  case h_13 hn =>
      rw [hid 52 hn (by decide) (by decide)]
      exact ioRwDirect_executed hexec
  case h_15 => cases hexec
  all_goals
    rename_i hn
    rw [hid _ hn (by decide) (by decide)]
    cases hexec
    exact ⟨rfl, rfl⟩

theorem parseAndExecCmd_executed (hexec : s.parseAndExecCmd cmd arg = some s') :
    Executed s s' (commandEvents s cmd) := by
  rw [parseAndExecCmd] at hexec
  split_ifs at hexec with hacmd
  · have hevents : commandEvents s cmd = 1 := by simp [commandEvents, hacmd]
    rw [hevents]
    obtain ⟨hhost, hstatus⟩ := execAcmd_executed hexec
    exact ⟨hhost, hstatus⟩
  · exact execCmd_executed (Bool.not_eq_true _ ▸ hacmd) hexec

/-! ## Transfers -/

/-- A transfer leaves all but its own state and the system address of ADMA. -/
def Transferred (s s' : SdioCbg) : Prop :=
  s' = { s with
    toTransferState := s'.toTransferState
    admaSystemAddress := s'.admaSystemAddress }

theorem Transferred.refl (s : SdioCbg) : Transferred s s := rfl

theorem Transferred.trans {s'' : SdioCbg} (hfirst : Transferred s s')
    (hsecond : Transferred s' s'') : Transferred s s'' := by
  rw [Transferred] at hfirst hsecond ⊢
  rw [hfirst] at hsecond
  exact hsecond

theorem transferWord_transferred (addr : BitVec 32) (i : ℕ)
    (hword : (if s.opState = .rcv then s.receiveWord addr i else s.sendWord addr i) = some s') :
    Transferred s s' := by
  split_ifs at hword
  · simp only [receiveWord, Option.bind_eq_bind, Option.bind_eq_some_iff] at hword
    obtain ⟨data, -, stored, hstored, hs'⟩ := hword
    have hstore (current : SdioCbg) (j : BitVec 32) (next : SdioCbg)
        (hinv : Transferred s current) (hstep : storeByte data current j = some next) :
        Transferred s next := by
      simp only [storeByte] at hstep
      split_ifs at hstep
      cases hstep
      exact hinv.trans rfl
    have hkept : Transferred s stored :=
      Guarded.foldlM_keeps (fun current j next _ => hstore current j next)
        (Transferred.refl s) hstored
    cases hs'
    exact hkept.trans rfl
  · simp only [sendWord, Option.bind_eq_bind, Option.bind_eq_some_iff] at hword
    obtain ⟨high, -, low, -, memory, -, hs'⟩ := hword
    cases hs'
    exact rfl

theorem transferWords_transferred {addr : BitVec 32} {length : ℕ}
    (hwords : s.transferWords addr length = some s') : Transferred s s' :=
  Guarded.foldlM_keeps
    (fun _ i _ _ (hinv : Transferred s _) hstep =>
      hinv.trans (transferWord_transferred addr i hstep))
    (Transferred.refl s) hwords

theorem countBlocks_transferred {length : ℕ} (hcounted : s.countBlocks length = some s') :
    Transferred s s' := by
  rw [countBlocks] at hcounted
  split_ifs at hcounted <;> cases hcounted <;> exact rfl

theorem adma2Tfr_transferred {addr : BitVec 32} {len : BitVec 16}
    (htfr : s.adma2Tfr addr len = some s') : Transferred s s' := by
  simp only [adma2Tfr] at htfr
  obtain ⟨-, htfr⟩ := Option.ite_none_right_eq_some.mp htfr
  obtain ⟨words, hwords, htfr⟩ := Option.bind_eq_some_iff.mp htfr
  obtain ⟨counted, hcounted, htfr⟩ := Option.bind_eq_some_iff.mp htfr
  obtain ⟨-, hs'⟩ := Option.ite_none_left_eq_some.mp htfr
  cases hs'
  have hmoved : Transferred words { words with
      rxFifoIdx := words.rxFifoIdx + BitVec.ofNat 32 (transferLength len / 8 * 2) } := rfl
  exact ((transferWords_transferred hwords).trans hmoved).trans (countBlocks_transferred hcounted)

theorem adma2Fds_transferred (fuel : ℕ) (hfds : adma2Fds fuel s = some s') : Transferred s s' := by
  induction fuel generalizing s with
  | zero => cases hfds
  | succ fuel ih =>
      simp only [adma2Fds, Option.bind_eq_bind, Option.bind_eq_some_iff] at hfds
      obtain ⟨data, -, hfds⟩ := hfds
      split_ifs at hfds
      · obtain ⟨after, htfr, hrest⟩ := Option.bind_eq_some_iff.mp hfds
        have hmoved : Transferred s { s with
            admaSystemAddress := s.nextAddress (descriptor data) } := rfl
        exact (hmoved.trans (adma2Tfr_transferred htfr)).trans (ih hrest)
      · cases hfds
        exact rfl

/-! ## Registers written as a whole -/

theorem byte_eq_and (data : BitVec 32) : (data.setWidth 8).setWidth 32 = data &&& 0xFF := by
  apply BitVec.eq_of_getLsbD_eq
  intro i hi
  interval_cases i <;> simp

theorem bits_eq_and (data : BitVec 32) (bits : Byte) :
    (data.setWidth 8 &&& bits).setWidth 32 = data &&& bits.setWidth 32 := by
  apply BitVec.eq_of_getLsbD_eq
  intro i hi
  simp only [BitVec.getLsbD_setWidth, BitVec.getLsbD_and, hi, decide_true, Bool.true_and]
  by_cases hbyte : i < 8
  · simp [hbyte]
  · simp [BitVec.getLsbD_of_ge bits i (by omega)]

theorem writeRegister_assigned {value : BitVec 32} {lanes : Option Buffer}
    (hassigned : assigned offset data = some value)
    (hwrite : s.writeRegister offset data lanes = some s') :
    s'.readRegister offset = some value ∧
      (∀ other, other ≠ offset → s'.readRegister other = s.readRegister other) ∧
      s'.interruptStatus = s.interruptStatus ∧ s'.irq = s.irq ∧
        s'.toTransferState = s.toTransferState := by
  simp only [assigned, List.mem_cons, List.not_mem_nil, or_false] at hassigned
  split_ifs at hassigned with h1 h2 h3 h4 h5 h6 h7 h8 h9 <;> cases hassigned
  · rcases h1 with h | h | h | h | h | h <;> subst h <;> cases hwrite <;>
      exact ⟨rfl, fun other hother => by simp only [readRegister, if_neg hother], rfl, rfl, rfl⟩
  · rcases h2 with h | h | h | h <;> subst h <;> cases hwrite <;>
      exact ⟨rfl, fun other hother => by simp only [readRegister, if_neg hother]; rfl, rfl, rfl,
        rfl⟩
  · subst h3
    cases hwrite
    exact ⟨rfl, fun other hother => by simp only [readRegister, if_neg hother], rfl, rfl, rfl⟩
  · rcases h4 with h | h <;> subst h <;> cases hwrite <;>
      exact ⟨rfl, fun other hother => by simp only [readRegister, if_neg hother], rfl, rfl, rfl⟩
  · rcases h5 with h | h <;> subst h <;> cases hwrite <;>
      exact ⟨congrArg some (byte_eq_and data),
        fun other hother => by simp only [readRegister, if_neg hother], rfl, rfl, rfl⟩
  · subst h6
    cases hwrite
    exact ⟨rfl, fun other hother => by simp only [readRegister, if_neg hother], rfl, rfl, rfl⟩
  · subst h7
    cases hwrite
    exact ⟨rfl, fun other hother => by simp only [readRegister, if_neg hother], rfl, rfl, rfl⟩
  · subst h8
    cases hwrite
    exact ⟨congrArg some (bits_eq_and data 3),
      fun other hother => by simp only [readRegister, if_neg hother], rfl, rfl, rfl⟩
  · subst h9
    cases hwrite
    exact ⟨congrArg some (bits_eq_and data 1),
      fun other hother => by simp only [readRegister, if_neg hother], rfl, rfl, rfl⟩

/-! ## Registers written by bytes -/

/-- A byte of a word. -/
theorem bytes32_eq_iff {left right : BitVec 32} {i : ℕ} :
    bytes32 left i = bytes32 right i ↔
      ∀ k < 8, left.getLsbD (8 * i + k) = right.getLsbD (8 * i + k) := by
  constructor
  · intro heq k hk
    have hbit := congrArg (fun byte => byte.getLsbD k) heq
    simpa [bytes32, hk] using hbit
  · intro hbits
    apply BitVec.eq_of_getLsbD_eq
    intro k hk
    simpa [bytes32, hk] using hbits k hk

/-- A lane, shifted to its byte. -/
theorem getLsbD_lane (lanes : Buffer) (l j i k : ℕ) (hi : i < 4) (hk : k < 8) :
    (lane lanes l <<< (j * 8)).getLsbD (8 * i + k) =
      if i = j then (lanes l).getLsbD k else false := by
  have hbit : 8 * i + k < 32 := by omega
  rw [lane, BitVec.getLsbD_shiftLeft, BitVec.getLsbD_setWidth]
  simp only [hbit, decide_true, Bool.true_and]
  split_ifs with heq
  · subst heq
    have hlow : ¬8 * i + k < i * 8 := by omega
    have hplace : 8 * i + k - i * 8 = k := by omega
    have hword : k < 32 := by omega
    simp [hlow, hplace, hword]
  · rcases Nat.lt_or_gt_of_ne heq with hless | hmore
    · have hlow : 8 * i + k < j * 8 := by omega
      simp [hlow]
    · have hhigh : 8 ≤ 8 * i + k - j * 8 := by omega
      simp [BitVec.getLsbD_of_ge (lanes l) _ hhigh]

/-- One byte merged into a word. -/
theorem merged_byte (word data : BitVec 32) {i : ℕ} (hi : i < 4) (j : ℕ)
    (hoff : lanes (i + 4) = 0) :
    bytes32 ((word &&& ~~~(lane lanes (j + 4) <<< (j * 8))) |||
      (data &&& (lane lanes (j + 4) <<< (j * 8)))) i = bytes32 word i := by
  rw [bytes32_eq_iff]
  intro k hk
  have hclear : (lane lanes (j + 4) <<< (j * 8)).getLsbD (8 * i + k) = false := by
    rw [getLsbD_lane lanes (j + 4) j i k hi hk]
    split_ifs with heq
    · rw [← heq, hoff]
      simp
    · rfl
  have hword : 8 * i + k < 32 := by omega
  rw [BitVec.getLsbD_or, BitVec.getLsbD_and, BitVec.getLsbD_and, BitVec.getLsbD_not, hclear]
  simp [hword]

/-- A write at 0x4 keeps the bytes that are not enabled. -/
theorem writeBlockSizeAndCount_eq (s : SdioCbg) (data : BitVec 32) (lanes : Buffer) :
    ∃ value, s.writeBlockSizeAndCount data lanes = { s with blockSizeAndCount := value } ∧
      ∀ i < 4, lanes (i + 4) = 0 → bytes32 value i = bytes32 s.blockSizeAndCount i := by
  rw [writeBlockSizeAndCount]
  generalize List.range 4 = places
  induction places generalizing s with
  | nil => exact ⟨s.blockSizeAndCount, rfl, fun _ _ _ => rfl⟩
  | cons j rest ih =>
      rw [List.foldl_cons]
      split_ifs
      · exact ih s
      · obtain ⟨value, heq, hkept⟩ := ih { s with blockSizeAndCount :=
          (s.blockSizeAndCount &&& ~~~(lane lanes (j + 4) <<< (j * 8))) |||
            (data &&& (lane lanes (j + 4) <<< (j * 8))) }
        refine ⟨value, heq, fun i hi hoff => (hkept i hi hoff).trans ?_⟩
        exact merged_byte s.blockSizeAndCount data hi j hoff

/-- What is stored at 0xC. -/
def commandWord (data : BitVec 32) (lanes : Buffer) : BitVec 32 :=
  (data &&& lane lanes 4) ||| (data &&& (lane lanes 5 <<< 8)) |||
    (data &&& (lane lanes 6 <<< 16)) ||| (data &&& (lane lanes 7 <<< 24))

theorem commandWord_bit (data : BitVec 32) (lanes : Buffer) {i k : ℕ} (hi : i < 4) (hk : k < 8) :
    (commandWord data lanes).getLsbD (8 * i + k) =
      (data.getLsbD (8 * i + k) && (lanes (i + 4)).getLsbD k) := by
  have hfirst := getLsbD_lane lanes 4 0 i k hi hk
  rw [Nat.zero_mul, BitVec.shiftLeft_zero] at hfirst
  have hsecond := getLsbD_lane lanes 5 1 i k hi hk
  have hthird := getLsbD_lane lanes 6 2 i k hi hk
  have hfourth := getLsbD_lane lanes 7 3 i k hi hk
  simp only [commandWord, BitVec.getLsbD_or, BitVec.getLsbD_and]
  rw [hfirst, hsecond, hthird, hfourth]
  interval_cases i <;> simp

/-- Bytes that are not enabled are stored as zero at 0xC. -/
theorem commandWord_byte (data : BitVec 32) {i : ℕ} (hi : i < 4) (hoff : lanes (i + 4) = 0) :
    bytes32 (commandWord data lanes) i = 0 := by
  have hzero : (0 : Byte) = bytes32 0 i := by simp [bytes32]
  rw [hzero, bytes32_eq_iff]
  intro k hk
  rw [commandWord_bit data lanes hi hk, hoff]
  simp

/-- The command in the upper byte. -/
theorem cmdId_commandWord (data : BitVec 32) (hon : lanes 7 = 0xFF) :
    cmdId (commandWord data lanes) = cmdId data := by
  apply BitVec.eq_of_getLsbD_eq
  intro k hk
  rw [cmdId, cmdId, BitVec.getLsbD_and, BitVec.getLsbD_and, BitVec.getLsbD_ushiftRight,
    BitVec.getLsbD_ushiftRight]
  by_cases hbyte : k < 8
  · have hset : (0xFF : Byte).getLsbD k = true := by
      interval_cases k <;> rfl
    have hbit := commandWord_bit data lanes (show 3 < 4 by decide) hbyte
    rw [hon, hset, Bool.and_true] at hbit
    rw [hbit]
  · have hclear : (0x3F : BitVec 32).getLsbD k = false := by
      interval_cases k <;> rfl
    rw [hclear, Bool.and_false, Bool.and_false]

/-! ## Writes on the bus -/

theorem bAccess_write {answer : Payload} (hbus : BusWrite base payload)
    (haccess : s.bAccess base payload = some (s', answer)) :
    s.writeRegister (writtenOffset base payload) (load32 payload.data) payload.byteEnable =
      some s' := by
  rw [bAccess, hbus.1] at haccess
  simp only at haccess
  split_ifs at haccess
  obtain ⟨written, hwrite, heq⟩ := Option.map_eq_some_iff.mp haccess
  cases heq
  exact hwrite

/-- The upper lanes are those of the offsets that are four behind a doubleword. -/
theorem writtenOffset_mod (hbus : BusWrite base payload) :
    (writtenOffset base payload).toNat % 8 = if upperOnly payload.byteEnable then 4 else 0 := by
  have haligned : (payload.address.setWidth 32 - base).toNat % 8 = 0 := by
    have hmod := congrArg BitVec.toNat hbus.2.1
    simpa [BitVec.toNat_umod] using hmod
  rw [writtenOffset]
  split_ifs
  · have hmove : (payload.address.setWidth 32 : BitVec 32) + 4 - base =
        (payload.address.setWidth 32 - base) + 4 := by
      rw [BitVec.sub_eq_add_neg, BitVec.sub_eq_add_neg, BitVec.add_assoc, BitVec.add_assoc,
        BitVec.add_comm 4]
    rw [hmove, BitVec.toNat_add]
    have hfour : (4 : BitVec 32).toNat = 4 := rfl
    omega
  · exact haligned

theorem upperOnly_of_offset (hbus : BusWrite base payload)
    (hoffset : writtenOffset base payload = offset) (hmod : offset.toNat % 8 = 4) :
    upperOnly payload.byteEnable = true := by
  by_contra hlower
  have hzero := writtenOffset_mod hbus
  rw [hoffset, hmod, if_neg hlower] at hzero
  cases hzero

theorem not_upperOnly_of_offset (hbus : BusWrite base payload)
    (hoffset : writtenOffset base payload = offset) (hmod : offset.toNat % 8 = 0) :
    upperOnly payload.byteEnable = false := by
  by_contra hupper
  rw [Bool.not_eq_false] at hupper
  have hfour := writtenOffset_mod hbus
  rw [hoffset, hmod, if_pos hupper] at hfour
  cases hfour

/-- A write is of a register written as a whole, or of one of six others. -/
theorem writeRegister_cases {lanes : Option Buffer}
    (hwrite : s.writeRegister offset data lanes = some s') :
    (∃ value, assigned offset data = some value) ∨
      offset ∈ [0x4, 0xC, 0x20, 0x28, 0x2C, (0x30 : BitVec 32)] := by
  by_contra hneither
  obtain ⟨hassigned, hsix⟩ := not_or.mp hneither
  have hnone : assigned offset data = none := by
    rw [Option.eq_none_iff_forall_ne_some]
    exact not_exists.mp hassigned
  rw [assigned] at hnone
  split_ifs at hnone with h1 h2 h3 h4 h5 h6 h7 h8 h9
  simp only [List.mem_cons, List.not_mem_nil, or_false, not_or] at h1 h2 h4 h5 hsix
  simp only [writeRegister, h1, h2, h3, h4, h5, h6, h7, h8, h9, hsix, if_false] at hwrite
  cases hwrite

/-- A byte of the upper half is enabled by its lane. -/
theorem enabled_upper (hlanes : payload.byteEnable = some lanes)
    (hupper : upperOnly payload.byteEnable = true) (i : ℕ) :
    enabled payload i = false ↔ lanes (i + 4) = 0 := by
  rw [hlanes] at hupper
  simp [enabled, hlanes, hupper]

theorem enabled_lower (hlanes : payload.byteEnable = some lanes)
    (hlower : upperOnly payload.byteEnable = false) (i : ℕ) :
    enabled payload i = false ↔ lanes i = 0 := by
  rw [hlanes] at hlower
  simp [enabled, hlanes, hlower]

/-- A write at 0xC stores the word and, by its upper byte, executes a command. -/
theorem writeTransferModeCommand_eq (hwrite : s.writeTransferModeCommand data lanes = some s') :
    if lanes 7 = 0xFF then
      ∃ executed, Executed { s with
          transferModeCommand := commandWord data lanes
          presentState := s.presentState ||| 1 } executed
          (commandEvents s (commandWord data lanes)) ∧
        s' = executed.setInterrupt true
    else s' = { s with transferModeCommand := commandWord data lanes } := by
  simp only [writeTransferModeCommand] at hwrite
  split_ifs at hwrite ⊢
  · obtain ⟨executed, hexec, hs'⟩ := Option.bind_eq_some_iff.mp hwrite
    cases hs'
    exact ⟨executed, parseAndExecCmd_executed hexec, rfl⟩
  · cases hwrite
    rfl

theorem byte_or (word : BitVec 32) {bits : BitVec 32} {i : ℕ} (hbits : bytes32 bits i = 0) :
    bytes32 (word ||| bits) i = bytes32 word i := by
  rw [bytes32] at hbits
  rw [bytes32, BitVec.extractLsb'_or, hbits]
  exact BitVec.or_zero

theorem byte_and (word : BitVec 32) {bits : BitVec 32} {i : ℕ} (hbits : bytes32 bits i = 0) :
    bytes32 (word &&& bits) i = 0 := by
  rw [bytes32] at hbits
  rw [bytes32, BitVec.extractLsb'_and, hbits]
  exact BitVec.and_zero

theorem byte_and_not (word : BitVec 32) {bits : BitVec 32} {i : ℕ} (hi : i < 4)
    (hbits : bytes32 bits i = 0) : bytes32 (word &&& ~~~bits) i = bytes32 word i := by
  rw [bytes32_eq_iff]
  intro k hk
  have hbit := congrArg (fun byte => byte.getLsbD k) hbits
  have hword : 8 * i + k < 32 := by omega
  simp only [bytes32, BitVec.getLsbD_extractLsb', hk, decide_true, Bool.true_and] at hbit
  rw [BitVec.getLsbD_and, BitVec.getLsbD_not, hbit]
  simp [hword]

/-- A write at 0x28 changes two bytes of the control register, and the state of the card. -/
theorem writeControl_eq (hwrite : s.writeControl data lanes = some s') :
    ∃ control presentState, s' = { s with control := control, presentState := presentState } ∧
      ∀ i < 4, lanes i = 0 → bytes32 control i = bytes32 s.control i := by
  have hlow (i : ℕ) (hi : i < 4) (hne : i ≠ 0) : bytes32 (if data &&& 0x80 = 1 then
      (s.control &&& ~~~0xFF ||| data &&& 0xFF) ||| 0x80
      else (s.control &&& ~~~0xFF ||| data &&& 0xFF) &&& ~~~0x80) i = bytes32 s.control i := by
    have hbits : bytes32 (0xFF : BitVec 32) i = 0 ∧ bytes32 (0x80 : BitVec 32) i = 0 := by
      interval_cases i
      · exact absurd rfl hne
      all_goals exact ⟨rfl, rfl⟩
    split_ifs
    · rw [byte_or _ hbits.2, byte_or _ (byte_and data hbits.1), byte_and_not _ hi hbits.1]
    · rw [byte_and_not _ hi hbits.2, byte_or _ (byte_and data hbits.1),
        byte_and_not _ hi hbits.1]
  have hhigh (word : BitVec 32) (i : ℕ) (hi : i < 4) (hne : i ≠ 1) :
      bytes32 (word &&& ~~~0xFF00 ||| data &&& 0xFF00) i = bytes32 word i := by
    have hbits : bytes32 (0xFF00 : BitVec 32) i = 0 := by
      interval_cases i
      · rfl
      · exact absurd rfl hne
      all_goals rfl
    rw [byte_or _ (byte_and data hbits), byte_and_not _ hi hbits]
  have hon (i j : ℕ) (hlane : lanes j = 0xFF) (hoff : lanes i = 0) : i ≠ j := by
    intro heq
    rw [heq, hlane] at hoff
    exact absurd hoff (by decide)
  simp only [writeControl] at hwrite
  obtain ⟨-, hs'⟩ := Option.ite_none_left_eq_some.mp hwrite
  by_cases h0 : lanes 0 = 0xFF
  · by_cases h1 : lanes 1 = 0xFF
    · rw [if_pos h0, if_pos h1] at hs'
      cases hs'
      exact ⟨_, _, rfl, fun i hi hoff =>
        (hhigh _ i hi (hon i 1 h1 hoff)).trans (hlow i hi (hon i 0 h0 hoff))⟩
    · rw [if_pos h0, if_neg h1] at hs'
      cases hs'
      exact ⟨_, s.presentState, rfl, fun i hi hoff => hlow i hi (hon i 0 h0 hoff)⟩
  · by_cases h1 : lanes 1 = 0xFF
    · rw [if_neg h0, if_pos h1] at hs'
      cases hs'
      exact ⟨_, _, rfl, fun i hi hoff => hhigh _ i hi (hon i 1 h1 hoff)⟩
    · rw [if_neg h0, if_neg h1] at hs'
      cases hs'
      exact ⟨s.control, s.presentState, rfl, fun _ _ _ => rfl⟩

/-- A write at 0x2C that does not reset starts the clock. -/
theorem writeControlReset_eq (hwrite : s.writeControlReset data lanes = some s')
    (hreset : lanes 7 ≠ 0xFF) :
    ∃ controlReset, s' = { s with controlReset := controlReset } ∧
      ∀ i < 4, lanes (i + 4) = 0 → bytes32 controlReset i = bytes32 s.controlReset i := by
  simp only [writeControlReset, if_neg hreset] at hwrite
  by_cases hclock : lanes 4 = 0xFF
  · rw [if_pos hclock] at hwrite
    cases hwrite
    refine ⟨_, rfl, fun i hi hoff => ?_⟩
    have hne : i ≠ 0 := by
      intro hzero
      rw [hzero, hclock] at hoff
      exact absurd hoff (by decide)
    have hbits : bytes32 (3 : BitVec 32) i = 0 ∧ bytes32 (4 : BitVec 32) i = 0 := by
      interval_cases i
      · exact absurd rfl hne
      all_goals exact ⟨rfl, rfl⟩
    split_ifs
    · rw [byte_or _ hbits.2, byte_or _ hbits.1]
    · rw [byte_or _ hbits.2]
    · rw [byte_or _ hbits.1]
    · rfl
  · rw [if_neg hclock] at hwrite
    cases hwrite
    exact ⟨s.controlReset, rfl, fun _ _ _ => rfl⟩

/-- What an acknowledgement does to the state. -/
theorem acknowledge_eq (s : SdioCbg) (data : BitVec 32) :
    ∃ presentState flag, s.acknowledge data = { s with
      presentState := presentState
      interruptFlag := flag
      irq := if data &&& ~~~0x10003 = 0 then false else s.irq
      interruptStatus := data &&& ~~~0x10003 &&& 0x3FFFFFFF } := by
  have hbits : data &&& ~~~1 &&& ~~~2 &&& ~~~0x10000 = data &&& ~~~0x10003 := by
    rw [BitVec.and_assoc, BitVec.and_assoc]
    rfl
  simp only [acknowledge]
  rw [WordBits.clear_bits, WordBits.clear_bits, WordBits.clear_bits, hbits]
  by_cases hcommand : data &&& 1 ≠ 0
  · by_cases hzero : data &&& ~~~0x10003 = 0
    · rw [if_pos hcommand, if_pos hzero, if_pos hzero]
      exact ⟨s.presentState &&& ~~~1, false, rfl⟩
    · rw [if_pos hcommand, if_neg hzero, if_neg hzero]
      exact ⟨s.presentState &&& ~~~1, s.interruptFlag, rfl⟩
  · by_cases hzero : data &&& ~~~0x10003 = 0
    · rw [if_neg hcommand, if_pos hzero, if_pos hzero]
      exact ⟨s.presentState, false, rfl⟩
    · rw [if_neg hcommand, if_neg hzero, if_neg hzero]
      exact ⟨s.presentState, s.interruptFlag, rfl⟩

/-- A write at 0x30. -/
theorem writeInterruptStatus_eq (hwrite : s.writeInterruptStatus data = some s') :
    ∃ presentState admaSystemAddress,
      s'.toHostRegisters = { s.toHostRegisters with
        presentState := presentState
        admaSystemAddress := admaSystemAddress } ∧
      s'.response = s.response ∧
      s'.interruptStatus = (data &&& ~~~0x10003 &&& 0x3FFFFFFF) |||
        (if 0 < s.blockCount ∧ data &&& 1 ≠ 0 then 2 else 0) ∧
      s'.irq = (if 0 < s.blockCount ∧ data &&& 1 ≠ 0 then true
        else if data &&& ~~~0x10003 = 0 then false else s.irq) := by
  obtain ⟨presentState, flag, heq⟩ := acknowledge_eq s data
  rw [writeInterruptStatus, heq] at hwrite
  by_cases hstarts : 0 < s.blockCount ∧ data &&& 1 ≠ 0
  · rw [if_pos hstarts] at hwrite
    rw [if_pos hstarts, if_pos hstarts]
    obtain ⟨done, hdone, hs'⟩ := Option.map_eq_some_iff.mp hwrite
    have htransferred : Transferred _ done := adma2Fds_transferred _ hdone
    rw [Transferred] at htransferred
    rw [← hs', htransferred]
    exact ⟨presentState, done.admaSystemAddress, rfl, rfl, rfl, rfl⟩
  · rw [if_neg hstarts] at hwrite
    rw [if_neg hstarts, if_neg hstarts]
    cases hwrite
    exact ⟨presentState, s.admaSystemAddress, rfl, rfl, BitVec.or_zero.symm, rfl⟩

/-! ## Framing -/

theorem framed_blockSizeAndCount (hbus : BusWrite base payload)
    (hoffset : writtenOffset base payload = 0x4)
    (hwrite : s.writeRegister 0x4 data payload.byteEnable = some s') :
    Framed base s payload s' := by
  have hupper := upperOnly_of_offset hbus hoffset rfl
  obtain ⟨-, -, lanes, hlanes, -⟩ := hbus
  rw [hlanes] at hwrite
  obtain ⟨value, heq, hkept⟩ := writeBlockSizeAndCount_eq s data lanes
  have hs' : s' = { s with blockSizeAndCount := value } := by
    cases hwrite
    exact heq
  rw [hs']
  constructor
  · rw [hoffset]
    intro _ _ old new hold hnew i hi hoff
    cases hold
    cases hnew
    exact hkept i hi ((enabled_upper hlanes hupper i).mp hoff)
  · intro _ other hother _
    rw [hoffset] at hother
    simp only [readRegister, if_neg hother]

theorem framed_transferModeCommand (hbus : BusWrite base payload)
    (hkeeps : KeepsBytes base s payload) (hoffset : writtenOffset base payload = 0xC)
    (hwrite : s.writeRegister 0xC data payload.byteEnable = some s') :
    Framed base s payload s' := by
  have hupper := upperOnly_of_offset hbus hoffset rfl
  obtain ⟨-, -, lanes, hlanes, -⟩ := hbus
  rw [hlanes] at hwrite
  have heq := writeTransferModeCommand_eq hwrite
  -- the register, and those that no command writes
  have hhost : ∃ presentState, s'.toHostRegisters = { s.toHostRegisters with
      transferModeCommand := commandWord data lanes
      presentState := presentState } := by
    split_ifs at heq
    · obtain ⟨executed, hexecuted, hs'⟩ := heq
      rw [hs']
      exact ⟨_, hexecuted.host⟩
    · rw [heq]
      exact ⟨s.presentState, rfl⟩
  obtain ⟨presentState, hhost⟩ := hhost
  constructor
  · rw [hoffset]
    intro _ _ old new hold hnew i hi hoff
    cases hold
    cases hnew
    rw [hhost, hkeeps.2 hoffset i hi hoff]
    exact commandWord_byte data hi ((enabled_upper hlanes hupper i).mp hoff)
  · intro _ other hother hbeside
    rw [hoffset] at hother
    rw [besides, if_pos hoffset] at hbeside
    split_ifs at heq with hcommand
    · have hlast : isCommand base payload = true := by
        have hon : enabled payload 3 = true := by
          rw [← Bool.not_eq_false, enabled_upper hlanes hupper 3, hcommand]
          decide
        simp [isCommand, hoffset, hon]
      rw [if_pos hlast] at hbeside
      simp only [List.mem_cons, List.not_mem_nil, or_false, not_or] at hbeside
      obtain ⟨h1, h2, h3, h4, h5, h6⟩ := hbeside
      simp only [readRegister, if_neg h1, if_neg h2, if_neg h3, if_neg h4, if_neg h5, if_neg h6,
        if_neg hother, hhost]
    · rw [heq]
      simp only [readRegister, if_neg hother]

theorem framed_control (hbus : BusWrite base payload)
    (hoffset : writtenOffset base payload = 0x28)
    (hwrite : s.writeRegister 0x28 data payload.byteEnable = some s') :
    Framed base s payload s' := by
  have hlower := not_upperOnly_of_offset hbus hoffset rfl
  obtain ⟨-, -, lanes, hlanes, -⟩ := hbus
  rw [hlanes] at hwrite
  obtain ⟨control, presentState, heq, hkept⟩ := writeControl_eq hwrite
  rw [heq]
  constructor
  · rw [hoffset]
    intro _ _ old new hold hnew i hi hoff
    cases hold
    cases hnew
    exact hkept i hi ((enabled_lower hlanes hlower i).mp hoff)
  · intro _ other hother hbeside
    have hne : (0x28 : BitVec 32) ≠ 0xC := by decide
    rw [besides, hoffset, if_neg hne, if_pos rfl, List.mem_singleton] at hbeside
    rw [hoffset] at hother
    simp only [readRegister, if_neg hother, if_neg hbeside]

theorem framed_controlReset (hbus : BusWrite base payload)
    (hoffset : writtenOffset base payload = 0x2C)
    (hwrite : s.writeRegister 0x2C data payload.byteEnable = some s') :
    Framed base s payload s' := by
  have hupper := upperOnly_of_offset hbus hoffset rfl
  obtain ⟨-, -, lanes, hlanes, -⟩ := hbus
  rw [hlanes] at hwrite
  have hlast (hreset : isReset base payload = false) : lanes 7 ≠ 0xFF := by
    have hoff : enabled payload 3 = false := by
      simpa [isReset, hoffset] using hreset
    have hzero : lanes 7 = 0 := (enabled_upper hlanes hupper 3).mp hoff
    rw [hzero]
    decide
  constructor
  · rw [hoffset]
    intro _ hreset old new hold hnew i hi hoff
    obtain ⟨controlReset, heq, hkept⟩ := writeControlReset_eq hwrite (hlast hreset)
    rw [heq] at hnew
    cases hold
    cases hnew
    exact hkept i hi ((enabled_upper hlanes hupper i).mp hoff)
  · intro hreset other hother _
    obtain ⟨controlReset, heq, -⟩ := writeControlReset_eq hwrite (hlast hreset)
    rw [hoffset] at hother
    rw [heq]
    simp only [readRegister, if_neg hother]

theorem framed_interruptStatus (hoffset : writtenOffset base payload = 0x30)
    (hwrite : s.writeInterruptStatus data = some s') : Framed base s payload s' := by
  obtain ⟨presentState, admaSystemAddress, hhost, hresponse, -, -⟩ :=
    writeInterruptStatus_eq hwrite
  constructor
  · intro hne
    exact absurd hoffset hne
  · intro _ other hother hbeside
    have hcommand : (0x30 : BitVec 32) ≠ 0xC := by decide
    have hcontrol : (0x30 : BitVec 32) ≠ 0x28 := by decide
    rw [besides, hoffset, if_neg hcommand, if_neg hcontrol, if_pos rfl] at hbeside
    rw [hoffset] at hother
    simp only [List.mem_cons, List.not_mem_nil, or_false, not_or] at hbeside
    obtain ⟨h1, h2⟩ := hbeside
    simp only [readRegister, if_neg h1, if_neg h2, if_neg hother, hhost, hresponse]

/-- A write that keeps the bytes it does not enable is framed. -/
theorem write_framed (hbus : BusWrite base payload) (hkeeps : KeepsBytes base s payload)
    (hwrite : s.writeRegister (writtenOffset base payload) (load32 payload.data)
      payload.byteEnable = some s') : Framed base s payload s' := by
  rcases writeRegister_cases hwrite with ⟨value, hassigned⟩ | hsix
  · obtain ⟨hread, hothers, -⟩ := writeRegister_assigned hassigned hwrite
    constructor
    · intro _ _ old new hold hnew i hi hoff
      rw [hread] at hnew
      cases hnew
      exact hkeeps.1 value hassigned old hold i hi hoff
    · intro _ other hother _
      exact hothers other hother
  · simp only [List.mem_cons, List.not_mem_nil, or_false] at hsix
    obtain hoffset | hoffset | hoffset | hoffset | hoffset | hoffset := hsix <;>
      rw [hoffset] at hwrite
    · exact framed_blockSizeAndCount hbus hoffset hwrite
    · exact framed_transferModeCommand hbus hkeeps hoffset hwrite
    · cases hwrite
      constructor
      · intro _ _ old _ hold
        rw [hoffset] at hold
        cases hold
      · intro _ other _ _
        rfl
    · exact framed_control hbus hoffset hwrite
    · exact framed_controlReset hbus hoffset hwrite
    · exact framed_interruptStatus hoffset hwrite

/-! ## Interrupt status -/

/-- The status holds the pending events, and the output is up while there is one. -/
structure Announced (session : Session) : Prop where
  status : session.device.interruptStatus = session.pending
  output : session.pending ≠ 0 → session.device.irq = true

/-- What a write does to status and output. -/
structure Announces (base : BitVec 32) (s : SdioCbg) (trans : Payload) (s' : SdioCbg) : Prop where
  status : s'.interruptStatus =
    (s.interruptStatus &&& ~~~acknowledging base trans) ||| occurring base s trans
  output : s'.interruptStatus ≠ 0 →
    s'.irq = true ∨ s.interruptStatus ≠ 0 ∧ s'.irq = s.irq

theorem acknowledging_of_quiet (hack : writtenOffset base payload ≠ 0x30)
    (hreset : isReset base payload = false) : acknowledging base payload = 0 := by
  rw [acknowledging, if_neg hack, hreset]
  rfl

theorem occurring_of_quiet (hack : writtenOffset base payload ≠ 0x30)
    (hcommand : isCommand base payload = false) : occurring base s payload = 0 := by
  rw [occurring, hcommand, if_neg hack]
  rfl

theorem isCommand_eq_false (hoffset : writtenOffset base payload ≠ 0xC) :
    isCommand base payload = false := by
  rw [isCommand, decide_eq_false_iff_not]
  exact fun hand => hoffset hand.1

theorem isReset_eq_false (hoffset : writtenOffset base payload ≠ 0x2C) :
    isReset base payload = false := by
  rw [isReset, decide_eq_false_iff_not]
  exact fun hand => hoffset hand.1

/-- A write that neither acknowledges nor resets nor executes a command. -/
theorem announces_of_quiet (hack : writtenOffset base payload ≠ 0x30)
    (hreset : isReset base payload = false) (hcommand : isCommand base payload = false)
    (hstatus : s'.interruptStatus = s.interruptStatus) (hirq : s'.irq = s.irq) :
    Announces base s payload s' := by
  constructor
  · rw [acknowledging_of_quiet hack hreset, occurring_of_quiet hack hcommand, hstatus]
    exact (BitVec.or_zero.trans BitVec.and_allOnes).symm
  · intro hne
    rw [hstatus] at hne
    exact Or.inr ⟨hne, hirq⟩

theorem announces_command (hbus : BusWrite base payload)
    (hoffset : writtenOffset base payload = 0xC)
    (hwrite : s.writeRegister 0xC (load32 payload.data) payload.byteEnable = some s') :
    Announces base s payload s' := by
  have hupper := upperOnly_of_offset hbus hoffset rfl
  obtain ⟨-, -, lanes, hlanes, hvalues⟩ := hbus
  rw [hlanes] at hwrite
  have heq := writeTransferModeCommand_eq hwrite
  have hack : writtenOffset base payload ≠ 0x30 := by
    rw [hoffset]
    decide
  have hreset : isReset base payload = false := by
    apply isReset_eq_false
    rw [hoffset]
    decide
  rcases hvalues 7 (by decide) with hoff | hon
  · have hlast : enabled payload 3 = false := (enabled_upper hlanes hupper 3).mpr hoff
    have hcommand : isCommand base payload = false := by
      rw [isCommand, hlast, decide_eq_false_iff_not]
      exact fun hand => absurd hand.2 Bool.false_ne_true
    have hne : lanes 7 ≠ 0xFF := by
      rw [hoff]
      decide
    rw [if_neg hne] at heq
    rw [heq]
    exact announces_of_quiet hack hreset hcommand rfl rfl
  · have hlast : enabled payload 3 = true := by
      rw [← Bool.not_eq_false, enabled_upper hlanes hupper 3, hon]
      decide
    have hcommand : isCommand base payload = true := by
      rw [isCommand, decide_eq_true_iff]
      exact ⟨hoffset, hlast⟩
    have hoccurring : occurring base s payload = commandEvents s (load32 payload.data) := by
      rw [occurring, if_pos hcommand]
    rw [if_pos hon] at heq
    obtain ⟨executed, hexecuted, hs'⟩ := heq
    constructor
    · have hevents : commandEvents s (commandWord (load32 payload.data) lanes) =
          commandEvents s (load32 payload.data) := by
        rw [commandEvents, commandEvents, cmdId_commandWord _ hon]
      have hall : s.interruptStatus &&& ~~~0 = s.interruptStatus := BitVec.and_allOnes
      rw [acknowledging_of_quiet hack hreset, hoccurring, hs', ← hevents, hall]
      exact hexecuted.status
    · intro _
      rw [hs']
      exact Or.inl rfl

/-- A reset clears status bits and raises none. -/
theorem announces_reset (hbus : BusWrite base payload)
    (hoffset : writtenOffset base payload = 0x2C)
    (hwrite : s.writeRegister 0x2C (load32 payload.data) payload.byteEnable = some s') :
    Announces base s payload s' := by
  have hupper := upperOnly_of_offset hbus hoffset rfl
  obtain ⟨-, -, lanes, hlanes, hvalues⟩ := hbus
  rw [hlanes] at hwrite
  have hack : writtenOffset base payload ≠ 0x30 := by
    rw [hoffset]
    decide
  have hcommand : isCommand base payload = false := by
    apply isCommand_eq_false
    rw [hoffset]
    decide
  rcases hvalues 7 (by decide) with hoff | hon
  · have hlast : enabled payload 3 = false := (enabled_upper hlanes hupper 3).mpr hoff
    have hreset : isReset base payload = false := by
      rw [isReset, hlast, decide_eq_false_iff_not]
      exact fun hand => absurd hand.2 Bool.false_ne_true
    have hne : lanes 7 ≠ 0xFF := by
      rw [hoff]
      decide
    obtain ⟨controlReset, heq, -⟩ := writeControlReset_eq hwrite hne
    rw [heq]
    exact announces_of_quiet hack hreset hcommand rfl rfl
  · have hlast : enabled payload 3 = true := by
      rw [← Bool.not_eq_false, enabled_upper hlanes hupper 3, hon]
      decide
    have hreset : isReset base payload = true := by
      rw [isReset, decide_eq_true_iff]
      exact ⟨hoffset, hlast⟩
    have hwritten : s.writeControlReset (load32 payload.data) lanes = some s' := hwrite
    -- the clock is not written together with a reset
    simp only [writeControlReset, if_pos hon] at hwritten
    obtain ⟨hclock, hwritten⟩ := Option.ite_none_right_eq_some.mp hwritten
    have hstopped : lanes 4 ≠ 0xFF := by
      rw [hclock.1]
      decide
    rw [if_neg hstopped] at hwritten
    constructor
    · have hnone (word : BitVec 32) : word ||| 0 = word := BitVec.or_zero
      rw [acknowledging, if_neg hack, if_pos hreset, occurring_of_quiet hack hcommand, hnone]
      split_ifs at hwritten ⊢ <;> cases hwritten
      · exact BitVec.and_zero.symm
      · rfl
      · rfl
    · intro hne
      split_ifs at hwritten <;> cases hwritten
      · exact absurd rfl hne
      · refine Or.inr ⟨fun hzero => hne ?_, rfl⟩
        rw [resetCmd, hzero]
        exact BitVec.zero_and
      · refine Or.inr ⟨fun hzero => hne ?_, rfl⟩
        rw [resetDat, hzero]
        exact BitVec.zero_and

/-- An acknowledgement of all events leaves the transfer that it starts. -/
theorem announces_acknowledgement (hack : AcknowledgesAll base s payload)
    (hoffset : writtenOffset base payload = 0x30)
    (hwrite : s.writeInterruptStatus (load32 payload.data) = some s') :
    Announces base s payload s' := by
  obtain ⟨-, -, -, -, hstatus, hirq⟩ := writeInterruptStatus_eq hwrite
  obtain ⟨hknown, hall⟩ := hack hoffset
  have hcommand : isCommand base payload = false := by
    apply isCommand_eq_false
    rw [hoffset]
    decide
  have hoccurring : occurring base s payload =
      if 0 < s.blockCount ∧ load32 payload.data &&& 1 ≠ 0 then 2 else 0 := by
    rw [occurring, hcommand, if_pos hoffset]
    rfl
  rw [hknown, ← hoccurring] at hstatus
  constructor
  · rw [acknowledging, if_pos hoffset, hall]
    exact hstatus
  · intro hne
    by_cases hstarts : 0 < s.blockCount ∧ load32 payload.data &&& 1 ≠ 0
    · rw [if_pos hstarts] at hirq
      exact Or.inl hirq
    · rw [hstatus, hoccurring, if_neg hstarts] at hne
      exact absurd rfl hne

theorem write_announces (hbus : BusWrite base payload) (hack : AcknowledgesAll base s payload)
    (hwrite : s.writeRegister (writtenOffset base payload) (load32 payload.data)
      payload.byteEnable = some s') : Announces base s payload s' := by
  by_cases hcommand : writtenOffset base payload = 0xC
  · rw [hcommand] at hwrite
    exact announces_command hbus hcommand hwrite
  · by_cases hreset : writtenOffset base payload = 0x2C
    · rw [hreset] at hwrite
      exact announces_reset hbus hreset hwrite
    · by_cases hstatus : writtenOffset base payload = 0x30
      · rw [hstatus] at hwrite
        exact announces_acknowledgement hack hstatus hwrite
      · have hkept : s'.interruptStatus = s.interruptStatus ∧ s'.irq = s.irq := by
          rcases writeRegister_cases hwrite with ⟨value, hassigned⟩ | hsix
          · obtain ⟨-, -, hstatus, hirq, -⟩ := writeRegister_assigned hassigned hwrite
            exact ⟨hstatus, hirq⟩
          · simp only [List.mem_cons, List.not_mem_nil, or_false, hcommand, hreset, hstatus,
              false_or] at hsix
            obtain ⟨-, -, lanes, hlanes, -⟩ := hbus
            rw [hlanes] at hwrite
            obtain hoffset | hoffset | hoffset := hsix <;> rw [hoffset] at hwrite
            · obtain ⟨value, heq, -⟩ :=
                writeBlockSizeAndCount_eq s (load32 payload.data) lanes
              have hs' : s' = { s with blockSizeAndCount := value } := by
                cases hwrite
                exact heq
              rw [hs']
              exact ⟨rfl, rfl⟩
            · cases hwrite
              exact ⟨rfl, rfl⟩
            · obtain ⟨control, presentState, heq, -⟩ := writeControl_eq hwrite
              rw [heq]
              exact ⟨rfl, rfl⟩
        exact announces_of_quiet hstatus (isReset_eq_false hreset) (isCommand_eq_false hcommand)
          hkept.1 hkept.2

/-! ## Runs -/

/-- What a write is for: it changes the enabled bytes, and its events. -/
def Serves (base : BitVec 32) (session : Session) (trans : Payload) : Prop :=
  Announced session ∧ ∀ s' answer, session.device.bAccess base trans = some (s', answer) →
    Framed base session.device trans s' ∧ Announces base session.device trans s'

/-- A write of all four bytes keeps no byte. -/
theorem keepsBytes_of_enabled (hall : ∀ i < 4, enabled payload i = true) :
    KeepsBytes base s payload := by
  constructor
  · intro _ _ _ _ i hi hoff
    rw [hall i hi] at hoff
    cases hoff
  · intro _ i hi hoff
    rw [hall i hi] at hoff
    cases hoff

theorem step_serves (hinv : Announced session) (hbus : BusWrite base payload)
    (hclean : Clean base session payload) : Serves base session payload := by
  refine ⟨hinv, fun s' answer haccess => ?_⟩
  have hwrite := bAccess_write hbus haccess
  exact ⟨write_framed hbus hclean.1 hwrite, write_announces hbus hclean.2 hwrite⟩

theorem step_announced (hinv : Announced session) (hbus : BusWrite base payload)
    (hclean : Clean base session payload)
    (hstep : session.step base payload = some session') : Announced session' := by
  rw [Session.step] at hstep
  obtain ⟨⟨s', answer⟩, haccess, heq⟩ := Option.map_eq_some_iff.mp hstep
  cases heq
  obtain ⟨hstatus, houtput⟩ := ((step_serves hinv hbus hclean).2 s' answer haccess).2
  rw [hinv.status] at hstatus houtput
  constructor
  · exact hstatus
  · intro hpending
    rw [← hstatus] at hpending
    rcases houtput hpending with hup | ⟨hbefore, hkept⟩
    · exact hup
    · rw [hkept]
      exact hinv.output hbefore

/-- The device after its constructor, with no event. -/
def start (card : CardType) (blockOffset : BitVec 32) (dataVdd : BitVec 32 → Byte)
    (memory : Memory) : Session where
  device := new card blockOffset dataVdd memory
  pending := 0

theorem start_announced (card : CardType) (blockOffset : BitVec 32) (dataVdd : BitVec 32 → Byte)
    (memory : Memory) : Announced (start card blockOffset dataVdd memory) :=
  ⟨rfl, fun hne => absurd rfl hne⟩

/-- In a run of writes that keep the bytes they do not enable and acknowledge all that is pending,
every write changes the enabled bytes of its register, the status holds the pending events, and the
output is up while there is one. -/
theorem run_serves (base : BitVec 32) (card : CardType) (blockOffset : BitVec 32)
    (dataVdd : BitVec 32 → Byte) (memory : Memory) (writes : List Payload)
    (hbus : ∀ trans ∈ writes, BusWrite base trans)
    (hclean : Guarded.Meets (Session.step base) (Clean base)
      (start card blockOffset dataVdd memory) writes) :
    Guarded.Meets (Session.step base) (Serves base) (start card blockOffset dataVdd memory)
        writes ∧
      ∀ session, Guarded.exec (Session.step base) (start card blockOffset dataVdd memory) writes =
        some session → Announced session := by
  have hmeets := Guarded.meets_and (Guarded.meets_of_forall
    (start card blockOffset dataVdd memory) hbus) hclean
  have hstep (session : Session) (trans : Payload) (next : Session) (hinv : Announced session)
      (hguard : BusWrite base trans ∧ Clean base session trans)
      (hnext : session.step base trans = some next) : Announced next :=
    step_announced hinv hguard.1 hguard.2 hnext
  constructor
  · have hkept := Guarded.meets_invariant hstep
      (start_announced card blockOffset dataVdd memory) hmeets
    apply Guarded.meets_mono _ hkept
    intro session trans _ hboth
    exact step_serves hboth.1 hboth.2.1 hboth.2.2
  · intro session hrun
    exact Guarded.exec_invariant hstep (start_announced card blockOffset dataVdd memory) hmeets hrun

/-- A command is acknowledged while nothing else is pending. -/
theorem run_serves_command :
    (Guarded.exec (Session.step 0) (start .sd 0 (fun _ => 0) fun _ => none)
        [Bus.setMem32 0 0xC 0x03000000, Bus.setMem32 0 0x30 1]).isSome = true ∧
      ∀ session, Guarded.exec (Session.step 0) (start .sd 0 (fun _ => 0) fun _ => none)
        [Bus.setMem32 0 0xC 0x03000000, Bus.setMem32 0 0x30 1] = some session →
          Announced session := by
  have hbus : ∀ trans ∈ [Bus.setMem32 0 0xC 0x03000000, Bus.setMem32 0 0x30 1],
      BusWrite 0 trans := by
    intro trans htrans
    simp only [List.mem_cons, List.not_mem_nil, or_false] at htrans
    rcases htrans with rfl | rfl <;>
      exact ⟨rfl, by decide, _, rfl, by decide⟩
  have hclean : Guarded.Meets (Session.step 0) (Clean 0)
      (start .sd 0 (fun _ => 0) fun _ => none)
      [Bus.setMem32 0 0xC 0x03000000, Bus.setMem32 0 0x30 1] := by
    apply Guarded.meets_cons rfl
    · exact ⟨keepsBytes_of_enabled (by decide), fun hack => absurd hack (by decide)⟩
    · apply Guarded.meets_cons rfl
      · exact ⟨keepsBytes_of_enabled (by decide), fun _ => ⟨by decide, by decide⟩⟩
      · trivial
  exact ⟨rfl, (run_serves 0 .sd 0 (fun _ => 0) (fun _ => none) _ hbus hclean).2⟩

/-- CMD12 completes a command and a transfer, of which the second is lost when the first is
acknowledged. -/
theorem not_run_serves :
    ¬∀ (base : BitVec 32) (card : CardType) (blockOffset : BitVec 32)
      (dataVdd : BitVec 32 → Byte) (memory : Memory) (writes : List Payload),
      (∀ trans ∈ writes, BusWrite base trans) →
        Guarded.Meets (Session.step base) (Serves base) (start card blockOffset dataVdd memory)
            writes ∧
          ∀ session, Guarded.exec (Session.step base) (start card blockOffset dataVdd memory)
            writes = some session → Announced session := by
  intro hserves
  have hbus : ∀ trans ∈ [Bus.setMem32 0 0xC 0x0C000000, Bus.setMem32 0 0x30 1],
      BusWrite 0 trans := by
    intro trans htrans
    simp only [List.mem_cons, List.not_mem_nil, or_false] at htrans
    rcases htrans with rfl | rfl <;>
      exact ⟨rfl, by decide, _, rfl, by decide⟩
  obtain ⟨-, hannounced⟩ := hserves 0 .sd 0 (fun _ => 0) (fun _ => none) _ hbus
  have hlost : (0 : BitVec 32) = 2 := (hannounced _ rfl).status
  exact absurd hlost (by decide)

end Prazor.Devices.Sdio
