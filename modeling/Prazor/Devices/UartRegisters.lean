import Prazor.Bus.CpuBusaccess
import Prazor.Core.Guarded
import Prazor.Core.WordBits
import Prazor.Devices.Uart64

/-!
# Registers and interrupt line of the UART

A run is any sequence of bus accesses and of characters that come from standard input or the
xterm.  Beside the device we keep the characters that came and were neither read nor reset.  The
registers read back what was last written to them in every run.  The characters are all delivered
when none comes while another waits.  The line follows the enabled conditions as long as a mask
write, a reset or a read of the FIFO does not leave it to be refreshed.
-/

namespace Prazor.Devices.Uart64

open Prazor.Tlm Prazor.Bytes

/-! ## Runs -/

inductive UartEvent
  | access (payload : Payload)
  | input (source : UartInput) (ch : Byte)

/-- The register a write is to. -/
def writeOffset (payload : Payload) : BitVec 8 :=
  if hiWord payload then regOffset payload + 4 else regOffset payload

/-- A read of the FIFO. -/
def ReadsFifo (payload : Payload) : Prop := payload.command = .read ∧ regOffset payload = uart2Fifo

instance decidableReadsFifo (payload : Payload) : Decidable (ReadsFifo payload) :=
  inferInstanceAs (Decidable (_ ∧ _))

/-- What an event writes to a register. -/
def UartEvent.written (offset : BitVec 8) : UartEvent → Option Byte
  | .access payload =>
      if payload.command = .write ∧ writeOffset payload = offset then some (payload.data 0)
      else none
  | .input _ _ => none

/-- The value last written to a register. -/
def lastWritten (offset : BitVec 8) (first : Byte) (events : List UartEvent) : Byte :=
  events.foldl (fun value event => (event.written offset).getD value) first

/-- The mask after an event, by the pair of enable and disable registers. -/
def setMask (mask : Byte) (event : UartEvent) : Byte :=
  (mask ||| (event.written uart2Ier).getD 0) &&& ~~~(event.written uart2Idr).getD 0

/-- The receive-path reset. -/
def UartEvent.Resets (event : UartEvent) : Prop :=
  (event.written uart2Cr).getD 0 &&& 0x1 ≠ 0

instance decidableResets (event : UartEvent) : Decidable event.Resets :=
  inferInstanceAs (Decidable (_ ≠ _))

/-- A character of the xterm is taken while the receiver is enabled. -/
def receives (s : Uart64) : UartInput → Bool
  | .stdin => true
  | .xterm => s.controlRegister.getLsbD 4

/-- The device, and the characters that came and were neither read nor reset. -/
structure Session where
  uart : Uart64
  waiting : List Byte

/-- One event; `none` when the access reads behind a canned string. -/
def Session.step (session : Session) (event : UartEvent) : Option Session :=
  match event with
  | .access payload => do
      let (uart, _) ← session.uart.bAccess payload
      let waiting :=
        if ReadsFifo payload ∧ session.uart.cannedInput = none then session.waiting.tail
        else if event.Resets then []
        else session.waiting
      some { uart, waiting }
  | .input source ch =>
      some {
        uart := session.uart.inputProcess source ch
        waiting := if session.uart.receives source then session.waiting ++ [ch]
          else session.waiting }

/-- A constructed UART, with canned input or without. -/
def start (modeRegister : BitVec 32) : Option (List Byte × List Byte) → Session
  | none => { uart := new modeRegister, waiting := [] }
  | some (text, file) =>
      { uart := (new modeRegister).registerCannedInput text file, waiting := [] }

/-! ## What the registers and the line are for -/

/-- Every bus read of a register returns a value. -/
def Reads (s : Uart64) (offset : BitVec 8) (value : Byte) : Prop :=
  ∀ payload : Payload, payload.command = .read → regOffset payload = offset →
    ∃ s' answer, s.bAccess payload = some (s', answer) ∧ answer.data 0 = value ∧
      answer.response = .ok

/-- Some enabled condition holds: input available, or transmitter empty. -/
def wantedBy (mask : BitVec 32) (available : Bool) : Bool :=
  available && mask &&& (uart2IntRxFull ||| uart2IntRxEmpty ||| uart2IntRxTrigger) != 0 ||
    mask &&& uart2IntTxEmpty != 0

def wanted (s : Uart64) : Bool := wantedBy s.interruptMaskRegister s.testch

/-- The registers read back what was written to them. -/
structure ReadsBack (s : Uart64) (modeRegister : BitVec 32) (events : List UartEvent) : Prop where
  /-- The bits of the two resets clear themselves. -/
  control : Reads s uart2Cr (lastWritten uart2Cr 0x28 events &&& ~~~0x3)
  mode : Reads s uart2Mr (lastWritten uart2Mr (modeRegister.setWidth 8) events)
  receiveTrigger : Reads s uart2Rxwm (lastWritten uart2Rxwm 3 events)
  mask : Reads s uart2Imr (events.foldl setMask 0)

/-- The first of the waiting characters is the next that a read of the FIFO returns, and input is
reported as long as there is one. -/
structure Serves (session : Session) : Prop where
  next : session.uart.cannedInput = none → Reads session.uart uart2Fifo (session.waiting.headD 0)
  available : session.uart.testch ↔
    session.uart.cannedInput.isSome ∨ session.waiting ≠ []

/-- No character comes while another waits. -/
def NoOverrun (session : Session) : UartEvent → Prop
  | .access _ => True
  | .input source _ => session.uart.receives source → session.uart.logged = 0

/-- The next read uses up the canned input. -/
def LastCanned (s : Uart64) : Prop :=
  match s.cannedFd, s.cannedInput with
  | some file, _ => file = []
  | none, some i => s.cannedChar (i + 1) = some 0 ∨
      (s.cannedChar i = some 0x5C ∧ s.cannedChar (i + 2) = some 0)
  | none, none => False

/-- Where the code does not refresh the line there is nothing to refresh: a mask write, a reset
and the end of the canned input change no enabled condition, and a character is read while
transmitter-empty is not enabled. -/
def Refreshed (session : Session) : UartEvent → Prop
  | .input _ _ => True
  | .access payload =>
      let s := session.uart
      let mask := s.interruptMaskRegister
      (∀ d, (UartEvent.access payload).written uart2Ier = some d →
        wantedBy (mask ||| d.setWidth 32) s.testch = s.wanted) ∧
      (∀ d, (UartEvent.access payload).written uart2Idr = some d →
        wantedBy (mask &&& ~~~d.setWidth 32) s.testch = s.wanted) ∧
      ((UartEvent.access payload).Resets → wantedBy mask s.cannedInput.isSome = s.wanted) ∧
      (ReadsFifo payload → s.cannedInput.isSome → LastCanned s →
        wantedBy mask (s.logged != 0) = s.wanted) ∧
      (ReadsFifo payload → s.cannedInput = none → s.logged ≠ 0 → mask &&& uart2IntTxEmpty = 0)

variable {s s' : Uart64} {session session' : Session} {payload answer : Payload}
  {event : UartEvent} {events : List UartEvent} {r d ch : Byte} {offset : BitVec 8}
  {source : UartInput}

/-! ## What an access does -/

theorem readRegister_cases {rc : Response}
    (hread : s.readRegister offset = some (r, rc, s')) :
    (offset = uart2Fifo ∧ s.rdchNonblock = some (r, s')) ∨ (offset ≠ uart2Fifo ∧ s' = s) := by
  by_cases hfifo : offset = uart2Fifo
  · rw [readRegister, if_pos hfifo] at hread
    cases hnext : s.rdchNonblock with
    | none => simp [hnext] at hread
    | some next =>
        simp only [hnext, Option.map_some, Option.some.injEq, Prod.mk.injEq] at hread
        exact .inl ⟨hfifo, by rw [← hread.1, ← hread.2.2]⟩
  · rw [readRegister, if_neg hfifo] at hread
    refine .inr ⟨hfifo, ?_⟩
    split_ifs at hread <;> cases hread <;> rfl

/-- An access reads the FIFO, writes a register, or leaves the device as it is. -/
theorem bAccess_cases (haccess : s.bAccess payload = some (s', answer)) :
    (ReadsFifo payload ∧ ∃ r, s.rdchNonblock = some (r, s')) ∨
    (payload.command = .write ∧ s' = (s.writeRegister (writeOffset payload) (payload.data 0)).2) ∨
    (¬ReadsFifo payload ∧ payload.command ≠ .write ∧ s' = s) := by
  cases hcommand : payload.command with
  | read =>
      rw [bAccess, hcommand] at haccess
      simp only [Option.map_eq_some_iff, Prod.mk.injEq, Prod.exists] at haccess
      obtain ⟨r, rc, next, hread, hnext, -⟩ := haccess
      subst hnext
      rcases readRegister_cases hread with ⟨hfifo, hrdch⟩ | ⟨hfifo, hsame⟩
      · exact .inl ⟨⟨hcommand, hfifo⟩, r, hrdch⟩
      · exact .inr (.inr ⟨fun hreads => hfifo hreads.2, by simp, hsame⟩)
  | write =>
      rw [bAccess, hcommand] at haccess
      simp only [Option.some.injEq, Prod.mk.injEq] at haccess
      exact .inr (.inl ⟨rfl, haccess.1.symm⟩)
  | ignore =>
      rw [bAccess, hcommand] at haccess
      simp only [Option.some.injEq, Prod.mk.injEq] at haccess
      refine .inr (.inr ⟨fun hreads => ?_, by simp, haccess.1.symm⟩)
      have hread := hreads.1
      rw [hcommand] at hread
      cases hread

/-! ## Fields that an access changes -/

/-- A step that leaves the registers as they are. -/
structure Kept (s s' : Uart64) : Prop where
  control : s'.controlRegister = s.controlRegister
  mode : s'.modeRegister = s.modeRegister
  trigger : s'.txInterruptLevel = s.txInterruptLevel
  mask : s'.interruptMaskRegister = s.interruptMaskRegister

theorem Kept.refl (s : Uart64) : Kept s s := ⟨rfl, rfl, rfl, rfl⟩

theorem Kept.trans {s'' : Uart64} (hfirst : Kept s s') (hsecond : Kept s' s'') : Kept s s'' :=
  ⟨hsecond.control.trans hfirst.control, hsecond.mode.trans hfirst.mode,
    hsecond.trigger.trans hfirst.trigger, hsecond.mask.trans hfirst.mask⟩

/-- `update_interrupt` changes the line and what it remembers of it. -/
theorem updateInterrupt_eq (s : Uart64) :
    ∃ raised line, s.updateInterrupt = { s with raisedInterrupt := raised, irq := line } := by
  rw [updateInterrupt]
  split_ifs
  · exact ⟨true, true, rfl⟩
  · exact ⟨false, false, rfl⟩
  · exact ⟨s.raisedInterrupt, s.irq, rfl⟩

theorem updateInterrupt_kept (s : Uart64) : Kept s s.updateInterrupt := by
  obtain ⟨raised, line, heq⟩ := updateInterrupt_eq s
  rw [heq]
  exact ⟨rfl, rfl, rfl, rfl⟩

@[simp]
theorem updateInterrupt_logged (s : Uart64) : s.updateInterrupt.logged = s.logged := by
  obtain ⟨raised, line, heq⟩ := updateInterrupt_eq s
  rw [heq]

@[simp]
theorem updateInterrupt_cannedInput (s : Uart64) :
    s.updateInterrupt.cannedInput = s.cannedInput := by
  obtain ⟨raised, line, heq⟩ := updateInterrupt_eq s
  rw [heq]

/-- A character of the canned input moves its cursor only. -/
theorem nextCanned_eq_some (hnext : s.nextCanned = some (r, s')) :
    ∃ i following, s.cannedInput = some i ∧ s.cannedChar i = some r ∧
      s.cannedChar (i + 1) = some following ∧
      s' = { s with cannedInput := if following = 0 then none else some (i + 1) } := by
  simp only [nextCanned, Option.bind_eq_bind, Option.bind_eq_some_iff, Option.some.injEq,
    Prod.mk.injEq] at hnext
  obtain ⟨i, hat, c, hthis, following, hfollowing, hc, hs'⟩ := hnext
  subst hc
  exact ⟨i, following, hat, hthis, hfollowing, hs'.symm⟩

/-- A read of an immediate string. -/
theorem rdchNonblock_string {i : ℕ} (hfile : s.cannedFd = none) (hat : s.cannedInput = some i)
    (hread : s.rdchNonblock = some (r, s')) :
    ∃ cursor, s' = { s with cannedInput := cursor } ∧ (cursor = none ↔ LastCanned s) := by
  have hlast : LastCanned s ↔ s.cannedChar (i + 1) = some 0 ∨
      (s.cannedChar i = some 0x5C ∧ s.cannedChar (i + 2) = some 0) := by
    rw [LastCanned, hfile, hat]
  simp only [rdchNonblock, hat, hfile, Option.bind_eq_bind, Option.bind_eq_some_iff,
    Prod.exists] at hread
  obtain ⟨c, s₁, hnext₁, hrest⟩ := hread
  obtain ⟨j, following, hj, hthis, hfollowing, hs₁⟩ := nextCanned_eq_some hnext₁
  rw [hat, Option.some.injEq] at hj
  subst hj hs₁
  rw [hlast, hthis, hfollowing, Option.some.injEq, Option.some.injEq]
  by_cases hescape : c = 0x5C
  · rw [if_pos hescape] at hrest
    simp only [Option.bind_eq_some_iff, Option.some.injEq, Prod.mk.injEq, Prod.exists] at hrest
    obtain ⟨e, s₂, hnext₂, -, hs'⟩ := hrest
    obtain ⟨j, following', hj, -, hfollowing', hs₂⟩ := nextCanned_eq_some hnext₂
    have hmore : following ≠ 0 := by
      intro hnul
      simp [hnul] at hj
    simp only [if_neg hmore, Option.some.injEq] at hj
    subst hj hs'
    have hsecond : s.cannedChar (i + 2) = some following' := hfollowing'
    refine ⟨_, hs₂, ?_⟩
    rw [hsecond, Option.some.injEq, or_iff_right hmore, and_iff_right hescape, ite_eq_left_iff]
    simp
  · rw [if_neg hescape] at hrest
    simp only [Option.some.injEq, Prod.mk.injEq] at hrest
    refine ⟨_, hrest.2.symm, ?_⟩
    rw [or_iff_left fun hand => hescape hand.1, ite_eq_left_iff]
    simp

/-- A read of the canned input moves on in it, and ends it at its last character. -/
theorem rdchNonblock_canned (hcanned : s.cannedInput.isSome)
    (hread : s.rdchNonblock = some (r, s')) :
    ∃ cursor file, s' = { s with cannedInput := cursor, cannedFd := file } ∧
      (cursor = none ↔ LastCanned s) := by
  obtain ⟨i, hat⟩ := Option.isSome_iff_exists.mp hcanned
  cases hfile : s.cannedFd with
  | none =>
      obtain ⟨cursor, hs', hend⟩ := rdchNonblock_string hfile hat hread
      refine ⟨cursor, none, ?_, hend⟩
      rw [hs', ← hfile]
  | some file =>
      rw [LastCanned, hfile]
      cases file with
      | nil =>
          simp only [rdchNonblock, hat, hfile, Option.some.injEq, Prod.mk.injEq] at hread
          exact ⟨none, none, hread.2.symm, by simp⟩
      | cons c file =>
          simp only [rdchNonblock, hat, hfile, Option.some.injEq, Prod.mk.injEq] at hread
          refine ⟨some i, some file, ?_, by simp⟩
          rw [← hread.2, ← hat]

/-- A read of a character that came, or of none. -/
theorem rdchNonblock_logged (hcanned : s.cannedInput = none)
    (hread : s.rdchNonblock = some (r, s')) :
    (s.logged ≠ 0 ∧ r = s.logged.setWidth 8 ∧ s' = updateInterrupt { s with logged := 0 }) ∨
      (s.logged = 0 ∧ r = 0 ∧ s' = s) := by
  simp only [rdchNonblock, hcanned] at hread
  split_ifs at hread with hlogged
  · cases hread
    exact .inl ⟨hlogged, rfl, by rw [hcanned]⟩
  · cases hread
    exact .inr ⟨not_not.mp hlogged, rfl, rfl⟩

theorem rdchNonblock_kept (hread : s.rdchNonblock = some (r, s')) : Kept s s' := by
  cases hcanned : s.cannedInput with
  | some i =>
      obtain ⟨cursor, file, hs', -⟩ := rdchNonblock_canned (by rw [hcanned]; rfl) hread
      subst hs'
      exact ⟨rfl, rfl, rfl, rfl⟩
  | none =>
      rcases rdchNonblock_logged hcanned hread with ⟨-, -, hs'⟩ | ⟨-, -, hs'⟩
      · subst hs'
        obtain ⟨hcontrol, hmode, htrigger, hmask⟩ := updateInterrupt_kept { s with logged := 0 }
        exact ⟨hcontrol, hmode, htrigger, hmask⟩
      · subst hs'
        exact Kept.refl s'

theorem inputProcess_kept (s : Uart64) (source : UartInput) (ch : Byte) :
    Kept s (s.inputProcess source ch) := by
  cases source with
  | stdin =>
      obtain ⟨hcontrol, hmode, htrigger, hmask⟩ :=
        updateInterrupt_kept { s with logged := ch.setWidth 32 ||| 256 }
      exact ⟨hcontrol, hmode, htrigger, hmask⟩
  | xterm =>
      rw [inputProcess]
      split_ifs
      · obtain ⟨hcontrol, hmode, htrigger, hmask⟩ := updateInterrupt_kept
          { s with logged := ch.setWidth 32 ||| 256, readNextChar := false }
        exact ⟨hcontrol, hmode, htrigger, hmask⟩
      · exact Kept.refl s

/-- The bits of the two resets clear themselves. -/
theorem writeControl_control (s : Uart64) (d : Byte) :
    (s.writeControl d).controlRegister = (d &&& ~~~0x3).setWidth 32 := by
  have hbits : (~~~0x1 : Byte) &&& ~~~0x2 = ~~~0x3 := rfl
  simp only [writeControl, WordBits.clear_bits]
  rw [BitVec.and_assoc, hbits]

/-- A reset forgets the character. -/
theorem writeControl_logged (s : Uart64) (d : Byte) :
    (s.writeControl d).logged = if d &&& 0x1 ≠ 0 then 0 else s.logged := by
  simp only [writeControl]
  split_ifs <;> rfl

section Fields

variable (s offset d)

theorem writeRegister_control :
    (s.writeRegister offset d).2.controlRegister =
      if offset = uart2Cr then (d &&& ~~~0x3).setWidth 32 else s.controlRegister := by
  rw [← writeControl_control s d]
  unfold writeRegister
  split_ifs <;> simp_all [uart2Fifo, uart2Cr]

theorem writeRegister_mode :
    (s.writeRegister offset d).2.modeRegister =
      if offset = uart2Mr then d.setWidth 32 else s.modeRegister := by
  have hcontrol : (s.writeControl d).modeRegister = s.modeRegister := by
    simp only [writeControl]
    split_ifs <;> rfl
  unfold writeRegister
  split_ifs <;> simp_all [uart2Fifo, uart2Cr, uart2Mr]

theorem writeRegister_trigger :
    (s.writeRegister offset d).2.txInterruptLevel =
      if offset = uart2Rxwm then d.setWidth 32 else s.txInterruptLevel := by
  have hcontrol : (s.writeControl d).txInterruptLevel = s.txInterruptLevel := by
    simp only [writeControl]
    split_ifs <;> rfl
  unfold writeRegister
  split_ifs <;> simp_all [uart2Fifo, uart2Cr, uart2Mr, uart2Ier, uart2Idr, uart2Sr, uart2Isr,
    uart2Rxwm]

theorem writeRegister_mask :
    (s.writeRegister offset d).2.interruptMaskRegister =
      if offset = uart2Ier then s.interruptMaskRegister ||| d.setWidth 32
      else if offset = uart2Idr then s.interruptMaskRegister &&& ~~~d.setWidth 32
      else s.interruptMaskRegister := by
  have hcontrol : (s.writeControl d).interruptMaskRegister = s.interruptMaskRegister := by
    simp only [writeControl]
    split_ifs <;> rfl
  unfold writeRegister
  split_ifs <;> simp_all [uart2Fifo, uart2Cr, uart2Mr, uart2Ier, uart2Idr]

theorem writeRegister_logged :
    (s.writeRegister offset d).2.logged =
      if offset = uart2Cr ∧ d &&& 0x1 ≠ 0 then 0 else s.logged := by
  have hcontrol := writeControl_logged s d
  unfold writeRegister
  split_ifs <;> simp_all [uart2Fifo, uart2Cr]

/-- No register write touches the canned input or the line. -/
theorem writeRegister_others :
    (s.writeRegister offset d).2.cannedInput = s.cannedInput ∧
      (s.writeRegister offset d).2.raisedInterrupt = s.raisedInterrupt ∧
      (s.writeRegister offset d).2.irq = s.irq := by
  have hcontrol : (s.writeControl d).cannedInput = s.cannedInput ∧
      (s.writeControl d).raisedInterrupt = s.raisedInterrupt ∧
      (s.writeControl d).irq = s.irq := by
    simp only [writeControl]
    split_ifs <;> exact ⟨rfl, rfl, rfl⟩
  unfold writeRegister
  split_ifs <;> first | exact hcontrol | exact ⟨rfl, rfl, rfl⟩

end Fields

/-! ## Steps -/

theorem step_access (hstep : session.step (.access payload) = some session') :
    (∃ answer, session.uart.bAccess payload = some (session'.uart, answer)) ∧
      session'.waiting =
        if ReadsFifo payload ∧ session.uart.cannedInput = none then session.waiting.tail
        else if (UartEvent.access payload).Resets then []
        else session.waiting := by
  simp only [Session.step, Option.bind_eq_bind, Option.bind_eq_some_iff, Option.some.injEq,
    Prod.exists] at hstep
  obtain ⟨uart, answer, haccess, hsession⟩ := hstep
  subst hsession
  exact ⟨⟨answer, haccess⟩, rfl⟩

theorem written_of_not_write (hwrite : payload.command ≠ .write) (offset : BitVec 8) :
    (UartEvent.access payload).written offset = none := by
  rw [UartEvent.written, if_neg fun hand => hwrite hand.1]

theorem written_of_write (hwrite : payload.command = .write) (offset : BitVec 8) :
    (UartEvent.access payload).written offset =
      if writeOffset payload = offset then some (payload.data 0) else none := by
  simp [UartEvent.written, hwrite]

/-- What a step does to the registers, given by the writes. -/
structure Written (s s' : Uart64) (event : UartEvent) : Prop where
  control : s'.controlRegister =
    ((event.written uart2Cr).map fun d => (d &&& ~~~0x3).setWidth 32).getD s.controlRegister
  mode : s'.modeRegister = ((event.written uart2Mr).map (BitVec.setWidth 32)).getD s.modeRegister
  trigger : s'.txInterruptLevel =
    ((event.written uart2Rxwm).map (BitVec.setWidth 32)).getD s.txInterruptLevel
  mask : s'.interruptMaskRegister =
    (s.interruptMaskRegister ||| ((event.written uart2Ier).getD 0).setWidth 32) &&&
      ~~~((event.written uart2Idr).getD 0).setWidth 32

theorem mask_undisabled (mask : BitVec 32) : mask &&& ~~~(0 : Byte).setWidth 32 = mask :=
  BitVec.and_allOnes

theorem mask_unwritten (mask : BitVec 32) :
    (mask ||| (0 : Byte).setWidth 32) &&& ~~~(0 : Byte).setWidth 32 = mask := by
  rw [mask_undisabled]
  exact BitVec.or_zero

/-- Without a write nothing changes. -/
theorem Kept.written (hkept : Kept s s') (hnone : ∀ offset, event.written offset = none) :
    Written s s' event := by
  constructor
  · rw [hnone, hkept.control]
    rfl
  · rw [hnone, hkept.mode]
    rfl
  · rw [hnone, hkept.trigger]
    rfl
  · rw [hnone, hnone, hkept.mask]
    exact (mask_unwritten _).symm

theorem step_written (hstep : session.step event = some session') :
    Written session.uart session'.uart event := by
  cases event with
  | input source ch =>
      cases hstep
      exact (inputProcess_kept session.uart source ch).written fun _ => rfl
  | access payload =>
      obtain ⟨⟨answer, haccess⟩, -⟩ := step_access hstep
      rcases bAccess_cases haccess with ⟨hreads, r, hread⟩ | ⟨hwrite, hs'⟩ | ⟨-, hwrite, hs'⟩
      · have hnot : payload.command ≠ .write := by simp [hreads.1]
        exact (rdchNonblock_kept hread).written (written_of_not_write hnot)
      · rw [hs']
        constructor
        · rw [writeRegister_control, written_of_write hwrite]
          split_ifs <;> rfl
        · rw [writeRegister_mode, written_of_write hwrite]
          split_ifs <;> rfl
        · rw [writeRegister_trigger, written_of_write hwrite]
          split_ifs <;> rfl
        · rw [writeRegister_mask, written_of_write hwrite, written_of_write hwrite]
          split_ifs with hier hidr hidr
          · rw [hier] at hidr
            cases hidr
          · exact (mask_undisabled _).symm
          · simp
          · exact (mask_unwritten _).symm
      · rw [hs']
        exact (Kept.refl _).written (written_of_not_write hwrite)

/-! ## Registers read back -/

/-- The values last written. -/
structure Holds (s : Uart64) (control mode trigger mask : Byte) : Prop where
  control : s.controlRegister.setWidth 8 = control &&& ~~~0x3
  mode : s.modeRegister.setWidth 8 = mode
  trigger : s.txInterruptLevel.setWidth 8 = trigger
  mask : s.interruptMaskRegister.setWidth 8 = mask

theorem setWidth_setWidth (d : Byte) : (d.setWidth 32).setWidth 8 = d := by
  simp

theorem Written.holds {control mode trigger mask : Byte} (hwritten : Written s s' event)
    (hholds : Holds s control mode trigger mask) :
    Holds s' ((event.written uart2Cr).getD control) ((event.written uart2Mr).getD mode)
      ((event.written uart2Rxwm).getD trigger) (setMask mask event) := by
  constructor
  · rw [hwritten.control]
    cases event.written uart2Cr with
    | none => exact hholds.control
    | some d => exact setWidth_setWidth (d &&& ~~~0x3)
  · rw [hwritten.mode]
    cases event.written uart2Mr with
    | none => exact hholds.mode
    | some d => exact setWidth_setWidth d
  · rw [hwritten.trigger]
    cases event.written uart2Rxwm with
    | none => exact hholds.trigger
    | some d => exact setWidth_setWidth d
  · rw [hwritten.mask, setMask, ← hholds.mask]
    apply BitVec.eq_of_getLsbD_eq
    intro i hi
    have hword : i < 32 := by omega
    simp [hi, hword]

theorem run_holds {control mode trigger mask : Byte}
    (hrun : Guarded.exec Session.step session events = some session')
    (hholds : Holds session.uart control mode trigger mask) :
    Holds session'.uart (lastWritten uart2Cr control events) (lastWritten uart2Mr mode events)
      (lastWritten uart2Rxwm trigger events) (events.foldl setMask mask) := by
  induction events generalizing session control mode trigger mask with
  | nil =>
      cases hrun
      exact hholds
  | cons event rest ih =>
      obtain ⟨next, hstep, hrest⟩ := Guarded.exec_cons_eq_some.mp hrun
      exact ih hrest ((step_written hstep).holds hholds)

theorem reads_of_readRegister
    (hread : s.readRegister offset = some (r, .ok, s')) : Reads s offset r := by
  intro payload hcommand hoffset
  refine ⟨s', { payload with
    data := memcpy 8 (bytes64 (r.setWidth 64 ||| (r.setWidth 64 <<< 32))) payload.data
    response := .ok }, ?_, data_answer r payload.data, rfl⟩
  rw [bAccess, hcommand, hoffset]
  change (s.readRegister offset).map _ = _
  rw [hread]
  rfl

theorem Holds.readsBack {modeRegister : BitVec 32}
    (hholds : Holds s (lastWritten uart2Cr 0x28 events)
      (lastWritten uart2Mr (modeRegister.setWidth 8) events) (lastWritten uart2Rxwm 3 events)
      (events.foldl setMask 0)) : ReadsBack s modeRegister events := by
  constructor
  · rw [← hholds.control]
    exact reads_of_readRegister rfl
  · rw [← hholds.mode]
    exact reads_of_readRegister rfl
  · rw [← hholds.trigger]
    exact reads_of_readRegister rfl
  · rw [← hholds.mask]
    exact reads_of_readRegister rfl

/-! ## Characters -/

/-- What waits is what is logged. -/
def Held (logged : BitVec 32) : List Byte → Prop
  | [] => logged = 0
  | [ch] => logged = ch.setWidth 32 ||| 256
  | _ => False

theorem logged_ne_zero (ch : Byte) : ch.setWidth 32 ||| 256 ≠ (0 : BitVec 32) := by
  intro hzero
  have hbit := congrArg (fun word => word.getLsbD 8) hzero
  simp at hbit

theorem logged_char (ch : Byte) : (ch.setWidth 32 ||| 256 : BitVec 32).setWidth 8 = ch := by
  apply BitVec.eq_of_getLsbD_eq
  intro i hi
  interval_cases i <;> simp

theorem held_zero {waiting : List Byte} (hheld : Held 0 waiting) : waiting = [] := by
  match waiting with
  | [] => rfl
  | [ch] => exact absurd hheld.symm (logged_ne_zero ch)
  | _ :: _ :: _ => exact hheld.elim

theorem held_ne_zero {logged : BitVec 32} {waiting : List Byte} (hheld : Held logged waiting)
    (hlogged : logged ≠ 0) : waiting = [logged.setWidth 8] := by
  match waiting with
  | [] => exact absurd hheld hlogged
  | [ch] => rw [hheld, logged_char]
  | _ :: _ :: _ => exact hheld.elim

theorem Held.serves (hheld : Held session.uart.logged session.waiting) : Serves session := by
  by_cases hlogged : session.uart.logged = 0
  · have hempty : session.waiting = [] := held_zero (hlogged ▸ hheld)
    constructor
    · intro hcanned
      have hread : session.uart.rdchNonblock = some (0, session.uart) := by
        simp [rdchNonblock, hcanned, hlogged]
      rw [hempty]
      apply reads_of_readRegister
      rw [readRegister, if_pos rfl, hread]
      rfl
    · simp [testch, hlogged, hempty]
  · have hone : session.waiting = [session.uart.logged.setWidth 8] := held_ne_zero hheld hlogged
    constructor
    · intro hcanned
      rw [hone]
      apply reads_of_readRegister
      rw [readRegister, if_pos rfl, rdchNonblock]
      simp only [hcanned, if_pos hlogged]
      rfl
    · simpa [testch, hone] using Or.inr hlogged

/-- A step that lets no character come while another waits. -/
theorem step_held (hstep : session.step event = some session')
    (hguard : NoOverrun session event) (hheld : Held session.uart.logged session.waiting) :
    Held session'.uart.logged session'.waiting := by
  cases event with
  | input source ch =>
      cases hstep
      cases source with
      | stdin =>
          have hempty : session.waiting = [] := held_zero (hguard rfl ▸ hheld)
          simp [inputProcess, receives, hempty, Held]
      | xterm =>
          by_cases henabled : session.uart.controlRegister.getLsbD 4
          · have hempty : session.waiting = [] := held_zero (hguard henabled ▸ hheld)
            simp [inputProcess, receives, hempty, Held, henabled]
          · rw [inputProcess, receives, if_neg henabled, if_neg henabled]
            exact hheld
  | access payload =>
      obtain ⟨⟨answer, haccess⟩, hwaiting⟩ := step_access hstep
      rw [hwaiting]
      rcases bAccess_cases haccess with ⟨hreads, r, hread⟩ | ⟨hwrite, hs'⟩ | ⟨hreads, hwrite, hs'⟩
      · cases hcanned : session.uart.cannedInput with
        | some i =>
            obtain ⟨cursor, file, hs', -⟩ := rdchNonblock_canned (by rw [hcanned]; rfl) hread
            have hnone : ¬(UartEvent.access payload).Resets := by
              rw [UartEvent.Resets, written_of_not_write (by simp [hreads.1])]
              simp
            rw [if_neg (by simp), if_neg hnone, hs']
            exact hheld
        | none =>
            rw [if_pos ⟨hreads, rfl⟩]
            rcases rdchNonblock_logged hcanned hread with ⟨hlogged, -, hs'⟩ | ⟨hlogged, -, hs'⟩
            · rw [held_ne_zero hheld hlogged, hs', updateInterrupt_logged]
              exact rfl
            · have hempty : session.waiting = [] := held_zero (hlogged ▸ hheld)
              rw [hempty, hs']
              exact hlogged
      · have hreads : ¬ReadsFifo payload := by simp [ReadsFifo, hwrite]
        rw [if_neg fun hand => hreads hand.1, hs', writeRegister_logged]
        have hresets : (UartEvent.access payload).Resets ↔
            writeOffset payload = uart2Cr ∧ payload.data 0 &&& 0x1 ≠ 0 := by
          rw [UartEvent.Resets, written_of_write hwrite]
          split_ifs with hcontrol <;> simp [hcontrol]
        by_cases hreset : (UartEvent.access payload).Resets
        · rw [if_pos hreset, if_pos (hresets.mp hreset)]
          exact rfl
        · rw [if_neg hreset, if_neg (mt hresets.mpr hreset)]
          exact hheld
      · have hnone : ¬(UartEvent.access payload).Resets := by
          rw [UartEvent.Resets, written_of_not_write hwrite]
          simp
        rw [if_neg fun hand => hreads hand.1, if_neg hnone, hs']
        exact hheld

/-! ## The line -/

/-- The line is what the code remembers of it and what the enabled conditions want. -/
structure Line (s : Uart64) : Prop where
  remembered : s.raisedInterrupt = s.irq
  follows : s.irq = s.wanted

theorem interruptsUnmasked_eq (s : Uart64) :
    s.interruptsUnmasked = if s.testch then 0xD else 0xA := by
  cases htestch : s.testch <;> simp [interruptsUnmasked, htestch] <;> rfl

/-- The condition on which the line is raised. -/
theorem raise_eq (s : Uart64) :
    (s.interruptMaskRegister &&& (uart2IntRxEmpty ^^^ s.interruptsUnmasked) != 0) =
      s.wanted := by
  rw [interruptsUnmasked_eq, wanted, wantedBy]
  cases s.testch with
  | false => rfl
  | true =>
      have hbits : (uart2IntRxEmpty ^^^ 0xD : BitVec 32) =
          (uart2IntRxFull ||| uart2IntRxEmpty ||| uart2IntRxTrigger) ||| uart2IntTxEmpty := rfl
      rw [if_pos rfl, hbits, BitVec.and_or_distrib_left, Bool.true_and, Bool.eq_iff_iff]
      simp only [bne_iff_ne, Bool.or_eq_true, ne_eq]
      rw [← not_and_or, not_iff_not]
      exact BitVec.or_eq_zero_iff

/-- The condition on which it is lowered. -/
theorem lower_eq (s : Uart64) : (s.interruptsUnmasked &&& uart2IntRxEmpty != 0) = !s.testch := by
  rw [interruptsUnmasked_eq]
  cases s.testch <;> rfl

theorem wantedBy_of_available {mask : BitVec 32} {available : Bool}
    (hwanted : wantedBy mask available = true) : wantedBy mask true = true := by
  simp only [wantedBy, Bool.or_eq_true, Bool.and_eq_true] at hwanted ⊢
  exact hwanted.imp_left fun hand => ⟨trivial, hand.2⟩

/-- A refresh sets the line right unless it is up and stays up for nothing, or goes down while
transmitter-empty is enabled. -/
theorem updateInterrupt_line (hremembered : s.raisedInterrupt = s.irq)
    (hstays : s.irq = true → s.testch = true → s.wanted = true)
    (hfalls : s.irq = true → s.testch = false → s.interruptMaskRegister &&& uart2IntTxEmpty = 0) :
    Line s.updateInterrupt := by
  rw [updateInterrupt]
  simp only [raise_eq, lower_eq, hremembered]
  cases hirq : s.irq with
  | false =>
      cases hwanted : s.wanted with
      | false => exact ⟨hremembered, hirq.trans hwanted.symm⟩
      | true => exact ⟨rfl, hwanted.symm⟩
  | true =>
      cases htestch : s.testch with
      | true => exact ⟨hremembered, hirq.trans (hstays hirq htestch).symm⟩
      | false =>
          refine ⟨rfl, ?_⟩
          change false = wantedBy s.interruptMaskRegister s.testch
          rw [htestch, wantedBy, hfalls hirq htestch]
          rfl

/-- A step that leaves the line alone. -/
theorem Line.keep (hline : Line s) (hremembered : s'.raisedInterrupt = s.raisedInterrupt)
    (hirq : s'.irq = s.irq) (hwanted : s'.wanted = s.wanted) : Line s' :=
  ⟨by rw [hremembered, hirq, hline.remembered], by rw [hirq, hwanted, hline.follows]⟩

/-- A character that comes raises the line. -/
theorem input_line (hline : Line s) (source : UartInput) (ch : Byte) :
    Line (s.inputProcess source ch) := by
  have harrive (next : Bool) : Line (updateInterrupt
      { s with logged := ch.setWidth 32 ||| 256, readNextChar := next }) := by
    have htestch : testch { s with
        logged := ch.setWidth 32 ||| 256, readNextChar := next } = true := by
      simp [testch]
    apply updateInterrupt_line
    · exact hline.remembered
    · intro hirq _
      rw [wanted, htestch]
      exact wantedBy_of_available (hline.follows ▸ hirq)
    · intro _ hnone
      rw [htestch] at hnone
      cases hnone
  cases source with
  | stdin => exact harrive s.readNextChar
  | xterm =>
      rw [inputProcess]
      split_ifs
      · exact harrive false
      · exact hline

/-- A read of the FIFO. -/
theorem read_line (hline : Line s) (hread : s.rdchNonblock = some (r, s'))
    (hcanned : s.cannedInput.isSome → LastCanned s →
      wantedBy s.interruptMaskRegister (s.logged != 0) = s.wanted)
    (hlogged : s.cannedInput = none → s.logged ≠ 0 →
      s.interruptMaskRegister &&& uart2IntTxEmpty = 0) : Line s' := by
  cases hinput : s.cannedInput with
  | some i =>
      have hsome : s.cannedInput.isSome := by rw [hinput]; rfl
      obtain ⟨cursor, file, hs', hend⟩ := rdchNonblock_canned hsome hread
      rw [hs']
      refine Line.keep hline ?_ ?_ ?_
      · rfl
      · rfl
      · cases cursor with
        | none => exact hcanned hsome (hend.mp rfl)
        | some j => simp [wanted, testch, hsome]
  | none =>
      rcases rdchNonblock_logged hinput hread with ⟨hsome, -, hs'⟩ | ⟨-, -, hs'⟩
      · rw [hs']
        apply updateInterrupt_line
        · exact hline.remembered
        · intro _ hmore
          simp [testch, hinput] at hmore
        · intro _ _
          exact hlogged hinput hsome
      · rw [hs']
        exact hline

/-- A write of a register that changes no enabled condition. -/
theorem write_line (hline : Line s)
    (henable : offset = uart2Ier →
      wantedBy (s.interruptMaskRegister ||| d.setWidth 32) s.testch = s.wanted)
    (hdisable : offset = uart2Idr →
      wantedBy (s.interruptMaskRegister &&& ~~~d.setWidth 32) s.testch = s.wanted)
    (hreset : offset = uart2Cr ∧ d &&& 0x1 ≠ 0 →
      wantedBy s.interruptMaskRegister s.cannedInput.isSome = s.wanted) :
    Line (s.writeRegister offset d).2 := by
  obtain ⟨hinput, hremembered, hirq⟩ := writeRegister_others s d offset
  apply hline.keep hremembered hirq
  rw [wanted, testch, writeRegister_mask, writeRegister_logged, hinput]
  by_cases hier : offset = uart2Ier
  · have hcr : ¬(offset = uart2Cr ∧ d &&& 0x1 ≠ 0) := by
      rw [hier]
      exact fun hand => absurd hand.1 (by decide)
    rw [if_pos hier, if_neg hcr]
    exact henable hier
  · rw [if_neg hier]
    by_cases hidr : offset = uart2Idr
    · have hcr : ¬(offset = uart2Cr ∧ d &&& 0x1 ≠ 0) := by
        rw [hidr]
        exact fun hand => absurd hand.1 (by decide)
      rw [if_pos hidr, if_neg hcr]
      exact hdisable hidr
    · rw [if_neg hidr]
      by_cases hcr : offset = uart2Cr ∧ d &&& 0x1 ≠ 0
      · rw [if_pos hcr, bne_self_eq_false, Bool.or_false]
        exact hreset hcr
      · rw [if_neg hcr]
        rfl

theorem step_line (hstep : session.step event = some session')
    (hguard : Refreshed session event) (hline : Line session.uart) : Line session'.uart := by
  cases event with
  | input source ch =>
      cases hstep
      exact input_line hline source ch
  | access payload =>
      obtain ⟨⟨answer, haccess⟩, -⟩ := step_access hstep
      obtain ⟨henable, hdisable, hreset, hcanned, hlogged⟩ := hguard
      rcases bAccess_cases haccess with ⟨hreads, r, hread⟩ | ⟨hwrite, hs'⟩ | ⟨-, -, hs'⟩
      · exact read_line hline hread (hcanned hreads) (hlogged hreads)
      · rw [hs']
        apply write_line hline
        · intro hier
          exact henable _ (by rw [written_of_write hwrite, if_pos hier])
        · intro hidr
          exact hdisable _ (by rw [written_of_write hwrite, if_pos hidr])
        · rintro ⟨hcr, hset⟩
          apply hreset
          rw [UartEvent.Resets, written_of_write hwrite, if_pos hcr]
          exact hset
      · rw [hs']
        exact hline

/-! ## All runs -/

/-- In every run the registers read back what was last written to them; as long as no character
comes while another waits, all characters are served; and as long as what the code does not
refresh needs no refresh, the line is up exactly when an enabled condition holds. -/
theorem run_sound (modeRegister : BitVec 32) (canned : Option (List Byte × List Byte))
    (events : List UartEvent) (session : Session)
    (hrun : Guarded.exec Session.step (start modeRegister canned) events = some session) :
    ReadsBack session.uart modeRegister events ∧
      (Guarded.Meets Session.step NoOverrun (start modeRegister canned) events →
        Serves session) ∧
      (Guarded.Meets Session.step Refreshed (start modeRegister canned) events →
        session.uart.irq = session.uart.wanted) := by
  have hregisters : Holds (start modeRegister canned).uart 0x28 (modeRegister.setWidth 8) 3 0 := by
    have hcontrol : (0x28 : BitVec 32).setWidth 8 = (0x28 : Byte) &&& ~~~0x3 := by decide
    cases canned <;> exact ⟨hcontrol, rfl, rfl, rfl⟩
  have hheld : Held (start modeRegister canned).uart.logged
      (start modeRegister canned).waiting := by
    cases canned <;> exact rfl
  have hline : Line (start modeRegister canned).uart := by
    have hnothing (available : Bool) : false = wantedBy 0 available := by
      cases available <;> rfl
    cases canned <;> exact ⟨rfl, hnothing _⟩
  have hserves (hmeets : Guarded.Meets Session.step NoOverrun (start modeRegister canned) events) :
      Serves session :=
    (Guarded.exec_invariant (fun _ _ _ hinv hguard hnext => step_held hnext hguard hinv)
      hheld hmeets hrun).serves
  have hfollows (hmeets : Guarded.Meets Session.step Refreshed (start modeRegister canned)
      events) : Line session.uart :=
    Guarded.exec_invariant (fun _ _ _ hinv hguard hnext => step_line hnext hguard hinv)
      hline hmeets hrun
  exact ⟨(run_holds hrun hregisters).readsBack, hserves, fun hmeets => (hfollows hmeets).follows⟩

/-- The receive trigger is enabled while nothing is there, and then a character comes. -/
theorem run_sound_character :
    ∃ session, Guarded.exec Session.step (start 0 none)
        [.access (Bus.setMem32 0 0xE0001008 1), .input .stdin 0x61] = some session ∧
      session.waiting = [0x61] ∧ Serves session ∧ session.uart.irq = session.uart.wanted := by
  have hsound := run_sound 0 none
    [.access (Bus.setMem32 0 0xE0001008 1), .input .stdin 0x61] _ rfl
  refine ⟨_, rfl, rfl, hsound.2.1 ?_, hsound.2.2 ?_⟩
  · exact Guarded.meets_cons rfl trivial (Guarded.meets_cons rfl (fun _ => rfl) trivial)
  · refine Guarded.meets_cons rfl ⟨?_, ?_, ?_, ?_, ?_⟩ (Guarded.meets_cons rfl trivial trivial)
    · intro d hd
      cases hd
      rfl
    · intro d hd
      cases hd
    · intro hresets
      exact absurd hresets (by decide)
    · intro hreads
      exact absurd hreads (by decide)
    · intro hreads
      exact absurd hreads (by decide)

/-- The control register written with both resets reads back zero, and a character of the xterm is
dropped while the receiver is not enabled. -/
theorem not_reads_resets :
    (∃ session, Guarded.exec Session.step (start 0 none)
        [.access (Bus.setMem32 0 0xE0001000 3)] = some session ∧
      ¬Reads session.uart uart2Cr 3) ∧
    ∃ session, Guarded.exec Session.step (start 0 none) [.input .xterm 0x61] = some session ∧
      session.uart.testch = false := by
  refine ⟨⟨_, rfl, fun hreads => ?_⟩, _, rfl, rfl⟩
  obtain ⟨s', answer, haccess, hvalue, -⟩ := hreads (Bus.memRead 0xE0001000 2 0) rfl rfl
  have hanswer := congrArg (Option.map fun result => result.2.data 0) haccess
  simp only [Option.map_some, hvalue] at hanswer
  exact absurd hanswer (by decide)

end Prazor.Devices.Uart64
