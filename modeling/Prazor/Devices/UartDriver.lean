import Prazor.Core.Guarded
import Prazor.Core.Payload
import Prazor.Core.RingBuffer

/-!
# The interrupt-driven UART driver

The foreground writes and reads characters through two circular buffers that
the interrupt service routine empties and fills.  The routine may run between
any two statements of the foreground, which does not run before the routine
returns; what the device says of itself at each look is up to the device.
-/

namespace Prazor.Devices.Uart

/-- Where the foreground is; the list holds the characters `craft_wrch` has
still to write after the one in hand. -/
inductive Place where
  | outside
  /-- `craft_wrch` calls `dispatching_wrch` with the first character. -/
  | dispatching (chars : List Byte)
  /-- In the loop of `uart_polled_write`. -/
  | polling (d : Byte) (rest : List Byte)
  /-- In the loop of `uart_write_char`, which waits for room. -/
  | blocked (c : Byte) (rest : List Byte)
  /-- At `tx_buffer[tx_inptr] = c`. -/
  | storing (c : Byte) (rest : List Byte)
  /-- At `tx_inptr = (tx_inptr + 1) & 255`. -/
  | advancing (c : Byte) (rest : List Byte)
  /-- At `UART2_INT_ENABLE(UART2_INT_TX_EMPTY)`. -/
  | enabling (rest : List Byte)
  /-- In the loop of `uart_read_char`, which waits for a character. -/
  | empty
  /-- At `char r = rx_buffer[rx_outptr]`. -/
  | taking
  /-- At `rx_outptr = (rx_outptr + 1) & 255`, with `r` to return. -/
  | leaving (r : Byte)
  deriving DecidableEq

/-- Inside `uart_write_char`. -/
def Place.Writing : Place → Prop
  | .blocked _ _ | .storing _ _ | .advancing _ _ | .enabling _ => True
  | _ => False

/-- The characters a call has been given and has not put in the buffer. -/
def Place.inHand : Place → List Byte
  | .dispatching chars => chars
  | .polling d rest => d :: rest
  | .blocked c rest | .storing c rest | .advancing c rest => c :: rest
  | .enabling rest => rest
  | .outside | .empty | .taking | .leaving _ => []

/-- Where `uart_isr_routine` is, if it runs: at one of the two calls of its
loop, with `work_done`. -/
inductive Isr where
  | idle
  | receiving
  | transmitting (workDone : Bool)
  deriving DecidableEq

/-- The globals of the driver, the interrupt mask of the device, the places of
foreground and interrupt, and the four streams of characters so far. -/
structure State where
  rxBuffer : ℕ → Byte
  txBuffer : ℕ → Byte
  rxInptr : ℕ
  rxOutptr : ℕ
  txInptr : ℕ
  txOutptr : ℕ
  interruptsEnabled : Bool
  imr : Byte
  place : Place
  isr : Isr
  /-- Passed to `uart_write_char`, or made by `craft_wrch`. -/
  written : List Byte
  /-- Stored in the send register of the device. -/
  sent : List Byte
  /-- Read from the receive register of the device. -/
  delivered : List Byte
  /-- Returned by `uart_read_char`. -/
  returned : List Byte

/-- `UART2_INT_TX_EMPTY` and `UART2_INT_RX_EMPTY`. -/
def intTxEmpty : Byte := 0x08
def intRxEmpty : Byte := 0x02

/-- `UART2_INT_ENABLE`: the device sets the bits written. -/
def intEnable (imr mask : Byte) : Byte := imr ||| mask

/-- `UART2_INT_DISABLE`: the device clears the bits written. -/
def intDisable (imr mask : Byte) : Byte := imr &&& ~~~mask

/-- `(index + 1) & 255`. -/
def advance (index : ℕ) : ℕ := (index + 1) &&& 255

/-- After `uart_reset_and_enable`. -/
def resetAndEnable (rxBuffer txBuffer : ℕ → Byte) (imr : Byte) : State where
  rxBuffer := rxBuffer
  txBuffer := txBuffer
  rxInptr := 0
  rxOutptr := 0
  txInptr := 0
  txOutptr := 0
  interruptsEnabled := true
  imr := intEnable imr intRxEmpty
  place := .outside
  isr := .idle
  written := []
  sent := []
  delivered := []
  returned := []

/-- The calls the foreground makes. -/
inductive Call where
  | writeChar (c : Byte)
  | readChar
  | craftWrch (ch : Byte)

inductive Event where
  /-- The foreground calls a function of the driver. -/
  | call (call : Call)
  /-- It executes its next statement, or looks at the condition of its loop;
  the polled loop looks at the full bit of the device. -/
  | statement (txFull : Bool)
  /-- The interrupt is taken. -/
  | interrupt
  /-- `uart_rx_isr`, with the empty bit and the receive register. -/
  | rxIsr (rxEmpty : Bool) (data : Byte)
  /-- `uart_tx_isr`, with the full bit. -/
  | txIsr (txFull : Bool)

/-- What `craft_wrch` dispatches. -/
def craftWrch (ch : Byte) : List Byte :=
  if ch = 0x0A then [ch, 0x0D] else [ch]

def call (state : State) : Call → State
  | .writeChar c =>
      { state with place := .blocked c [], written := state.written ++ [c] }
  | .readChar => { state with place := .empty }
  | .craftWrch ch =>
      { state with
        place := .dispatching (craftWrch ch)
        written := state.written ++ craftWrch ch }

/-- Back from a write. -/
def resume : List Byte → Place
  | [] => .outside
  | chars => .dispatching chars

/-- The foreground goes on. -/
def statement (state : State) (txFull : Bool) : Option State :=
  match state.place with
  | .outside => none
  | .dispatching [] => none
  | .dispatching (ch :: rest) =>
      if state.interruptsEnabled then
        some { state with place := .blocked ch rest }
      else
        some { state with place := .polling ch rest }
  | .polling d rest =>
      if txFull then some state
      else some { state with place := resume rest, sent := state.sent ++ [d] }
  | .blocked c rest =>
      if advance state.txInptr = state.txOutptr then some state
      else some { state with place := .storing c rest }
  | .storing c rest =>
      some { state with
        txBuffer := Function.update state.txBuffer state.txInptr c
        place := .advancing c rest }
  | .advancing _ rest =>
      some { state with
        txInptr := advance state.txInptr
        place := .enabling rest }
  | .enabling rest =>
      some { state with
        imr := intEnable state.imr intTxEmpty
        place := resume rest }
  | .empty =>
      if state.rxInptr = state.rxOutptr then some state
      else some { state with place := .taking }
  | .taking =>
      some { state with place := .leaving (state.rxBuffer state.rxOutptr) }
  | .leaving r =>
      some { state with
        rxOutptr := advance state.rxOutptr
        place := .outside
        returned := state.returned ++ [r] }

/-- `uart_rx_isr`; the result is the state and `work_done`. -/
def rxIsr (state : State) (rxEmpty : Bool) (data : Byte) : State × Bool :=
  if rxEmpty then (state, false)
  else
    ({ state with
        rxBuffer := Function.update state.rxBuffer state.rxInptr data
        rxInptr := advance state.rxInptr
        delivered := state.delivered ++ [data] }, true)

/-- `uart_tx_isr`. -/
def txIsr (state : State) (txFull : Bool) : State × Bool :=
  if state.txInptr = state.txOutptr then
    ({ state with imr := intDisable state.imr intTxEmpty }, false)
  else if txFull then (state, false)
  else
    ({ state with
        sent := state.sent ++ [state.txBuffer state.txOutptr]
        txOutptr := advance state.txOutptr }, true)

/-- One event; `none` when it cannot happen. -/
def step (state : State) : Event → Option State
  | .call c =>
      if state.isr = .idle ∧ state.place = .outside then some (call state c)
      else none
  | .statement txFull =>
      if state.isr = .idle then statement state txFull else none
  | .interrupt =>
      if state.isr = .idle then some { state with isr := .receiving } else none
  | .rxIsr rxEmpty data =>
      match state.isr with
      | .receiving =>
          let (state, workDone) := rxIsr state rxEmpty data
          some { state with isr := .transmitting workDone }
      | _ => none
  | .txIsr txFull =>
      match state.isr with
      | .transmitting workDone =>
          let (state, more) := txIsr state txFull
          some { state with
            isr := if workDone || more then .receiving else .idle }
      | _ => none

/-! ## What the driver is for -/

/-- The characters waiting in each buffer. -/
def State.unsent (state : State) : List Byte :=
  RingBuffer.contents 256 state.txBuffer state.txInptr state.txOutptr

def State.unread (state : State) : List Byte :=
  RingBuffer.contents 256 state.rxBuffer state.rxInptr state.rxOutptr

/-- No character is lost, doubled or overtaken, and none waits unnoticed. -/
structure Intact (state : State) : Prop where
  transmitted : state.written =
    state.sent ++ state.unsent ++ state.place.inHand
  received : state.delivered = state.returned ++ state.unread
  txInptr_le : state.txInptr ≤ 255
  txOutptr_le : state.txOutptr ≤ 255
  rxInptr_le : state.rxInptr ≤ 255
  rxOutptr_le : state.rxOutptr ≤ 255
  noticed : state.unsent ≠ [] → ¬state.place.Writing →
    state.imr &&& intTxEmpty ≠ 0

/-- Where the foreground is says more. -/
def Place.Holds (state : State) : Place → Prop
  | .storing _ _ => RingBuffer.next 256 state.txInptr ≠ state.txOutptr
  | .advancing c _ => RingBuffer.next 256 state.txInptr ≠ state.txOutptr ∧
      state.txBuffer state.txInptr = c
  | .polling _ _ => False
  | .taking => state.rxInptr ≠ state.rxOutptr
  | .leaving r => state.rxInptr ≠ state.rxOutptr ∧
      state.rxBuffer state.rxOutptr = r
  | _ => True

structure Inv (state : State) : Prop extends Intact state where
  enabled : state.unsent ≠ [] → state.imr &&& intTxEmpty ≠ 0 ∨
    ∃ rest, state.place = .enabling rest
  interrupts : state.interruptsEnabled = true
  holds : state.place.Holds state

/-- The routine finds a received character only while the buffer has room. -/
def Room (state : State) : Event → Prop
  | .rxIsr rxEmpty _ => state.isr = .receiving → rxEmpty = false →
      state.unread.length < 255
  | _ => True

theorem advance_eq_next (index : ℕ) :
    advance index = RingBuffer.next 256 index :=
  Nat.and_two_pow_sub_one_eq_mod (index + 1) 8

theorem advance_le (index : ℕ) : advance index ≤ 255 := Nat.and_le_right

theorem enable_on (imr : Byte) : intEnable imr intTxEmpty &&& intTxEmpty ≠ 0 := by
  rw [intEnable, BitVec.and_or_distrib_right, BitVec.and_self]
  intro hzero
  have hbit := congrArg (fun word => word.getLsbD 3) hzero
  simp [intTxEmpty] at hbit

theorem resume_inHand (rest : List Byte) : (resume rest).inHand = rest := by
  cases rest <;> rfl

theorem resume_holds (rest : List Byte) (state : State) :
    (resume rest).Holds state := by
  cases rest <;> trivial

theorem resetAndEnable_inv (rxBuffer txBuffer : ℕ → Byte) (imr : Byte) :
    Inv (resetAndEnable rxBuffer txBuffer imr) := by
  have hnone : (resetAndEnable rxBuffer txBuffer imr).unsent = [] :=
    (RingBuffer.contents_eq_nil (Nat.zero_lt_succ 255) (Nat.zero_lt_succ 255)).mpr rfl
  have hunread : (resetAndEnable rxBuffer txBuffer imr).unread = [] :=
    (RingBuffer.contents_eq_nil (Nat.zero_lt_succ 255) (Nat.zero_lt_succ 255)).mpr rfl
  refine ⟨⟨?_, ?_, Nat.zero_le _, Nat.zero_le _, Nat.zero_le _, Nat.zero_le _,
    fun hsome => absurd hnone hsome⟩, fun hsome => absurd hnone hsome, rfl, trivial⟩
  · rw [hnone]
    rfl
  · rw [hunread]
    rfl

/-- But at the statement that enables the interrupt, it is enabled. -/
theorem Inv.on {state : State} (hinv : Inv state)
    (hplace : ∀ rest, state.place ≠ .enabling rest) (hsome : state.unsent ≠ []) :
    state.imr &&& intTxEmpty ≠ 0 := by
  rcases hinv.enabled hsome with hon | ⟨rest, hrest⟩
  · exact hon
  · exact absurd hrest (hplace rest)

/-- The foreground moves on and nothing else changes. -/
theorem Inv.goTo {state : State} (hinv : Inv state) {place : Place}
    (written : List Byte)
    (hwritten : written = state.sent ++ state.unsent ++ place.inHand)
    (henabled : ∀ rest, state.place ≠ .enabling rest)
    (hholds : place.Holds state) :
    Inv { state with place := place, written := written } := by
  have hon := hinv.on henabled
  refine ⟨⟨hwritten, hinv.received, hinv.txInptr_le, hinv.txOutptr_le,
    hinv.rxInptr_le, hinv.rxOutptr_le, fun hsome _ => hon hsome⟩,
    fun hsome => Or.inl (hon hsome), hinv.interrupts, ?_⟩
  cases place <;> exact hholds

theorem call_inv {state : State} (hinv : Inv state)
    (hplace : state.place = .outside) (c : Call) : Inv (call state c) := by
  have hwritten := hinv.transmitted
  rw [hplace] at hwritten
  have hnot : ∀ rest, state.place ≠ .enabling rest := by simp [hplace]
  cases c with
  | writeChar c =>
      refine hinv.goTo _ ?_ hnot trivial
      rw [hwritten]
      simp [Place.inHand]
  | readChar => exact hinv.goTo _ hwritten hnot trivial
  | craftWrch ch =>
      refine hinv.goTo _ ?_ hnot trivial
      rw [hwritten]
      simp [Place.inHand]

theorem statement_inv {state next : State} (hinv : Inv state) {txFull : Bool}
    (hstep : statement state txFull = some next) : Inv next := by
  have hwritten := hinv.transmitted
  have hholds := hinv.holds
  have hin : state.txInptr < 256 := Nat.lt_succ_of_le hinv.txInptr_le
  have hout : state.txOutptr < 256 := Nat.lt_succ_of_le hinv.txOutptr_le
  have hrin : state.rxInptr < 256 := Nat.lt_succ_of_le hinv.rxInptr_le
  have hrout : state.rxOutptr < 256 := Nat.lt_succ_of_le hinv.rxOutptr_le
  rw [statement] at hstep
  cases hplace : state.place with
  | outside => simp [hplace] at hstep
  | dispatching chars =>
      cases chars with
      | nil => simp [hplace] at hstep
      | cons ch rest =>
          simp only [hplace, if_pos hinv.interrupts, Option.some.injEq] at hstep
          rw [← hstep]
          rw [hplace] at hwritten
          exact hinv.goTo _ hwritten (by simp [hplace]) trivial
  | polling d rest =>
      rw [hplace] at hholds
      exact hholds.elim
  | blocked c rest =>
      simp only [hplace] at hstep
      split at hstep
      case isTrue => exact Option.some.inj hstep ▸ hinv
      case isFalse hroom =>
        rw [← Option.some.inj hstep]
        rw [hplace] at hwritten
        rw [advance_eq_next] at hroom
        exact hinv.goTo _ hwritten (by simp [hplace]) hroom
  | storing c rest =>
      simp only [hplace, Option.some.injEq] at hstep
      rw [← hstep]
      rw [hplace] at hwritten hholds
      have hsame : RingBuffer.contents 256
          (Function.update state.txBuffer state.txInptr c)
          state.txInptr state.txOutptr = state.unsent :=
        RingBuffer.contents_store state.txBuffer hin hout c
      have hon := hinv.on (by simp [hplace])
      refine ⟨⟨?_, hinv.received, hinv.txInptr_le, hinv.txOutptr_le,
        hinv.rxInptr_le, hinv.rxOutptr_le, fun hsome hout => ?_⟩, fun hsome => ?_,
        hinv.interrupts, hholds, Function.update_self _ _ _⟩
      · simp only [State.unsent, hsame]
        exact hwritten
      · exact absurd trivial hout
      · refine Or.inl (hon ?_)
        simpa only [State.unsent, hsame] using hsome
  | advancing c rest =>
      simp only [hplace, Option.some.injEq] at hstep
      rw [← hstep]
      rw [hplace] at hwritten hholds
      obtain ⟨hroom, hc⟩ := hholds
      refine ⟨⟨?_, hinv.received, advance_le _, hinv.txOutptr_le,
        hinv.rxInptr_le, hinv.rxOutptr_le, fun _ hout => absurd trivial hout⟩,
        fun _ => Or.inr ⟨rest, rfl⟩, hinv.interrupts, trivial⟩
      have hpush := RingBuffer.contents_push state.txBuffer hin hout hroom
      simp only [State.unsent, advance_eq_next, hpush, hc]
      rw [hwritten]
      simp [State.unsent, Place.inHand]
  | enabling rest =>
      simp only [hplace, Option.some.injEq] at hstep
      rw [← hstep]
      rw [hplace] at hwritten
      refine ⟨⟨?_, hinv.received, hinv.txInptr_le, hinv.txOutptr_le,
        hinv.rxInptr_le, hinv.rxOutptr_le, fun _ _ => enable_on _⟩,
        fun _ => Or.inl (enable_on _), hinv.interrupts, resume_holds rest _⟩
      rw [resume_inHand]
      exact hwritten
  | empty =>
      simp only [hplace] at hstep
      split at hstep
      case isTrue => exact Option.some.inj hstep ▸ hinv
      case isFalse hsome =>
        rw [← Option.some.inj hstep]
        rw [hplace] at hwritten
        exact hinv.goTo _ hwritten (by simp [hplace]) hsome
  | taking =>
      simp only [hplace, Option.some.injEq] at hstep
      rw [← hstep]
      rw [hplace] at hwritten hholds
      exact hinv.goTo _ hwritten (by simp [hplace]) ⟨hholds, rfl⟩
  | leaving r =>
      simp only [hplace, Option.some.injEq] at hstep
      rw [← hstep]
      rw [hplace] at hwritten hholds
      obtain ⟨hsome, hr⟩ := hholds
      have hon := hinv.on (by simp [hplace])
      refine ⟨⟨hwritten, ?_, hinv.txInptr_le, hinv.txOutptr_le,
        hinv.rxInptr_le, advance_le _, fun hsome _ => hon hsome⟩,
        fun hsome => Or.inl (hon hsome), hinv.interrupts, trivial⟩
      have hpop := RingBuffer.contents_pop state.rxBuffer hrin hrout hsome
      have hreceived := hinv.received
      rw [State.unread, hpop, hr] at hreceived
      simp only [State.unread, advance_eq_next]
      rw [hreceived]
      simp

theorem rxIsr_inv {state : State} (hinv : Inv state) {rxEmpty : Bool} {data : Byte}
    (hroom : rxEmpty = false → state.unread.length < 255) :
    Inv (rxIsr state rxEmpty data).1 := by
  have hin : state.rxInptr < 256 := Nat.lt_succ_of_le hinv.rxInptr_le
  have hout : state.rxOutptr < 256 := Nat.lt_succ_of_le hinv.rxOutptr_le
  cases rxEmpty with
  | true => exact hinv
  | false =>
      have hfree : RingBuffer.next 256 state.rxInptr ≠ state.rxOutptr := by
        have hlength := hroom rfl
        rw [State.unread, RingBuffer.length_contents,
          RingBuffer.count_eq hin hout] at hlength
        rw [RingBuffer.next_eq hin]
        split_ifs at hlength ⊢ <;> omega
      have hstore := RingBuffer.contents_store state.rxBuffer hin hout data
      have hpush := RingBuffer.contents_push
        (Function.update state.rxBuffer state.rxInptr data) hin hout hfree
      refine ⟨⟨hinv.transmitted, ?_, hinv.txInptr_le, hinv.txOutptr_le,
        advance_le _, hinv.rxOutptr_le, hinv.noticed⟩, hinv.enabled,
        hinv.interrupts, ?_⟩
      · simp only [rxIsr, Bool.false_eq_true, if_false, State.unread,
          advance_eq_next, hpush, hstore, Function.update_self]
        rw [hinv.received, State.unread, List.append_assoc]
      · have hholds := hinv.holds
        simp only [rxIsr, Bool.false_eq_true, if_false]
        cases hplace : state.place with
        | taking =>
            simp only [Place.Holds, advance_eq_next]
            exact hfree
        | leaving r =>
            rw [hplace] at hholds
            simp only [Place.Holds, advance_eq_next]
            refine ⟨hfree, ?_⟩
            rw [Function.update_of_ne hholds.1.symm]
            exact hholds.2
        | _ => 
            rw [hplace] at hholds
            exact hholds

theorem txIsr_inv {state : State} (hinv : Inv state) (txFull : Bool) :
    Inv (txIsr state txFull).1 := by
  have hin : state.txInptr < 256 := Nat.lt_succ_of_le hinv.txInptr_le
  have hout : state.txOutptr < 256 := Nat.lt_succ_of_le hinv.txOutptr_le
  rw [txIsr]
  split
  case isTrue hempty =>
    -- only an empty queue turns the interrupt off
    have hnone : state.unsent = [] := (RingBuffer.contents_eq_nil hin hout).mpr hempty
    refine ⟨⟨hinv.transmitted, hinv.received, hinv.txInptr_le, hinv.txOutptr_le,
      hinv.rxInptr_le, hinv.rxOutptr_le, fun hsome => absurd hnone hsome⟩,
      fun hsome => absurd hnone hsome, hinv.interrupts, ?_⟩
    have hholds := hinv.holds
    cases hplace : state.place <;> rw [hplace] at hholds <;> exact hholds
  case isFalse hsome =>
    split
    case isTrue => exact hinv
    case isFalse =>
      have hpop := RingBuffer.contents_pop state.txBuffer hin hout hsome
      have hunsent : state.unsent ≠ [] := by
        rw [State.unsent, hpop]
        exact List.cons_ne_nil _ _
      refine ⟨⟨?_, hinv.received, hinv.txInptr_le, advance_le _,
        hinv.rxInptr_le, hinv.rxOutptr_le, fun _ hwriting => hinv.noticed hunsent hwriting⟩,
        fun _ => hinv.enabled hunsent, hinv.interrupts, ?_⟩
      · rw [hinv.transmitted]
        simp only [State.unsent, advance_eq_next, hpop]
        simp
      · have hmore : RingBuffer.next 256 state.txInptr ≠ state.txOutptr →
            RingBuffer.next 256 state.txInptr ≠ RingBuffer.next 256 state.txOutptr := by
          intro _ heq
          rw [RingBuffer.next_eq hin, RingBuffer.next_eq hout] at heq
          split_ifs at heq <;> omega
        have hholds := hinv.holds
        cases hplace : state.place with
        | storing c rest =>
            rw [hplace] at hholds
            simp only [Place.Holds, advance_eq_next]
            exact hmore hholds
        | advancing c rest =>
            rw [hplace] at hholds
            simp only [Place.Holds, advance_eq_next]
            exact ⟨hmore hholds.1, hholds.2⟩
        | _ =>
            rw [hplace] at hholds
            exact hholds

/-- Where the interrupt routine is does not matter to the characters. -/
theorem Inv.setIsr {state : State} (hinv : Inv state) (isr : Isr) :
    Inv { state with isr := isr } := by
  refine ⟨⟨hinv.transmitted, hinv.received, hinv.txInptr_le, hinv.txOutptr_le,
    hinv.rxInptr_le, hinv.rxOutptr_le, hinv.noticed⟩, hinv.enabled,
    hinv.interrupts, ?_⟩
  have hholds := hinv.holds
  cases hplace : state.place <;> rw [hplace] at hholds <;> exact hholds

/-- Every step that finds room keeps the invariant. -/
theorem step_inv {state next : State} (hinv : Inv state) {event : Event}
    (hroom : Room state event) (hstep : step state event = some next) :
    Inv next := by
  cases event with
  | call c =>
      rw [step] at hstep
      split at hstep
      case isTrue hplace => exact Option.some.inj hstep ▸ call_inv hinv hplace.2 c
      case isFalse => simp at hstep
  | statement txFull =>
      rw [step] at hstep
      split at hstep
      case isTrue => exact statement_inv hinv hstep
      case isFalse => simp at hstep
  | interrupt =>
      rw [step] at hstep
      split at hstep
      case isTrue => exact Option.some.inj hstep ▸ hinv.setIsr .receiving
      case isFalse => simp at hstep
  | rxIsr rxEmpty data =>
      rw [step] at hstep
      split at hstep
      case h_1 hisr =>
        rw [← Option.some.inj hstep]
        exact (rxIsr_inv hinv (hroom hisr)).setIsr _
      case h_2 => simp at hstep
  | txIsr txFull =>
      rw [step] at hstep
      split at hstep
      case h_1 =>
        rw [← Option.some.inj hstep]
        exact (txIsr_inv hinv txFull).setIsr _
      case h_2 => simp at hstep

/-- One more character than the buffer has room for wipes it: the condition on
the interrupt routine cannot be dropped. -/
theorem not_intact_of_overrun {state next : State} (hinv : Inv state) {data : Byte}
    (hisr : state.isr = .receiving) (hfull : 255 ≤ state.unread.length)
    (hstep : step state (.rxIsr false data) = some next) : ¬Intact next := by
  have hin : state.rxInptr < 256 := Nat.lt_succ_of_le hinv.rxInptr_le
  have hout : state.rxOutptr < 256 := Nat.lt_succ_of_le hinv.rxOutptr_le
  have hmeet : advance state.rxInptr = state.rxOutptr := by
    rw [State.unread, RingBuffer.length_contents,
      RingBuffer.count_eq hin hout] at hfull
    rw [advance_eq_next, RingBuffer.next_eq hin]
    split_ifs at hfull ⊢ <;> omega
  simp only [step, hisr, Option.some.injEq] at hstep
  subst hstep
  intro hintact
  have hreceived := hintact.received
  have hnone : RingBuffer.contents 256
      (Function.update state.rxBuffer state.rxInptr data)
      (advance state.rxInptr) state.rxOutptr = [] :=
    (RingBuffer.contents_eq_nil (hmeet ▸ hout) hout).mpr hmeet
  simp only [rxIsr, Bool.false_eq_true, if_false, State.unread, hnone,
    List.append_nil] at hreceived
  -- yet the characters returned are those delivered before the unread ones
  have hlength := congrArg List.length hreceived
  rw [hinv.received] at hlength
  simp at hlength

/-- The driver keeps every character of a run in which the interrupt routine
never finds a received one with 255 unread. -/
theorem intact_of_room (rxBuffer txBuffer : ℕ → Byte) (imr : Byte)
    (events : List Event) (state : State)
    (hroom : Guarded.Meets step Room (resetAndEnable rxBuffer txBuffer imr) events)
    (hrun : Guarded.exec step (resetAndEnable rxBuffer txBuffer imr) events =
      some state) : Intact state := by
  have hkeeps : ∀ state event next, Inv state → Room state event →
      step state event = some next → Inv next :=
    fun _ _ _ hinv hroom hstep => step_inv hinv hroom hstep
  exact (Guarded.exec_invariant hkeeps
    (resetAndEnable_inv rxBuffer txBuffer imr) hroom hrun).toIntact

/-- A character comes in and is read. -/
theorem intact_of_room_one :
    ∃ state : State,
      Guarded.exec step (resetAndEnable (fun _ => 0) (fun _ => 0) 0)
        [.interrupt, .rxIsr false 0x41, .txIsr true, .rxIsr true 0, .txIsr true,
          .call .readChar, .statement true, .statement true, .statement true] =
          some state ∧ state.returned = [0x41] ∧ Intact state := by
  refine ⟨_, rfl, rfl, ?_⟩
  refine intact_of_room (fun _ => 0) (fun _ => 0) 0
    [.interrupt, .rxIsr false 0x41, .txIsr true, .rxIsr true 0, .txIsr true,
      .call .readChar, .statement true, .statement true, .statement true] _ ?_ rfl
  refine Guarded.meets_cons rfl trivial ?_
  refine Guarded.meets_cons rfl (fun _ _ => by decide) ?_
  refine Guarded.meets_cons rfl trivial ?_
  refine Guarded.meets_cons rfl (fun _ => by decide) ?_
  refine Guarded.meets_cons rfl trivial ?_
  refine Guarded.meets_cons rfl trivial ?_
  refine Guarded.meets_cons rfl trivial ?_
  refine Guarded.meets_cons rfl trivial ?_
  exact Guarded.meets_cons rfl trivial trivial

/-- The loop of the interrupt routine while the device has characters and the
foreground has nothing to send. -/
def flood : ℕ → List Event
  | 0 => []
  | count + 1 => .rxIsr false 0x41 :: .txIsr true :: flood count

theorem exec_flood (count : ℕ) {state : State} (hisr : state.isr = .receiving)
    (htx : state.txInptr = state.txOutptr) :
    ∃ final, Guarded.exec step state (flood count) = some final ∧
      final.rxInptr = advance^[count] state.rxInptr ∧
      final.rxOutptr = state.rxOutptr ∧
      final.delivered.length = state.delivered.length + count ∧
      final.returned = state.returned := by
  induction count generalizing state with
  | zero => exact ⟨state, rfl, rfl, rfl, rfl, rfl⟩
  | succ count ih =>
      have hfirst : ∃ next, Guarded.exec step state
            [.rxIsr false 0x41, .txIsr true] = some next ∧
          next.isr = .receiving ∧ next.txInptr = next.txOutptr ∧
          next.rxInptr = advance state.rxInptr ∧
          next.rxOutptr = state.rxOutptr ∧
          next.delivered.length = state.delivered.length + 1 ∧
          next.returned = state.returned := by
        simp only [Guarded.exec_cons, step, hisr, rxIsr, Bool.false_eq_true,
          if_false, Option.bind_some, txIsr, htx, if_true, Guarded.exec_nil]
        exact ⟨_, rfl, rfl, rfl, rfl, rfl, by simp, rfl⟩
      obtain ⟨next, hnext, hisr', htx', hin, hout, hdelivered, hreturned⟩ := hfirst
      obtain ⟨final, hfinal, hin', hout', hdelivered', hreturned'⟩ := ih hisr' htx'
      refine ⟨final, ?_, ?_, hout'.trans hout, ?_, hreturned'.trans hreturned⟩
      · rw [show flood (count + 1) = [.rxIsr false 0x41, .txIsr true] ++ flood count
          from rfl, Guarded.exec_append, hnext]
        exact hfinal
      · rw [hin', hin, Function.iterate_succ_apply]
      · omega

theorem iterate_advance (count : ℕ) : advance^[count] 0 = count % 256 := by
  induction count with
  | zero => rfl
  | succ count ih =>
      rw [Function.iterate_succ_apply', ih, advance_eq_next, RingBuffer.next,
        Nat.mod_add_mod]

/-- With 256 characters in and none read all of them are gone. -/
theorem not_intact_flood :
    ¬∀ (rxBuffer txBuffer : ℕ → Byte) (imr : Byte) (events : List Event)
      (state : State),
      Guarded.exec step (resetAndEnable rxBuffer txBuffer imr) events = some state →
        Intact state := by
  intro hclaim
  let taken : State :=
    { resetAndEnable (fun _ => 0) (fun _ => 0) 0 with isr := .receiving }
  obtain ⟨final, hfinal, hin, hout, hdelivered, hreturned⟩ :=
    exec_flood 256 (show taken.isr = .receiving from rfl) rfl
  have hrun : Guarded.exec step (resetAndEnable (fun _ => 0) (fun _ => 0) 0)
      (.interrupt :: flood 256) = some final :=
    Guarded.exec_cons_eq_some.mpr ⟨taken, rfl, hfinal⟩
  have hintact := hclaim (fun _ => 0) (fun _ => 0) 0 _ final hrun
  have hnone : final.unread = [] := by
    refine (RingBuffer.contents_eq_nil ?_ ?_).mpr ?_
    · exact Nat.lt_succ_of_le hintact.rxInptr_le
    · exact Nat.lt_succ_of_le hintact.rxOutptr_le
    · rw [hin, hout]
      exact iterate_advance 256
  have hlost : final.delivered = [] := by
    rw [hintact.received, hnone, hreturned]
    rfl
  rw [hlost] at hdelivered
  exact absurd hdelivered (by simp)

end Prazor.Devices.Uart
