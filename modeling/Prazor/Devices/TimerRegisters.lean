import Prazor.Devices.ArmTimers

/-!
# Reading back the registers of the timers

A register that can be written and read gives back what was last written to it,
unless its read looks at another one: the intervals are read one element too far,
and the registers of the global timer are never reached.  The restart bit of a counter
control is cleared by the thread of the timer.
-/

namespace Prazor.Devices.Timers

open Prazor.Tlm Prazor.Bytes

/-! ## The triple timer counter -/

/-- The registers that can be written and read. -/
inductive TtcRegister where
  | clockControl (i : Fin 3)
  | counterControl (i : Fin 3)
  | interval (i : Fin 3)
  | matchValue (n i : Fin 3)
  | interruptEnable (i : Fin 3)
  deriving DecidableEq

def TtcRegister.offset : TtcRegister → ℕ
  | .clockControl i => 0x0 + 4 * i
  | .counterControl i => 0xC + 4 * i
  | .interval i => 0x24 + 4 * i
  | .matchValue n i => 0x30 + 4 * (3 * n + i)
  | .interruptEnable i => 0x60 + 4 * i

/-- The bits of a word that a register keeps. -/
def TtcRegister.kept (data : Word) : TtcRegister → Word
  | .interval _ | .matchValue _ _ => (data.setWidth 16).setWidth 32
  | _ => (data.setWidth 8).setWidth 32

/-- What a register holds. -/
def ArmTtc.value (ttc : ArmTtc) : TtcRegister → Word
  | .clockControl i => (ttc.clockControl i).setWidth 32
  | .counterControl i => (ttc.counterControl i).setWidth 32
  | .interval i => (ttc.intervalCounter i).setWidth 32
  | .matchValue n i => (ttc.matchCounter n i).setWidth 32
  | .interruptEnable i => (ttc.interruptEnable i).setWidth 32

/-- The register that a write with this offset is for. -/
def ttcRegisterAt : ℕ → Option TtcRegister
  | 0x0 => some (.clockControl 0)
  | 0x4 => some (.clockControl 1)
  | 0x8 => some (.clockControl 2)
  | 0xC => some (.counterControl 0)
  | 0x10 => some (.counterControl 1)
  | 0x14 => some (.counterControl 2)
  | 0x24 => some (.interval 0)
  | 0x28 => some (.interval 1)
  | 0x2C => some (.interval 2)
  | 0x30 => some (.matchValue 0 0)
  | 0x34 => some (.matchValue 0 1)
  | 0x38 => some (.matchValue 0 2)
  | 0x3C => some (.matchValue 1 0)
  | 0x40 => some (.matchValue 1 1)
  | 0x44 => some (.matchValue 1 2)
  | 0x48 => some (.matchValue 2 0)
  | 0x4C => some (.matchValue 2 1)
  | 0x50 => some (.matchValue 2 2)
  | 0x60 => some (.interruptEnable 0)
  | 0x64 => some (.interruptEnable 1)
  | 0x68 => some (.interruptEnable 2)
  | _ => none

section Ttc

variable {ttc next : ArmTtc} {period offset : ℕ} {data : Word}

theorem offset_of_ttcRegisterAt {register : TtcRegister}
    (hregister : ttcRegisterAt offset = some register) : offset = register.offset := by
  unfold ttcRegisterAt at hregister
  split at hregister <;> cases hregister <;> rfl

/-- A write to anything else is refused. -/
theorem write_of_none (hregister : ttcRegisterAt offset = none) :
    ttc.write period offset data = none := by
  unfold ArmTtc.write
  split <;> first | rfl | exact nomatch hregister

section Writes

variable (ttc period data) (n i : Fin 3)

theorem write_counterControl :
    ttc.write period (TtcRegister.counterControl i).offset data =
      some { ttc with
        counterControl := Function.update ttc.counterControl i (data.setWidth 8) } := by
  fin_cases i <;> rfl

theorem write_interval :
    ttc.write period (TtcRegister.interval i).offset data =
      some { ttc with
        intervalCounter := Function.update ttc.intervalCounter i (data.setWidth 16) } := by
  fin_cases i <;> rfl

theorem write_matchValue :
    ttc.write period (TtcRegister.matchValue n i).offset data =
      some { ttc with
        matchCounter := Function.update ttc.matchCounter n
          (Function.update (ttc.matchCounter n) i (data.setWidth 16)) } := by
  fin_cases n <;> fin_cases i <;> rfl

theorem write_interruptEnable :
    ttc.write period (TtcRegister.interruptEnable i).offset data =
      some { ttc with
        interruptEnable := Function.update ttc.interruptEnable i (data.setWidth 8) } := by
  fin_cases i <;> rfl

theorem clockControl_equation :
    ttc.write period (TtcRegister.clockControl i).offset data =
      if data.getLsbD 6 = false ∧ data.getLsbD 5 = false then
        if data.getLsbD 0 then
          if ttc.timerInterval i = 0 then
            some { ttc with
              clockControl := Function.update ttc.clockControl i (data.setWidth 8)
              timerInterval := Function.update ttc.timerInterval i (period * prescaler data) }
          else none
        else some { ttc with
          clockControl := Function.update ttc.clockControl i (data.setWidth 8) }
      else none := by
  fin_cases i <;> rfl

/-- A write of a clock control register that is accepted. -/
theorem write_clockControl
    (hwrite : ttc.write period (TtcRegister.clockControl i).offset data = some next) :
    ∃ timerInterval, next = { ttc with
      clockControl := Function.update ttc.clockControl i (data.setWidth 8)
      timerInterval := timerInterval } := by
  rw [clockControl_equation] at hwrite
  split_ifs at hwrite
  · exact ⟨_, (Option.some.inj hwrite).symm⟩
  · exact ⟨ttc.timerInterval, (Option.some.inj hwrite).symm⟩

end Writes

theorem widened_update {width : ℕ} (array : Fin 3 → BitVec width) (i j : Fin 3)
    (value : BitVec width) :
    (Function.update array i value j).setWidth 32 =
      if j = i then value.setWidth 32 else (array j).setWidth 32 := by
  rw [Function.update_apply]
  split_ifs <;> rfl

/-- A write that is accepted changes the register it is for, and no other. -/
theorem value_write (hwrite : ttc.write period offset data = some next) :
    ∃ register, ttcRegisterAt offset = some register ∧
      ∀ other, next.value other =
        if other = register then other.kept data else ttc.value other := by
  cases hregister : ttcRegisterAt offset with
  | none =>
      rw [write_of_none hregister] at hwrite
      cases hwrite
  | some register =>
      refine ⟨register, rfl, fun other => ?_⟩
      rw [offset_of_ttcRegisterAt hregister] at hwrite
      cases register with
      | clockControl i =>
          obtain ⟨timerInterval, rfl⟩ := write_clockControl ttc period data i hwrite
          cases other <;>
            simp [ArmTtc.value, TtcRegister.kept, widened_update]
      | counterControl i =>
          rw [write_counterControl] at hwrite
          cases hwrite
          cases other <;>
            simp [ArmTtc.value, TtcRegister.kept, widened_update]
      | interval i =>
          rw [write_interval] at hwrite
          cases hwrite
          cases other <;>
            simp [ArmTtc.value, TtcRegister.kept, widened_update]
      | matchValue n i =>
          rw [write_matchValue] at hwrite
          cases hwrite
          cases other with
          | matchValue n' i' =>
              by_cases hn : n' = n
              · subst hn
                simp [ArmTtc.value, TtcRegister.kept, widened_update]
              · simp [ArmTtc.value, hn]
          | _ => simp [ArmTtc.value]
      | interruptEnable i =>
          rw [write_interruptEnable] at hwrite
          cases hwrite
          cases other <;>
            simp [ArmTtc.value, TtcRegister.kept, widened_update]

/-- A write of a register is refused only by the checks of a clock control. -/
theorem refused_write {register : TtcRegister}
    (hwrite : ttc.write period register.offset data = none) :
    ∃ i, register = .clockControl i ∧
      (data.getLsbD 6 ∨ data.getLsbD 5 ∨ data.getLsbD 0 ∧ ttc.timerInterval i ≠ 0) := by
  cases register with
  | clockControl i =>
      refine ⟨i, rfl, ?_⟩
      rw [clockControl_equation] at hwrite
      split_ifs at hwrite with hmode henabled hinterval
      · exact .inr (.inr ⟨henabled, hinterval⟩)
      · cases h6 : data.getLsbD 6 with
        | true => exact .inl rfl
        | false =>
            refine .inr (.inl ?_)
            rwa [h6, eq_self, true_and, Bool.not_eq_false] at hmode
  | counterControl i => exact nomatch (write_counterControl ttc period data i).symm.trans hwrite
  | interval i => exact nomatch (write_interval ttc period data i).symm.trans hwrite
  | matchValue n i => exact nomatch (write_matchValue ttc period data n i).symm.trans hwrite
  | interruptEnable i =>
      exact nomatch (write_interruptEnable ttc period data i).symm.trans hwrite

/-! ### The reads -/

/-- The register a read of this one looks at: an interval is read from the next
element of the array. -/
def TtcRegister.source : TtcRegister → Option TtcRegister
  | .interval i => if h : i.val + 1 < 3 then some (.interval ⟨i + 1, h⟩) else none
  | register => some register

theorem read_offset (ttc : ArmTtc) (now : Fin 3 → Word) (register : TtcRegister)
    (payload : Payload) :
    ttc.read now register.offset payload =
      register.source.map fun source => (ttc, copied payload (ttc.value source)) := by
  cases register with
  | matchValue n i => fin_cases n <;> fin_cases i <;> rfl
  | clockControl i => fin_cases i <;> rfl
  | counterControl i => fin_cases i <;> rfl
  | interval i => fin_cases i <;> rfl
  | interruptEnable i => fin_cases i <;> rfl

/-! ### Runs -/

/-- A write that reaches the timers, with the period of their clock. -/
structure TimerWrite where
  period : ℕ
  payload : Payload
  command : payload.command = .write

/-- The register a write is for, with its data. -/
def TimerWrite.target (write : TimerWrite) : Option (TtcRegister × Word) :=
  (ttcRegisterAt (writeAddress write.payload - ttc0BaseAddr).toNat).map fun register =>
    (register, load32 write.payload.data)

/-- The data a write has for a register. -/
def TimerWrite.dataFor (register : TtcRegister) (write : TimerWrite) : Option Word :=
  match write.target with
  | some (target, data) => if target = register then some data else none
  | none => none

/-- What can happen to the timers.  A thread starts only after a write has woken it; here
it may at any time, so that its start comes at every place in a run. -/
inductive TtcEvent where
  | write (write : TimerWrite)
  | start (id : Fin 3)

def ttcStep (ttc : ArmTtc) : TtcEvent → Option ArmTtc
  | .write write => (ttc.bAccess (fun _ => 0) write.period write.payload).map Prod.fst
  | .start id => ttc.runTimer id

/-- The data an event writes to a register. -/
def TtcEvent.dataFor (register : TtcRegister) : TtcEvent → Option Word
  | .write sent => sent.dataFor register
  | .start _ => none

/-- What an event makes of the restart bit of a counter control. -/
def TtcEvent.restartBit (i : Fin 3) : TtcEvent → Option Bool
  | .write sent => (sent.dataFor (.counterControl i)).map fun data => data.getLsbD 4
  | .start id => if id = i then some false else none

/-- What a register should hold after a list of events. -/
def written (start : ArmTtc) (events : List TtcEvent) (register : TtcRegister) : Word :=
  (Guarded.latest (TtcEvent.dataFor register) events).elim (start.value register)
    fun data => register.kept data

/-- The restart bit after a list of events. -/
def restartBit (start : ArmTtc) (events : List TtcEvent) (i : Fin 3) : Bool :=
  (Guarded.latest (TtcEvent.restartBit i) events).elim
    ((start.value (.counterControl i)).getLsbD 4) id

/-- The bits of a register that only writes change. -/
def TtcRegister.stable : TtcRegister → Word
  | .counterControl _ => ~~~0x10
  | _ => BitVec.allOnes 32

theorem write_of_ttcStep {write : TimerWrite}
    (hstep : ttcStep ttc (.write write) = some next) :
    ttc.write write.period (writeAddress write.payload - ttc0BaseAddr).toNat
      (load32 write.payload.data) = some next := by
  rw [ttcStep, ArmTtc.bAccess, write.command] at hstep
  dsimp only at hstep
  split_ifs at hstep
  · simpa using hstep
  · cases hstep

theorem setWidth_and_restart (control : BitVec 8) :
    (control &&& ~~~0x10).setWidth 32 = control.setWidth 32 &&& ~~~(0x10 : Word) := by
  apply BitVec.eq_of_getLsbD_eq
  intro bit hbit
  simp only [BitVec.getLsbD_and, BitVec.getLsbD_setWidth]
  by_cases hlow : bit < 8
  · interval_cases bit <;> simp
  · simp [BitVec.getLsbD_of_ge control bit (not_lt.mp hlow)]

/-- A start changes the restart bit of its counter control only. -/
theorem value_runTimer {id : Fin 3} (hrun : ttc.runTimer id = some next)
    (register : TtcRegister) :
    next.value register =
      if register = .counterControl id then ttc.value register &&& ~~~0x10
      else ttc.value register := by
  unfold ArmTtc.runTimer at hrun
  split_ifs at hrun
  cases hrun
  cases register with
  | counterControl i =>
      simp only [ArmTtc.value, widened_update, TtcRegister.counterControl.injEq]
      split_ifs with hi
      · rw [hi]
        exact setWidth_and_restart _
      · rfl
  | _ => rfl

/-- A written register has the data of the write. -/
theorem value_writeEvent {write : TimerWrite}
    (hstep : ttcStep ttc (.write write) = some next) (register : TtcRegister) :
    next.value register =
      (write.dataFor register).elim (ttc.value register) fun data => register.kept data := by
  obtain ⟨target, htarget, hvalue⟩ := value_write (write_of_ttcStep hstep)
  rw [hvalue, TimerWrite.dataFor, TimerWrite.target, htarget]
  by_cases heq : register = target
  · simp [heq]
  · simp [heq, Ne.symm heq]

/-- Every register holds what was last written to it, but for the restart bits. -/
theorem stable_exec {start final : ArmTtc} {events : List TtcEvent}
    (hrun : Guarded.exec ttcStep start events = some final) (register : TtcRegister) :
    final.value register &&& register.stable =
      written start events register &&& register.stable := by
  have hstep : ∀ ttc event next, True → ttcStep ttc event = some next →
      next.value register &&& register.stable =
        (event.dataFor register).elim (ttc.value register &&& register.stable)
          fun data => register.kept data &&& register.stable := by
    intro ttc event next _ hstep
    cases event with
    | write write =>
        rw [value_writeEvent hstep, TtcEvent.dataFor]
        cases write.dataFor register <;> rfl
    | start id =>
        rw [value_runTimer hstep, TtcEvent.dataFor, Option.elim_none]
        split_ifs with hregister
        · rw [hregister, TtcRegister.stable, BitVec.and_assoc, BitVec.and_self]
        · rfl
  rw [Guarded.exec_latest hstep (Guarded.meets_of_forall start fun _ _ => trivial) hrun, written]
  cases Guarded.latest (TtcEvent.dataFor register) events <;> rfl

theorem kept_restartBit (data : Word) (i : Fin 3) :
    ((TtcRegister.counterControl i).kept data).getLsbD 4 = data.getLsbD 4 := by
  simp [TtcRegister.kept]

theorem restartBit_exec {start final : ArmTtc} {events : List TtcEvent}
    (hrun : Guarded.exec ttcStep start events = some final) (i : Fin 3) :
    (final.value (.counterControl i)).getLsbD 4 = restartBit start events i := by
  have hstep : ∀ (ttc : ArmTtc) event next, True → ttcStep ttc event = some next →
      (next.value (.counterControl i)).getLsbD 4 =
        (TtcEvent.restartBit i event).elim ((ttc.value (.counterControl i)).getLsbD 4) id := by
    intro ttc event next _ hstep
    cases event with
    | write write =>
        rw [value_writeEvent hstep, TtcEvent.restartBit]
        cases write.dataFor (.counterControl i) with
        | none => rfl
        | some data => exact kept_restartBit data i
    | start id =>
        rw [value_runTimer hstep, TtcEvent.restartBit]
        by_cases hid : id = i
        · rw [hid, if_pos rfl, if_pos rfl, BitVec.getLsbD_and]
          exact Bool.and_false _
        · rw [if_neg hid, if_neg fun heq => hid (TtcRegister.counterControl.inj heq).symm]
          rfl
  exact Guarded.exec_latest hstep (Guarded.meets_of_forall start fun _ _ => trivial) hrun

/-- A register has what was last written to it, for a counter control exactly if the restart
bit is as it was written. -/
theorem value_eq_written_iff {start final : ArmTtc} {events : List TtcEvent}
    (hrun : Guarded.exec ttcStep start events = some final) (register : TtcRegister) :
    final.value register = written start events register ↔
      ∀ i, register = .counterControl i →
        restartBit start events i = (written start events register).getLsbD 4 := by
  have hstable := stable_exec hrun register
  constructor
  · rintro heq i rfl
    rw [← restartBit_exec hrun i, heq]
  · intro hrestart
    cases register with
    | counterControl i =>
        apply BitVec.eq_of_getLsbD_eq
        intro bit hbit
        by_cases hfour : bit = 4
        · rw [hfour, restartBit_exec hrun i, hrestart i rfl]
        · have hmask : (TtcRegister.counterControl i).stable.getLsbD bit = true := by
            change (~~~(0x10 : Word)).getLsbD bit = true
            interval_cases bit <;> first | rfl | exact absurd rfl hfour
          have hbit' := congrArg (fun word : Word => word.getLsbD bit) hstable
          simpa only [BitVec.getLsbD_and, hmask, Bool.and_true] using hbit'
    | _ => simpa only [TtcRegister.stable, BitVec.and_allOnes] using hstable

/-- A read of a register gives this word, whatever the counters are and whatever the
buffer held. -/
def ReadsBack (ttc : ArmTtc) (register : TtcRegister) (word : Word) : Prop :=
  ∀ (now : Fin 3 → Word) (period : ℕ) (payload : Payload), payload.command = .read →
    payload.dataLength = 4 →
    payload.address.setWidth 32 = ttc0BaseAddr + BitVec.ofNat 32 register.offset →
    ttc.bAccess now period payload =
      some (ttc, { copied payload word with response := .ok })

/-- A read of the word at an address into a buffer. -/
def readOf (address : Word) (stale : Buffer) : Payload where
  command := .read
  address := address.setWidth 64
  data := stale
  dataLength := 4
  byteEnable := none
  byteEnableLength := 0
  response := .incomplete
  llsc := none

theorem offset_lt (register : TtcRegister) : register.offset < 2 ^ 32 := by
  cases register <;> simp only [TtcRegister.offset] <;> omega

/-- A read of a register, by the register it looks at. -/
theorem bAccess_read (now : Fin 3 → Word) (period : ℕ) {payload : Payload}
    {register : TtcRegister} (hcommand : payload.command = .read)
    (hlength : payload.dataLength = 4)
    (haddress : payload.address.setWidth 32 =
      ttc0BaseAddr + BitVec.ofNat 32 register.offset) :
    ttc.bAccess now period payload =
      register.source.map fun source =>
        (ttc, { copied payload (ttc.value source) with response := .ok }) := by
  have hoffset : (payload.address.setWidth 32 - ttc0BaseAddr).toNat = register.offset := by
    rw [haddress, BitVec.add_comm, BitVec.add_sub_cancel, BitVec.toNat_ofNat,
      Nat.mod_eq_of_lt (offset_lt register)]
  rw [ArmTtc.bAccess, hcommand]
  simp only [hlength, if_true, hoffset, read_offset, Option.map_map]
  rfl

theorem readsBack_iff (register : TtcRegister) (word : Word) :
    ReadsBack ttc register word ↔
      ∃ source, register.source = some source ∧ ttc.value source = word := by
  constructor
  · intro hread
    have haddress : ((ttc0BaseAddr + BitVec.ofNat 32 register.offset).setWidth 64).setWidth 32 =
        ttc0BaseAddr + BitVec.ofNat 32 register.offset := by
      rw [BitVec.setWidth_setWidth_of_le _ (by decide), BitVec.setWidth_eq]
    have hgiven := hread (fun _ => 0) 0
      (readOf (ttc0BaseAddr + BitVec.ofNat 32 register.offset) fun _ => 0) rfl rfl haddress
    rw [bAccess_read _ _ rfl rfl haddress] at hgiven
    obtain ⟨source, hsource, heq⟩ := Option.map_eq_some_iff.mp hgiven
    refine ⟨source, hsource, ?_⟩
    have hdata := congrArg (fun answer : ArmTtc × Payload => load32 answer.2.data) heq
    simpa [copied, load32_memcpy] using hdata
  · rintro ⟨source, hsource, rfl⟩ now period payload hcommand hlength haddress
    rw [bAccess_read now period hcommand hlength haddress, hsource, Option.map_some]

end Ttc

/-! ## The global timer -/

/-- The registers of a core that can be written and read. -/
inductive GlbtRegister where
  | control
  | comparatorLow
  | comparatorHigh
  | autoIncrementValue
  deriving DecidableEq

def GlbtRegister.offset : GlbtRegister → ℕ
  | .control => 0x8
  | .comparatorLow => 0x10
  | .comparatorHigh => 0x14
  | .autoIncrementValue => 0x18

variable {nCpus : ℕ} {glbt : ArmGlbt nCpus} {idx : Fin nCpus} {data : Word}

/-- Beyond the cases of the switches nothing is written and nothing is read. -/
theorem glbt_write_beyond {offset : ℕ} (hoffset : 0x18 < offset) :
    glbt.write idx offset data = some glbt := by
  unfold ArmGlbt.write
  split
  case h_8 => rfl
  all_goals exact absurd hoffset (by decide)

theorem glbt_read_beyond {offset : ℕ} (hoffset : 0x18 < offset) (now : BitVec 64)
    (payload : Payload) : glbt.read idx now offset payload = payload := by
  unfold ArmGlbt.read
  dsimp only
  split
  case h_8 => rfl
  all_goals exact absurd hoffset (by decide)

/-- What the memory map calls the base of the global timer. -/
def glbtBaseAddr : Word := periphbase + 0x200

/-- An address that is routed to the global timer. -/
def Routed (adr : Word) : Prop := glbtBaseAddr ≤ adr ∧ adr < glbtBaseAddr + 0xFF

/-- The offset of a routed address lies `0x400` above that of its register, and so
does that of the upper word. -/
theorem beyond_of_routed {adr : Word} (hrouted : Routed adr) :
    0x18 < (glbtOffset adr).toNat ∧ 0x18 < (glbtOffset (adr + 4)).toNat := by
  have hle : 0xf8f00200 ≤ adr.toNat := BitVec.le_def.mp hrouted.1
  have hlt : adr.toNat < 0xf8f002ff := BitVec.lt_def.mp hrouted.2
  simp only [glbtOffset, periphbase]
  bv_omega

theorem beyond_of_routed_write {payload : Payload}
    (hrouted : Routed (payload.address.setWidth 32)) :
    0x18 < (glbtOffset (writeAddress payload)).toNat := by
  obtain ⟨hlow, hhigh⟩ := beyond_of_routed hrouted
  unfold writeAddress
  dsimp only
  split
  · split_ifs
    · exact hhigh
    · exact hlow
  · exact hlow

/-- A write of a core that reaches the global timer. -/
structure GlbtWrite (nCpus : ℕ) where
  idx : Fin nCpus
  payload : Payload
  command : payload.command = .write
  routed : Routed (payload.address.setWidth 32)

def glbtStep (glbt : ArmGlbt nCpus) (write : GlbtWrite nCpus) : Option (ArmGlbt nCpus) :=
  (glbt.bAccess write.idx 0 write.payload).map Prod.fst

theorem glbtStep_eq {next : ArmGlbt nCpus} {write : GlbtWrite nCpus}
    (hstep : glbtStep glbt write = some next) : next = glbt := by
  rw [glbtStep, ArmGlbt.bAccess, write.command] at hstep
  dsimp only at hstep
  split_ifs at hstep
  · rw [glbt_write_beyond (beyond_of_routed_write write.routed)] at hstep
    exact (Option.some.inj hstep).symm
  · cases hstep

/-- No write changes the global timer. -/
theorem glbt_exec {start final : ArmGlbt nCpus} {writes : List (GlbtWrite nCpus)}
    (hrun : Guarded.exec glbtStep start writes = some final) : final = start := by
  have hstep : ∀ (glbt : ArmGlbt nCpus) write next, glbt = start →
      glbtStep glbt write = some next → next = start :=
    fun glbt write next hstart hstep => (glbtStep_eq hstep).trans hstart
  exact Guarded.exec_keeps hstep rfl hrun

/-- A read by a core of one of its registers gives this word, whatever the counter is
and whatever the buffer held. -/
def GlbtReadsBack (glbt : ArmGlbt nCpus) (idx : Fin nCpus) (register : GlbtRegister)
    (word : Word) : Prop :=
  ∀ (now : BitVec 64) (payload : Payload), payload.command = .read →
    payload.dataLength = 4 →
    payload.address.setWidth 32 = glbtBaseAddr + BitVec.ofNat 32 register.offset →
    glbt.bAccess idx now payload = some (glbt, copied payload word)

theorem routed_register (register : GlbtRegister) :
    Routed (glbtBaseAddr + BitVec.ofNat 32 register.offset) := by
  cases register <;> exact ⟨by decide, by decide⟩

/-- A read leaves the buffer, so that it gives no word. -/
theorem not_glbtReadsBack (register : GlbtRegister) (word : Word) :
    ¬GlbtReadsBack glbt idx register word := by
  intro hread
  let address := glbtBaseAddr + BitVec.ofNat 32 register.offset
  let stale := bytes32 (~~~word)
  have hwidth : (address.setWidth 64).setWidth 32 = address := by
    rw [BitVec.setWidth_setWidth_of_le _ (by decide), BitVec.setWidth_eq]
  have hgiven := hread 0 (readOf address stale) rfl rfl hwidth
  have hkept : glbt.bAccess idx 0 (readOf address stale) =
      some (glbt, readOf address stale) := by
    have hbeyond := (beyond_of_routed (routed_register register)).1
    change some (glbt, glbt.read idx 0 (glbtOffset ((address.setWidth 64).setWidth 32)).toNat
      (readOf address stale)) = _
    rw [hwidth, glbt_read_beyond hbeyond]
  rw [hkept, Option.some.injEq] at hgiven
  have hdata := congrArg (fun answer : ArmGlbt nCpus × Payload => load32 answer.2.data) hgiven
  simp [readOf, stale, copied, load32_memcpy] at hdata

/-! ## Both register files -/

/-- What a register that is read back asks of the events before: that an interval is the
same as the next one, and that the restart bit of a counter control is as it was written. -/
def TtcRegister.SourceHolds (start : ArmTtc) (events : List TtcEvent) : TtcRegister → Prop
  | .interval i => ∃ h : i.val + 1 < 3,
      written start events (.interval ⟨i + 1, h⟩) = written start events (.interval i)
  | .counterControl i =>
      restartBit start events i = (written start events (.counterControl i)).getLsbD 4
  | _ => True

theorem readsBack_iff_sourceHolds {start final : ArmTtc} {events : List TtcEvent}
    (hrun : Guarded.exec ttcStep start events = some final) (register : TtcRegister) :
    ReadsBack final register (written start events register) ↔
      register.SourceHolds start events := by
  rw [readsBack_iff]
  cases register with
  | interval i =>
      simp only [TtcRegister.source, TtcRegister.SourceHolds]
      by_cases hi : i.val + 1 < 3
      · have hnext := (value_eq_written_iff hrun (.interval ⟨i + 1, hi⟩)).mpr fun _ h => by cases h
        simp [hi, hnext]
      · simp [hi]
  | _ => simp [TtcRegister.source, TtcRegister.SourceHolds, value_eq_written_iff hrun]

/-- A read stays within the arrays, but for the last interval. -/
theorem exists_readsBack_iff {ttc : ArmTtc} (register : TtcRegister) :
    (∃ word, ReadsBack ttc register word) ↔ register ≠ .interval 2 := by
  simp only [readsBack_iff]
  cases register with
  | interval i => fin_cases i <;> simp [TtcRegister.source]
  | _ => simp [TtcRegister.source]

/-- After every list of accepted writes and starts of the threads, each register of the
triple timer counter holds what was last written to it, but for the restart bit, which a
start clears; a read gives what was written unless the register is an interval whose
successor differs or a counter control with the restart bit cleared; only the read of the
last interval leaves an array.  The global timer is changed by no write, and none of its
registers reads back. -/
theorem registers_read_back {start final : ArmTtc} {events : List TtcEvent}
    (hrun : Guarded.exec ttcStep start events = some final) {nCpus : ℕ}
    {glbt glbtFinal : ArmGlbt nCpus} {glbtWrites : List (GlbtWrite nCpus)}
    (hglbt : Guarded.exec glbtStep glbt glbtWrites = some glbtFinal) :
    (∀ register,
      final.value register &&& register.stable =
        written start events register &&& register.stable ∧
      (ReadsBack final register (written start events register) ↔
        register.SourceHolds start events) ∧
      ((∃ word, ReadsBack final register word) ↔ register ≠ .interval 2) ∧
      ∀ period data, final.write period register.offset data = none →
        ∃ i, register = .clockControl i ∧ (data.getLsbD 6 ∨ data.getLsbD 5 ∨
          data.getLsbD 0 ∧ final.timerInterval i ≠ 0)) ∧
    (∀ i, (final.value (.counterControl i)).getLsbD 4 = restartBit start events i) ∧
    glbtFinal = glbt ∧
    ∀ idx register word, ¬GlbtReadsBack glbtFinal idx register word := by
  refine ⟨fun register => ⟨stable_exec hrun register, readsBack_iff_sourceHolds hrun register,
    exists_readsBack_iff register, fun period data hwrite => refused_write hwrite⟩,
    restartBit_exec hrun, glbt_exec hglbt,
    fun idx register word => not_glbtReadsBack register word⟩

/-! ### The registers of the first timer -/

/-- The timers as they are constructed. -/
def ttcReset : ArmTtc where
  clockControl := fun _ => 0
  counterControl := fun _ => 0x21
  intervalCounter := fun _ => 0
  matchCounter := fun _ _ => 0
  interruptRegister := fun _ => 0
  interruptEnable := fun _ => 0
  eventControlTimer := fun _ => 0
  eventRegister := fun _ => 0
  timerInterval := fun _ => 0

def glbtReset (nCpus : ℕ) : ArmGlbt nCpus where
  timerCounter := 0
  timerEnabled := false
  prescaler := 0
  compEnabled := fun _ => false
  irqEnabled := fun _ => false
  autoIncrement := fun _ => false
  interruptStatus := fun _ => false
  comparator := fun _ => 0
  autoIncrementValue := fun _ => 0

/-- A write of a word of a core. -/
def writeOf (address data : Word) : Payload where
  command := .write
  address := address.setWidth 64
  data := bytes32 data
  dataLength := 8
  byteEnable := none
  byteEnableLength := 0
  llsc := none
  response := .incomplete

/-- A write to the triple timer counter whose clock has a period of 3. -/
def ttcWrite (address data : Word) : TtcEvent :=
  .write { period := 3, payload := writeOf address data, command := rfl }

/-- The first timer gets a clock, an interval and a restart, and starts. -/
def firstTimer : List TtcEvent :=
  [ttcWrite 0xF8001000 1, ttcWrite 0xF8001024 100, ttcWrite 0xF800100C 0x30, .start 0]

/-- The write of 7 to the comparator of the first core. -/
def comparatorWrite : GlbtWrite 2 where
  idx := 0
  payload := writeOf 0xF8F00210 7
  command := rfl
  routed := by exact ⟨by decide, by decide⟩

theorem exec_comparatorWrite :
    Guarded.exec glbtStep (glbtReset 2) [comparatorWrite] = some (glbtReset 2) := by
  rw [Guarded.exec_cons_eq_some]
  refine ⟨glbtReset 2, ?_, rfl⟩
  rw [glbtStep, ArmGlbt.bAccess, comparatorWrite.command]
  dsimp only
  rw [if_pos (by rfl), glbt_write_beyond (beyond_of_routed_write comparatorWrite.routed)]
  rfl

/-- The clock control reads back, the interval and the counter control do not. -/
theorem registers_read_back_firstTimer : ∃ final,
    Guarded.exec ttcStep ttcReset firstTimer = some final ∧
      ReadsBack final (.clockControl 0) 1 ∧ ¬ReadsBack final (.interval 0) 100 ∧
      ¬ReadsBack final (.counterControl 0) 0x30 ∧
      (final.value (.counterControl 0)).getLsbD 4 = false := by
  have hclock : written ttcReset firstTimer (.clockControl 0) = 1 := by decide
  have hinterval : written ttcReset firstTimer (.interval 0) = 100 := by decide
  have hnext : written ttcReset firstTimer (.interval 1) = 0 := by decide
  have hcounter : written ttcReset firstTimer (.counterControl 0) = 0x30 := by decide
  have hrestart : restartBit ttcReset firstTimer 0 = false := by decide
  obtain ⟨final, hrun⟩ : ∃ final, Guarded.exec ttcStep ttcReset firstTimer = some final :=
    ⟨_, rfl⟩
  obtain ⟨httc, hbits, -⟩ := registers_read_back hrun exec_comparatorWrite
  refine ⟨final, hrun, ?_, fun hread => ?_, fun hread => ?_, (hbits 0).trans hrestart⟩
  · have hiff := (httc (.clockControl 0)).2.1
    rw [hclock] at hiff
    exact hiff.mpr trivial
  · have hiff := (httc (.interval 0)).2.1
    rw [hinterval] at hiff
    obtain ⟨hlt, hsame⟩ := hiff.mp hread
    rw [hinterval] at hsame
    exact absurd (hnext.symm.trans hsame) (by decide)
  · have hiff := (httc (.counterControl 0)).2.1
    rw [hcounter] at hiff
    have hsame := hiff.mp hread
    rw [TtcRegister.SourceHolds, hrestart, hcounter] at hsame
    exact absurd hsame (by decide)

/-- The interval of the first timer is written with 100 and read as that of the second. -/
theorem not_registers_read_back :
    ¬∀ (start final : ArmTtc) (events : List TtcEvent),
      Guarded.exec ttcStep start events = some final →
        ∀ register, ReadsBack final register (written start events register) := by
  intro hclaim
  obtain ⟨final, hrun⟩ : ∃ final,
      Guarded.exec ttcStep ttcReset [ttcWrite 0xF8001024 100] = some final := ⟨_, rfl⟩
  obtain ⟨hlt, hsame⟩ := (readsBack_iff_sourceHolds hrun (.interval 0)).mp
    (hclaim _ _ _ hrun (.interval 0))
  have hinterval : written ttcReset [ttcWrite 0xF8001024 100] (.interval 0) = 100 := by
    decide
  have hnext : written ttcReset [ttcWrite 0xF8001024 100] (.interval 1) = 0 := by
    decide
  rw [hinterval] at hsame
  exact absurd (hnext.symm.trans hsame) (by decide)

end Prazor.Devices.Timers
