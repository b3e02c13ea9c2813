import Prazor.Devices.GlobalTimer

/-!
# The threads of the timers

`arm_twd`, `arm_glbt` and `arm_swdt` are register files with threads of their own.  A
thread waits for an event that a register access notifies, or for a time.  A notification
makes a waiting thread runnable and is lost otherwise; until the thread is resumed further
accesses can come.  The periods by which the threads divide are set by the threads when
they start.

Times are in picoseconds, and a time that the code computes as a `double` is the exact
one.  What `calculate_period` finds in the clock registers is an input of the thread that
asks for it.  An access is given by the offset that `b_access` has computed.
-/

namespace Prazor.Devices.Timers

open Prazor.Tlm

/-- Why the simulator stops: the assertion at the head of a thread that its period is zero,
a division or a remainder by zero, or any other assertion. -/
inductive Stop where
  | period
  | division
  | assertion
  deriving DecidableEq

/-- A remainder of a time by a period. -/
def remainderOf (now period : ℕ) : Except Stop ℕ :=
  if period = 0 then .error .division else .ok (now % period)

/-! ## The private timer and watchdog -/

/-- Where `arm_twd::run` is. -/
inductive TimerPoint where
  | head
  | idle
  | notified
  | aligning (due : ℕ)
  | counting (due : ℕ) (woken : Bool)
  | remaining (due : ℕ)
  deriving DecidableEq

/-- Where `arm_twd::run_watchdog` is. -/
inductive WatchdogPoint where
  | idle
  | notified
  | aligning (due : ℕ)
  | counting (due : ℕ)
  deriving DecidableEq

structure ArmTwd where
  load : Word
  counter : Word
  timerEnabled : Bool
  autoReload : Bool
  irqEnabled : Bool
  prescaler : BitVec 8
  isEventFlag : Bool
  interruptState : Bool
  twdPeriod : ℕ
  wdgLoad : Word
  wdgCounter : Word
  wdgEnabled : Bool
  wdgStarted : ℕ
  wdgAutoReload : Bool
  wdgItEnabled : Bool
  wdgMode : Bool
  wdgPrescaler : BitVec 8
  wdgInterruptStatus : Bool
  wdgResetStatus : Bool
  wdgDisableRegister : Word
  timer : TimerPoint
  watchdog : WatchdogPoint

namespace ArmTwd

/-- After the constructor. -/
def made : ArmTwd where
  load := 0
  counter := 0
  timerEnabled := false
  autoReload := false
  irqEnabled := false
  prescaler := 0
  isEventFlag := false
  interruptState := false
  twdPeriod := 0
  wdgLoad := 0
  wdgCounter := 0
  wdgEnabled := false
  wdgStarted := 0
  wdgAutoReload := false
  wdgItEnabled := false
  wdgMode := false
  wdgPrescaler := 0
  wdgInterruptStatus := false
  wdgResetStatus := false
  wdgDisableRegister := 0
  timer := .head
  watchdog := .idle

def calculateTimerInterval (twd : ArmTwd) (counter : Word) : Except Stop ℕ :=
  if twd.twdPeriod = 0 then .error .assertion
  else .ok (((twd.prescaler.setWidth 32 + 1) * (counter + 1)).toNat * twd.twdPeriod)

def calculateWdgCounter (twd : ArmTwd) (now : ℕ) : Except Stop Word :=
  if twd.twdPeriod = 0 ∨ twd.wdgCounter = 0 then .error .division
  else .ok (BitVec.ofNat 32 ((now - twd.wdgStarted) / twd.twdPeriod) % twd.wdgCounter)

def calculateWdgRemainder (twd : ArmTwd) (now : ℕ) : Except Stop ℕ :=
  remainderOf now twd.twdPeriod

/-- The reads of `b_access`; an offset without a case leaves the data. -/
def read (twd : ArmTwd) (now offset : ℕ) : Except Stop (Option Word) :=
  match offset with
  | 0x0 => .ok (some twd.load)
  | 0x4 => .ok (some twd.counter)
  | 0x8 =>
      .ok (some (twd.prescaler.setWidth 32 <<< 8 ||| flag twd.irqEnabled <<< 2 |||
        flag twd.autoReload <<< 1 ||| flag twd.timerEnabled))
  | 0xC => .ok (some (flag twd.isEventFlag))
  | 0x20 => .ok (some twd.wdgLoad)
  | 0x24 =>
      if twd.wdgEnabled then (twd.calculateWdgCounter now).map some
      else .ok (some twd.wdgCounter)
  | 0x28 =>
      .ok (some (twd.wdgPrescaler.setWidth 32 <<< 8 ||| flag twd.wdgMode <<< 3 |||
        flag twd.wdgItEnabled <<< 2 ||| flag twd.wdgAutoReload <<< 1 |||
        flag twd.wdgEnabled))
  | 0x2C => .ok (some (flag twd.wdgInterruptStatus))
  | 0x30 => .ok (some (flag twd.wdgResetStatus))
  | 0x34 => .error .assertion
  | _ => .ok none

/-- `timer_enabled_event.notify()` -/
def notifyTimer : TimerPoint → TimerPoint
  | .idle => .notified
  | point => point

/-- `interrupt_reset_event.notify()` -/
def notifyReset : TimerPoint → TimerPoint
  | .counting due _ => .counting due true
  | point => point

/-- `wdg_enabled_event.notify()` -/
def notifyWatchdog : WatchdogPoint → WatchdogPoint
  | .idle => .notified
  | point => point

/-- The write of the watchdog's control register. -/
def writeWdgControl (twd : ArmTwd) (data : Word) : ArmTwd :=
  { twd with
    wdgPrescaler := (data >>> 8).setWidth 8
    wdgMode := twd.wdgMode || data.getLsbD 3
    wdgItEnabled := data.getLsbD 2
    wdgAutoReload := data.getLsbD 1
    wdgEnabled := data.getLsbD 0
    watchdog :=
      if twd.wdgEnabled ≠ data.getLsbD 0 then notifyWatchdog twd.watchdog
      else twd.watchdog }

/-- The writes that disable the watchdog mode must be consecutive. -/
def clearDisable (twd : ArmTwd) (offset : ℕ) : ArmTwd :=
  { twd with
    wdgDisableRegister :=
      if twd.wdgDisableRegister = 0x12345678 ∧ offset ≠ 0x34 then 0
      else twd.wdgDisableRegister }

/-- The writes of `b_access`. -/
def write (twd : ArmTwd) (offset : ℕ) (data : Word) : Except Stop ArmTwd :=
  let twd := twd.clearDisable offset
  match offset with
  | 0x0 => .ok { twd with load := data, counter := data }
  | 0x4 => .ok { twd with counter := data }
  | 0x8 =>
      .ok { twd with
        timerEnabled := data.getLsbD 0
        autoReload := data.getLsbD 1
        irqEnabled := data.getLsbD 2
        prescaler := (data >>> 8).setWidth 8
        timer := if data.getLsbD 0 then notifyTimer twd.timer else twd.timer }
  | 0xC =>
      if data.getLsbD 0 then
        .ok { twd with isEventFlag := false, timer := notifyReset twd.timer }
      else .ok twd
  | 0x20 =>
      if twd.wdgEnabled then .error .assertion
      else .ok { twd with wdgLoad := data, wdgCounter := data }
  | 0x24 =>
      if twd.wdgEnabled then .error .assertion
      else if twd.wdgMode then .ok twd
      else .ok { twd with wdgCounter := data }
  | 0x28 => .ok (twd.writeWdgControl data)
  | 0x2C => .ok (if data = 1 then { twd with wdgInterruptStatus := false } else twd)
  | 0x30 => .ok (if data = 1 then { twd with wdgResetStatus := false } else twd)
  | 0x34 =>
      .ok { twd with
        wdgMode :=
          if twd.wdgDisableRegister = 0x12345678 ∧ data = 0x87654321 then false
          else twd.wdgMode
        wdgDisableRegister := 0 }
  | _ => .ok twd

/-- The timer is enabled: its period is found and the thread waits for a clock edge. -/
def begin (twd : ArmTwd) (now period : ℕ) : Except Stop ArmTwd :=
  (remainderOf now period).map fun remainder =>
    { twd with twdPeriod := period, timer := .aligning (now + remainder) }

/-- The head of the loop of `run`. -/
def head (twd : ArmTwd) (now period : ℕ) : Except Stop ArmTwd :=
  if twd.timerEnabled then twd.begin now period else .ok { twd with timer := .idle }

/-- The head of its inner loop. -/
def nextInterval (twd : ArmTwd) (now : ℕ) : Except Stop ArmTwd :=
  (twd.calculateTimerInterval twd.load).map fun interval =>
    { twd with timer := .counting (now + interval) false }

/-- The interrupt of the timer. -/
def sendInterrupt (twd : ArmTwd) : ArmTwd :=
  if twd.irqEnabled then { twd with isEventFlag := true, interruptState := true } else twd

/-- An interval has passed. -/
def generateEvent (twd : ArmTwd) (now period : ℕ) : Except Stop ArmTwd :=
  let twd := twd.sendInterrupt
  if twd.autoReload = false ∨ twd.timerEnabled = false then twd.head now period
  else twd.nextInterval now

/-- `run`, from where it waits to where it waits next. -/
def run (twd : ArmTwd) (now period : ℕ) : Except Stop ArmTwd :=
  match twd.timer with
  | .head => twd.head now period
  | .idle => .ok twd
  | .notified => twd.begin now period
  | .aligning due => if due ≤ now then twd.nextInterval now else .ok twd
  | .counting due woken =>
      if woken ∨ due ≤ now then
        if twd.interruptState then
          if now < due then .ok { twd with interruptState := false, timer := .remaining due }
          else twd.nextInterval now
        else twd.generateEvent now period
      else .ok twd
  | .remaining due => if due ≤ now then twd.generateEvent now period else .ok twd

/-- The interrupt of the watchdog in its timer mode. -/
def sendWatchdogInterrupt (twd : ArmTwd) : ArmTwd :=
  if twd.wdgMode = false ∧ twd.wdgItEnabled then { twd with wdgInterruptStatus := true }
  else twd

/-- The head of the inner loop of `run_watchdog`. -/
def nextWatchdog (twd : ArmTwd) (now : ℕ) : Except Stop ArmTwd :=
  (twd.calculateTimerInterval twd.wdgCounter).map fun interval =>
    { twd with watchdog := .counting (now + interval) }

/-- `run_watchdog`, from where it waits to where it waits next. -/
def runWatchdog (twd : ArmTwd) (now : ℕ) : Except Stop ArmTwd :=
  match twd.watchdog with
  | .idle => .ok twd
  | .notified =>
      (twd.calculateWdgRemainder now).map fun remainder =>
        { twd with watchdog := .aligning (now + (twd.twdPeriod - remainder)) }
  | .aligning due =>
      if due ≤ now then nextWatchdog { twd with wdgStarted := now } now else .ok twd
  | .counting due =>
      if due ≤ now then
        let twd := twd.sendWatchdogInterrupt
        if twd.wdgEnabled = false ∨ twd.wdgMode then .ok { twd with watchdog := .idle }
        else twd.nextWatchdog now
      else .ok twd

end ArmTwd

/-! ## The global timer -/

/-- Where `arm_glbt::run` is; the last two wait in its inner loop. -/
inductive GlbtPoint where
  | idle
  | notified
  | aligning (due : ℕ)
  | counting (due : ℕ)
  | waiting
  | woken
  deriving DecidableEq

/-- `arm_glbt`: its registers, what the thread keeps, and where it is. -/
structure GlobalTimer (nCores : ℕ) where
  regs : ArmGlbt nCores
  timerStarted : ℕ
  timerInterval : ℕ
  timerIntervalCore : ℤ
  point : GlbtPoint

namespace GlobalTimer

variable {nCores : ℕ}

/-- After the constructor. -/
def made (nCores : ℕ) (prescaler : BitVec 8) : GlobalTimer nCores where
  regs :=
    { timerCounter := 0
      timerEnabled := false
      prescaler := prescaler
      compEnabled := fun _ => false
      irqEnabled := fun _ => false
      autoIncrement := fun _ => false
      interruptStatus := fun _ => false
      comparator := fun _ => 0
      autoIncrementValue := fun _ => 0 }
  timerStarted := 0
  timerInterval := 0
  timerIntervalCore := -1
  point := .idle

def calculateReminder (timer : GlobalTimer nCores) (now : ℕ) : Except Stop ℕ :=
  remainderOf now timer.timerInterval

def calculateTimerCounter (timer : GlobalTimer nCores) (now : ℕ) :
    Except Stop (BitVec 64) :=
  if timer.timerInterval = 0 then .error .division
  else
    .ok (BitVec.ofNat 64 ((now - timer.timerStarted) / timer.timerInterval) +
      timer.regs.timerCounter)

/-- An access that needs the time while the timer is enabled. -/
def atCounter (timer : GlobalTimer nCores) (offset : ℕ) : Bool :=
  (offset = 0x0 || offset = 0x4) && timer.regs.timerEnabled

/-- The reads of `b_access`. -/
def read (timer : GlobalTimer nCores) (idx : Fin nCores) (now offset : ℕ)
    (payload : Payload) : Except Stop Payload :=
  if timer.atCounter offset then
    (timer.calculateTimerCounter now).map fun counter =>
      timer.regs.read idx counter offset payload
  else .ok (timer.regs.read idx timer.regs.timerCounter offset payload)

/-- `timer_enabled_event.notify()` -/
def notify : GlbtPoint → GlbtPoint
  | .idle => .notified
  | .waiting => .woken
  | point => point

/-- The registers after a write. -/
def writeRegs (timer : GlobalTimer nCores) (idx : Fin nCores) (offset : ℕ) (data : Word) :
    Except Stop (GlobalTimer nCores) :=
  match timer.regs.write idx offset data with
  | none => .error .assertion
  | some regs =>
      .ok { timer with
        regs := regs
        point :=
          if regs.timerEnabled ≠ timer.regs.timerEnabled then notify timer.point
          else timer.point }

/-- The writes of `b_access`. -/
def write (timer : GlobalTimer nCores) (idx : Fin nCores) (now offset : ℕ) (data : Word) :
    Except Stop (GlobalTimer nCores) :=
  if timer.atCounter offset then
    (timer.calculateReminder now).bind fun remainder =>
      writeRegs { timer with timerStarted := now - remainder } idx offset data
  else timer.writeRegs idx offset data

/-- The head of the inner loop of `run`. -/
def nextEvent (timer : GlobalTimer nCores) (now : ℕ) : Except Stop (GlobalTimer nCores) :=
  (timer.calculateTimerCounter now).map fun counter =>
    let (periods, core) := timer.regs.calculateTimerInterval counter timer.timerIntervalCore
    let interval := periods.toNat * timer.timerInterval
    { timer with
      timerIntervalCore := core
      point := if 0 < interval then .counting (now + interval) else .waiting }

/-- The end of its inner loop. -/
def afterWait (timer : GlobalTimer nCores) (now : ℕ) : Except Stop (GlobalTimer nCores) :=
  if timer.regs.timerEnabled then timer.nextEvent now
  else
    (timer.calculateTimerCounter now).map fun counter =>
      { timer with
        regs := { timer.regs with timerCounter := counter }
        point := .idle }

/-- The comparator of `timer_interval_core` is reached.  Behind the entries of the cores the
arrays have entries that no access enables. -/
def fire (timer : GlobalTimer nCores) : GlobalTimer nCores :=
  let regs := timer.regs
  { timer with
    regs :=
      if h : 0 ≤ timer.timerIntervalCore ∧ timer.timerIntervalCore.toNat < nCores then
        let core : Fin nCores := ⟨timer.timerIntervalCore.toNat, h.2⟩
        { regs with
          interruptStatus :=
            if regs.irqEnabled core then Function.update regs.interruptStatus core true
            else regs.interruptStatus
          comparator :=
            if regs.autoIncrement core then
              Function.update regs.comparator core
                (regs.comparator core + (regs.autoIncrementValue core).setWidth 64)
            else regs.comparator }
      else regs
    timerIntervalCore := -1 }

/-- `run`, from where it waits to where it waits next. -/
def run (timer : GlobalTimer nCores) (now period : ℕ) : Except Stop (GlobalTimer nCores) :=
  match timer.point with
  | .idle | .waiting => .ok timer
  | .notified =>
      if timer.timerInterval ≠ 0 then .error .period
      else
        (calculateReminder { timer with timerInterval := period } now).map fun remainder =>
          { timer with
            timerInterval := period
            point := .aligning (now + (period - remainder)) }
  | .aligning due =>
      if due ≤ now then nextEvent { timer with timerStarted := now } now else .ok timer
  | .counting due =>
      if due ≤ now then
        if timer.timerIntervalCore = -1 then .error .assertion else timer.fire.afterWait now
      else .ok timer
  | .woken => timer.afterWait now

end GlobalTimer

/-! ## The system watchdog -/

/-- Where `arm_swdt::run` is; the last two wait for `reset_event`. -/
inductive SwdtPoint where
  | head
  | counting (due : ℕ)
  | signalling (due : ℕ)
  | waiting
  | woken
  deriving DecidableEq

structure ArmSwdt where
  zkey : BitVec 12
  irqln : BitVec 2
  irqen : Bool
  rsten : Bool
  wden : Bool
  ckey : BitVec 12
  crv : BitVec 12
  clksel : BitVec 2
  rstkey : BitVec 16
  wdz : Bool
  swdtPeriod : ℕ
  point : SwdtPoint

namespace ArmSwdt

/-- After the constructor. -/
def made : ArmSwdt where
  zkey := 0
  irqln := 3
  irqen := false
  rsten := false
  wden := false
  ckey := 0
  crv := 0xFFF
  clksel := 0
  rstkey := 0
  wdz := false
  swdtPeriod := 0
  point := .head

/-- The interval, with the clock divided by `8 ^ (clksel + 1)`. -/
def calculateTimerInterval (swdt : ArmSwdt) : Except Stop ℕ :=
  if swdt.swdtPeriod = 0 then .error .assertion
  else
    .ok ((swdt.crv.toNat + 1) * 4096 * 8 ^ (swdt.clksel.toNat + 1) * 1000000 /
      swdt.swdtPeriod)

/-- The reads of `b_access`; an offset without a case leaves the data. -/
def read (swdt : ArmSwdt) (offset : ℕ) : Option Word :=
  match offset with
  | 0x0 =>
      some (swdt.zkey.setWidth 32 <<< 12 ||| swdt.irqln.setWidth 32 <<< 7 ||| 0x40 |||
        flag swdt.irqen <<< 2 ||| flag swdt.rsten <<< 1 ||| flag swdt.wden)
  | 0x4 =>
      some (swdt.ckey.setWidth 32 <<< 14 ||| swdt.crv.setWidth 32 <<< 2 |||
        swdt.clksel.setWidth 32)
  | 0x8 => some (swdt.rstkey.setWidth 32)
  | 0xC => some (flag swdt.wdz)
  | _ => none

/-- `reset_event.notify()` -/
def notify : SwdtPoint → SwdtPoint
  | .waiting => .woken
  | point => point

/-- The write of the restart register. -/
def writeRestart (swdt : ArmSwdt) (data : Word) : ArmSwdt :=
  { swdt with
    rstkey := data.setWidth 16
    point := if data.setWidth 16 = (0x1999 : BitVec 16) then notify swdt.point else swdt.point }

/-- The writes of `b_access`. -/
def write (swdt : ArmSwdt) (offset : ℕ) (data : Word) : Except Stop ArmSwdt :=
  match offset with
  | 0x0 =>
      let zkey : BitVec 12 := (data >>> 12).setWidth 12
      if zkey = 0xABC then
        .ok { swdt with
          zkey := zkey
          irqln := (data >>> 7).setWidth 2
          irqen := data.getLsbD 2
          rsten := data.getLsbD 1
          wden := data.getLsbD 0 }
      else .ok { swdt with zkey := zkey }
  | 0x4 =>
      let ckey : BitVec 12 := (data >>> 14).setWidth 12
      if ckey = 0x248 then
        .ok { swdt with
          ckey := ckey
          crv := (data >>> 2).setWidth 12
          clksel := data.setWidth 2 }
      else .ok { swdt with ckey := ckey }
  | 0x8 => .ok (swdt.writeRestart data)
  | 0xC => .error .assertion
  | _ => .ok swdt

/-- The head of the loop of `run`. -/
def head (swdt : ArmSwdt) (now period : ℕ) : Except Stop ArmSwdt :=
  if swdt.swdtPeriod ≠ 0 then .error .period
  else
    (calculateTimerInterval { swdt with swdtPeriod := period }).map fun interval =>
      { swdt with swdtPeriod := period, point := .counting (now + interval) }

/-- `run`, from where it waits to where it waits next. -/
def run (swdt : ArmSwdt) (now period : ℕ) : Except Stop ArmSwdt :=
  match swdt.point with
  | .head | .woken => swdt.head now period
  | .counting due =>
      if due ≤ now then
        .ok { swdt with
          wdz := true
          point :=
            if swdt.wden ∧ swdt.irqen then
              .signalling (now + swdt.swdtPeriod * 2 ^ (swdt.irqln.toNat + 2))
            else .waiting }
      else .ok swdt
  | .signalling due => if due ≤ now then .ok { swdt with point := .waiting } else .ok swdt
  | .waiting => .ok swdt

end ArmSwdt

/-! ## The three together -/

/-- The timers at a time. -/
structure TimerBlocks (nCores : ℕ) where
  now : ℕ
  twd : ArmTwd
  glbt : GlobalTimer nCores
  swdt : ArmSwdt

/-- Time passes, software accesses a register, or a thread is resumed. -/
inductive TimerEvent (nCores : ℕ) where
  | elapse (time : ℕ)
  | twdRead (offset : ℕ)
  | twdWrite (offset : ℕ) (data : Word)
  | glbtRead (idx : Fin nCores) (offset : ℕ) (payload : Payload)
  | glbtWrite (idx : Fin nCores) (offset : ℕ) (data : Word)
  | swdtRead (offset : ℕ)
  | swdtWrite (offset : ℕ) (data : Word)
  | twdRun (period : ℕ)
  | twdRunWatchdog
  | glbtRun (period : ℕ)
  | swdtRun (period : ℕ)

namespace TimerBlocks

variable {nCores : ℕ}

/-- When the simulation starts. -/
def made (nCores : ℕ) (prescaler : BitVec 8) : TimerBlocks nCores where
  now := 0
  twd := .made
  glbt := .made nCores prescaler
  swdt := .made

def step (blocks : TimerBlocks nCores) : TimerEvent nCores → Except Stop (TimerBlocks nCores)
  | .elapse time => .ok { blocks with now := blocks.now + time }
  | .twdRead offset => (blocks.twd.read blocks.now offset).map fun _ => blocks
  | .twdWrite offset data =>
      (blocks.twd.write offset data).map fun twd => { blocks with twd := twd }
  | .glbtRead idx offset payload =>
      (blocks.glbt.read idx blocks.now offset payload).map fun _ => blocks
  | .glbtWrite idx offset data =>
      (blocks.glbt.write idx blocks.now offset data).map fun glbt =>
        { blocks with glbt := glbt }
  | .swdtRead _ => .ok blocks
  | .swdtWrite offset data =>
      (blocks.swdt.write offset data).map fun swdt => { blocks with swdt := swdt }
  | .twdRun period =>
      (blocks.twd.run blocks.now period).map fun twd => { blocks with twd := twd }
  | .twdRunWatchdog =>
      (blocks.twd.runWatchdog blocks.now).map fun twd => { blocks with twd := twd }
  | .glbtRun period =>
      (blocks.glbt.run blocks.now period).map fun glbt => { blocks with glbt := glbt }
  | .swdtRun period =>
      (blocks.swdt.run blocks.now period).map fun swdt => { blocks with swdt := swdt }

end TimerBlocks

end Prazor.Devices.Timers
