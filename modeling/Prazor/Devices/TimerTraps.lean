import Prazor.Devices.TimerThreads

/-!
# When the timers trap

A thread divides by a period that another thread sets, and two threads assert that their
period is zero each time they come round.  What software has to do, and not to do, for
none of this to stop the simulator is a condition on its accesses: an invariant over the
three blocks and their threads carries it to the divisions.
-/

namespace Prazor.Devices.Timers

open Prazor.Tlm

/-- A result with a property; a stop is no division and no assertion about a period. -/
def Untrapped {α : Type*} (result : Except Stop α) (property : α → Prop) : Prop :=
  match result with
  | .ok value => property value
  | .error stop => stop = .assertion

section Untrapped

variable {α β : Type*} {result : Except Stop α} {property : α → Prop}

theorem Untrapped.map (hresult : Untrapped result property) {f : α → β}
    {property' : β → Prop} (hf : ∀ value, property value → property' (f value)) :
    Untrapped (result.map f) property' := by
  cases result with
  | ok value => exact hf value hresult
  | error stop => exact hresult

theorem Untrapped.bind (hresult : Untrapped result property) {f : α → Except Stop β}
    {property' : β → Prop} (hf : ∀ value, property value → Untrapped (f value) property') :
    Untrapped (result.bind f) property' := by
  cases result with
  | ok value => exact hf value hresult
  | error stop => exact hresult

theorem Untrapped.ne (hresult : Untrapped result property) :
    result ≠ .error .period ∧ result ≠ .error .division := by
  constructor
  · rintro rfl
    cases hresult
  · rintro rfl
    cases hresult

end Untrapped

theorem untrapped_remainderOf {period : ℕ} (hperiod : period ≠ 0) (now : ℕ) :
    Untrapped (remainderOf now period) fun _ => True := by
  rw [remainderOf, if_neg hperiod]
  trivial

/-! ## The private timer and watchdog -/

namespace ArmTwd

/-- The watchdog is enabled, and its thread about to start, only with a period; and it is
enabled only with a counter that is not zero. -/
structure Inv (twd : ArmTwd) : Prop where
  enabled : twd.wdgEnabled = true → twd.twdPeriod ≠ 0 ∧ twd.wdgCounter ≠ 0
  notified : twd.watchdog = .notified → twd.twdPeriod ≠ 0

/-- A write that enables the watchdog comes when the private timer has been started, and a
counter that is not zero has been loaded. -/
def Prepared (twd : ArmTwd) (offset : ℕ) (data : Word) : Prop :=
  offset = 0x28 → data.getLsbD 0 = true → twd.wdgEnabled = false →
    twd.twdPeriod ≠ 0 ∧ twd.wdgCounter ≠ 0

variable {twd : ArmTwd}

theorem inv_made : Inv made := by
  constructor <;> intro h <;> cases h

theorem Inv.read (hinv : twd.Inv) (now offset : ℕ) :
    Untrapped (twd.read now offset) fun _ => True := by
  unfold ArmTwd.read
  split
  case h_6 =>
    split
    case isTrue henabled =>
      obtain ⟨hperiod, hcounter⟩ := hinv.enabled henabled
      rw [calculateWdgCounter, if_neg (not_or.mpr ⟨hperiod, hcounter⟩)]
      trivial
    case isFalse => trivial
  all_goals trivial

/-- Writing the control register keeps the invariant when it is prepared. -/
theorem Inv.writeWdgControl (hinv : twd.Inv) {data : Word}
    (hprepared : data.getLsbD 0 = true → twd.wdgEnabled = false →
      twd.twdPeriod ≠ 0 ∧ twd.wdgCounter ≠ 0) : (twd.writeWdgControl data).Inv := by
  have henabled : data.getLsbD 0 = true → twd.twdPeriod ≠ 0 ∧ twd.wdgCounter ≠ 0 := by
    intro hdata
    cases hbefore : twd.wdgEnabled with
    | true => exact hinv.enabled hbefore
    | false => exact hprepared hdata hbefore
  constructor
  · exact henabled
  · intro hnotified
    simp only [ArmTwd.writeWdgControl] at hnotified
    split at hnotified
    case isTrue hchanged =>
      cases hbefore : twd.wdgEnabled with
      | true => exact (hinv.enabled hbefore).1
      | false =>
          rw [hbefore] at hchanged
          exact (henabled (by simpa using hchanged.symm)).1
    case isFalse => exact hinv.notified hnotified

theorem Inv.write (hinv : twd.Inv) {offset : ℕ} {data : Word}
    (hprepared : twd.Prepared offset data) : Untrapped (twd.write offset data) Inv := by
  have hcleared : (twd.clearDisable offset).Inv := ⟨hinv.enabled, hinv.notified⟩
  have hprepared : (twd.clearDisable offset).Prepared offset data := hprepared
  unfold ArmTwd.write
  generalize twd.clearDisable offset = twd at hcleared hprepared
  dsimp only
  split
  case h_7 => exact hcleared.writeWdgControl (hprepared rfl)
  case h_5 =>
    split
    case isTrue => rfl
    case isFalse hdisabled =>
      exact ⟨fun henabled => absurd henabled hdisabled, hcleared.notified⟩
  case h_6 =>
    split
    case isTrue => rfl
    case isFalse hdisabled =>
      split
      case isTrue => exact hcleared
      case isFalse => exact ⟨fun henabled => absurd henabled hdisabled, hcleared.notified⟩
  case h_4 => split <;> exact ⟨hcleared.enabled, hcleared.notified⟩
  case h_8 => split <;> exact ⟨hcleared.enabled, hcleared.notified⟩
  case h_9 => split <;> exact ⟨hcleared.enabled, hcleared.notified⟩
  all_goals exact ⟨hcleared.enabled, hcleared.notified⟩

theorem untrapped_calculateTimerInterval (twd : ArmTwd) (counter : Word) :
    Untrapped (twd.calculateTimerInterval counter) fun _ => True := by
  rw [ArmTwd.calculateTimerInterval]
  split
  · rfl
  · trivial

theorem Inv.begin (hinv : twd.Inv) (now : ℕ) {period : ℕ} (hperiod : period ≠ 0) :
    Untrapped (twd.begin now period) Inv :=
  (untrapped_remainderOf hperiod now).map fun _ _ =>
    ⟨fun henabled => ⟨hperiod, (hinv.enabled henabled).2⟩, fun _ => hperiod⟩

theorem Inv.head (hinv : twd.Inv) (now : ℕ) {period : ℕ} (hperiod : period ≠ 0) :
    Untrapped (twd.head now period) Inv := by
  rw [ArmTwd.head]
  split
  · exact hinv.begin now hperiod
  · exact ⟨hinv.enabled, hinv.notified⟩

theorem Inv.nextInterval (hinv : twd.Inv) (now : ℕ) :
    Untrapped (twd.nextInterval now) Inv :=
  (untrapped_calculateTimerInterval twd twd.load).map fun _ _ =>
    ⟨hinv.enabled, hinv.notified⟩

theorem Inv.generateEvent (hinv : twd.Inv) (now : ℕ) {period : ℕ} (hperiod : period ≠ 0) :
    Untrapped (twd.generateEvent now period) Inv := by
  have hsent : twd.sendInterrupt.Inv := by
    rw [ArmTwd.sendInterrupt]
    split
    · exact ⟨hinv.enabled, hinv.notified⟩
    · exact hinv
  rw [ArmTwd.generateEvent]
  split
  · exact hsent.head now hperiod
  · exact hsent.nextInterval now

/-- The thread of the private timer keeps the invariant: its period is not zero. -/
theorem Inv.run (hinv : twd.Inv) (now : ℕ) {period : ℕ} (hperiod : period ≠ 0) :
    Untrapped (twd.run now period) Inv := by
  rw [ArmTwd.run]
  split
  case h_1 => exact hinv.head now hperiod
  case h_2 => exact hinv
  case h_3 => exact hinv.begin now hperiod
  case h_4 =>
    split
    · exact hinv.nextInterval now
    · exact hinv
  case h_5 =>
    split
    · split
      · split
        · exact ⟨hinv.enabled, hinv.notified⟩
        · exact hinv.nextInterval now
      · exact hinv.generateEvent now hperiod
    · exact hinv
  case h_6 =>
    split
    · exact hinv.generateEvent now hperiod
    · exact hinv

theorem Inv.nextWatchdog (hinv : twd.Inv) (now : ℕ) :
    Untrapped (twd.nextWatchdog now) Inv :=
  (untrapped_calculateTimerInterval twd twd.wdgCounter).map fun _ _ =>
    ⟨hinv.enabled, fun hnotified => by cases hnotified⟩

/-- The thread of the watchdog is woken only with a period. -/
theorem Inv.runWatchdog (hinv : twd.Inv) (now : ℕ) :
    Untrapped (twd.runWatchdog now) Inv := by
  rw [ArmTwd.runWatchdog]
  split
  case h_1 => exact hinv
  case h_2 hnotified =>
    exact (untrapped_remainderOf (hinv.notified hnotified) now).map fun _ _ =>
      ⟨hinv.enabled, fun hnotified => by cases hnotified⟩
  case h_3 =>
    split
    · have hstarted : Inv { twd with wdgStarted := now } := ⟨hinv.enabled, hinv.notified⟩
      exact hstarted.nextWatchdog now
    · exact hinv
  case h_4 =>
    have hsent : twd.sendWatchdogInterrupt.Inv := by
      rw [ArmTwd.sendWatchdogInterrupt]
      split
      · exact ⟨hinv.enabled, hinv.notified⟩
      · exact hinv
    split
    · dsimp only
      split
      · exact ⟨hsent.enabled, fun hnotified => by cases hnotified⟩
      · exact hsent.nextWatchdog now
    · exact hinv

end ArmTwd

/-! ## The global timer -/

namespace GlobalTimer

variable {nCores : ℕ} {timer : GlobalTimer nCores}

/-- The period is that of a thread that has left the head of its loop, and until it has, the
timer is either not enabled or the thread is about to start. -/
structure Inv (timer : GlobalTimer nCores) : Prop where
  enabled : timer.regs.timerEnabled = true → timer.point = .notified ∨ timer.timerInterval ≠ 0
  notified : timer.point = .notified → timer.timerInterval = 0
  running : timer.point ≠ .idle → timer.point ≠ .notified → timer.timerInterval ≠ 0

/-- The counter is not accessed between the enabling of the timer and the start of its
thread. -/
def Started (timer : GlobalTimer nCores) (offset : ℕ) : Prop :=
  timer.atCounter offset = true → timer.point ≠ .notified

/-- The timer is not enabled again once it has stopped. -/
def Once (timer : GlobalTimer nCores) (offset : ℕ) (data : Word) : Prop :=
  offset = 0x8 → data.getLsbD 0 ≠ timer.regs.timerEnabled → timer.point = .idle →
    timer.timerInterval = 0

theorem inv_made (prescaler : BitVec 8) : (made nCores prescaler).Inv := by
  constructor
  · intro henabled
    cases henabled
  · intro hnotified
    cases hnotified
  · intro hidle
    exact absurd rfl hidle

theorem untrapped_calculateTimerCounter (hinterval : timer.timerInterval ≠ 0) (now : ℕ) :
    Untrapped (timer.calculateTimerCounter now) fun _ => True := by
  rw [calculateTimerCounter, if_neg hinterval]
  trivial

/-- An access to the counter of an enabled timer has a period to divide by. -/
theorem Inv.interval_ne_zero (hinv : timer.Inv) {offset : ℕ} (hstarted : timer.Started offset)
    (hcounter : timer.atCounter offset = true) : timer.timerInterval ≠ 0 := by
  have henabled : timer.regs.timerEnabled = true := (Bool.and_eq_true_iff.mp hcounter).2
  rcases hinv.enabled henabled with hnotified | hinterval
  · exact absurd hnotified (hstarted hcounter)
  · exact hinterval

theorem Inv.read (hinv : timer.Inv) (idx : Fin nCores) (now : ℕ) {offset : ℕ}
    (hstarted : timer.Started offset) (payload : Payload) :
    Untrapped (timer.read idx now offset payload) fun _ => True := by
  rw [GlobalTimer.read]
  split
  case isTrue hcounter =>
    exact (untrapped_calculateTimerCounter (hinv.interval_ne_zero hstarted hcounter) now).map
      fun _ _ => trivial
  case isFalse => trivial

/-- Only the control register enables the timer. -/
theorem timerEnabled_write {regs next : ArmGlbt nCores} {idx : Fin nCores} {offset : ℕ}
    {data : Word} (hwrite : regs.write idx offset data = some next)
    (hchanged : next.timerEnabled ≠ regs.timerEnabled) :
    offset = 0x8 ∧ next.timerEnabled = data.getLsbD 0 := by
  unfold ArmGlbt.write at hwrite
  split at hwrite
  case h_3 =>
    cases hwrite
    exact ⟨rfl, rfl⟩
  case h_4 =>
    split at hwrite
    · cases hwrite
      exact absurd rfl hchanged
    · cases hwrite
  all_goals
    cases hwrite
    exact absurd rfl hchanged

/-- A notification wakes a thread that has a period, or one that has none yet. -/
theorem Inv.notify (hinv : timer.Inv) (hidle : timer.point = .idle → timer.timerInterval = 0)
    (regs : ArmGlbt nCores) :
    Inv { timer with regs := regs, point := GlobalTimer.notify timer.point } := by
  by_cases hinterval : timer.timerInterval = 0
  · have hnotified : GlobalTimer.notify timer.point = .notified := by
      by_cases hpoint : timer.point = .idle
      · rw [hpoint]
        rfl
      · by_cases hpoint' : timer.point = .notified
        · rw [hpoint']
          rfl
        · exact absurd hinterval (hinv.running hpoint hpoint')
    exact ⟨fun _ => Or.inl hnotified, fun _ => hinterval, fun _ hne => absurd hnotified hne⟩
  · refine ⟨fun _ => Or.inr hinterval, fun hnotified => ?_, fun _ _ => hinterval⟩
    cases hpoint : timer.point with
    | idle => exact hidle hpoint
    | notified => exact hinv.notified hpoint
    | _ =>
        rw [hpoint] at hnotified
        cases hnotified

theorem Inv.writeRegs (hinv : timer.Inv) (idx : Fin nCores) {offset : ℕ} {data : Word}
    (honce : timer.Once offset data) : Untrapped (timer.writeRegs idx offset data) Inv := by
  unfold GlobalTimer.writeRegs
  split
  case h_1 => rfl
  case h_2 next hwrite =>
    by_cases hchanged : next.timerEnabled ≠ timer.regs.timerEnabled
    · obtain ⟨hoffset, hdata⟩ := timerEnabled_write hwrite hchanged
      rw [if_pos hchanged]
      exact hinv.notify (honce hoffset (hdata ▸ hchanged)) next
    · rw [if_neg hchanged]
      rw [not_not] at hchanged
      exact ⟨fun henabled => hinv.enabled (hchanged ▸ henabled), hinv.notified, hinv.running⟩

theorem Inv.write (hinv : timer.Inv) (idx : Fin nCores) (now : ℕ) {offset : ℕ} {data : Word}
    (hstarted : timer.Started offset) (honce : timer.Once offset data) :
    Untrapped (timer.write idx now offset data) Inv := by
  rw [GlobalTimer.write]
  split
  case isTrue hcounter =>
    refine (untrapped_remainderOf (hinv.interval_ne_zero hstarted hcounter) now).bind
      fun remainder _ => ?_
    have hmoved : Inv { timer with timerStarted := now - remainder } :=
      ⟨hinv.enabled, hinv.notified, hinv.running⟩
    exact hmoved.writeRegs idx honce
  case isFalse => exact hinv.writeRegs idx honce

/-- With a period the thread may be at any point behind the head of its loop. -/
theorem inv_of_running (hinterval : timer.timerInterval ≠ 0)
    (hpoint : timer.point ≠ .notified) : timer.Inv :=
  ⟨fun _ => Or.inr hinterval, fun hnotified => absurd hnotified hpoint,
    fun _ _ => hinterval⟩

theorem untrapped_nextEvent (hinterval : timer.timerInterval ≠ 0) (now : ℕ) :
    Untrapped (timer.nextEvent now) Inv := by
  refine (untrapped_calculateTimerCounter hinterval now).map fun counter _ => ?_
  obtain ⟨periods, core⟩ := timer.regs.calculateTimerInterval counter timer.timerIntervalCore
  apply inv_of_running
  · exact hinterval
  · dsimp only
    split <;> simp

theorem untrapped_afterWait (hinterval : timer.timerInterval ≠ 0) (now : ℕ) :
    Untrapped (timer.afterWait now) Inv := by
  rw [GlobalTimer.afterWait]
  split
  · exact untrapped_nextEvent hinterval now
  · exact (untrapped_calculateTimerCounter hinterval now).map fun _ _ =>
      inv_of_running hinterval (by simp)

/-- The thread keeps the invariant: its period is zero at the head of its loop. -/
theorem Inv.run (hinv : timer.Inv) (now : ℕ) {period : ℕ} (hperiod : period ≠ 0) :
    Untrapped (timer.run now period) Inv := by
  rw [GlobalTimer.run]
  split
  case h_1 => exact hinv
  case h_2 => exact hinv
  case h_3 hnotified =>
    rw [if_neg (not_not.mpr (hinv.notified hnotified))]
    exact (untrapped_remainderOf hperiod now).map fun _ _ =>
      inv_of_running hperiod (by simp)
  case h_4 hpoint =>
    have hinterval := hinv.running (by simp [hpoint]) (by simp [hpoint])
    split
    · have hstarted : { timer with timerStarted := now }.timerInterval ≠ 0 := hinterval
      exact untrapped_nextEvent hstarted now
    · exact hinv
  case h_5 hpoint =>
    have hinterval := hinv.running (by simp [hpoint]) (by simp [hpoint])
    split
    · split
      · rfl
      · have hfired : timer.fire.timerInterval ≠ 0 := hinterval
        exact untrapped_afterWait hfired now
    · exact hinv
  case h_6 hpoint =>
    exact untrapped_afterWait (hinv.running (by simp [hpoint]) (by simp [hpoint])) now

end GlobalTimer

/-! ## The system watchdog -/

namespace ArmSwdt

variable {swdt : ArmSwdt}

/-- The thread is at the head of its loop only for the first time. -/
structure Inv (swdt : ArmSwdt) : Prop where
  head : swdt.point = .head → swdt.swdtPeriod = 0
  woken : swdt.point ≠ .woken

theorem inv_of_waiting (hhead : swdt.point ≠ .head) (hwoken : swdt.point ≠ .woken) :
    swdt.Inv :=
  ⟨fun hpoint => absurd hpoint hhead, hwoken⟩

/-- The watchdog is not restarted when it has run out. -/
def Unrestarted (swdt : ArmSwdt) (offset : ℕ) (data : Word) : Prop :=
  offset = 0x8 → data.setWidth 16 = (0x1999 : BitVec 16) → swdt.point ≠ .waiting

theorem inv_made : made.Inv := by
  constructor
  · intro _
    rfl
  · intro hwoken
    cases hwoken

theorem Inv.write (hinv : swdt.Inv) {offset : ℕ} {data : Word}
    (hunrestarted : swdt.Unrestarted offset data) :
    Untrapped (swdt.write offset data) Inv := by
  unfold ArmSwdt.write
  split
  case h_1 =>
    dsimp only
    split <;> exact ⟨hinv.head, hinv.woken⟩
  case h_2 =>
    dsimp only
    split <;> exact ⟨hinv.head, hinv.woken⟩
  case h_3 =>
    have hpoint : (swdt.writeRestart data).point = swdt.point := by
      simp only [writeRestart]
      split
      case isTrue hkey =>
        have hwaiting := hunrestarted rfl hkey
        cases hpoint : swdt.point with
        | waiting => exact absurd hpoint hwaiting
        | _ => rfl
      case isFalse => rfl
    exact ⟨fun hhead => hinv.head (hpoint ▸ hhead), fun hwoken => hinv.woken (hpoint ▸ hwoken)⟩
  case h_4 => rfl
  case h_5 => exact hinv

theorem Inv.run (hinv : swdt.Inv) (now period : ℕ) :
    Untrapped (swdt.run now period) Inv := by
  rw [ArmSwdt.run]
  split
  case h_1 hhead =>
    rw [ArmSwdt.head, if_neg (not_not.mpr (hinv.head hhead))]
    have hinterval : Untrapped (calculateTimerInterval { swdt with swdtPeriod := period })
        fun _ => True := by
      rw [calculateTimerInterval]
      split
      · rfl
      · trivial
    exact hinterval.map fun _ _ => inv_of_waiting (by simp) (by simp)
  case h_2 hwoken => exact absurd hwoken hinv.woken
  case h_3 =>
    split
    · apply inv_of_waiting <;> dsimp only <;> split <;> simp
    · exact hinv
  case h_4 =>
    split
    · exact inv_of_waiting (by simp) (by simp)
    · exact hinv
  case h_5 => exact hinv

end ArmSwdt

/-! ## Runs -/

namespace TimerBlocks

variable {nCores : ℕ} {blocks : TimerBlocks nCores}

structure Inv (blocks : TimerBlocks nCores) : Prop where
  twd : blocks.twd.Inv
  glbt : blocks.glbt.Inv
  swdt : blocks.swdt.Inv

/-- What software does and does not do, and what the clock registers give. -/
def Programmed (blocks : TimerBlocks nCores) : TimerEvent nCores → Prop
  | .twdWrite offset data => blocks.twd.Prepared offset data
  | .glbtRead _ offset _ => blocks.glbt.Started offset
  | .glbtWrite _ offset data => blocks.glbt.Started offset ∧ blocks.glbt.Once offset data
  | .swdtWrite offset data => blocks.swdt.Unrestarted offset data
  | .twdRun period | .glbtRun period => period ≠ 0
  | _ => True

instance decidableProgrammed (blocks : TimerBlocks nCores) :
    (event : TimerEvent nCores) → Decidable (blocks.Programmed event)
  | .elapse _ | .twdRead _ | .swdtRead _ | .twdRunWatchdog | .swdtRun _ => .isTrue trivial
  | .twdWrite offset data =>
      inferInstanceAs (Decidable (offset = 0x28 → data.getLsbD 0 = true →
        blocks.twd.wdgEnabled = false → blocks.twd.twdPeriod ≠ 0 ∧ blocks.twd.wdgCounter ≠ 0))
  | .glbtRead _ offset _ =>
      inferInstanceAs (Decidable (blocks.glbt.atCounter offset = true →
        blocks.glbt.point ≠ .notified))
  | .glbtWrite _ offset data =>
      inferInstanceAs (Decidable ((blocks.glbt.atCounter offset = true →
        blocks.glbt.point ≠ .notified) ∧ (offset = 0x8 →
          data.getLsbD 0 ≠ blocks.glbt.regs.timerEnabled → blocks.glbt.point = .idle →
            blocks.glbt.timerInterval = 0)))
  | .swdtWrite offset data =>
      inferInstanceAs (Decidable (offset = 0x8 →
        data.setWidth 16 = (0x1999 : BitVec 16) → blocks.swdt.point ≠ .waiting))
  | .twdRun period | .glbtRun period => inferInstanceAs (Decidable (period ≠ 0))

/-- The blocks after an event. -/
def advance (blocks : TimerBlocks nCores) (event : TimerEvent nCores) :
    Option (TimerBlocks nCores) :=
  (blocks.step event).toOption

theorem inv_made (nCores : ℕ) (prescaler : BitVec 8) : (made nCores prescaler).Inv :=
  ⟨ArmTwd.inv_made, GlobalTimer.inv_made prescaler, ArmSwdt.inv_made⟩

/-- A step that is programmed keeps the invariant and does not trap. -/
theorem Inv.step (hinv : blocks.Inv) {event : TimerEvent nCores}
    (hprogrammed : blocks.Programmed event) : Untrapped (blocks.step event) Inv := by
  cases event with
  | elapse time => exact ⟨hinv.twd, hinv.glbt, hinv.swdt⟩
  | twdRead offset => exact (hinv.twd.read blocks.now offset).map fun _ _ => hinv
  | twdWrite offset data =>
      exact (hinv.twd.write hprogrammed).map fun _ htwd => ⟨htwd, hinv.glbt, hinv.swdt⟩
  | glbtRead idx offset payload =>
      exact (hinv.glbt.read idx blocks.now hprogrammed payload).map fun _ _ => hinv
  | glbtWrite idx offset data =>
      exact (hinv.glbt.write idx blocks.now hprogrammed.1 hprogrammed.2).map
        fun _ hglbt => ⟨hinv.twd, hglbt, hinv.swdt⟩
  | swdtRead offset => exact hinv
  | swdtWrite offset data =>
      exact (hinv.swdt.write hprogrammed).map fun _ hswdt => ⟨hinv.twd, hinv.glbt, hswdt⟩
  | twdRun period =>
      exact (hinv.twd.run blocks.now hprogrammed).map fun _ htwd =>
        ⟨htwd, hinv.glbt, hinv.swdt⟩
  | twdRunWatchdog =>
      exact (hinv.twd.runWatchdog blocks.now).map fun _ htwd => ⟨htwd, hinv.glbt, hinv.swdt⟩
  | glbtRun period =>
      exact (hinv.glbt.run blocks.now hprogrammed).map fun _ hglbt =>
        ⟨hinv.twd, hglbt, hinv.swdt⟩
  | swdtRun period =>
      exact (hinv.swdt.run blocks.now period).map fun _ hswdt => ⟨hinv.twd, hinv.glbt, hswdt⟩

/-- In every run whose steps are programmed no thread and no access divides by zero, and no
assertion about a period fails. -/
theorem never_traps (prescaler : BitVec 8) {events : List (TimerEvent nCores)}
    {event : TimerEvent nCores}
    (hprogrammed : Guarded.Meets advance Programmed (made nCores prescaler)
      (events ++ [event]))
    (hrun : Guarded.exec advance (made nCores prescaler) events = some blocks) :
    blocks.step event ≠ .error .period ∧ blocks.step event ≠ .error .division := by
  obtain ⟨hevents, hlast⟩ := Guarded.meets_append hprogrammed
  have hinv : blocks.Inv := by
    refine Guarded.exec_invariant (fun blocks event next hinv hguard hnext => ?_)
      (inv_made nCores prescaler) hevents hrun
    have hstep := Inv.step hinv hguard
    rw [advance] at hnext
    cases hresult : blocks.step event with
    | ok value =>
        rw [hresult] at hnext hstep
        cases hnext
        exact hstep
    | error stop =>
        rw [hresult] at hnext
        cases hnext
  exact (hinv.step (hlast blocks hrun).1).ne

/-- The private timer is started, then the watchdog, and its counter is read. -/
def watchdogEvents : List (TimerEvent 1) :=
  [.twdRun 3000, .twdWrite 0x8 1, .twdRun 3000, .twdWrite 0x20 100, .twdWrite 0x28 1,
    .twdRunWatchdog, .elapse 3000, .twdRunWatchdog, .elapse 30000]

theorem never_traps_watchdog :
    ∃ blocks : TimerBlocks 1,
      Guarded.exec advance (made 1 0) watchdogEvents = some blocks ∧
        blocks.step (.twdRead 0x24) ≠ .error .period ∧
          blocks.step (.twdRead 0x24) ≠ .error .division := by
  obtain ⟨blocks, hrun⟩ : ∃ blocks : TimerBlocks 1,
      Guarded.exec advance (made 1 0) watchdogEvents = some blocks := ⟨_, rfl⟩
  have hprogrammed : Guarded.Meets advance Programmed (made 1 0)
      (watchdogEvents ++ [.twdRead 0x24]) := by
    decide
  exact ⟨blocks, hrun, never_traps 0 hprogrammed hrun⟩

/-- Where a step stops. -/
def stopOf {α : Type*} : Except Stop α → Option Stop
  | .ok _ => none
  | .error stop => some stop

/-- The watchdog is enabled before the private timer was started, its counter is read with
nothing loaded, and the system watchdog is restarted when it has run out. -/
theorem not_never_traps :
    (Guarded.exec advance (made 1 0) [.twdRun 3000, .twdWrite 0x28 1]).map
        (fun blocks => stopOf (blocks.step .twdRunWatchdog)) = some (some .division) ∧
      (Guarded.exec advance (made 1 0)
          [.twdRun 3000, .twdWrite 0x8 1, .twdRun 3000, .twdWrite 0x28 1]).map
        (fun blocks => stopOf (blocks.step (.twdRead 0x24))) = some (some .division) ∧
      (Guarded.exec advance (made 1 0)
          [.swdtRun 9000, .elapse 20000000000000, .swdtRun 9000, .swdtWrite 0x8 0x1999]).map
        (fun blocks => stopOf (blocks.step (.swdtRun 9000))) = some (some .period) := by
  decide

end TimerBlocks

end Prazor.Devices.Timers
