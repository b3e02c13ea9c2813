import Prazor.Core.Guarded
import Prazor.Core.Payload

/-!
# Port arbitration

`cache64::b_transport` and the `CYCLE_ACCURATE` build of
`busmux64::b_transport` let one request at a time through to a target.  A
process takes the mutex `ml`, puts its identity in the queue of the target and,
if the target is busy or another process is ahead, waits for the target's
event.  The cache has one target, the multiplexer one for each initiator
socket.  The SystemC kernel switches processes only where they wait, so a
process is always at one of a few places; what a call does from one place to
the next is one step.  Whether the body of the call takes `ml` for a moment
makes no difference here, and neither does `busyAddr`.
-/

namespace Prazor.Bus

/-- Where a process is in `b_transport`, with the `idx` of its target. -/
inductive Place (Target : Type*) where
  | outside
  /-- At the first `ml.lock()`. -/
  | arriving (idx : Target)
  /-- In `wait(delay)`, with `ml` taken. -/
  | delayed (idx : Target)
  /-- In `wait(wake_event[idx])`. -/
  | waiting (idx : Target)
  /-- At the `ml.lock()` of the loop. -/
  | woken (idx : Target)
  /-- In the call to the target. -/
  | serviced (idx : Target)
  /-- At the last `ml.lock()`. -/
  | leaving (idx : Target)
  deriving DecidableEq

namespace Place

variable {Target : Type*}

/-- The request is past its `push` and before its `pop`. -/
def Queued (idx : Target) (place : Place Target) : Prop :=
  place = .delayed idx ∨ place = .waiting idx ∨ place = .woken idx ∨
    place = .serviced idx ∨ place = .leaving idx

/-- The request is in the serviced section. -/
def Inside (idx : Target) (place : Place Target) : Prop :=
  place = .serviced idx ∨ place = .leaving idx

/-- A sleeping process may have been woken, and nothing else. -/
def Wakes (before after : Place Target) : Prop :=
  after = before ∨ ∃ idx, before = .waiting idx ∧ after = .woken idx

theorem Wakes.queued_iff {before after : Place Target}
    (hwakes : Wakes before after) (idx : Target) :
    after.Queued idx ↔ before.Queued idx := by
  rcases hwakes with rfl | ⟨other, rfl, rfl⟩ <;> simp [Place.Queued]

theorem Wakes.inside_iff {before after : Place Target}
    (hwakes : Wakes before after) (idx : Target) :
    after.Inside idx ↔ before.Inside idx := by
  rcases hwakes with rfl | ⟨other, rfl, rfl⟩ <;> simp [Place.Inside]

theorem Wakes.delayed_iff {before after : Place Target}
    (hwakes : Wakes before after) (idx : Target) :
    after = .delayed idx ↔ before = .delayed idx := by
  rcases hwakes with rfl | ⟨other, rfl, rfl⟩ <;> simp

theorem Wakes.front {before after : Place Target} (hwakes : Wakes before after)
    {idx : Target} (hfront : before = .woken idx ∨ before.Inside idx) :
    after = .woken idx ∨ after.Inside idx := by
  rcases hwakes with rfl | ⟨other, rfl, rfl⟩
  · exact hfront
  · simp [Place.Inside] at hfront

end Place

/-- The members `b_transport` shares between processes, the place of every
process, and what a run has queued and serviced so far; no step reads the two
records. -/
structure Port (Target : Type*) where
  ml : Option ℕ
  busyFlags : Target → Bool
  requests : Target → List ℕ
  place : ℕ → Place Target
  queuedLog : Target → List ℕ
  servicedLog : Target → List ℕ

namespace Port

variable {Target : Type*} [DecidableEq Target]

/-- A port as constructed, before any call. -/
def start : Port Target where
  ml := none
  busyFlags := fun _ => false
  requests := fun _ => []
  place := fun _ => .outside
  queuedLog := fun _ => []
  servicedLog := fun _ => []

def goTo (port : Port Target) (tid : ℕ) (place : Place Target) : Port Target :=
  { port with place := Function.update port.place tid place }

/-- `wake_event[idx].notify()`: every process waiting for the event wakes. -/
def notify (port : Port Target) (idx : Target) : Port Target :=
  { port with place := fun tid =>
      if port.place tid = .waiting idx then .woken idx else port.place tid }

/-- `requests[idx].push(tid)`. -/
def push (port : Port Target) (tid : ℕ) (idx : Target) : Port Target :=
  { port with
    requests :=
      Function.update port.requests idx (port.requests idx ++ [tid])
    queuedLog :=
      Function.update port.queuedLog idx (port.queuedLog idx ++ [tid]) }

/-- `requests[idx].front() == tid`. -/
def isTop (port : Port Target) (tid : ℕ) (idx : Target) : Bool :=
  (port.requests idx).head? == some tid

/-- `busy_flags[idx] = true; ml.unlock();` and into the target. -/
def claim (port : Port Target) (tid : ℕ) (idx : Target) : Port Target :=
  { port.goTo tid (.serviced idx) with
    ml := none
    busyFlags := Function.update port.busyFlags idx true
    servicedLog :=
      Function.update port.servicedLog idx (port.servicedLog idx ++ [tid]) }

/-- From the first `ml.lock()` to the target, or to `wait(delay)`. -/
def enter (port : Port Target) (tid : ℕ) (idx : Target) : Port Target :=
  let port := port.push tid idx
  if port.busyFlags idx || !port.isTop tid idx then
    let port := if !port.isTop tid idx && !port.busyFlags idx then
      port.notify idx else port
    { port.goTo tid (.delayed idx) with ml := some tid }
  else
    port.claim tid idx

/-- From the `ml.lock()` of the loop to the target, or once more to the wait. -/
def retry (port : Port Target) (tid : ℕ) (idx : Target) : Port Target :=
  if port.busyFlags idx || !port.isTop tid idx then
    port.goTo tid (.waiting idx)
  else
    port.claim tid idx

/-- From the last `ml.lock()` to the return; the queue is asserted to have this
request at its front. -/
def leave (port : Port Target) (tid : ℕ) (idx : Target) : Option (Port Target) :=
  if port.isTop tid idx then
    let port := { port with
      busyFlags := Function.update port.busyFlags idx false
      requests := Function.update port.requests idx (port.requests idx).tail }
    some ((port.notify idx).goTo tid .outside)
  else
    none

/-- What the kernel may do next. -/
inductive Event (Target : Type*) where
  /-- A process calls `b_transport`. -/
  | call (tid : ℕ) (idx : Target)
  /-- A process gets the mutex it is at. -/
  | lock (tid : ℕ)
  /-- `wait(delay)` ends. -/
  | timeout (tid : ℕ)
  /-- The call to the target returns. -/
  | finish (tid : ℕ)

/-- One event; `none` when it cannot happen, or fails an assertion. -/
def step (port : Port Target) : Event Target → Option (Port Target)
  | .call tid idx =>
      match port.place tid with
      | .outside => some (port.goTo tid (.arriving idx))
      | _ => none
  | .lock tid =>
      match port.ml with
      | some _ => none
      | none =>
          match port.place tid with
          | .arriving idx => some (port.enter tid idx)
          | .woken idx => some (port.retry tid idx)
          | .leaving idx => port.leave tid idx
          | _ => none
  | .timeout tid =>
      match port.place tid with
      | .delayed idx => some { port.goTo tid (.waiting idx) with ml := none }
      | _ => none
  | .finish tid =>
      match port.place tid with
      | .serviced idx => some (port.goTo tid (.leaving idx))
      | _ => none

/-! ## The invariant -/

/-- What holds between two steps. -/
structure Inv (port : Port Target) : Prop where
  nodup : ∀ idx, (port.requests idx).Nodup
  mem_iff : ∀ tid idx, tid ∈ port.requests idx ↔ (port.place tid).Queued idx
  /-- The request inside is the one at the front. -/
  inside : ∀ tid idx, (port.place tid).Inside idx →
    port.busyFlags idx = true ∧ (port.requests idx).head? = some tid
  busy : ∀ idx, port.busyFlags idx = true →
    ∃ tid, (port.place tid).Inside idx
  /-- The front never sleeps. -/
  front : ∀ tid idx, (port.requests idx).head? = some tid →
    port.place tid = .woken idx ∨ (port.place tid).Inside idx
  mutex : ∀ tid, port.ml = some tid ↔ ∃ idx, port.place tid = .delayed idx
  /-- The requests serviced are those queued first. -/
  logs : ∀ idx, ∃ done, port.queuedLog idx = done ++ port.requests idx ∧
    port.servicedLog idx =
      done ++ if port.busyFlags idx then (port.requests idx).take 1 else []

omit [DecidableEq Target] in
theorem start_inv : Inv (start : Port Target) where
  nodup _ := List.nodup_nil
  mem_iff _ _ := by simp [start, Place.Queued]
  inside _ _ hinside := by simp [start, Place.Inside] at hinside
  busy _ hbusy := by simp [start] at hbusy
  front _ _ hfront := by simp [start] at hfront
  mutex _ := by simp [start]
  logs _ := ⟨[], by simp [start]⟩

theorem notify_wakes (port : Port Target) (idx : Target) (tid : ℕ) :
    (port.place tid).Wakes ((port.notify idx).place tid) := by
  by_cases hwaiting : port.place tid = .waiting idx
  · exact Or.inr ⟨idx, hwaiting, by simp [notify, hwaiting]⟩
  · exact Or.inl (by simp [notify, hwaiting])

omit [DecidableEq Target] in
/-- One process moves inside the section between `push` and `pop`, or outside
it, and sleeping ones may be woken. -/
theorem Inv.move {port next : Port Target} (hinv : Inv port) (tid : ℕ)
    (hbusy : next.busyFlags = port.busyFlags)
    (hrequests : next.requests = port.requests)
    (hqueuedLog : next.queuedLog = port.queuedLog)
    (hservicedLog : next.servicedLog = port.servicedLog)
    (hothers : ∀ other, other ≠ tid →
      (port.place other).Wakes (next.place other))
    (hqueued : ∀ idx, (next.place tid).Queued idx ↔ (port.place tid).Queued idx)
    (hinside : ∀ idx, (next.place tid).Inside idx ↔ (port.place tid).Inside idx)
    (hfront : ∀ idx, (port.requests idx).head? = some tid →
      next.place tid = .woken idx ∨ (next.place tid).Inside idx)
    (hmutex : ∀ other, next.ml = some other ↔
      ∃ idx, next.place other = .delayed idx) :
    Inv next := by
  have hqueued' : ∀ other idx,
      (next.place other).Queued idx ↔ (port.place other).Queued idx := by
    intro other idx
    by_cases hother : other = tid
    · exact hother ▸ hqueued idx
    · exact (hothers other hother).queued_iff idx
  have hinside' : ∀ other idx,
      (next.place other).Inside idx ↔ (port.place other).Inside idx := by
    intro other idx
    by_cases hother : other = tid
    · exact hother ▸ hinside idx
    · exact (hothers other hother).inside_iff idx
  constructor
  case nodup =>
    intro idx
    rw [hrequests]
    exact hinv.nodup idx
  case mem_iff =>
    intro other idx
    rw [hrequests, hqueued']
    exact hinv.mem_iff other idx
  case inside =>
    intro other idx hother
    rw [hbusy, hrequests]
    exact hinv.inside other idx ((hinside' other idx).mp hother)
  case busy =>
    intro idx hidx
    obtain ⟨other, hother⟩ := hinv.busy idx (hbusy ▸ hidx)
    exact ⟨other, (hinside' other idx).mpr hother⟩
  case front =>
    intro other idx hother
    rw [hrequests] at hother
    by_cases heq : other = tid
    · subst heq
      exact hfront idx hother
    · exact (hothers other heq).front (hinv.front other idx hother)
  case mutex => exact hmutex
  case logs =>
    intro idx
    rw [hqueuedLog, hservicedLog, hbusy, hrequests]
    exact hinv.logs idx

/-! ## Each section of the code keeps it -/

omit [DecidableEq Target] in
/-- The mutex stays with whoever waits for a delay. -/
theorem Inv.goTo {port : Port Target} (hinv : Inv port) {tid : ℕ}
    {place : Place Target}
    (hbefore : ∀ idx, port.place tid ≠ .delayed idx)
    (hafter : ∀ idx, place ≠ .delayed idx)
    (hqueued : ∀ idx, place.Queued idx ↔ (port.place tid).Queued idx)
    (hinside : ∀ idx, place.Inside idx ↔ (port.place tid).Inside idx)
    (hfront : ∀ idx, (port.requests idx).head? = some tid →
      place = .woken idx ∨ place.Inside idx) :
    Inv (port.goTo tid place) := by
  have hself : (port.goTo tid place).place tid = place := by simp [Port.goTo]
  refine hinv.move tid rfl rfl rfl rfl ?_ (by rwa [hself]) (by rwa [hself])
    (by rwa [hself]) ?_
  · intro other hother
    exact Or.inl (Function.update_of_ne hother _ _)
  · intro other
    rw [show (port.goTo tid place).ml = port.ml from rfl, hinv.mutex]
    by_cases hother : other = tid
    · subst hother
      simp [hself, hbefore, hafter]
    · simp [Port.goTo, hother]

omit [DecidableEq Target] in
theorem call_inv {port : Port Target} (hinv : Inv port) {tid : ℕ} (idx : Target)
    (hplace : port.place tid = .outside) :
    Inv (port.goTo tid (.arriving idx)) := by
  refine hinv.goTo (by simp [hplace]) (by simp) ?_ ?_ ?_
  · simp [hplace, Place.Queued]
  · simp [hplace, Place.Inside]
  · intro idx' hidx'
    have hfront := hinv.front tid idx' hidx'
    simp [hplace, Place.Inside] at hfront

omit [DecidableEq Target] in
theorem finish_inv {port : Port Target} (hinv : Inv port) {tid : ℕ}
    {idx : Target} (hplace : port.place tid = .serviced idx) :
    Inv (port.goTo tid (.leaving idx)) := by
  refine hinv.goTo (by simp [hplace]) (by simp) ?_ ?_ ?_
  · simp [hplace, Place.Queued]
  · simp [hplace, Place.Inside]
  · intro idx' hidx'
    have hfront := hinv.front tid idx' hidx'
    simpa [hplace, Place.Inside] using hfront

omit [DecidableEq Target] in
theorem timeout_inv {port : Port Target} (hinv : Inv port) {tid : ℕ}
    {idx : Target} (hplace : port.place tid = .delayed idx) :
    Inv { port.goTo tid (.waiting idx) with ml := none } := by
  refine hinv.move tid rfl rfl rfl rfl ?_ ?_ ?_ ?_ ?_
  · intro other hother
    exact Or.inl (Function.update_of_ne hother _ _)
  · simp [Port.goTo, hplace, Place.Queued]
  · simp [Port.goTo, hplace, Place.Inside]
  · intro idx' hidx'
    have hfront := hinv.front tid idx' hidx'
    simp [hplace, Place.Inside] at hfront
  · intro other
    have hml : port.ml = some tid := (hinv.mutex tid).mpr ⟨idx, hplace⟩
    by_cases hother : other = tid
    · subst hother
      simp [Port.goTo]
    · have hnot : ¬∃ idx, port.place other = .delayed idx := by
        rw [← hinv.mutex, hml, Option.some.injEq]
        exact fun heq => hother heq.symm
      simpa [Port.goTo, hother] using hnot

omit [DecidableEq Target] in
/-- A busy target has its front request inside. -/
theorem Inv.inside_of_busy {port : Port Target} (hinv : Inv port) {tid : ℕ}
    {idx : Target} (hbusy : port.busyFlags idx = true)
    (hfront : (port.requests idx).head? = some tid) :
    (port.place tid).Inside idx := by
  obtain ⟨other, hother⟩ := hinv.busy idx hbusy
  have hhead := (hinv.inside other idx hother).2
  rw [hfront, Option.some.injEq] at hhead
  exact hhead ▸ hother

omit [DecidableEq Target] in
/-- Whoever is awake and has to wait is not at the front. -/
theorem Inv.front_ne_of_wait {port : Port Target} (hinv : Inv port) {tid : ℕ}
    {idx : Target} (hplace : port.place tid = .woken idx)
    (hwait : (port.busyFlags idx || !port.isTop tid idx) = true) (idx' : Target) :
    (port.requests idx').head? ≠ some tid := by
  intro hfront
  have hidx : idx' = idx := by
    simpa [hplace, Place.Inside, eq_comm] using hinv.front tid idx' hfront
  subst hidx
  have htop : port.isTop tid idx' = true := by simp [isTop, hfront]
  have hbusy : port.busyFlags idx' = true := by simpa [htop] using hwait
  have hinside := hinv.inside_of_busy hbusy hfront
  simp [hplace, Place.Inside] at hinside

omit [DecidableEq Target] in
theorem sleep_inv {port : Port Target} (hinv : Inv port) {tid : ℕ} {idx : Target}
    (hplace : port.place tid = .woken idx)
    (hwait : (port.busyFlags idx || !port.isTop tid idx) = true) :
    Inv (port.goTo tid (.waiting idx)) := by
  refine hinv.goTo (by simp [hplace]) (by simp) ?_ ?_ ?_
  · simp [hplace, Place.Queued]
  · simp [hplace, Place.Inside]
  · intro idx' hidx'
    exact absurd hidx' (hinv.front_ne_of_wait hplace hwait idx')

/-- A request at the front of a free target's queue goes in. -/
theorem claim_inv {port : Port Target} (hinv : Inv port) {tid : ℕ} {idx : Target}
    (hml : port.ml = none) (hplace : port.place tid = .woken idx)
    (hbusy : port.busyFlags idx = false)
    (hfront : (port.requests idx).head? = some tid) :
    Inv (port.claim tid idx) := by
  have hself : (port.claim tid idx).place tid = .serviced idx := by
    simp [claim, Port.goTo]
  have hothers : ∀ other, other ≠ tid →
      (port.claim tid idx).place other = port.place other := by
    intro other hother
    simp [claim, Port.goTo, hother]
  have hinside : ∀ other idx', ((port.claim tid idx).place other).Inside idx' ↔
      (other = tid ∧ idx' = idx) ∨ (port.place other).Inside idx' := by
    intro other idx'
    by_cases hother : other = tid
    · subst hother
      simp [hself, hplace, Place.Inside, eq_comm]
    · simp [hothers other hother, hother]
  have hqueued : ∀ other idx', ((port.claim tid idx).place other).Queued idx' ↔
      (port.place other).Queued idx' := by
    intro other idx'
    by_cases hother : other = tid
    · subst hother
      simp [hself, hplace, Place.Queued]
    · simp [hothers other hother]
  constructor
  case nodup => exact hinv.nodup
  case mem_iff => 
    intro other idx'
    rw [hqueued]
    exact hinv.mem_iff other idx'
  case inside =>
    intro other idx' hother
    rcases (hinside other idx').mp hother with ⟨rfl, rfl⟩ | hother
    · exact ⟨by simp [claim], hfront⟩
    · obtain ⟨hflag, hhead⟩ := hinv.inside other idx' hother
      exact ⟨by simp [claim, Function.update_apply, hflag], hhead⟩
  case busy =>
    intro idx' hidx'
    by_cases heq : idx' = idx
    · exact ⟨tid, (hinside tid idx').mpr (Or.inl ⟨rfl, heq⟩)⟩
    · have hflag : port.busyFlags idx' = true := by
        simpa [claim, heq] using hidx'
      obtain ⟨other, hother⟩ := hinv.busy idx' hflag
      exact ⟨other, (hinside other idx').mpr (Or.inr hother)⟩
  case front =>
    intro other idx' hother
    by_cases heq : other = tid
    · subst heq
      have hold := hinv.front other idx' hother
      simpa [hself, hplace, Place.Inside] using hold
    · rw [hothers other heq]
      exact hinv.front other idx' hother
  case mutex =>
    intro other
    have hnone : ∀ idx', port.place other ≠ .delayed idx' := by
      intro idx' hdelayed
      simpa [hml] using (hinv.mutex other).mpr ⟨idx', hdelayed⟩
    rw [show (port.claim tid idx).ml = none from rfl]
    by_cases heq : other = tid
    · subst heq
      simp [hself]
    · simp [hothers other heq, hnone]
  case logs =>
    intro other
    obtain ⟨done, hqueuedLog, hservicedLog⟩ := hinv.logs other
    refine ⟨done, hqueuedLog, ?_⟩
    by_cases hother : other = idx
    · subst hother
      obtain ⟨rest, hrest⟩ := List.head?_eq_some_iff.mp hfront
      simp [claim, Port.goTo, hservicedLog, hbusy, hrest]
    · simp [claim, Port.goTo, hother, hservicedLog]

/-- A request just pushed, looked at as one that has just woken. -/
theorem push_inv {port : Port Target} (hinv : Inv port) {tid : ℕ} {idx : Target}
    (hplace : port.place tid = .arriving idx) :
    Inv ((port.push tid idx).goTo tid (.woken idx)) := by
  have hself : ((port.push tid idx).goTo tid (.woken idx)).place tid =
      .woken idx := by
    simp [Port.goTo]
  have hothers : ∀ other, other ≠ tid →
      ((port.push tid idx).goTo tid (.woken idx)).place other =
        port.place other := by
    intro other hother
    simp [Port.goTo, push, hother]
  have hnew : ∀ idx', tid ∉ port.requests idx' := by
    intro idx'
    rw [hinv.mem_iff]
    simp [hplace, Place.Queued]
  have hinside : ∀ other idx',
      (((port.push tid idx).goTo tid (.woken idx)).place other).Inside idx' ↔
        (port.place other).Inside idx' := by
    intro other idx'
    by_cases hother : other = tid
    · subst hother
      simp [hself, hplace, Place.Inside]
    · rw [hothers other hother]
  constructor
  case nodup =>
    intro idx'
    by_cases hidx : idx' = idx
    · subst hidx
      simpa [Port.goTo, push, List.nodup_append] using
        ⟨hinv.nodup idx', fun other hother heq => hnew idx' (heq ▸ hother)⟩
    · simpa [Port.goTo, push, hidx] using hinv.nodup idx'
  case mem_iff =>
    intro other idx'
    by_cases hother : other = tid
    · subst hother
      rw [hself]
      by_cases hidx : idx' = idx
      · subst hidx
        simp [Port.goTo, push, Place.Queued]
      · simp [Port.goTo, push, Place.Queued, hidx, hnew, Ne.symm hidx]
    · rw [hothers other hother, ← hinv.mem_iff]
      by_cases hidx : idx' = idx
      · subst hidx
        simp [Port.goTo, push, hother]
      · simp [Port.goTo, push, hidx]
  case inside =>
    intro other idx' hother
    obtain ⟨hflag, hhead⟩ := hinv.inside other idx' ((hinside other idx').mp hother)
    refine ⟨hflag, ?_⟩
    by_cases hidx : idx' = idx
    · subst hidx
      simp [Port.goTo, push, hhead]
    · simpa [Port.goTo, push, hidx] using hhead
  case busy =>
    intro idx' hidx'
    obtain ⟨other, hother⟩ := hinv.busy idx' hidx'
    exact ⟨other, (hinside other idx').mpr hother⟩
  case front =>
    intro other idx' hother
    by_cases hsame : other = tid
    · subst hsame
      rw [hself]
      by_cases hidx : idx' = idx
      · exact Or.inl (hidx ▸ rfl)
      · have hmem := List.mem_of_mem_head? (by simpa [Port.goTo, push, hidx] using hother)
        exact absurd hmem (hnew idx')
    · rw [hothers other hsame]
      refine hinv.front other idx' ?_
      by_cases hidx : idx' = idx
      · subst hidx
        cases hqueue : port.requests idx' with
        | nil => simp [Port.goTo, push, hqueue, Ne.symm hsame] at hother
        | cons first rest => simpa [Port.goTo, push, hqueue] using hother
      · simpa [Port.goTo, push, hidx] using hother
  case mutex =>
    intro other
    rw [show ((port.push tid idx).goTo tid (.woken idx)).ml = port.ml from rfl,
      hinv.mutex]
    by_cases hother : other = tid
    · subst hother
      simp [hself, hplace]
    · rw [hothers other hother]
  case logs =>
    intro idx'
    obtain ⟨done, hqueuedLog, hservicedLog⟩ := hinv.logs idx'
    refine ⟨done, ?_, ?_⟩
    · by_cases hidx : idx' = idx
      · subst hidx
        simp [Port.goTo, push, hqueuedLog]
      · simpa [Port.goTo, push, hidx] using hqueuedLog
    · by_cases hidx : idx' = idx
      · subst hidx
        by_cases hbusy : port.busyFlags idx' = true
        · obtain ⟨other, hother⟩ := hinv.busy idx' hbusy
          obtain ⟨rest, hrest⟩ :=
            List.head?_eq_some_iff.mp (hinv.inside other idx' hother).2
          simp [Port.goTo, push, hservicedLog, hbusy, hrest]
        · simp [Port.goTo, push, hservicedLog, hbusy]
      · simpa [Port.goTo, push, hidx] using hservicedLog

/-- Going to the delay takes the free mutex along. -/
theorem wait_inv {port : Port Target} (hinv : Inv port) {tid : ℕ} {idx : Target}
    (hml : port.ml = none) (hplace : port.place tid = .woken idx)
    (hwait : (port.busyFlags idx || !port.isTop tid idx) = true)
    {next : Port Target}
    (hnext : next = { port.goTo tid (.delayed idx) with ml := some tid } ∨
      next = { (port.notify idx).goTo tid (.delayed idx) with ml := some tid }) :
    Inv next := by
  have hself : next.place tid = .delayed idx := by
    rcases hnext with rfl | rfl <;> simp [Port.goTo]
  have hothers : ∀ other, other ≠ tid →
      (port.place other).Wakes (next.place other) := by
    intro other hother
    rcases hnext with rfl | rfl
    · exact Or.inl (Function.update_of_ne hother _ _)
    · have hwakes := notify_wakes port idx other
      simpa [Port.goTo, hother] using hwakes
  have hnone : ∀ other idx', port.place other ≠ .delayed idx' := by
    intro other idx' hdelayed
    simpa [hml] using (hinv.mutex other).mpr ⟨idx', hdelayed⟩
  refine hinv.move tid ?_ ?_ ?_ ?_ hothers ?_ ?_ ?_ ?_
  · rcases hnext with rfl | rfl <;> rfl
  · rcases hnext with rfl | rfl <;> rfl
  · rcases hnext with rfl | rfl <;> rfl
  · rcases hnext with rfl | rfl <;> rfl
  · simp [hself, hplace, Place.Queued]
  · simp [hself, hplace, Place.Inside]
  · intro idx' hidx'
    exact absurd hidx' (hinv.front_ne_of_wait hplace hwait idx')
  · intro other
    have hml' : next.ml = some tid := by
      rcases hnext with rfl | rfl <;> rfl
    rw [hml', Option.some.injEq]
    by_cases hother : other = tid
    · subst hother
      simp [hself]
    · simp only [(hothers other hother).delayed_iff, hnone, exists_false,
        iff_false]
      exact fun heq => hother heq.symm

theorem enter_inv {port : Port Target} (hinv : Inv port) {tid : ℕ} {idx : Target}
    (hml : port.ml = none) (hplace : port.place tid = .arriving idx) :
    Inv (port.enter tid idx) := by
  have hpushed := push_inv hinv hplace
  have hself : ((port.push tid idx).goTo tid (.woken idx)).place tid =
      .woken idx := by
    simp [Port.goTo]
  have hagain : ∀ place : Place Target,
      ((port.push tid idx).goTo tid (.woken idx)).goTo tid place =
        (port.push tid idx).goTo tid place := by
    simp [Port.goTo]
  rw [enter]
  split
  case isTrue hwait =>
    refine wait_inv hpushed hml hself hwait ?_
    split
    · right
      simp [Port.goTo, notify, Function.update_apply]
      funext other
      grind
    · left
      rw [hagain]
  case isFalse hgo =>
    have hgo' : (port.push tid idx).busyFlags idx = false ∧
        (port.push tid idx).isTop tid idx = true := by
      simpa using hgo
    have hclaim : (port.push tid idx).claim tid idx =
        ((port.push tid idx).goTo tid (.woken idx)).claim tid idx := by
      rw [claim, claim, hagain]
      rfl
    rw [hclaim]
    exact claim_inv hpushed hml hself hgo'.1 (beq_iff_eq.mp hgo'.2)

/-- Everything the last section changes. -/
theorem leave_effect {port next : Port Target} {tid : ℕ} {idx : Target}
    (hstep : port.leave tid idx = some next) :
    next.ml = port.ml ∧
      next.busyFlags = Function.update port.busyFlags idx false ∧
      next.requests =
        Function.update port.requests idx (port.requests idx).tail ∧
      next.queuedLog = port.queuedLog ∧ next.servicedLog = port.servicedLog ∧
      next.place tid = .outside ∧
      ∀ other, other ≠ tid → next.place other = (port.notify idx).place other := by
  rw [leave] at hstep
  split at hstep
  case isFalse => simp at hstep
  case isTrue =>
    rw [Option.some.injEq] at hstep
    subst hstep
    refine ⟨rfl, rfl, rfl, rfl, rfl, Function.update_self _ _ _, ?_⟩
    intro other hother
    exact Function.update_of_ne hother _ _

theorem leave_inv {port next : Port Target} (hinv : Inv port) {tid : ℕ}
    {idx : Target} (hml : port.ml = none) (hplace : port.place tid = .leaving idx)
    (hstep : port.leave tid idx = some next) : Inv next := by
  obtain ⟨hbusy, hhead⟩ := hinv.inside tid idx (Or.inr hplace)
  obtain ⟨rest, hrest⟩ := List.head?_eq_some_iff.mp hhead
  have hnodup : tid ∉ rest ∧ rest.Nodup := by
    simpa [hrest] using hinv.nodup idx
  obtain ⟨hml', hflags, hrequests, hqueuedLog, hservicedLog, hself, hothers⟩ :=
    leave_effect hstep
  have hwakes : ∀ other, other ≠ tid →
      (port.place other).Wakes (next.place other) := by
    intro other hother
    rw [hothers other hother]
    exact notify_wakes port idx other
  have hidx : next.requests idx = rest := by simp [hrequests, hrest]
  have helse : ∀ idx', idx' ≠ idx → next.requests idx' = port.requests idx' := by
    intro idx' hne
    simp [hrequests, hne]
  have honly : ∀ idx', (port.place tid).Queued idx' → idx' = idx := by
    intro idx' hqueued
    simpa [hplace, Place.Queued, eq_comm] using hqueued
  have hinside : ∀ other idx', (next.place other).Inside idx' →
      other ≠ tid ∧ idx' ≠ idx ∧ (port.place other).Inside idx' := by
    intro other idx' hother
    have hne : other ≠ tid := by
      rintro rfl
      simp [hself, Place.Inside] at hother
    have hbefore := ((hwakes other hne).inside_iff idx').mp hother
    refine ⟨hne, ?_, hbefore⟩
    rintro rfl
    have hfront := (hinv.inside other idx' hbefore).2
    rw [hhead, Option.some.injEq] at hfront
    exact hne hfront.symm
  constructor
  case nodup =>
    intro idx'
    by_cases hne : idx' = idx
    · subst hne
      rw [hidx]
      exact hnodup.2
    · rw [helse idx' hne]
      exact hinv.nodup idx'
  case mem_iff =>
    intro other idx'
    by_cases hother : other = tid
    · subst hother
      have hout : ¬(next.place other).Queued idx' := by
        simp [hself, Place.Queued]
      refine iff_of_false ?_ hout
      by_cases hne : idx' = idx
      · rw [hne, hidx]
        exact hnodup.1
      · rw [helse idx' hne, hinv.mem_iff]
        exact fun hqueued => hne (honly idx' hqueued)
    · rw [(hwakes other hother).queued_iff, ← hinv.mem_iff]
      by_cases hne : idx' = idx
      · subst hne
        simp [hidx, hrest, hother]
      · rw [helse idx' hne]
  case inside =>
    intro other idx' hother
    obtain ⟨-, hne, hbefore⟩ := hinside other idx' hother
    rw [helse idx' hne, hflags, Function.update_of_ne hne]
    exact hinv.inside other idx' hbefore
  case busy =>
    intro idx' hidx'
    have hne : idx' ≠ idx := by
      rintro rfl
      simp [hflags] at hidx'
    rw [hflags, Function.update_of_ne hne] at hidx'
    obtain ⟨other, hother⟩ := hinv.busy idx' hidx'
    have hother' : other ≠ tid := by
      rintro rfl
      refine hne ?_
      simpa [hplace, Place.Inside, eq_comm] using hother
    exact ⟨other, ((hwakes other hother').inside_iff idx').mpr hother⟩
  case front =>
    intro other idx' hother
    by_cases hne : idx' = idx
    · -- the request behind was asleep or at the lock, and now is woken
      subst hne
      rw [hidx] at hother
      have hmem : other ∈ rest := List.mem_of_mem_head? (by simp [hother])
      have hother' : other ≠ tid := fun heq => hnodup.1 (heq ▸ hmem)
      have hqueued : (port.place other).Queued idx' := by
        rw [← hinv.mem_iff, hrest]
        exact List.mem_cons_of_mem tid hmem
      left
      rw [hothers other hother']
      rcases hqueued with hdelayed | hwaiting | hwoken | hinside'
      · have hlocked := (hinv.mutex other).mpr ⟨idx', hdelayed⟩
        simp [hml] at hlocked
      · simp [notify, hwaiting]
      · simp [notify, hwoken]
      · have hfront := (hinv.inside other idx' hinside').2
        rw [hhead, Option.some.injEq] at hfront
        exact absurd hfront.symm hother'
    · rw [helse idx' hne] at hother
      have hold := hinv.front other idx' hother
      have hother' : other ≠ tid := by
        rintro rfl
        refine hne ?_
        simpa [hplace, Place.Inside, eq_comm] using hold
      exact (hwakes other hother').front hold
  case mutex =>
    intro other
    rw [hml', hinv.mutex]
    by_cases hother : other = tid
    · subst hother
      simp [hself, hplace]
    · simp only [(hwakes other hother).delayed_iff]
  case logs =>
    intro idx'
    obtain ⟨done, hqueued, hserviced⟩ := hinv.logs idx'
    rw [hqueuedLog, hservicedLog]
    by_cases hne : idx' = idx
    · subst hne
      refine ⟨done ++ [tid], ?_, ?_⟩
      · simp [hqueued, hidx, hrest]
      · simp [hserviced, hbusy, hflags, hrest]
    · rw [helse idx' hne, hflags, Function.update_of_ne hne]
      exact ⟨done, hqueued, hserviced⟩

/-- Every step keeps the invariant. -/
theorem step_inv {port next : Port Target} (hinv : Inv port)
    {event : Event Target} (hstep : port.step event = some next) : Inv next := by
  cases event with
  | call tid idx =>
      rw [step] at hstep
      split at hstep
      case h_1 hplace =>
        rw [← Option.some.inj hstep]
        exact call_inv hinv idx hplace
      case h_2 => simp at hstep
  | lock tid =>
      rw [step] at hstep
      split at hstep
      case h_1 => simp at hstep
      case h_2 hml =>
        split at hstep
        case h_1 hplace =>
          rw [← Option.some.inj hstep]
          exact enter_inv hinv hml hplace
        case h_2 idx hplace =>
          rw [← Option.some.inj hstep, retry]
          split
          case isTrue hwait => exact sleep_inv hinv hplace hwait
          case isFalse hgo =>
            simp only [Bool.or_eq_true, Bool.not_eq_true', not_or,
              Bool.not_eq_true, Bool.not_eq_false] at hgo
            exact claim_inv hinv hml hplace hgo.1 (beq_iff_eq.mp hgo.2)
        case h_3 hplace => exact leave_inv hinv hml hplace hstep
        case h_4 => simp at hstep
  | timeout tid =>
      rw [step] at hstep
      split at hstep
      case h_1 hplace =>
        rw [← Option.some.inj hstep]
        exact timeout_inv hinv hplace
      case h_2 => simp at hstep
  | finish tid =>
      rw [step] at hstep
      split at hstep
      case h_1 hplace =>
        rw [← Option.some.inj hstep]
        exact finish_inv hinv hplace
      case h_2 => simp at hstep

/-! ## What the invariant says of a port -/

/-- No request is lost. -/
structure Fair (port : Port Target) : Prop where
  alone : ∀ idx tid other, (port.place tid).Inside idx →
    (port.place other).Inside idx → tid = other
  inOrder : ∀ idx, port.servicedLog idx <+: port.queuedLog idx
  /-- A request stays queued until it has been serviced. -/
  kept : ∀ idx tid, tid ∈ port.requests idx ↔ (port.place tid).Queued idx
  /-- The request at the front is inside or has been woken; it never waits for
  the event. -/
  front : ∀ idx tid, (port.requests idx).head? = some tid →
    (port.place tid).Inside idx ∨ port.place tid = .woken idx
  /-- Once woken, it goes in as soon as it gets the mutex. -/
  claims : ∀ idx tid, (port.requests idx).head? = some tid →
    port.place tid = .woken idx → port.ml = none →
    ∃ next, port.step (.lock tid) = some next ∧ next.place tid = .serviced idx
  /-- The mutex is held for a timed wait only. -/
  mutex : ∀ tid, port.ml = some tid →
    ∃ next, port.step (.timeout tid) = some next ∧ next.ml = none
  /-- Who leaves finds itself at the front and wakes all who wait. -/
  leaves : ∀ idx tid, port.place tid = .leaving idx → port.ml = none →
    ∃ next, port.step (.lock tid) = some next ∧
      ∀ other, port.place other = .waiting idx → next.place other = .woken idx

theorem Inv.claims {port : Port Target} (hinv : Inv port) {tid : ℕ} {idx : Target}
    (hfront : (port.requests idx).head? = some tid)
    (hplace : port.place tid = .woken idx) (hml : port.ml = none) :
    ∃ next, port.step (.lock tid) = some next ∧
      next.place tid = .serviced idx := by
  have hbusy : port.busyFlags idx = false := by
    by_contra hbusy
    have hinside := hinv.inside_of_busy (by simpa using hbusy) hfront
    simp [hplace, Place.Inside] at hinside
  refine ⟨port.claim tid idx, ?_, by simp [claim, Port.goTo]⟩
  simp [step, hml, hplace, retry, isTop, hfront, hbusy]

theorem Inv.leaves {port : Port Target} (hinv : Inv port) {tid : ℕ} {idx : Target}
    (hplace : port.place tid = .leaving idx) (hml : port.ml = none) :
    ∃ next, port.step (.lock tid) = some next ∧
      ∀ other, port.place other = .waiting idx →
        next.place other = .woken idx := by
  have hfront := (hinv.inside tid idx (Or.inr hplace)).2
  have hstep : port.step (.lock tid) = port.leave tid idx := by
    simp [step, hml, hplace]
  obtain ⟨next, hnext⟩ : ∃ next, port.leave tid idx = some next := by
    rw [leave, if_pos (by simp [isTop, hfront])]
    exact ⟨_, rfl⟩
  obtain ⟨-, -, -, -, -, -, hothers⟩ := leave_effect hnext
  refine ⟨next, hstep.trans hnext, ?_⟩
  intro other hwaiting
  have hne : other ≠ tid := by
    rintro rfl
    simp [hplace] at hwaiting
  rw [hothers other hne]
  simp [notify, hwaiting]

theorem Inv.fair {port : Port Target} (hinv : Inv port) : Fair port where
  alone idx tid other htid hother := by
    have hhead := (hinv.inside tid idx htid).2
    rw [(hinv.inside other idx hother).2, Option.some.injEq] at hhead
    exact hhead.symm
  inOrder idx := by
    obtain ⟨done, hqueued, hserviced⟩ := hinv.logs idx
    rw [hqueued, hserviced, List.prefix_append_right_inj]
    split
    · exact List.take_prefix 1 _
    · exact List.nil_prefix
  kept idx tid := hinv.mem_iff tid idx
  front idx tid hfront := (hinv.front tid idx hfront).symm
  claims _ _ := hinv.claims
  mutex tid hml := by
    obtain ⟨idx, hplace⟩ := (hinv.mutex tid).mp hml
    exact ⟨{ port.goTo tid (.waiting idx) with ml := none },
      by simp [step, hplace], rfl⟩
  leaves _ _ := hinv.leaves

end Port

/-! ## The two components -/

/-- The state of a `cache64` port: one queue, one event, one busy flag. -/
abbrev Cache64Port := Port Unit

/-- One event at a `cache64`. -/
def Cache64Port.step (port : Cache64Port) (event : Port.Event Unit) :
    Option Cache64Port :=
  Port.step port event

/-- How a multiplexer picks the initiator socket. -/
inductive FwdType where
  | threshold
  | oneToOne
  | manyToOne
  deriving DecidableEq

/-- `MAX_TARGETS`. -/
def maxTargets : ℕ := 64

/-- A multiplexer as bound: `targets` is `inita_socket.size()`, and a range of
`threshs` is given by its first address and the one after its last. -/
structure Busmux64 where
  fwd : FwdType
  targets : ℕ
  threshs : List (Word64 × Word64)

namespace Busmux64

/-- `route`; the result is `some none` for the `-1` of an address outside the
bound ranges, and `none` when an assertion fails. -/
def route (mux : Busmux64) (id : ℕ) (adr : Word64) : Option (Option ℕ) :=
  let chosen : Option ℕ := match mux.fwd with
    | .threshold =>
        some ((mux.threshs.findIdx? fun range =>
          decide (range.1 ≤ adr ∧ adr < range.2)).getD mux.targets)
    | .oneToOne => if id < mux.targets then some id else none
    | .manyToOne => if mux.targets = 1 then some 0 else none
  chosen.map fun idx => if mux.targets ≤ idx then none else some idx

/-- What may happen next: a process calls `b_transport` on socket `id`, or one
that is inside goes on. -/
inductive Event where
  | call (tid id : ℕ) (adr : Word64)
  | lock (tid : ℕ)
  | timeout (tid : ℕ)
  | finish (tid : ℕ)

/-- One event; a call that cannot be routed returns an address error at once. -/
def step (mux : Busmux64) (port : Port ℕ) : Event → Option (Port ℕ)
  | .call tid id adr =>
      match mux.route id adr with
      | none => none
      | some none => if port.place tid = .outside then some port else none
      | some (some idx) =>
          if idx < maxTargets then port.step (.call tid idx) else none
  | .lock tid => port.step (.lock tid)
  | .timeout tid => port.step (.timeout tid)
  | .finish tid => port.step (.finish tid)

/-- A multiplexer's step is a step of its port or changes nothing. -/
theorem step_inv {mux : Busmux64} {port next : Port ℕ} (hinv : port.Inv)
    {event : Event} (hstep : mux.step port event = some next) : next.Inv := by
  cases event with
  | call tid id adr =>
      rw [step] at hstep
      split at hstep
      case h_1 => simp at hstep
      case h_2 =>
        split at hstep
        case isTrue => exact Option.some.inj hstep ▸ hinv
        case isFalse => simp at hstep
      case h_3 =>
        split at hstep
        case isTrue => exact Port.step_inv hinv hstep
        case isFalse => simp at hstep
  | lock tid =>
      have hport : port.step (.lock tid) = some next := hstep
      exact Port.step_inv hinv hport
  | timeout tid =>
      have hport : port.step (.timeout tid) = some next := hstep
      exact Port.step_inv hinv hport
  | finish tid =>
      have hport : port.step (.finish tid) = some next := hstep
      exact Port.step_inv hinv hport

end Busmux64

/-- However many processes call a cache or a multiplexer and however the kernel
interleaves them, no request is lost. -/
theorem fair_of_exec :
    (∀ (events : List (Port.Event Unit)) (port : Cache64Port),
      Guarded.exec Cache64Port.step Port.start events = some port → port.Fair) ∧
    (∀ (mux : Busmux64) (events : List Busmux64.Event) (port : Port ℕ),
      Guarded.exec mux.step Port.start events = some port → port.Fair) := by
  constructor
  · intro events port hrun
    have hinv : port.Inv := Guarded.exec_keeps
      (fun _ _ _ hinv hstep => Port.step_inv hinv hstep) Port.start_inv hrun
    exact hinv.fair
  · intro mux events port hrun
    have hinv : port.Inv := Guarded.exec_keeps
      (fun _ _ _ hinv hstep => Busmux64.step_inv hinv hstep) Port.start_inv hrun
    exact hinv.fair

/-- Two processes meet at a cache and at the second target of a multiplexer;
the later one sleeps, is woken and is serviced. -/
theorem fair_of_exec_two :
    (∃ port : Cache64Port,
      Guarded.exec Cache64Port.step Port.start
        [.call 0 (), .call 1 (), .lock 0, .lock 1, .timeout 1, .finish 0,
          .lock 0, .lock 1] = some port ∧
        port.servicedLog () = [0, 1] ∧ port.Fair) ∧
    (∃ port : Port ℕ,
      Guarded.exec
        (Busmux64.step ⟨.threshold, 2, [(0, 0x1000), (0x1000, 0x2000)]⟩)
        Port.start
        [.call 0 0 0x1008, .call 1 1 0x1800, .lock 1, .lock 0, .timeout 0,
          .finish 1, .lock 1, .lock 0] = some port ∧
        port.servicedLog 1 = [1, 0] ∧ port.Fair) := by
  constructor
  · refine ⟨_, rfl, rfl, ?_⟩
    exact fair_of_exec.1
      [.call 0 (), .call 1 (), .lock 0, .lock 1, .timeout 1, .finish 0,
        .lock 0, .lock 1] _ rfl
  · refine ⟨_, rfl, by decide, ?_⟩
    exact fair_of_exec.2
      ⟨.threshold, 2, [(0, 0x1000), (0x1000, 0x2000)]⟩
      [.call 0 0 0x1008, .call 1 1 0x1800, .lock 1, .lock 0, .timeout 0,
        .finish 1, .lock 1, .lock 0] _ rfl

end Prazor.Bus
