import Prazor.Crt.Threads

/-!
# The barrier of the thread package

`djgthread_barrier_wait` counts its callers under the mutex of the barrier.  All
but the last sleep on the condition variable of the barrier: a sleeping thread
stores the address of the variable in its own entry of `_djg_Threads`, releases
the mutex and polls the entry.  The last caller resets the count, counts the
cycle and broadcasts: it goes through the entries of all threads and clears
those that hold the address.  A step here is one access of one thread to shared
memory, so that the threads interleave between any two of them.  There is none
when the access is to an element past the end of an array.
-/

namespace Prazor.Crt.Barrier

open Threads (maxCpus maxThreads)

/-- `PTHREAD_BARRIER_SERIAL_THREAD` -/
def serialThread : ℕ := 1000

/-- The entries of `_djg_Threads` in use and the entry of each thread,
`djgthread_self`, which is the number of its core too. -/
structure Table (Thread : Type*) where
  nexttid : ℕ
  tid : Thread → ℕ
  tid_lt : ∀ thread, tid thread < nexttid
  tid_injective : Function.Injective tid

/-- Where a thread is in `djgthread_barrier_wait` and the functions it calls.
The argument `cycle` is its local variable. -/
inductive Pc where
  /-- Not in a call. -/
  | outside
  /-- In `djgthread_mutex_lock` of the barrier's mutex. -/
  | lock
  /-- Before `++(barrier->n) < barrier->customers`. -/
  | enter
  /-- Before `int cycle = barrier->cycle`. -/
  | load
  /-- Before the test of the loop, `cycle == barrier->cycle`. -/
  | test (cycle : BitVec 32)
  /-- `djgthread_cond_wait`: before `_djg_Threads[tid].waiting = cond`. -/
  | register (cycle : BitVec 32)
  /-- Before it unlocks the mutex. -/
  | release (cycle : BitVec 32)
  /-- In its loop `_djg_Threads[tid].waiting == cond`. -/
  | poll (cycle : BitVec 32)
  /-- In `djgthread_mutex_lock` again. -/
  | relock (cycle : BitVec 32)
  /-- Before `barrier->n = 0`. -/
  | reset
  /-- Before `barrier->cycle = barrier->cycle + 1`. -/
  | advance
  /-- `djgthread_cond_broadcast`: taking `bcast_mutex`. -/
  | bcastLock
  /-- Before the test of entry `i`. -/
  | scan (i : ℕ)
  /-- Before entry `i` is cleared. -/
  | clear (i : ℕ)
  /-- Before it releases `bcast_mutex`. -/
  | bcastUnlock
  /-- Before `djgthread_mutex_unlock`, with the code to return. -/
  | unlock (rc : ℕ)
deriving DecidableEq

/-- The barrier, the mutexes with the thread that holds them, the entries whose
`waiting` is the condition variable of the barrier, and each thread with the
codes its calls have returned. -/
structure State (Thread : Type*) where
  m : Option Thread
  n : ℕ
  cycle : BitVec 32
  customers : ℕ
  bcastMutex : Option Thread
  waiting : ℕ → Bool
  pc : Thread → Pc
  returns : Thread → List ℕ

variable {Thread : Type*} [DecidableEq Thread]

/-- `djgthread_barrier_init`, with no thread in a call. -/
def init (customers : ℕ) : State Thread where
  m := none
  n := 0
  cycle := 0
  customers := customers
  bcastMutex := none
  waiting := fun _ => false
  pc := fun _ => .outside
  returns := fun _ => []

/-- The state with one thread at another program point. -/
def State.goto (s : State Thread) (t : Thread) (pc : Pc) : State Thread :=
  { s with pc := Function.update s.pc t pc }

section Goto

variable {s : State Thread} {t u : Thread} {pc : Pc}

@[simp]
theorem State.goto_pc_self : (s.goto t pc).pc t = pc := Function.update_self ..

theorem State.goto_pc_of_ne (h : u ≠ t) : (s.goto t pc).pc u = s.pc u :=
  Function.update_of_ne h ..

@[simp]
theorem State.goto_waiting : (s.goto t pc).waiting = s.waiting := rfl

@[simp]
theorem State.goto_returns : (s.goto t pc).returns = s.returns := rfl

end Goto

/-- The elements of the arrays that the next access of a thread reads or writes
for the first time are there: `djgthread_self` reads that of its core in
`_djg_cpu_current`, at the count and before the thread registers. -/
def InArrays (table : Table Thread) (s : State Thread) (t : Thread) : Prop :=
  match s.pc t with
  | .enter => table.tid t < maxCpus
  | .register _ => table.tid t < maxCpus ∧ table.tid t < maxThreads
  | .scan i => i < table.nexttid → i < maxThreads
  | _ => True

instance decidableInArrays (table : Table Thread) (s : State Thread) (t : Thread) :
    Decidable (InArrays table s t) := by
  unfold InArrays
  split <;> infer_instance

/-- The next access of a thread.  There is none while the thread spins: on a
mutex that another holds, or on its entry before that is cleared. -/
def access (table : Table Thread) (s : State Thread) (t : Thread) : Option (State Thread) :=
  match s.pc t with
  | .outside => some (s.goto t .lock)
  | .lock => if s.m = none then some ({ s with m := some t }.goto t .enter) else none
  | .enter =>
      if s.n + 1 < s.customers then some ({ s with n := s.n + 1 }.goto t .load)
      else some ({ s with n := s.n + 1 }.goto t .reset)
  | .load => some (s.goto t (.test s.cycle))
  | .test cycle =>
      if cycle = s.cycle then some (s.goto t (.register cycle))
      else some (s.goto t (.unlock 0))
  | .register cycle =>
      some ({ s with waiting := Function.update s.waiting (table.tid t) true }.goto t
        (.release cycle))
  | .release cycle => some ({ s with m := none }.goto t (.poll cycle))
  | .poll cycle =>
      if s.waiting (table.tid t) then none else some (s.goto t (.relock cycle))
  | .relock cycle =>
      if s.m = none then some ({ s with m := some t }.goto t (.test cycle)) else none
  | .reset => some ({ s with n := 0 }.goto t .advance)
  | .advance => some ({ s with cycle := s.cycle + 1 }.goto t .bcastLock)
  | .bcastLock =>
      if s.bcastMutex = none then some ({ s with bcastMutex := some t }.goto t (.scan 0))
      else none
  | .scan i =>
      if i < table.nexttid then
        if s.waiting i then some (s.goto t (.clear i)) else some (s.goto t (.scan (i + 1)))
      else some (s.goto t .bcastUnlock)
  | .clear i =>
      some ({ s with waiting := Function.update s.waiting i false }.goto t (.scan (i + 1)))
  | .bcastUnlock => some ({ s with bcastMutex := none }.goto t (.unlock serialThread))
  | .unlock rc =>
      some ({ s with
        m := none
        returns := Function.update s.returns t (s.returns t ++ [rc]) }.goto t .outside)

/-- The next access of a thread, inside the arrays. -/
def step (table : Table Thread) (s : State Thread) (t : Thread) : Option (State Thread) :=
  if InArrays table s t then access table s t else none

theorem access_of_step {table : Table Thread} {s s' : State Thread} {t : Thread}
    (hstep : step table s t = some s') : access table s t = some s' := by
  rw [step] at hstep
  split_ifs at hstep
  exact hstep

/-- The arrays have the elements that the barrier uses. -/
structure Table.Fits (table : Table Thread) : Prop where
  cpus : ∀ thread, table.tid thread < maxCpus
  threads : table.nexttid ≤ maxThreads

/-- In arrays that are large enough every access is inside. -/
theorem step_eq_access {table : Table Thread} (hfits : table.Fits) (s : State Thread)
    (t : Thread) : step table s t = access table s t := by
  refine if_pos ?_
  have hcpu := hfits.cpus t
  have hthreads := hfits.threads
  unfold InArrays
  split
  case h_1 => exact hcpu
  case h_2 => exact ⟨hcpu, lt_of_lt_of_le (table.tid_lt t) hthreads⟩
  case h_3 => exact fun hi => lt_of_lt_of_le hi hthreads
  case h_4 => trivial

/-- The calls a thread has returned from. -/
def State.returned (s : State Thread) (t : Thread) : ℕ := (s.returns t).length

/-- The calls a thread has entered. -/
def State.entered (s : State Thread) (t : Thread) : ℕ :=
  if s.pc t = .outside then s.returned t else s.returned t + 1

end Prazor.Crt.Barrier
