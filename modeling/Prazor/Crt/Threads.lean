import Prazor.Core.Guarded

/-!
# The life of a thread

`djgthread_create` looks for a slot of `_djg_Threads` whose `core` is negative,
or takes a new one when there is a core for it, and fills it in; the core whose
number is in the slot finds it in its loop `_extra_cores`, calls the entry
function and at its return stores the result and frees the slot.  Core 0 runs
`main`.  Any function a core runs may create, exit and join threads.  A step here
is one access of one core to shared memory, except that a call begins with a
step that says which call it is; there is none for an access past the end of an
array.  What has happened in each slot is kept beside
it: the threads created there, the calls of entry functions made for it and the
results of its threads, the first of `djgthread_exit` and return being the end
of a thread.
-/

namespace Prazor.Crt.Threads

/-- `MAXCPUS`, the elements of `_djg_cpu_current`. -/
def maxCpus : ℕ := 32

/-- `MAXTHREADS`, the elements of `_djg_Threads`. -/
def maxThreads : ℕ := 128

variable {Entry Value : Type*}

/-- The fields of `_djg_thread_control_block` that the life of a thread uses. -/
structure ControlBlock (Entry Value : Type*) where
  arg : Value
  entryp : Entry
  core : ℤ

/-- What has happened in a slot. -/
structure History (Entry Value : Type*) where
  created : List (Entry × Value)
  started : List (Entry × Value)
  results : List Value

/-- The first of `djgthread_exit` and return gives the result of a thread. -/
def History.note (h : History Entry Value) (value : Value) : History Entry Value :=
  if h.results.length < h.started.length then { h with results := h.results ++ [value] } else h

/-- Where a call of `djgthread_create` is, with its local `tid`. -/
inductive Stage where
  /-- Before the test `tid < _djg_nexttid` of the search. -/
  | look
  /-- Before the test `_djg_Threads[tid].core < 0`. -/
  | probe
  /-- After the search, before `tid < _djg_nexttid`. -/
  | past
  /-- Before `tid == _djg_nexttid`. -/
  | room
  /-- Before `tid <= _djg_core_hwm`. -/
  | cores
  /-- `_djg_nexttid += 1`: before the load. -/
  | bump
  /-- Before the store, with what was loaded. -/
  | bumped (n : ℕ)
  /-- Before the stores to `arg`, `entryp` and `core` of the slot. -/
  | fillArg
  | fillEntry
  | fillCore
deriving DecidableEq

/-- What a function that runs as a thread is doing. -/
inductive Call (Entry Value : Type*) where
  /-- Computing on its own. -/
  | body
  | create (entryp : Entry) (arg : Value) (stage : Stage) (tid : ℕ)
  /-- `djgthread_exit`: before its stores to `arg` and `core`. -/
  | exitArg (tid : ℕ) (retval : Value)
  | exitCore (tid : ℕ)
  /-- `djgthread_join` on the thread number `k` of a slot: in its loop, and
  before it loads `arg`. -/
  | joinPoll (tid k : ℕ)
  | joinRead (tid k : ℕ)

/-- Where a core is, with the variable `i` of the loop. -/
inductive Pc (Entry Value : Type*) where
  /-- Before it raises `_djg_core_hwm`. -/
  | boot
  /-- Before `i < _djg_nexttid`. -/
  | test (i : ℕ)
  /-- Before `_djg_Threads[i].core == core_id`. -/
  | poll (i : ℕ)
  /-- Before it notes `i` as what it runs. -/
  | found (i : ℕ)
  /-- Before it loads `entryp`, and `arg`. -/
  | loadEntry (i : ℕ)
  | loadArg (i : ℕ) (entryp : Entry)
  /-- In the function of slot `i`. -/
  | run (i : ℕ) (call : Call Entry Value)
  /-- Before it stores the value returned, and frees the slot. -/
  | store (i : ℕ) (value : Value)
  | clear (i : ℕ)

/-- The thread package.  `joined` are the joins that have returned, with slot,
number and value. -/
structure State (Entry Value : Type*) where
  nexttid : ℕ
  coreHwm : ℕ
  cpuCurrent : ℕ → ℤ
  threads : ℕ → ControlBlock Entry Value
  pc : ℕ → Pc Entry Value
  history : ℕ → History Entry Value
  joined : List (ℕ × ℕ × Value)

/-- What the function a core runs does next.  It chooses only when it computes
on its own. -/
inductive Action (Entry Value : Type*) where
  | go
  | create (entryp : Entry) (arg : Value)
  | exit (retval : Value)
  | join (tid k : ℕ)
  | ret (value : Value)

namespace State

/-- After `_check_start`: the slots are free but for slot 0, in which core 0 runs
`main`. -/
def start (main : Entry × Value) (arg : ℕ → Value) (entryp : ℕ → Entry) :
    State Entry Value where
  nexttid := 1
  coreHwm := 0
  cpuCurrent := fun _ => 0
  threads := fun i => { arg := arg i, entryp := entryp i, core := if i = 0 then 0 else -1 }
  pc := fun core => if core = 0 then .run 0 .body else .boot
  history := fun i =>
    if i = 0 then { created := [main], started := [main], results := [] }
    else { created := [], started := [], results := [] }
  joined := []

/-- The state with one core at another program point. -/
def goto (s : State Entry Value) (c : ℕ) (pc : Pc Entry Value) : State Entry Value :=
  { s with pc := Function.update s.pc c pc }

/-- The state with another control block in a slot. -/
def setBlock (s : State Entry Value) (i : ℕ) (block : ControlBlock Entry Value) :
    State Entry Value :=
  { s with threads := Function.update s.threads i block }

/-- The state with more history of a slot. -/
def setHistory (s : State Entry Value) (i : ℕ) (history : History Entry Value) :
    State Entry Value :=
  { s with history := Function.update s.history i history }

section Frame

variable {s : State Entry Value} {c i : ℕ} {pc : Pc Entry Value}
variable {block : ControlBlock Entry Value} {history : History Entry Value}

@[simp]
theorem goto_threads : (s.goto c pc).threads = s.threads := rfl

@[simp]
theorem goto_history : (s.goto c pc).history = s.history := rfl

@[simp]
theorem goto_nexttid : (s.goto c pc).nexttid = s.nexttid := rfl

@[simp]
theorem setBlock_history : (s.setBlock i block).history = s.history := rfl

@[simp]
theorem setHistory_threads : (s.setHistory i history).threads = s.threads := rfl

end Frame

end State

/-- The next access of a `djgthread_create` made by the function of slot `i`. -/
def createStep (s : State Entry Value) (c i : ℕ) (entryp : Entry) (arg : Value)
    (stage : Stage) (tid : ℕ) : State Entry Value :=
  let move stage tid := s.goto c (.run i (.create entryp arg stage tid))
  match stage with
  | .look => if tid < s.nexttid then move .probe tid else move .past tid
  | .probe => if (s.threads tid).core < 0 then move .past tid else move .look (tid + 1)
  | .past => if tid < s.nexttid then move .fillArg tid else move .room tid
  | .room => if tid = s.nexttid then move .cores tid else move .look 0
  | .cores => if tid ≤ s.coreHwm then move .bump tid else move .look 0
  | .bump => move (.bumped s.nexttid) tid
  | .bumped n => { move .fillArg tid with nexttid := n + 1 }
  | .fillArg => (move .fillEntry tid).setBlock tid { s.threads tid with arg := arg }
  | .fillEntry => (move .fillCore tid).setBlock tid { s.threads tid with entryp := entryp }
  | .fillCore =>
      ((s.goto c (.run i .body)).setBlock tid { s.threads tid with core := tid }).setHistory
        tid { s.history tid with created := (s.history tid).created ++ [(entryp, arg)] }

/-- The elements that the next step of a core reads or writes for the first time
are there, and for the test of the loop that of the slot it goes on to. -/
def InArrays (s : State Entry Value) (input : ℕ × Action Entry Value) : Prop :=
  match s.pc input.1, input.2 with
  | .boot, .go | .found _, .go | .run _ .body, .exit _ => input.1 < maxCpus
  | .test i, .go => i < s.nexttid → i < maxThreads
  | .run _ (.create _ _ .probe tid), .go | .run _ (.create _ _ .fillArg tid), .go
  | .run _ (.exitArg tid _), .go | .run _ (.joinPoll tid _), .go => tid < maxThreads
  | _, _ => True

instance decidableInArrays (s : State Entry Value) :
    ∀ input : ℕ × Action Entry Value, Decidable (InArrays s input)
  | (c, action) => by
      unfold InArrays
      split <;> infer_instance

/-- The next access of a core.  A join steps only when the slot is free, and
`main` does not return. -/
def access (cores : ℕ) (s : State Entry Value) (input : ℕ × Action Entry Value) :
    Option (State Entry Value) :=
  let c := input.1
  if c < cores then
    match s.pc c, input.2 with
    | .boot, .go =>
        some { s.goto c (.test 0) with
          coreHwm := max s.coreHwm c, cpuCurrent := Function.update s.cpuCurrent c (-1) }
    | .test i, .go =>
        if i < s.nexttid then some (s.goto c (.poll i)) else some (s.goto c (.test 0))
    | .poll i, .go =>
        if (s.threads i).core = c then some (s.goto c (.found i))
        else some (s.goto c (.test (i + 1)))
    | .found i, .go =>
        some { s.goto c (.loadEntry i) with cpuCurrent := Function.update s.cpuCurrent c i }
    | .loadEntry i, .go => some (s.goto c (.loadArg i (s.threads i).entryp))
    | .loadArg i entryp, .go =>
        some ((s.goto c (.run i .body)).setHistory i { s.history i with
          started := (s.history i).started ++ [(entryp, (s.threads i).arg)] })
    | .run i .body, .create entryp arg =>
        some (s.goto c (.run i (.create entryp arg .look 0)))
    | .run i (.create entryp arg stage tid), .go =>
        some (createStep s c i entryp arg stage tid)
    | .run i .body, .exit retval =>
        some ((s.goto c (.run i (.exitArg (s.cpuCurrent c).toNat retval))).setHistory i
          ((s.history i).note retval))
    | .run i (.exitArg tid retval), .go =>
        some ((s.goto c (.run i (.exitCore tid))).setBlock tid
          { s.threads tid with arg := retval })
    | .run i (.exitCore tid), .go =>
        some ((s.goto c (.run i .body)).setBlock tid { s.threads tid with core := -1 })
    | .run i .body, .join tid k => some (s.goto c (.run i (.joinPoll tid k)))
    | .run i (.joinPoll tid k), .go =>
        if (s.threads tid).core < 0 then some (s.goto c (.run i (.joinRead tid k))) else none
    | .run i (.joinRead tid k), .go =>
        some { s.goto c (.run i .body) with
          joined := s.joined ++ [(tid, k, (s.threads tid).arg)] }
    | .run i .body, .ret value =>
        if c = 0 then none
        else some ((s.goto c (.store i value)).setHistory i ((s.history i).note value))
    | .store i value, .go =>
        some ((s.goto c (.clear i)).setBlock i { s.threads i with arg := value })
    | .clear i, .go =>
        some ((s.goto c (.test (i + 1))).setBlock i { s.threads i with core := -1 })
    | _, _ => none
  else none

/-- The next step of a core, inside the arrays. -/
def step (cores : ℕ) (s : State Entry Value) (input : ℕ × Action Entry Value) :
    Option (State Entry Value) :=
  if InArrays s input then access cores s input else none

theorem step_of_inArrays {cores : ℕ} {s : State Entry Value} {input : ℕ × Action Entry Value}
    (hin : InArrays s input) : step cores s input = access cores s input :=
  if_pos hin

theorem access_of_step {cores : ℕ} {s s' : State Entry Value} {input : ℕ × Action Entry Value}
    (hstep : step cores s input = some s') : access cores s input = some s' := by
  rw [step] at hstep
  split_ifs at hstep
  exact hstep

end Prazor.Crt.Threads
