import Prazor.Crt.Threads
import Mathlib.Tactic

/-!
# Slots, their threads and what joins return

Three things in the life of a thread are left to luck.  A slot is found free
before it is taken, without a lock.  `djgthread_exit` frees the slot while the
function still runs, and its return frees the slot once more and overwrites the
result.  A slot that is free can be taken before the thread that ended in it was
joined.  The guard names the steps at which luck is needed; under it every
thread created is run once, slots are not shared and joins return results.
-/

namespace Prazor.Crt.Threads

variable {Entry Value : Type*}

section Points

/-- The slot a core works for. -/
def Pc.slot : Pc Entry Value → Option ℕ
  | .boot | .test _ | .poll _ => none
  | .found i | .loadEntry i | .loadArg i _ | .run i _ | .store i _ | .clear i => some i

/-- A core has noted the slot it works for in `_djg_cpu_current`. -/
def Pc.Noted : Pc Entry Value → Prop
  | .loadEntry _ | .loadArg _ _ | .run _ _ => True
  | _ => False

/-- The slot a core fills in. -/
def Pc.fills : Pc Entry Value → Option ℕ
  | .run _ (.create _ _ .fillArg tid) | .run _ (.create _ _ .fillEntry tid)
  | .run _ (.create _ _ .fillCore tid) => some tid
  | _ => none

/-- In `djgthread_exit`. -/
def Call.Exits : Call Entry Value → Prop
  | .exitArg _ _ | .exitCore _ => True
  | _ => False

/-- The slot a core waits for in a join. -/
def Pc.joins : Pc Entry Value → Option ℕ
  | .run _ (.joinPoll tid _) | .run _ (.joinRead tid _) => some tid
  | _ => none

end Points

section Guard

variable (cores : ℕ) (s : State Entry Value)

/-- A core is filling in the slot. -/
def Filled (i : ℕ) : Prop := ∃ c < cores, (s.pc c).fills = some i

/-- A core is in a join on the slot. -/
def Joining (i : ℕ) : Prop := ∃ c < cores, (s.pc c).joins = some i

/-- A slot that is free, that no other call is filling in, whose core has left
the function it ran there, and that nobody is joining. -/
structure Claimable (i : ℕ) : Prop where
  free : (s.threads i).core = -1
  left : (s.pc i).slot = none
  unfilled : ¬Filled cores s i
  unjoined : ¬Joining cores s i

/-- A thread that has ended by `djgthread_exit` ends with no other value. -/
def Faithful (i : ℕ) (value : Value) : Prop :=
  (s.history i).results.length = (s.history i).started.length →
    (s.history i).results.getLast? = some value

/-- The guard: a create takes only a slot that is claimable, and a new one only
while `_djg_nexttid` is what it was; the value returned after `djgthread_exit` is
the one given there; and a join is begun on the latest thread of a slot. -/
def Orderly (input : ℕ × Action Entry Value) : Prop :=
  match s.pc input.1, input.2 with
  | .run _ (.create _ _ .past tid), .go => tid < s.nexttid → Claimable cores s tid
  | .run _ (.create _ _ (.bumped n) tid), .go =>
      n = tid ∧ s.nexttid = tid ∧ Claimable cores s tid
  | .run i .body, .exit retval => Faithful s i retval
  | .run i .body, .ret value => Faithful s i value
  | .run _ .body, .join tid k =>
      k + 1 = (s.history tid).created.length ∧ ¬Filled cores s tid
  | _, _ => True

end Guard

section Phases

/-- All threads created in the slot have run and ended. -/
def History.Done (h : History Entry Value) : Prop :=
  h.created = h.started ∧ h.results.length = h.started.length

/-- The last thread created in the slot has not run and the others have ended. -/
def History.Waiting (h : History Entry Value) (job : Entry × Value) : Prop :=
  h.created = h.started ++ [job] ∧ h.results.length = h.started.length

/-- The slot holds the result of its last thread. -/
def Settled (b : ControlBlock Entry Value) (h : History Entry Value) : Prop :=
  ∀ result, h.results.getLast? = some result → b.arg = result

/-- A thread is in the slot for the core. -/
def Queued (i : ℕ) (b : ControlBlock Entry Value) (h : History Entry Value) : Prop :=
  b.core = i ∧ h.Waiting (b.entryp, b.arg)

/-- The thread of the slot has ended and the function it ran makes a call. -/
def Ended (i : ℕ) (b : ControlBlock Entry Value) (h : History Entry Value) :
    Call Entry Value → Prop
  | .exitArg tid retval =>
      tid = i ∧ h.results.getLast? = some retval ∧ (b.core = i ∨ b.core = -1 ∧ Settled b h)
  | .exitCore tid => tid = i ∧ Settled b h ∧ (b.core = i ∨ b.core = -1)
  | _ => b.core = -1 ∧ Settled b h

/-- What a slot and its history are when its core is at a program point. -/
def Phase (filled : Prop) (i : ℕ) (b : ControlBlock Entry Value)
    (h : History Entry Value) : Pc Entry Value → Prop
  | .boot | .test _ | .poll _ =>
      b.core = -1 ∧ h.Done ∧ (¬filled → Settled b h) ∨ ¬filled ∧ Queued i b h
  | .found _ | .loadEntry _ => ¬filled ∧ Queued i b h
  | .loadArg _ entryp => ¬filled ∧ Queued i b h ∧ entryp = b.entryp
  | .run _ call =>
      ¬filled ∧ h.created = h.started ∧
        (h.results.length + 1 = h.started.length ∧ b.core = i ∧ ¬call.Exits ∨
          h.results ≠ [] ∧ h.results.length = h.started.length ∧ Ended i b h call)
  | .store _ value =>
      ¬filled ∧ h.Done ∧ h.results.getLast? = some value ∧
        (b.core = i ∨ b.core = -1 ∧ Settled b h)
  | .clear _ => ¬filled ∧ h.Done ∧ Settled b h ∧ (b.core = i ∨ b.core = -1)

/-- What a call of `djgthread_create` knows. -/
def Creating (s : State Entry Value) : Pc Entry Value → Prop
  | .run _ (.create _ _ .bump tid) | .run _ (.create _ _ (.bumped _) tid) =>
      tid ≤ s.coreHwm
  | .run _ (.create _ _ .fillArg tid) => tid < s.nexttid
  | .run _ (.create _ arg .fillEntry tid) => tid < s.nexttid ∧ (s.threads tid).arg = arg
  | .run _ (.create entryp arg .fillCore tid) =>
      tid < s.nexttid ∧ (s.threads tid).arg = arg ∧ (s.threads tid).entryp = entryp
  | _ => True

/-- What a call of `djgthread_join` knows. -/
def Joins (cores : ℕ) (s : State Entry Value) : Pc Entry Value → Prop
  | .run _ (.joinPoll tid k) =>
      ¬Filled cores s tid ∧ k + 1 = (s.history tid).created.length
  | .run _ (.joinRead tid k) =>
      ¬Filled cores s tid ∧ k + 1 = (s.history tid).created.length ∧
        (s.threads tid).core = -1
  | _ => True

/-- The invariant. -/
structure Inv (cores : ℕ) (s : State Entry Value) : Prop where
  own : ∀ c i, (s.pc c).slot = some i → i = c
  current : ∀ c, (s.pc c).Noted → s.cpuCurrent c = c
  phase : ∀ i, Phase (Filled cores s i) i (s.threads i) (s.history i) (s.pc i)
  sole : ∀ c < cores, ∀ d < cores, ∀ i, (s.pc c).fills = some i → (s.pc d).fills = some i → c = d
  creating : ∀ c < cores, Creating s (s.pc c)
  joins : ∀ c < cores, Joins cores s (s.pc c)
  joined : ∀ tid k value, (tid, k, value) ∈ s.joined → (s.history tid).results[k]? = some value
  claimed : ∀ i, (s.history i).created ≠ [] → i < s.nexttid
  nexttid : s.nexttid ≤ s.coreHwm + 1
  coreHwm : s.coreHwm < cores

variable {filled : Prop} {i j : ℕ} {b : ControlBlock Entry Value} {h : History Entry Value}
variable {call call' : Call Entry Value} {pc : Pc Entry Value}

theorem ended_of_not_exits (hcall : ¬call.Exits) :
    Ended i b h call = (b.core = -1 ∧ Settled b h) := by
  cases call with
  | exitArg | exitCore => exact absurd trivial hcall
  | _ => rfl

/-- Outside of `djgthread_exit` a slot does not depend on the call. -/
theorem Phase.other_call (hphase : Phase filled i b h (.run j call)) (hcall : ¬call.Exits)
    (hcall' : ¬call'.Exits) : Phase filled i b h (.run j call') := by
  simp only [Phase, ended_of_not_exits hcall, ended_of_not_exits hcall', hcall, hcall'] at hphase ⊢
  exact hphase

/-- A slot that is filled in is free, and its core is not working for it. -/
theorem Phase.of_filled (hphase : Phase filled i b h pc) (hfilled : filled) :
    pc.slot = none ∧ b.core = -1 ∧ h.Done := by
  cases pc <;> simp only [Phase, hfilled, not_true_eq_false, false_and, or_false] at hphase <;>
    exact ⟨rfl, hphase.1, hphase.2.1⟩

/-- A free slot that nobody fills in holds the result of its last thread. -/
theorem Phase.of_free (hphase : Phase filled i b h pc) (hfree : b.core = -1)
    (hfilled : ¬filled) : h.Done ∧ Settled b h := by
  have hcore : b.core ≠ i := by omega
  cases pc with
  | boot | test | poll =>
      simp only [Phase, Queued, hcore, false_and, and_false, or_false] at hphase
      exact ⟨hphase.2.1, hphase.2.2 hfilled⟩
  | found | loadEntry | loadArg => simp [Phase, Queued, hcore] at hphase
  | run j call =>
      simp only [Phase, hcore, false_and, and_false, false_or] at hphase
      refine ⟨⟨hphase.2.1, hphase.2.2.2.1⟩, ?_⟩
      have hended := hphase.2.2.2.2
      cases call with
      | exitArg => exact (hended.2.2.resolve_left hcore).2
      | exitCore => exact hended.2.1
      | _ => exact hended.2
  | store j value => exact ⟨hphase.2.1, (hphase.2.2.2.resolve_left hcore).2⟩
  | clear j => exact ⟨hphase.2.1, hphase.2.2.1⟩

/-- A slot is free or its core's. -/
theorem Phase.core_eq (hphase : Phase filled i b h pc) : b.core = i ∨ b.core = -1 := by
  cases pc with
  | boot | test | poll =>
      exact hphase.elim (fun hfree => .inr hfree.1) fun hqueued => .inl hqueued.2.1
  | found | loadEntry => exact .inl hphase.2.1
  | loadArg => exact .inl hphase.2.1.1
  | run j call =>
      rcases hphase.2.2 with halive | ⟨-, -, hended⟩
      · exact .inl halive.2.1
      · cases call with
        | exitArg => exact hended.2.2.imp id And.left
        | exitCore => exact hended.2.2
        | _ => exact .inr hended.1
  | store => exact hphase.2.2.2.imp id And.left
  | clear => exact hphase.2.2.2

/-- What a call of `djgthread_create` knows stays true while the slot it fills in keeps
its block. -/
theorem Creating.mono {s s' : State Entry Value} (hcreating : Creating s pc)
    (hcoreHwm : s.coreHwm ≤ s'.coreHwm) (hnexttid : s.nexttid ≤ s'.nexttid)
    (hblock : ∀ tid, pc.fills = some tid → s'.threads tid = s.threads tid) :
    Creating s' pc := by
  cases pc with
  | run i call =>
      cases call with
      | create entryp arg stage tid =>
          cases stage with
          | bump => exact le_trans hcreating hcoreHwm
          | bumped n => exact le_trans hcreating hcoreHwm
          | fillArg => exact lt_of_lt_of_le hcreating hnexttid
          | fillEntry =>
              obtain ⟨hlt, harg⟩ := hcreating
              exact ⟨hlt.trans_le hnexttid, (congrArg ControlBlock.arg (hblock tid rfl)).trans harg⟩
          | fillCore =>
              obtain ⟨hlt, harg, hentryp⟩ := hcreating
              have hsame := hblock tid rfl
              exact ⟨hlt.trans_le hnexttid, (congrArg ControlBlock.arg hsame).trans harg,
                (congrArg ControlBlock.entryp hsame).trans hentryp⟩
          | _ => trivial
      | _ => trivial
  | _ => trivial

/-- What a call of `djgthread_join` knows stays true while nobody takes its slot. -/
theorem Joins.mono {cores : ℕ} {s s' : State Entry Value} (hjoins : Joins cores s pc)
    (hsame : ∀ tid, pc.joins = some tid → Filled cores s' tid = Filled cores s tid ∧
      (s'.history tid).created = (s.history tid).created ∧
      ((s.threads tid).core = -1 → (s'.threads tid).core = -1)) :
    Joins cores s' pc := by
  cases pc with
  | run i call =>
      cases call with
      | joinPoll tid k =>
          obtain ⟨hfilled, hcreated, -⟩ := hsame tid rfl
          rw [Joins, hfilled, hcreated]
          exact hjoins
      | joinRead tid k =>
          obtain ⟨hfilled, hcreated, hfree⟩ := hsame tid rfl
          rw [Joins, hfilled, hcreated]
          exact ⟨hjoins.1, hjoins.2.1, hfree hjoins.2.2⟩
      | _ => trivial
  | _ => trivial

/-- A call that is not in a join knows nothing of one. -/
theorem joins_of_none {cores : ℕ} {s : State Entry Value} (hnone : pc.joins = none) :
    Joins cores s pc := by
  cases pc with
  | run i call =>
      cases call with
      | joinPoll | joinRead => cases hnone
      | _ => trivial
  | _ => trivial

/-- Nobody fills in the slot of a join. -/
theorem Joins.unfilled {cores tid : ℕ} {s : State Entry Value} (hjoins : Joins cores s pc)
    (htid : pc.joins = some tid) : ¬Filled cores s tid := by
  cases pc with
  | run i call =>
      cases call with
      | joinPoll => exact Option.some.inj htid ▸ hjoins.1
      | joinRead => exact Option.some.inj htid ▸ hjoins.1
      | _ => cases htid
  | _ => cases htid

end Phases

section OwnSteps

/-- A step of a core outside of the filling in of slots: it changes no slot but
the core's own, creates no thread, and takes no result or core number away. -/
structure OwnStep (cores : ℕ) (s s' : State Entry Value) (c : ℕ) (pc : Pc Entry Value) :
    Prop where
  pc_eq : s'.pc = Function.update s.pc c pc := by rfl
  threads : ∀ i, i ≠ c → s'.threads i = s.threads i := by intros; rfl
  history : ∀ i, i ≠ c → s'.history i = s.history i := by intros; rfl
  nexttid : s'.nexttid = s.nexttid := by rfl
  coreHwm : s.coreHwm ≤ s'.coreHwm ∧ s'.coreHwm < cores
  current : ∀ d, d ≠ c → s'.cpuCurrent d = s.cpuCurrent d := by intros; rfl
  unfilled : (s.pc c).fills = none ∧ pc.fills = none
  slot : ∀ i, pc.slot = some i → i = c
  noted : pc.Noted → s'.cpuCurrent c = c
  created : (s'.history c).created = (s.history c).created := by rfl
  results : (s.history c).results <+: (s'.history c).results := by exact List.prefix_rfl
  core : (s'.threads c).core = (s.threads c).core ∨ (s'.threads c).core = -1 := by
    exact .inl rfl
  block : s'.threads c = s.threads c ∨ ¬Filled cores s c := by exact .inl rfl
  phase : Phase (Filled cores s c) c (s'.threads c) (s'.history c) pc
  creating : Creating s' pc := by trivial
  joins : Joins cores s pc := by trivial
  joined : ∀ tid k value, (tid, k, value) ∈ s'.joined → (tid, k, value) ∈ s.joined ∨
    (s.history tid).results[k]? = some value := by exact fun _ _ _ => .inl

variable {cores c : ℕ} {s s' : State Entry Value} {pc : Pc Entry Value}

theorem OwnStep.pc_self (h : OwnStep cores s s' c pc) : s'.pc c = pc := by
  rw [h.pc_eq, Function.update_self]

theorem OwnStep.pc_of_ne (h : OwnStep cores s s' c pc) {d : ℕ} (hd : d ≠ c) :
    s'.pc d = s.pc d := by
  rw [h.pc_eq, Function.update_of_ne hd]

theorem OwnStep.fills (h : OwnStep cores s s' c pc) (d : ℕ) :
    (s'.pc d).fills = (s.pc d).fills := by
  by_cases hd : d = c
  · rw [hd, h.pc_self, h.unfilled.1, h.unfilled.2]
  · rw [h.pc_of_ne hd]

theorem OwnStep.filled (h : OwnStep cores s s' c pc) (i : ℕ) :
    Filled cores s' i = Filled cores s i := by
  simp only [Filled, h.fills]

theorem OwnStep.created_eq (h : OwnStep cores s s' c pc) (i : ℕ) :
    (s'.history i).created = (s.history i).created := by
  by_cases hi : i = c
  · rw [hi, h.created]
  · rw [h.history i hi]

/-- Results stay where they are. -/
theorem OwnStep.result (h : OwnStep cores s s' c pc) {i k : ℕ} {value : Value}
    (hresult : (s.history i).results[k]? = some value) :
    (s'.history i).results[k]? = some value := by
  by_cases hi : i = c
  · subst hi
    obtain ⟨extra, hextra⟩ := h.results
    have hk := (List.getElem?_eq_some_iff.mp hresult).1
    rw [← hextra, List.getElem?_append_left hk, hresult]
  · rw [h.history i hi]
    exact hresult

/-- A slot that is filled in keeps its block. -/
theorem OwnStep.block_eq (h : OwnStep cores s s' c pc) {i : ℕ} (hfilled : Filled cores s i) :
    s'.threads i = s.threads i := by
  by_cases hi : i = c
  · subst hi
    exact h.block.resolve_right (not_not.mpr hfilled)
  · exact h.threads i hi

/-- A free slot stays free. -/
theorem OwnStep.free (h : OwnStep cores s s' c pc) {i : ℕ}
    (hfree : (s.threads i).core = -1) : (s'.threads i).core = -1 := by
  by_cases hi : i = c
  · subst hi
    rcases h.core with hcore | hcore
    · rw [hcore, hfree]
    · exact hcore
  · rw [h.threads i hi]
    exact hfree

/-- What a call of `djgthread_create` on another core knows stays true. -/
theorem OwnStep.creating_of_ne (h : OwnStep cores s s' c pc) {d : ℕ} (hd : d < cores)
    (hcreating : Creating s (s.pc d)) : Creating s' (s.pc d) := by
  apply hcreating.mono h.coreHwm.1 h.nexttid.ge
  exact fun tid hfills => h.block_eq ⟨d, hd, hfills⟩

/-- What a call of `djgthread_join` knows stays true. -/
theorem OwnStep.joins_of (h : OwnStep cores s s' c pc) {point : Pc Entry Value}
    (hjoins : Joins cores s point) : Joins cores s' point :=
  hjoins.mono fun tid _ => ⟨h.filled tid, h.created_eq tid, h.free⟩

/-- A step of a core on its own slot keeps the invariant. -/
theorem Inv.own_step (h : Inv cores s) (c : ℕ) (pc : Pc Entry Value)
    (hstep : OwnStep cores s s' c pc) : Inv cores s' where
  own d i hi := by
    by_cases hd : d = c
    · rw [hd, hstep.pc_self] at hi
      rw [hd, hstep.slot i hi]
    · rw [hstep.pc_of_ne hd] at hi
      exact h.own d i hi
  current d hnoted := by
    by_cases hd : d = c
    · rw [hd, hstep.pc_self] at hnoted
      rw [hd, hstep.noted hnoted]
    · rw [hstep.pc_of_ne hd] at hnoted
      rw [hstep.current d hd, h.current d hnoted]
  phase i := by
    rw [hstep.filled]
    by_cases hi : i = c
    · rw [hi, hstep.pc_self]
      exact hstep.phase
    · rw [hstep.pc_of_ne hi, hstep.threads i hi, hstep.history i hi]
      exact h.phase i
  sole d hd e he i hdi hei := by
    rw [hstep.fills] at hdi hei
    exact h.sole d hd e he i hdi hei
  creating d hd := by
    by_cases hdc : d = c
    · rw [hdc, hstep.pc_self]
      exact hstep.creating
    · rw [hstep.pc_of_ne hdc]
      exact hstep.creating_of_ne hd (h.creating d hd)
  joins d hd := by
    by_cases hdc : d = c
    · rw [hdc, hstep.pc_self]
      exact hstep.joins_of hstep.joins
    · rw [hstep.pc_of_ne hdc]
      exact hstep.joins_of (h.joins d hd)
  joined tid k value hmem :=
    hstep.result ((hstep.joined tid k value hmem).elim (h.joined tid k value) id)
  claimed i hi := by
    rw [hstep.created_eq] at hi
    rw [hstep.nexttid]
    exact h.claimed i hi
  nexttid := by
    rw [hstep.nexttid]
    exact h.nexttid.trans (Nat.succ_le_succ hstep.coreHwm.1)
  coreHwm := hstep.coreHwm.2

/-! The three kinds of own steps: the core moves, and either nothing else changes, or the
history of its slot, or the block of its slot. -/

section Kinds

variable (hcoreHwm : s.coreHwm < cores) (hunfilled : (s.pc c).fills = none ∧ pc.fills = none)
  (hslot : ∀ i, pc.slot = some i → i = c) (hnoted : pc.Noted → s.cpuCurrent c = c)

include hcoreHwm hunfilled hslot hnoted

theorem OwnStep.moved
    (hphase : Phase (Filled cores s c) c (s.threads c) (s.history c) pc)
    (hcreating : Creating s pc) (hjoins : Joins cores s pc) :
    OwnStep cores s (s.goto c pc) c pc where
  pc_eq := rfl
  threads _ _ := rfl
  history _ _ := rfl
  nexttid := rfl
  coreHwm := ⟨le_rfl, hcoreHwm⟩
  current _ _ := rfl
  unfilled := hunfilled
  slot := hslot
  noted := hnoted
  created := rfl
  results := List.prefix_rfl
  core := .inl rfl
  block := .inl rfl
  phase := hphase
  creating := hcreating
  joins := hjoins
  joined _ _ _ := .inl

theorem OwnStep.recorded {hist : History Entry Value}
    (hcreated : hist.created = (s.history c).created)
    (hresults : (s.history c).results <+: hist.results)
    (hphase : Phase (Filled cores s c) c (s.threads c) hist pc)
    (hcreating : Creating ((s.goto c pc).setHistory c hist) pc) (hjoins : Joins cores s pc) :
    OwnStep cores s ((s.goto c pc).setHistory c hist) c pc := by
  have hself : ((s.goto c pc).setHistory c hist).history c = hist := Function.update_self ..
  exact {
    pc_eq := rfl
    threads := fun _ _ => rfl
    history := fun _ hi => Function.update_of_ne hi ..
    nexttid := rfl
    coreHwm := ⟨le_rfl, hcoreHwm⟩
    current := fun _ _ => rfl
    unfilled := hunfilled
    slot := hslot
    noted := hnoted
    created := (congrArg History.created hself).trans hcreated
    results := hself.symm ▸ hresults
    core := .inl rfl
    block := .inl rfl
    phase := hself.symm ▸ hphase
    creating := hcreating
    joins := hjoins
    joined := fun _ _ _ => .inl }

theorem OwnStep.stored {block : ControlBlock Entry Value}
    (hcore : block.core = (s.threads c).core ∨ block.core = -1) (hfree : ¬Filled cores s c)
    (hphase : Phase (Filled cores s c) c block (s.history c) pc)
    (hcreating : Creating ((s.goto c pc).setBlock c block) pc) (hjoins : Joins cores s pc) :
    OwnStep cores s ((s.goto c pc).setBlock c block) c pc := by
  have hself : ((s.goto c pc).setBlock c block).threads c = block := Function.update_self ..
  exact {
    pc_eq := rfl
    threads := fun _ hi => Function.update_of_ne hi ..
    history := fun _ _ => rfl
    nexttid := rfl
    coreHwm := ⟨le_rfl, hcoreHwm⟩
    current := fun _ _ => rfl
    unfilled := hunfilled
    slot := hslot
    noted := hnoted
    created := rfl
    results := List.prefix_rfl
    core := hself.symm ▸ hcore
    block := .inr hfree
    phase := hself.symm ▸ hphase
    creating := hcreating
    joins := hjoins
    joined := fun _ _ _ => .inl }

end Kinds

end OwnSteps

section Creates

/-- A step of `djgthread_create` that takes a slot or fills it in: it changes
nothing but that slot and `_djg_nexttid`. -/
structure CreateStep (cores : ℕ) (s s' : State Entry Value) (c i tid : ℕ)
    (call call' : Call Entry Value) : Prop where
  core : c < cores
  pc_before : s.pc c = .run i call
  pc_eq : s'.pc = Function.update s.pc c (.run i call') := by rfl
  exits : ¬call.Exits ∧ ¬call'.Exits := by exact ⟨id, id⟩
  fills : (s.pc c).fills = none ∨ (s.pc c).fills = some tid
  fills' : (Pc.run i call').fills = none ∨ (Pc.run i call').fills = some tid
  threads : ∀ j, j ≠ tid → s'.threads j = s.threads j := by intros; rfl
  history : ∀ j, j ≠ tid → s'.history j = s.history j := by intros; rfl
  results : (s'.history tid).results = (s.history tid).results := by rfl
  claimed : s.nexttid ≤ s'.nexttid ∧ tid < s'.nexttid
  nexttid : s'.nexttid ≤ s.coreHwm + 1
  coreHwm : s'.coreHwm = s.coreHwm := by rfl
  current : s'.cpuCurrent = s.cpuCurrent := by rfl
  joined : s'.joined = s.joined := by rfl
  left : (s.pc tid).slot = none
  unfilled : ∀ d < cores, d ≠ c → (s.pc d).fills ≠ some tid
  unjoined : ¬Joining cores s tid
  joins : (Pc.run i call').joins = none := by rfl
  phase : Phase ((Pc.run i call').fills = some tid) tid (s'.threads tid) (s'.history tid)
    (s.pc tid)
  creating : Creating s' (.run i call')

variable {cores c i tid : ℕ} {s s' : State Entry Value} {call call' : Call Entry Value}

theorem CreateStep.pc_self (h : CreateStep cores s s' c i tid call call') :
    s'.pc c = .run i call' := by
  rw [h.pc_eq, Function.update_self]

theorem CreateStep.pc_of_ne (h : CreateStep cores s s' c i tid call call') {d : ℕ}
    (hd : d ≠ c) : s'.pc d = s.pc d := by
  rw [h.pc_eq, Function.update_of_ne hd]

/-- The core works for another slot. -/
theorem CreateStep.ne (h : CreateStep cores s s' c i tid call call') : tid ≠ c := by
  rintro rfl
  have hleft := h.left
  rw [h.pc_before] at hleft
  cases hleft

theorem CreateStep.filled_self (h : CreateStep cores s s' c i tid call call') :
    Filled cores s' tid = ((Pc.run i call').fills = some tid) := by
  refine propext ⟨fun ⟨d, hd, hfills⟩ => ?_, fun hfills => ⟨c, h.core, ?_⟩⟩
  · by_cases hdc : d = c
    · rwa [hdc, h.pc_self] at hfills
    · rw [h.pc_of_ne hdc] at hfills
      exact absurd hfills (h.unfilled d hd hdc)
  · rw [h.pc_self, hfills]

theorem CreateStep.filled_of_ne (h : CreateStep cores s s' c i tid call call') {j : ℕ}
    (hj : j ≠ tid) : Filled cores s' j = Filled cores s j := by
  have hself : ∀ pc : Pc Entry Value, pc.fills = none ∨ pc.fills = some tid →
      pc.fills ≠ some j := by
    rintro pc (hnone | hsome) hfills
    · rw [hnone] at hfills
      cases hfills
    · rw [hsome] at hfills
      exact hj (Option.some.inj hfills).symm
  refine propext (exists_congr fun d => and_congr_right fun _ => ?_)
  by_cases hdc : d = c
  · rw [hdc, h.pc_self]
    exact iff_of_false (hself _ h.fills') (hself _ h.fills)
  · rw [h.pc_of_ne hdc]

/-- After the step the core fills in only the slot, and the others what they did. -/
theorem CreateStep.fills_cases (h : CreateStep cores s s' c i tid call call') {d j : ℕ}
    (hfills : (s'.pc d).fills = some j) :
    d = c ∧ j = tid ∨ d ≠ c ∧ (s.pc d).fills = some j := by
  by_cases hdc : d = c
  · rw [hdc, h.pc_self] at hfills
    rcases h.fills' with hnone | hsome
    · rw [hnone] at hfills
      cases hfills
    · rw [hsome] at hfills
      exact .inl ⟨hdc, (Option.some.inj hfills).symm⟩
  · rw [h.pc_of_ne hdc] at hfills
    exact .inr ⟨hdc, hfills⟩

theorem CreateStep.result_eq (h : CreateStep cores s s' c i tid call call') (j : ℕ) :
    (s'.history j).results = (s.history j).results := by
  by_cases hj : j = tid
  · rw [hj, h.results]
  · rw [h.history j hj]

/-- What a call of `djgthread_create` on another core knows stays true. -/
theorem CreateStep.creating_of_ne (h : CreateStep cores s s' c i tid call call') {d : ℕ}
    (hd : d < cores) (hdc : d ≠ c) (hcreating : Creating s (s.pc d)) :
    Creating s' (s.pc d) := by
  apply hcreating.mono h.coreHwm.ge h.claimed.1
  intro j hfills
  exact h.threads j fun hj => h.unfilled d hd hdc (hj ▸ hfills)

/-- What a call of `djgthread_join` on another core knows stays true. -/
theorem CreateStep.joins_of_ne (h : CreateStep cores s s' c i tid call call') {d : ℕ}
    (hd : d < cores) (hjoins : Joins cores s (s.pc d)) : Joins cores s' (s.pc d) := by
  apply hjoins.mono
  intro j hj
  have hne : j ≠ tid := fun heq => h.unjoined ⟨d, hd, heq ▸ hj⟩
  rw [h.filled_of_ne hne, h.history j hne, h.threads j hne]
  exact ⟨rfl, rfl, id⟩

/-- A step of `djgthread_create` on its slot keeps the invariant. -/
theorem Inv.create_step (h : Inv cores s) (hstep : CreateStep cores s s' c i tid call call') :
    Inv cores s' where
  own d j hj := by
    by_cases hd : d = c
    · rw [hd, hstep.pc_self] at hj
      exact hd ▸ h.own c j (by rw [hstep.pc_before]; exact hj)
    · rw [hstep.pc_of_ne hd] at hj
      exact h.own d j hj
  current d hnoted := by
    rw [hstep.current]
    by_cases hd : d = c
    · exact hd ▸ h.current c (by rw [hstep.pc_before]; trivial)
    · rw [hstep.pc_of_ne hd] at hnoted
      exact h.current d hnoted
  phase j := by
    by_cases hj : j = tid
    · rw [hj, hstep.filled_self, hstep.pc_of_ne hstep.ne]
      exact hstep.phase
    · rw [hstep.filled_of_ne hj, hstep.threads j hj, hstep.history j hj]
      by_cases hjc : j = c
      · have hphase := h.phase c
        rw [hstep.pc_before] at hphase
        rw [hjc, hstep.pc_self]
        exact hphase.other_call hstep.exits.1 hstep.exits.2
      · rw [hstep.pc_of_ne hjc]
        exact h.phase j
  sole d hd e he j hdj hej := by
    rcases hstep.fills_cases hdj with ⟨rfl, hj⟩ | ⟨hdc, hdj⟩ <;>
      rcases hstep.fills_cases hej with ⟨rfl, hj'⟩ | ⟨hec, hej⟩
    · rfl
    · exact absurd (hj ▸ hej) (hstep.unfilled e he hec)
    · exact absurd (hj' ▸ hdj) (hstep.unfilled d hd hdc)
    · exact h.sole d hd e he j hdj hej
  creating d hd := by
    by_cases hdc : d = c
    · rw [hdc, hstep.pc_self]
      exact hstep.creating
    · rw [hstep.pc_of_ne hdc]
      exact hstep.creating_of_ne hd hdc (h.creating d hd)
  joins d hd := by
    by_cases hdc : d = c
    · rw [hdc, hstep.pc_self]
      exact joins_of_none hstep.joins
    · rw [hstep.pc_of_ne hdc]
      exact hstep.joins_of_ne hd (h.joins d hd)
  joined j k value hmem := by
    rw [hstep.result_eq]
    rw [hstep.joined] at hmem
    exact h.joined j k value hmem
  claimed j hj := by
    by_cases hjt : j = tid
    · rw [hjt]
      exact hstep.claimed.2
    · rw [hstep.history j hjt] at hj
      exact (h.claimed j hj).trans_le hstep.claimed.1
  nexttid := by
    rw [hstep.coreHwm]
    exact hstep.nexttid
  coreHwm := by
    rw [hstep.coreHwm]
    exact h.coreHwm

end Creates

section Steps

variable {cores c i tid : ℕ} {s s' : State Entry Value} {call call' : Call Entry Value}
variable {entryp : Entry} {arg value : Value}

/-- A core that works for a slot works for the slot of its own number. -/
theorem Inv.phase_self (h : Inv cores s) {pc : Pc Entry Value} (hpc : s.pc c = pc)
    (hslot : pc.slot = some i) :
    i = c ∧ Phase (Filled cores s c) c (s.threads c) (s.history c) pc :=
  ⟨h.own c i (by rw [hpc, hslot]), hpc ▸ h.phase c⟩

/-- A function that neither exits nor fills in a slot goes on. -/
theorem Inv.goto_call (h : Inv cores s) (hpc : s.pc c = .run i call)
    (hexits : ¬call.Exits ∧ ¬call'.Exits)
    (hfills : (Pc.run i call).fills = none ∧ (Pc.run i call').fills = none)
    (hcreating : Creating s (.run i call')) (hjoins : Joins cores s (.run i call')) :
    Inv cores (s.goto c (.run i call')) := by
  obtain ⟨hi, hphase⟩ := h.phase_self hpc rfl
  exact h.own_step c (.run i call') (.moved h.coreHwm ⟨hpc ▸ hfills.1, hfills.2⟩
    (fun j hj => (Option.some.inj hj).symm.trans hi) (fun _ => h.current c (hpc ▸ trivial))
    (hphase.other_call hexits.1 hexits.2) hcreating hjoins)

/-- A call of `djgthread_create` that has chosen its slot fills it in next. -/
theorem Inv.claim {stage : Stage} {nexttid : ℕ} (h : Inv cores s) (hc : c < cores)
    (hpc : s.pc c = .run i (.create entryp arg stage tid))
    (hfills : (Pc.run i (.create entryp arg stage tid)).fills = none)
    (hclaimable : Claimable cores s tid)
    (hnexttid : s.nexttid ≤ nexttid ∧ tid < nexttid ∧ nexttid ≤ s.coreHwm + 1) :
    Inv cores { s.goto c (.run i (.create entryp arg .fillArg tid)) with nexttid := nexttid } := by
  have hdone := (h.phase tid).of_free hclaimable.free hclaimable.unfilled
  have hphase : Phase True tid (s.threads tid) (s.history tid) (s.pc tid) := by
    have hleft := hclaimable.left
    cases hpct : s.pc tid <;> simp only [hpct, Pc.slot, reduceCtorEq] at hleft <;>
      exact .inl ⟨hclaimable.free, hdone.1, fun hfalse => absurd trivial hfalse⟩
  have hstep : CreateStep cores s
      { s.goto c (.run i (.create entryp arg .fillArg tid)) with nexttid := nexttid } c i tid
      (.create entryp arg stage tid) (.create entryp arg .fillArg tid) := {
    core := hc
    pc_before := hpc
    pc_eq := rfl
    exits := ⟨id, id⟩
    fills := .inl (hpc ▸ hfills)
    fills' := .inr rfl
    threads := fun _ _ => rfl
    history := fun _ _ => rfl
    results := rfl
    claimed := ⟨hnexttid.1, hnexttid.2.1⟩
    nexttid := hnexttid.2.2
    coreHwm := rfl
    current := rfl
    joined := rfl
    joins := rfl
    left := hclaimable.left
    unfilled := fun d hd _ hfills => hclaimable.unfilled ⟨d, hd, hfills⟩
    unjoined := hclaimable.unjoined
    phase := by
      simp only [Pc.fills]
      exact hphase
    creating := hnexttid.2.1 }
  exact h.create_step hstep

/-- What holds of a slot that a call of `djgthread_create` is filling in. -/
theorem Inv.filling (h : Inv cores s) (hc : c < cores) (hfills : (s.pc c).fills = some tid) :
    (s.pc tid).slot = none ∧ (s.threads tid).core = -1 ∧ (s.history tid).Done ∧
      (∀ d < cores, d ≠ c → (s.pc d).fills ≠ some tid) ∧ ¬Joining cores s tid := by
  have hfilled : Filled cores s tid := ⟨c, hc, hfills⟩
  obtain ⟨hleft, hfree, hdone⟩ := (h.phase tid).of_filled hfilled
  refine ⟨hleft, hfree, hdone, fun d hd hdc hd' => hdc (h.sole d hd c hc tid hd' hfills), ?_⟩
  rintro ⟨d, hd, hjoins⟩
  exact (h.joins d hd).unfilled hjoins hfilled

/-- A call of `djgthread_create` stores to `arg` or `entryp` of its slot. -/
theorem Inv.fill {stage stage' : Stage} {block : ControlBlock Entry Value} (h : Inv cores s)
    (hc : c < cores) (hpc : s.pc c = .run i (.create entryp arg stage tid))
    (hfills : (Pc.run i (.create entryp arg stage tid)).fills = some tid)
    (hfills' : (Pc.run i (.create entryp arg stage' tid)).fills = some tid)
    (hnexttid : tid < s.nexttid) (hcore : block.core = (s.threads tid).core)
    (hcreating : Creating ((s.goto c (.run i (.create entryp arg stage' tid))).setBlock tid block)
      (.run i (.create entryp arg stage' tid))) :
    Inv cores ((s.goto c (.run i (.create entryp arg stage' tid))).setBlock tid block) := by
  rw [← hpc] at hfills
  obtain ⟨hleft, hfree, hdone, hsole, hunjoined⟩ := h.filling hc hfills
  have hstep : CreateStep cores s
      ((s.goto c (.run i (.create entryp arg stage' tid))).setBlock tid block) c i tid
      (.create entryp arg stage tid) (.create entryp arg stage' tid) := {
    core := hc
    pc_before := hpc
    pc_eq := rfl
    exits := ⟨id, id⟩
    fills := .inr hfills
    fills' := .inr hfills'
    threads := fun j hj => Function.update_of_ne hj ..
    history := fun _ _ => rfl
    results := rfl
    claimed := ⟨le_rfl, hnexttid⟩
    nexttid := h.nexttid
    coreHwm := rfl
    current := rfl
    joined := rfl
    joins := rfl
    left := hleft
    unfilled := hsole
    unjoined := hunjoined
    phase := by
      rw [hfills']
      have hcore' : (Function.update s.threads tid block tid).core = -1 := by
        rw [Function.update_self, hcore, hfree]
      cases hpct : s.pc tid <;> simp only [hpct, Pc.slot, reduceCtorEq] at hleft <;>
        exact .inl ⟨hcore', hdone, fun hfalse => absurd rfl hfalse⟩
    creating := hcreating }
  exact h.create_step hstep

/-- A call of `djgthread_create` stores to `core` of its slot: the thread is
created. -/
theorem Inv.publish (h : Inv cores s) (hc : c < cores)
    (hpc : s.pc c = .run i (.create entryp arg .fillCore tid)) :
    Inv cores (createStep s c i entryp arg .fillCore tid) := by
  have hfills : (s.pc c).fills = some tid := by rw [hpc]; rfl
  obtain ⟨hleft, hfree, hdone, hsole, hunjoined⟩ := h.filling hc hfills
  have hcreating := h.creating c hc
  rw [hpc] at hcreating
  obtain ⟨hnexttid, harg, hentryp⟩ := hcreating
  have hstep : CreateStep cores s (createStep s c i entryp arg .fillCore tid) c i tid
      (.create entryp arg .fillCore tid) .body := {
    core := hc
    pc_before := hpc
    pc_eq := rfl
    exits := ⟨id, id⟩
    fills := .inr hfills
    fills' := .inl rfl
    threads := fun j hj => Function.update_of_ne hj ..
    history := fun j hj => Function.update_of_ne hj ..
    results := by
      simp only [createStep, State.setHistory, Function.update_self]
    claimed := ⟨le_rfl, hnexttid⟩
    nexttid := h.nexttid
    coreHwm := rfl
    current := rfl
    joined := rfl
    joins := rfl
    left := hleft
    unfilled := hsole
    unjoined := hunjoined
    phase := by
      have hqueued : Queued tid { s.threads tid with core := tid }
          { s.history tid with created := (s.history tid).created ++ [(entryp, arg)] } :=
        ⟨rfl, by rw [hdone.1, ← harg, ← hentryp], hdone.2⟩
      simp only [createStep, State.setHistory, State.setBlock, Function.update_self]
      cases hpct : s.pc tid <;> simp only [hpct, Pc.slot, reduceCtorEq] at hleft <;>
        exact .inr ⟨nofun, hqueued⟩
    creating := trivial }
  exact h.create_step hstep

/-- The steps of `djgthread_create` keep the invariant. -/
theorem Inv.createStep {stage : Stage} (h : Inv cores s) (hc : c < cores)
    (hpc : s.pc c = .run i (.create entryp arg stage tid))
    (hguard : Orderly cores s (c, .go)) :
    Inv cores (createStep s c i entryp arg stage tid) := by
  have hcreating := h.creating c hc
  simp only [Orderly, hpc] at hguard
  rw [hpc] at hcreating
  cases stage <;> simp only [Threads.createStep]
  case look | probe | room =>
    split_ifs <;> exact h.goto_call hpc ⟨id, id⟩ ⟨rfl, rfl⟩ trivial trivial
  case past =>
    split_ifs with htid
    · exact h.claim hc hpc rfl (hguard htid) ⟨le_rfl, htid, h.nexttid⟩
    · exact h.goto_call hpc ⟨id, id⟩ ⟨rfl, rfl⟩ trivial trivial
  case cores =>
    split_ifs with htid
    · exact h.goto_call hpc ⟨id, id⟩ ⟨rfl, rfl⟩ htid trivial
    · exact h.goto_call hpc ⟨id, id⟩ ⟨rfl, rfl⟩ trivial trivial
  case bump => exact h.goto_call hpc ⟨id, id⟩ ⟨rfl, rfl⟩ hcreating trivial
  case bumped n =>
    obtain ⟨rfl, hnexttid, hclaimable⟩ := hguard
    exact h.claim hc hpc rfl hclaimable
      ⟨hnexttid.le.trans (Nat.le_succ n), Nat.lt_succ_self n, Nat.succ_le_succ hcreating⟩
  case fillArg =>
    refine h.fill hc hpc rfl rfl hcreating rfl ⟨hcreating, ?_⟩
    simp only [State.setBlock, Function.update_self]
  case fillEntry =>
    refine h.fill hc hpc rfl rfl hcreating.1 rfl ⟨hcreating.1, ?_, ?_⟩
    · simp only [State.setBlock, Function.update_self]
      exact hcreating.2
    · simp only [State.setBlock, Function.update_self]
  case fillCore => exact h.publish hc hpc

/-- In the loop of a core its slot does not depend on where it is. -/
theorem Phase.idle {filled : Prop} {b : ControlBlock Entry Value} {hist : History Entry Value}
    {pc pc' : Pc Entry Value} (hphase : Phase filled i b hist pc) (hpc : pc.slot = none)
    (hpc' : pc'.slot = none) : Phase filled i b hist pc' := by
  cases pc <;> cases hpc <;> cases pc' <;> cases hpc' <;> exact hphase

/-- A core that works for no slot goes on in its loop. -/
theorem Inv.goto_loop {pc : Pc Entry Value} (h : Inv cores s) (hs' : s'.threads = s.threads)
    (hhistory : s'.history = s.history) (hnexttid : s'.nexttid = s.nexttid)
    (hjoined : s'.joined = s.joined) (hpc : s'.pc = Function.update s.pc c pc)
    (hcoreHwm : s.coreHwm ≤ s'.coreHwm ∧ s'.coreHwm < cores)
    (hcurrent : ∀ d, d ≠ c → s'.cpuCurrent d = s.cpuCurrent d)
    (hbefore : (s.pc c).slot = none) (hafter : pc.slot = none) : Inv cores s' := by
  have hfills : ∀ point : Pc Entry Value, point.slot = none → point.fills = none := by
    intro point hpoint
    cases point <;> cases hpoint <;> rfl
  exact h.own_step c pc {
    pc_eq := hpc
    threads := fun _ _ => by rw [hs']
    history := fun _ _ => by rw [hhistory]
    nexttid := hnexttid
    coreHwm := hcoreHwm
    current := hcurrent
    unfilled := ⟨hfills _ hbefore, hfills _ hafter⟩
    slot := fun i hi => by
      rw [hafter] at hi
      cases hi
    noted := fun hnoted => by
      cases pc <;> cases hafter <;> cases hnoted
    created := by rw [hhistory]
    results := by rw [hhistory]
    core := .inl (by rw [hs'])
    block := .inl (by rw [hs'])
    phase := by
      rw [hs', hhistory]
      exact (h.phase c).idle hbefore hafter
    creating := by cases pc <;> cases hafter <;> trivial
    joins := by cases pc <;> cases hafter <;> trivial
    joined := fun _ _ _ hmem => .inl (hjoined ▸ hmem) }

/-- A core that finds its number in a slot has found its own slot. -/
theorem Inv.found (h : Inv cores s) (hpc : s.pc c = .poll i)
    (hcore : (s.threads i).core = c) : Inv cores (s.goto c (.found i)) := by
  have hi : i = c := by
    rcases (h.phase i).core_eq with hown | hfree <;> omega
  subst hi
  have hphase := h.phase i
  rw [hpc] at hphase
  have hqueued := hphase.resolve_left fun hfree => by
    have := hfree.1
    omega
  exact h.own_step i (.found i) (.moved h.coreHwm ⟨hpc ▸ rfl, rfl⟩
    (fun _ hj => by cases hj; rfl) False.elim hqueued trivial trivial)

/-- The core notes its slot. -/
theorem Inv.note (h : Inv cores s) (hpc : s.pc c = .found i) :
    Inv cores { s.goto c (.loadEntry i) with
      cpuCurrent := Function.update s.cpuCurrent c i } := by
  obtain ⟨rfl, hphase⟩ := h.phase_self hpc rfl
  exact h.own_step i (.loadEntry i) {
    pc_eq := rfl
    threads := fun _ _ => rfl
    history := fun _ _ => rfl
    nexttid := rfl
    coreHwm := ⟨le_rfl, h.coreHwm⟩
    current := fun d hd => Function.update_of_ne hd ..
    unfilled := ⟨hpc ▸ rfl, rfl⟩
    slot := fun j hj => (Option.some.inj hj).symm
    noted := fun _ => Function.update_self ..
    created := rfl
    results := List.prefix_rfl
    core := .inl rfl
    block := .inl rfl
    phase := hphase
    creating := trivial
    joins := trivial
    joined := fun _ _ _ => .inl }

theorem Inv.loadEntry (h : Inv cores s) (hpc : s.pc c = .loadEntry i) :
    Inv cores (s.goto c (.loadArg i (s.threads i).entryp)) := by
  obtain ⟨rfl, hphase⟩ := h.phase_self hpc rfl
  exact h.own_step i (.loadArg i (s.threads i).entryp) (.moved h.coreHwm ⟨hpc ▸ rfl, rfl⟩
    (fun _ hj => by cases hj; rfl) (fun _ => h.current i (hpc ▸ trivial))
    ⟨hphase.1, hphase.2, rfl⟩ trivial trivial)

/-- The core calls the entry function that was created, with its argument. -/
theorem Inv.enter (h : Inv cores s) (hpc : s.pc c = .loadArg i entryp) :
    Inv cores ((s.goto c (.run i .body)).setHistory i { s.history i with
      started := (s.history i).started ++ [(entryp, (s.threads i).arg)] }) := by
  obtain ⟨rfl, hunfilled, ⟨hcore, hcreated, hresults⟩, rfl⟩ := h.phase_self hpc rfl
  apply h.own_step i (.run i .body)
  apply OwnStep.recorded h.coreHwm ⟨hpc ▸ rfl, rfl⟩ (fun _ hj => by cases hj; rfl)
    fun _ => h.current i (hpc ▸ trivial)
  · rfl
  · exact List.prefix_rfl
  · refine ⟨hunfilled, hcreated, .inl ⟨?_, hcore, id⟩⟩
    rw [List.length_append, List.length_singleton, hresults]
  · trivial
  · trivial

/-- What the history of a slot is after its thread ended with a value. -/
structure EndedWith (b : ControlBlock Entry Value) (before after : History Entry Value)
    (i : ℕ) (value : Value) : Prop where
  created : after.created = before.created
  results : before.results <+: after.results
  done : after.Done
  last : after.results.getLast? = some value
  core : b.core = i ∨ b.core = -1 ∧ Settled b after

theorem Inv.endedWith (h : Inv cores s) (hpc : s.pc c = .run c .body)
    (hfaithful : Faithful s c value) :
    EndedWith (s.threads c) (s.history c) ((s.history c).note value) c value := by
  have hphase := h.phase c
  rw [hpc] at hphase
  obtain ⟨-, hcreated, ⟨hlength, hcore, -⟩ | ⟨-, hlength, hfree, hsettled⟩⟩ := hphase
  · have hlt : (s.history c).results.length < (s.history c).started.length := by omega
    rw [History.note, if_pos hlt]
    exact {
      created := rfl
      results := List.prefix_append ..
      done := ⟨hcreated, by rw [List.length_append, List.length_singleton, hlength]⟩
      last := List.getLast?_concat
      core := .inl hcore }
  · have hnot : ¬(s.history c).results.length < (s.history c).started.length := by omega
    rw [History.note, if_neg hnot]
    exact {
      created := rfl
      results := List.prefix_rfl
      done := ⟨hcreated, hlength⟩
      last := hfaithful hlength
      core := .inr ⟨hfree, hsettled⟩ }

/-- A function that calls `djgthread_exit`. -/
theorem Inv.exit (h : Inv cores s) (hpc : s.pc c = .run i .body)
    (hfaithful : Faithful s i value) :
    Inv cores ((s.goto c (.run i (.exitArg (s.cpuCurrent c).toNat value))).setHistory i
      ((s.history i).note value)) := by
  obtain ⟨rfl, hphase⟩ := h.phase_self hpc rfl
  have hended := h.endedWith hpc hfaithful
  have hcurrent : s.cpuCurrent i = i := h.current i (by rw [hpc]; trivial)
  apply h.own_step i (.run i (.exitArg (s.cpuCurrent i).toNat value))
  apply OwnStep.recorded h.coreHwm ⟨hpc ▸ rfl, rfl⟩ (fun _ hj => by cases hj; rfl)
    (fun _ => hcurrent) hended.created hended.results
  · refine ⟨hphase.1, hended.done.1, .inr ⟨?_, hended.done.2, ?_, hended.last, hended.core⟩⟩
    · exact List.ne_nil_of_mem (List.mem_of_getLast? hended.last)
    · rw [hcurrent, Int.toNat_natCast]
  · trivial
  · trivial

/-- A function that returns. -/
theorem Inv.ret (h : Inv cores s) (hpc : s.pc c = .run i .body)
    (hfaithful : Faithful s i value) :
    Inv cores ((s.goto c (.store i value)).setHistory i ((s.history i).note value)) := by
  obtain ⟨rfl, hphase⟩ := h.phase_self hpc rfl
  have hended := h.endedWith hpc hfaithful
  exact h.own_step i (.store i value) (.recorded h.coreHwm ⟨hpc ▸ rfl, rfl⟩
    (fun _ hj => by cases hj; rfl) False.elim hended.created hended.results
    ⟨hphase.1, hended.done, hended.last, hended.core⟩ trivial trivial)

/-- A block that takes the result of the last thread is settled. -/
theorem settled_of_last {b : ControlBlock Entry Value} {hist : History Entry Value}
    (hlast : hist.results.getLast? = some value) : Settled { b with arg := value } hist :=
  fun _ hresult => Option.some.inj (hlast.symm.trans hresult)

/-- `djgthread_exit` stores the result. -/
theorem Inv.exitArg (h : Inv cores s) (hpc : s.pc c = .run i (.exitArg tid value)) :
    Inv cores ((s.goto c (.run i (.exitCore tid))).setBlock tid
      { s.threads tid with arg := value }) := by
  obtain ⟨rfl, hunfilled, hcreated, ⟨-, -, hexits⟩ | ⟨hne, hlength, rfl, hlast, hcore⟩⟩ :=
    h.phase_self hpc rfl
  · exact absurd trivial hexits
  · exact h.own_step tid (.run tid (.exitCore tid)) (.stored h.coreHwm ⟨hpc ▸ rfl, rfl⟩
      (fun _ hj => by cases hj; rfl) (fun _ => h.current tid (hpc ▸ trivial))
      (.inl rfl) hunfilled
      ⟨hunfilled, hcreated, .inr ⟨hne, hlength, rfl, settled_of_last hlast,
        hcore.imp id And.left⟩⟩ trivial trivial)

/-- `djgthread_exit` frees the slot while the function still runs. -/
theorem Inv.exitCore (h : Inv cores s) (hpc : s.pc c = .run i (.exitCore tid)) :
    Inv cores ((s.goto c (.run i .body)).setBlock tid { s.threads tid with core := -1 }) := by
  obtain ⟨rfl, hunfilled, hcreated, ⟨-, -, hexits⟩ | ⟨hne, hlength, rfl, hsettled, -⟩⟩ :=
    h.phase_self hpc rfl
  · exact absurd trivial hexits
  · exact h.own_step tid (.run tid .body) (.stored h.coreHwm ⟨hpc ▸ rfl, rfl⟩
      (fun _ hj => by cases hj; rfl) (fun _ => h.current tid (hpc ▸ trivial))
      (.inr rfl) hunfilled ⟨hunfilled, hcreated, .inr ⟨hne, hlength, rfl, hsettled⟩⟩
      trivial trivial)

/-- The loop of the core stores the value returned. -/
theorem Inv.store (h : Inv cores s) (hpc : s.pc c = .store i value) :
    Inv cores ((s.goto c (.clear i)).setBlock i { s.threads i with arg := value }) := by
  obtain ⟨rfl, hunfilled, hdone, hlast, hcore⟩ := h.phase_self hpc rfl
  exact h.own_step i (.clear i) (.stored h.coreHwm ⟨hpc ▸ rfl, rfl⟩
    (fun _ hj => by cases hj; rfl) False.elim (.inl rfl) hunfilled
    ⟨hunfilled, hdone, settled_of_last hlast, hcore.imp id And.left⟩ trivial trivial)

/-- The loop of the core frees the slot. -/
theorem Inv.clear (h : Inv cores s) (hpc : s.pc c = .clear i) :
    Inv cores ((s.goto c (.test (i + 1))).setBlock i { s.threads i with core := -1 }) := by
  obtain ⟨rfl, hunfilled, hdone, hsettled, -⟩ := h.phase_self hpc rfl
  exact h.own_step i (.test (i + 1)) (.stored h.coreHwm ⟨hpc ▸ rfl, rfl⟩
    (fun _ hj => by cases hj) False.elim (.inr rfl) hunfilled
    (.inl ⟨rfl, hdone, fun _ => hsettled⟩) trivial trivial)

/-- A join that has found the slot free returns the result of the thread. -/
theorem Inv.joinRead {k : ℕ} (h : Inv cores s) (hc : c < cores)
    (hpc : s.pc c = .run i (.joinRead tid k)) :
    Inv cores { s.goto c (.run i .body) with
      joined := s.joined ++ [(tid, k, (s.threads tid).arg)] } := by
  obtain ⟨rfl, hphase⟩ := h.phase_self hpc rfl
  have hjoins := h.joins i hc
  rw [hpc] at hjoins
  obtain ⟨hunfilled, hk, hfree⟩ := hjoins
  obtain ⟨⟨hcreated, hlength⟩, hsettled⟩ := (h.phase tid).of_free hfree hunfilled
  have hresult : (s.history tid).results[k]? = some (s.threads tid).arg := by
    have hlast : (s.history tid).results.getLast? = (s.history tid).results[k]? := by
      rw [List.getLast?_eq_getElem?, hlength, ← hcreated, ← hk, Nat.add_sub_cancel]
    have hlt : k < (s.history tid).results.length := by
      rw [hlength, ← hcreated, ← hk]
      exact Nat.lt_succ_self k
    rw [List.getElem?_eq_getElem hlt] at hlast ⊢
    rw [hsettled _ hlast]
  exact h.own_step i (.run i .body) {
    pc_eq := rfl
    threads := fun _ _ => rfl
    history := fun _ _ => rfl
    nexttid := rfl
    coreHwm := ⟨le_rfl, h.coreHwm⟩
    current := fun _ _ => rfl
    unfilled := ⟨hpc ▸ rfl, rfl⟩
    slot := fun j hj => (Option.some.inj hj).symm
    noted := fun _ => h.current i (hpc ▸ trivial)
    created := rfl
    results := List.prefix_rfl
    core := .inl rfl
    block := .inl rfl
    phase := hphase.other_call id id
    creating := trivial
    joins := trivial
    joined := fun tid' k' value' hmem => by
      rcases List.mem_append.mp hmem with hold | hnew
      · exact .inl hold
      · rw [List.mem_singleton, Prod.mk.injEq, Prod.mk.injEq] at hnew
        obtain ⟨rfl, rfl, rfl⟩ := hnew
        exact .inr hresult }

/-- The steps of a function that runs as a thread keep the invariant. -/
theorem Inv.step_run {action : Action Entry Value} (h : Inv cores s) (hc : c < cores)
    (hpc : s.pc c = .run i call) (hguard : Orderly cores s (c, action))
    (hstep : access cores s (c, action) = some s') : Inv cores s' := by
  cases call <;> cases action <;>
    simp only [access, hpc, if_pos hc, reduceCtorEq, Option.some.injEq] at hstep
  case body.create =>
    exact hstep ▸ h.goto_call hpc ⟨id, id⟩ ⟨rfl, rfl⟩ trivial trivial
  case body.exit =>
    simp only [Orderly, hpc] at hguard
    exact hstep ▸ h.exit hpc hguard
  case body.join =>
    simp only [Orderly, hpc] at hguard
    exact hstep ▸ h.goto_call hpc ⟨id, id⟩ ⟨rfl, rfl⟩ trivial ⟨hguard.2, hguard.1⟩
  case body.ret =>
    simp only [Orderly, hpc] at hguard
    split_ifs at hstep
    cases hstep
    exact h.ret hpc hguard
  case create.go => exact hstep ▸ h.createStep hc hpc hguard
  case exitArg.go => exact hstep ▸ h.exitArg hpc
  case exitCore.go => exact hstep ▸ h.exitCore hpc
  case joinPoll.go tid k =>
    split_ifs at hstep with hfree
    cases hstep
    have hjoins := h.joins c hc
    rw [hpc] at hjoins
    have hcore : (s.threads tid).core = -1 := by
      rcases (h.phase tid).core_eq with hown | hnone <;> omega
    exact h.goto_call hpc ⟨id, id⟩ ⟨rfl, rfl⟩ trivial ⟨hjoins.1, hjoins.2, hcore⟩
  case joinRead.go => exact hstep ▸ h.joinRead hc hpc

/-- A step of an orderly run keeps the invariant. -/
theorem Inv.step {input : ℕ × Action Entry Value} (h : Inv cores s)
    (hguard : Orderly cores s input) (hstep : access cores s input = some s') :
    Inv cores s' := by
  obtain ⟨c, action⟩ := input
  by_cases hc : c < cores
  swap
  · simp [access, hc] at hstep
  have hloop : ∀ pc : Pc Entry Value, (s.pc c).slot = none → pc.slot = none →
      Inv cores (s.goto c pc) := fun pc =>
    h.goto_loop rfl rfl rfl rfl rfl ⟨le_rfl, h.coreHwm⟩ fun _ _ => rfl
  cases hpc : s.pc c
  case run i call => exact h.step_run hc hpc hguard hstep
  all_goals
    cases action <;>
      simp only [access, hpc, if_pos hc, reduceCtorEq, Option.some.injEq] at hstep
  case boot.go =>
    rw [← hstep]
    exact h.goto_loop rfl rfl rfl rfl rfl ⟨le_max_left .., max_lt h.coreHwm hc⟩
      (fun d hd => Function.update_of_ne hd ..) (by rw [hpc]; rfl) rfl
  case test.go i =>
    split_ifs at hstep <;> cases hstep <;> exact hloop _ (by rw [hpc]; rfl) rfl
  case poll.go i =>
    split_ifs at hstep with hcore <;> cases hstep
    · exact h.found hpc hcore
    · exact hloop _ (by rw [hpc]; rfl) rfl
  case found.go i => exact hstep ▸ h.note hpc
  case loadEntry.go i => exact hstep ▸ h.loadEntry hpc
  case loadArg.go i entryp => exact hstep ▸ h.enter hpc
  case store.go i value => exact hstep ▸ h.store hpc
  case clear.go i => exact hstep ▸ h.clear hpc

theorem Inv.start (hcores : 0 < cores) (main : Entry × Value) (arg : ℕ → Value)
    (entryp : ℕ → Entry) : Inv cores (State.start main arg entryp) := by
  have hpc : ∀ c, (State.start main arg entryp).pc c = .run 0 .body ∧ c = 0 ∨
      (State.start main arg entryp).pc c = .boot ∧ c ≠ 0 := by
    intro c
    by_cases hc : c = 0
    · exact .inl ⟨if_pos hc, hc⟩
    · exact .inr ⟨if_neg hc, hc⟩
  have hunfilled : ∀ i, ¬Filled cores (State.start main arg entryp) i := by
    rintro i ⟨c, -, hfills⟩
    rcases hpc c with ⟨hrun, -⟩ | ⟨hboot, -⟩
    · rw [hrun] at hfills
      cases hfills
    · rw [hboot] at hfills
      cases hfills
  constructor
  case own =>
    intro c i hi
    rcases hpc c with ⟨hrun, rfl⟩ | ⟨hboot, -⟩
    · rw [hrun] at hi
      exact (Option.some.inj hi).symm
    · rw [hboot] at hi
      cases hi
  case current =>
    intro c hnoted
    rcases hpc c with ⟨-, rfl⟩ | ⟨hboot, -⟩
    · rfl
    · rw [hboot] at hnoted
      exact hnoted.elim
  case phase =>
    intro i
    rcases hpc i with ⟨hrun, rfl⟩ | ⟨hboot, hi⟩
    · rw [hrun]
      exact ⟨hunfilled 0, rfl, .inl ⟨rfl, rfl, id⟩⟩
    · rw [hboot]
      simp only [State.start, if_neg hi]
      exact .inl ⟨rfl, ⟨rfl, rfl⟩, fun _ _ hresult => by cases hresult⟩
  case sole =>
    intro c hc d _ i hci _
    exact absurd ⟨c, hc, hci⟩ (hunfilled i)
  case creating =>
    intro c _
    rcases hpc c with ⟨hrun, -⟩ | ⟨hboot, -⟩
    · rw [hrun]
      trivial
    · rw [hboot]
      trivial
  case joins =>
    intro c _
    rcases hpc c with ⟨hrun, -⟩ | ⟨hboot, -⟩
    · rw [hrun]
      trivial
    · rw [hboot]
      trivial
  case joined => exact nofun
  case claimed =>
    intro i hi
    rcases Nat.eq_zero_or_pos i with rfl | hpos
    · exact Nat.one_pos
    · exact absurd (by simp [State.start, hpos.ne']) hi
  case nexttid => exact le_rfl
  case coreHwm => exact hcores

end Steps

section Starting

variable {cores i : ℕ} {s s' : State Entry Value}

/-- A thread waits in the slot for its core. -/
structure Queuing (cores i : ℕ) (s : State Entry Value) : Prop where
  core : i < cores
  cpu : i < maxCpus
  slots : s.nexttid ≤ maxThreads
  nexttid : i < s.nexttid
  own : (s.threads i).core = i
  others : ∀ j, j ≠ i → (s.threads j).core ≠ i
  created : (s.history i).created =
    (s.history i).started ++ [((s.threads i).entryp, (s.threads i).arg)]

/-- Steps of its core alone start the last thread created in a slot. -/
def Starts (cores i : ℕ) (s : State Entry Value) : Prop :=
  ∃ n s', Guarded.exec (step cores) s (List.replicate n (i, .go)) = some s' ∧
    (s'.history i).started = (s.history i).created

theorem Starts.of_step (hstep : step cores s (i, .go) = some s')
    (hcreated : (s'.history i).created = (s.history i).created) (h : Starts cores i s') :
    Starts cores i s := by
  obtain ⟨n, final, hrun, hstarted⟩ := h
  refine ⟨n + 1, final, ?_, hstarted.trans hcreated⟩
  rw [List.replicate_succ, Guarded.exec_cons, hstep, Option.bind_some]
  exact hrun

/-- What a core does in its loop leaves the thread in its slot. -/
theorem Queuing.of_eq (h : Queuing cores i s) (hthreads : s'.threads = s.threads)
    (hhistory : s'.history = s.history) (hnexttid : s'.nexttid = s.nexttid) :
    Queuing cores i s' where
  core := h.core
  cpu := h.cpu
  slots := hnexttid ▸ h.slots
  nexttid := hnexttid ▸ h.nexttid
  own := hthreads ▸ h.own
  others := hthreads ▸ h.others
  created := by
    rw [hthreads, hhistory]
    exact h.created

theorem Queuing.loadArg (h : Queuing cores i s)
    (hpc : s.pc i = .loadArg i (s.threads i).entryp) : Starts cores i s := by
  have hstep : step cores s (i, .go) =
      some ((s.goto i (.run i .body)).setHistory i { s.history i with
        started := (s.history i).started ++
          [((s.threads i).entryp, (s.threads i).arg)] }) := by
    rw [step_of_inArrays (by simp only [InArrays, hpc])]
    simp only [access, if_pos h.core, hpc]
  refine ⟨1, _, Guarded.exec_cons_eq_some.mpr ⟨_, hstep, rfl⟩, ?_⟩
  simp only [State.setHistory, Function.update_self]
  exact h.created.symm

theorem Queuing.loadEntry (h : Queuing cores i s) (hpc : s.pc i = .loadEntry i) :
    Starts cores i s := by
  have hstep : step cores s (i, .go) =
      some (s.goto i (.loadArg i (s.threads i).entryp)) := by
    rw [step_of_inArrays (by simp only [InArrays, hpc])]
    simp only [access, if_pos h.core, hpc]
  have hnext : Queuing cores i (s.goto i (.loadArg i (s.threads i).entryp)) :=
    h.of_eq rfl rfl rfl
  exact .of_step hstep rfl (hnext.loadArg (Function.update_self ..))

theorem Queuing.found (h : Queuing cores i s) (hpc : s.pc i = .found i) :
    Starts cores i s := by
  have hstep : step cores s (i, .go) =
      some { s.goto i (.loadEntry i) with
        cpuCurrent := Function.update s.cpuCurrent i i } := by
    rw [step_of_inArrays (by simpa only [InArrays, hpc] using h.cpu)]
    simp only [access, if_pos h.core, hpc]
  have hnext : Queuing cores i { s.goto i (.loadEntry i) with
      cpuCurrent := Function.update s.cpuCurrent i i } := h.of_eq rfl rfl rfl
  exact .of_step hstep rfl (hnext.loadEntry (Function.update_self ..))

/-- The slots that the loop looks at are in the table. -/
theorem Queuing.inArrays_test {j : ℕ} (h : Queuing cores i s) (hpc : s.pc i = .test j) :
    InArrays s (i, .go) := by
  simp only [InArrays, hpc]
  exact fun hj => lt_of_lt_of_le hj h.slots

theorem Queuing.poll_self (h : Queuing cores i s) (hpc : s.pc i = .poll i) :
    Starts cores i s := by
  have hstep : step cores s (i, .go) = some (s.goto i (.found i)) := by
    rw [step_of_inArrays (by simp only [InArrays, hpc])]
    simp only [access, if_pos h.core, hpc, if_pos h.own]
  have hnext : Queuing cores i (s.goto i (.found i)) := h.of_eq rfl rfl rfl
  exact .of_step hstep rfl (hnext.found (Function.update_self ..))

theorem Queuing.poll_other {j : ℕ} (h : Queuing cores i s) (hji : j ≠ i)
    (hpc : s.pc i = .poll j) (hnext : Starts cores i (s.goto i (.test (j + 1)))) :
    Starts cores i s := by
  have hstep : step cores s (i, .go) = some (s.goto i (.test (j + 1))) := by
    rw [step_of_inArrays (by simp only [InArrays, hpc])]
    simp only [access, if_pos h.core, hpc, if_neg (h.others j hji)]
  exact .of_step hstep rfl hnext

theorem Queuing.test_lt {j : ℕ} (h : Queuing cores i s) (hj : j < s.nexttid)
    (hpc : s.pc i = .test j) (hnext : Starts cores i (s.goto i (.poll j))) :
    Starts cores i s := by
  have hstep : step cores s (i, .go) = some (s.goto i (.poll j)) := by
    rw [step_of_inArrays (h.inArrays_test hpc)]
    simp only [access, if_pos h.core, hpc, if_pos hj]
  exact .of_step hstep rfl hnext

/-- The search passes the slots below, by induction on their number. -/
theorem Queuing.test_le {j d : ℕ} (h : Queuing cores i s) (hj : j + d = i)
    (hpc : s.pc i = .test j) : Starts cores i s := by
  have hlt := h.nexttid
  have hpoll : Queuing cores i (s.goto i (.poll j)) := h.of_eq rfl rfl rfl
  refine h.test_lt (by omega) hpc ?_
  induction d generalizing j s with
  | zero =>
      rw [Nat.add_zero] at hj
      subst hj
      exact hpoll.poll_self (Function.update_self ..)
  | succ d ih =>
      refine hpoll.poll_other (by omega) (Function.update_self ..) ?_
      have htest : Queuing cores i ((s.goto i (.poll j)).goto i (.test (j + 1))) :=
        h.of_eq rfl rfl rfl
      have hnext : ((s.goto i (.poll j)).goto i (.test (j + 1))).pc i = .test (j + 1) :=
        Function.update_self ..
      refine htest.test_lt (lt_of_le_of_lt (by omega) hlt) hnext ?_
      exact ih htest (by omega) hnext hlt (h.of_eq rfl rfl rfl)

/-- The search passes the slots above and begins again. -/
theorem Queuing.test_gt {j d : ℕ} (h : Queuing cores i s) (hj : i < j)
    (hd : s.nexttid ≤ j + d) (hpc : s.pc i = .test j) : Starts cores i s := by
  induction d generalizing j s with
  | zero =>
      have hstep : step cores s (i, .go) = some (s.goto i (.test 0)) := by
        rw [step_of_inArrays (h.inArrays_test hpc)]
        simp only [access, if_pos h.core, hpc, Nat.add_zero] at hd ⊢
        exact if_neg (not_lt.mpr hd)
      have hnext : Queuing cores i (s.goto i (.test 0)) := h.of_eq rfl rfl rfl
      exact .of_step hstep rfl (hnext.test_le (Nat.zero_add i) (Function.update_self ..))
  | succ d ih =>
      by_cases hlt : j < s.nexttid
      · have hpoll : Queuing cores i (s.goto i (.poll j)) := h.of_eq rfl rfl rfl
        have htest : Queuing cores i ((s.goto i (.poll j)).goto i (.test (j + 1))) :=
          h.of_eq rfl rfl rfl
        refine h.test_lt hlt hpc (hpoll.poll_other (by omega) (Function.update_self ..) ?_)
        exact ih htest (by omega) (hd.trans_eq (by omega)) (Function.update_self ..)
      · exact ih h hj (by omega) hpc

/-- Wherever its core is in its loop, it gets to the thread. -/
theorem Queuing.starts (h : Queuing cores i s) (hpc : (s.pc i).slot = none) :
    Starts cores i s := by
  have htest : ∀ {s : State Entry Value} {j}, Queuing cores i s → s.pc i = .test j →
      Starts cores i s := by
    intro s j h hpc
    rcases le_or_gt j i with hj | hj
    · exact h.test_le (Nat.add_sub_of_le hj) hpc
    · exact h.test_gt hj (Nat.le_add_left s.nexttid j) hpc
  cases hpoint : s.pc i <;> rw [hpoint] at hpc <;> cases hpc
  case boot =>
    have hstep : step cores s (i, .go) = some { s.goto i (.test 0) with
        coreHwm := max s.coreHwm i
        cpuCurrent := Function.update s.cpuCurrent i (-1) } := by
      rw [step_of_inArrays (by simpa only [InArrays, hpoint] using h.cpu)]
      simp only [access, if_pos h.core, hpoint]
    have hnext : Queuing cores i { s.goto i (.test 0) with
        coreHwm := max s.coreHwm i
        cpuCurrent := Function.update s.cpuCurrent i (-1) } := h.of_eq rfl rfl rfl
    exact .of_step hstep rfl (htest hnext (Function.update_self ..))
  case test j => exact htest h hpoint
  case poll j =>
    by_cases hji : j = i
    · exact h.poll_self (hji ▸ hpoint)
    · have hnext : Queuing cores i (s.goto i (.test (j + 1))) := h.of_eq rfl rfl rfl
      exact h.poll_other hji hpoint (htest hnext (Function.update_self ..))

/-- The last thread created in a slot has been started, or waits there. -/
theorem Inv.started_or_queuing (h : Inv cores s) (hcpus : cores ≤ maxCpus) (i : ℕ) :
    (s.history i).created = (s.history i).started ∨
      Queuing cores i s ∧ ((s.pc i).slot = none ∨ s.pc i = .found i ∨ s.pc i = .loadEntry i ∨
        s.pc i = .loadArg i (s.threads i).entryp) := by
  have hphase := h.phase i
  have hqueuing : Queued i (s.threads i) (s.history i) → Queuing cores i s := by
    rintro ⟨hown, hcreated, -⟩
    have hnexttid : i < s.nexttid := h.claimed i (by simp [hcreated])
    have hslots : s.nexttid ≤ cores := h.nexttid.trans h.coreHwm
    exact {
      core := lt_of_lt_of_le hnexttid hslots
      cpu := lt_of_lt_of_le hnexttid (hslots.trans hcpus)
      slots := hslots.trans (hcpus.trans (by decide))
      nexttid := hnexttid
      own := hown
      others := fun j hj => by
        rcases (h.phase j).core_eq with hcore | hcore <;> omega
      created := hcreated }
  cases hpc : s.pc i <;> rw [hpc] at hphase
  case boot | test | poll =>
    rcases hphase with ⟨-, hdone, -⟩ | ⟨-, hqueued⟩
    · exact .inl hdone.1
    · exact .inr ⟨hqueuing hqueued, .inl rfl⟩
  case found j =>
    cases h.own i j (by rw [hpc]; rfl)
    exact .inr ⟨hqueuing hphase.2, .inr (.inl rfl)⟩
  case loadEntry j =>
    cases h.own i j (by rw [hpc]; rfl)
    exact .inr ⟨hqueuing hphase.2, .inr (.inr (.inl rfl))⟩
  case loadArg j entryp =>
    cases h.own i j (by rw [hpc]; rfl)
    obtain ⟨-, hqueued, rfl⟩ := hphase
    exact .inr ⟨hqueuing hqueued, .inr (.inr (.inr rfl))⟩
  case run => exact .inl hphase.2.1
  case store => exact .inl hphase.2.1.1
  case clear => exact .inl hphase.2.1.1

/-- A thread that was created and has not been started gets started. -/
theorem Inv.starts (h : Inv cores s) (hcpus : cores ≤ maxCpus)
    (hlt : (s.history i).started.length < (s.history i).created.length) :
    Starts cores i s := by
  rcases h.started_or_queuing hcpus i with heq | ⟨hqueuing, hpc⟩
  · rw [heq] at hlt
    exact absurd hlt (lt_irrefl _)
  · rcases hpc with hidle | hfound | hentry | harg
    · exact hqueuing.starts hidle
    · exact hqueuing.found hfound
    · exact hqueuing.loadEntry hentry
    · exact hqueuing.loadArg harg

end Starting

section Life

variable {cores : ℕ} {s : State Entry Value}

/-- What is claimed of the threads of all slots.  In each slot the entry functions
called are those of the threads created there, in order, with their arguments;
only the last one may not have been called yet, and its core alone gets to it.
A core runs the threads of one slot.  A slot has at most one thread without
a result.  A join on a thread has returned its result. -/
structure Sound (cores : ℕ) (s : State Entry Value) : Prop where
  started : ∀ i, (s.history i).started <+: (s.history i).created ∧
    (s.history i).created.length ≤ (s.history i).started.length + 1
  starts : ∀ i, (s.history i).started.length < (s.history i).created.length →
    Starts cores i s
  oneCore : ∀ c i, (s.pc c).slot = some i → i = c
  results : ∀ i, (s.history i).results.length ≤ (s.history i).started.length
  oneLive : ∀ i, (s.history i).created.length ≤ (s.history i).results.length + 1
  joined : ∀ tid k value, (tid, k, value) ∈ s.joined →
    (s.history tid).results[k]? = some value

/-- The results of a slot against what was started there. -/
theorem Phase.results {filled : Prop} {i : ℕ} {b : ControlBlock Entry Value}
    {h : History Entry Value} {pc : Pc Entry Value} (hphase : Phase filled i b h pc) :
    h.results.length ≤ h.started.length ∧ h.created.length ≤ h.results.length + 1 := by
  cases pc with
  | boot | test | poll =>
      rcases hphase with ⟨-, ⟨hcreated, hlength⟩, -⟩ | ⟨-, -, hcreated, hlength⟩ <;>
        rw [hcreated] <;> simp [hlength]
  | found | loadEntry =>
      obtain ⟨-, -, hcreated, hlength⟩ := hphase
      simp [hcreated, hlength]
  | loadArg =>
      obtain ⟨-, ⟨-, hcreated, hlength⟩, -⟩ := hphase
      simp [hcreated, hlength]
  | run =>
      obtain ⟨-, hcreated, ⟨hlength, -⟩ | ⟨-, hlength, -⟩⟩ := hphase <;> rw [hcreated] <;> omega
  | store => simp [hphase.2.1.1, hphase.2.1.2]
  | clear => simp [hphase.2.1.1, hphase.2.1.2]

theorem Inv.sound (h : Inv cores s) (hcpus : cores ≤ maxCpus) : Sound cores s where
  started i := by
    rcases h.started_or_queuing hcpus i with heq | ⟨hqueuing, -⟩
    · rw [heq]
      exact ⟨List.prefix_rfl, Nat.le_succ _⟩
    · rw [hqueuing.created, List.length_append, List.length_singleton]
      exact ⟨List.prefix_append .., le_rfl⟩
  starts _ hlt := h.starts hcpus hlt
  oneCore := h.own
  results i := (h.phase i).results.1
  oneLive i := (h.phase i).results.2
  joined := h.joined

/-- In every run whose steps are orderly, on cores that `_djg_cpu_current` has elements
for, the threads are created, run, and joined as they should be. -/
theorem thread_life (cores : ℕ) (hcores : 0 < cores) (hcpus : cores ≤ maxCpus)
    (main : Entry × Value) (arg : ℕ → Value) (entryp : ℕ → Entry)
    (inputs : List (ℕ × Action Entry Value)) (s : State Entry Value)
    (hguard : Guarded.Meets (step cores) (Orderly cores) (.start main arg entryp) inputs)
    (hrun : Guarded.exec (step cores) (.start main arg entryp) inputs = some s) :
    Sound cores s := by
  have hstep : ∀ (s : State Entry Value) input next, Inv cores s → Orderly cores s input →
      step cores s input = some next → Inv cores next :=
    fun _ _ _ h hguard hstep => h.step hguard (access_of_step hstep)
  exact (Guarded.exec_invariant hstep (Inv.start hcores main arg entryp) hguard hrun).sound hcpus

section Runs

instance (cores : ℕ) (s : State Entry Value) (i : ℕ) : Decidable (Filled cores s i) :=
  inferInstanceAs (Decidable (∃ c < cores, (s.pc c).fills = some i))

instance (cores : ℕ) (s : State Entry Value) (i : ℕ) : Decidable (Joining cores s i) :=
  inferInstanceAs (Decidable (∃ c < cores, (s.pc c).joins = some i))

instance (cores : ℕ) (s : State Entry Value) (i : ℕ) : Decidable (Claimable cores s i) :=
  decidable_of_iff ((s.threads i).core = -1 ∧ (s.pc i).slot = none ∧ ¬Filled cores s i ∧
      ¬Joining cores s i)
    ⟨fun ⟨hfree, hleft, hunfilled, hunjoined⟩ => ⟨hfree, hleft, hunfilled, hunjoined⟩,
      fun h => ⟨h.free, h.left, h.unfilled, h.unjoined⟩⟩

instance [DecidableEq Value] (s : State Entry Value) (i : ℕ) (value : Value) :
    Decidable (Faithful s i value) :=
  inferInstanceAs (Decidable ((s.history i).results.length = (s.history i).started.length →
    (s.history i).results.getLast? = some value))

instance [DecidableEq Value] (cores : ℕ) (s : State Entry Value)
    (input : ℕ × Action Entry Value) : Decidable (Orderly cores s input) := by
  unfold Orderly
  split <;> infer_instance

/-- `main` on core 0, with nothing in the slots. -/
def twoCores : State ℕ ℕ := .start (0, 0) (fun _ => 0) fun _ => 0

/-- Core 1 comes up and `main` creates a thread, which core 1 starts. -/
def firstThread : List (ℕ × Action ℕ ℕ) :=
  (1, .go) :: (0, .create 100 1) :: List.replicate 11 (0, .go) ++ List.replicate 7 (1, .go)

/-- The thread returns 5 and `main` joins it. -/
theorem thread_life_join :
    ∃ s, Sound 2 s ∧ s.joined = [(1, 0, 5)] ∧ (s.history 1).started = [(100, 1)] := by
  let joined : List (ℕ × Action ℕ ℕ) :=
    [(1, .ret 5), (1, .go), (1, .go), (0, .join 1 0), (0, .go), (0, .go)]
  let inputs := firstThread ++ joined
  have hguard : Guarded.Meets (step 2) (Orderly 2) twoCores inputs := by decide
  have hview : (Guarded.exec (step 2) twoCores inputs).map
      (fun s => (s.joined, (s.history 1).started)) = some ([(1, 0, 5)], [(100, 1)]) := by
    decide
  obtain ⟨s, hs, hfinal⟩ := Option.map_eq_some_iff.mp hview
  rw [Prod.mk.injEq] at hfinal
  exact ⟨s,
    thread_life 2 (by decide) (by decide) (0, 0) (fun _ => 0) (fun _ => 0) inputs s hguard hs,
    hfinal⟩

/-- The thread calls `djgthread_exit` with 7; before it returns `main` creates
another, for which slot 1 is free.  The return of the first thread overwrites
the argument of the second and frees the slot: the second never runs, and a
join on it returns what the first returned. -/
theorem not_thread_life :
    ¬∀ (inputs : List (ℕ × Action ℕ ℕ)) (s : State ℕ ℕ),
      Guarded.exec (step 2) twoCores inputs = some s → Sound 2 s := by
  intro hclaim
  let exits : List (ℕ × Action ℕ ℕ) := [(1, .exit 7), (1, .go), (1, .go), (0, .create 200 2)]
  let created : List (ℕ × Action ℕ ℕ) := List.replicate 8 (0, .go)
  let joined : List (ℕ × Action ℕ ℕ) :=
    [(1, .ret 9), (1, .go), (1, .go), (0, .join 1 1), (0, .go), (0, .go)]
  let inputs := firstThread ++ exits ++ created ++ joined
  have hview : (Guarded.exec (step 2) twoCores inputs).map
      (fun s => (s.joined, (s.history 1).results)) = some ([(1, 1, 9)], [7]) := by
    decide
  obtain ⟨s, hs, hfinal⟩ := Option.map_eq_some_iff.mp hview
  rw [Prod.mk.injEq] at hfinal
  have hjoined := (hclaim inputs s hs).joined 1 1 9 (by rw [hfinal.1]; decide)
  rw [hfinal.2] at hjoined
  exact absurd hjoined (by decide)

end Runs

end Life

end Prazor.Crt.Threads
