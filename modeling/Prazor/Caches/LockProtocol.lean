import Prazor.Core.Guarded
import Prazor.Caches.StatusWord

/-!
# The lock protocol of the status words

Any number of agents (requests, snoops, maintenance operations) work on the
status words of one way.  Each loads a word, may be suspended, and then either
locks the word it has seen, works on the line and releases it, or replaces the
word in one step.  The steps below are single helper calls, so their
interleavings include those at the suspension points of the source.

The protocol is broken by `invalidate()`, which stores zero in every word
whether it is locked or not, and by the version field wrapping around.
-/

namespace Prazor.Caches

/-- The operations that lock a line. -/
inductive Operation where
  | read
  | warmWrite (update : Bool)
  | insert (news : LineState)
  | lockedOp
  | snoop (shared : Bool)
  | maintenance (invalid : Bool)

/-- The word an operation releases a line with. -/
def Operation.newts (ts : Word64) : Operation → Word64
  | .read => inctsSame ts
  | .warmWrite update => if update then incts ts .uniqueDirty else inctsSame ts
  | .insert news => incts ts news
  | .lockedOp => incts ts .invalid
  | .snoop shared => incts ts (if shared then .sharedClean else .invalid)
  | .maintenance invalid => incts ts (if invalid then .invalid else .sharedClean)

/-- Where an agent is.  `seen` counts the changes of the word up to its load. -/
inductive Agent.Phase where
  | idle
  | loaded (index : ℕ) (oldts : Word64) (seen : ℕ)
  | holding (index : ℕ) (op : Operation) (ts : Word64)

open Agent (Phase)

/-- The status words of a way and its agents.  `changes` and `completed` count,
for every word, its changes and the operations completed on it. -/
structure StatusWords (Agent : Type*) where
  mStatus : ℕ → Word64
  phase : Agent → Phase
  changes : ℕ → ℕ
  completed : ℕ → ℕ

inductive StatusAction (Agent : Type*) where
  | load (agent : Agent) (index : ℕ)
  | acquire (agent : Agent) (op : Operation)
  | acquireState (agent : Agent) (op : Operation) (s : LineState)
  | release (agent : Agent)
  | makeInvalid (agent : Agent)
  | invalidate

namespace StatusWords

variable {Agent : Type*}

/-- The way as constructed: all zeros. -/
def fresh : StatusWords Agent :=
  { mStatus := fun _ => 0, phase := fun _ => .idle
    changes := fun _ => 0, completed := fun _ => 0 }

variable [DecidableEq Agent]

def moveTo (state : StatusWords Agent) (agent : Agent) (phase : Phase) :
    StatusWords Agent :=
  { state with phase := Function.update state.phase agent phase }

/-- The word of a line is replaced. -/
def store (state : StatusWords Agent) (index : ℕ) (status : Word64) :
    StatusWords Agent :=
  { state with
    mStatus := Function.update state.mStatus index status
    changes := Function.update state.changes index (state.changes index + 1) }

/-- The word of a line is replaced and an operation on it is complete. -/
def complete (state : StatusWords Agent) (index : ℕ) (status : Word64) :
    StatusWords Agent :=
  { state.store index status with
    completed := Function.update state.completed index (state.completed index + 1) }

/-- One helper call, or one call of `invalidate()`; `none` when the assertion
on a release fails, or when the agent is not where it makes that call. -/
def step (state : StatusWords Agent) : StatusAction Agent → Option (StatusWords Agent)
  | .load agent index =>
      match state.phase agent with
      | .holding _ _ _ => none
      | _ => some (state.moveTo agent
          (.loaded index (state.mStatus index) (state.changes index)))
  | .acquire agent op =>
      match state.phase agent with
      | .loaded index oldts _ =>
          let exchange := acquirets (state.mStatus index) oldts
          if exchange.success then
            some ((state.store index exchange.status).moveTo agent
              (.holding index op exchange.oldts))
          else some (state.moveTo agent .idle)
      | _ => none
  | .acquireState agent op s =>
      match state.phase agent with
      | .loaded index oldts _ =>
          let exchange := acquiretsState (state.mStatus index) oldts s
          if exchange.success then
            some ((state.store index exchange.status).moveTo agent
              (.holding index op exchange.oldts))
          else some (state.moveTo agent .idle)
      | _ => none
  | .release agent =>
      match state.phase agent with
      | .holding index op ts =>
          let exchange := releasets (state.mStatus index) ts (op.newts ts)
          if exchange.success then
            some ((state.complete index exchange.status).moveTo agent .idle)
          else none
      | _ => none
  | .makeInvalid agent =>
      match state.phase agent with
      | .loaded index oldts _ =>
          if lineState oldts ≠ .sharedClean then some (state.moveTo agent .idle)
          else
            let exchange := updatets (state.mStatus index) oldts (incts oldts .invalid)
            if exchange.success then
              some ((state.complete index exchange.status).moveTo agent .idle)
            else some (state.moveTo agent .idle)
      | _ => none
  | .invalidate =>
      some { state with
        mStatus := fun _ => 0
        changes := fun index => state.changes index + 1
        completed := fun index => state.completed index + 1 }

/-- The version of the word an agent works on can still grow. -/
def CanCount (state : StatusWords Agent) (agent : Agent) : Prop :=
  match state.phase agent with
  | .idle => True
  | .loaded index _ _ => version (state.mStatus index) + 1 < 2 ^ 60
  | .holding index _ _ => version (state.mStatus index) + 1 < 2 ^ 60

/-- The steps the protocol survives: no `invalidate()`, and no new version past
the end of the version field. -/
def Allowed (state : StatusWords Agent) : StatusAction Agent → Prop
  | .load _ _ => True
  | .acquire _ _ => True
  | .acquireState agent _ _ => state.CanCount agent
  | .release agent => state.CanCount agent
  | .makeInvalid agent => state.CanCount agent
  | .invalidate => False

/-! ## The four ways a step can end -/

/-- Everything an allowed step can do. -/
inductive Outcome (state : StatusWords Agent) : StatusWords Agent → Prop where
  | loaded (agent : Agent) (index : ℕ)
      (hphase : ∀ i op ts, state.phase agent ≠ .holding i op ts) :
      Outcome state (state.moveTo agent
        (.loaded index (state.mStatus index) (state.changes index)))
  | abandoned (agent : Agent) (hphase : ∀ i op ts, state.phase agent ≠ .holding i op ts) :
      Outcome state (state.moveTo agent .idle)
  | locked (agent : Agent) (index : ℕ) (op : Operation) (ts : Word64)
      (hunlocked : Caches.locked (state.mStatus index) = false)
      (hlocked : Caches.locked ts = true)
      (hversion : version (state.mStatus index) ≤ version ts)
      (hphase : ∀ i op ts, state.phase agent ≠ .holding i op ts) :
      Outcome state ((state.store index ts).moveTo agent (.holding index op ts))
  | completed (agent : Agent) (index : ℕ) (ts : Word64)
      (hversion : version (state.mStatus index) < version ts)
      (hfree : Caches.locked (state.mStatus index) = false ∨
        ∃ op, state.phase agent = .holding index op (state.mStatus index)) :
      Outcome state ((state.complete index ts).moveTo agent .idle)

theorem version_newts {ts : Word64} (hwrap : version ts + 1 < 2 ^ 60)
    (op : Operation) : version (op.newts ts) = version ts + 1 := by
  cases op with
  | read => exact version_inctsSame hwrap
  | warmWrite update =>
      cases update
      · exact version_inctsSame hwrap
      · exact version_incts hwrap _
  | insert news => exact version_incts hwrap _
  | lockedOp => exact version_incts hwrap _
  | snoop shared => exact version_incts hwrap _
  | maintenance invalid => exact version_incts hwrap _

theorem step_outcome {state next : StatusWords Agent} {action : StatusAction Agent}
    (hallowed : state.Allowed action) (hstep : state.step action = some next) :
    Outcome state next := by
  cases action with
  | load agent index =>
      cases hphase : state.phase agent with
      | holding i op ts => simp [step, hphase] at hstep
      | _ =>
          simp only [step, hphase, Option.some.injEq] at hstep
          exact hstep ▸ .loaded agent index (by simp [hphase])
  | acquire agent op =>
      cases hphase : state.phase agent with
      | loaded index oldts seen =>
          by_cases heq : state.mStatus index = oldts &&& ~~~1
          · have hunlocked : Caches.locked (state.mStatus index) = false := by
              rw [heq, locked_and_not_one]
            simp only [step, hphase, heq, acquirets_self, if_true,
              Option.some.injEq] at hstep
            rw [← hstep, ← heq]
            exact .locked agent index op _ hunlocked (locked_or_one _)
              (version_or_one hunlocked).ge (by simp [hphase])
          · simp only [step, hphase, acquirets_of_ne heq, Bool.false_eq_true, if_false,
              Option.some.injEq] at hstep
            exact hstep ▸ .abandoned agent (by simp [hphase])
      | _ => simp [step, hphase] at hstep
  | acquireState agent op s =>
      cases hphase : state.phase agent with
      | loaded index oldts seen =>
          by_cases heq : state.mStatus index = oldts &&& ~~~1
          · have hunlocked : Caches.locked (state.mStatus index) = false := by
              rw [heq, locked_and_not_one]
            have hwrap : version oldts + 1 < 2 ^ 60 := by
              simpa only [Allowed, CanCount, hphase, heq, version_and_not_one]
                using hallowed
            simp only [step, hphase, heq, acquiretsState_self, if_true,
              Option.some.injEq] at hstep
            rw [← hstep]
            refine .locked agent index op _ hunlocked (locked_or_one _) ?_
              (by simp [hphase])
            rw [version_or_one (locked_incts _ _), version_incts hwrap, heq,
              version_and_not_one]
            exact Nat.le_succ _
          · simp only [step, hphase, acquiretsState_of_ne heq, Bool.false_eq_true,
              if_false, Option.some.injEq] at hstep
            exact hstep ▸ .abandoned agent (by simp [hphase])
      | _ => simp [step, hphase] at hstep
  | release agent =>
      cases hphase : state.phase agent with
      | holding index op ts =>
          have hwrap : version (state.mStatus index) + 1 < 2 ^ 60 := by
            simpa only [Allowed, CanCount, hphase] using hallowed
          by_cases heq : state.mStatus index = ts
          · simp only [step, hphase, heq, releasets_self, if_true,
              Option.some.injEq] at hstep
            rw [← hstep]
            refine .completed agent index _ ?_ (.inr ⟨op, by rw [hphase, heq]⟩)
            rw [heq] at hwrap ⊢
            rw [version_newts hwrap]
            exact Nat.lt_succ_self _
          · simp [step, hphase, releasets_of_ne heq] at hstep
      | _ => simp [step, hphase] at hstep
  | makeInvalid agent =>
      cases hphase : state.phase agent with
      | loaded index oldts seen =>
          have hwrap : version (state.mStatus index) + 1 < 2 ^ 60 := by
            simpa only [Allowed, CanCount, hphase] using hallowed
          have hnot : ∀ i op ts, state.phase agent ≠ .holding i op ts := by
            simp [hphase]
          simp only [step, hphase] at hstep
          split at hstep
          · exact Option.some.inj hstep ▸ .abandoned agent hnot
          · by_cases heq : state.mStatus index = oldts &&& ~~~1
            · have hunlocked : Caches.locked (state.mStatus index) = false := by
                rw [heq, locked_and_not_one]
              simp only [heq, updatets_self, if_true, Option.some.injEq] at hstep
              rw [← hstep]
              refine .completed agent index _ ?_ (.inl hunlocked)
              rw [heq, version_and_not_one] at hwrap ⊢
              rw [version_incts hwrap]
              exact Nat.lt_succ_self _
            · simp only [updatets_of_ne heq, Bool.false_eq_true, if_false,
                Option.some.injEq] at hstep
              exact hstep ▸ .abandoned agent hnot
      | _ => simp [step, hphase] at hstep
  | invalidate => exact hallowed.elim

/-! ## The invariant -/

/-- A loaded word is the current one until the word changes; after that it is
locked or has a newer version. -/
structure LoadedFresh (state : StatusWords Agent) (index : ℕ) (oldts : Word64)
    (seen : ℕ) : Prop where
  le_changes : seen ≤ state.changes index
  unchanged : seen = state.changes index → state.mStatus index = oldts
  version_le : version oldts ≤ version (state.mStatus index)
  changed : seen < state.changes index →
    version oldts < version (state.mStatus index) ∨
      Caches.locked (state.mStatus index) = true

structure Inv (state : StatusWords Agent) : Prop where
  holder : ∀ agent index op ts, state.phase agent = .holding index op ts →
    state.mStatus index = ts ∧ Caches.locked ts = true
  single : ∀ agent agent' index op op' ts ts',
    state.phase agent = .holding index op ts →
      state.phase agent' = .holding index op' ts' → agent = agent'
  loaded : ∀ agent index oldts seen, state.phase agent = .loaded index oldts seen →
    state.LoadedFresh index oldts seen

omit [DecidableEq Agent] in
theorem inv_fresh : (fresh : StatusWords Agent).Inv where
  holder := by simp [fresh]
  single := by simp [fresh]
  loaded := by simp [fresh]

omit [DecidableEq Agent] in
/-- Nobody holds an unlocked line. -/
theorem Inv.not_holding {state : StatusWords Agent} (hstate : state.Inv) {index : ℕ}
    (hunlocked : Caches.locked (state.mStatus index) = false) (agent : Agent)
    (op : Operation) (ts : Word64) : state.phase agent ≠ .holding index op ts := by
  intro hphase
  obtain ⟨hstatus, hlocked⟩ := hstate.holder agent index op ts hphase
  rw [hstatus, hlocked] at hunlocked
  cases hunlocked

/-- Freshness speaks of the words only, not of where agents are. -/
theorem LoadedFresh.moveTo {state : StatusWords Agent} {i : ℕ} {oldts : Word64}
    {seen : ℕ} (hfresh : state.LoadedFresh i oldts seen) (agent : Agent)
    (phase : Phase) : (state.moveTo agent phase).LoadedFresh i oldts seen :=
  ⟨hfresh.le_changes, hfresh.unchanged, hfresh.version_le, hfresh.changed⟩

/-- The invariant survives an agent that leaves its line for another phase
without touching a word. -/
theorem Inv.moveTo {state : StatusWords Agent} (hstate : state.Inv) {agent : Agent}
    {phase : Phase} (hnot : ∀ i op ts, phase ≠ .holding i op ts)
    (hloaded : ∀ i oldts seen, phase = .loaded i oldts seen →
      state.LoadedFresh i oldts seen) : (state.moveTo agent phase).Inv := by
  have hother : ∀ agent' i op ts,
      (state.moveTo agent phase).phase agent' = .holding i op ts →
        state.phase agent' = .holding i op ts := by
    intro agent' i op ts hphase
    by_cases heq : agent' = agent
    · subst heq
      exact absurd (by simpa [StatusWords.moveTo] using hphase) (hnot i op ts)
    · simpa [StatusWords.moveTo, heq] using hphase
  constructor
  · intro agent' i op ts hphase
    exact hstate.holder agent' i op ts (hother agent' i op ts hphase)
  · intro a a' i op op' ts ts' hphase hphase'
    exact hstate.single a a' i op op' ts ts' (hother a i op ts hphase)
      (hother a' i op' ts' hphase')
  · intro agent' i oldts seen hphase
    by_cases heq : agent' = agent
    · subst heq
      exact (hloaded i oldts seen
        (by simpa [StatusWords.moveTo] using hphase)).moveTo agent' phase
    · exact (hstate.loaded agent' i oldts seen
        (by simpa [StatusWords.moveTo, heq] using hphase)).moveTo agent phase

omit [DecidableEq Agent] in
/-- What a load has seen of a line stays fresh when the word of a line moves to
a newer or locked one. -/
theorem LoadedFresh.store {state : StatusWords Agent} {i index : ℕ}
    {oldts ts : Word64} {seen : ℕ} (hfresh : state.LoadedFresh i oldts seen)
    (hversion : version (state.mStatus index) ≤ version ts)
    (hnew : version (state.mStatus index) < version ts ∨ Caches.locked ts = true) :
    (state.store index ts).LoadedFresh i oldts seen := by
  by_cases heq : i = index
  · subst heq
    have hle := hfresh.le_changes
    have hold := hfresh.version_le
    constructor
    · simp only [StatusWords.store, Function.update_self]
      omega
    · intro hseen
      simp only [StatusWords.store, Function.update_self] at hseen
      omega
    · simp only [StatusWords.store, Function.update_self]
      omega
    · intro _
      simp only [StatusWords.store, Function.update_self]
      exact hnew.imp_left fun hlt => hold.trans_lt hlt
  · obtain ⟨hle, hunchanged, hold, hchanged⟩ := hfresh
    constructor <;> simpa [StatusWords.store, heq]

theorem inv_outcome {state next : StatusWords Agent} (hstate : state.Inv)
    (houtcome : Outcome state next) : next.Inv := by
  cases houtcome with
  | loaded agent index hphase =>
      refine hstate.moveTo (by simp) ?_
      rintro i oldts seen heq
      obtain ⟨rfl, rfl, rfl⟩ : index = i ∧ state.mStatus index = oldts ∧
          state.changes index = seen := by simpa using heq
      exact ⟨le_rfl, fun _ => rfl, le_rfl, fun hlt => absurd hlt (lt_irrefl _)⟩
  | abandoned agent hphase =>
      exact hstate.moveTo (by simp) (by simp)
  | locked agent index op ts hunlocked hlocked hversion hphase =>
      -- the line was free, so its only holder is the agent that has locked it
      have hholder : ∀ agent' i op' ts',
          ((state.store index ts).moveTo agent (.holding index op ts)).phase agent' =
            .holding i op' ts' →
          (agent' = agent ∧ i = index ∧ ts' = ts) ∨
            (i ≠ index ∧ state.phase agent' = .holding i op' ts') := by
        intro agent' i op' ts' hholding
        by_cases heq : agent' = agent
        · subst heq
          obtain ⟨rfl, rfl, rfl⟩ : index = i ∧ op = op' ∧ ts = ts' := by
            simpa [StatusWords.moveTo] using hholding
          exact .inl ⟨rfl, rfl, rfl⟩
        · have hold : state.phase agent' = .holding i op' ts' := by
            simpa [StatusWords.moveTo, StatusWords.store, heq] using hholding
          refine .inr ⟨?_, hold⟩
          rintro rfl
          exact hstate.not_holding hunlocked agent' op' ts' hold
      constructor
      · intro agent' i op' ts' hholding
        rcases hholder agent' i op' ts' hholding with ⟨-, rfl, rfl⟩ | ⟨hne, hold⟩
        · exact ⟨by simp [StatusWords.moveTo, StatusWords.store], hlocked⟩
        · simpa [StatusWords.moveTo, StatusWords.store, hne]
            using hstate.holder agent' i op' ts' hold
      · intro a a' i op₁ op₂ ts₁ ts₂ hholding hholding'
        rcases hholder a i op₁ ts₁ hholding with ⟨ha, hi, -⟩ | ⟨hne, hold⟩
        · rcases hholder a' i op₂ ts₂ hholding' with ⟨ha', -, -⟩ | ⟨hne, -⟩
          · rw [ha, ha']
          · exact absurd hi hne
        · rcases hholder a' i op₂ ts₂ hholding' with ⟨-, hi, -⟩ | ⟨-, hold'⟩
          · exact absurd hi hne
          · exact hstate.single a a' i op₁ op₂ ts₁ ts₂ hold hold'
      · intro agent' i oldts seen hloaded
        by_cases heq : agent' = agent
        · subst heq
          simp [StatusWords.moveTo] at hloaded
        · have hold := hstate.loaded agent' i oldts seen
            (by simpa [StatusWords.moveTo, StatusWords.store, heq] using hloaded)
          exact (hold.store hversion (.inr hlocked)).moveTo agent _
  | completed agent index ts hversion hfree =>
      -- no other agent holds the line that is released or replaced
      have hholder : ∀ agent' i op' ts',
          ((state.complete index ts).moveTo agent .idle).phase agent' =
            .holding i op' ts' →
          i ≠ index ∧ state.phase agent' = .holding i op' ts' := by
        intro agent' i op' ts' hholding
        by_cases heq : agent' = agent
        · subst heq
          simp [StatusWords.moveTo] at hholding
        · have hold : state.phase agent' = .holding i op' ts' := by
            simpa [StatusWords.moveTo, StatusWords.complete, StatusWords.store, heq]
              using hholding
          refine ⟨?_, hold⟩
          rintro rfl
          rcases hfree with hunlocked | ⟨op, hown⟩
          · exact hstate.not_holding hunlocked agent' op' ts' hold
          · exact heq (hstate.single agent' agent i op' op ts' _ hold hown)
      constructor
      · intro agent' i op' ts' hholding
        obtain ⟨hne, hold⟩ := hholder agent' i op' ts' hholding
        simpa [StatusWords.moveTo, StatusWords.complete, StatusWords.store, hne]
          using hstate.holder agent' i op' ts' hold
      · intro a a' i op₁ op₂ ts₁ ts₂ hholding hholding'
        exact hstate.single a a' i op₁ op₂ ts₁ ts₂
          (hholder a i op₁ ts₁ hholding).2 (hholder a' i op₂ ts₂ hholding').2
      · intro agent' i oldts seen hloaded
        by_cases heq : agent' = agent
        · subst heq
          simp [StatusWords.moveTo] at hloaded
        · have hfresh := (hstate.loaded agent' i oldts seen
            (by simpa [StatusWords.moveTo, StatusWords.complete, StatusWords.store, heq]
              using hloaded)).store hversion.le (.inl hversion)
          exact ⟨hfresh.le_changes, hfresh.unchanged, hfresh.version_le,
            hfresh.changed⟩

/-! ## The protocol -/

/-- The lock protocol in one state: a holder finds the word it has locked and
its release succeeds, a word that compares equal to a loaded one has not
changed since, and every operation an allowed step completes makes the version
of its word grow. -/
structure Protocol (state : StatusWords Agent) : Prop where
  held : ∀ agent index op ts, state.phase agent = .holding index op ts →
    state.mStatus index = ts ∧ (state.step (.release agent)).isSome
  untouched : ∀ agent index oldts seen, state.phase agent = .loaded index oldts seen →
    state.mStatus index = oldts &&& ~~~1 → state.changes index = seen
  counted : ∀ action next, state.Allowed action → state.step action = some next →
    ∀ index, version (state.mStatus index) ≤ version (next.mStatus index) ∧
      (state.completed index < next.completed index →
        version (state.mStatus index) < version (next.mStatus index))

omit [DecidableEq Agent] in
theorem LoadedFresh.untouched {state : StatusWords Agent} {index : ℕ}
    {oldts : Word64} {seen : ℕ} (hfresh : state.LoadedFresh index oldts seen)
    (hequal : state.mStatus index = oldts &&& ~~~1) : state.changes index = seen := by
  by_contra hne
  have hlt : seen < state.changes index :=
    lt_of_le_of_ne hfresh.le_changes (Ne.symm hne)
  rcases hfresh.changed hlt with hversion | hlocked
  · rw [hequal, version_and_not_one] at hversion
    exact lt_irrefl _ hversion
  · rw [hequal, locked_and_not_one] at hlocked
    cases hlocked

theorem version_outcome {state next : StatusWords Agent}
    (houtcome : Outcome state next) (index : ℕ) :
    version (state.mStatus index) ≤ version (next.mStatus index) ∧
      (state.completed index < next.completed index →
        version (state.mStatus index) < version (next.mStatus index)) := by
  cases houtcome with
  | loaded agent i hphase => exact ⟨le_rfl, fun hlt => absurd hlt (lt_irrefl _)⟩
  | abandoned agent hphase => exact ⟨le_rfl, fun hlt => absurd hlt (lt_irrefl _)⟩
  | locked agent i op ts hunlocked hlocked hversion hphase =>
      refine ⟨?_, fun hlt => absurd hlt (lt_irrefl _)⟩
      by_cases heq : index = i
      · subst heq
        simpa [moveTo, store] using hversion
      · simp [moveTo, store, heq]
  | completed agent i ts hversion hfree =>
      by_cases heq : index = i
      · subst heq
        have hnew : version (state.mStatus index) <
            version (((state.complete index ts).moveTo agent .idle).mStatus index) := by
          simpa [moveTo, complete, store] using hversion
        exact ⟨hnew.le, fun _ => hnew⟩
      · simp [moveTo, complete, store, heq]

theorem protocol_of_inv {state : StatusWords Agent} (hstate : state.Inv) :
    state.Protocol where
  held := by
    intro agent index op ts hphase
    have hstatus := (hstate.holder agent index op ts hphase).1
    refine ⟨hstatus, ?_⟩
    simp only [step, hphase, hstatus, releasets_self, if_true, Option.isSome_some]
  untouched := fun agent index oldts seen hphase hequal =>
    (hstate.loaded agent index oldts seen hphase).untouched hequal
  counted := fun _ _ hallowed hstep index =>
    version_outcome (step_outcome hallowed hstep) index

/-- In every state that allowed steps of any agents reach from a fresh way, in
any order, the lock protocol holds. -/
theorem status_protocol (actions : List (StatusAction Agent))
    (state : StatusWords Agent)
    (hallowed : Guarded.Meets step Allowed fresh actions)
    (hrun : Guarded.exec step fresh actions = some state) : state.Protocol :=
  protocol_of_inv <| Guarded.exec_invariant
    (fun _ _ _ hstate hstep hnext => inv_outcome hstate (step_outcome hstep hnext))
    inv_fresh hallowed hrun

theorem status_protocol_insert :
    ∃ state : StatusWords ℕ, state.mStatus 0 = 1 ∧ state.Protocol := by
  refine ⟨_, ?_, status_protocol
    [.load 1 0, .acquire 1 (.insert .uniqueClean)] _
    ⟨trivial, fun _ _ => ⟨trivial, fun _ _ => trivial⟩⟩ rfl⟩
  rfl

/-- A request holds the lock of a dirty line across its write-back when `invalidate()`
runs: the word it has locked is gone and its release fails. -/
theorem invalidate_breaks_protocol :
    ∃ (state : StatusWords ℕ) (ts : Word64),
      Guarded.exec step fresh
          [.load 1 0, .acquire 1 (.insert .uniqueDirty), .release 1, .load 1 0,
            .acquire 1 (.insert .uniqueClean), .invalidate] = some state ∧
        state.phase 1 = .holding 0 (.insert .uniqueClean) ts ∧
        lineState ts = .uniqueDirty ∧ state.mStatus 0 = 0 ∧
        state.step (.release 1) = none ∧ ¬state.Protocol := by
  refine ⟨_, _, rfl, rfl, by decide, rfl, rfl, ?_⟩
  intro hprotocol
  exact absurd (hprotocol.held 1 0 _ _ rfl).1 (by decide)

end StatusWords

end Prazor.Caches
