import Prazor.Crt.Barrier
import Prazor.Core.Mutex
import Mathlib.Data.Fintype.Card

/-!
# The rounds of the barrier

The cycles of a barrier are its rounds.  The invariant names the last caller of
each completed round and says for each program point how many calls a thread
there has returned from: as many as there are completed rounds while it waits
for the round to complete, one less on its way out.  The four parts of the
invariant are about the mutexes, the calls, the condition variable and the
count.
-/

namespace Prazor.Crt.Barrier

open Mutex

section Points

/-- Between taking and releasing the mutex of the barrier. -/
def Pc.Locked : Pc → Prop
  | .outside | .lock | .poll _ | .relock _ => False
  | _ => True

/-- Between taking and releasing `bcast_mutex`. -/
def Pc.Casting : Pc → Prop
  | .scan _ | .clear _ | .bcastUnlock => True
  | _ => False

/-- Counted in `barrier->n`. -/
def Pc.Counted : Pc → Bool
  | .outside | .lock | .enter => false
  | _ => true

/-- Registered on the condition variable. -/
def Pc.Sleeping : Pc → Prop
  | .release _ | .poll _ => True
  | _ => False

/-- In a broadcast that has yet to pass entry `i`. -/
def Pc.Pending (i : ℕ) : Pc → Prop
  | .bcastLock => True
  | .scan j | .clear j => j ≤ i
  | _ => False

/-- In a broadcast. -/
def Pc.Waking : Pc → Prop
  | .bcastLock | .scan _ | .clear _ | .bcastUnlock => True
  | _ => False

/-- Where a thread that has returned from `ret` calls can be after `round`
completed rounds, `serial` when it was the last caller of round `ret`. -/
def Place (round ret : ℕ) (serial : Prop) : Pc → Prop
  | .outside | .lock | .enter | .load | .reset | .advance => ret = round
  | .test cycle | .poll cycle =>
      cycle = BitVec.ofNat 32 ret ∧ (ret = round ∨ ret + 1 = round ∧ ¬serial)
  | .register cycle | .release cycle => cycle = BitVec.ofNat 32 ret ∧ ret = round
  | .relock cycle => cycle = BitVec.ofNat 32 ret ∧ ret + 1 = round ∧ ¬serial
  | .bcastLock | .scan _ | .clear _ | .bcastUnlock => ret + 1 = round ∧ serial
  | .unlock rc =>
      ret + 1 = round ∧ (serial ∧ rc = serialThread ∨ ¬serial ∧ rc = 0)

theorem Pc.Waking.locked {pc : Pc} (h : pc.Waking) : pc.Locked := by
  cases pc <;> first | exact trivial | exact h

/-- A thread is at most one call behind the completed rounds, and then it is
in that call. -/
theorem Place.behind {round ret : ℕ} {serial : Prop} {pc : Pc}
    (h : Place round ret serial pc) :
    ret = round ∨ ret + 1 = round ∧ pc ≠ .outside := by
  cases pc <;> simp only [Place] at h <;> grind

end Points

variable {Thread : Type*} [DecidableEq Thread] {table : Table Thread}
variable {last : List Thread} {s s' : State Thread} {t : Thread}

section Parts

/-- The mutexes are with the threads between taking and releasing them. -/
structure Locks (s : State Thread) : Prop where
  mutex : Held Pc.Locked s.pc s.m
  bcast : Held Pc.Casting s.pc s.bcastMutex

/-- The calls of all threads against the last callers of the rounds. -/
structure Calls (last : List Thread) (s : State Thread) : Prop where
  cycle : s.cycle = BitVec.ofNat 32 last.length
  place : ∀ t, Place last.length (s.returned t) (last[s.returned t]? = some t) (s.pc t)
  codes : ∀ (t : Thread) (k rc : ℕ), (s.returns t)[k]? = some rc →
    last[k]? = some t ∧ rc = serialThread ∨ last[k]? ≠ some t ∧ rc = 0

/-- The entries of the threads against the condition variable: a thread whose
round is not complete sleeps registered, and of those that are still registered
after their round a broadcast is on its way. -/
structure Sleepers (table : Table Thread) (round : ℕ) (s : State Thread) : Prop where
  sleeping : ∀ t, s.waiting (table.tid t) = true → (s.pc t).Sleeping
  registered : ∀ t, (s.pc t).Sleeping → s.returned t = round →
    s.waiting (table.tid t) = true
  pending : ∀ t, s.waiting (table.tid t) = true → s.returned t ≠ round →
    ∃ u, (s.pc u).Pending (table.tid t)
  woken : ∀ t, (s.pc t).Waking → ∀ u, s.returned u ≠ round

variable [Fintype Thread]

/-- The threads counted for the round that is not complete. -/
def present (round : ℕ) (s : State Thread) : Finset Thread :=
  Finset.univ.filter fun t => (s.pc t).Counted = true ∧ s.returned t = round

omit [DecidableEq Thread] in
@[simp]
theorem mem_present {round : ℕ} :
    t ∈ present round s ↔ (s.pc t).Counted = true ∧ s.returned t = round := by
  simp [present]

/-- The count of the barrier against the threads counted. -/
structure Counts (round : ℕ) (s : State Thread) : Prop where
  customers : s.customers = Fintype.card Thread
  count : (∀ t, s.pc t ≠ .advance) → s.n = (present round s).card
  zero : ∀ t, s.pc t = .advance → s.n = 0
  room : (∀ t, s.pc t ≠ .reset) → s.n < Fintype.card Thread
  full : ∀ t, s.pc t = .reset ∨ s.pc t = .advance → ∀ u, u ∈ present round s

/-- The invariant. -/
structure Inv (table : Table Thread) (last : List Thread) (s : State Thread) : Prop where
  locks : Locks s
  calls : Calls last s
  sleepers : Sleepers table last.length s
  counts : Counts last.length s

end Parts

section Steps

theorem Locks.step (h : Locks s) (hstep : access table s t = some s') : Locks s' := by
  obtain ⟨hm, hb⟩ := h
  cases hpc : s.pc t <;> simp only [access, hpc] at hstep
  case lock | relock =>
    split_ifs at hstep with hfree
    cases hstep
    rw [hfree] at hm
    exact ⟨hm.acquire trivial, hb.move (by simp [hpc, Pc.Casting])⟩
  case release | unlock =>
    cases hstep
    exact ⟨hm.release (by simp [hpc, Pc.Locked]) (by simp [Pc.Locked]),
      hb.move (by simp [hpc, Pc.Casting])⟩
  case bcastLock =>
    split_ifs at hstep with hfree
    cases hstep
    rw [hfree] at hb
    exact ⟨hm.move (by simp [hpc, Pc.Locked]), hb.acquire trivial⟩
  case bcastUnlock =>
    cases hstep
    exact ⟨hm.move (by simp [hpc, Pc.Locked]),
      hb.release (by simp [hpc, Pc.Casting]) (by simp [Pc.Casting])⟩
  case enter | test | poll | scan =>
    split_ifs at hstep
    all_goals
      cases hstep
      exact ⟨hm.move (by simp [hpc, Pc.Locked]), hb.move (by simp [hpc, Pc.Casting])⟩
  all_goals
    cases hstep
    exact ⟨hm.move (by simp [hpc, Pc.Locked]), hb.move (by simp [hpc, Pc.Casting])⟩

/-- A thread that stays in its call moves to another point of it. -/
theorem Calls.move {point : Pc} (h : Calls last s) (hcycle : s'.cycle = s.cycle)
    (hreturns : s'.returns = s.returns) (hpc : s'.pc = Function.update s.pc t point)
    (hplace : Place last.length (s.returned t) (last[s.returned t]? = some t) point) :
    Calls last s' where
  cycle := hcycle.trans h.cycle
  place u := by
    rw [State.returned, hreturns, hpc]
    by_cases hu : u = t
    · rw [hu, Function.update_self]
      exact hplace
    · rw [Function.update_of_ne hu]
      exact h.place u
  codes := by
    rw [hreturns]
    exact h.codes

/-- A thread that returns takes the code it was given. -/
theorem Calls.leave {rc : ℕ} (h : Calls last s)
    (hplace : s.returned t + 1 = last.length ∧
      (last[s.returned t]? = some t ∧ rc = serialThread ∨
        ¬last[s.returned t]? = some t ∧ rc = 0)) :
    Calls last ({ s with
      m := none
      returns := Function.update s.returns t (s.returns t ++ [rc]) }.goto t .outside) where
  cycle := h.cycle
  place u := by
    by_cases hu : u = t
    · subst hu
      simp only [State.goto, State.returned, Function.update_self, Place,
        List.length_append, List.length_singleton]
      exact hplace.1
    · simp only [State.goto, State.returned, Function.update_of_ne hu]
      exact h.place u
  codes u k code hcode := by
    by_cases hu : u = t
    · subst hu
      simp only [State.goto, Function.update_self] at hcode
      rcases lt_or_ge k (s.returned u) with hk | hk
      · rw [List.getElem?_append_left hk] at hcode
        exact h.codes u k code hcode
      · rw [List.getElem?_append_right hk, List.getElem?_singleton] at hcode
        split_ifs at hcode with hlast
        have hk' : k = s.returned u := by
          rw [State.returned] at hk ⊢
          omega
        rw [hk', ← Option.some.inj hcode]
        exact hplace.2
    · simp only [State.goto, Function.update_of_ne hu] at hcode
      exact h.codes u k code hcode

/-- Two counts of rounds in a row are different words. -/
theorem ofNat_ne_succ (k : ℕ) : BitVec.ofNat 32 k ≠ BitVec.ofNat 32 (k + 1) := by
  rw [BitVec.ofNat_add]
  bv_omega

theorem Calls.step (h : Calls last s) (hsleepers : Sleepers table last.length s)
    (hstep : access table s t = some s') (hadvance : s.pc t ≠ .advance) :
    Calls last s' := by
  have hplace := h.place t
  cases hpc : s.pc t <;> simp only [access, hpc] at hstep <;>
    simp only [hpc, Place] at hplace
  case advance => exact absurd hpc hadvance
  case load =>
    cases hstep
    exact h.move rfl rfl rfl ⟨h.cycle.trans (by rw [hplace]), .inl hplace⟩
  case test cycle =>
    split_ifs at hstep with hcycle
    · -- The cycle it loaded is the current one: its round is not complete.
      cases hstep
      refine h.move rfl rfl rfl ⟨hplace.1, hplace.2.resolve_right fun hbehind => ?_⟩
      rw [h.cycle, hplace.1, ← hbehind.1] at hcycle
      exact ofNat_ne_succ _ hcycle
    · cases hstep
      have hbehind := hplace.2.resolve_left fun hround => hcycle (by
        rw [h.cycle, hplace.1, hround])
      exact h.move rfl rfl rfl ⟨hbehind.1, .inr ⟨hbehind.2, rfl⟩⟩
  case poll cycle =>
    split_ifs at hstep with hwaiting
    cases hstep
    refine h.move rfl rfl rfl ⟨hplace.1, hplace.2.resolve_left fun hround => hwaiting ?_⟩
    exact hsleepers.registered t (by simp [hpc, Pc.Sleeping]) hround
  case unlock rc =>
    cases hstep
    exact h.leave hplace
  case lock =>
    split_ifs at hstep
    cases hstep
    exact h.move rfl rfl rfl hplace
  case enter =>
    split_ifs at hstep <;> cases hstep <;> exact h.move rfl rfl rfl hplace
  case relock cycle =>
    split_ifs at hstep
    cases hstep
    exact h.move rfl rfl rfl ⟨hplace.1, .inr hplace.2⟩
  case release cycle =>
    cases hstep
    exact h.move rfl rfl rfl ⟨hplace.1, .inl hplace.2⟩
  case bcastLock =>
    split_ifs at hstep
    cases hstep
    exact h.move rfl rfl rfl hplace
  case scan i =>
    split_ifs at hstep <;> cases hstep <;> exact h.move rfl rfl rfl hplace
  case bcastUnlock =>
    cases hstep
    exact h.move rfl rfl rfl ⟨hplace.1, .inl ⟨hplace.2, rfl⟩⟩
  all_goals
    cases hstep
    exact h.move rfl rfl rfl hplace

/-- A thread that stays in its call moves to another point of it and leaves the
entries as they are. -/
theorem Sleepers.move {round : ℕ} {point : Pc} (h : Sleepers table round s)
    (hwaiting : s'.waiting = s.waiting) (hreturns : s'.returns = s.returns)
    (hpc : s'.pc = Function.update s.pc t point)
    (hsleep : point.Sleeping → (s.pc t).Sleeping)
    (hwake : (s.pc t).Sleeping → point.Sleeping ∨ s.waiting (table.tid t) = false)
    (hpending : ∀ u, s.waiting (table.tid u) = true →
      (s.pc t).Pending (table.tid u) → point.Pending (table.tid u))
    (hwaking : point.Waking → (s.pc t).Waking) :
    Sleepers table round s' where
  sleeping u hu := by
    rw [hwaiting] at hu
    rw [hpc]
    by_cases hut : u = t
    · subst hut
      rw [Function.update_self]
      exact (hwake (h.sleeping u hu)).resolve_right (by simp [hu])
    · rw [Function.update_of_ne hut]
      exact h.sleeping u hu
  registered u hu hround := by
    rw [State.returned, hreturns] at hround
    rw [hwaiting]
    rw [hpc] at hu
    by_cases hut : u = t
    · subst hut
      rw [Function.update_self] at hu
      exact h.registered u (hsleep hu) hround
    · rw [Function.update_of_ne hut] at hu
      exact h.registered u hu hround
  pending u hu hround := by
    rw [hwaiting] at hu
    rw [State.returned, hreturns] at hround
    obtain ⟨v, hv⟩ := h.pending u hu hround
    refine ⟨v, ?_⟩
    rw [hpc]
    by_cases hvt : v = t
    · rw [hvt, Function.update_self]
      exact hpending u hu (hvt ▸ hv)
    · rw [Function.update_of_ne hvt]
      exact hv
  woken u hu v := by
    rw [State.returned, hreturns]
    rw [hpc] at hu
    by_cases hut : u = t
    · subst hut
      rw [Function.update_self] at hu
      exact h.woken u (hwaking hu) v
    · rw [Function.update_of_ne hut] at hu
      exact h.woken u hu v

/-- A thread whose round is not complete stores the address in its entry. -/
theorem Sleepers.register {round : ℕ} {cycle : BitVec 32} (h : Sleepers table round s)
    (hpc : s.pc t = .register cycle) (hround : s.returned t = round) :
    Sleepers table round
      ({ s with waiting := Function.update s.waiting (table.tid t) true }.goto t
        (.release cycle)) where
  sleeping u hu := by
    by_cases hut : u = t
    · rw [hut, State.goto_pc_self]
      trivial
    · have htid : table.tid u ≠ table.tid t := fun heq => hut (table.tid_injective heq)
      simp only [State.goto_waiting, Function.update_of_ne htid] at hu
      rw [State.goto_pc_of_ne hut]
      exact h.sleeping u hu
  registered u hu hreturned := by
    by_cases hut : u = t
    · simp only [hut, State.goto_waiting, Function.update_self]
    · have htid : table.tid u ≠ table.tid t := fun heq => hut (table.tid_injective heq)
      rw [State.goto_pc_of_ne hut] at hu
      simp only [State.goto_waiting, Function.update_of_ne htid]
      exact h.registered u hu hreturned
  pending u hu hreturned := by
    by_cases hut : u = t
    · exact absurd hround (hut ▸ hreturned)
    · have htid : table.tid u ≠ table.tid t := fun heq => hut (table.tid_injective heq)
      simp only [State.goto_waiting, Function.update_of_ne htid] at hu
      obtain ⟨v, hv⟩ := h.pending u hu hreturned
      have hvt : v ≠ t := by
        rintro rfl
        simp [hpc, Pc.Pending] at hv
      refine ⟨v, ?_⟩
      rwa [State.goto_pc_of_ne hvt]
  woken u hu v := by
    have hut : u ≠ t := by
      rintro rfl
      simp [Pc.Waking] at hu
    rw [State.goto_pc_of_ne hut] at hu
    exact h.woken u hu v

/-- The broadcast clears entry `i`, whose thread is behind, and goes on. -/
theorem Sleepers.clear {round i : ℕ} (h : Sleepers table round s)
    (hpc : s.pc t = .clear i) :
    Sleepers table round
      ({ s with waiting := Function.update s.waiting i false }.goto t
        (.scan (i + 1))) where
  sleeping u hu := by
    simp only [State.goto_waiting, Function.update_apply] at hu
    split_ifs at hu
    have hsleeping := h.sleeping u hu
    have hut : u ≠ t := by
      rintro rfl
      simp [hpc, Pc.Sleeping] at hsleeping
    rwa [State.goto_pc_of_ne hut]
  registered u _ hround := absurd hround (h.woken t (by simp [hpc, Pc.Waking]) u)
  pending u hu hround := by
    simp only [State.goto_waiting, Function.update_apply] at hu
    split_ifs at hu with hi
    obtain ⟨v, hv⟩ := h.pending u hu hround
    refine ⟨v, ?_⟩
    by_cases hvt : v = t
    · rw [hvt, hpc] at hv
      rw [hvt, State.goto_pc_self]
      exact lt_of_le_of_ne hv (Ne.symm hi)
    · rwa [State.goto_pc_of_ne hvt]
  woken _ _ u := h.woken t (by simp [hpc, Pc.Waking]) u

/-- A thread that returns has its round complete and waits for none. -/
theorem Sleepers.leave {round rc : ℕ} (h : Sleepers table round s) (hlocks : Locks s)
    (hpc : s.pc t = .unlock rc) :
    Sleepers table round ({ s with
      m := none
      returns := Function.update s.returns t (s.returns t ++ [rc]) }.goto t .outside) where
  sleeping u hu := by
    have hsleeping := h.sleeping u hu
    have hut : u ≠ t := by
      rintro rfl
      simp [hpc, Pc.Sleeping] at hsleeping
    rwa [State.goto_pc_of_ne hut]
  registered u hu hround := by
    have hut : u ≠ t := by
      rintro rfl
      simp [Pc.Sleeping] at hu
    rw [State.goto_pc_of_ne hut] at hu
    simp only [State.returned, State.goto_returns, Function.update_of_ne hut] at hround
    exact h.registered u hu hround
  pending u hu hround := by
    have hsleeping := h.sleeping u hu
    have hut : u ≠ t := by
      rintro rfl
      simp [hpc, Pc.Sleeping] at hsleeping
    simp only [State.returned, State.goto_returns, Function.update_of_ne hut] at hround
    obtain ⟨v, hv⟩ := h.pending u hu hround
    have hvt : v ≠ t := by
      rintro rfl
      simp [hpc, Pc.Pending] at hv
    refine ⟨v, ?_⟩
    rwa [State.goto_pc_of_ne hvt]
  woken u hu v := by
    -- A broadcast is made under the mutex this thread still held.
    have hut : u ≠ t := by
      rintro rfl
      simp [Pc.Waking] at hu
    rw [State.goto_pc_of_ne hut] at hu
    exact absurd (hlocks.mutex.unique hu.locked (by simp [hpc, Pc.Locked])) hut

theorem Sleepers.step (h : Sleepers table last.length s) (hlocks : Locks s)
    (hcalls : Calls last s) (hstep : access table s t = some s')
    (hadvance : s.pc t ≠ .advance) : Sleepers table last.length s' := by
  have hplace := hcalls.place t
  cases hpc : s.pc t <;> simp only [access, hpc] at hstep <;>
    simp only [hpc, Place] at hplace
  case advance => exact absurd hpc hadvance
  case register cycle =>
    cases hstep
    exact h.register hpc hplace.2
  case clear i =>
    cases hstep
    exact h.clear hpc
  case unlock rc =>
    cases hstep
    exact h.leave hlocks hpc
  case poll cycle =>
    split_ifs at hstep with hwaiting
    cases hstep
    exact h.move rfl rfl rfl (by simp [Pc.Sleeping])
      (fun _ => .inr (by simpa using hwaiting)) (by simp [hpc, Pc.Pending])
      (by simp [Pc.Waking])
  case scan i =>
    split_ifs at hstep with hi hwaiting <;> cases hstep
    · exact h.move rfl rfl rfl (by simp [Pc.Sleeping]) (by simp [hpc, Pc.Sleeping])
        (by simp [hpc, Pc.Pending]) (by simp [hpc, Pc.Waking])
    · -- Entry `i` does not hold the address: what is pending is behind it.
      refine h.move rfl rfl rfl (by simp [Pc.Sleeping]) (by simp [hpc, Pc.Sleeping])
        (fun u hu hpending => ?_) (by simp [hpc, Pc.Waking])
      rw [hpc] at hpending
      refine lt_of_le_of_ne hpending fun heq => hwaiting ?_
      rw [heq, hu]
    · refine h.move rfl rfl rfl (by simp [Pc.Sleeping]) (by simp [hpc, Pc.Sleeping])
        (fun u _ hpending => ?_) (by simp [hpc, Pc.Waking])
      rw [hpc] at hpending
      exact absurd ((table.tid_lt u).trans_le (not_lt.mp hi)) (not_lt.mpr hpending)
  case enter | test | lock | relock | bcastLock =>
    split_ifs at hstep
    all_goals
      cases hstep
      exact h.move rfl rfl rfl (by simp [Pc.Sleeping]) (by simp [hpc, Pc.Sleeping])
        (by simp [hpc, Pc.Pending]) (by simp [hpc, Pc.Waking])
  all_goals
    cases hstep
    exact h.move rfl rfl rfl (by simp [hpc, Pc.Sleeping]) (by simp [hpc, Pc.Sleeping])
      (by simp [hpc, Pc.Pending]) (by simp [hpc, Pc.Waking])

omit [DecidableEq Thread] in
/-- No other thread is at a point under the mutex. -/
theorem Locks.sole (h : Locks s) (hpc : (s.pc t).Locked) (point : Pc)
    (hpoint : point.Locked) {u : Thread} (hut : u ≠ t) : s.pc u ≠ point := by
  rintro rfl
  exact hut (h.mutex.unique hpoint hpc)

/-- A point that no other thread is at, and to which the thread does not move. -/
theorem State.goto_pc_ne {point target : Pc} (hpoint : point ≠ target)
    (hothers : ∀ u, u ≠ t → s.pc u ≠ target) (u : Thread) :
    (s.goto t point).pc u ≠ target := by
  by_cases hut : u = t
  · rwa [hut, State.goto_pc_self]
  · rw [State.goto_pc_of_ne hut]
    exact hothers u hut

variable [Fintype Thread]

/-- A thread that stays counted, or stays not counted, moves. -/
theorem Counts.move {round : ℕ} {point : Pc} (h : Counts round s)
    (hcustomers : s'.customers = s.customers) (hn : s'.n = s.n)
    (hpc : s'.pc = Function.update s.pc t point)
    (hpresent : present round s' = present round s)
    (hbefore : s.pc t ≠ .reset ∧ s.pc t ≠ .advance)
    (hafter : point ≠ .reset ∧ point ≠ .advance) : Counts round s' := by
  have hsame : ∀ target : Pc, s.pc t ≠ target → point ≠ target →
      ∀ u, s'.pc u = target ↔ s.pc u = target := by
    intro target htarget hpoint u
    rw [hpc]
    by_cases hut : u = t
    · rw [hut, Function.update_self]
      exact iff_of_false hpoint htarget
    · rw [Function.update_of_ne hut]
  have hreset := hsame .reset hbefore.1 hafter.1
  have hadvance := hsame .advance hbefore.2 hafter.2
  exact {
    customers := hcustomers.trans h.customers
    count := fun hu => by
      rw [hn, hpresent]
      exact h.count fun u => mt (hadvance u).mpr (hu u)
    zero := fun u hu => hn.trans (h.zero u ((hadvance u).mp hu))
    room := fun hu => by
      rw [hn]
      exact h.room fun u => mt (hreset u).mpr (hu u)
    full := fun u hu v => by
      rw [hpresent]
      exact h.full u (hu.imp (hreset u).mp (hadvance u).mp) v }

/-- Who is counted does not depend on where between two points a thread is. -/
theorem present_move {round : ℕ} {point : Pc} (hreturns : s'.returns = s.returns)
    (hpc : s'.pc = Function.update s.pc t point)
    (hcounted : point.Counted = (s.pc t).Counted) :
    present round s' = present round s := by
  ext u
  simp only [mem_present, State.returned, hreturns, hpc]
  by_cases hut : u = t
  · rw [hut, Function.update_self, hcounted]
  · rw [Function.update_of_ne hut]

/-- A thread that enters is counted for the round. -/
theorem present_enter {round : ℕ} {point : Pc} (hreturns : s'.returns = s.returns)
    (hpc : s'.pc = Function.update s.pc t point) (hcounted : point.Counted = true)
    (hround : s.returned t = round) :
    present round s' = insert t (present round s) := by
  ext u
  simp only [mem_present, State.returned, Finset.mem_insert, hreturns, hpc]
  by_cases hut : u = t
  · simp only [hut, Function.update_self, hcounted, true_and, true_or, iff_true]
    exact hround
  · simp only [Function.update_of_ne hut, hut, false_or]

/-- What the count is when a thread has entered. -/
theorem Counts.count_enter {round : ℕ} {point : Pc} (h : Counts round s)
    (hlocks : Locks s) (hpc : s.pc t = .enter) (hround : s.returned t = round)
    (hpoint : point.Counted = true) :
    s.n + 1 = (present round ({ s with n := s.n + 1 }.goto t point)).card := by
  have hlocked : (s.pc t).Locked := by simp [hpc, Pc.Locked]
  have hcount : s.n = (present round s).card := by
    refine h.count fun u => ?_
    by_cases hut : u = t
    · simp [hut, hpc]
    · exact hlocks.sole hlocked .advance trivial hut
  have hnew : t ∉ present round s := by simp [hpc, Pc.Counted]
  have hpresent : present round ({ s with n := s.n + 1 }.goto t point) =
      insert t (present round s) := present_enter rfl rfl hpoint hround
  rw [hpresent, Finset.card_insert_of_notMem hnew, hcount]

/-- A caller that is not the last counts itself. -/
theorem Counts.enter {round : ℕ} (h : Counts round s) (hlocks : Locks s)
    (hpc : s.pc t = .enter) (hround : s.returned t = round)
    (hroom : s.n + 1 < s.customers) :
    Counts round ({ s with n := s.n + 1 }.goto t .load) := by
  have hlocked : (s.pc t).Locked := by simp [hpc, Pc.Locked]
  have hreset : ∀ u, ({ s with n := s.n + 1 }.goto t .load).pc u ≠ .reset :=
    State.goto_pc_ne (by simp) fun _ => hlocks.sole hlocked .reset trivial
  have hadvance : ∀ u, ({ s with n := s.n + 1 }.goto t .load).pc u ≠ .advance :=
    State.goto_pc_ne (by simp) fun _ => hlocks.sole hlocked .advance trivial
  exact {
    customers := h.customers
    count := fun _ => h.count_enter hlocks hpc hround rfl
    zero := fun u hu => absurd hu (hadvance u)
    room := fun _ => h.customers ▸ hroom
    full := fun u hu => absurd hu (not_or.mpr ⟨hreset u, hadvance u⟩) }

/-- The last caller finds all threads counted. -/
theorem Counts.enter_last {round : ℕ} (h : Counts round s) (hlocks : Locks s)
    (hpc : s.pc t = .enter) (hround : s.returned t = round)
    (hroom : ¬s.n + 1 < s.customers) :
    Counts round ({ s with n := s.n + 1 }.goto t .reset) := by
  have hlocked : (s.pc t).Locked := by simp [hpc, Pc.Locked]
  have hadvance : ∀ u, ({ s with n := s.n + 1 }.goto t .reset).pc u ≠ .advance :=
    State.goto_pc_ne (by simp) fun _ => hlocks.sole hlocked .advance trivial
  have hcount : s.n + 1 = (present round ({ s with n := s.n + 1 }.goto t .reset)).card :=
    h.count_enter hlocks hpc hround rfl
  have hfull : present round ({ s with n := s.n + 1 }.goto t .reset) = Finset.univ := by
    refine Finset.eq_univ_of_card _ (le_antisymm (Finset.card_le_univ _) ?_)
    rw [h.customers, not_lt] at hroom
    exact hroom.trans_eq hcount
  exact {
    customers := h.customers
    count := fun _ => hcount
    zero := fun u hu => absurd hu (hadvance u)
    room := fun hu => absurd State.goto_pc_self (hu t)
    full := fun _ _ u => by
      rw [hfull]
      exact Finset.mem_univ u }

/-- The last caller resets the count. -/
theorem Counts.reset {round : ℕ} (h : Counts round s) (hpc : s.pc t = .reset) :
    Counts round ({ s with n := 0 }.goto t .advance) where
  customers := h.customers
  count hu := absurd State.goto_pc_self (hu t)
  zero _ _ := rfl
  room _ := Fintype.card_pos_iff.mpr ⟨t⟩
  full _ _ u := by
    have hpresent : present round ({ s with n := 0 }.goto t .advance) = present round s :=
      present_move rfl rfl (by simp [hpc, Pc.Counted])
    rw [hpresent]
    exact h.full t (.inl hpc) u

theorem Counts.step (h : Counts last.length s) (hlocks : Locks s) (hcalls : Calls last s)
    (hstep : access table s t = some s') (hadvance : s.pc t ≠ .advance) :
    Counts last.length s' := by
  have hplace := hcalls.place t
  cases hpc : s.pc t <;> simp only [access, hpc] at hstep <;>
    simp only [hpc, Place] at hplace
  case advance => exact absurd hpc hadvance
  case enter =>
    split_ifs at hstep with hroom <;> cases hstep
    · exact h.enter hlocks hpc hplace hroom
    · exact h.enter_last hlocks hpc hplace hroom
  case reset =>
    cases hstep
    exact h.reset hpc
  case unlock rc =>
    cases hstep
    refine h.move rfl rfl rfl ?_ (by simp [hpc]) (by simp)
    ext u
    by_cases hut : u = t
    · have hbehind : s.returned t ≠ last.length := by omega
      simp [hut, Pc.Counted, hbehind]
    · simp [State.goto_pc_of_ne hut, State.returned, Function.update_of_ne hut]
  case test | poll | scan | lock | relock | bcastLock =>
    split_ifs at hstep
    all_goals
      cases hstep
      exact h.move rfl rfl rfl (present_move rfl rfl (by simp [hpc, Pc.Counted]))
        (by simp [hpc]) (by simp)
  all_goals
    cases hstep
    exact h.move rfl rfl rfl (present_move rfl rfl (by simp [hpc, Pc.Counted]))
      (by simp [hpc]) (by simp)

end Steps

section Rounds

variable [Fintype Thread]

omit [DecidableEq Thread] in
/-- When the last caller completes a round all threads are in their call. -/
theorem Inv.returned_eq (h : Inv table last s) (hpc : s.pc t = .advance) (u : Thread) :
    s.returned u = last.length :=
  (mem_present.mp (h.counts.full t (.inr hpc) u)).2

omit [DecidableEq Thread] in
/-- The others of the round sleep. -/
theorem Inv.others_sleep (h : Inv table last s) (hpc : s.pc t = .advance) {u : Thread}
    (hut : u ≠ t) : s.pc u = .poll (BitVec.ofNat 32 (s.returned u)) := by
  have hpresent := mem_present.mp (h.counts.full t (.inr hpc) u)
  have hlocked : ¬(s.pc u).Locked := fun hu =>
    hut (h.locks.mutex.unique hu (by simp [hpc, Pc.Locked]))
  have hplace := h.calls.place u
  cases hpcu : s.pc u <;> simp only [hpcu, Place] at hplace <;>
    simp only [hpcu, Pc.Counted, Pc.Locked] at hpresent hlocked <;> grind

omit [Fintype Thread] in
theorem Calls.advance (h : Calls last s) (hpc : s.pc t = .advance)
    (hreturned : ∀ u, s.returned u = last.length)
    (hothers : ∀ u, u ≠ t → s.pc u = .poll (BitVec.ofNat 32 (s.returned u))) :
    Calls (last ++ [t]) ({ s with cycle := s.cycle + 1 }.goto t .bcastLock) where
  cycle := by
    rw [List.length_append, List.length_singleton, BitVec.ofNat_add]
    exact congrArg (· + 1#32) h.cycle
  place u := by
    have hserial : (last ++ [t])[s.returned u]? = some t := by
      rw [hreturned u, List.getElem?_concat_length]
    by_cases hut : u = t
    · subst hut
      rw [State.goto_pc_self]
      refine ⟨?_, hserial⟩
      rw [List.length_append, List.length_singleton, ← hreturned u]
      rfl
    · rw [State.goto_pc_of_ne hut, hothers u hut]
      refine ⟨rfl, .inr ⟨?_, fun hu => hut (Option.some.inj (hu.symm.trans hserial))⟩⟩
      rw [List.length_append, List.length_singleton, ← hreturned u]
      rfl
  codes u k rc hcode := by
    have hk : k < last.length := by
      rw [← hreturned u]
      exact (List.getElem?_eq_some_iff.mp hcode).1
    rw [List.getElem?_append_left hk]
    exact h.codes u k rc hcode

omit [Fintype Thread] in
theorem Sleepers.advance {round : ℕ} (h : Sleepers table round s) (hpc : s.pc t = .advance)
    (hreturned : ∀ u, s.returned u = round) :
    Sleepers table (round + 1) ({ s with cycle := s.cycle + 1 }.goto t .bcastLock) where
  sleeping u hu := by
    have hsleeping := h.sleeping u hu
    have hut : u ≠ t := by
      rintro rfl
      simp [hpc, Pc.Sleeping] at hsleeping
    rwa [State.goto_pc_of_ne hut]
  registered u _ hround := absurd ((hreturned u).symm.trans hround) (by omega)
  pending _ _ _ := ⟨t, by
    rw [State.goto_pc_self]
    trivial⟩
  woken _ _ u hround := absurd ((hreturned u).symm.trans hround) (by omega)

theorem Counts.advance {round : ℕ} (h : Counts round s) (hlocks : Locks s)
    (hpc : s.pc t = .advance) (hreturned : ∀ u, s.returned u = round) :
    Counts (round + 1) ({ s with cycle := s.cycle + 1 }.goto t .bcastLock) := by
  have hlocked : (s.pc t).Locked := by simp [hpc, Pc.Locked]
  have hreset : ∀ u, ({ s with cycle := s.cycle + 1 }.goto t .bcastLock).pc u ≠ .reset :=
    State.goto_pc_ne (by simp) fun _ => hlocks.sole hlocked .reset trivial
  have hadvance : ∀ u, ({ s with cycle := s.cycle + 1 }.goto t .bcastLock).pc u ≠ .advance :=
    State.goto_pc_ne (by simp) fun _ => hlocks.sole hlocked .advance trivial
  have hpresent : present (round + 1) ({ s with cycle := s.cycle + 1 }.goto t .bcastLock) = ∅ := by
    refine Finset.eq_empty_of_forall_notMem fun u hu => ?_
    have hround : s.returned u = round + 1 := (mem_present.mp hu).2
    rw [hreturned u] at hround
    omega
  exact {
    customers := h.customers
    count := fun _ => by
      rw [hpresent, Finset.card_empty]
      exact h.zero t hpc
    zero := fun u hu => absurd hu (hadvance u)
    room := fun _ => (h.zero t hpc).trans_lt (Fintype.card_pos_iff.mpr ⟨t⟩)
    full := fun u hu => absurd hu (not_or.mpr ⟨hreset u, hadvance u⟩) }

/-- The last caller completes the round. -/
theorem Inv.advance (h : Inv table last s) (hpc : s.pc t = .advance) :
    Inv table (last ++ [t]) ({ s with cycle := s.cycle + 1 }.goto t .bcastLock) := by
  have hreturned := h.returned_eq hpc
  have hlength : (last ++ [t]).length = last.length + 1 := by
    rw [List.length_append, List.length_singleton]
  have hstep : access table s t =
      some ({ s with cycle := s.cycle + 1 }.goto t .bcastLock) := by
    simp [access, hpc]
  exact {
    locks := h.locks.step hstep
    calls := h.calls.advance hpc hreturned fun _ => h.others_sleep hpc
    sleepers := hlength ▸ h.sleepers.advance hpc hreturned
    counts := hlength ▸ h.counts.advance h.locks hpc hreturned }

/-- What an access keeps, with the thread that completes a round noted. -/
theorem Inv.step (h : Inv table last s) (hstep : access table s t = some s') :
    ∃ last', Inv table last' s' := by
  by_cases hpc : s.pc t = .advance
  · simp only [access, hpc, Option.some.injEq] at hstep
    exact ⟨last ++ [t], hstep ▸ h.advance hpc⟩
  · exact ⟨last, {
      locks := h.locks.step hstep
      calls := h.calls.step h.sleepers hstep hpc
      sleepers := h.sleepers.step h.locks h.calls hstep hpc
      counts := h.counts.step h.locks h.calls hstep hpc }⟩

omit [DecidableEq Thread] in
theorem Inv.init [Nonempty Thread] (table : Table Thread) :
    Inv table [] (init (Fintype.card Thread)) where
  locks := ⟨fun _ => by simp [Barrier.init, Pc.Locked],
    fun _ => by simp [Barrier.init, Pc.Casting]⟩
  calls := ⟨rfl, fun _ => rfl, fun _ _ _ hcode => nomatch hcode⟩
  sleepers := {
    sleeping := fun _ hwaiting => nomatch hwaiting
    registered := fun _ hsleeping => hsleeping.elim
    pending := fun _ hwaiting => nomatch hwaiting
    woken := fun _ hwaking => hwaking.elim }
  counts := {
    customers := rfl
    count := fun _ => by simp [present, Barrier.init, Pc.Counted]
    zero := fun _ _ => rfl
    room := fun _ => Fintype.card_pos
    full := fun _ hpc => nomatch hpc }

/-- The invariant holds in every state a run reaches. -/
theorem Inv.of_run [Nonempty Thread] {schedule : List Thread}
    (hrun : Guarded.exec (Barrier.step table) (Barrier.init (Fintype.card Thread)) schedule =
      some s) :
    ∃ last, Inv table last s := by
  have hstep : ∀ (s : State Thread) t s', (∃ last, Inv table last s) →
      Barrier.step table s t = some s' → ∃ last, Inv table last s' :=
    fun _ _ _ ⟨_, h⟩ hstep => h.step (access_of_step hstep)
  exact Guarded.exec_keeps hstep ⟨[], Inv.init table⟩ hrun

omit [DecidableEq Thread] in
/-- No thread is a call ahead of another's. -/
theorem Inv.returned_le_entered (h : Inv table last s) (t u : Thread) :
    s.returned t ≤ s.entered u := by
  rw [State.entered]
  rcases (h.calls.place t).behind with ht | ⟨ht, -⟩ <;>
    rcases (h.calls.place u).behind with hu | ⟨hu, houtside⟩ <;>
    split_ifs <;> first | omega | contradiction

omit [DecidableEq Thread] in
/-- A call that returned the code of the serial thread was the last of its round. -/
theorem Inv.last_of_serial (h : Inv table last s) {k : ℕ}
    (hserial : (s.returns t)[k]? = some serialThread) : last[k]? = some t := by
  rcases h.calls.codes t k serialThread hserial with ⟨hlast, -⟩ | ⟨-, hrc⟩
  · exact hlast
  · exact absurd hrc (by decide)

omit [DecidableEq Thread] in
/-- When all threads have returned from a round the last caller has. -/
theorem Inv.exists_serial [Nonempty Thread] (h : Inv table last s) {k : ℕ}
    (hreturned : ∀ t, k < s.returned t) :
    ∃ t, (s.returns t)[k]? = some serialThread := by
  have hround : k < last.length := by
    obtain ⟨t⟩ := ‹Nonempty Thread›
    rcases (h.calls.place t).behind with ht | ⟨ht, -⟩ <;> have := hreturned t <;> omega
  refine ⟨last[k], ?_⟩
  have hcode := List.getElem?_eq_getElem (hreturned last[k])
  rcases h.calls.codes _ k _ hcode with ⟨-, hrc⟩ | ⟨hlast, -⟩
  · rw [hcode, hrc]
  · exact absurd (List.getElem?_eq_getElem hround) hlast

/-- The thread that holds the mutex of the barrier does not spin. -/
theorem Inv.holder_proceeds (h : Inv table last s) (hm : s.m = some t) :
    (access table s t).isSome := by
  have hlocked := (h.locks.mutex t).mpr hm
  cases hpc : s.pc t <;> simp only [hpc, Pc.Locked] at hlocked <;>
    simp only [access, hpc, Option.isSome_some]
  case bcastLock =>
    have hfree : s.bcastMutex = none := by
      refine Option.eq_none_iff_forall_ne_some.mpr fun u hu => ?_
      have hcasting := (h.locks.bcast u).mpr hu
      have hut : u = t := h.locks.mutex.unique (by
        cases hpcu : s.pc u <;> simp_all [Pc.Casting, Pc.Locked]) (by simp [hpc, Pc.Locked])
      rw [hut, hpc] at hcasting
      exact hcasting
    rw [if_pos hfree, Option.isSome_some]
  all_goals split_ifs <;> rfl

/-- With the mutex free and all threads in a call some thread does not spin. -/
theorem Inv.sleepers_proceed (h : Inv table last s) (hm : s.m = none)
    (hinside : ∀ t, s.pc t ≠ .outside) : ∃ t, (access table s t).isSome := by
  by_contra hstuck
  rw [not_exists] at hstuck
  -- All threads poll and find their entry holding the address.
  have hpoll : ∀ t, (s.pc t).Sleeping ∧ s.waiting (table.tid t) = true := by
    intro t
    have hfree := hm ▸ h.locks.mutex
    have hlocked := hfree.not_inside t
    have hblocked := hstuck t
    have houtside := hinside t
    cases hpc : s.pc t <;> simp only [hpc, Pc.Locked, not_true_eq_false] at hlocked <;>
      simp [access, hpc, hm] at hblocked houtside
    exact ⟨trivial, hblocked⟩
  have hround : ∀ t, s.returned t = last.length := by
    intro t
    by_contra hbehind
    obtain ⟨u, hu⟩ := h.sleepers.pending t (hpoll t).2 hbehind
    have hsleeping := (hpoll u).1
    cases hpc : s.pc u <;> simp [hpc, Pc.Pending, Pc.Sleeping] at hu hsleeping
  have hpresent : present last.length s = Finset.univ := by
    refine Finset.eq_univ_iff_forall.mpr fun t => mem_present.mpr ⟨?_, hround t⟩
    have hsleeping := (hpoll t).1
    cases hpc : s.pc t <;> simp [hpc, Pc.Sleeping] at hsleeping <;> rfl
  have hpoint : ∀ point : Pc, ¬point.Sleeping → ∀ t, s.pc t ≠ point := by
    rintro point hpoint t rfl
    exact hpoint (hpoll t).1
  have hcount := h.counts.count (hpoint .advance id)
  have hroom := h.counts.room (hpoint .reset id)
  rw [hcount, hpresent, Finset.card_univ] at hroom
  exact lt_irrefl _ hroom

/-- With all threads in a call some thread does not spin. -/
theorem Inv.proceeds (h : Inv table last s) (hfits : table.Fits)
    (hinside : ∀ t, s.pc t ≠ .outside) : ∃ t, (Barrier.step table s t).isSome := by
  simp only [step_eq_access hfits]
  cases hm : s.m with
  | none => exact h.sleepers_proceed hm hinside
  | some t => exact ⟨t, h.holder_proceeds hm⟩

/-- Whatever the number of threads that the arrays have room for and however they
interleave, with all accesses inside the arrays: no thread has
returned from more calls than each has entered; of the threads that returned
from a call of one round at most one, and in the end one, was given
`PTHREAD_BARRIER_SERIAL_THREAD`, and the others zero; and when all threads are in
a call one of them can go on. -/
theorem barrier_rounds [Nonempty Thread] (table : Table Thread) (hfits : table.Fits)
    (schedule : List Thread) (s : State Thread)
    (hrun : Guarded.exec (Barrier.step table) (Barrier.init (Fintype.card Thread)) schedule =
      some s) :
    (∀ t u, s.returned t ≤ s.entered u) ∧
    (∀ t, ∀ rc ∈ s.returns t, rc = serialThread ∨ rc = 0) ∧
    (∀ (k : ℕ) (t u : Thread), (s.returns t)[k]? = some serialThread →
      (s.returns u)[k]? = some serialThread → t = u) ∧
    (∀ k : ℕ, (∀ t, k < s.returned t) →
      ∃ t, (s.returns t)[k]? = some serialThread) ∧
    ((∀ t, s.pc t ≠ .outside) → ∃ t, (Barrier.step table s t).isSome) := by
  obtain ⟨last, h⟩ := Inv.of_run hrun
  refine ⟨h.returned_le_entered, fun t rc hrc => ?_, fun k t u ht hu => ?_,
    fun _ => h.exists_serial, h.proceeds hfits⟩
  · obtain ⟨k, hk⟩ := List.mem_iff_getElem?.mp hrc
    exact (h.calls.codes t k rc hk).imp And.right And.right
  · exact Option.some.inj ((h.last_of_serial ht).symm.trans (h.last_of_serial hu))

/-- Two threads, in the first two entries. -/
def twoThreads : Table Bool where
  nexttid := 2
  tid := Bool.toNat
  tid_lt := by decide
  tid_injective := by decide

/-- The second thread comes first and sleeps, the first one wakes it. -/
def roundOfTwo : List Bool :=
  List.replicate 7 true ++ List.replicate 12 false ++ List.replicate 4 true

theorem barrier_rounds_two :
    ∃ s, Guarded.exec (Barrier.step twoThreads) (Barrier.init 2) roundOfTwo = some s ∧
      (∀ t, s.returned t = 1) ∧ ∃ t, (s.returns t)[0]? = some serialThread := by
  have hfits : twoThreads.Fits := ⟨by decide, by decide⟩
  have hsome : ((Guarded.exec (Barrier.step twoThreads) (Barrier.init (Fintype.card Bool))
      roundOfTwo).map fun s => (s.returned false, s.returned true)) = some (1, 1) := by
    decide
  obtain ⟨s, hs, hreturned⟩ := Option.map_eq_some_iff.mp hsome
  have hall : ∀ t, s.returned t = 1 := by
    rw [Prod.mk.injEq] at hreturned
    exact Bool.forall_bool.mpr hreturned
  obtain ⟨-, -, -, hserial, -⟩ := barrier_rounds twoThreads hfits roundOfTwo s hs
  exact ⟨s, hs, hall, hserial 0 fun t => by rw [hall t]; exact Nat.one_pos⟩

/-- A thread on each of 33 cores. -/
def manyThreads : Table (Fin 33) where
  nexttid := 33
  tid := Fin.val
  tid_lt := Fin.isLt
  tid_injective := Fin.val_injective

/-- All 33 threads call, and the last one takes the mutex. -/
def allCall : List (Fin 33) := List.finRange 33 ++ [32]

/-- The element of core 32 is past the end of `_djg_cpu_current`: its thread has the mutex
and none of the threads, which are all in a call, has a next access. -/
theorem not_barrier_rounds :
    ∃ s, Guarded.exec (Barrier.step manyThreads) (Barrier.init 33) allCall = some s ∧
      (∀ t, s.pc t ≠ .outside) ∧ ∀ t, Barrier.step manyThreads s t = none := by
  have hview : ((Guarded.exec (Barrier.step manyThreads) (Barrier.init 33) allCall).map
      fun s => decide ((∀ t, s.pc t ≠ .outside) ∧
        ∀ t, (Barrier.step manyThreads s t).isNone)) = some true := by
    decide
  obtain ⟨s, hs, hstuck⟩ := Option.map_eq_some_iff.mp hview
  obtain ⟨hinside, hnone⟩ := of_decide_eq_true hstuck
  exact ⟨s, hs, hinside, fun t => Option.isNone_iff_eq_none.mp (hnone t)⟩

end Rounds

end Prazor.Crt.Barrier
