import Prazor.Caches.LineCleaning
import Prazor.Caches.SingleWriter

/-!
# The retry loops of the snoop handler

`peq_cb` looks a snooped line up and locks it; when the lock is taken it starts
again.  The loop does not leave its process, so nobody can give the lock back
meanwhile.  Whether it ends is decided by the state of the whole cluster when the
snoop arrives: by the operations and the maintenance messages that are suspended
while they hold a lock.
-/

namespace Prazor.Caches

/-- How one turn of a loop ends: by `break`, by `continue`, or at an assertion. -/
inductive Turn where
  | leave (cache : Ccache) (reply : Reply)
  | again (cache : Ccache)
  | failed

/-- Where a loop is after some turns. -/
inductive LoopState where
  | running (cache : Ccache)
  | left (cache : Ccache) (reply : Reply)
  | failed

/-- A loop, for at most `fuel` turns. -/
def loopTurns (turn : Ccache → Turn) : ℕ → Ccache → LoopState
  | 0, cache => .running cache
  | fuel + 1, cache =>
      match turn cache with
      | .leave cache reply => .left cache reply
      | .again cache => loopTurns turn fuel cache
      | .failed => .failed

/-- A turn that changes nothing is taken for ever. -/
theorem loopTurns_of_again {turn : Ccache → Turn} {cache : Ccache}
    (hagain : turn cache = .again cache) (fuel : ℕ) :
    loopTurns turn fuel cache = .running cache := by
  induction fuel with
  | zero => rfl
  | succ fuel ih =>
      rw [loopTurns, hagain]
      exact ih

namespace Ccache

variable (g : Geometry)

/-- A turn of the loop for `ReadShared`, `ReadUnique`, `MakeUnique` and `Evict`. -/
def snoopLineTurn (ttype : Transaction) (lineAddr : ℕ) (cache : Ccache) : Turn :=
  let index := g.index lineAddr
  match cache.lookup g index (g.tag lineAddr) with
  | none => .leave cache { state := .invalid, data := fun _ => 0 }
  | some i =>
      let way := cache.mWays i
      let oldts := way.mStatus index
      let clstate := lineState oldts
      let exchange := acquirets (way.mStatus index) oldts
      if exchange.success then
        let newts :=
          if ttype = .readShared then incts exchange.oldts .sharedClean
          else incts exchange.oldts .invalid
        let release := releasets exchange.status exchange.oldts newts
        if release.success then
          .leave (cache.setStatus i index release.status)
            { state := clstate, data := way.mData index }
        else .failed
      else if ttype = .evict then .failed
      else .again cache

/-- A turn of the loop for `MakeInvalid`. -/
def makeInvalidTurn (lineAddr : ℕ) (cache : Ccache) : Turn :=
  let index := g.index lineAddr
  match cache.lookup g index (g.tag lineAddr) with
  | none => .leave cache { state := .invalid, data := fun _ => 0 }
  | some i =>
      let way := cache.mWays i
      let oldts := way.mStatus index
      let reply := { state := lineState oldts, data := fun _ => 0 }
      if lineState oldts ≠ .sharedClean then .leave cache reply
      else
        let news := incts oldts .invalid
        let exchange := updatets (way.mStatus index) oldts news
        if exchange.success then .leave (cache.setStatus i index exchange.status) reply
        else .again cache

/-- `ccache::peq_cb`: the loop for the kind of the snoop. -/
def peqCb (ttype : Transaction) (lineAddr fuel : ℕ) (cache : Ccache) : LoopState :=
  match ttype with
  | .makeInvalid => loopTurns (makeInvalidTurn g lineAddr) fuel cache
  | _ => loopTurns (snoopLineTurn g ttype lineAddr) fuel cache

/-- The loop ends by `break`, after some number of turns. -/
def PeqReturns (ttype : Transaction) (lineAddr : ℕ) (cache : Ccache) : Prop :=
  ∃ fuel cache' reply, peqCb g ttype lineAddr fuel cache = .left cache' reply

variable {g} {cache cache' : Ccache} {ttype : Transaction} {lineAddr i : ℕ}

/-! ## One turn decides -/

/-- The lock of the line the snoop is for is taken. -/
def SnoopedLocked (g : Geometry) (lineAddr : ℕ) (cache : Ccache) : Prop :=
  ∃ i, cache.lookup g (g.index lineAddr) (g.tag lineAddr) = some i ∧
    locked (cache.word i (g.index lineAddr)) = true

theorem snoopLine_eq_none_iff {shared : Bool} :
    cache.snoopLine g lineAddr shared = none ↔ SnoopedLocked g lineAddr cache := by
  unfold snoopLine SnoopedLocked
  dsimp only
  cases hlookup : cache.lookup g (g.index lineAddr) (g.tag lineAddr) with
  | none => simp
  | some i =>
      dsimp only
      cases hlocked : locked ((cache.mWays i).mStatus (g.index lineAddr)) with
      | true =>
          rw [acquirets_same_of_locked hlocked]
          simpa [word] using hlocked
      | false =>
          rw [acquirets_same_of_unlocked hlocked, if_pos rfl, releasets_self, if_pos rfl]
          simpa [word] using hlocked

/-- A turn either does all that the snoop asks for, or fails to lock the line. -/
theorem snoopLineTurn_eq (ttype : Transaction) :
    snoopLineTurn g ttype lineAddr cache =
      match cache.snoopLine g lineAddr (ttype = .readShared) with
      | some (cache', reply) => .leave cache' reply
      | none => if ttype = .evict then .failed else .again cache := by
  unfold snoopLineTurn snoopLine
  dsimp only
  cases hlookup : cache.lookup g (g.index lineAddr) (g.tag lineAddr) with
  | none => rfl
  | some i =>
      dsimp only
      cases hlocked : locked ((cache.mWays i).mStatus (g.index lineAddr)) with
      | true =>
          have hfail := acquirets_same_of_locked hlocked
          rw [hfail, if_neg Bool.false_ne_true, if_neg Bool.false_ne_true]
      | false =>
          rw [acquirets_same_of_unlocked hlocked, if_pos rfl, if_pos rfl, releasets_self,
            releasets_self, if_pos rfl, if_pos rfl]
          cases ttype <;> rfl

theorem makeInvalidTurn_eq :
    makeInvalidTurn g lineAddr cache =
      match cache.snoopMakeInvalid g lineAddr with
      | some (cache', reply) => .leave cache' reply
      | none => .again cache := by
  unfold makeInvalidTurn snoopMakeInvalid
  dsimp only
  cases hlookup : cache.lookup g (g.index lineAddr) (g.tag lineAddr) with
  | none => rfl
  | some i =>
      dsimp only
      by_cases hstate :
          lineState ((cache.mWays i).mStatus (g.index lineAddr)) ≠ .sharedClean
      · rw [if_pos hstate, if_pos hstate]
      · rw [if_neg hstate, if_neg hstate]
        split <;> rfl

/-- A line that is locked while it is shared keeps a `MakeInvalid` in its loop. -/
theorem snoopMakeInvalid_eq_none_iff :
    cache.snoopMakeInvalid g lineAddr = none ↔
      ∃ i, cache.lookup g (g.index lineAddr) (g.tag lineAddr) = some i ∧
        lineState (cache.word i (g.index lineAddr)) = .sharedClean ∧
        locked (cache.word i (g.index lineAddr)) = true := by
  unfold snoopMakeInvalid
  dsimp only
  cases hlookup : cache.lookup g (g.index lineAddr) (g.tag lineAddr) with
  | none => simp
  | some i =>
      dsimp only
      by_cases hstate :
          lineState ((cache.mWays i).mStatus (g.index lineAddr)) = .sharedClean
      · rw [if_neg (not_not.mpr hstate)]
        cases hlocked : locked ((cache.mWays i).mStatus (g.index lineAddr)) with
        | true =>
            rw [updatets_same_of_locked hlocked]
            simpa [word, hstate] using hlocked
        | false =>
            rw [updatets_same_of_unlocked hlocked, if_pos rfl]
            simpa [word, hstate] using hlocked
      · rw [if_pos hstate]
        simpa [word] using fun heq => absurd heq hstate

/-- The loop ends if and only if its first turn ends it, and then as the answer of
the snoop. -/
theorem loopTurns_eq_left_iff {turn : Ccache → Turn} {snoop : Option (Ccache × Reply)}
    {otherwise : Turn} (hother : otherwise = .failed ∨ otherwise = .again cache)
    (hturn : turn cache = match snoop with
      | some (cache', reply) => .leave cache' reply
      | none => otherwise) {reply : Reply} :
    (∃ fuel, loopTurns turn fuel cache = .left cache' reply) ↔ snoop = some (cache', reply) := by
  cases snoop with
  | some answer =>
      constructor
      · rintro ⟨fuel, hleft⟩
        cases fuel with
        | zero => cases hleft
        | succ fuel =>
            rw [loopTurns, hturn] at hleft
            cases hleft
            rfl
      · rintro heq
        obtain rfl := Option.some.inj heq
        exact ⟨1, by rw [loopTurns, hturn]⟩
  | none =>
      refine ⟨?_, fun heq => by cases heq⟩
      rintro ⟨fuel, hleft⟩
      rcases hother with rfl | rfl
      · cases fuel with
        | zero => cases hleft
        | succ fuel =>
            rw [loopTurns, hturn] at hleft
            cases hleft
      · rw [loopTurns_of_again hturn] at hleft
        cases hleft

/-- The snoop handler of the cluster is the loop, run to its end. -/
theorem peqCb_eq_left_iff {reply : Reply} :
    (∃ fuel, peqCb g ttype lineAddr fuel cache = .left cache' reply) ↔
      (if ttype = .makeInvalid then cache.snoopMakeInvalid g lineAddr
        else cache.snoopLine g lineAddr (ttype = .readShared)) = some (cache', reply) := by
  cases ttype with
  | makeInvalid => exact loopTurns_eq_left_iff (.inr rfl) makeInvalidTurn_eq
  | evict => exact loopTurns_eq_left_iff (.inl rfl) (snoopLineTurn_eq .evict)
  | readShared => exact loopTurns_eq_left_iff (.inr rfl) (snoopLineTurn_eq .readShared)
  | readUnique => exact loopTurns_eq_left_iff (.inr rfl) (snoopLineTurn_eq .readUnique)
  | makeUnique => exact loopTurns_eq_left_iff (.inr rfl) (snoopLineTurn_eq .makeUnique)

theorem peqReturns_iff :
    PeqReturns g ttype lineAddr cache ↔
      (if ttype = .makeInvalid then cache.snoopMakeInvalid g lineAddr
        else cache.snoopLine g lineAddr (ttype = .readShared)) ≠ none := by
  rw [Option.ne_none_iff_exists']
  constructor
  · rintro ⟨fuel, cache', reply, hleft⟩
    exact ⟨(cache', reply), peqCb_eq_left_iff.mp ⟨fuel, hleft⟩⟩
  · rintro ⟨⟨cache', reply⟩, hsome⟩
    obtain ⟨fuel, hleft⟩ := peqCb_eq_left_iff.mpr hsome
    exact ⟨fuel, cache', reply, hleft⟩

end Ccache

namespace MaintainedSystem

variable (cl : Cluster) (s : MaintainedSystem) (j lineAddr : ℕ)

/-- A thread that is suspended in the write-back of `insert` or of `locked_op`, or a
processor whose message is suspended in that of `clean`, holds the lock of the line
that a snoop of this address finds in cache `j`, and left `ts` there. -/
def HoldsSnooped (owner : ℕ ⊕ ℕ) (ts : Word64) : Prop :=
  ∃ i, (s.system.caches j).lookup (cl.geometry j) ((cl.geometry j).index lineAddr)
      ((cl.geometry j).tag lineAddr) = some i ∧
    Sum.elim (s.system.holds cl) s.holds owner =
      some ⟨j, i, (cl.geometry j).index lineAddr, ts⟩ ∧
    (s.system.caches j).word i ((cl.geometry j).index lineAddr) = ts

/-- Somebody holds the lock of the line. -/
def SnoopedHeld : Prop := ∃ owner ts, HoldsSnooped cl s j lineAddr owner ts

/-- A message holds it, and the line is shared. -/
def SharedHeld : Prop :=
  ∃ p ts, HoldsSnooped cl s j lineAddr (.inr p) ts ∧ lineState ts = .sharedClean

variable {cl s j lineAddr} {arm : ℕ → ArmCcache}

theorem Sound.snoopedLocked_iff (h : Sound cl s) :
    Ccache.SnoopedLocked (cl.geometry j) lineAddr (s.system.caches j) ↔
      SnoopedHeld cl s j lineAddr := by
  constructor
  · rintro ⟨i, hlookup, hlocked⟩
    obtain ⟨owner, hhold⟩ := h.locks.holder j i _ hlocked
    exact ⟨owner, _, i, hlookup, hhold, rfl⟩
  · rintro ⟨owner, ts, i, hlookup, hhold, hword⟩
    exact ⟨i, hlookup, by rw [hword, h.locks.locked owner _ hhold]⟩

/-- A thread never holds the lock of a shared line, a message may. -/
theorem Sound.snoopMakeInvalid_eq_none_iff (h : Sound cl s) :
    (s.system.caches j).snoopMakeInvalid (cl.geometry j) lineAddr = none ↔
      SharedHeld cl s j lineAddr := by
  rw [Ccache.snoopMakeInvalid_eq_none_iff]
  constructor
  · rintro ⟨i, hlookup, hstate, hlocked⟩
    obtain ⟨owner, hhold⟩ := h.locks.holder j i _ hlocked
    cases owner with
    | inl t =>
        rw [h.dirty t _ hhold] at hstate
        cases hstate
    | inr p => exact ⟨p, _, ⟨i, hlookup, hhold, rfl⟩, hstate⟩
  · rintro ⟨p, ts, ⟨i, hlookup, hhold, hword⟩, hstate⟩
    exact ⟨i, hlookup, by rw [hword, hstate], by rw [hword, h.locks.locked _ _ hhold]⟩

/-- In every state the cluster reaches with the messages of the processors, and for
every snoop: the handler returns if and only if nobody holds the lock of the line, or
the snoop is a `MakeInvalid` and no message holds it while the line is shared. -/
theorem peq_cb_returns_iff (cl : Cluster) (arm : ℕ → ArmCcache) (memory : Memory)
    (actions : List MaintainedAction) (final : MaintainedSystem)
    (hrun : Guarded.exec (MaintainedSystem.step cl arm) (powerOn memory) actions = some final)
    (j : ℕ) (ttype : Transaction) (lineAddr : ℕ) :
    Ccache.PeqReturns (cl.geometry j) ttype lineAddr (final.system.caches j) ↔
      (ttype = .makeInvalid ∧ ¬SharedHeld cl final j lineAddr) ∨
        ¬SnoopedHeld cl final j lineAddr := by
  have hsound := sound_of_reached hrun
  rw [Ccache.peqReturns_iff]
  by_cases htype : ttype = .makeInvalid
  · rw [if_pos htype, Ne, hsound.snoopMakeInvalid_eq_none_iff]
    constructor
    · exact fun hshared => .inl ⟨htype, hshared⟩
    · rintro (⟨-, hshared⟩ | hnone) ⟨p, ts, hheld, hstate⟩
      · exact hshared ⟨p, ts, hheld, hstate⟩
      · exact hnone ⟨.inr p, ts, hheld⟩
  · rw [if_neg htype, Ne, Ccache.snoopLine_eq_none_iff, hsound.snoopedLocked_iff]
    exact ⟨.inr, fun h => h.resolve_left fun hinvalid => htype hinvalid.1⟩

open Caches.System (twoCaches readWord writeWord)

/-- Data caches of the first level. -/
def dataCache (_ : ℕ) : ArmCcache := smallDataCache .fresh

/-- Clean by address, at address 0. -/
def cleanFirst : CacheControl where
  types := 2
  op := 2
  data := 0
  stop := .poC
  address := true
  snooped := false

/-- Both caches read a line, and a processor has the first one clean it: the line is
written back, though it is not dirty, while its lock is held. -/
def sharedCleaning : List MaintainedAction :=
  [.cluster (.start 0 0 readWord), .cluster (.reply 0 1),
    .cluster (.wake 0 (fun _ => 0) false), .cluster (.serve 0), .cluster (.resume 0 false),
    .cluster (.start 1 1 readWord), .cluster (.reply 1 0),
    .cluster (.wake 1 (fun _ => 0) false), .maintain 0 0 cleanFirst]

/-- A `MakeInvalid` returns from the second cache, and not from the first one. -/
theorem peq_cb_returns_iff_cleaning : ∃ final,
    Guarded.exec (MaintainedSystem.step twoCaches dataCache) (powerOn fun _ => 0)
        sharedCleaning = some final ∧
      Ccache.PeqReturns (twoCaches.geometry 1) .makeInvalid 0 (final.system.caches 1) ∧
      ¬Ccache.PeqReturns (twoCaches.geometry 0) .makeInvalid 0 (final.system.caches 0) := by
  refine ⟨_, rfl, ?_, ?_⟩
  · refine (peq_cb_returns_iff twoCaches dataCache (fun _ => 0) sharedCleaning _ rfl 1
      .makeInvalid 0).mpr (.inl ⟨rfl, ?_⟩)
    rintro ⟨_ | p, ts, ⟨i, -, hhold, -⟩, -⟩ <;> cases hhold
  · intro hreturns
    rcases (peq_cb_returns_iff twoCaches dataCache (fun _ => 0) sharedCleaning _ rfl 0
      .makeInvalid 0).mp hreturns with ⟨-, hshared⟩ | hnone
    · exact hshared ⟨0, _, ⟨0, rfl, rfl, rfl⟩, rfl⟩
    · exact hnone ⟨.inr 0, _, 0, rfl, rfl, rfl⟩

/-- A read of four bytes of the next line, which has the same column. -/
def readNext : Request :=
  { write := false, addr := 16, length := 4, data := fun _ => 0, benable := none
    blength := 0, linked := none }

/-- The first cache writes a line, and then reads another one into its column: the
read is suspended while the dirty line is written back. -/
def conflictingActions : List MaintainedAction :=
  [.cluster (.start 0 0 writeWord), .cluster (.reply 0 1),
    .cluster (.wake 0 (fun _ => 0) false), .cluster (.serve 0), .cluster (.resume 0 true),
    .cluster (.start 0 0 readNext), .cluster (.reply 0 1),
    .cluster (.wake 0 (fun _ => 0) false), .cluster (.serve 0), .cluster (.resume 0 false)]

/-- The second cache asks for the line that is being written back: the handler of
the first one turns for ever, and the write-back is never resumed. -/
theorem not_peq_cb_returns :
    ¬∀ (cl : Cluster) (arm : ℕ → ArmCcache) (memory : Memory)
      (actions : List MaintainedAction) (final : MaintainedSystem),
      Guarded.exec (MaintainedSystem.step cl arm) (powerOn memory) actions = some final →
      ∀ j ttype lineAddr,
        Ccache.PeqReturns (cl.geometry j) ttype lineAddr (final.system.caches j) := by
  intro hall
  have hreturns := hall twoCaches dataCache (fun _ => 0) conflictingActions _ rfl 0 .readShared 0
  rw [Ccache.peqReturns_iff, if_neg (by decide), Ne, Ccache.snoopLine_eq_none_iff] at hreturns
  exact hreturns ⟨0, rfl, rfl⟩

end MaintainedSystem

end Prazor.Caches
