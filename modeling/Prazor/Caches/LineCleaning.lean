import Prazor.Caches.HeldLocks
import Prazor.Caches.Maintenance

/-!
# A cluster whose lines are cleaned

`b_cp15_access` locks the line that it cleans, in whatever state it finds it, and
is suspended in the write-back of `clean` while it holds the lock.  The maintenance
messages of the processors go on beside the threads of the cluster: a message is
served in one step, or locks its line and goes on when the storage has its bytes.
-/

namespace Prazor.Caches

/-! ## One message -/

/-- What a message is to do in a cache: nothing, as it is for other caches or the
line is not there; lock a line, write it back to an address if it is to be cleaned,
and release it; or forget all lines. -/
inductive Upkeep where
  | pass
  | line (i k : ℕ) (write : Option WriteBack)
  | all

namespace Ccache

variable (g : Geometry) (cache : Ccache)

/-- The line with an address; the operand is the address of the write-back. -/
def upkeepAddress (addr : ℕ) : Upkeep :=
  match cache.lookup g (g.index addr) (g.tag addr) with
  | none => .pass
  | some i => .line i (g.index addr)
      (some { addr := addr, data := (cache.mWays i).mData (g.index addr) })

/-- The line with a set and a way. -/
def upkeepSetWay (op : ℕ) (data : BitVec 32) : Option Upkeep :=
  let a := boundLog2 g.ways
  let index := (data.toNat >>> boundLog2 g.linesize) &&&
    (2 ^ boundLog2 (g.indexm + 1) - 1)
  let w := data.toNat >>> (32 - a)
  if a = 0 ∨ g.ways ≤ w then none
  else if lineState ((cache.mWays w).mStatus index) = .invalid then some .pass
  else
    some (.line w index
      (if op.testBit CacheControl.opClean then
        some { addr := g.rebuildAddress ((cache.mWays w).mTags index) index
               data := (cache.mWays w).mData index }
      else none))

/-- A line is locked; `none` when the assertion fails. -/
def lockLine (i k : ℕ) : Option (Ccache × Word64) :=
  let exchange := acquirets (cache.word i k) (cache.word i k)
  if exchange.success then some (cache.setStatus i k exchange.status, exchange.oldts)
  else none

/-- It is released as invalid or shared. -/
def releaseLine (i k op : ℕ) (ts : Word64) : Option Ccache :=
  let newts :=
    if op.testBit CacheControl.opInvalid then incts ts .invalid else incts ts .sharedClean
  let release := releasets (cache.word i k) ts newts
  if release.success then some (cache.setStatus i k release.status) else none

/-- A message that nothing interrupts: the cache after it, and its writes. -/
def perform (op : ℕ) : Upkeep → Option (Ccache × List WriteBack)
  | .pass => some (cache, [])
  | .line i k write =>
      (cache.lockLine i k).bind fun held =>
        (held.1.releaseLine i k op held.2).map fun released => (released, write.toList)
  | .all => some (cache.invalidate, [])

end Ccache

namespace ArmCcache

variable (g : Geometry) (c : ArmCcache) (ext : CacheControl)

/-- What cleaning and invalidating are to do. -/
def upkeepNamed : Option Upkeep :=
  let level := (ext.data.toNat >>> 1) &&& 0x7
  if ext.data ≠ -1 ∧ ext.address then some (c.cache.upkeepAddress g ext.data.toNat)
  else if ext.data ≠ -1 then
    if c.mLevel = level + 1 then c.cache.upkeepSetWay g ext.op ext.data
    else if c.mLevel < level + 1 ∧ c.cp15InitiatorSocket then some .pass
    else none
  else if c.mTy = .instruction then some .all
  else none

/-- What `b_cp15_access` is to do; `none` when an assertion fails. -/
def upkeep : Option Upkeep :=
  if ext.op ≠ 1 <<< CacheControl.opEnable ∧ c.selected ext ∧
      (ext.op.testBit CacheControl.opClean ∨ ext.op.testBit CacheControl.opInvalid) then
    c.upkeepNamed g ext
  else some .pass

end ArmCcache

section Alone

variable {g : Geometry} {cache : Ccache} {i k op : ℕ}

theorem maintainLine_eq (clean : Option (ℕ × ℕ))
    (htag : ∀ addr tag, clean = some (addr, tag) → (cache.mWays i).mTags k = tag) :
    cache.maintainLine i k op clean =
      cache.perform op (.line i k (clean.map fun addrTag =>
        { addr := addrTag.1, data := (cache.mWays i).mData k })) := by
  cases hlocked : locked (cache.word i k) with
  | true =>
      rw [maintainLine_of_locked hlocked, Ccache.perform, Ccache.lockLine,
        if_neg (Bool.eq_false_iff.mp (acquirets_same_of_locked hlocked))]
      rfl
  | false =>
      have hacquire := acquirets_same_of_unlocked hlocked
      have hword : (cache.setStatus i k (cache.word i k ||| 1)).word i k =
          cache.word i k ||| 1 := by
        rw [Ccache.word_setStatus, if_pos ⟨rfl, rfl⟩]
      rw [Ccache.perform, Ccache.lockLine, hacquire, if_pos rfl, Option.bind_some,
        Ccache.releaseLine, hword, releasets_self, if_pos rfl, Option.map_some,
        Ccache.setStatus_setStatus]
      unfold Ccache.maintainLine
      dsimp only
      rw [show (cache.mWays i).mStatus k = cache.word i k from rfl, hacquire, if_pos rfl,
        releasets_self, if_pos rfl]
      cases clean with
      | none => rfl
      | some addrTag =>
          obtain ⟨addr, tag⟩ := addrTag
          dsimp only
          rw [Way.clean, if_pos (htag addr tag rfl)]
          rfl

theorem maintainAddress_eq (addr : ℕ) :
    cache.maintainAddress g op addr = cache.perform op (cache.upkeepAddress g addr) := by
  unfold Ccache.maintainAddress Ccache.upkeepAddress
  cases hlookup : cache.lookup g (g.index addr) (g.tag addr) with
  | none => rfl
  | some i =>
      refine maintainLine_eq (some (addr, g.tag addr)) ?_
      rintro _ _ ⟨⟩
      exact (Way.lookup_ne_invalid.mp (Ccache.lookup_eq_some hlookup).2).2

theorem maintainSetWay_eq (data : BitVec 32) :
    cache.maintainSetWay g op data = (cache.upkeepSetWay g op data).bind (cache.perform op) := by
  unfold Ccache.maintainSetWay Ccache.upkeepSetWay
  dsimp only
  split
  case isTrue => rfl
  case isFalse =>
    split
    case isTrue => rfl
    case isFalse =>
      split
      · refine maintainLine_eq (some _) ?_
        rintro _ _ ⟨⟩
        rfl
      · exact maintainLine_eq none fun _ _ h => by cases h

/-- The cache after a message, and its writes. -/
def Maintained.effect (done : Maintained) : Ccache × List WriteBack :=
  (done.cache.cache, done.writes)

theorem maintain_eq (c : ArmCcache) (ext : CacheControl) :
    (c.maintain g ext).map Maintained.effect =
      (c.upkeepNamed g ext).bind (c.cache.perform ext.op) := by
  unfold ArmCcache.maintain ArmCcache.upkeepNamed
  dsimp only
  by_cases hdata : ext.data = -1
  · simp only [hdata, ne_eq, not_true_eq_false, false_and, if_false]
    split <;> rfl
  · cases haddress : ext.address with
    | true =>
        simp only [ne_eq, hdata, not_false_eq_true, and_self, if_true, Option.bind_some,
          maintainAddress_eq, Option.map_map]
        cases c.cache.perform ext.op (c.cache.upkeepAddress g ext.data.toNat) <;> rfl
    | false =>
        simp only [ne_eq, hdata, not_false_eq_true, Bool.false_eq_true, and_false, if_false,
          Bool.not_false, and_self, if_true, maintainSetWay_eq]
        split
        case isTrue =>
          rw [Option.map_map]
          exact Option.map_id_apply
        case isFalse =>
          split
          case isTrue hlevel =>
            cases hsocket : c.cp15InitiatorSocket with
            | true =>
                have hforwards : c.mLevel < (ext.data.toNat >>> 1 &&& 7) + 1 ∧ true = true :=
                  ⟨hlevel, rfl⟩
                rw [if_pos rfl, if_pos hforwards]
                rfl
            | false =>
                rw [if_neg Bool.false_ne_true, if_neg fun h => Bool.false_ne_true h.2]
                rfl
          case isFalse hlevel =>
            rw [if_neg fun h => hlevel h.1]
            rfl

/-- A message that nothing interrupts does what `b_cp15_access` does. -/
theorem bCp15Access_eq_perform (c : ArmCcache) (ext : CacheControl) :
    (c.bCp15Access g ext).map Maintained.effect =
      (c.upkeep g ext).bind (c.cache.perform ext.op) := by
  unfold ArmCcache.upkeep
  by_cases henable : ext.op = 1 <<< CacheControl.opEnable
  · rw [if_neg fun h => h.1 henable, ArmCcache.bCp15Access, if_pos henable]
    by_cases hselected : c.selected ext = true <;>
      simp [hselected, Ccache.perform, Maintained.effect]
  · by_cases hop : ext.op.testBit CacheControl.opClean = true ∨
        ext.op.testBit CacheControl.opInvalid = true
    · obtain ⟨pass, haccess⟩ := bCp15Access_eq (g := g) (c := c) hop
      rw [haccess, Option.map_map]
      by_cases hselected : c.selected ext = true
      · rw [if_pos hselected, if_pos ⟨henable, hselected, hop⟩, ← maintain_eq]
        rfl
      · rw [if_neg hselected, if_neg fun h => hselected h.2.1]
        rfl
    · rw [if_neg fun h => hop h.2.2, ArmCcache.bCp15Access, if_neg henable]
      have hnot : ¬(c.selected ext = true ∧ (ext.op.testBit CacheControl.opClean = true ∨
          ext.op.testBit CacheControl.opInvalid = true)) := fun h => hop h.2
      rw [if_neg hnot, Option.bind_some]
      by_cases hforward : ext.stop ≠ .none ∧ (!c.mPoU) = true
      · have hsocket := c.socket_of_not_PoU (by simpa using hforward.2)
        rw [if_pos hforward, if_pos hsocket]
        rfl
      · rw [if_neg hforward]
        rfl

end Alone

/-! ## The messages of a cluster -/

/-- A line that `b_cp15_access` has locked and whose write-back it waits for. -/
structure Cleaning where
  cache : ℕ
  way : ℕ
  column : ℕ
  ts : Word64
  op : ℕ
  write : WriteBack
  stored : Bool

def Cleaning.hold (cleaning : Cleaning) : Hold :=
  ⟨cleaning.cache, cleaning.way, cleaning.column, cleaning.ts⟩

/-- The cluster, and for each processor the line its message waits for. -/
structure MaintainedSystem where
  system : System
  cleaning : ℕ → Option Cleaning

/-- What can happen next: a step of the cluster; a processor sends a message to a
cache; the storage has the bytes of its line; the message goes on. -/
inductive MaintainedAction where
  | cluster (a : System.Action)
  | maintain (p b : ℕ) (ext : CacheControl)
  | stored (p : ℕ)
  | released (p : ℕ)

namespace MaintainedSystem

def powerOn (memory : Memory) : MaintainedSystem :=
  { system := .powerOn memory, cleaning := fun _ => none }

def setCleaning (s : MaintainedSystem) (p : ℕ) (cleaning : Option Cleaning) :
    MaintainedSystem :=
  { s with cleaning := Function.update s.cleaning p cleaning }

def setSystem (s : MaintainedSystem) (system : System) : MaintainedSystem :=
  { s with system := system }

/-- A message reaches cache `b`. -/
def begin (s : MaintainedSystem) (p b op : ℕ) : Upkeep → Option MaintainedSystem
  | .pass => some s
  | .line i k write =>
      ((s.system.caches b).lockLine i k).bind fun held =>
        match write with
        | some write =>
            some ((s.setSystem (s.system.setCache b held.1)).setCleaning p
              (some ⟨b, i, k, held.2, op, write, false⟩))
        | none =>
            (held.1.releaseLine i k op held.2).map fun released =>
              s.setSystem (s.system.setCache b released)
  | .all => some (s.setSystem (s.system.setCache b (s.system.caches b).invalidate))

/-- One step; of `arm` all but the lines is taken. -/
def step (cl : Cluster) (arm : ℕ → ArmCcache) (s : MaintainedSystem) :
    MaintainedAction → Option MaintainedSystem
  | .cluster a => (s.system.step cl a).map s.setSystem
  | .maintain p b ext =>
      match s.cleaning p with
      | none =>
          (({ arm b with cache := s.system.caches b } : ArmCcache).upkeep (cl.geometry b)
            ext).bind (s.begin p b ext.op)
      | some _ => none
  | .stored p =>
      match s.cleaning p with
      | some ⟨b, i, k, ts, op, write, false⟩ =>
          some ((s.setSystem (s.system.setMemory (WriteBack.apply (cl.geometry b)
            s.system.storage.memory write))).setCleaning p
              (some ⟨b, i, k, ts, op, write, true⟩))
      | _ => none
  | .released p =>
      match s.cleaning p with
      | some ⟨b, i, k, ts, op, _, true⟩ =>
          ((s.system.caches b).releaseLine i k op ts).map fun released =>
            (s.setSystem (s.system.setCache b released)).setCleaning p none
      | _ => none

/-! ## The locks -/

/-- What the message of a processor holds. -/
def holds (s : MaintainedSystem) (p : ℕ) : Option Hold := (s.cleaning p).map Cleaning.hold

variable {cl : Cluster} {arm : ℕ → ArmCcache} {s s' : MaintainedSystem} {p b : ℕ}

/-- Every locked word is that of a suspended operation or of a message. -/
def Sound (cl : Cluster) (s : MaintainedSystem) : Prop :=
  System.LocksSound cl s.holds s.system

theorem holds_setCleaning (cleaning : Option Cleaning) :
    (s.setCleaning p cleaning).holds = Function.update s.holds p (cleaning.map Cleaning.hold) := by
  funext q
  by_cases hq : q = p
  · subst hq
    simp only [holds, setCleaning, Function.update_self]
  · simp only [holds, setCleaning, Function.update_of_ne hq]

end MaintainedSystem

namespace System

variable {cl : Cluster} {sys : System} {others : ℕ → Option Hold} {p b i k : ℕ} {ts : Word64}
  {cache' : Ccache}

/-- A cache changes while no thread runs, and locks nothing anew. -/
theorem LocksSound.setCache (h : LocksSound cl others sys)
    (hsame : Ccache.NoNewLocks (sys.caches b) cache') :
    LocksSound cl others (sys.setCache b cache') where
  locks := by
    apply h.locks.noNewLocks
    intro c
    by_cases hc : c = b
    · rw [hc, caches_setCache_self]
      exact hsame
    · rw [caches_setCache_of_ne sys hc]
      exact .refl _
  dirty := h.dirty

theorem LocksSound.setMemory (h : LocksSound cl others sys) (memory : Memory) :
    LocksSound cl others (sys.setMemory memory) :=
  ⟨h.locks, h.dirty⟩

/-- One of the others locks a word. -/
theorem LocksSound.acquire (h : LocksSound cl others sys) (hnone : others p = none)
    (hlocked : locked ts = true) (hstores : Ccache.Stores (sys.caches b) cache' i k ts) :
    LocksSound cl (Function.update others p (some ⟨b, i, k, ts⟩)) (sys.setCache b cache') where
  locks := by
    have hother : Sum.elim (sys.holds cl) others (.inr p) = none := hnone
    have hacquire := h.locks.acquire hother hlocked hstores
    rwa [Sum.update_elim_inr] at hacquire
  dirty := h.dirty

/-- It releases the word. -/
theorem LocksSound.release {status : Word64} (h : LocksSound cl others sys)
    (hhold : others p = some ⟨b, i, k, ts⟩) (hunlocked : locked status = false)
    (hstores : Ccache.Stores (sys.caches b) cache' i k status) :
    LocksSound cl (Function.update others p none) (sys.setCache b cache') where
  locks := by
    have hother : Sum.elim (sys.holds cl) others (.inr p) = some ⟨b, i, k, ts⟩ := hhold
    have hrelease := h.locks.release hother hunlocked hstores
    rwa [Sum.update_elim_inr] at hrelease
  dirty := h.dirty

end System

namespace Ccache

variable {cache cache' : Ccache} {i k op : ℕ} {ts : Word64}

theorem stores_lockLine {held : Ccache × Word64} (hlock : cache.lockLine i k = some held) :
    locked held.2 = true ∧ Stores cache held.1 i k held.2 := by
  unfold lockLine at hlock
  dsimp only at hlock
  split at hlock
  case isFalse => cases hlock
  case isTrue hsuccess =>
    rw [acquirets_same_of_unlocked (acquirets_same_success hsuccess), Option.some.injEq] at hlock
    subst hlock
    exact ⟨locked_or_one _, stores_setStatus cache i k _⟩

theorem stores_releaseLine (hrelease : cache.releaseLine i k op ts = some cache') :
    ∃ status, locked status = false ∧ Stores cache cache' i k status := by
  unfold releaseLine at hrelease
  dsimp only at hrelease
  by_cases hword : cache.word i k = ts
  · rw [hword, releasets_self, if_pos rfl, Option.some.injEq] at hrelease
    subst hrelease
    refine ⟨_, ?_, stores_setStatus cache i k _⟩
    split <;> exact locked_incts _ _
  · rw [releasets_of_ne hword, if_neg Bool.false_ne_true] at hrelease
    cases hrelease

theorem noNewLocks_invalidate (cache : Ccache) : NoNewLocks cache cache.invalidate :=
  fun _ _ => .inr (show locked 0 = false by decide)

/-- A line that is not cleaned is locked and released at once. -/
theorem noNewLocks_of_lockLine {held : Ccache × Word64} (hlock : cache.lockLine i k = some held)
    (hrelease : held.1.releaseLine i k op held.2 = some cache') : NoNewLocks cache cache' := by
  obtain ⟨status, hunlocked, hstores'⟩ := stores_releaseLine hrelease
  have hstores : Stores cache cache' i k status := by
    intro j l
    rw [hstores', (stores_lockLine hlock).2 j l]
    split <;> rfl
  exact hstores.noNewLocks hunlocked

end Ccache

namespace MaintainedSystem

variable {cl : Cluster} {arm : ℕ → ArmCcache} {s s' : MaintainedSystem} {p b op : ℕ}

theorem Sound.begin {upkeep : Upkeep} (h : Sound cl s) (hnone : s.cleaning p = none)
    (hbegin : s.begin p b op upkeep = some s') : Sound cl s' := by
  cases upkeep with
  | pass =>
      obtain rfl := Option.some.inj hbegin
      exact h
  | all =>
      obtain rfl := Option.some.inj hbegin
      exact h.setCache (Ccache.noNewLocks_invalidate _)
  | line i k write =>
      obtain ⟨held, hlock, hbegin⟩ := Option.bind_eq_some_iff.mp hbegin
      cases write with
      | none =>
          obtain ⟨released, hrelease, rfl⟩ := Option.map_eq_some_iff.mp hbegin
          exact h.setCache (Ccache.noNewLocks_of_lockLine hlock hrelease)
      | some write =>
          obtain rfl := Option.some.inj hbegin
          obtain ⟨hlocked, hstores⟩ := Ccache.stores_lockLine hlock
          have hfree : s.holds p = none := by rw [holds, hnone]; rfl
          unfold Sound
          rw [holds_setCleaning]
          exact h.acquire hfree hlocked hstores

/-- A step keeps the locks sound. -/
theorem Sound.step {action : MaintainedAction} (h : Sound cl s)
    (hstep : s.step cl arm action = some s') : Sound cl s' := by
  unfold MaintainedSystem.step at hstep
  split at hstep
  case h_1 a =>
    obtain ⟨system, hsystem, rfl⟩ := Option.map_eq_some_iff.mp hstep
    exact System.LocksSound.step h hsystem
  case h_2 p b ext =>
    split at hstep
    case h_2 => cases hstep
    case h_1 hnone =>
      obtain ⟨upkeep, -, hbegin⟩ := Option.bind_eq_some_iff.mp hstep
      exact h.begin hnone hbegin
  case h_3 p =>
    split at hstep
    case h_2 => cases hstep
    case h_1 b i k ts op write hcleaning =>
      obtain rfl := Option.some.inj hstep
      have hhold : s.holds p = some ⟨b, i, k, ts⟩ := by
        rw [holds, hcleaning]
        rfl
      -- the storage has the bytes; the message goes on holding its line
      have hsame := Function.update_eq_self p s.holds
      rw [hhold] at hsame
      unfold Sound
      rw [holds_setCleaning]
      show System.LocksSound cl (Function.update s.holds p (some ⟨b, i, k, ts⟩))
        (s.system.setMemory _)
      rw [hsame]
      exact System.LocksSound.setMemory h _
  case h_4 p =>
    split at hstep
    case h_2 => cases hstep
    case h_1 b i k ts op write hcleaning =>
      obtain ⟨released, hrelease, rfl⟩ := Option.map_eq_some_iff.mp hstep
      obtain ⟨status, hunlocked, hstores⟩ := Ccache.stores_releaseLine hrelease
      have hhold : s.holds p = some ⟨b, i, k, ts⟩ := by
        rw [holds, hcleaning]
        rfl
      unfold Sound
      rw [holds_setCleaning]
      exact System.LocksSound.release h hhold hunlocked hstores

theorem Sound.powerOn (cl : Cluster) (memory : Memory) : Sound cl (powerOn memory) :=
  System.LocksSound.powerOn cl memory

/-- In every state that is reached, the locked words are those of suspended operations
and of messages. -/
theorem sound_of_reached {memory : Memory} {actions : List MaintainedAction}
    {final : MaintainedSystem}
    (hrun : Guarded.exec (MaintainedSystem.step cl arm) (powerOn memory) actions = some final) :
    Sound cl final :=
  Guarded.exec_keeps (fun _ _ _ hsound hstep => hsound.step hstep) (Sound.powerOn cl memory) hrun

end MaintainedSystem

end Prazor.Caches
