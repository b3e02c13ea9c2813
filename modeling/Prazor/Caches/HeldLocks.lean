import Prazor.Caches.Runs

/-!
# Locks that are held across a suspension

Between two suspensions a process may lock a column and release it again.  Two
operations are suspended while they hold one: `insert`, while its victim is
written back, and `locked_op`, while it writes back its own line.  In both cases
the line is dirty.  Here every locked status word of a whole cluster is matched
with the operation that has locked it: one of these, or one of another kind that
goes on beside them.
-/

namespace Prazor.Caches

/-- A word that has just been loaded is locked unless it is locked already. -/
theorem acquirets_same_of_locked {status : Word64} (hlocked : locked status = true) :
    (acquirets status status).success = false := by
  by_contra hsuccess
  rw [Bool.not_eq_false] at hsuccess
  rw [acquirets_same_success hsuccess] at hlocked
  exact Bool.false_ne_true hlocked

theorem updatets_same_of_unlocked {status : Word64} (hunlocked : locked status = false)
    (newts : Word64) : updatets status status newts = ⟨newts, status, true⟩ := by
  have hself := updatets_self status newts
  rwa [and_not_one hunlocked] at hself

theorem updatets_same_of_locked {status : Word64} (hlocked : locked status = true)
    (newts : Word64) : (updatets status status newts).success = false := by
  have hne : status ≠ status &&& ~~~1 := by
    intro heq
    rw [heq, locked_and_not_one] at hlocked
    exact Bool.false_ne_true hlocked
  rw [updatets_of_ne hne]

/-- A status word a suspended operation has locked, and what it wrote there. -/
structure Hold where
  cache : ℕ
  way : ℕ
  column : ℕ
  ts : Word64

/-- What the operation a thread is suspended in holds. -/
def Thread.hold (cl : Cluster) (thread : Thread) : Option Hold :=
  match thread.phase with
  | .evicting req _ _ i ts _ _ =>
      some ⟨thread.cache, i, (cl.geometry thread.cache).index req.addr, ts⟩
  | .flushing req i ts _ _ =>
      some ⟨thread.cache, i, (cl.geometry thread.cache).index req.addr, ts⟩
  | _ => none

/-- Every locked word is what one of the owners has written there. -/
structure LocksHeld {Owner : Type*} (caches : ℕ → Ccache) (hold : Owner → Option Hold) :
    Prop where
  locked : ∀ o h, hold o = some h → locked h.ts = true
  holder : ∀ b i k, Caches.locked ((caches b).word i k) = true →
    ∃ o, hold o = some ⟨b, i, k, (caches b).word i k⟩

namespace Ccache

variable {g : Geometry} {cache cache' : Ccache} {i k : ℕ} {status : Word64}

/-- One status word is replaced, as far as the words go. -/
def Stores (cache cache' : Ccache) (i k : ℕ) (status : Word64) : Prop :=
  ∀ j l, cache'.word j l = if j = i ∧ l = k then status else cache.word j l

/-- Words that are locked are as they were. -/
def NoNewLocks (cache cache' : Ccache) : Prop :=
  ∀ i k, cache'.word i k = cache.word i k ∨ locked (cache'.word i k) = false

theorem NoNewLocks.refl (cache : Ccache) : NoNewLocks cache cache := fun _ _ => .inl rfl

theorem Stores.noNewLocks (hstores : Stores cache cache' i k status)
    (hafter : locked status = false) : NoNewLocks cache cache' := by
  intro j l
  have hword := hstores j l
  by_cases heq : j = i ∧ l = k
  · rw [if_pos heq] at hword
    exact .inr (hword ▸ hafter)
  · rw [if_neg heq] at hword
    exact .inl hword

theorem stores_setStatus (cache : Ccache) (i k : ℕ) (status : Word64) :
    Stores cache (cache.setStatus i k status) i k status :=
  word_setStatus cache i k status

/-! ## The operations of one cache -/

theorem noNewLocks_touch {oldts : Word64}
    (htouch : cache.touch i k oldts = some (some cache')) : NoNewLocks cache cache' := by
  unfold touch at htouch
  dsimp only at htouch
  split at htouch
  case isFalse => cases htouch
  case isTrue hsuccess =>
    obtain ⟨hunlocked, -, hacquire⟩ := acquirets_of_success hsuccess
    rw [hacquire] at htouch
    simp only [releasets_self, if_true, Option.some.injEq] at htouch
    subst htouch
    exact (stores_setStatus cache i k _).noNewLocks (locked_inctsSame _)

/-- The words of a way are replaced one at a time, whatever else is. -/
theorem stores_setWay {way : Way}
    (hway : way.mStatus = Function.update (cache.mWays i).mStatus k status) :
    Stores cache (cache.setWay i way) i k status := by
  intro j l
  by_cases hj : j = i
  · subst hj
    by_cases hl : l = k
    · subst hl
      simp [word, mWays_setWay_self, hway]
    · simp [word, mWays_setWay_self, hway, hl]
  · simp [word, mWays_setWay_of_ne cache hj, hj]

theorem noNewLocks_warmWrite {req : Request} {oldts : Word64} {update : Bool}
    (hwrite : cache.warmWrite g i req oldts update = some (some cache')) :
    NoNewLocks cache cache' := by
  unfold warmWrite at hwrite
  dsimp only at hwrite
  split at hwrite
  case isFalse => cases hwrite
  case isTrue hsuccess =>
    obtain ⟨hunlocked, -, hacquire⟩ := acquirets_of_success hsuccess
    rw [hacquire] at hwrite
    simp only [releasets_self, if_true, Option.some.injEq] at hwrite
    subst hwrite
    refine Stores.noNewLocks (stores_setWay rfl) ?_
    cases update
    · exact locked_inctsSame _
    · exact locked_incts _ _

theorem noNewLocks_snoopLine {lineAddr : ℕ} {shared : Bool} {reply : Reply}
    (hsnoop : cache.snoopLine g lineAddr shared = some (cache', reply)) :
    NoNewLocks cache cache' := by
  unfold snoopLine at hsnoop
  dsimp only at hsnoop
  split at hsnoop
  · obtain ⟨rfl, -⟩ := Prod.mk.inj (Option.some.inj hsnoop)
    exact .refl cache
  · split at hsnoop
    case isFalse => cases hsnoop
    case isTrue hsuccess =>
      obtain ⟨hunlocked, -, hacquire⟩ := acquirets_of_success hsuccess
      rw [hacquire] at hsnoop
      simp only [releasets_self, if_true, Option.some.injEq, Prod.mk.injEq] at hsnoop
      obtain ⟨rfl, -⟩ := hsnoop
      exact (stores_setStatus cache _ _ _).noNewLocks (locked_incts _ _)

theorem noNewLocks_snoopMakeInvalid {lineAddr : ℕ} {reply : Reply}
    (hsnoop : cache.snoopMakeInvalid g lineAddr = some (cache', reply)) :
    NoNewLocks cache cache' := by
  unfold snoopMakeInvalid at hsnoop
  dsimp only at hsnoop
  split at hsnoop
  · obtain ⟨rfl, -⟩ := Prod.mk.inj (Option.some.inj hsnoop)
    exact .refl cache
  · rename_i i _
    split at hsnoop
    · obtain ⟨rfl, -⟩ := Prod.mk.inj (Option.some.inj hsnoop)
      exact .refl cache
    · cases hlocked : locked ((cache.mWays i).mStatus (g.index lineAddr)) with
      | true =>
          rw [if_neg (Bool.eq_false_iff.mp (updatets_same_of_locked hlocked _))] at hsnoop
          cases hsnoop
      | false =>
          rw [updatets_same_of_unlocked hlocked, if_pos rfl, Option.some.injEq,
            Prod.mk.injEq] at hsnoop
          obtain ⟨rfl, -⟩ := hsnoop
          exact (stores_setStatus cache _ _ _).noNewLocks (locked_incts _ _)

/-- A column that `insert` or `locked_op` gives back. -/
theorem stores_releaseInvalid {ts : Word64}
    (hrelease : cache.releaseInvalid i k ts = some cache') :
    cache.word i k = ts ∧ ∃ status, Stores cache cache' i k status ∧ locked status = false := by
  unfold releaseInvalid at hrelease
  dsimp only at hrelease
  split at hrelease
  case isFalse => cases hrelease
  case isTrue hsuccess =>
    have hword := releasets_success_iff.mp hsuccess
    rw [hword, releasets_self, Option.some.injEq] at hrelease
    subst hrelease
    exact ⟨hword, _, stores_setStatus cache i k _, locked_incts _ _⟩

theorem stores_finishInsert {tag : ℕ} {cline : Buffer} {news : LineState} {ts newts : Word64}
    (hfinish : cache.finishInsert g i k tag cline news ts = some (cache', newts)) :
    cache.word i k = ts ∧ Stores cache cache' i k newts ∧ locked newts = false := by
  unfold finishInsert at hfinish
  dsimp only at hfinish
  split at hfinish
  case isFalse => cases hfinish
  case isTrue hsuccess =>
    have hword := releasets_success_iff.mp hsuccess
    rw [hword, releasets_self, Option.some.injEq, Prod.mk.injEq] at hfinish
    obtain ⟨rfl, rfl⟩ := hfinish
    exact ⟨hword, stores_setWay rfl, locked_incts _ _⟩

/-- `insert` locks the column of the next way, if it is not locked. -/
theorem stores_beginInsert (g : Geometry) (cache : Ccache) (k : ℕ) :
    ((cache.beginInsert g k).2 = none ∧ NoNewLocks cache (cache.beginInsert g k).1) ∨
      ∃ i ts, (cache.beginInsert g k).2 = some (i, ts) ∧ locked (cache.word i k) = false ∧
        locked ts = true ∧ Stores cache (cache.beginInsert g k).1 i k ts := by
  have hword : ((cache.lruw g).mWays (cache.lruw g).lru).mStatus k =
      cache.word (cache.lruw g).lru k := rfl
  unfold beginInsert
  dsimp only
  rw [hword]
  by_cases hunlocked : locked (cache.word (cache.lruw g).lru k) = false
  · rw [acquirets_same_of_unlocked hunlocked, if_pos rfl]
    exact .inr ⟨_, _, rfl, hunlocked, locked_or_one _,
      stores_setStatus (cache.lruw g) (cache.lruw g).lru k _⟩
  · rw [if_neg fun hsuccess => hunlocked (acquirets_same_success hsuccess)]
    exact .inl ⟨rfl, fun _ _ => .inl rfl⟩

end Ccache

/-! ## Taking and giving back a lock -/

namespace LocksHeld

variable {Owner : Type*} {caches caches' : ℕ → Ccache} {hold : Owner → Option Hold} {o : Owner}
  {b i k : ℕ} {ts : Word64} {cache' : Ccache}

theorem noNewLocks (h : LocksHeld caches hold)
    (hsame : ∀ b, Ccache.NoNewLocks (caches b) (caches' b)) : LocksHeld caches' hold where
  locked := h.locked
  holder := by
    intro b i k hlocked
    rcases hsame b i k with heq | hunlocked
    · rw [heq] at hlocked ⊢
      exact h.holder b i k hlocked
    · rw [hunlocked] at hlocked
      cases hlocked

/-- One status word of one cache of the cluster is replaced. -/
theorem word_update (hstores : Ccache.Stores (caches b) cache' i k ts) (c j l : ℕ) :
    (Function.update caches b cache' c).word j l =
      if c = b ∧ j = i ∧ l = k then ts else (caches c).word j l := by
  by_cases hc : c = b
  · subst hc
    rw [Function.update_self, hstores]
    simp only [true_and]
  · rw [Function.update_of_ne hc, if_neg fun heq => hc heq.1]

variable [DecidableEq Owner]

theorem acquire (h : LocksHeld caches hold) (hnone : hold o = none)
    (hlocked : Caches.locked ts = true) (hstores : Ccache.Stores (caches b) cache' i k ts) :
    LocksHeld (Function.update caches b cache')
      (Function.update hold o (some ⟨b, i, k, ts⟩)) := by
  have hword := word_update hstores
  constructor
  · intro p held hhold
    by_cases hp : p = o
    · rw [hp, Function.update_self, Option.some.injEq] at hhold
      exact hhold ▸ hlocked
    · rw [Function.update_of_ne hp] at hhold
      exact h.locked p held hhold
  · intro c j l hlocked'
    rw [hword] at hlocked' ⊢
    split at hlocked'
    case isTrue heq =>
      rw [if_pos heq]
      obtain ⟨rfl, rfl, rfl⟩ := heq
      exact ⟨o, Function.update_self _ _ _⟩
    case isFalse hother =>
      obtain ⟨p, hhold⟩ := h.holder c j l hlocked'
      have hp : p ≠ o := by
        rintro rfl
        rw [hnone] at hhold
        cases hhold
      exact ⟨p, by rw [Function.update_of_ne hp, if_neg hother, hhold]⟩

theorem release {status : Word64} (h : LocksHeld caches hold)
    (hhold : hold o = some ⟨b, i, k, ts⟩) (hunlocked : Caches.locked status = false)
    (hstores : Ccache.Stores (caches b) cache' i k status) :
    LocksHeld (Function.update caches b cache') (Function.update hold o none) := by
  have hword := word_update hstores
  constructor
  · intro p held hp
    have hne : p ≠ o := by
      rintro rfl
      rw [Function.update_self] at hp
      cases hp
    rw [Function.update_of_ne hne] at hp
    exact h.locked p held hp
  · intro c j l hlocked
    rw [hword] at hlocked ⊢
    split at hlocked
    case isTrue =>
      rw [hunlocked] at hlocked
      cases hlocked
    case isFalse hother =>
      obtain ⟨p, hp⟩ := h.holder c j l hlocked
      have hne : p ≠ o := by
        rintro rfl
        rw [hhold, Option.some.injEq, Hold.mk.injEq] at hp
        obtain ⟨rfl, rfl, rfl, -⟩ := hp
        exact hother ⟨rfl, rfl, rfl⟩
      exact ⟨p, by rw [Function.update_of_ne hne, if_neg hother, hp]⟩

end LocksHeld

/-! ## The cluster -/

namespace System

variable {cl : Cluster} {sys sys' : System} {t b : ℕ} {others : ℕ → Option Hold}

def holds (cl : Cluster) (sys : System) (t : ℕ) : Option Hold := (sys.threads t).hold cl

/-- The locked words are those of suspended operations, whose lines are dirty, and
of the others. -/
structure LocksSound (cl : Cluster) (others : ℕ → Option Hold) (sys : System) : Prop where
  locks : LocksHeld sys.caches (Sum.elim (sys.holds cl) others)
  dirty : ∀ u held, sys.holds cl u = some held → lineState held.ts = .uniqueDirty

/-- The same between two suspensions of thread `t`, which holds `hold` itself. -/
structure LocksBut (cl : Cluster) (others : ℕ → Option Hold) (sys : System) (t : ℕ)
    (hold : Option Hold) : Prop where
  locks : LocksHeld sys.caches (Sum.elim (Function.update (sys.holds cl) t hold) others)
  dirty : ∀ u, u ≠ t → ∀ held, sys.holds cl u = some held → lineState held.ts = .uniqueDirty

theorem LocksSound.but (h : LocksSound cl others sys) {hold : Option Hold}
    (hhold : sys.holds cl t = hold) : LocksBut cl others sys t hold where
  locks := by
    rw [← hhold, Function.update_eq_self]
    exact h.locks
  dirty := fun u _ held => h.dirty u held

namespace LocksBut

variable {hold : Option Hold}

theorem holds_of_threads {thread : Thread}
    (hthreads : sys'.threads = Function.update sys.threads t thread) :
    sys'.holds cl = Function.update (sys.holds cl) t (thread.hold cl) := by
  funext u
  rw [holds, hthreads]
  by_cases hu : u = t
  · rw [hu, Function.update_self, Function.update_self]
  · rw [Function.update_of_ne hu, Function.update_of_ne hu, holds]

/-- What thread `t` is said to do meanwhile does not matter. -/
theorem of_threads (h : LocksBut cl others sys t hold) {thread : Thread}
    (hcaches : sys'.caches = sys.caches)
    (hthreads : sys'.threads = Function.update sys.threads t thread) :
    LocksBut cl others sys' t hold where
  locks := by
    rw [hcaches, holds_of_threads hthreads, Function.update_idem]
    exact h.locks
  dirty := by
    intro u hu held hheld
    rw [holds_of_threads hthreads, Function.update_of_ne hu] at hheld
    exact h.dirty u hu held hheld

/-- Thread `t` is suspended, and says what it holds. -/
theorem settle (h : LocksBut cl others sys t hold) {thread : Thread}
    (hcaches : sys'.caches = sys.caches)
    (hthreads : sys'.threads = Function.update sys.threads t thread)
    (hhold : thread.hold cl = hold)
    (hdirty : ∀ held, hold = some held → lineState held.ts = .uniqueDirty) :
    LocksSound cl others sys' where
  locks := by
    rw [hcaches, holds_of_threads hthreads, hhold]
    exact h.locks
  dirty := by
    intro u held hheld
    rw [holds_of_threads hthreads] at hheld
    by_cases hu : u = t
    · rw [hu, Function.update_self, hhold] at hheld
      exact hdirty held hheld
    · rw [Function.update_of_ne hu] at hheld
      exact h.dirty u hu held hheld

/-- Thread `t` is suspended and holds nothing. -/
theorem settle_none (h : LocksBut cl others sys t none) {thread : Thread}
    (hcaches : sys'.caches = sys.caches)
    (hthreads : sys'.threads = Function.update sys.threads t thread)
    (hhold : thread.hold cl = none) : LocksSound cl others sys' :=
  h.settle hcaches hthreads hhold fun _ hsome => by cases hsome

theorem setPhase (h : LocksBut cl others sys t hold) (phase : Phase) :
    LocksBut cl others (sys.setPhase t b phase) t hold :=
  h.of_threads rfl rfl

variable {cache' : Ccache}

theorem setCache (h : LocksBut cl others sys t hold)
    (hsame : Ccache.NoNewLocks (sys.caches b) cache') :
    LocksBut cl others (sys.setCache b cache') t hold where
  locks := by
    apply h.locks.noNewLocks
    intro c
    by_cases hc : c = b
    · rw [hc, caches_setCache_self]
      exact hsame
    · rw [caches_setCache_of_ne sys hc]
      exact .refl _
  dirty := h.dirty

variable {i k : ℕ} {ts status : Word64}

theorem acquire (h : LocksBut cl others sys t none) (hlocked : locked ts = true)
    (hstores : Ccache.Stores (sys.caches b) cache' i k ts) :
    LocksBut cl others (sys.setCache b cache') t (some ⟨b, i, k, ts⟩) where
  locks := by
    have hnone : Sum.elim (Function.update (sys.holds cl) t none) others (.inl t) = none :=
      Function.update_self _ _ _
    have hacquire := h.locks.acquire hnone hlocked hstores
    rwa [Sum.update_elim_inl, Function.update_idem] at hacquire
  dirty := h.dirty

theorem release (h : LocksBut cl others sys t (some ⟨b, i, k, ts⟩))
    (hunlocked : locked status = false)
    (hstores : Ccache.Stores (sys.caches b) cache' i k status) :
    LocksBut cl others (sys.setCache b cache') t none where
  locks := by
    have hhold : Sum.elim (Function.update (sys.holds cl) t (some ⟨b, i, k, ts⟩)) others
        (.inl t) = some ⟨b, i, k, ts⟩ := Function.update_self _ _ _
    have hrelease := h.locks.release hhold hunlocked hstores
    rwa [Sum.update_elim_inl, Function.update_idem] at hrelease
  dirty := h.dirty

end LocksBut

/-! ## What runs between two suspensions -/

variable {req : Request} {ttype : Transaction} {upgrade : ℕ × Word64}

theorem locksSound_startSnoop (h : LocksBut cl others sys t none)
    (hstart : sys.startSnoop cl t b req ttype upgrade = some sys') : LocksSound cl others sys' := by
  unfold startSnoop at hstart
  split at hstart
  case isTrue => cases hstart
  case isFalse =>
    obtain rfl := Option.some.inj hstart
    exact h.settle_none rfl rfl rfl

theorem locksSound_startFetch (h : LocksBut cl others sys t none)
    (hstart : sys.startFetch cl t b req ttype = some sys') : LocksSound cl others sys' := by
  unfold startFetch at hstart
  split at hstart
  · exact locksSound_startSnoop h hstart
  · obtain rfl := Option.some.inj hstart
    exact h.settle_none rfl rfl rfl

theorem locksSound_startEvict (h : LocksBut cl others sys t none)
    (hstart : sys.startEvict cl t b req = some sys') : LocksSound cl others sys' := by
  unfold startEvict at hstart
  split at hstart
  · exact locksSound_startSnoop h hstart
  · obtain rfl := Option.some.inj hstart
    exact h.settle_none rfl rfl rfl

/-- `locked_op` locks the line it has found, and keeps the lock while the line is
written back. -/
theorem locksSound_startLocked (h : LocksBut cl others sys t none)
    (hstart : sys.startLocked cl t b req = some sys') : LocksSound cl others sys' := by
  unfold startLocked at hstart
  dsimp only at hstart
  split at hstart
  · exact locksSound_startEvict h hstart
  · rename_i i _
    split at hstart
    case isFalse => cases hstart
    case isTrue hsuccess =>
      have hunlocked := acquirets_same_success hsuccess
      rw [acquirets_same_of_unlocked hunlocked] at hstart
      have hheld := h.acquire (locked_or_one _)
        (Ccache.stores_setStatus (sys.caches b) i ((cl.geometry b).index req.addr)
          (((sys.caches b).mWays i).mStatus ((cl.geometry b).index req.addr) ||| 1))
      split at hstart
      case isTrue hdirty =>
        obtain rfl := Option.some.inj hstart
        refine hheld.settle rfl rfl rfl ?_
        intro held hsome
        obtain rfl := Option.some.inj hsome
        exact (lineState_or_one hunlocked).trans hdirty
      case isFalse =>
        obtain ⟨released, hrelease, hstart⟩ := Option.bind_eq_some_iff.mp hstart
        obtain ⟨-, status, hstores, hunlocked'⟩ := Ccache.stores_releaseInvalid hrelease
        have hsame : (sys.setCache b ((sys.caches b).setStatus i
            ((cl.geometry b).index req.addr) (((sys.caches b).mWays i).mStatus
              ((cl.geometry b).index req.addr) ||| 1))).setCache b released =
            sys.setCache b released := by
          simp [System.setCache]
        refine locksSound_startEvict ?_ hstart
        rw [← hsame]
        refine hheld.release hunlocked' ?_
        rw [caches_setCache_self]
        exact hstores

theorem locksSound_startRead (h : LocksBut cl others sys t none)
    (hstart : sys.startRead cl t b req = some sys') : LocksSound cl others sys' := by
  unfold startRead at hstart
  dsimp only at hstart
  split at hstart
  · exact locksSound_startFetch h hstart
  · obtain ⟨touched, htouch, rfl⟩ := Option.map_eq_some_iff.mp hstart
    have hsame := Ccache.noNewLocks_touch (Option.join_eq_some_iff.mp htouch)
    exact (h.setCache hsame).settle_none rfl rfl rfl

theorem locksSound_startWrite (h : LocksBut cl others sys t none)
    (hstart : sys.startWrite cl t b req = some sys') : LocksSound cl others sys' := by
  have hwarm : ∀ {i filled ts update answer},
      (((sys.caches b).warmWrite (cl.geometry b) i filled ts update).join.map fun written =>
        (sys.setCache b written).setPhase t b (.done filled answer)) = some sys' →
      LocksSound cl others sys' := by
    intro i filled ts update answer hwrite
    obtain ⟨written, hwritten, rfl⟩ := Option.map_eq_some_iff.mp hwrite
    have hsame := Ccache.noNewLocks_warmWrite (Option.join_eq_some_iff.mp hwritten)
    exact (h.setCache hsame).settle_none rfl rfl rfl
  unfold startWrite at hstart
  dsimp only at hstart
  split at hstart
  · cases hstart
  · split at hstart
    · exact locksSound_startFetch h hstart
    · split at hstart
      · exact hwarm hstart
      · exact hwarm hstart
      · split at hstart
        · exact locksSound_startSnoop h hstart
        · cases hstart
      · cases hstart

theorem locksSound_start (h : LocksBut cl others sys t none)
    (hstart : sys.start cl t b req = some sys') : LocksSound cl others sys' := by
  unfold start at hstart
  split at hstart
  · exact locksSound_startLocked h hstart
  · split at hstart
    · obtain rfl := Option.some.inj hstart
      exact h.settle_none rfl rfl rfl
    · split at hstart
      · exact locksSound_startWrite h hstart
      · exact locksSound_startRead h hstart

theorem locksSound_coldWritten {returned : Bool} (h : LocksBut cl others sys t none)
    (hwritten : sys.coldWritten cl t b req returned = some sys') : LocksSound cl others sys' := by
  unfold coldWritten at hwritten
  split at hwritten
  · obtain rfl := Option.some.inj hwritten
    exact h.settle_none rfl rfl rfl
  · exact locksSound_start h hwritten

/-- The end of `insert` gives the column back. -/
theorem locksSound_finishFetch {cline : Buffer} {news : LineState} {i : ℕ} {ts : Word64}
    {returned : Bool}
    (h : LocksBut cl others sys t (some ⟨b, i, (cl.geometry b).index req.addr, ts⟩))
    (hfinish : sys.finishFetch cl t b req cline news i ts returned = some sys') :
    LocksSound cl others sys' := by
  unfold finishFetch at hfinish
  dsimp only at hfinish
  obtain ⟨⟨inserted, newts⟩, hinsert, hfinish⟩ := Option.bind_eq_some_iff.mp hfinish
  obtain ⟨-, hstores, hunlocked⟩ := Ccache.stores_finishInsert hinsert
  have hgiven := (h.release hunlocked hstores).setPhase (b := b) .idle
  dsimp only at hfinish
  split at hfinish
  · exact locksSound_coldWritten hgiven hfinish
  · obtain ⟨touched, htouch, rfl⟩ := Option.map_eq_some_iff.mp hfinish
    have hsame := Ccache.noNewLocks_touch (Option.join_eq_some_iff.mp htouch)
    have htouched : Ccache.NoNewLocks
        (((sys.setCache b inserted).setPhase t b .idle).caches b) touched := by
      rw [caches_setPhase, caches_setCache_self]
      exact hsame
    exact (hgiven.setCache htouched).settle_none rfl rfl rfl

/-- `insert` locks its column, and keeps the lock while a dirty victim is written
back. -/
theorem locksSound_fetched {data : Buffer} {state : LineState} {returned : Bool}
    (h : LocksBut cl others sys t none)
    (hfetched : sys.fetched cl t b req data state returned = some sys') :
    LocksSound cl others sys' := by
  unfold fetched at hfetched
  dsimp only at hfetched
  rcases Ccache.stores_beginInsert (cl.geometry b) (sys.caches b)
      ((cl.geometry b).index req.addr) with
    ⟨hnone, hsame⟩ | ⟨i, ts, hsome, -, hlocked, hstores⟩
  · rw [hnone] at hfetched
    dsimp only at hfetched
    have hmoved := (((h.setPhase (b := b) (.arriving req (arrivedLine (cl.geometry b) req data)
      (arrivedState req state))).setCache hsame).setPhase (b := b) .idle)
    split at hfetched
    · exact locksSound_coldWritten hmoved hfetched
    · exact locksSound_start hmoved hfetched
  · rw [hsome] at hfetched
    dsimp only at hfetched
    have hheld := (h.setPhase (b := b) (.arriving req (arrivedLine (cl.geometry b) req data)
      (arrivedState req state))).acquire hlocked hstores
    split at hfetched
    · rename_i write hvictim
      obtain rfl := Option.some.inj hfetched
      refine hheld.settle rfl rfl rfl ?_
      intro held hsome'
      obtain rfl := Option.some.inj hsome'
      unfold Ccache.victim at hvictim
      dsimp only at hvictim
      split at hvictim
      case isTrue hdirty => exact hdirty.1
      case isFalse => cases hvictim
    · exact locksSound_finishFetch hheld hfetched

theorem locksSound_upgraded (h : LocksBut cl others sys t none)
    (hupgraded : sys.upgraded cl t b req upgrade = some sys') : LocksSound cl others sys' := by
  unfold upgraded at hupgraded
  dsimp only at hupgraded
  split at hupgraded
  · cases hupgraded
  · exact locksSound_start h hupgraded
  · rename_i written hwritten
    obtain rfl := Option.some.inj hupgraded
    exact (h.setCache (Ccache.noNewLocks_warmWrite hwritten)).settle_none rfl rfl rfl

theorem locksSound_snooped {replies : ℕ → Reply} {garbage : Buffer} {returned : Bool}
    (h : LocksBut cl others sys t none)
    (hsnooped : sys.snooped cl t b req ttype upgrade replies garbage returned = some sys') :
    LocksSound cl others sys' := by
  have hpass : ∀ {phase : Phase}, Thread.hold cl ⟨b, phase⟩ = none →
      some (sys.setPhase t b phase) = some sys' → LocksSound cl others sys' := by
    intro phase hhold heq
    obtain rfl := Option.some.inj heq
    exact h.settle_none rfl rfl hhold
  unfold snooped at hsnooped
  dsimp only at hsnooped
  split at hsnooped
  · exact locksSound_upgraded h hsnooped
  · split at hsnooped
    · exact hpass rfl hsnooped
    · exact hpass rfl hsnooped
  all_goals
    split at hsnooped
    · split at hsnooped
      · exact locksSound_fetched h hsnooped
      · exact hpass rfl hsnooped
    · exact locksSound_fetched h hsnooped
    · exact locksSound_fetched h hsnooped
    · exact hpass rfl hsnooped
    · cases hsnooped

theorem noNewLocks_answerSnoop {j lineAddr : ℕ} {answer : Ccache × Reply}
    (hanswer : sys.answerSnoop cl j ttype lineAddr = some answer) :
    Ccache.NoNewLocks (sys.caches j) answer.1 := by
  unfold answerSnoop at hanswer
  dsimp only at hanswer
  split at hanswer
  · exact Ccache.noNewLocks_snoopMakeInvalid hanswer
  · split at hanswer
    · cases hanswer
    · exact Ccache.noNewLocks_snoopLine hanswer

/-- A request keeps the locks sound where it starts. -/
theorem LocksSound.start (h : LocksSound cl others sys)
    (hstep : sys.step cl (.start t b req) = some sys') : LocksSound cl others sys' := by
  unfold System.step at hstep
  dsimp only at hstep
  have hidle : sys.holds cl t = none → (sys.setPhase t b .idle).start cl t b req = some sys' →
      LocksSound cl others sys' :=
    fun hhold hstart => locksSound_start ((h.but hhold).setPhase .idle) hstart
  cases hphase : (sys.threads t).phase with
  | idle | done =>
      rw [hphase] at hstep
      exact hidle (by simp only [holds, Thread.hold, hphase]) hstep
  | _ =>
      rw [hphase] at hstep
      cases hstep

/-- An answer to a snoop keeps the locks sound. -/
theorem LocksSound.reply (h : LocksSound cl others sys) {j : ℕ}
    (hstep : sys.step cl (.reply t j) = some sys') : LocksSound cl others sys' := by
  unfold System.step at hstep
  dsimp only at hstep
  cases hphase : (sys.threads t).phase with
  | snooping req ttype upgrade pending notified replies =>
      rw [hphase] at hstep
      dsimp only at hstep
      split at hstep
      case isFalse => cases hstep
      case isTrue =>
        obtain ⟨answer, hanswer, rfl⟩ := Option.map_eq_some_iff.mp hstep
        have hbut : LocksBut cl others sys t none :=
          h.but (by simp only [holds, Thread.hold, hphase])
        exact (hbut.setCache (noNewLocks_answerSnoop hanswer)).settle_none rfl rfl rfl
  | _ =>
      rw [hphase] at hstep
      cases hstep

/-- So does what follows the answers. -/
theorem LocksSound.wake (h : LocksSound cl others sys) {garbage : Buffer} {returned : Bool}
    (hstep : sys.step cl (.wake t garbage returned) = some sys') : LocksSound cl others sys' := by
  unfold System.step at hstep
  dsimp only at hstep
  cases hphase : (sys.threads t).phase with
  | snooping req ttype upgrade pending notified replies =>
      rw [hphase] at hstep
      cases notified with
      | false => cases hstep
      | true =>
          have hbut : LocksBut cl others sys t none :=
            h.but (by simp only [holds, Thread.hold, hphase])
          dsimp only at hstep
          refine locksSound_snooped ?_ hstep
          exact hbut.of_threads rfl rfl
  | _ =>
      rw [hphase] at hstep
      cases hstep

/-- An access of the storage changes no lock. -/
theorem LocksSound.serve (h : LocksSound cl others sys)
    (hstep : sys.step cl (.serve t) = some sys') : LocksSound cl others sys' := by
  -- the storage is accessed; the thread goes on holding what it held
  have hsame : ∀ {next : System} {phase : Phase},
      next.caches = sys.caches →
      next.threads = Function.update sys.threads t ⟨(sys.threads t).cache, phase⟩ →
      Thread.hold cl ⟨(sys.threads t).cache, phase⟩ = sys.holds cl t →
      LocksSound cl others next := by
    intro next phase hcaches hthreads hhold
    exact (h.but (t := t) rfl).settle hcaches hthreads hhold (h.dirty t)
  unfold System.step at hstep
  dsimp only at hstep
  split at hstep
  all_goals first
    | cases hstep; done
    | rename_i hphase
      obtain rfl := Option.some.inj hstep
      exact hsame rfl rfl (by simp only [holds, Thread.hold, hphase])

/-- A request that goes on after the storage keeps the locks sound. -/
theorem LocksSound.resume (h : LocksSound cl others sys) {returned : Bool}
    (hstep : sys.step cl (.resume t returned) = some sys') : LocksSound cl others sys' := by
  have hnone : sys.holds cl t = none → LocksBut cl others sys t none := fun hhold => h.but hhold
  unfold System.step at hstep
  dsimp only at hstep
  split at hstep
  · rename_i hphase
    obtain rfl := Option.some.inj hstep
    exact (hnone (by simp only [holds, Thread.hold, hphase])).settle_none rfl rfl rfl
  · rename_i hphase
    have hbut := hnone (by simp only [holds, Thread.hold, hphase])
    exact locksSound_fetched (hbut.setPhase .idle) hstep
  · rename_i hphase
    have hbut := hnone (by simp only [holds, Thread.hold, hphase])
    exact locksSound_fetched (hbut.setPhase .idle) hstep
  · rename_i hphase
    refine locksSound_finishFetch (h.but ?_) hstep
    simp only [holds, Thread.hold, hphase]
  · rename_i req i ts write hphase
    obtain ⟨released, hrelease, hstart⟩ := Option.bind_eq_some_iff.mp hstep
    obtain ⟨-, status, hstores, hunlocked⟩ := Ccache.stores_releaseInvalid hrelease
    have hbut : LocksBut cl others sys t (some ⟨(sys.threads t).cache, i,
        (cl.geometry (sys.threads t).cache).index req.addr, ts⟩) :=
      h.but (by simp only [holds, Thread.hold, hphase])
    exact locksSound_startEvict ((hbut.setPhase .idle).release hunlocked hstores) hstart
  · rename_i hphase
    obtain rfl := Option.some.inj hstep
    exact (hnone (by simp only [holds, Thread.hold, hphase])).settle_none rfl rfl rfl
  · cases hstep

/-- A step of the cluster keeps the locks sound. -/
theorem LocksSound.step (h : LocksSound cl others sys) {action : Action}
    (hstep : sys.step cl action = some sys') : LocksSound cl others sys' := by
  cases action with
  | start => exact h.start hstep
  | reply => exact h.reply hstep
  | wake => exact h.wake hstep
  | serve => exact h.serve hstep
  | resume => exact h.resume hstep

theorem LocksSound.powerOn (cl : Cluster) (memory : Memory) :
    LocksSound cl (fun _ => none) (System.powerOn memory) where
  locks :=
    { locked := fun o _ hhold => by rcases o with o | o <;> cases hhold
      holder := fun b i k hlocked => by
        have hzero : locked 0 = false := by decide
        rw [show (System.powerOn memory).caches b = .fresh from rfl] at hlocked
        exact absurd (hzero.symm.trans hlocked) Bool.false_ne_true }
  dirty := fun _ _ hhold => by cases hhold

end System

end Prazor.Caches
