import Prazor.Caches.Runs

/-!
# Every action is a chain of pieces

The functions of the cluster are taken apart, one at a time, into the pieces of
`Run`.  Only here are they unfolded.
-/

namespace Prazor.Caches

open Prazor.Bytes

namespace System

variable {cl : Cluster} {Asked : Request → Prop} {t b : ℕ} {sys sys' : System} {req : Request}

/-! ## The beginning of a request -/

theorem startFetch_eq (hsnooped : cl.snooped b = true) (ttype : Transaction) :
    sys.startFetch cl t b req ttype = sys.startSnoop cl t b req ttype (0, 0) :=
  if_pos hsnooped

theorem bypasses_startSnoop {upgrade : ℕ × Word64}
    (hstart : sys.startSnoop cl t b req .evict upgrade = some sys') :
    (sys'.threads t).phase.bypasses = true := by
  unfold startSnoop at hstart
  split at hstart
  case isTrue => cases hstart
  case isFalse =>
    obtain rfl := Option.some.inj hstart
    rw [threads_setPhase_self]
    rfl

theorem startEvict_eq (hsnooped : cl.snooped b = true) :
    sys.startEvict cl t b req = sys.startSnoop cl t b req .evict (0, 0) :=
  if_pos hsnooped

theorem startRead_runs (hphase : (sys.threads t).phase = .idle)
    (hplain : Plain Asked req.addr req) (hread : req.write = false)
    (hsnooped : cl.snooped b = true) (hroom : (sys.caches b).Room 1)
    (hstart : sys.startRead cl t b req = some sys') : Runs cl Asked t b req.addr sys sys' := by
  unfold startRead at hstart
  dsimp only at hstart
  split at hstart
  case h_1 hlookup =>
    rw [startFetch_eq hsnooped] at hstart
    refine .single (.fetch hphase hplain (Ccache.lookup_eq_none_iff.mp hlookup) ?_ ?_ hstart)
    · rw [hread]
      rfl
    · intro hwrite
      rw [hread] at hwrite
      cases hwrite
  case h_2 i hlookup =>
    obtain ⟨touched, htouch, rfl⟩ := Option.map_eq_some_iff.mp hstart
    rw [Option.join_eq_some_iff] at htouch
    obtain ⟨hlowers, hlru⟩ := Ccache.touch_spec (g := cl.geometry b) hroom htouch
    have hhit := Run.readHit hphase hplain hread hlookup
    rw [Ccache.bytesOf_line] at hhit
    refine Relation.ReflTransGen.head hhit (.single ?_)
    exact Run.lower hlowers fun h => hlru ▸ h

/-- A write into a line that is present and not shared. -/
theorem writeHit_runs {i : ℕ} {ts : Word64} {update : Bool}
    (hphase : (sys.threads t).phase = .idle) (hplain : Plain Asked req.addr req)
    (hwrite : req.write = true) (hlanes : req.benable.isSome → req.length = req.blength)
    (hroom : (sys.caches b).Room 1)
    (hlookup : (sys.caches b).lookup (cl.geometry b) ((cl.geometry b).index req.addr)
      ((cl.geometry b).tag req.addr) = some i)
    (hstate : lineState ((sys.caches b).word i
        ((cl.geometry b).line req.addr % (cl.geometry b).columns)) = .uniqueClean ∧
          update = true ∨
      lineState ((sys.caches b).word i
        ((cl.geometry b).line req.addr % (cl.geometry b).columns)) = .uniqueDirty)
    (hwritten : (((sys.caches b).warmWrite (cl.geometry b) i
        ((sys.caches b).fillDisabled (cl.geometry b) i req) ts update).join.map
      fun written => (sys.setCache b written).setPhase t b
        (writeDone (cl.geometry b) (sys.caches b) i req)) = some sys') :
    Runs cl Asked t b req.addr sys sys' := by
  obtain ⟨written, hwarm, rfl⟩ := Option.map_eq_some_iff.mp hwritten
  rw [Option.join_eq_some_iff] at hwarm
  have hfound := Ccache.found_of_lookup hlookup
  rw [← hfound.state] at hstate
  -- filling in the disabled bytes leaves the address alone
  have hvalid : (sys.caches b).stateOf (cl.geometry b) i ((cl.geometry b).line
      ((sys.caches b).fillDisabled (cl.geometry b) i req).addr) ≠ .invalid := hfound.valid
  obtain ⟨hdirties, hlru, -⟩ := Ccache.warmWrite_spec hfound.way hroom hvalid
    (hstate.imp_left And.right) hwarm
  exact .single (.writeHit hphase hplain hwrite hlanes hlookup (hstate.imp_left And.left)
    hdirties hlru)

theorem startWrite_runs (hphase : (sys.threads t).phase = .idle)
    (hplain : Plain Asked req.addr req) (hwrite : req.write = true)
    (hsnooped : cl.snooped b = true) (hroom : (sys.caches b).Room 1)
    (hstart : sys.startWrite cl t b req = some sys') : Runs cl Asked t b req.addr sys sys' := by
  unfold startWrite at hstart
  dsimp only at hstart
  split at hstart
  case isTrue => cases hstart
  case isFalse hassert =>
    have hlanes : req.benable.isSome → req.length = req.blength :=
      fun hsome => not_not.mp fun hne => hassert ⟨hsome, hne⟩
    split at hstart
    case h_1 hlookup =>
      rw [startFetch_eq hsnooped] at hstart
      refine .single (.fetch hphase hplain (Ccache.lookup_eq_none_iff.mp hlookup) ?_
        (fun _ => hlanes) hstart)
      rw [if_pos hwrite]
    case h_2 i hlookup =>
      have hword := Ccache.word_index (sys.caches b) (cl.geometry b) i req.addr
      rw [← hword] at hstart
      split at hstart
      case h_1 hdirty =>
        exact writeHit_runs hphase hplain hwrite hlanes hroom hlookup (.inr hdirty) hstart
      case h_2 hclean =>
        exact writeHit_runs hphase hplain hwrite hlanes hroom hlookup (.inl ⟨hclean, rfl⟩)
          hstart
      case h_3 hshared =>
        refine .single (.makeInvalid hphase hplain hwrite hlanes hlookup ?_ hstart)
        rw [(Ccache.found_of_lookup hlookup).state, hshared]
      case h_4 => cases hstart

theorem startLocked_run (hasked : Asked req)
    (hphase : sys.threads t = { cache := b, phase := .idle })
    (hlinked : req.linked.isSome) (hsnooped : cl.snooped b = true)
    (hroom : (sys.caches b).Room 1) (hstart : sys.startLocked cl t b req = some sys') :
    Run cl Asked t b req.addr sys sys' ∧ (sys'.threads t).phase.bypasses = true := by
  have hidle : (sys.threads t).phase = .idle := congrArg Thread.phase hphase
  have hself : sys.setPhase t b .idle = sys := by
    rw [setPhase, ← hphase, Function.update_eq_self]
  unfold startLocked at hstart
  dsimp only at hstart
  split at hstart
  case h_1 hlookup =>
    rw [startEvict_eq hsnooped] at hstart
    exact ⟨.evictMiss hasked hidle rfl hlinked (Ccache.lookup_eq_none_iff.mp hlookup) hstart,
      bypasses_startSnoop hstart⟩
  case h_2 i hlookup =>
    have hfound := Ccache.found_of_lookup hlookup
    have hword := Ccache.word_index (sys.caches b) (cl.geometry b) i req.addr
    have hindex : (cl.geometry b).index req.addr =
        (cl.geometry b).line req.addr % (cl.geometry b).columns := (cl.geometry b).index_eq _
    rw [← hword] at hstart
    split at hstart
    case isFalse => cases hstart
    case isTrue hsuccess =>
      have hunlocked := acquirets_same_success hsuccess
      rw [acquirets_same_of_unlocked hunlocked] at hstart
      split at hstart
      case isTrue hdirty =>
        cases hstart
        rw [← hfound.state] at hdirty
        rw [← hindex] at hunlocked ⊢
        rw [← Ccache.bytesOf_line]
        exact ⟨.flush hasked hidle rfl hlinked hlookup hdirty hunlocked, by
          rw [threads_setPhase_self]; rfl⟩
      case isFalse hclean =>
        obtain ⟨released, hrelease, hevict⟩ := Option.bind_eq_some_iff.mp hstart
        rw [startEvict_eq hsnooped] at hevict
        dsimp only at hrelease
        rw [← hindex] at hunlocked hrelease
        obtain ⟨hlowers, hlru, hreleased⟩ :=
          Ccache.releaseInvalid_lock (g := cl.geometry b) hroom hunlocked hrelease
        have hgone : released.stateOf (cl.geometry b) i
            ((cl.geometry b).line req.addr) = .invalid := by
          rw [hreleased, hindex, Ccache.stateOf_setStatus_self, lineState_incts, ite_self]
        rw [← hfound.state] at hclean
        refine ⟨.evictHit hasked (.inl hidle) rfl (.inl hlinked) (fun _ => ⟨hfound, hclean⟩)
          hlowers hlru hgone ?_, bypasses_startSnoop hevict⟩
        rwa [hself]

/-- A linked request, or one of the uncached address space, goes past the caches. -/
theorem start_run (hasked : Asked req)
    (hphase : sys.threads t = { cache := b, phase := .idle })
    (hpast : req.linked.isSome ∨ uncached req.addr = true)
    (hsnooped : cl.snooped b = true) (hroom : (sys.caches b).Room 1)
    (hstart : sys.start cl t b req = some sys') :
    Run cl Asked t b req.addr sys sys' ∧ (sys'.threads t).phase.bypasses = true := by
  unfold start at hstart
  split at hstart
  case isTrue hlinked => exact startLocked_run hasked hphase hlinked hsnooped hroom hstart
  case isFalse hunlinked =>
    have huncached := hpast.resolve_left hunlinked
    rw [if_pos huncached] at hstart
    obtain rfl := Option.some.inj hstart
    refine ⟨.forward hasked (congrArg Thread.phase hphase) rfl (by simpa using hunlinked)
      huncached, ?_⟩
    rw [threads_setPhase_self]
    rfl

theorem start_runs (hasked : Asked req)
    (hphase : sys.threads t = { cache := b, phase := .idle })
    (hsnooped : cl.snooped b = true) (hroom : (sys.caches b).Room 1)
    (hstart : sys.start cl t b req = some sys') : Runs cl Asked t b req.addr sys sys' := by
  by_cases hpast : req.linked.isSome ∨ uncached req.addr = true
  · exact .single (start_run hasked hphase hpast hsnooped hroom hstart).1
  · obtain ⟨hunlinked, hcached⟩ := not_or.mp hpast
    have hidle : (sys.threads t).phase = .idle := congrArg Thread.phase hphase
    have hplain : Plain Asked req.addr req :=
      ⟨hasked, rfl, by simpa using hunlinked, by simpa using hcached⟩
    unfold start at hstart
    rw [if_neg hunlinked, if_neg hcached] at hstart
    split at hstart
    case isTrue hwrite => exact startWrite_runs hidle hplain hwrite hsnooped hroom hstart
    case isFalse hread =>
      exact startRead_runs hidle hplain (by simpa using hread) hsnooped hroom hstart

/-! ## The end of a fetch -/

theorem finishFetch_runs {cline : Buffer} {news : LineState} {i : ℕ} {ts : Word64}
    {returned : Bool} (hasked : Asked req) (hi : i < (cl.geometry b).ways)
    (hphase : ((sys.threads t).phase = .arriving req cline news ∧
        (sys.caches b).victim (cl.geometry b) i ((cl.geometry b).index req.addr)
          ((cl.geometry b).tag req.addr) (lineState ((sys.caches b).word i
            ((cl.geometry b).index req.addr))) = none) ∨
      ∃ write, (sys.threads t).phase = .evicting req cline news i ts write true)
    (hsnooped : cl.snooped b = true) (hroom : (sys.caches b).Room 2)
    (hfinish : sys.finishFetch cl t b req cline news i ts returned = some sys') :
    Runs cl Asked t b req.addr sys sys' := by
  unfold finishFetch at hfinish
  obtain ⟨⟨cache', newts⟩, hinsert, hrest⟩ := Option.bind_eq_some_iff.mp hfinish
  dsimp only at hrest
  rw [Geometry.index_eq, Geometry.tag_eq] at hinsert
  obtain ⟨hinserts, hlru, hts, -⟩ :=
    Ccache.finishInsert_spec hi (hroom.mono (by omega)) hinsert
  have hroom' : cache'.Room 1 := hroom.of_le hinserts.room
  rw [← Geometry.index_eq] at hts
  have hphase' := hphase.imp_right fun ⟨write, hevicting⟩ =>
    (⟨ts, write, hevicting, hts⟩ : ∃ ts write, (sys.threads t).phase =
      Phase.evicting req cline news i ts write true ∧
        (sys.caches b).word i ((cl.geometry b).index req.addr) = ts)
  have hrun : ∀ {p : Phase}, (req.write = true ∧ p = .idle) ∨
      (req.write = true ∧ p = .done req { data := req.data, ok := true }) ∨
      (req.write = false ∧ p = readDone (cl.geometry b) req cline) →
      Run cl Asked t b req.addr sys ((sys.setCache b cache').setPhase t b p) :=
    fun hnext => Run.insert hphase' rfl hinserts hlru hnext
  split at hrest
  case isTrue hwrite =>
    unfold coldWritten at hrest
    split at hrest
    case isTrue =>
      rw [setPhase_setPhase, Option.some.injEq] at hrest
      exact hrest ▸ .single (hrun (.inr (.inl ⟨hwrite, rfl⟩)))
    case isFalse =>
      refine .head (hrun (.inl ⟨hwrite, rfl⟩)) (start_runs hasked ?_ hsnooped ?_ hrest)
      · rw [threads_setPhase_self]
      · rw [caches_setPhase, caches_setCache_self]
        exact hroom'
  case isFalse hread =>
    obtain ⟨touched, htouch, rfl⟩ := Option.map_eq_some_iff.mp hrest
    rw [Option.join_eq_some_iff] at htouch
    obtain ⟨hlowers, hlru'⟩ := Ccache.touch_spec (g := cl.geometry b) hroom' htouch
    refine .head (hrun (.inr (.inr ⟨by simpa using hread, rfl⟩))) (.single ?_)
    rw [setCache_setPhase, setPhase_setPhase, ← setCache_setPhase]
    refine Run.lower ?_ fun h => ?_
    · rwa [caches_setCache_self]
    · rw [caches_setCache_self] at h
      rwa [hlru']

/-- A line that has arrived is inserted, or written over a victim first, or the
request starts again because the column is locked. -/
theorem fetched_runs {data : Buffer} {state : LineState} {returned : Bool}
    (hasked : Asked req) (hsnooped : cl.snooped b = true) (hroom : (sys.caches b).Room 3)
    (hlru : (sys.caches b).lru < (cl.geometry b).ways)
    (hfetched : sys.fetched cl t b req data state returned = some sys') :
    Runs cl Asked t b req.addr (sys.setPhase t b (.arriving req
      (arrivedLine (cl.geometry b) req data) (arrivedState req state))) sys' := by
  unfold fetched at hfetched
  dsimp only at hfetched
  generalize hcline : arrivedLine (cl.geometry b) req data = cline at hfetched ⊢
  generalize hnews : arrivedState req state = news at hfetched ⊢
  obtain ⟨hlowers, hlru', hlock⟩ := Ccache.beginInsert_spec (g := cl.geometry b)
    (k := (cl.geometry b).index req.addr) hlru
  have hroom' : ((sys.caches b).beginInsert (cl.geometry b)
      ((cl.geometry b).index req.addr)).1.Room 2 := hroom.of_le hlowers.room
  have hbegin : ∀ p : Phase, Run cl Asked t b req.addr (sys.setPhase t b p)
      ((sys.setPhase t b p).setCache b
        ((sys.caches b).beginInsert (cl.geometry b) ((cl.geometry b).index req.addr)).1) :=
    fun p => Run.lower hlowers fun _ => hlru'
  cases hbegun : ((sys.caches b).beginInsert (cl.geometry b)
      ((cl.geometry b).index req.addr)).2 with
  | none =>
      rw [hbegun] at hfetched
      obtain ⟨i, hi, hlocked⟩ := Ccache.locked_of_beginInsert hlru hbegun
      have habandon : ∀ {p : Phase}, p = .idle ∨
          (req.write = true ∧ p = .done req { data := req.data, ok := true }) →
            Run cl Asked t b req.addr
          (sys.setPhase t b (.arriving req cline news)) (sys.setPhase t b p) := by
        intro p hnext
        rw [← setPhase_setPhase sys t b b (.arriving req cline news) p]
        exact Run.abandon (congrArg Thread.phase (threads_setPhase_self sys t b _))
          ⟨i, hi, hlocked⟩ hnext
      rw [setCache_setPhase, setPhase_setPhase, ← setCache_setPhase] at hfetched
      have hagain : ((sys.setPhase t b .idle).setCache b ((sys.caches b).beginInsert
          (cl.geometry b) ((cl.geometry b).index req.addr)).1).start cl t b req = some sys' →
          Runs cl Asked t b req.addr (sys.setPhase t b (.arriving req cline news)) sys' := by
        intro hstart
        refine .head (habandon (.inl rfl)) (.head (hbegin .idle)
          (start_runs hasked ?_ hsnooped ?_ hstart))
        · rw [threads_setCache, threads_setPhase_self]
        · rw [caches_setCache_self]
          exact hroom'.mono (by omega)
      dsimp only at hfetched
      split at hfetched
      case isFalse => exact hagain hfetched
      case isTrue hwrite =>
        unfold coldWritten at hfetched
        split at hfetched
        case isFalse => exact hagain hfetched
        case isTrue =>
          rw [setCache_setPhase, setPhase_setPhase, ← setCache_setPhase,
            Option.some.injEq] at hfetched
          subst hfetched
          exact .head (habandon (.inr ⟨hwrite, rfl⟩)) (.single (hbegin _))
  | some begun =>
      obtain ⟨i, ts⟩ := begun
      rw [hbegun] at hfetched
      obtain ⟨hi, hunlocked, hts, hcache⟩ := hlock i ts hbegun
      refine .head (hbegin _) ?_
      generalize hcache' : ((sys.caches b).beginInsert (cl.geometry b)
        ((cl.geometry b).index req.addr)).1 = cache' at hfetched hcache hroom' ⊢
      have hword : cache'.word i ((cl.geometry b).index req.addr) = ts := by
        rw [hcache, Ccache.word_setStatus, if_pos ⟨rfl, rfl⟩]
      have hlocked : locked ts = true := by rw [hts, locked_or_one]
      have harriving : (((sys.setPhase t b (.arriving req cline news)).setCache b
          cache').threads t).phase = .arriving req cline news := by
        rw [threads_setCache, threads_setPhase_self]
      have hself : (((sys.setPhase t b (.arriving req cline news)).setCache b
          cache').caches b) = cache' := caches_setCache_self _ _ _
      dsimp only at hfetched
      split at hfetched
      case h_1 write hvictim =>
        obtain rfl := Option.some.inj hfetched
        refine .single (Run.victim harriving hi ?_ hlocked ?_)
        · rw [hself, hword]
        · rw [hself, hvictim]
      case h_2 hvictim =>
        refine finishFetch_runs hasked hi (.inl ⟨harriving, ?_⟩) hsnooped ?_ hfetched
        · rw [hself, hword, hvictim]
        · rw [hself]
          exact hroom'

/-! ## After the answers -/

theorem upgraded_runs {upgrade : ℕ × Word64} {pending : List ℕ} {replies : ℕ → Reply}
    (hasked : ∀ cache i, Asked (Ccache.fillDisabled (cl.geometry b) cache i req))
    (hphase : (sys.threads t).phase =
      .snooping req .makeInvalid upgrade pending true replies)
    (hsnooped : cl.snooped b = true) (hroom : (sys.caches b).Room 1)
    (hway : upgrade.1 < (cl.geometry b).ways)
    (harmed : (sys.caches b).word upgrade.1 ((cl.geometry b).line req.addr %
        (cl.geometry b).columns) = upgrade.2 &&& ~~~1 →
      (sys.caches b).stateOf (cl.geometry b) upgrade.1 ((cl.geometry b).line req.addr) ≠
        .invalid)
    (hupgraded : ((sys.clearEvent b).setPhase t b .idle).upgraded cl t b req upgrade =
      some sys') :
    Runs cl Asked t b req.addr sys sys' := by
  unfold upgraded at hupgraded
  dsimp only [caches_setPhase, caches_clearEvent] at hupgraded
  split at hupgraded
  case h_1 => cases hupgraded
  case h_2 =>
    refine .head (Run.lost hphase) ?_
    have hidle := threads_setPhase_self (sys.clearEvent b) t b .idle
    have hruns := start_runs (hasked (sys.caches b) upgrade.1) hidle hsnooped (by exact hroom)
      hupgraded
    -- filling in the disabled bytes leaves the address alone
    exact hruns
  case h_3 written hwarm =>
    have hword := Ccache.word_of_warmWrite hwarm
    have hvalid : (sys.caches b).stateOf (cl.geometry b) upgrade.1 ((cl.geometry b).line
        ((sys.caches b).fillDisabled (cl.geometry b) upgrade.1 req).addr) ≠ .invalid :=
      harmed hword
    obtain ⟨hdirties, hlru, -⟩ :=
      Ccache.warmWrite_spec hway hroom hvalid (.inl rfl) hwarm
    rw [setCache_setPhase, setPhase_setPhase, Option.some.injEq] at hupgraded
    exact hupgraded ▸ .single (Run.upgrade hphase rfl hword hdirties hlru)

theorem snooped_runs {ttype : Transaction} {upgrade : ℕ × Word64} {pending : List ℕ}
    {replies : ℕ → Reply} {garbage : Buffer} {returned : Bool} (hasked : Asked req)
    (hfilled : ∀ cache i, Asked (Ccache.fillDisabled (cl.geometry b) cache i req))
    (hphase : (sys.threads t).phase = .snooping req ttype upgrade pending true replies)
    (hsnooped : cl.snooped b = true) (hroom : (sys.caches b).Room 3)
    (hlru : (sys.caches b).lru < (cl.geometry b).ways)
    (harmed : ttype = .makeInvalid → upgrade.1 < (cl.geometry b).ways ∧
      ((sys.caches b).word upgrade.1 ((cl.geometry b).line req.addr %
          (cl.geometry b).columns) = upgrade.2 &&& ~~~1 →
        (sys.caches b).stateOf (cl.geometry b) upgrade.1 ((cl.geometry b).line req.addr) ≠
          .invalid))
    (hsnoop : ((sys.clearEvent b).setPhase t b .idle).snooped cl t b req ttype upgrade
      replies garbage returned = some sys') :
    Runs cl Asked t b req.addr sys sys' := by
  have hfetched : ∀ {data state}, ((sys.clearEvent b).setPhase t b .idle).fetched cl t b req
      data state returned = some sys' → Runs cl Asked t b req.addr ((sys.clearEvent b).setPhase t b
        (.arriving req (arrivedLine (cl.geometry b) req data) (arrivedState req state)))
          sys' := by
    intro data state hfetched
    have hruns := fetched_runs hasked hsnooped (by exact hroom) (by exact hlru) hfetched
    rwa [setPhase_setPhase] at hruns
  unfold snooped at hsnoop
  cases hfound : foundReply cl b replies with
  | none =>
      rw [hfound] at hsnoop
      dsimp only [Option.map_none, Option.getD_none] at hsnoop
      cases ttype with
      | makeInvalid =>
          obtain ⟨hway, harmed⟩ := harmed rfl
          exact upgraded_runs hfilled hphase hsnooped (hroom.mono (by omega)) hway harmed hsnoop
      | evict =>
          simp only [setPhase_setPhase, Option.some.injEq] at hsnoop
          exact hsnoop ▸ .single (Run.wakeForward hphase fun j hj => by simp [hfound] at hj)
      | readShared =>
          simp only [reduceCtorEq, if_false, setPhase_setPhase, Option.some.injEq] at hsnoop
          exact hsnoop ▸ .single (Run.wakeMiss hphase (.inl rfl) hfound)
      | readUnique =>
          simp only [reduceCtorEq, if_false, setPhase_setPhase, Option.some.injEq] at hsnoop
          exact hsnoop ▸ .single (Run.wakeMiss hphase (.inr rfl) hfound)
      | makeUnique =>
          exact .head (Run.wakeGarbage garbage hphase hfound) (hfetched hsnoop)
  | some j =>
      rw [hfound] at hsnoop
      dsimp only [Option.map_some, Option.getD_some] at hsnoop
      generalize hstate : (replies j).state = state at hsnoop
      have hvalid : state ≠ .invalid := by
        rw [← hstate]
        simpa using List.find?_some hfound
      have hspill : ttype ≠ .makeInvalid → state = .uniqueDirty →
          some (((sys.clearEvent b).setPhase t b .idle).setPhase t b
            (.spilling req ttype (replies j).data false)) = some sys' →
          Runs cl Asked t b req.addr sys sys' := by
        rintro htype rfl hspilling
        rw [setPhase_setPhase, Option.some.injEq] at hspilling
        exact hspilling ▸ .single (Run.wakeSpill hphase htype ⟨hfound, hstate⟩)
      have harrive : ttype.isFetch = true → state = .uniqueClean ∨ state = .sharedClean →
          ((sys.clearEvent b).setPhase t b .idle).fetched cl t b req (replies j).data
            (foundState ttype) returned = some sys' → Runs cl Asked t b req.addr sys sys' :=
        fun htype hclean h =>
          .head (Run.wakeArrive hphase htype ⟨hfound, hstate⟩ hclean) (hfetched h)
      have hforward : ttype = .evict → state ≠ .uniqueDirty →
          some (((sys.clearEvent b).setPhase t b .idle).setPhase t b
            (.forwarding req none)) = some sys' → Runs cl Asked t b req.addr sys sys' := by
        rintro rfl hdirty hforwarding
        rw [setPhase_setPhase, Option.some.injEq] at hforwarding
        refine hforwarding ▸ .single (Run.wakeForward hphase fun j' hj' => ?_)
        rw [hfound, Option.some.injEq] at hj'
        rwa [← hj', hstate]
      cases ttype with
      | makeInvalid =>
          obtain ⟨hway, harmed⟩ := harmed rfl
          exact upgraded_runs hfilled hphase hsnooped (hroom.mono (by omega)) hway harmed hsnoop
      | evict =>
          cases state with
          | uniqueDirty => exact hspill (by decide) rfl hsnoop
          | invalid | sharedDirty | uniqueClean | sharedClean =>
              exact hforward rfl (by decide) hsnoop
      | readShared | readUnique | makeUnique =>
          cases state with
          | invalid => exact absurd rfl hvalid
          | sharedDirty => cases hsnoop
          | uniqueDirty => exact hspill (by decide) rfl hsnoop
          | uniqueClean => exact harrive rfl (.inl rfl) hsnoop
          | sharedClean => exact harrive rfl (.inr rfl) hsnoop

/-! ## The actions -/

/-- What a thread has to find when it goes on: room for new versions, and the way
it has chosen still in place. -/
structure Ready (cl : Cluster) (sys : System) (t b : ℕ) : Prop where
  cache : (sys.threads t).cache = b
  snooped : cl.snooped b = true
  room : (sys.caches b).Room 3
  lru : (sys.caches b).lru < (cl.geometry b).ways
  upgrade : ∀ req upgrade pending notified replies, (sys.threads t).phase =
      .snooping req .makeInvalid upgrade pending notified replies →
    upgrade.1 < (cl.geometry b).ways ∧
      ((sys.caches b).word upgrade.1 ((cl.geometry b).line req.addr %
          (cl.geometry b).columns) = upgrade.2 &&& ~~~1 →
        (sys.caches b).stateOf (cl.geometry b) upgrade.1 ((cl.geometry b).line req.addr) ≠
          .invalid)
  way : ∀ req cline news i ts write stored, (sys.threads t).phase =
    .evicting req cline news i ts write stored → i < (cl.geometry b).ways

theorem wake_runs {garbage : Buffer} {returned : Bool} (hready : Ready cl sys t b)
    (hasked : (sys.threads t).phase.AsksFor Asked)
    (hfill : ∀ cache i req, Asked req →
      Asked (Ccache.fillDisabled (cl.geometry b) cache i req))
    (hstep : sys.step cl (.wake t garbage returned) = some sys') :
    Runs cl Asked t b (sys.threads t).phase.addr sys sys' := by
  obtain ⟨rfl, hsnooped, hroom, hlru, hupgrade, -⟩ := hready
  simp only [step] at hstep
  split at hstep
  case h_1 req ttype upgrade pending replies hphase =>
    rw [hphase] at hasked ⊢
    refine snooped_runs hasked (fun cache i => hfill cache i req hasked) hphase hsnooped hroom
      hlru ?_ hstep
    rintro rfl
    exact hupgrade _ _ _ _ _ hphase
  case h_2 => cases hstep

theorem serve_runs (hcache : (sys.threads t).cache = b)
    (hstep : sys.step cl (.serve t) = some sys') :
    Runs cl Asked t b (sys.threads t).phase.addr sys sys' := by
  subst hcache
  simp only [step] at hstep
  split at hstep
  case h_1 hphase =>
    obtain rfl := Option.some.inj hstep
    exact .single (Run.serveSpill hphase)
  case h_2 hphase =>
    obtain rfl := Option.some.inj hstep
    exact .single (Run.serveFetch hphase)
  case h_3 hphase =>
    obtain rfl := Option.some.inj hstep
    exact .single (Run.serveVictim hphase)
  case h_4 hphase =>
    obtain rfl := Option.some.inj hstep
    exact .single (Run.serveFlush hphase)
  case h_5 hphase =>
    obtain rfl := Option.some.inj hstep
    exact .single (Run.serveForward hphase)
  case h_6 => cases hstep

theorem resume_runs {returned : Bool} (hready : Ready cl sys t b)
    (hasked : (sys.threads t).phase.AsksFor Asked)
    (hstep : sys.step cl (.resume t returned) = some sys') :
    Runs cl Asked t b (sys.threads t).phase.addr sys sys' := by
  obtain ⟨rfl, hsnooped, hroom, hlru, -, hway⟩ := hready
  simp only [step] at hstep
  split at hstep
  case h_1 hphase =>
    obtain rfl := Option.some.inj hstep
    exact .single (Run.evictSpilled hphase)
  case h_2 req ttype data htype hphase =>
    rw [hphase] at hasked ⊢
    have hruns := fetched_runs hasked hsnooped (by exact hroom) (by exact hlru) hstep
    rw [setPhase_setPhase] at hruns
    exact .head (Run.spilled hphase (by simpa using htype)) hruns
  case h_3 req ttype data hphase =>
    rw [hphase] at hasked ⊢
    rw [if_pos hsnooped] at hstep
    have hruns := fetched_runs hasked hsnooped (by exact hroom) (by exact hlru) hstep
    rw [setPhase_setPhase] at hruns
    exact .head (Run.read hphase) hruns
  case h_4 req cline news i ts write hphase =>
    rw [hphase] at hasked ⊢
    exact finishFetch_runs hasked (hway _ _ _ _ _ _ _ hphase) (.inr ⟨_, hphase⟩) hsnooped
      (hroom.mono (by omega)) hstep
  case h_5 req i ts write hphase =>
    rw [hphase] at hasked ⊢
    dsimp only [Phase.addr]
    obtain ⟨released, hrelease, hevict⟩ := Option.bind_eq_some_iff.mp hstep
    rw [startEvict_eq hsnooped] at hevict
    obtain ⟨hlowers, hlru', hts, hreleased⟩ :=
      Ccache.releaseInvalid_spec (g := cl.geometry (sys.threads t).cache)
        (hroom.mono (by omega)) hrelease
    refine .single (Run.evictHit hasked (.inr ⟨ts, write, hphase, hts⟩) rfl
      (.inr ⟨ts, write, hphase⟩) (fun hidle => ?_) hlowers hlru' ?_ hevict)
    · rw [hphase] at hidle
      cases hidle
    · rw [hreleased, Geometry.index_eq, Ccache.stateOf_setStatus_self, lineState_incts,
        ite_self]
  case h_6 hphase =>
    obtain rfl := Option.some.inj hstep
    exact .single (Run.answered hphase)
  case h_7 => cases hstep

end System

end Prazor.Caches
