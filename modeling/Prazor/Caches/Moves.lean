import Prazor.Caches.Flights

/-!
# The moves of a thread

For the states of the lines a piece of the code is one or a few of five moves:
rights are given up, the thread goes on, snoops are sent, a line is written, a
line is inserted.  Invariants of the states are shown for the moves and for the
answers to snoops.
-/

namespace Prazor.Caches

namespace System

/-- One move of thread `t`, for cache `b` and the line of `addr`.  What snoops it
may send is left to `permits`. -/
inductive Move (cl : Cluster) (permits : Transaction → System → Prop) (t b addr : ℕ) :
    System → System → Prop
  | lower {sys : System} {cache' : Ccache}
      (hlowers : Ccache.Lowers (cl.geometry b) (sys.caches b) cache')
      (hlru : (sys.caches b).lru < (cl.geometry b).ways →
        cache'.lru < (cl.geometry b).ways) :
      Move cl permits t b addr sys (sys.setCache b cache')
  | settle {sys sys' : System} {p : Phase} (hsettles : Settles cl t b p sys sys') :
      Move cl permits t b addr sys sys'
  | launch {sys sys' : System} {req : Request} {ttype : Transaction} {upgrade : ℕ × Word64}
      (hlaunches : Launches cl t b req ttype upgrade sys sys') (haddr : req.addr = addr)
      (hpermits : permits ttype sys) : Move cl permits t b addr sys sys'
  | write {sys : System} {cache' : Ccache} {i : ℕ} {bytes : Buffer}
      (hdirties : Ccache.Dirties (cl.geometry b) (sys.caches b) cache' i (cl.line addr) bytes)
      (hlru : cache'.lru = (sys.caches b).lru)
      (hright : (sys.state cl b i (cl.line addr)).Exclusive ∨
        ∃ ts, sys.Upgrading cl t b (cl.line addr) i ts [] ∧
          sys.statusWord cl b i (cl.line addr) = ts &&& ~~~1) :
      Move cl permits t b addr sys (sys.setCache b cache')
  | insert {sys : System} {cache' : Ccache} {i : ℕ} {news : LineState} {cline : Buffer}
      {flight : Flight} {p : Phase}
      (hflight : sys.InFlight cl t b (cl.line addr) flight) (hpending : flight.pending = [])
      (hexclusive : ∀ j, flight.exclusive j ↔ news ≠ .sharedClean)
      (hinserts : Ccache.Inserts (cl.geometry b) (sys.caches b) cache' i (cl.line addr)
        news cline)
      (hlru : cache'.lru = (sys.caches b).lru)
      (hlow : cl.line addr * cl.linesize < 2 ^ 32)
      (hsettles : Settles cl t b p sys (sys.setPhase t b p)) (hnone : p.flight = none) :
      Move cl permits t b addr sys ((sys.setCache b cache').setPhase t b p)

variable {cl : Cluster} {permits : Transaction → System → Prop} {sys sys' : System}
variable {t b addr : ℕ}

/-! ## Tidy caches -/

/-- Nothing of a line that has just been inserted is in flight in its cache. -/
theorem Tidy.no_flight_after {line : ℕ} {flight : Flight} {p : Phase} (h : Tidy cl sys)
    (hflight : sys.InFlight cl t b line flight) (hnone : p.flight = none) (u : ℕ)
    (flight' : Flight) : ¬(sys.setPhase t b p).InFlight cl u b line flight' := by
  intro hnow
  have hthreads : (sys.setPhase t b p).threads =
      Function.update sys.threads t { cache := b, phase := p } := rfl
  rcases inFlight_of_update hthreads hnow with ⟨-, -, hsome, -⟩ | ⟨hu, hold⟩
  · rw [hnone] at hsome
    cases hsome
  · exact hu (h.oneFlight line b u t flight' flight hold hflight)

theorem Tidy.move (h : Tidy cl sys) (hport : b ∈ cl.ports)
    (hclear : ∀ ttype s, permits ttype s → ttype.isFetch = true → Clear cl s t b (cl.line addr))
    (hmove : Move cl permits t b addr sys sys') : Tidy cl sys' := by
  cases hmove with
  | lower hlowers hlru => exact h.lower hport hlowers (hlru (h.lru b))
  | settle hsettles => exact h.settle hport hsettles
  | launch hlaunches haddr hpermits =>
      exact h.launch hport hlaunches fun hfetch => by
        rw [haddr]
        exact hclear _ _ hpermits hfetch
  | write hdirties hlru hright =>
      obtain ⟨hi, hvalid⟩ := hdirties.held
      refine h.raise hport hdirties.raises hlru ?_ (h.low _ b _ hi hvalid) ?_
      · intro i' hi' hne
        by_contra hvalid'
        exact hne (h.unique _ b i' _ hi' hi hvalid' hvalid)
      · exact fun u flight hflight => hvalid (h.absent _ b u flight hflight _ hi)
  | insert hflight hpending hexclusive hinserts hlru hlow hsettles hnone =>
      refine (h.settle hport hsettles).raise hport hinserts.raises hlru ?_ hlow
        (h.no_flight_after hflight hnone)
      exact fun i' hi' _ => h.absent _ b t _ hflight i' hi'

/-! ## From pieces to moves -/

/-- All answers are there once a thread has been notified. -/
theorem Tidy.pending_nil (h : Tidy cl sys) {req : Request} {ttype : Transaction}
    {upgrade : ℕ × Word64} {pending : List ℕ} {replies : ℕ → Reply}
    (hphase : (sys.threads t).phase = .snooping req ttype upgrade pending true replies) :
    pending = [] := (h.served t _ _ _ _ _ _ hphase).2.2.1 rfl

/-- A line that was in one way only is gone when that way has given it up. -/
theorem Tidy.absent_of_gone {i line : ℕ} {cache' : Ccache} (h : Tidy cl sys)
    (hi : i < (cl.geometry b).ways) (hvalid : sys.state cl b i line ≠ .invalid)
    (hlowers : Ccache.Lowers (cl.geometry b) (sys.caches b) cache')
    (hgone : cache'.stateOf (cl.geometry b) i line = .invalid) :
    cache'.Absent (cl.geometry b) line := by
  intro i' hi'
  by_cases heq : i' = i
  · rw [heq, hgone]
  · by_contra hvalid'
    exact heq (h.unique line b i' i hi' hi (hlowers.valid hvalid') hvalid)

/-- A cached address lies in the lower half of the addresses. -/
theorem line_mul_lt {a : ℕ} (cl : Cluster) (hcached : uncached a = false) :
    cl.line a * cl.linesize < 2 ^ 32 := by
  have hsmall : a < 2 ^ 32 := by
    simp only [uncached, decide_eq_false_iff_not, not_le] at hcached
    omega
  exact lt_of_le_of_lt (Nat.div_mul_le_self _ _) hsmall

section Settles

variable {p : Phase}

/-- A thread goes on with nothing in flight. -/
theorem Settles.forget (hcache : (sys.threads t).cache = b) (hcaches : sys'.caches = sys.caches)
    (hthreads : sys'.threads = Function.update sys.threads t { cache := b, phase := p })
    (hserved : sys'.servedRequests = sys.servedRequests)
    (hwait : sys'.waitEvents = sys.waitEvents ∨ (sys.threads t).phase.isSnooping = true ∧
      ∀ j, j ≠ b → sys'.waitEvents j = sys.waitEvents j)
    (hsnooping : p.isSnooping = false) (hsound : p.Sound (cl.geometry b))
    (hnone : p.flight = none) (hflushed : p.flushed = none) (hmark : p.mark = none) :
    Settles cl t b p sys sys' where
  cache := .inl hcache
  caches := hcaches
  threads := hthreads
  served := hserved
  wait := hwait
  snooping := hsnooping
  sound := hsound
  flight := fun _ hsome => by rw [hnone] at hsome; cases hsome
  flushed := fun _ _ hsome => by rw [hflushed] at hsome; cases hsome
  mark := fun _ _ _ _ hsome => by rw [hmark] at hsome; cases hsome

/-- A thread goes on with a line in flight. -/
theorem Settles.carry {flight flight' : Flight} (hcache : (sys.threads t).cache = b)
    (hcaches : sys'.caches = sys.caches)
    (hthreads : sys'.threads = Function.update sys.threads t { cache := b, phase := p })
    (hserved : sys'.servedRequests = sys.servedRequests)
    (hwait : sys'.waitEvents = sys.waitEvents ∨ (sys.threads t).phase.isSnooping = true ∧
      ∀ j, j ≠ b → sys'.waitEvents j = sys.waitEvents j)
    (hsnooping : p.isSnooping = false) (hsound : p.Sound (cl.geometry b))
    (hold : (sys.threads t).phase.flight = some flight) (hnow : p.flight = some flight')
    (haddr : flight'.addr = flight.addr) (hpending : flight.pending = [])
    (hpending' : flight'.pending = [])
    (hexclusive : ∀ j, j ∈ cl.ports → j ≠ b → flight'.exclusive j → flight.exclusive j)
    (hflushed : p.flushed = none) (hmark : p.mark = none) : Settles cl t b p sys sys' where
  cache := .inl hcache
  caches := hcaches
  threads := hthreads
  served := hserved
  wait := hwait
  snooping := hsnooping
  sound := hsound
  flight := by
    intro flight'' hsome
    obtain rfl := Option.some.inj (hnow.symm.trans hsome)
    exact ⟨flight, hold, by rw [haddr], hpending, hpending', hexclusive⟩
  flushed := fun _ _ hsome => by rw [hflushed] at hsome; cases hsome
  mark := fun _ _ _ _ hsome => by rw [hmark] at hsome; cases hsome

/-- A thread goes on with a request that goes past the caches. -/
theorem Settles.pass {a : ℕ} (hcache : (sys.threads t).cache = b)
    (hcaches : sys'.caches = sys.caches)
    (hthreads : sys'.threads = Function.update sys.threads t { cache := b, phase := p })
    (hserved : sys'.servedRequests = sys.servedRequests)
    (hwait : sys'.waitEvents = sys.waitEvents ∨ (sys.threads t).phase.isSnooping = true ∧
      ∀ j, j ≠ b → sys'.waitEvents j = sys.waitEvents j)
    (hsnooping : p.isSnooping = false) (hsound : p.Sound (cl.geometry b))
    (hnone : p.flight = none) (hold : (sys.threads t).phase.flushed = some (a, []))
    (hflushed : p.flushed = some (a, []) ∨ p.flushed = none) (hmark : p.mark = none) :
    Settles cl t b p sys sys' where
  cache := .inl hcache
  caches := hcaches
  threads := hthreads
  served := hserved
  wait := hwait
  snooping := hsnooping
  sound := hsound
  flight := fun _ hsome => by rw [hnone] at hsome; cases hsome
  flushed := by
    intro a' pending hsome
    rcases hflushed with hnow | hnow <;> rw [hnow] at hsome
    · obtain ⟨rfl, rfl⟩ := Prod.mk.inj (Option.some.inj hsome)
      exact ⟨hold, rfl⟩
    · cases hsome
  mark := fun _ _ _ _ hsome => by rw [hmark] at hsome; cases hsome

end Settles

/-! ## Pieces that start a snoop -/

section Launching

variable {Asked : Request → Prop} {req : Request} {ttype : Transaction} {upgrade : ℕ × Word64}

/-- A line that is not there is fetched. -/
theorem launches_fetch (hplain : Plain Asked addr req)
    (habsent : (sys.caches b).Absent (cl.geometry b) (cl.line addr))
    (htype : ttype = if req.write then
        if req.length = (cl.geometry b).linesize then .makeUnique else .readUnique
      else .readShared)
    (hstart : sys.startSnoop cl t b req ttype upgrade = some sys') :
    ttype.isFetch = true ∧ Launches cl t b req ttype upgrade sys sys' := by
  have hfetch : ttype.isFetch = true := by
    rw [htype]
    split
    · split <;> rfl
    · rfl
  refine ⟨hfetch, hstart, ?_, ?_, ?_, ?_⟩
  · rintro rfl
    by_contra hwrite
    rw [Bool.not_eq_false] at hwrite
    rw [if_pos hwrite] at htype
    split at htype <;> cases htype
  · intro _
    rw [hplain.addr_eq]
    exact hplain.cached
  · intro _
    rw [hplain.addr_eq]
    exact habsent
  · rintro rfl
    cases hfetch

/-- The other copies of a shared line are invalidated. -/
theorem launches_makeInvalid {i : ℕ} (hplain : Plain Asked addr req)
    (hfound : Ccache.Found (cl.geometry b) (sys.caches b) (cl.line addr) i)
    (hstate : sys.state cl b i (cl.line addr) = .sharedClean)
    (hstart : sys.startSnoop cl t b req .makeInvalid
      (i, sys.statusWord cl b i (cl.line addr)) = some sys') :
    Launches cl t b req .makeInvalid (i, sys.statusWord cl b i (cl.line addr)) sys sys' := by
  refine ⟨hstart, (by intro htype; cases htype), ?_, ?_, ?_⟩
  · intro _
    rw [hplain.addr_eq]
    exact hplain.cached
  · rintro (htype | htype) <;> cases htype
  · intro _
    rw [hplain.addr_eq]
    exact ⟨hfound.way, rfl, hstate⟩

/-- The others are told of a line that is not there any more. -/
theorem launches_evict (haddr : req.addr = addr)
    (habsent : (sys.caches b).Absent (cl.geometry b) (cl.line addr))
    (hstart : sys.startSnoop cl t b req .evict upgrade = some sys') :
    Launches cl t b req .evict upgrade sys sys' := by
  refine ⟨hstart, (by intro htype; cases htype), fun hne => absurd rfl hne, ?_,
    (by intro htype; cases htype)⟩
  intro _
  rwa [haddr]

/-- A thread that has sent a snoop for a line does not bypass the caches. -/
theorem cached_startSnoop (hfetch : ttype.isFetch = true)
    (hstart : sys.startSnoop cl t b req ttype upgrade = some sys') :
    (sys'.threads t).phase.bypasses = false := by
  obtain ⟨-, -, -, -, -, -, hthreads⟩ := startSnoop_eq_some hstart
  rw [hthreads, Function.update_self]
  cases ttype <;> first | rfl | cases hfetch

end Launching

/-! ## Pieces after the answers have come -/

section Woken

variable {req : Request} {ttype : Transaction} {upgrade : ℕ × Word64} {pending : List ℕ}
variable {replies : ℕ → Reply}

/-- A thread that is woken was waiting for answers, and the others wait on. -/
theorem clearEvent_wait {notified : Bool} (hphase : (sys.threads t).phase =
      .snooping req ttype upgrade pending notified replies) :
    (sys.threads t).phase.isSnooping = true ∧
      ∀ j, j ≠ b → (sys.clearEvent b).waitEvents j = sys.waitEvents j :=
  ⟨by rw [hphase]; rfl, fun j hj => Function.update_of_ne hj _ _⟩

variable (h : Tidy cl sys) (hcache : (sys.threads t).cache = b)
variable (hphase : (sys.threads t).phase = .snooping req ttype upgrade pending true replies)
include h hcache hphase

/-- A line that another cache has sent arrives. -/
theorem settles_wakeArrive (htype : ttype.isFetch = true) (cline : Buffer) :
    Settles cl t b (.arriving req cline (arrivedState req (foundState ttype))) sys
      ((sys.clearEvent b).setPhase t b
        (.arriving req cline (arrivedState req (foundState ttype)))) := by
  obtain rfl := h.pending_nil hphase
  have hsound := h.sound t
  rw [hphase] at hsound
  have hcached : uncached req.addr = false := hsound.2 (by rintro rfl; cases htype)
  refine .carry hcache rfl rfl rfl (.inr (clearEvent_wait hphase)) rfl hcached
    ((congrArg Phase.flight hphase).trans (Phase.flight_snooping htype ..)) rfl rfl rfl rfl
    ?_ rfl rfl
  intro k _ _ hexclusive
  refine .inl ?_
  rintro rfl
  apply hexclusive
  rw [arrivedState, hsound.1 rfl]
  rfl

/-- A line that is written as a whole need not be sent. -/
theorem settles_wakeGarbage (htype : ttype = .makeUnique) (cline : Buffer) :
    Settles cl t b (.arriving req cline (arrivedState req .uniqueDirty)) sys
      ((sys.clearEvent b).setPhase t b
        (.arriving req cline (arrivedState req .uniqueDirty))) := by
  subst htype
  obtain rfl := h.pending_nil hphase
  have hsound := h.sound t
  rw [hphase] at hsound
  refine .carry hcache rfl rfl rfl (.inr (clearEvent_wait hphase)) rfl (hsound.2 (by decide))
    ((congrArg Phase.flight hphase).trans (Phase.flight_snooping rfl ..)) rfl rfl rfl rfl
    ?_ rfl rfl
  exact fun k _ _ _ => .inl (by decide)

/-- A line that no cache has is read from memory. -/
theorem settles_wakeMiss (htype : ttype = .readShared ∨ ttype = .readUnique)
    (hmissed : foundReply cl b replies = none) :
    Settles cl t b (.fetching req ttype none) sys
      ((sys.clearEvent b).setPhase t b (.fetching req ttype none)) := by
  obtain rfl := h.pending_nil hphase
  have hsound := h.sound t
  rw [hphase] at hsound
  have hfetch : ttype.isFetch = true := by rcases htype with rfl | rfl <;> rfl
  refine .carry hcache rfl rfl rfl (.inr (clearEvent_wait hphase)) rfl
    (hsound.2 (by rintro rfl; cases hfetch))
    ((congrArg Phase.flight hphase).trans (Phase.flight_snooping hfetch ..)) rfl rfl rfl rfl
    ?_ rfl rfl
  -- nobody has the line
  intro k hk hne _
  have hnone := List.find?_eq_none.mp hmissed k (mem_others.mpr ⟨hk, hne⟩)
  exact .inr (by simpa using hnone)

/-- A dirty line that another cache has sent is written back first. -/
theorem settles_wakeSpill (htype : ttype ≠ .makeInvalid) (data : Buffer) :
    Settles cl t b (.spilling req ttype data false) sys
      ((sys.clearEvent b).setPhase t b (.spilling req ttype data false)) := by
  obtain rfl := h.pending_nil hphase
  have hsound := h.sound t
  rw [hphase] at hsound
  by_cases hfetch : ttype.isFetch = true
  · refine .carry hcache rfl rfl rfl (.inr (clearEvent_wait hphase)) rfl
      ⟨hsound.1, htype, hsound.2⟩
      ((congrArg Phase.flight hphase).trans (Phase.flight_snooping hfetch ..))
      (Phase.flight_spilling hfetch ..) rfl rfl rfl ?_ ?_ rfl
    · exact fun k _ _ hexclusive => .inl hexclusive
    · cases ttype <;> first | rfl | cases hfetch
  · obtain rfl : ttype = .evict := by cases ttype <;> simp_all [Transaction.isFetch]
    exact .pass (a := req.addr) hcache rfl rfl rfl (.inr (clearEvent_wait hphase)) rfl
      ⟨hsound.1, htype, hsound.2⟩ rfl (by rw [hphase]; rfl) (.inl rfl) rfl

/-- A request that is not for the caches goes on to memory. -/
theorem settles_wakeForward (htype : ttype = .evict) :
    Settles cl t b (.forwarding req none) sys
      ((sys.clearEvent b).setPhase t b (.forwarding req none)) := by
  subst htype
  obtain rfl := h.pending_nil hphase
  refine .pass (a := req.addr) hcache rfl rfl rfl (.inr (clearEvent_wait hphase)) rfl trivial
    rfl (by rw [hphase]; rfl) ?_ rfl
  by_cases hlinked : req.linked.isSome
  · exact .inl (if_pos hlinked)
  · exact .inr (if_neg hlinked)

end Woken

/-! ## Pieces that wait for memory -/

section Served

variable (h : Tidy cl sys) (hcache : (sys.threads t).cache = b)
include h hcache

theorem settles_serveSpill {req : Request} {ttype : Transaction} {data : Buffer}
    {memory : ℕ → Byte} (hphase : (sys.threads t).phase = .spilling req ttype data false) :
    Settles cl t b (.spilling req ttype data true) sys
      ((sys.setMemory memory).setPhase t b (.spilling req ttype data true)) := by
  have hsound := h.sound t
  rw [hphase] at hsound
  by_cases hfetch : ttype.isFetch = true
  · refine .carry hcache rfl rfl rfl (.inl rfl) rfl hsound
      ((congrArg Phase.flight hphase).trans (Phase.flight_spilling hfetch ..))
      (Phase.flight_spilling hfetch ..) rfl rfl rfl (fun k _ _ hexclusive => hexclusive) ?_ rfl
    cases ttype <;> first | rfl | cases hfetch
  · obtain rfl : ttype = .evict := by
      cases ttype <;> first | rfl | exact absurd rfl hfetch | exact absurd rfl hsound.2.1
    exact .pass (a := req.addr) hcache rfl rfl rfl (.inl rfl) rfl hsound
      rfl (by rw [hphase]; rfl) (.inl rfl) rfl

theorem settles_serveFlush {req : Request} {i : ℕ} {ts : Word64} {write : WriteBack}
    {memory : ℕ → Byte} (hphase : (sys.threads t).phase = .flushing req i ts write false) :
    Settles cl t b (.flushing req i ts write true) sys
      ((sys.setMemory memory).setPhase t b (.flushing req i ts write true)) := by
  have hkept := h.kept _ b t i ts .uniqueDirty ⟨hcache, req.addr, by rw [hphase]; rfl, rfl⟩
  refine ⟨.inl hcache, rfl, rfl, rfl, .inl rfl, rfl, trivial, ?_, ?_, ?_⟩
  · intro _ hsome
    cases hsome
  · intro _ _ hsome
    cases hsome
  · intro addr' i' ts' s' hsome
    cases hsome
    exact hkept

/-- The line of a fetch that had to be written back arrives. -/
theorem settles_spilled {req : Request} {ttype : Transaction} {data : Buffer}
    (hphase : (sys.threads t).phase = .spilling req ttype data true)
    (htype : ttype ≠ .evict) (cline : Buffer) :
    Settles cl t b (.arriving req cline (arrivedState req (foundState ttype))) sys
      (sys.setPhase t b (.arriving req cline (arrivedState req (foundState ttype)))) := by
  have hsound := h.sound t
  rw [hphase] at hsound
  have hfetch : ttype.isFetch = true := by
    cases ttype <;> first | rfl | exact absurd rfl htype | exact absurd rfl hsound.2.1
  refine .carry hcache rfl rfl rfl (.inl rfl) rfl (hsound.2.2 htype)
    ((congrArg Phase.flight hphase).trans (Phase.flight_spilling hfetch ..)) rfl rfl rfl
    rfl ?_ rfl rfl
  rintro k - - hexclusive rfl
  apply hexclusive
  rw [arrivedState, hsound.1 rfl]
  rfl

omit h in
theorem settles_evictSpilled {req : Request} {data : Buffer}
    (hphase : (sys.threads t).phase = .spilling req .evict data true) :
    Settles cl t b (.forwarding req none) sys (sys.setPhase t b (.forwarding req none)) := by
  refine .pass (a := req.addr) hcache rfl rfl rfl (.inl rfl) rfl trivial
    rfl (by rw [hphase]; rfl) ?_ rfl
  by_cases hlinked : req.linked.isSome
  · exact .inl (if_pos hlinked)
  · exact .inr (if_neg hlinked)

end Served

/-! ## Pieces that change a line -/

section Lines

variable (h : Tidy cl sys) (hcache : (sys.threads t).cache = b)
include h hcache

/-- A shared line that has been upgraded is written. -/
theorem moves_upgrade {req : Request} {i : ℕ} {oldts : Word64} {pending : List ℕ}
    {replies : ℕ → Reply} {cache' : Ccache} {bytes : Buffer} {p : Phase}
    (hphase : (sys.threads t).phase =
      .snooping req .makeInvalid (i, oldts) pending true replies)
    (haddr : req.addr = addr) (hword : sys.statusWord cl b i (cl.line addr) = oldts &&& ~~~1)
    (hdirties : Ccache.Dirties (cl.geometry b) (sys.caches b) cache' i (cl.line addr) bytes)
    (hlru : cache'.lru = (sys.caches b).lru)
    (hdone : Settles cl t b p (sys.setCache b cache')
      (((sys.clearEvent b).setCache b cache').setPhase t b p)) :
    Relation.ReflTransGen (Move cl permits t b addr) sys
      (((sys.clearEvent b).setCache b cache').setPhase t b p) := by
  obtain rfl := h.pending_nil hphase
  have hupgrading : sys.Upgrading cl t b (cl.line addr) i oldts [] :=
    ⟨hcache, req, true, replies, hphase, by rw [haddr]⟩
  exact .head (.write hdirties hlru (.inr ⟨oldts, hupgrading, hword⟩))
    (.single (.settle hdone))

/-- A line that has arrived, or the victim of which has been written back, is inserted. -/
theorem move_insert {req : Request} {cline : Buffer} {news : LineState} {i : ℕ}
    {cache' : Ccache} {p : Phase}
    (hphase : (sys.threads t).phase = .arriving req cline news ∨
      ∃ ts write, (sys.threads t).phase = .evicting req cline news i ts write true)
    (haddr : req.addr = addr)
    (hinserts : Ccache.Inserts (cl.geometry b) (sys.caches b) cache' i (cl.line addr) news
      cline)
    (hlru : cache'.lru = (sys.caches b).lru)
    (hdone : Settles cl t b p sys (sys.setPhase t b p)) (hnone : p.flight = none) :
    Move cl permits t b addr sys ((sys.setCache b cache').setPhase t b p) := by
  have hsound := h.sound t
  have hflight : (sys.threads t).phase.flight = some
      { addr := req.addr, pending := [], exclusive := fun _ => news ≠ .sharedClean } := by
    rcases hphase with hphase | ⟨ts, write, hphase⟩ <;> rw [hphase, Phase.flight]
  have hcached : uncached addr = false := by
    rw [← haddr]
    rcases hphase with hphase | ⟨ts, write, hphase⟩ <;> rw [hphase] at hsound
    · exact hsound
    · exact hsound.2
  exact .insert ⟨hcache, hflight, by rw [haddr]⟩ rfl (fun _ => Iff.rfl) hinserts
    hlru (line_mul_lt cl hcached) hdone hnone

omit h in
/-- A dirty line is locked and written back. -/
theorem moves_flush {req : Request} {i : ℕ} {write : WriteBack} (haddr : req.addr = addr)
    (hfound : Ccache.Found (cl.geometry b) (sys.caches b) (cl.line addr) i)
    (hdirty : sys.state cl b i (cl.line addr) = .uniqueDirty)
    (hunlocked : locked (sys.statusWord cl b i (cl.line addr)) = false) :
    Relation.ReflTransGen (Move cl permits t b addr) sys
      ((sys.setCache b ((sys.caches b).setStatus i (cl.line addr % (cl.geometry b).columns)
        (sys.statusWord cl b i (cl.line addr) ||| 1))).setPhase t b
          (.flushing req i (sys.statusWord cl b i (cl.line addr) ||| 1) write false)) := by
  refine .head (.lower (Ccache.lowers_lock hunlocked) fun hlru => hlru)
    (.single (.settle ⟨.inl hcache, rfl, rfl, rfl, .inl rfl, rfl, trivial, ?_, ?_, ?_⟩))
  · intro _ hsome
    cases hsome
  · intro _ _ hsome
    cases hsome
  · intro addr' i' ts' s' hsome
    cases hsome
    rw [haddr]
    refine ⟨hfound.way, .inl ?_, fun _ => ?_⟩
    · rw [statusWord, caches_setCache_self, Ccache.word_setStatus, if_pos ⟨rfl, rfl⟩]
      rfl
    · rw [state, caches_setCache_self, ← hdirty]
      refine Ccache.stateOf_congr ?_ (by rw [Ccache.mTags_setStatus])
      rw [Ccache.word_setStatus, if_pos ⟨rfl, rfl⟩]
      exact lineState_or_one hunlocked

/-- A line that is evicted was there, so nothing of it is in flight here. -/
theorem evicted_line {req : Request} {i : ℕ} (haddr : req.addr = addr)
    (hphase : (sys.threads t).phase = .idle ∨ ∃ ts write,
      (sys.threads t).phase = .flushing req i ts write true ∧
        sys.statusWord cl b i (cl.line addr) = ts)
    (hclean : (sys.threads t).phase = .idle →
      Ccache.Found (cl.geometry b) (sys.caches b) (cl.line addr) i) :
    i < (cl.geometry b).ways ∧ sys.state cl b i (cl.line addr) ≠ .invalid ∧
      ((sys.threads t).phase = .idle ∨ Clear cl sys t b (cl.line addr)) := by
  rcases hphase with hphase | ⟨ts, write, hphase, hword⟩
  · have hfound := hclean hphase
    exact ⟨hfound.way, hfound.valid, .inl hphase⟩
  · have hkept := h.kept _ b t i ts .uniqueDirty
      ⟨hcache, req.addr, by rw [hphase]; rfl, rfl⟩
    rw [haddr] at hkept
    have hstate := hkept.2.2 hword
    have hne : sys.state cl b i (cl.line addr) ≠ .invalid := by
      rw [hstate]
      decide
    exact ⟨hkept.1, hne, .inr fun u flight _ hflight =>
      hne (h.absent _ b u flight hflight i hkept.1)⟩

end Lines

/-! ## Every piece -/

/-- Every piece is a chain of moves.  From idle a thread sends the snoops that are
permitted; a line that is flushed has no flight in its cache, which permits its
eviction. -/
theorem Run.moves {Asked : Request → Prop} (hrun : Run cl Asked t b addr sys sys')
    (h : Tidy cl sys)
    (hcache : (sys.threads t).cache = b)
    (hstable : ∀ ttype s s', (∀ u, u ≠ t → s'.threads u = s.threads u) → permits ttype s →
      permits ttype s')
    (hidle : (sys.threads t).phase = .idle → ∀ ttype,
      (ttype.isFetch = true → (sys'.threads t).phase.bypasses = false) → permits ttype sys)
    (hflush : Clear cl sys t b (cl.line addr) → permits .evict sys) :
    Relation.ReflTransGen (Move cl permits t b addr) sys sys' := by
  have hline : ∀ x, (cl.geometry b).line x = cl.line x := line_eq cl b
  have hindex : (cl.geometry b).index addr = cl.line addr % (cl.geometry b).columns := by
    rw [Geometry.index_eq, hline]
  cases hrun with
  | lower hlowers hlru => exact .single (.lower hlowers hlru)
  | readHit =>
      exact .single (.settle (.forget hcache rfl rfl rfl (.inl rfl) rfl trivial rfl rfl rfl))
  | @writeHit req i cache' hphase _ _ _ _ hstate hdirties hlru =>
      rw [hline] at hstate hdirties
      have hexclusive : (sys.state cl b i (cl.line addr)).Exclusive := by
        rcases hstate with hstate | hstate <;> rw [state, hstate] <;> simp [LineState.Exclusive]
      exact .head (.write hdirties hlru (.inl hexclusive)) (.single (.settle
        (.forget hcache rfl rfl rfl (.inl rfl) rfl trivial rfl rfl rfl)))
  | @fetch _ req ttype hphase hplain habsent htype _ hstart =>
      rw [hline] at habsent
      obtain ⟨hfetch, hlaunches⟩ := launches_fetch hplain habsent htype hstart
      exact .single (.launch hlaunches hplain.addr_eq
        (hidle hphase ttype fun _ => cached_startSnoop hfetch hstart))
  | makeInvalid hphase hplain _ _ hlookup hstate hstart =>
      have hfound := Ccache.found_of_lookup hlookup
      rw [hline] at hstate hfound hstart
      exact .single (.launch (launches_makeInvalid hplain hfound hstate hstart) hplain.addr_eq
        (hidle hphase _ (by intro htype; cases htype)))
  | upgrade hphase haddr hword hdirties hlru =>
      rw [hline] at hword hdirties
      exact moves_upgrade h hcache hphase haddr hword hdirties hlru
        (.forget hcache rfl rfl rfl (.inr (clearEvent_wait hphase)) rfl trivial rfl rfl rfl)
  | lost hphase =>
      exact .single (.settle (.forget hcache rfl rfl rfl (.inr (clearEvent_wait hphase))
        rfl trivial rfl rfl rfl))
  | wakeArrive hphase htype =>
      exact .single (.settle (settles_wakeArrive h hcache hphase htype _))
  | wakeGarbage garbage hphase =>
      exact .single (.settle (settles_wakeGarbage h hcache hphase rfl _))
  | wakeMiss hphase htype hmissed =>
      exact .single (.settle (settles_wakeMiss h hcache hphase htype hmissed))
  | wakeSpill hphase htype =>
      exact .single (.settle (settles_wakeSpill h hcache hphase htype _))
  | wakeForward hphase =>
      exact .single (.settle (settles_wakeForward h hcache hphase rfl))
  | serveSpill hphase => exact .single (.settle (settles_serveSpill h hcache hphase))
  | serveFetch hphase =>
      have hsound := h.sound t
      rw [hphase] at hsound
      exact .single (.settle (.carry hcache rfl rfl rfl (.inl rfl) rfl hsound
        (congrArg Phase.flight hphase) rfl rfl rfl rfl (fun k _ _ hexclusive => hexclusive)
        rfl rfl))
  | serveVictim hphase =>
      have hsound := h.sound t
      rw [hphase, hcache] at hsound
      exact .single (.settle (.carry hcache rfl rfl rfl (.inl rfl) rfl hsound
        (congrArg Phase.flight hphase) rfl rfl rfl rfl (fun k _ _ hexclusive => hexclusive)
        rfl rfl))
  | serveFlush hphase => exact .single (.settle (settles_serveFlush h hcache hphase))
  | serveForward hphase =>
      exact .single (.settle (.forget hcache rfl rfl rfl (.inl rfl) rfl trivial rfl rfl rfl))
  | spilled hphase htype => exact .single (.settle (settles_spilled h hcache hphase htype _))
  | evictSpilled hphase => exact .single (.settle (settles_evictSpilled hcache hphase))
  | read hphase =>
      have hsound := h.sound t
      rw [hphase] at hsound
      exact .single (.settle (.carry hcache rfl rfl rfl (.inl rfl) rfl hsound
        (congrArg Phase.flight hphase) rfl rfl rfl rfl (fun k _ _ _ => trivial) rfl rfl))
  | victim hphase hway =>
      have hsound := h.sound t
      rw [hphase] at hsound
      exact .single (.settle (.carry hcache rfl rfl rfl (.inl rfl) rfl ⟨hway, hsound⟩
        (congrArg Phase.flight hphase) rfl rfl rfl rfl (fun k _ _ hexclusive => hexclusive)
        rfl rfl))
  | @insert req cline news i cache' p hphase haddr hinserts hlru hnext =>
      rw [hline] at hinserts
      have hdone : Settles cl t b p sys (sys.setPhase t b p) ∧ p.flight = none := by
        rcases hnext with ⟨-, rfl⟩ | ⟨-, rfl⟩ | ⟨-, rfl⟩ <;>
          exact ⟨.forget hcache rfl rfl rfl (.inl rfl) rfl trivial rfl rfl rfl, rfl⟩
      refine .single (move_insert h hcache ?_ haddr hinserts hlru hdone.1 hdone.2)
      exact hphase.imp And.left (Exists.imp fun ts => Exists.imp fun write => And.left)
  | abandon hphase hlocked hnext =>
      rcases hnext with rfl | ⟨-, rfl⟩ <;>
        exact .single (.settle (.forget hcache rfl rfl rfl (.inl rfl) rfl trivial rfl rfl rfl))
  | flush _ _ haddr _ hlookup hdirty hunlocked =>
      have hfound := Ccache.found_of_lookup hlookup
      rw [hline] at hfound hdirty
      rw [hindex] at hunlocked ⊢
      exact moves_flush hcache haddr hfound hdirty hunlocked
  | evictMiss _ hphase haddr _ habsent hstart =>
      rw [hline] at habsent
      exact .single (.launch (launches_evict haddr habsent hstart) haddr
        (hidle hphase _ (by intro htype; cases htype)))
  | @evictHit _ req i cache' _ hphase haddr _ hclean hlowers hlru hgone hstart =>
      rw [hline] at hclean hgone
      rw [haddr, hindex] at hphase
      obtain ⟨hi, hvalid, hclear⟩ :=
        evicted_line h hcache haddr hphase fun hphase => (hclean hphase).1
      have habsent := h.absent_of_gone hi hvalid hlowers hgone
      have hsettles : Settles cl t b .idle sys (sys.setPhase t b .idle) :=
        .forget hcache rfl rfl rfl (.inl rfl) rfl trivial rfl rfl rfl
      refine .head (.settle hsettles) (.head (.lower hlowers fun h => hlru.trans_lt h)
        (.single (.launch (launches_evict haddr ?_ hstart) haddr (hstable _ sys _ ?_ ?_))))
      · rwa [caches_setCache_self]
      · intro u hu
        rw [threads_setCache, threads_setPhase_of_ne sys hu]
      · rcases hclear with hphase | hclear
        · exact hidle hphase _ (by intro htype; cases htype)
        · exact hflush hclear
  | @forward req _ hphase _ hlinked =>
      exact .single (.settle (.forget hcache rfl rfl rfl (.inl rfl) rfl trivial rfl
        (if_neg (by simp [hlinked])) rfl))
  | answered =>
      exact .single (.settle (.forget hcache rfl rfl rfl (.inl rfl) rfl trivial rfl rfl rfl))

end System

end Prazor.Caches
