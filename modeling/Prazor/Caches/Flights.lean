import Prazor.Caches.Pieces

/-!
# Lines on their way into a cache

A request that misses takes some time to bring its line in: it asks the other
caches, perhaps the storage, and inserts the line last.  Until then the line is
in flight.  The answers that are already there say what the requester may do
with the line, and the invariant says that the caches that gave them keep to
it.
-/

namespace Prazor.Caches

/-- A state that lets its cache write the line. -/
def LineState.Exclusive (state : LineState) : Prop := state ≠ .invalid ∧ state ≠ .sharedClean

/-- A line in flight: the address that was asked for, the caches that have not
answered yet, and for which of the others the requester relies on the line
being absent there. -/
structure Flight where
  addr : ℕ
  pending : List ℕ
  exclusive : ℕ → Prop

/-- The line a thread has in flight. -/
def Phase.flight : Phase → Option Flight
  | .snooping req ttype _ pending _ replies =>
      if ttype.isFetch then
        some { addr := req.addr, pending := pending
               exclusive := fun j => ttype ≠ .readShared ∨ (replies j).state = .invalid }
      else none
  | .spilling req ttype _ _ =>
      if ttype.isFetch then
        some { addr := req.addr, pending := [], exclusive := fun _ => ttype ≠ .readShared }
      else none
  | .fetching req _ _ => some { addr := req.addr, pending := [], exclusive := fun _ => True }
  | .arriving req _ news | .evicting req _ news .. =>
      some { addr := req.addr, pending := [], exclusive := fun _ => news ≠ .sharedClean }
  | _ => none

theorem Phase.flight_snooping {ttype : Transaction} (hfetch : ttype.isFetch = true)
    (req : Request) (upgrade : ℕ × Word64) (pending : List ℕ) (notified : Bool)
    (replies : ℕ → Reply) :
    (Phase.snooping req ttype upgrade pending notified replies).flight = some
      { addr := req.addr, pending := pending
        exclusive := fun j => ttype ≠ .readShared ∨ (replies j).state = .invalid } :=
  if_pos hfetch

theorem Phase.flight_spilling {ttype : Transaction} (hfetch : ttype.isFetch = true)
    (req : Request) (data : Buffer) (stored : Bool) :
    (Phase.spilling req ttype data stored).flight = some
      { addr := req.addr, pending := [], exclusive := fun _ => ttype ≠ .readShared } :=
  if_pos hfetch

/-- The thread waits for the answers to its snoops. -/
def Phase.isSnooping : Phase → Bool
  | .snooping .. => true
  | _ => false

/-- A linked request that has given up the line in its own cache: its address,
and the caches that have not done so yet. -/
def Phase.flushed : Phase → Option (ℕ × List ℕ)
  | .snooping req .evict _ pending .. => some (req.addr, pending)
  | .spilling req .evict .. => some (req.addr, [])
  | .forwarding req none => if req.linked.isSome then some (req.addr, []) else none
  | _ => none

/-- What a thread remembers of a line of its cache: the address, the way, the
status word it expects to find, and the state the line then is in. -/
def Phase.mark : Phase → Option (ℕ × ℕ × Word64 × LineState)
  | .snooping req .makeInvalid (i, ts) .. => some (req.addr, i, ts &&& ~~~1, .sharedClean)
  | .flushing req i ts .. => some (req.addr, i, ts, .uniqueDirty)
  | _ => none

/-- What the phase of a thread says on its own: only a read asks for a shared
line, only the cached address space is fetched, and the way of a victim is one
of the cache. -/
def Phase.Sound (g : Geometry) : Phase → Prop
  | .snooping req ttype .. =>
      (ttype = .readShared → req.write = false) ∧ (ttype ≠ .evict → uncached req.addr = false)
  | .spilling req ttype .. => (ttype = .readShared → req.write = false) ∧
      ttype ≠ .makeInvalid ∧ (ttype ≠ .evict → uncached req.addr = false)
  | .fetching req .. | .arriving req .. => uncached req.addr = false
  | .evicting req _ _ i .. => i < g.ways ∧ uncached req.addr = false
  | _ => True

namespace Ccache

/-- The cache holds the line at most as a shared one. -/
def AtMostShared (g : Geometry) (cache : Ccache) (line : ℕ) : Prop :=
  ∀ i, i < g.ways → ¬(cache.stateOf g i line).Exclusive

variable {g : Geometry} {cache cache' : Ccache}

theorem Absent.atMostShared {line : ℕ} (habsent : cache.Absent g line) :
    cache.AtMostShared g line := fun i hi hexclusive => hexclusive.1 (habsent i hi)

theorem Lowers.valid {i line : ℕ} (hlowers : Lowers g cache cache')
    (hvalid : cache'.stateOf g i line ≠ .invalid) : cache.stateOf g i line ≠ .invalid := by
  rcases hlowers.state i line with hsame | hinvalid | ⟨hold, -⟩
  · rwa [← hsame]
  · exact absurd hinvalid hvalid
  · exact hold

theorem Lowers.exclusive {i line : ℕ} (hlowers : Lowers g cache cache')
    (hexclusive : (cache'.stateOf g i line).Exclusive) :
    (cache.stateOf g i line).Exclusive := by
  rcases hlowers.state i line with hsame | hinvalid | ⟨-, hshared⟩
  · rwa [← hsame]
  · exact absurd hinvalid hexclusive.1
  · exact absurd hshared hexclusive.2

theorem Lowers.absent {line : ℕ} (hlowers : Lowers g cache cache')
    (habsent : cache.Absent g line) : cache'.Absent g line := by
  intro i hi
  by_contra hvalid
  exact hlowers.valid hvalid (habsent i hi)

theorem Lowers.atMostShared {line : ℕ} (hlowers : Lowers g cache cache')
    (hshared : cache.AtMostShared g line) : cache'.AtMostShared g line :=
  fun i hi hexclusive => hshared i hi (hlowers.exclusive hexclusive)

/-- Words change only to words of a larger rank, and only with them their lines. -/
structure Moves (g : Geometry) (cache cache' : Ccache) : Prop where
  word : ∀ j k, cache'.word j k = cache.word j k ∨ rank (cache.word j k) < rank (cache'.word j k)
  same : ∀ j line', cache'.word j (line' % g.columns) = cache.word j (line' % g.columns) →
    cache'.stateOf g j line' = cache.stateOf g j line'

theorem Lowers.moves (hlowers : Lowers g cache cache') : Moves g cache cache' :=
  ⟨hlowers.word, hlowers.same⟩

/-- One line is put into way `i` or made dirty there; other lines are kept or
given up. -/
structure Raises (g : Geometry) (cache cache' : Ccache) (i line : ℕ) (news : LineState) :
    Prop extends Moves g cache cache' where
  way : i < g.ways
  state_self : cache'.stateOf g i line = news
  state_other : ∀ j line', ¬(j = i ∧ line' = line) →
    cache'.stateOf g j line' = cache.stateOf g j line' ∨ cache'.stateOf g j line' = .invalid

theorem Dirties.raises {i line : ℕ} {bytes : Buffer}
    (hdirties : Dirties g cache cache' i line bytes) :
    Raises g cache cache' i line .uniqueDirty where
  way := hdirties.held.1
  state_self := by rw [hdirties.state, if_pos ⟨rfl, rfl⟩]
  state_other := fun j line' hne => .inl (by rw [hdirties.state, if_neg hne])
  word := by
    intro j k
    by_cases hslot : j = i ∧ k = line % g.columns
    · obtain ⟨rfl, rfl⟩ := hslot
      exact .inr hdirties.word_self
    · exact .inl (hdirties.word_other j k hslot)
  same := by
    intro j line' hsame
    rw [hdirties.state, if_neg]
    rintro ⟨rfl, rfl⟩
    have hrank := hdirties.word_self
    rw [hsame] at hrank
    exact lt_irrefl _ hrank

theorem Inserts.raises {i line : ℕ} {news : LineState} {bytes : Buffer}
    (hinserts : Inserts g cache cache' i line news bytes) :
    Raises g cache cache' i line news where
  way := hinserts.way
  state_self := hinserts.state_self
  state_other := by
    intro j line' hne
    by_cases hslot : j = i ∧ line' % g.columns = line % g.columns
    · obtain ⟨rfl, hcolumn⟩ := hslot
      exact .inr (hinserts.state_column line' hcolumn fun heq => hne ⟨rfl, heq⟩)
    · exact .inl (hinserts.state_other j line' hslot)
  word := by
    intro j k
    by_cases hslot : j = i ∧ k = line % g.columns
    · obtain ⟨rfl, rfl⟩ := hslot
      exact .inr hinserts.word_self
    · exact .inl (hinserts.word_other j k hslot)
  same := by
    intro j line' hsame
    refine hinserts.state_other j line' ?_
    rintro ⟨rfl, hcolumn⟩
    have hrank := hinserts.word_self
    rw [← hcolumn, hsame] at hrank
    exact lt_irrefl _ hrank

theorem Raises.valid_other {i line j line' : ℕ} {news : LineState}
    (hraises : Raises g cache cache' i line news) (hne : ¬(j = i ∧ line' = line))
    (hvalid : cache'.stateOf g j line' ≠ .invalid) :
    cache'.stateOf g j line' = cache.stateOf g j line' :=
  (hraises.state_other j line' hne).resolve_right hvalid

theorem Raises.absent {i line line' : ℕ} {news : LineState}
    (hraises : Raises g cache cache' i line news) (hne : line' ≠ line)
    (habsent : cache.Absent g line') : cache'.Absent g line' := by
  intro j hj
  by_contra hvalid
  rw [hraises.valid_other (fun h => hne h.2) hvalid] at hvalid
  exact hvalid (habsent j hj)

theorem Raises.atMostShared {i line line' : ℕ} {news : LineState}
    (hraises : Raises g cache cache' i line news) (hne : line' ≠ line)
    (hshared : cache.AtMostShared g line') : cache'.AtMostShared g line' := by
  intro j hj hexclusive
  rw [hraises.valid_other (fun h => hne h.2) hexclusive.1] at hexclusive
  exact hshared j hj hexclusive

theorem fresh_absent (g : Geometry) (line : ℕ) : Ccache.fresh.Absent g line := by
  intro i _
  by_contra hvalid
  have hzero : lineState 0 = .invalid := by decide
  exact (stateOf_ne_invalid.mp hvalid).1 hzero

end Ccache

namespace System

variable (cl : Cluster) (sys : System)

/-- Thread `t`, working for cache `b`, has this flight of the line. -/
def InFlight (t b line : ℕ) (flight : Flight) : Prop :=
  (sys.threads t).cache = b ∧ (sys.threads t).phase.flight = some flight ∧
    cl.line flight.addr = line

/-- Thread `t` remembers way `i` of cache `b` to have the line in this state as
long as the status word is `ts`. -/
def Marked (t b line i : ℕ) (ts : Word64) (state : LineState) : Prop :=
  (sys.threads t).cache = b ∧ ∃ addr, (sys.threads t).phase.mark = some (addr, i, ts, state) ∧
    cl.line addr = line

/-- Thread `t` waits to make a shared line its own. -/
def Upgrading (t b line i : ℕ) (ts : Word64) (pending : List ℕ) : Prop :=
  (sys.threads t).cache = b ∧ ∃ req notified replies, (sys.threads t).phase =
    .snooping req .makeInvalid (i, ts) pending notified replies ∧ cl.line req.addr = line

/-- The state in which a way of a cache holds a line. -/
def state (b i line : ℕ) : LineState := (sys.caches b).stateOf (cl.geometry b) i line

/-- The status word of the column of a line. -/
def statusWord (b i line : ℕ) : Word64 :=
  (sys.caches b).word i (line % (cl.geometry b).columns)

/-- A mark is good: the status word is the one that is remembered, and the line
then in the remembered state, or a newer one. -/
def Kept (b line i : ℕ) (ts : Word64) (state : LineState) : Prop :=
  i < (cl.geometry b).ways ∧
    (sys.statusWord cl b i line = ts ∨ rank ts < rank (sys.statusWord cl b i line)) ∧
    (sys.statusWord cl b i line = ts → sys.state cl b i line = state)

/-- What each cache keeps to on its own, whatever the others do: a line is in one
way only, and not there while it is in flight, and only one request of a cache
has it in flight. -/
structure Tidy : Prop where
  unique : ∀ line b i i', i < (cl.geometry b).ways → i' < (cl.geometry b).ways →
    sys.state cl b i line ≠ .invalid → sys.state cl b i' line ≠ .invalid → i = i'
  low : ∀ line b i, i < (cl.geometry b).ways → sys.state cl b i line ≠ .invalid →
    line * cl.linesize < 2 ^ 32
  quiet : ∀ b, b ∉ cl.ports → sys.caches b = .fresh
  lru : ∀ b, (sys.caches b).lru < (cl.geometry b).ways
  member : ∀ t, (sys.threads t).phase ≠ .idle → (sys.threads t).cache ∈ cl.ports
  sound : ∀ t, (sys.threads t).phase.Sound (cl.geometry (sys.threads t).cache)
  oneFlight : ∀ line b t t' flight flight', sys.InFlight cl t b line flight →
    sys.InFlight cl t' b line flight' → t = t'
  absent : ∀ line b t flight, sys.InFlight cl t b line flight →
    (sys.caches b).Absent (cl.geometry b) line
  kept : ∀ line b t i ts state, sys.Marked cl t b line i ts state →
    sys.Kept cl b line i ts state
  snoopers : ∀ t t', (sys.threads t).phase.isSnooping → (sys.threads t').phase.isSnooping →
    (sys.threads t).cache = (sys.threads t').cache → t = t'
  served : ∀ t req ttype upgrade pending notified replies, (sys.threads t).phase =
      .snooping req ttype upgrade pending notified replies →
    sys.servedRequests (sys.threads t).cache = pending.length ∧
      sys.waitEvents (sys.threads t).cache = true ∧ (notified = true → pending = []) ∧
      pending ⊆ cl.ports ∧ pending.Nodup ∧ (sys.threads t).cache ∉ pending

variable {cl : Cluster} {sys sys' : System} {t b : ℕ} {p : Phase}

theorem line_eq (cl : Cluster) (b addr : ℕ) : (cl.geometry b).line addr = cl.line addr := by
  rw [Geometry.line, Cluster.line, Geometry.linesize, Cluster.linesize, cl.same_line]

theorem mem_others {cl : Cluster} {b j : ℕ} :
    j ∈ cl.ports.filter (· ≠ b) ↔ j ∈ cl.ports ∧ j ≠ b := by
  simp [List.mem_filter]

theorem nodup_ports (cl : Cluster) : cl.ports.Nodup := List.nodup_range.filter _

/-- No other thread of the cache has the line in flight. -/
def Clear (cl : Cluster) (sys : System) (t b line : ℕ) : Prop :=
  ∀ u flight, u ≠ t → ¬sys.InFlight cl u b line flight

/-! ## What one move changes -/

theorem inFlight_of_update {u j line : ℕ} {flight : Flight}
    (hthreads : sys'.threads = Function.update sys.threads t { cache := b, phase := p })
    (hflight : sys'.InFlight cl u j line flight) :
    (u = t ∧ j = b ∧ p.flight = some flight ∧ cl.line flight.addr = line) ∨
      (u ≠ t ∧ sys.InFlight cl u j line flight) := by
  obtain ⟨hcache, hsome, hline⟩ := hflight
  rw [hthreads] at hcache hsome
  by_cases hu : u = t
  · subst hu
    rw [Function.update_self] at hcache hsome
    exact .inl ⟨rfl, hcache.symm, hsome, hline⟩
  · rw [Function.update_of_ne hu] at hcache hsome
    exact .inr ⟨hu, hcache, hsome, hline⟩

theorem marked_of_update {u j line i : ℕ} {ts : Word64} {s : LineState}
    (hthreads : sys'.threads = Function.update sys.threads t { cache := b, phase := p })
    (hmarked : sys'.Marked cl u j line i ts s) :
    (u = t ∧ j = b ∧ ∃ addr, p.mark = some (addr, i, ts, s) ∧ cl.line addr = line) ∨
      (u ≠ t ∧ sys.Marked cl u j line i ts s) := by
  obtain ⟨hcache, hmark⟩ := hmarked
  rw [hthreads] at hcache hmark
  by_cases hu : u = t
  · subst hu
    rw [Function.update_self] at hcache hmark
    exact .inl ⟨rfl, hcache.symm, hmark⟩
  · rw [Function.update_of_ne hu] at hcache hmark
    exact .inr ⟨hu, hcache, hmark⟩

theorem upgrading_of_update {u j line i : ℕ} {ts : Word64} {pending : List ℕ}
    (hthreads : sys'.threads = Function.update sys.threads t { cache := b, phase := p })
    (hupgrading : sys'.Upgrading cl u j line i ts pending) :
    (u = t ∧ j = b ∧ ∃ req notified replies, p =
        .snooping req .makeInvalid (i, ts) pending notified replies ∧ cl.line req.addr = line) ∨
      (u ≠ t ∧ sys.Upgrading cl u j line i ts pending) := by
  obtain ⟨hcache, hphase⟩ := hupgrading
  rw [hthreads] at hcache hphase
  by_cases hu : u = t
  · subst hu
    rw [Function.update_self] at hcache hphase
    exact .inl ⟨rfl, hcache.symm, hphase⟩
  · rw [Function.update_of_ne hu] at hcache hphase
    exact .inr ⟨hu, hcache, hphase⟩

theorem Upgrading.marked {line i : ℕ} {ts : Word64} {pending : List ℕ}
    (hupgrading : sys.Upgrading cl t b line i ts pending) :
    sys.Marked cl t b line i (ts &&& ~~~1) .sharedClean := by
  obtain ⟨hcache, req, notified, replies, hphase, hline⟩ := hupgrading
  exact ⟨hcache, req.addr, by rw [hphase]; rfl, hline⟩

/-- A thread goes on to a phase in which it waits for no answers.  A line it
still has in flight it had in flight before, with all answers there and at
least the same reliance on them. -/
structure Settles (cl : Cluster) (t b : ℕ) (p : Phase) (sys sys' : System) : Prop where
  cache : (sys.threads t).cache = b ∨
    (sys.threads t).phase.flight = none ∧ (sys.threads t).phase.isSnooping = false
  caches : sys'.caches = sys.caches
  threads : sys'.threads = Function.update sys.threads t { cache := b, phase := p }
  served : sys'.servedRequests = sys.servedRequests
  wait : sys'.waitEvents = sys.waitEvents ∨ (sys.threads t).phase.isSnooping = true ∧
    ∀ j, j ≠ b → sys'.waitEvents j = sys.waitEvents j
  snooping : p.isSnooping = false
  sound : p.Sound (cl.geometry b)
  flight : ∀ flight', p.flight = some flight' → ∃ flight,
    (sys.threads t).phase.flight = some flight ∧ cl.line flight'.addr = cl.line flight.addr ∧
      flight.pending = [] ∧ flight'.pending = [] ∧
      ∀ j, j ∈ cl.ports → j ≠ b → flight'.exclusive j → flight.exclusive j
  flushed : ∀ addr pending, p.flushed = some (addr, pending) →
    (sys.threads t).phase.flushed = some (addr, []) ∧ pending = []
  mark : ∀ addr i ts state, p.mark = some (addr, i, ts, state) →
    sys.Kept cl b (cl.line addr) i ts state

/-- A thread that was idle asks the other caches: for a line its cache does not
have, to give up a line it shares, or to give up a line it has given up itself. -/
structure Launches (cl : Cluster) (t b : ℕ) (req : Request) (ttype : Transaction)
    (upgrade : ℕ × Word64) (sys sys' : System) : Prop where
  start : sys.startSnoop cl t b req ttype upgrade = some sys'
  read : ttype = .readShared → req.write = false
  cached : ttype ≠ .evict → uncached req.addr = false
  absent : ttype.isFetch = true ∨ ttype = .evict →
    (sys.caches b).Absent (cl.geometry b) (cl.line req.addr)
  shared : ttype = .makeInvalid → upgrade.1 < (cl.geometry b).ways ∧
    upgrade.2 = sys.statusWord cl b upgrade.1 (cl.line req.addr) ∧
    sys.state cl b upgrade.1 (cl.line req.addr) = .sharedClean

/-! ## A cache changes -/

/-- A word that is remembered now was there before. -/
theorem Kept.before {cache' : Ccache} {j line i : ℕ} {ts : Word64} {s : LineState}
    (hkept : sys.Kept cl j line i ts s)
    (hmoves : Ccache.Moves (cl.geometry b) (sys.caches b) cache')
    (hnow : (sys.setCache b cache').statusWord cl j i line = ts) :
    sys.statusWord cl j i line = ts := by
  by_cases hj : j = b
  · subst hj
    simp only [statusWord, caches_setCache_self] at hnow
    rcases hkept.2.1 with hold | hlt
    · exact hold
    · rcases hmoves.word i (line % (cl.geometry j).columns) with hsame | hgrows
      · exact hsame.symm.trans hnow
      · rw [hnow] at hgrows
        exact absurd (hlt.trans hgrows) (lt_irrefl _)
  · rwa [statusWord, caches_setCache_of_ne sys hj] at hnow

theorem Kept.setCache {cache' : Ccache} {j line i : ℕ} {ts : Word64} {s : LineState}
    (hkept : sys.Kept cl j line i ts s)
    (hmoves : Ccache.Moves (cl.geometry b) (sys.caches b) cache') :
    (sys.setCache b cache').Kept cl j line i ts s := by
  by_cases hj : j = b
  · refine ⟨hkept.1, ?_, fun hnow => ?_⟩
    · subst hj
      simp only [statusWord, caches_setCache_self]
      rcases hmoves.word i (line % (cl.geometry j).columns) with hsame | hgrows
      · rw [hsame]
        exact hkept.2.1
      · refine .inr (lt_of_le_of_lt ?_ hgrows)
        exact hkept.2.1.elim (fun heq => (congrArg rank heq).ge) le_of_lt
    · have hbefore := hkept.before hmoves hnow
      subst hj
      rw [← hkept.2.2 hbefore]
      simp only [state, statusWord, caches_setCache_self] at hnow hbefore ⊢
      exact hmoves.same i line (hnow.trans hbefore.symm)
  · simpa only [Kept, state, statusWord, caches_setCache_of_ne sys hj] using hkept

/-- A change of one cache that keeps its lines in one way each, and out of the way
of its flights. -/
theorem Tidy.setCache {cache' : Ccache} (h : Tidy cl sys) (hport : b ∈ cl.ports)
    (hmoves : Ccache.Moves (cl.geometry b) (sys.caches b) cache')
    (hlru : cache'.lru < (cl.geometry b).ways)
    (hunique : ∀ line i i', i < (cl.geometry b).ways → i' < (cl.geometry b).ways →
      cache'.stateOf (cl.geometry b) i line ≠ .invalid →
      cache'.stateOf (cl.geometry b) i' line ≠ .invalid → i = i')
    (hlow : ∀ line i, i < (cl.geometry b).ways →
      cache'.stateOf (cl.geometry b) i line ≠ .invalid → line * cl.linesize < 2 ^ 32)
    (habsent : ∀ line u flight, sys.InFlight cl u b line flight →
      cache'.Absent (cl.geometry b) line) : Tidy cl (sys.setCache b cache') where
  unique := by
    intro line j i i' hi hi' hvalid hvalid'
    simp only [state] at hvalid hvalid'
    by_cases hj : j = b
    · subst hj
      rw [caches_setCache_self] at hvalid hvalid'
      exact hunique line i i' hi hi' hvalid hvalid'
    · rw [caches_setCache_of_ne sys hj] at hvalid hvalid'
      exact h.unique line j i i' hi hi' hvalid hvalid'
  low := by
    intro line j i hi hvalid
    simp only [state] at hvalid
    by_cases hj : j = b
    · subst hj
      rw [caches_setCache_self] at hvalid
      exact hlow line i hi hvalid
    · rw [caches_setCache_of_ne sys hj] at hvalid
      exact h.low line j i hi hvalid
  quiet := by
    intro j hj
    rw [caches_setCache_of_ne sys (by rintro rfl; exact hj hport)]
    exact h.quiet j hj
  lru := by
    intro j
    by_cases hj : j = b
    · rw [hj, caches_setCache_self]
      exact hlru
    · rw [caches_setCache_of_ne sys hj]
      exact h.lru j
  member := h.member
  sound := h.sound
  oneFlight := h.oneFlight
  absent := by
    intro line j u flight hflight
    by_cases hj : j = b
    · subst hj
      rw [caches_setCache_self]
      exact habsent line u flight hflight
    · rw [caches_setCache_of_ne sys hj]
      exact h.absent line j u flight hflight
  kept := fun line j u i ts s hmarked => (h.kept line j u i ts s hmarked).setCache hmoves
  snoopers := h.snoopers
  served := h.served

theorem Tidy.lower {cache' : Ccache} (h : Tidy cl sys) (hport : b ∈ cl.ports)
    (hlowers : Ccache.Lowers (cl.geometry b) (sys.caches b) cache')
    (hlru : cache'.lru < (cl.geometry b).ways) : Tidy cl (sys.setCache b cache') :=
  h.setCache hport hlowers.moves hlru
    (fun line i i' hi hi' hvalid hvalid' =>
      h.unique line b i i' hi hi' (hlowers.valid hvalid) (hlowers.valid hvalid'))
    (fun line i hi hvalid => h.low line b i hi (hlowers.valid hvalid))
    (fun line u flight hflight => hlowers.absent (h.absent line b u flight hflight))

/-- One line is raised that is in no other way of the cache. -/
theorem Tidy.raise {cache' : Ccache} {i line : ℕ} {news : LineState} (h : Tidy cl sys)
    (hport : b ∈ cl.ports)
    (hraises : Ccache.Raises (cl.geometry b) (sys.caches b) cache' i line news)
    (hlru : cache'.lru = (sys.caches b).lru)
    (hsole : ∀ i', i' < (cl.geometry b).ways → i' ≠ i → sys.state cl b i' line = .invalid)
    (hlow : line * cl.linesize < 2 ^ 32)
    (hown : ∀ u flight, ¬sys.InFlight cl u b line flight) :
    Tidy cl (sys.setCache b cache') := by
  refine h.setCache hport hraises.toMoves (hlru.trans_lt (h.lru b)) ?_ ?_ ?_
  · intro line' k k' hk hk' hvalid hvalid'
    by_cases hslot : k = i ∧ line' = line <;> by_cases hslot' : k' = i ∧ line' = line
    · rw [hslot.1, hslot'.1]
    · rw [hraises.valid_other hslot' hvalid'] at hvalid'
      obtain ⟨rfl, rfl⟩ := hslot
      exact absurd (hsole k' hk' fun heq => hslot' ⟨heq, rfl⟩) hvalid'
    · rw [hraises.valid_other hslot hvalid] at hvalid
      obtain ⟨rfl, rfl⟩ := hslot'
      exact absurd (hsole k hk fun heq => hslot ⟨heq, rfl⟩) hvalid
    · rw [hraises.valid_other hslot hvalid] at hvalid
      rw [hraises.valid_other hslot' hvalid'] at hvalid'
      exact h.unique line' b k k' hk hk' hvalid hvalid'
  · intro line' k hk hvalid
    by_cases hslot : k = i ∧ line' = line
    · rw [hslot.2]
      exact hlow
    · rw [hraises.valid_other hslot hvalid] at hvalid
      exact h.low line' b k hk hvalid
  · intro line' u flight hflight
    refine hraises.absent ?_ (h.absent line' b u flight hflight)
    rintro rfl
    exact hown u flight hflight

/-! ## A thread goes on -/

theorem Settles.back {u j line : ℕ} {flight' : Flight} (hsettles : Settles cl t b p sys sys')
    (hnow : sys'.InFlight cl u j line flight') : ∃ flight, sys.InFlight cl u j line flight ∧
      flight.pending = flight'.pending ∧
      ∀ j', j' ∈ cl.ports → j' ≠ j → flight'.exclusive j' → flight.exclusive j' := by
  rcases inFlight_of_update hsettles.threads hnow with ⟨rfl, rfl, hsome, hline⟩ | ⟨-, hold⟩
  · obtain ⟨flight, hsome', hline', hpending, hpending', hexclusive⟩ :=
      hsettles.flight flight' hsome
    rcases hsettles.cache with hcache | ⟨hnone, -⟩
    · exact ⟨flight, ⟨hcache, hsome', hline' ▸ hline⟩, by rw [hpending, hpending'],
        hexclusive⟩
    · rw [hnone] at hsome'
      cases hsome'
  · exact ⟨flight', hold, rfl, fun _ _ _ => id⟩

theorem Settles.upgrading {u j line i : ℕ} {ts : Word64} {pending : List ℕ}
    (hsettles : Settles cl t b p sys sys')
    (hnow : sys'.Upgrading cl u j line i ts pending) :
    sys.Upgrading cl u j line i ts pending := by
  rcases upgrading_of_update hsettles.threads hnow with
    ⟨-, -, req, notified, replies, hphase, -⟩ | ⟨-, hold⟩
  · have hsnooping := hsettles.snooping
    rw [hphase] at hsnooping
    cases hsnooping
  · exact hold

theorem Tidy.settle (h : Tidy cl sys) (hport : b ∈ cl.ports)
    (hsettles : Settles cl t b p sys sys') : Tidy cl sys' := by
  have hthreads := hsettles.threads
  have hcaches := hsettles.caches
  have hphase : ∀ u, u ≠ t → sys'.threads u = sys.threads u :=
    fun u hu => by rw [hthreads, Function.update_of_ne hu]
  have hself : sys'.threads t = { cache := b, phase := p } := by
    rw [hthreads, Function.update_self]
  have hne : ∀ u, (sys'.threads u).phase.isSnooping = true → u ≠ t := by
    rintro u hsnoop rfl
    rw [hself] at hsnoop
    rw [hsettles.snooping] at hsnoop
    cases hsnoop
  constructor
  case unique =>
    intro line j i i'
    simpa only [state, hcaches] using h.unique line j i i'
  case low =>
    intro line j i
    simpa only [state, hcaches] using h.low line j i
  case quiet => simpa only [hcaches] using h.quiet
  case lru => simpa only [hcaches] using h.lru
  case member =>
    intro u hbusy
    by_cases hu : u = t
    · rw [hu, hself]
      exact hport
    · rw [hphase u hu] at hbusy ⊢
      exact h.member u hbusy
  case sound =>
    intro u
    by_cases hu : u = t
    · rw [hu, hself]
      exact hsettles.sound
    · rw [hphase u hu]
      exact h.sound u
  case oneFlight =>
    intro line j u u' flight flight' hnow hnow'
    obtain ⟨_, hold, -⟩ := hsettles.back hnow
    obtain ⟨_, hold', -⟩ := hsettles.back hnow'
    exact h.oneFlight line j u u' _ _ hold hold'
  case absent =>
    intro line j u flight hnow
    obtain ⟨_, hold, -⟩ := hsettles.back hnow
    rw [hcaches]
    exact h.absent line j u _ hold
  case kept =>
    intro line j u i ts s hnow
    simp only [Kept, state, statusWord, hcaches]
    rcases marked_of_update hthreads hnow with ⟨-, rfl, addr, hmark, rfl⟩ | ⟨-, hold⟩
    · exact hsettles.mark addr i ts s hmark
    · exact h.kept line j u i ts s hold
  case snoopers =>
    intro u u' hsnoop hsnoop' heq
    have hu := hne u hsnoop
    have hu' := hne u' hsnoop'
    rw [hphase u hu] at hsnoop heq
    rw [hphase u' hu'] at hsnoop' heq
    exact h.snoopers u u' hsnoop hsnoop' heq
  case served =>
    intro u req ttype upgrade pending notified replies hsnoop
    have hu : u ≠ t := hne u (by rw [hsnoop]; rfl)
    rw [hphase u hu] at hsnoop ⊢
    obtain ⟨hcount, hevent, hrest⟩ := h.served u _ _ _ _ _ _ hsnoop
    refine ⟨by rw [hsettles.served, hcount], ?_, hrest⟩
    rcases hsettles.wait with hsame | ⟨hwas, hother⟩
    · rw [hsame, hevent]
    · rcases hsettles.cache with hcache | ⟨-, hidle⟩
      · rw [hother _ fun heq => hu (h.snoopers u t (by rw [hsnoop]; rfl) hwas
          (heq.trans hcache.symm)), hevent]
      · rw [hidle] at hwas
        cases hwas

/-! ## Snoops are sent -/

theorem startSnoop_eq_some {req : Request} {ttype : Transaction} {upgrade : ℕ × Word64}
    (hstart : sys.startSnoop cl t b req ttype upgrade = some sys') :
    sys.servedRequests b = 0 ∧ sys.waitEvents b = false ∧ sys'.caches = sys.caches ∧
      sys'.storage = sys.storage ∧
      sys'.servedRequests = Function.update sys.servedRequests b
        (cl.ports.filter (· ≠ b)).length ∧
      sys'.waitEvents = Function.update sys.waitEvents b true ∧
      sys'.threads = Function.update sys.threads t
        { cache := b
          phase := .snooping req ttype upgrade (cl.ports.filter (· ≠ b)) false
            fun _ => { state := .invalid, data := fun _ => 0 } } := by
  unfold startSnoop at hstart
  split at hstart
  case isTrue => cases hstart
  case isFalse hfree =>
    simp only [not_or, not_not, Bool.not_eq_true] at hfree
    obtain rfl := Option.some.inj hstart
    exact ⟨hfree.1, hfree.2, rfl, rfl, rfl, rfl, rfl⟩

section Launch

variable {req : Request} {ttype : Transaction} {upgrade : ℕ × Word64}

/-- A flight that a launch has begun waits for every other cache. -/
theorem Launches.flight {u j line : ℕ} {flight : Flight}
    (hlaunches : Launches cl t b req ttype upgrade sys sys')
    (hnow : sys'.InFlight cl u j line flight) :
    (u = t ∧ j = b ∧ ttype.isFetch = true ∧ cl.line req.addr = line ∧
        flight.pending = cl.ports.filter (· ≠ b)) ∨
      (u ≠ t ∧ sys.InFlight cl u j line flight) := by
  obtain ⟨-, -, -, -, -, -, hthreads⟩ := startSnoop_eq_some hlaunches.start
  rcases inFlight_of_update hthreads hnow with ⟨hu, hj, hsome, hline⟩ | hold
  · simp only [Phase.flight] at hsome
    split at hsome
    case isTrue htype =>
      obtain rfl := Option.some.inj hsome
      exact .inl ⟨hu, hj, htype, hline, rfl⟩
    case isFalse => cases hsome
  · exact .inr hold

theorem Launches.threads_of_ne {u : ℕ} (hlaunches : Launches cl t b req ttype upgrade sys sys')
    (hu : u ≠ t) : sys'.threads u = sys.threads u := by
  obtain ⟨-, -, -, -, -, -, hthreads⟩ := startSnoop_eq_some hlaunches.start
  rw [hthreads, Function.update_of_ne hu]

theorem Launches.caches (hlaunches : Launches cl t b req ttype upgrade sys sys') :
    sys'.caches = sys.caches := (startSnoop_eq_some hlaunches.start).2.2.1

theorem Tidy.member_of_flight {u j line : ℕ} {flight : Flight} (h : Tidy cl sys)
    (hflight : sys.InFlight cl u j line flight) : j ∈ cl.ports := by
  obtain ⟨rfl, hsome, -⟩ := hflight
  apply h.member
  intro hidle
  rw [hidle] at hsome
  cases hsome

theorem Tidy.launch (h : Tidy cl sys) (hport : b ∈ cl.ports)
    (hlaunches : Launches cl t b req ttype upgrade sys sys')
    (hclear : ttype.isFetch = true → Clear cl sys t b (cl.line req.addr)) : Tidy cl sys' := by
  obtain ⟨-, hfree, hcaches, -, hserved, hwait, hthreads⟩ := startSnoop_eq_some hlaunches.start
  have hphase : ∀ u, u ≠ t → sys'.threads u = sys.threads u :=
    fun u hu => hlaunches.threads_of_ne hu
  have hself : sys'.threads t =
      { cache := b
        phase := .snooping req ttype upgrade (cl.ports.filter (· ≠ b)) false
          fun _ => { state := .invalid, data := fun _ => 0 } } := by
    rw [hthreads, Function.update_self]
  have hwaiting : ∀ u, u ≠ t → (sys.threads u).phase.isSnooping = true →
      (sys.threads u).cache ≠ b := by
    rintro u - hsnoop rfl
    cases hq : (sys.threads u).phase with
    | snooping req' ttype' upgrade' pending notified replies =>
        have hevent := (h.served u _ _ _ _ _ _ hq).2.1
        rw [hfree] at hevent
        cases hevent
    | _ => rw [hq] at hsnoop; cases hsnoop
  constructor
  case unique =>
    intro line j i i'
    simpa only [state, hcaches] using h.unique line j i i'
  case low =>
    intro line j i
    simpa only [state, hcaches] using h.low line j i
  case quiet => simpa only [hcaches] using h.quiet
  case lru => simpa only [hcaches] using h.lru
  case member =>
    intro u hbusy
    by_cases hu : u = t
    · rw [hu, hself]
      exact hport
    · rw [hphase u hu] at hbusy ⊢
      exact h.member u hbusy
  case sound =>
    intro u
    by_cases hu : u = t
    · rw [hu, hself]
      exact ⟨hlaunches.read, hlaunches.cached⟩
    · rw [hphase u hu]
      exact h.sound u
  case oneFlight =>
    intro line j u u' flight flight' hnow hnow'
    rcases hlaunches.flight hnow with ⟨hu, hj, hfetch, hline, -⟩ | ⟨hu, hold⟩ <;>
      rcases hlaunches.flight hnow' with ⟨hu', hj', hfetch', hline', -⟩ | ⟨hu', hold'⟩
    · rw [hu, hu']
    · rw [← hline, hj] at hold'
      exact absurd hold' (hclear hfetch u' flight' hu')
    · rw [← hline', hj'] at hold
      exact absurd hold (hclear hfetch' u flight hu)
    · exact h.oneFlight line j u u' flight flight' hold hold'
  case absent =>
    intro line j u flight hnow
    rw [hcaches]
    rcases hlaunches.flight hnow with ⟨rfl, rfl, hfetch, rfl, -⟩ | ⟨hu, hold⟩
    · exact hlaunches.absent (.inl hfetch)
    · exact h.absent line j u flight hold
  case kept =>
    intro line j u i ts s hnow
    simp only [Kept, state, statusWord, hcaches]
    rcases marked_of_update hthreads hnow with ⟨-, rfl, addr, hmark, rfl⟩ | ⟨-, hold⟩
    · cases ttype <;> try cases hmark
      obtain ⟨hway, hword, hstate⟩ := hlaunches.shared rfl
      rw [statusWord] at hword
      refine ⟨hway, ?_, fun _ => hstate⟩
      rw [← hword]
      exact eq_and_not_one_or_rank_lt upgrade.2
    · exact h.kept line j u i ts s hold
  case snoopers =>
    intro u u' hsnoop hsnoop' heq
    by_cases hu : u = t <;> by_cases hu' : u' = t
    · rw [hu, hu']
    · rw [hphase u' hu'] at hsnoop' heq
      rw [hu, hself] at heq
      exact absurd heq.symm (hwaiting u' hu' hsnoop')
    · rw [hphase u hu] at hsnoop heq
      rw [hu', hself] at heq
      exact absurd heq (hwaiting u hu hsnoop)
    · rw [hphase u hu] at hsnoop heq
      rw [hphase u' hu'] at hsnoop' heq
      exact h.snoopers u u' hsnoop hsnoop' heq
  case served =>
    intro u req' ttype' upgrade' pending notified replies hq
    by_cases hu : u = t
    · rw [hu, hself] at hq ⊢
      injection hq with hreq htype hupgrade hpending hnotified
      subst hpending hnotified
      rw [hserved, hwait, Function.update_self, Function.update_self]
      refine ⟨rfl, rfl, (by intro h; cases h), fun j => List.mem_of_mem_filter,
        (nodup_ports cl).filter _, ?_⟩
      exact fun hmem => (mem_others.mp hmem).2 rfl
    · rw [hphase u hu] at hq ⊢
      have hne := hwaiting u hu (by rw [hq]; rfl)
      rw [hserved, hwait, Function.update_of_ne hne, Function.update_of_ne hne]
      exact h.served u _ _ _ _ _ _ hq

end Launch

end System

end Prazor.Caches
