import Prazor.Caches.Moves

/-!
# Invariants of the steps

An invariant of the states of the lines, on top of tidiness, is shown for the
moves of a thread and for the answers to snoops; here it is carried to the steps
of the cluster.  What snoops a thread may send when is a policy, a parameter.
-/

namespace Prazor.Caches

namespace System

variable {cl : Cluster} {Asked : Request → Prop} {sys sys' : System} {t b j addr : ℕ}

/-! ## Pieces of one thread -/

/-- What snoops thread `t` may send depends on the other threads only.  Other
caches may always be asked to give up a line; a line that is nowhere in flight in
its cache may be evicted, and only such a line is fetched. -/
structure Policy (cl : Cluster) (t b addr : ℕ) (permits : Transaction → System → Prop) :
    Prop where
  stable : ∀ ttype s s', (∀ u, u ≠ t → s'.threads u = s.threads u) → permits ttype s →
    permits ttype s'
  flush : ∀ s, Clear cl s t b (cl.line addr) → permits .evict s
  invalidate : ∀ s, permits .makeInvalid s
  clear : ∀ ttype s, permits ttype s → ttype.isFetch = true → Clear cl s t b (cl.line addr)

theorem Clear.congr {line : ℕ} (hclear : Clear cl sys t b line)
    (hthreads : ∀ u, u ≠ t → sys'.threads u = sys.threads u) : Clear cl sys' t b line := by
  intro u flight hu hflight
  refine hclear u flight hu ?_
  rwa [InFlight, hthreads u hu] at hflight

theorem Run.threads_of_ne (hrun : Run cl Asked t b addr sys sys') {u : ℕ} (hu : u ≠ t) :
    sys'.threads u = sys.threads u := by
  cases hrun with
  | fetch _ _ _ _ _ hstart | makeInvalid _ _ _ _ _ _ hstart | evictMiss _ _ _ _ _ hstart =>
      obtain ⟨-, -, -, -, -, -, hthreads⟩ := startSnoop_eq_some hstart
      rw [hthreads, Function.update_of_ne hu]
  | evictHit _ _ _ _ _ _ _ _ hstart =>
      obtain ⟨-, -, -, -, -, -, hthreads⟩ := startSnoop_eq_some hstart
      rw [hthreads, Function.update_of_ne hu, threads_setCache, threads_setPhase_of_ne sys hu]
  | lower => rfl
  | _ => exact Function.update_of_ne hu _ _

theorem Run.cache_eq (hrun : Run cl Asked t b addr sys sys') (hcache : (sys.threads t).cache = b) :
    (sys'.threads t).cache = b := by
  cases hrun with
  | fetch _ _ _ _ _ hstart | makeInvalid _ _ _ _ _ _ hstart | evictMiss _ _ _ _ _ hstart
  | evictHit _ _ _ _ _ _ _ _ hstart =>
      obtain ⟨-, -, -, -, -, -, hthreads⟩ := startSnoop_eq_some hstart
      rw [hthreads, Function.update_self]
  | lower => exact hcache
  | _ => rw [threads_setPhase_self]

theorem Run.bypasses (hrun : Run cl Asked t b addr sys sys')
    (hbypasses : (sys.threads t).phase.bypasses = true) :
    (sys'.threads t).phase.bypasses = true := by
  cases hrun with
  | lower => exact hbypasses
  | evictMiss _ _ _ _ _ hstart | evictHit _ _ _ _ _ _ _ _ hstart =>
      obtain ⟨-, -, -, -, -, -, hthreads⟩ := startSnoop_eq_some hstart
      rw [hthreads, Function.update_self]
      rfl
  | fetch hphase | makeInvalid hphase | upgrade hphase | lost hphase
  | wakeGarbage _ hphase | serveFetch hphase | serveVictim hphase | read hphase | victim hphase
  | abandon hphase =>
      rw [hphase] at hbypasses
      cases hbypasses
  | insert hphase =>
      rcases hphase with ⟨hphase, -⟩ | ⟨ts, write, hphase, -⟩ <;> rw [hphase] at hbypasses <;>
        cases hbypasses
  | @wakeArrive _ ttype _ _ _ _ _ hphase htype =>
      rw [hphase] at hbypasses
      cases ttype <;> first | exact absurd htype (by decide) | cases hbypasses
  | @wakeMiss _ ttype _ _ _ hphase htype =>
      rw [hphase] at hbypasses
      rcases htype with rfl | rfl <;> cases hbypasses
  | @spilled _ ttype _ hphase htype =>
      rw [hphase] at hbypasses
      cases ttype <;> first | exact absurd rfl htype | cases hbypasses
  | @wakeSpill _ ttype _ _ _ _ hphase | @serveSpill _ ttype _ hphase =>
      rw [hphase] at hbypasses
      rw [threads_setPhase_self]
      cases ttype <;> first | rfl | cases hbypasses
  | _ =>
      rw [threads_setPhase_self]
      rfl

section Lift

variable {permits : Transaction → System → Prop} {Inv : System → Prop}

/-- What every move keeps, one piece of a thread keeps. -/
theorem Tidy.run (h : Tidy cl sys) (hinv : Inv sys) (hpolicy : Policy cl t b addr permits)
    (hmove : ∀ s s', Tidy cl s → Inv s → Move cl permits t b addr s s' → Inv s')
    (hrun : Run cl Asked t b addr sys sys') (hcache : (sys.threads t).cache = b)
    (hport : b ∈ cl.ports)
    (hidle : (sys.threads t).phase = .idle → ∀ ttype,
      (ttype.isFetch = true → (sys'.threads t).phase.bypasses = false) → permits ttype sys) :
    Tidy cl sys' ∧ Inv sys' := by
  have hmoves := hrun.moves h hcache hpolicy.stable hidle (hpolicy.flush sys)
  clear hrun hcache hidle
  induction hmoves with
  | refl => exact ⟨h, hinv⟩
  | tail _ hlast ih =>
      obtain ⟨htidy, hinv⟩ := ih
      exact ⟨htidy.move hport hpolicy.clear hlast, hmove _ _ htidy hinv hlast⟩

/-- What every move keeps, a chain of pieces keeps. -/
theorem Tidy.runs (h : Tidy cl sys) (hinv : Inv sys) (hpolicy : Policy cl t b addr permits)
    (hmove : ∀ s s', Tidy cl s → Inv s → Move cl permits t b addr s s' → Inv s')
    (hruns : Runs cl Asked t b addr sys sys') (hcache : (sys.threads t).cache = b)
    (hport : b ∈ cl.ports)
    (hpermits : (sys.threads t).phase.bypasses = true ∨ ∀ ttype, permits ttype sys) :
    Tidy cl sys' ∧ Inv sys' := by
  induction hruns using Relation.ReflTransGen.head_induction_on with
  | refl => exact ⟨h, hinv⟩
  | head hrun _ ih =>
      obtain ⟨htidy, hinv⟩ := h.run hinv hpolicy hmove hrun hcache hport
        fun hphase ttype _ => hpermits.resolve_left (by rw [hphase]; decide) ttype
      refine ih htidy hinv (hrun.cache_eq hcache) ?_
      exact hpermits.imp hrun.bypasses fun hall ttype =>
        hpolicy.stable ttype _ _ (fun u hu => hrun.threads_of_ne hu) (hall ttype)

end Lift

/-! ## The answers -/

section Answers

variable {req : Request} {ttype : Transaction} {upgrade : ℕ × Word64} {pending : List ℕ}
variable {notified : Bool} {replies : ℕ → Reply} {reply : Reply}

/-- A snoop of a cached address is about the line of the address. -/
theorem line_lineAddr {a : ℕ} (cl : Cluster) (j : ℕ) (hsmall : a < 2 ^ 32) :
    (cl.geometry j).line (cl.lineAddr a) = cl.line a := by
  have hpos : 0 < cl.linesize := Nat.two_pow_pos _
  rw [line_eq, Cluster.line, Cluster.lineAddr, Nat.mod_eq_of_lt hsmall,
    Nat.mul_div_cancel _ hpos, Cluster.line]

theorem lt_of_cached {a : ℕ} (hcached : uncached a = false) : a < 2 ^ 32 := by
  simp only [uncached, decide_eq_false_iff_not, not_le] at hcached
  omega

/-- The answer of cache `j` is entered, after `j` has done what the snoop asks
for. -/
structure Answers (t b j : ℕ) (req : Request) (ttype : Transaction) (upgrade : ℕ × Word64)
    (pending : List ℕ) (notified : Bool) (replies : ℕ → Reply) (reply : Reply)
    (sys sys' : System) : Prop where
  cache : (sys.threads t).cache = b
  phase : (sys.threads t).phase = .snooping req ttype upgrade pending notified replies
  mem : j ∈ pending
  caches : sys'.caches = sys.caches
  storage : sys'.storage = sys.storage
  wait : sys'.waitEvents = sys.waitEvents
  served : sys'.servedRequests =
    Function.update sys.servedRequests b (sys.servedRequests b - 1)
  threads : sys'.threads = Function.update sys.threads t
    { cache := b
      phase := .snooping req ttype upgrade (pending.erase j)
        (sys.servedRequests b - 1 = 0) (Function.update replies j reply) }

/-- A cache answers: what it does to the line, and that the answer is entered. -/
theorem reply_eq_some (hstep : sys.step cl (.reply t j) = some sys') :
    ∃ req ttype upgrade pending notified replies cache' reply,
      (sys.threads t).phase = .snooping req ttype upgrade pending notified replies ∧
      j ∈ pending ∧
      sys.answerSnoop cl j ttype (cl.lineAddr req.addr) = some (cache', reply) ∧
      Answers t (sys.threads t).cache j req ttype upgrade pending notified replies reply
        (sys.setCache j cache') sys' := by
  simp only [step] at hstep
  split at hstep
  case h_1 req ttype upgrade pending notified replies hphase =>
    split at hstep
    case isFalse => cases hstep
    case isTrue hj =>
      obtain ⟨answer, hanswer, rfl⟩ := Option.map_eq_some_iff.mp hstep
      exact ⟨req, ttype, upgrade, pending, notified, replies, answer.1, answer.2, hphase, hj,
        hanswer, ⟨rfl, hphase, hj, rfl, rfl, rfl, rfl, rfl⟩⟩
  case h_2 => cases hstep

/-- What a cache has done when it has answered. -/
theorem answerSnoop_spec {lineAddr : ℕ} {cache' : Ccache} (hroom : (sys.caches j).Room 1)
    (hanswer : sys.answerSnoop cl j ttype lineAddr = some (cache', reply)) :
    Ccache.Lowers (cl.geometry j) (sys.caches j) cache' ∧
      cache'.lru = (sys.caches j).lru ∧
      (((sys.caches j).Absent (cl.geometry j) ((cl.geometry j).line lineAddr) ∧
          cache' = sys.caches j ∧ reply.state = .invalid) ∨
        ∃ i, Ccache.Found (cl.geometry j) (sys.caches j) ((cl.geometry j).line lineAddr) i ∧
          ((ttype = .makeInvalid ∧ (sys.caches j).stateOf (cl.geometry j) i
              ((cl.geometry j).line lineAddr) ≠ .sharedClean ∧ cache' = sys.caches j) ∨
            Ccache.Snooped (cl.geometry j) (sys.caches j) cache' reply
              ((cl.geometry j).line lineAddr) i
              (if ttype = .readShared then .sharedClean else .invalid))) := by
  unfold answerSnoop at hanswer
  dsimp only at hanswer
  split at hanswer
  case isTrue htype =>
    subst htype
    obtain ⟨hlowers, hlru, habsent | ⟨i, hfound, hcases⟩⟩ :=
      Ccache.snoopMakeInvalid_spec hroom hanswer
    · exact ⟨hlowers, hlru, .inl habsent⟩
    · exact ⟨hlowers, hlru, .inr ⟨i, hfound, hcases.imp_left fun h => ⟨rfl, h⟩⟩⟩
  case isFalse htype =>
    split at hanswer
    case isTrue => cases hanswer
    case isFalse =>
      obtain ⟨hlowers, hlru, habsent | ⟨i, -, -, hsnooped⟩⟩ :=
        Ccache.snoopLine_spec hroom hanswer
      · exact ⟨hlowers, hlru, .inl habsent⟩
      · refine ⟨hlowers, hlru, .inr ⟨i, hsnooped.toFound, .inr ?_⟩⟩
        simpa only [decide_eq_true_eq] using hsnooped

/-- A line that is not only shared with the requester is gone after the answer. -/
theorem Tidy.absent_of_snooped {i line : ℕ} {cache' : Ccache} {left : LineState}
    (h : Tidy cl sys) (hlowers : Ccache.Lowers (cl.geometry j) (sys.caches j) cache')
    (hsnooped : Ccache.Snooped (cl.geometry j) (sys.caches j) cache' reply line i left)
    (hleft : left = .invalid) : cache'.Absent (cl.geometry j) line :=
  h.absent_of_gone hsnooped.way hsnooped.valid hlowers (hsnooped.left_state.trans hleft)

section Entered

variable (ha : Answers t b j req ttype upgrade pending notified replies reply sys sys')

include ha

theorem Answers.threads_of_ne {u : ℕ} (hu : u ≠ t) : sys'.threads u = sys.threads u := by
  rw [ha.threads, Function.update_of_ne hu]

theorem Answers.threads_self : sys'.threads t =
    { cache := b
      phase := .snooping req ttype upgrade (pending.erase j)
        (sys.servedRequests b - 1 = 0) (Function.update replies j reply) } := by
  rw [ha.threads, Function.update_self]

/-- The flights after an answer: that of the requester has one answer more. -/
theorem Answers.flight {u k line : ℕ} {flight : Flight}
    (hnow : sys'.InFlight cl u k line flight) :
    (u = t ∧ k = b ∧ ttype.isFetch = true ∧ cl.line req.addr = line ∧
        flight.pending = pending.erase j ∧
        ∃ old, sys.InFlight cl t b line old ∧ old.pending = pending ∧
          (∀ k, k ≠ j → flight.exclusive k → old.exclusive k) ∧
          (flight.exclusive j → ttype ≠ .readShared ∨ reply.state = .invalid)) ∨
      (u ≠ t ∧ sys.InFlight cl u k line flight) := by
  rcases inFlight_of_update ha.threads hnow with ⟨hu, hk, hsome, hline⟩ | hold
  · simp only [Phase.flight] at hsome
    split at hsome
    case isFalse => cases hsome
    case isTrue htype =>
      obtain rfl := Option.some.inj hsome
      let old : Flight :=
        { addr := req.addr, pending := pending
          exclusive := fun k => ttype ≠ .readShared ∨ (replies k).state = .invalid }
      refine .inl ⟨hu, hk, htype, hline, rfl, old, ⟨ha.cache, ?_, hline⟩, rfl, ?_, ?_⟩
      · rw [ha.phase, Phase.flight, if_pos htype]
      · intro k hk hexclusive
        dsimp only at hexclusive
        rwa [Function.update_of_ne hk] at hexclusive
      · intro hexclusive
        dsimp only at hexclusive
        rwa [Function.update_self] at hexclusive
  · exact .inr hold

/-- Every flight was there before the answer. -/
theorem Answers.back {u k line : ℕ} {flight : Flight}
    (hnow : sys'.InFlight cl u k line flight) : ∃ old, sys.InFlight cl u k line old := by
  rcases ha.flight hnow with ⟨rfl, rfl, -, -, -, old, hold, -⟩ | ⟨-, hold⟩
  · exact ⟨old, hold⟩
  · exact ⟨flight, hold⟩

theorem Answers.marked {u k line i : ℕ} {ts : Word64} {s : LineState}
    (hnow : sys'.Marked cl u k line i ts s) : sys.Marked cl u k line i ts s := by
  rcases marked_of_update ha.threads hnow with ⟨rfl, rfl, hmark⟩ | ⟨-, hold⟩
  · refine ⟨ha.cache, ?_⟩
    rw [ha.phase]
    obtain ⟨addr, hmark, hline⟩ := hmark
    refine ⟨addr, ?_, hline⟩
    cases ttype <;> exact hmark
  · exact hold

theorem Tidy.answer (h : Tidy cl sys) : Tidy cl sys' := by
  have hcaches := ha.caches
  obtain ⟨hcount, hevent, -, hports, hnodup, hself⟩ := h.served t _ _ _ _ _ _ ha.phase
  rw [ha.cache] at hcount hevent hself
  constructor
  case unique =>
    intro line k i i'
    simpa only [state, hcaches] using h.unique line k i i'
  case low =>
    intro line k i
    simpa only [state, hcaches] using h.low line k i
  case quiet => simpa only [hcaches] using h.quiet
  case lru => simpa only [hcaches] using h.lru
  case member =>
    intro u hbusy
    by_cases hu : u = t
    · rw [hu, ha.threads_self, ← ha.cache]
      exact h.member t (by rw [ha.phase]; simp)
    · rw [ha.threads_of_ne hu] at hbusy ⊢
      exact h.member u hbusy
  case sound =>
    intro u
    by_cases hu : u = t
    · have hold := h.sound t
      rw [ha.phase] at hold
      rw [hu, ha.threads_self]
      exact hold
    · rw [ha.threads_of_ne hu]
      exact h.sound u
  case oneFlight =>
    intro line k u u' flight flight' hnow hnow'
    obtain ⟨_, hold⟩ := ha.back hnow
    obtain ⟨_, hold'⟩ := ha.back hnow'
    exact h.oneFlight line k u u' _ _ hold hold'
  case absent =>
    intro line k u flight hnow
    obtain ⟨_, hold⟩ := ha.back hnow
    rw [hcaches]
    exact h.absent line k u _ hold
  case kept =>
    intro line k u i ts s hnow
    simpa only [Kept, state, statusWord, hcaches] using h.kept line k u i ts s (ha.marked hnow)
  case snoopers =>
    have hwas : ∀ u, (sys'.threads u).phase.isSnooping = true →
        (sys.threads u).phase.isSnooping = true := by
      intro u hsnoop
      by_cases hu : u = t
      · rw [hu, ha.phase]
        rfl
      · rwa [ha.threads_of_ne hu] at hsnoop
    have hport : ∀ u, (sys'.threads u).cache = (sys.threads u).cache := by
      intro u
      by_cases hu : u = t
      · rw [hu, ha.threads_self, ha.cache]
      · rw [ha.threads_of_ne hu]
    intro u u' hsnoop hsnoop' heq
    rw [hport, hport] at heq
    exact h.snoopers u u' (hwas u hsnoop) (hwas u' hsnoop') heq
  case served =>
    intro u req' ttype' upgrade' pending' notified' replies' hq
    by_cases hu : u = t
    · rw [hu, ha.threads_self] at hq ⊢
      injection hq with hreq htype hupgrade hpending hnot
      subst hpending hnot
      have hlength := List.length_erase_of_mem ha.mem
      rw [ha.served, ha.wait, Function.update_self, hcount]
      refine ⟨hlength.symm, hevent, ?_, ?_, hnodup.erase j, ?_⟩
      · intro hzero
        rw [decide_eq_true_eq, ← hlength] at hzero
        exact List.length_eq_zero_iff.mp hzero
      · exact fun k hk => hports (List.mem_of_mem_erase hk)
      · exact fun hmem => hself (List.mem_of_mem_erase hmem)
    · rw [ha.threads_of_ne hu] at hq ⊢
      have hne : (sys.threads u).cache ≠ b := by
        rintro heq
        exact hu (h.snoopers u t (by rw [hq]; rfl) (by rw [ha.phase]; rfl)
          (heq.trans ha.cache.symm))
      rw [ha.served, ha.wait, Function.update_of_ne hne]
      exact h.served u _ _ _ _ _ _ hq

end Entered

end Answers

/-! ## The steps -/

/-- No status word is about to start its versions again. -/
def NoWrap (sys : System) : Prop := ∀ b, (sys.caches b).Room 3

theorem mem_ports {cl : Cluster} {b : ℕ} : b ∈ cl.ports ↔ cl.snooped b = true := by
  rw [Cluster.ports, List.mem_filter, List.mem_range]
  refine ⟨And.right, fun hsnooped => ⟨?_, hsnooped⟩⟩
  by_contra hlength
  rw [Cluster.snooped, List.getD_eq_default _ _ (not_lt.mp hlength)] at hsnooped
  cases hsnooped

theorem Tidy.ready (h : Tidy cl sys) (hroom : NoWrap sys)
    (hbusy : (sys.threads t).phase ≠ .idle) : Ready cl sys t (sys.threads t).cache where
  cache := rfl
  snooped := mem_ports.mp (h.member t hbusy)
  room := hroom _
  lru := h.lru _
  upgrade := by
    intro req upgrade pending notified replies hphase
    obtain ⟨hway, -, hstate⟩ := h.kept _ _ t upgrade.1 (upgrade.2 &&& ~~~1) .sharedClean
      ⟨rfl, req.addr, by rw [hphase]; rfl, rfl⟩
    rw [line_eq]
    refine ⟨hway, fun hword => ?_⟩
    have hshared := hstate hword
    rw [state] at hshared
    rw [hshared]
    decide
  way := by
    intro req cline news i ts write stored hphase
    have hsound := h.sound t
    rw [hphase] at hsound
    exact hsound.1

/-- A thread that does not wait to upgrade a line fetches no line, or has the line
in flight already. -/
theorem Tidy.bypasses_or_flight (h : Tidy cl sys) (hbusy : (sys.threads t).phase ≠ .idle) :
    (sys.threads t).phase.bypasses = true ∨
      (∃ req upgrade pending notified replies, (sys.threads t).phase =
        .snooping req .makeInvalid upgrade pending notified replies) ∨
      ∃ flight, sys.InFlight cl t (sys.threads t).cache
        (cl.line (sys.threads t).phase.addr) flight := by
  have hsound := h.sound t
  cases hphase : (sys.threads t).phase with
  | idle => exact absurd hphase hbusy
  | snooping req ttype upgrade pending notified replies =>
      cases ttype with
      | evict => exact .inl rfl
      | makeInvalid => exact .inr (.inl ⟨_, _, _, _, _, rfl⟩)
      | readShared | readUnique | makeUnique =>
          exact .inr (.inr ⟨_, rfl, congrArg Phase.flight hphase, rfl⟩)
  | spilling req ttype data stored =>
      rw [hphase] at hsound
      cases ttype with
      | evict => exact .inl rfl
      | makeInvalid => exact absurd rfl hsound.2.1
      | readShared | readUnique | makeUnique =>
          exact .inr (.inr ⟨_, rfl, congrArg Phase.flight hphase, rfl⟩)
  | fetching | arriving | evicting =>
      exact .inr (.inr ⟨_, rfl, congrArg Phase.flight hphase, rfl⟩)
  | flushing | forwarding | done => exact .inl rfl

/-- The line of a thread that has it in flight is clear of the other threads. -/
theorem Tidy.clear_of_flight (h : Tidy cl sys) {line : ℕ} {flight : Flight}
    (hflight : sys.InFlight cl t b line flight) : Clear cl sys t b line :=
  fun u flight' hu hflight' => hu (h.oneFlight line b u t flight' flight hflight' hflight)

section Actions

variable {permits : ℕ → ℕ → ℕ → Transaction → System → Prop} {Inv : System → Prop}

/-- What a request has to be permitted when it starts: all snoops if it may fetch,
evictions if it is linked. -/
def StartPermitted (permits : ℕ → ℕ → ℕ → Transaction → System → Prop) (sys : System)
    (t b : ℕ) (req : Request) : Prop :=
  (req.linked.isSome → permits t b req.addr .evict sys) ∧
    (req.linked = none → uncached req.addr = false → ∀ ttype, permits t b req.addr ttype sys)

theorem Tidy.start {req : Request} (h : Tidy cl sys) (hinv : Inv sys)
    (hpolicy : ∀ t b addr, Policy cl t b addr (permits t b addr))
    (hmove : ∀ t b addr s s', b ∈ cl.ports → Tidy cl s → Inv s →
      Move cl (permits t b addr) t b addr s s' → Inv s')
    (hroom : NoWrap sys) (hsnooped : cl.snooped b = true)
    (hpermitted : StartPermitted permits sys t b req)
    (hstep : sys.step cl (.start t b req) = some sys') : Tidy cl sys' ∧ Inv sys' := by
  have hport := mem_ports.mpr hsnooped
  have hself : (sys.setPhase t b .idle).threads t = { cache := b, phase := .idle } :=
    threads_setPhase_self sys t b .idle
  have hfree : (sys.threads t).phase.flight = none ∧
      (sys.threads t).phase.isSnooping = false ∧
      (sys.setPhase t b .idle).start cl t b req = some sys' := by
    simp only [step] at hstep
    split at hstep
    case h_1 hphase => exact ⟨by rw [hphase]; rfl, by rw [hphase]; rfl, hstep⟩
    case h_2 hphase => exact ⟨by rw [hphase]; rfl, by rw [hphase]; rfl, hstep⟩
    case h_3 => cases hstep
  obtain ⟨hnone, hsnooping, hstart⟩ := hfree
  have hsettles : Settles cl t b .idle sys (sys.setPhase t b .idle) :=
    ⟨.inr ⟨hnone, hsnooping⟩, rfl, rfl, rfl, .inl rfl, rfl, trivial,
      (fun _ hsome => by cases hsome), (fun _ _ hsome => by cases hsome),
      (fun _ _ _ _ hsome => by cases hsome)⟩
  have hidle : Tidy cl (sys.setPhase t b .idle) := h.settle hport hsettles
  have hinv' : Inv (sys.setPhase t b .idle) :=
    hmove t b req.addr _ _ hport h hinv (.settle hsettles)
  have hstable : ∀ ttype, permits t b req.addr ttype sys →
      permits t b req.addr ttype (sys.setPhase t b .idle) :=
    fun ttype => (hpolicy t b req.addr).stable ttype _ _
      fun u hu => threads_setPhase_of_ne sys hu b .idle
  have hroom' : ((sys.setPhase t b .idle).caches b).Room 1 := (hroom b).mono (by omega)
  have hkeeps := fun s s' => hmove t b req.addr s s' hport
  by_cases hlinked : req.linked.isSome
  · obtain ⟨hrun, hbypasses⟩ : Run cl (fun _ => True) t b req.addr _ _ ∧ _ :=
      start_run trivial hself (.inl hlinked) hsnooped hroom' hstart
    refine hidle.run hinv' (hpolicy t b req.addr) hkeeps hrun (congrArg Thread.cache hself)
      hport fun _ ttype hfetch => hstable ttype ?_
    rw [hbypasses] at hfetch
    cases ttype with
    | evict => exact hpermitted.1 hlinked
    | makeInvalid => exact (hpolicy t b req.addr).invalidate sys
    | readShared | readUnique | makeUnique => exact absurd (hfetch rfl) (by decide)
  · have hunlinked : req.linked = none := by simpa using hlinked
    by_cases huncached : uncached req.addr = true
    · unfold System.start at hstart
      rw [if_neg hlinked, if_pos huncached, Option.some.injEq] at hstart
      subst hstart
      have hforward : Settles cl t b (.forwarding req none) (sys.setPhase t b .idle)
          ((sys.setPhase t b .idle).setPhase t b (.forwarding req none)) :=
        .forget (congrArg Thread.cache hself) rfl rfl rfl (.inl rfl) rfl trivial rfl
          (if_neg hlinked) rfl
      exact ⟨hidle.settle hport hforward, hkeeps _ _ hidle hinv' (.settle hforward)⟩
    · have hcached : uncached req.addr = false := by simpa using huncached
      have hruns : Runs cl (fun _ => True) t b req.addr _ _ :=
        start_runs trivial hself hsnooped hroom' hstart
      refine hidle.runs hinv' (hpolicy t b req.addr) hkeeps hruns (congrArg Thread.cache hself)
        hport (.inr fun ttype => hstable ttype (hpermitted.2 hunlinked hcached ttype))

/-- What the moves of the threads and the answers to snoops keep, a step keeps. -/
theorem Tidy.step {a : Action} (h : Tidy cl sys) (hinv : Inv sys)
    (hpolicy : ∀ t b addr, Policy cl t b addr (permits t b addr))
    (hmove : ∀ t b addr s s', b ∈ cl.ports → Tidy cl s → Inv s →
      Move cl (permits t b addr) t b addr s s' → Inv s')
    (hreply : ∀ t j, a = .reply t j → Inv sys')
    (hroom : NoWrap sys)
    (hstart : ∀ t b req, a = .start t b req →
      cl.snooped b = true ∧ StartPermitted permits sys t b req)
    (hwake : ∀ t garbage returned req upgrade pending notified replies,
      a = .wake t garbage returned → (sys.threads t).phase =
        .snooping req .makeInvalid upgrade pending notified replies →
      ∀ ttype, permits t (sys.threads t).cache req.addr ttype sys)
    (hflight : ∀ t flight, sys.InFlight cl t (sys.threads t).cache
        (cl.line (sys.threads t).phase.addr) flight →
      ∀ ttype, permits t (sys.threads t).cache (sys.threads t).phase.addr ttype sys)
    (hstep : sys.step cl a = some sys') : Tidy cl sys' ∧ Inv sys' := by
  have hbusy : ∀ {t}, (a = .serve t ∨ (∃ r, a = .resume t r) ∨
      ∃ garbage r, a = .wake t garbage r) → (sys.threads t).phase ≠ .idle := by
    rintro t (rfl | ⟨r, rfl⟩ | ⟨garbage, r, rfl⟩) hidle <;>
      simp [System.step, hidle] at hstep
  -- a thread that goes on may send what it needs
  have hgoes : ∀ {t}, (sys.threads t).phase ≠ .idle →
      (∀ req upgrade pending notified replies, (sys.threads t).phase =
        .snooping req .makeInvalid upgrade pending notified replies →
        ∀ ttype, permits t (sys.threads t).cache req.addr ttype sys) →
      Runs cl (fun _ => True) t (sys.threads t).cache (sys.threads t).phase.addr sys sys' →
      Tidy cl sys' ∧ Inv sys' := by
    intro t hne hupgrade hruns
    have hport := h.member t hne
    refine h.runs hinv (hpolicy t _ _) (fun s s' => hmove t _ _ s s' hport) hruns rfl hport ?_
    rcases h.bypasses_or_flight hne with hbypasses | ⟨req, _, _, _, _, hphase⟩ | ⟨flight, hfl⟩
    · exact .inl hbypasses
    · refine .inr ?_
      rw [hphase]
      exact hupgrade _ _ _ _ _ hphase
    · exact .inr (hflight t flight hfl)
  cases a with
  | start t b req =>
      obtain ⟨hsnooped, hpermitted⟩ := hstart t b req rfl
      exact h.start hinv hpolicy hmove hroom hsnooped hpermitted hstep
  | reply t j =>
      obtain ⟨req, ttype, upgrade, pending, notified, replies, cache', reply, hphase, hj,
        hanswer, ha⟩ := reply_eq_some hstep
      have hport : j ∈ cl.ports := (h.served t _ _ _ _ _ _ hphase).2.2.2.1 hj
      obtain ⟨hlowers, hlru, -⟩ := answerSnoop_spec ((hroom j).mono (by omega)) hanswer
      exact ⟨(h.lower hport hlowers (hlru.trans_lt (h.lru j))).answer ha, hreply t j rfl⟩
  | wake t garbage returned =>
      have hne := hbusy (.inr (.inr ⟨garbage, returned, rfl⟩))
      exact hgoes hne (fun req upgrade pending notified replies =>
        hwake t garbage returned req upgrade pending notified replies rfl)
        (wake_runs (h.ready hroom hne) (Phase.asksFor_true _) (fun _ _ _ h => h) hstep)
  | serve t =>
      have hne := hbusy (.inl rfl)
      refine hgoes hne ?_ (serve_runs rfl hstep)
      intro req upgrade pending notified replies hphase
      simp [System.step, hphase] at hstep
  | resume t returned =>
      have hne := hbusy (.inr (.inl ⟨returned, rfl⟩))
      refine hgoes hne ?_ (resume_runs (h.ready hroom hne) (Phase.asksFor_true _) hstep)
      intro req upgrade pending notified replies hphase
      simp [System.step, hphase] at hstep

end Actions

/-- Before the first request the caches are empty. -/
theorem Tidy.powerOn (cl : Cluster) (memory : Memory) : Tidy cl (powerOn memory) := by
  have hstate : ∀ b i line, i < (cl.geometry b).ways →
      (System.powerOn memory).state cl b i line = .invalid :=
    fun b i line hi => Ccache.fresh_absent (cl.geometry b) line i hi
  have hflight : ∀ {t b line flight}, ¬(System.powerOn memory).InFlight cl t b line flight := by
    rintro t b line flight ⟨-, hsome, -⟩
    cases hsome
  constructor
  case unique => exact fun line b i i' hi _ hvalid => absurd (hstate b i line hi) hvalid
  case low => exact fun line b i hi hvalid => absurd (hstate b i line hi) hvalid
  case quiet => exact fun b _ => rfl
  case lru => exact fun b => (cl.geometry b).ways_pos
  case member => exact fun t hbusy => absurd rfl hbusy
  case sound => exact fun t => trivial
  case oneFlight => exact fun line b t t' flight flight' h => absurd h hflight
  case absent => exact fun line b t flight h => absurd h hflight
  case kept =>
    rintro line b t i ts s ⟨-, addr, hmark, -⟩
    cases hmark
  case snoopers =>
    intro t t' h
    cases h
  case served =>
    intro t req ttype upgrade pending notified replies hphase
    cases hphase

end System

end Prazor.Caches
