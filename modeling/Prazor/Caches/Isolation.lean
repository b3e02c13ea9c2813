import Prazor.Caches.Steps

/-!
# A line is in no cache while a linked access is on its way

A linked request gives up the line in its own cache, has the others give it up,
and then goes to the storage.  Nothing keeps a cache from fetching the line again
in between, or from inserting a line it was fetching all the time.  In runs where
that does not happen the line is in no cache until the access has been served.
-/

namespace Prazor.Caches

namespace System

variable (cl : Cluster) (sys : System)

/-- A cache that has given up a line for a linked request has it neither in a way
nor in flight. -/
def Isolated : Prop :=
  ∀ t addr pending, (sys.threads t).phase.flushed = some (addr, pending) →
    ∀ j, j ∉ pending → (sys.caches j).Absent (cl.geometry j) (cl.line addr) ∧
      ∀ u flight, ¬sys.InFlight cl u j (cl.line addr) flight

/-- The cache has given up the line for no linked request of another thread. -/
def Open (t b line : ℕ) : Prop :=
  ∀ u addr pending, u ≠ t → (sys.threads u).phase.flushed = some (addr, pending) →
    cl.line addr = line → b ∈ pending

variable {cl : Cluster} {sys sys' : System} {t b addr : ℕ} {p : Phase}

/-! ## The moves -/

theorem flushed_of_update {u a : ℕ} {pending : List ℕ}
    (hthreads : sys'.threads = Function.update sys.threads t { cache := b, phase := p })
    (hflushed : (sys'.threads u).phase.flushed = some (a, pending)) :
    (u = t ∧ p.flushed = some (a, pending)) ∨
      (u ≠ t ∧ (sys.threads u).phase.flushed = some (a, pending)) := by
  rw [hthreads] at hflushed
  by_cases hu : u = t
  · subst hu
    rw [Function.update_self] at hflushed
    exact .inl ⟨rfl, hflushed⟩
  · rw [Function.update_of_ne hu] at hflushed
    exact .inr ⟨hu, hflushed⟩

theorem Isolated.lower {cache' : Ccache} (h : Isolated cl sys)
    (hlowers : Ccache.Lowers (cl.geometry b) (sys.caches b) cache') :
    Isolated cl (sys.setCache b cache') := by
  intro u a pending hflushed j hj
  obtain ⟨habsent, hnone⟩ := h u a pending hflushed j hj
  refine ⟨?_, hnone⟩
  by_cases hjb : j = b
  · subst hjb
    rw [caches_setCache_self]
    exact hlowers.absent habsent
  · rwa [caches_setCache_of_ne sys hjb]

theorem Isolated.settle (h : Isolated cl sys) (hsettles : Settles cl t b p sys sys') :
    Isolated cl sys' := by
  intro u a pending hflushed j hj
  have hold : (sys.threads u).phase.flushed = some (a, pending) := by
    rcases flushed_of_update hsettles.threads hflushed with ⟨rfl, hnow⟩ | ⟨-, hold⟩
    · obtain ⟨hold, rfl⟩ := hsettles.flushed a pending hnow
      exact hold
    · exact hold
  obtain ⟨habsent, hnone⟩ := h u a pending hold j hj
  refine ⟨by rwa [hsettles.caches], fun v flight hnow => ?_⟩
  obtain ⟨old, hflight, -⟩ := hsettles.back hnow
  exact hnone v old hflight

theorem Isolated.launch {req : Request} {ttype : Transaction} {upgrade : ℕ × Word64}
    (h : Isolated cl sys) (htidy : Tidy cl sys)
    (hlaunches : Launches cl t b req ttype upgrade sys sys')
    (hfetch : ttype.isFetch = true → Open cl sys t b (cl.line req.addr))
    (hevict : ttype = .evict → Clear cl sys t b (cl.line req.addr)) : Isolated cl sys' := by
  have hthreads := (startSnoop_eq_some hlaunches.start).2.2.2.2.2.2
  intro u a pending hflushed j hj
  rw [hlaunches.caches]
  rcases flushed_of_update hthreads hflushed with ⟨rfl, hnow⟩ | ⟨hu, hold⟩
  · -- the request that has just given up the line in its own cache
    have hevicting : ttype = .evict ∧ req.addr = a ∧ cl.ports.filter (· ≠ b) = pending := by
      cases ttype <;> cases hnow
      exact ⟨rfl, rfl, rfl⟩
    obtain ⟨rfl, rfl, rfl⟩ := hevicting
    have hnofetch : ∀ v k flight, sys'.InFlight cl v k (cl.line req.addr) flight →
        v ≠ u ∧ sys.InFlight cl v k (cl.line req.addr) flight := by
      intro v k flight hnow
      rcases hlaunches.flight hnow with ⟨-, -, hfetch, -⟩ | hold
      · cases hfetch
      · exact hold
    by_cases hjb : j = b
    · subst hjb
      refine ⟨hlaunches.absent (.inr rfl), fun v flight hnow => ?_⟩
      obtain ⟨hv, hold⟩ := hnofetch v j flight hnow
      exact hevict rfl v flight hv hold
    · have hjport : j ∉ cl.ports := fun hmem => hj (mem_others.mpr ⟨hmem, hjb⟩)
      refine ⟨?_, fun v flight hnow => ?_⟩
      · rw [htidy.quiet j hjport]
        exact Ccache.fresh_absent _ _
      · exact hjport (htidy.member_of_flight (hnofetch v j flight hnow).2)
  · obtain ⟨habsent, hnone⟩ := h u a pending hold j hj
    refine ⟨habsent, fun v flight hnow => ?_⟩
    rcases hlaunches.flight hnow with ⟨-, rfl, htype, hline, -⟩ | ⟨-, hflight⟩
    · exact hj (hfetch htype u a pending hu hold hline.symm)
    · exact hnone v flight hflight

/-- A line is raised only in a cache that has not given it up. -/
theorem Isolated.raise {cache' : Ccache} {i line : ℕ} {news : LineState}
    (h : Isolated cl sys)
    (hraises : Ccache.Raises (cl.geometry b) (sys.caches b) cache' i line news)
    (hopen : ∀ u a pending, (sys.threads u).phase.flushed = some (a, pending) →
      cl.line a = line → b ∈ pending) : Isolated cl (sys.setCache b cache') := by
  intro u a pending hflushed j hj
  obtain ⟨habsent, hnone⟩ := h u a pending hflushed j hj
  refine ⟨?_, hnone⟩
  by_cases hjb : j = b
  · subst hjb
    rw [caches_setCache_self]
    exact hraises.absent (fun hline => hj (hopen u a pending hflushed hline)) habsent
  · rwa [caches_setCache_of_ne sys hjb]

/-- A thread may fetch a line that its cache has not given up, and that no other
thread of the cache has in flight; only such a line may be evicted. -/
def fetchOpen (cl : Cluster) (t b addr : ℕ) (ttype : Transaction) (sys : System) : Prop :=
  (ttype.isFetch = true →
    Clear cl sys t b (cl.line addr) ∧ Open cl sys t b (cl.line addr)) ∧
  (ttype = .evict → Clear cl sys t b (cl.line addr))

theorem fetchOpen_policy (cl : Cluster) (t b addr : ℕ) :
    Policy cl t b addr (fetchOpen cl t b addr) where
  stable := by
    rintro ttype s s' hthreads ⟨hfetch, hevict⟩
    refine ⟨fun htype => ⟨(hfetch htype).1.congr hthreads, ?_⟩,
      fun htype => (hevict htype).congr hthreads⟩
    intro u a pending hu hflushed
    rw [hthreads u hu] at hflushed
    exact (hfetch htype).2 u a pending hu hflushed
  flush := fun s hclear => ⟨fun hfetch => (by cases hfetch), fun _ => hclear⟩
  invalidate := fun s => ⟨fun hfetch => (by cases hfetch), fun htype => (by cases htype)⟩
  clear := fun _ _ hpermits hfetch => (hpermits.1 hfetch).1

theorem Isolated.move (h : Isolated cl sys) (htidy : Tidy cl sys)
    (hmove : Move cl (fetchOpen cl t b addr) t b addr sys sys') : Isolated cl sys' := by
  cases hmove with
  | lower hlowers => exact h.lower hlowers
  | settle hsettles => exact h.settle hsettles
  | launch hlaunches haddr hpermits =>
      rw [← haddr] at hpermits
      exact h.launch htidy hlaunches (fun hfetch => (hpermits.1 hfetch).2) hpermits.2
  | write hdirties =>
      refine h.raise hdirties.raises fun u a pending hflushed hline => ?_
      by_contra hgiven
      obtain ⟨habsent, -⟩ := h u a pending hflushed b hgiven
      rw [hline] at habsent
      exact hdirties.held.2 (habsent _ hdirties.held.1)
  | insert hflight hpending hexclusive hinserts hlru hlow hsettles =>
      refine (h.settle hsettles).raise hinserts.raises fun u a pending hflushed hline => ?_
      by_contra hgiven
      -- the flight of this very thread was there while the cache had given up the line
      rcases flushed_of_update hsettles.threads hflushed with ⟨rfl, hnow⟩ | ⟨-, hold⟩
      · obtain ⟨hold, rfl⟩ := hsettles.flushed a pending hnow
        exact (h u a [] hold b hgiven).2 u _ (by rw [hline]; exact hflight)
      · exact (h u a pending hold b hgiven).2 t _ (by rw [hline]; exact hflight)

/-! ## The answers -/

/-- The lower half of the addresses is made of whole lines. -/
theorem lt_of_line_mul_lt (cl : Cluster) {a : ℕ} (hlow : cl.line a * cl.linesize < 2 ^ 32) :
    a < 2 ^ 32 := by
  have hpos : 0 < cl.linesize := Nat.two_pow_pos _
  have hbits : cl.boffsetb ≤ 32 := by
    have hlt := (cl.geometry 0).boffsetb_lt
    rw [cl.same_line] at hlt
    omega
  obtain ⟨lines, hlines⟩ : cl.linesize ∣ 2 ^ 32 := Nat.pow_dvd_pow 2 hbits
  rw [hlines, mul_comm cl.linesize] at hlow ⊢
  have hline := Nat.lt_of_mul_lt_mul_right hlow
  rw [Cluster.line, Nat.div_lt_iff_lt_mul hpos] at hline
  exact hline

theorem Isolated.reply {j : ℕ} (h : Isolated cl sys) (htidy : Tidy cl sys)
    (hroom : (sys.caches j).Room 1)
    (hnone : ∀ req upgrade pending notified replies, (sys.threads t).phase =
      .snooping req .evict upgrade pending notified replies →
        ∀ u flight, ¬sys.InFlight cl u j (cl.line req.addr) flight)
    (hstep : sys.step cl (.reply t j) = some sys') : Isolated cl sys' := by
  obtain ⟨req, ttype, upgrade, pending, notified, replies, cache', reply, hphase, hj, hanswer,
    ha⟩ := reply_eq_some hstep
  obtain ⟨hlowers, -, hcases⟩ := answerSnoop_spec hroom hanswer
  have hlowered := h.lower hlowers
  intro u a pending' hflushed k hk
  have hback : ∀ v k flight, sys'.InFlight cl v k (cl.line a) flight →
      ∃ old, sys.InFlight cl v k (cl.line a) old := fun v k flight hnow => ha.back hnow
  have hgoal : ((sys.setCache j cache').caches k).Absent (cl.geometry k) (cl.line a) ∧
      ∀ v flight, ¬sys.InFlight cl v k (cl.line a) flight := by
    rcases flushed_of_update ha.threads hflushed with ⟨rfl, hnow⟩ | ⟨-, hold⟩
    · have hevicting : ttype = .evict ∧ req.addr = a ∧ pending.erase j = pending' := by
        cases ttype <;> cases hnow
        exact ⟨rfl, rfl, rfl⟩
      obtain ⟨rfl, rfl, rfl⟩ := hevicting
      by_cases hkj : k = j
      · subst hkj
        rw [caches_setCache_self]
        refine ⟨?_, hnone _ _ _ _ _ hphase⟩
        by_cases hsmall : req.addr < 2 ^ 32
        · rw [line_lineAddr cl k hsmall] at hcases
          rcases hcases with ⟨habsent, rfl, -⟩ | ⟨i, -, ⟨htype, -⟩ | hsnooped⟩
          · exact habsent
          · cases htype
          · exact htidy.absent_of_snooped hlowers hsnooped rfl
        · -- no cache ever has a line this high
          refine hlowers.absent fun i hi => ?_
          by_contra hvalid
          have hlow := htidy.low _ k i hi hvalid
          exact hsmall (lt_of_line_mul_lt cl hlow)
      · obtain ⟨habsent, hnone'⟩ := hlowered u req.addr pending
          (by rw [ha.phase]; rfl) k
          (fun hmem => hk ((List.mem_erase_of_ne hkj).mpr hmem))
        exact ⟨habsent, hnone'⟩
    · exact hlowered u a pending' hold k hk
  refine ⟨by rw [ha.caches]; exact hgoal.1, fun v flight hnow => ?_⟩
  obtain ⟨old, hold⟩ := hback v k flight hnow
  exact hgoal.2 v old hold

/-! ## Steps and runs -/

/-- What the steps of a run have to be for linked requests to be isolated: every
requester is snooped, no two requests of one cache fetch one line, a cache that
has given up a line for a linked request does not fetch it before the access has
reached the storage, and no cache gives up a line it is fetching itself. -/
def Sealed (cl : Cluster) (sys : System) : Action → Prop
  | .start t b req => cl.snooped b = true ∧
      (req.linked.isSome → Clear cl sys t b (cl.line req.addr)) ∧
      (req.linked = none → uncached req.addr = false →
        Clear cl sys t b (cl.line req.addr) ∧ Open cl sys t b (cl.line req.addr))
  | .reply t j => ∀ req upgrade pending notified replies, (sys.threads t).phase =
      .snooping req .evict upgrade pending notified replies →
        ∀ u flight, ¬sys.InFlight cl u j (cl.line req.addr) flight
  | .wake t _ _ => ∀ req upgrade pending notified replies, (sys.threads t).phase =
      .snooping req .makeInvalid upgrade pending notified replies →
        Clear cl sys t (sys.threads t).cache (cl.line req.addr) ∧
          Open cl sys t (sys.threads t).cache (cl.line req.addr)
  | .serve _ | .resume _ _ => True

theorem Isolated.step {a : Action} (h : Isolated cl sys) (htidy : Tidy cl sys)
    (hroom : NoWrap sys) (hsealed : Sealed cl sys a) (hstep : sys.step cl a = some sys') :
    Tidy cl sys' ∧ Isolated cl sys' := by
  have hall : ∀ {t b addr}, Clear cl sys t b (cl.line addr) ∧
      Open cl sys t b (cl.line addr) → ∀ ttype, fetchOpen cl t b addr ttype sys :=
    fun hclear ttype => ⟨fun _ => hclear, fun _ => hclear.1⟩
  refine htidy.step h (fetchOpen_policy cl)
    (fun t b addr s s' _ htidy h hmove => h.move htidy hmove) ?_ hroom ?_ ?_ ?_ hstep
  · rintro t j rfl
    exact h.reply htidy ((hroom j).mono (by omega)) hsealed hstep
  · rintro t b req rfl
    exact ⟨hsealed.1,
      fun hlinked => ⟨fun hfetch => (by cases hfetch), fun _ => hsealed.2.1 hlinked⟩,
      fun hlinked hcached => hall (hsealed.2.2 hlinked hcached)⟩
  · rintro t garbage returned req upgrade pending notified replies rfl hphase
    exact hall (hsealed _ _ _ _ _ hphase)
  · intro t flight hflight
    refine hall ⟨htidy.clear_of_flight hflight, fun u a pending _ hflushed hline => ?_⟩
    by_contra hgiven
    exact (h u a pending hflushed _ hgiven).2 t flight (by rw [hline]; exact hflight)

theorem Isolated.powerOn (cl : Cluster) (memory : Memory) : Isolated cl (powerOn memory) := by
  intro t a pending hflushed
  cases hflushed

/-- From the moment a linked request has had the line evicted until
its access has reached the storage, no cache has the line. -/
def Isolation (cl : Cluster) (sys : System) : Prop :=
  ∀ t req, (sys.threads t).phase = .forwarding req none → req.linked.isSome →
    ∀ j, (sys.caches j).Absent (cl.geometry j) (cl.line req.addr)

theorem Isolated.isolation (h : Isolated cl sys) : Isolation cl sys := by
  intro t req hphase hlinked j
  refine (h t req.addr [] ?_ j (by simp)).1
  rw [hphase]
  exact if_pos hlinked

/-- In every run in which no cache fetches a line that it has given up, the line of a
linked request is in no cache until its access has been served. -/
theorem sealed_isolation (cl : Cluster) (memory : Memory) (actions : List Action)
    (final : System)
    (hguard : Guarded.Meets (System.step cl)
      (fun sys a => NoWrap sys ∧ Sealed cl sys a) (powerOn memory) actions)
    (hrun : Guarded.exec (System.step cl) (powerOn memory) actions = some final) :
    Isolation cl final := by
  have hkeeps : ∀ sys a next, Tidy cl sys ∧ Isolated cl sys →
      NoWrap sys ∧ Sealed cl sys a → sys.step cl a = some next →
      Tidy cl next ∧ Isolated cl next :=
    fun _ _ _ h hmeets hstep => h.2.step h.1 hmeets.1 hmeets.2 hstep
  have hinv := Guarded.exec_invariant hkeeps
    ⟨Tidy.powerOn cl memory, Isolated.powerOn cl memory⟩ hguard hrun
  exact hinv.2.isolation

end System

end Prazor.Caches
