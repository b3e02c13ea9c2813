import Prazor.Caches.Steps

/-!
# A line that can be written is in no other cache

Two requests for one line cross when each of their caches answers the other's
snoop while its own request is in flight: both then find the line nowhere, and
both insert it.  Runs without crossing requests keep the caches coherent.
-/

namespace Prazor.Caches

namespace System

variable (cl : Cluster) (sys : System)

/-- What the caches keep to among each other.

`single` is the property itself.  `bound` says that a cache that has answered
keeps to its answer while the line is in flight, and `ahead` is why it can: of
two flights of one line at least one has not been answered by the other's cache.
`given` is the same for a shared line that is about to be written: as long as
its status word has not changed, the caches that have answered hold nothing. -/
structure Coherent : Prop where
  single : ∀ line b i b' i', i < (cl.geometry b).ways → i' < (cl.geometry b').ways →
    b ≠ b' → (sys.state cl b i line).Exclusive → sys.state cl b' i' line = .invalid
  bound : ∀ line b t flight j, sys.InFlight cl t b line flight → j ∈ cl.ports → j ≠ b →
    j ∉ flight.pending → (flight.exclusive j → (sys.caches j).Absent (cl.geometry j) line) ∧
      (sys.caches j).AtMostShared (cl.geometry j) line
  ahead : ∀ line b t flight b' t' flight', sys.InFlight cl t b line flight →
    sys.InFlight cl t' b' line flight' → b ≠ b' → b' ∈ flight.pending ∨ b ∈ flight'.pending
  given : ∀ line b t i ts pending, sys.Upgrading cl t b line i ts pending →
    sys.statusWord cl b i line = ts &&& ~~~1 → ∀ j, j ∈ cl.ports → j ≠ b → j ∉ pending →
      (sys.caches j).Absent (cl.geometry j) line ∧
      ∀ t' flight, sys.InFlight cl t' j line flight → b ∈ flight.pending

variable {cl : Cluster} {sys sys' : System} {t b addr : ℕ} {p : Phase}

/-! ## The moves -/

theorem Coherent.lower {cache' : Ccache} (h : Coherent cl sys) (htidy : Tidy cl sys)
    (hlowers : Ccache.Lowers (cl.geometry b) (sys.caches b) cache') :
    Coherent cl (sys.setCache b cache') := by
  have hall : ∀ j, Ccache.Lowers (cl.geometry j) (sys.caches j)
      ((sys.setCache b cache').caches j) := by
    intro j
    by_cases hj : j = b
    · rw [hj, caches_setCache_self]
      exact hlowers
    · rw [caches_setCache_of_ne sys hj]
      exact Ccache.Lowers.refl _ _
  constructor
  case single =>
    intro line j i j' i' hi hi' hne hexclusive
    have hold := h.single line j i j' i' hi hi' hne ((hall j).exclusive hexclusive)
    by_contra hvalid
    exact (hall j').valid hvalid hold
  case bound =>
    intro line j t flight j' hflight hport' hne hanswered
    obtain ⟨habsent, hshared⟩ := h.bound line j t flight j' hflight hport' hne hanswered
    exact ⟨fun hexclusive => (hall j').absent (habsent hexclusive),
      (hall j').atMostShared hshared⟩
  case ahead => exact h.ahead
  case given =>
    intro line j t i ts pending hupgrading hword j' hport' hne hpending
    have hbefore := (htidy.kept line j t i _ _ hupgrading.marked).before hlowers.moves hword
    obtain ⟨habsent, hflights⟩ :=
      h.given line j t i ts pending hupgrading hbefore j' hport' hne hpending
    exact ⟨(hall j').absent habsent, hflights⟩

theorem Coherent.settle (h : Coherent cl sys) (hsettles : Settles cl t b p sys sys') :
    Coherent cl sys' := by
  have hcaches := hsettles.caches
  constructor
  case single =>
    intro line j i j' i'
    simpa only [state, hcaches] using h.single line j i j' i'
  case bound =>
    intro line j u flight j' hnow hport' hne' hanswered
    obtain ⟨old, hold, hpending, hexclusive⟩ := hsettles.back hnow
    rw [← hpending] at hanswered
    obtain ⟨habsent, hshared⟩ := h.bound line j u old j' hold hport' hne' hanswered
    rw [hcaches]
    exact ⟨fun hex => habsent (hexclusive j' hport' hne' hex), hshared⟩
  case ahead =>
    intro line j u flight j' u' flight' hnow hnow' hne'
    obtain ⟨old, hold, hpending, -⟩ := hsettles.back hnow
    obtain ⟨old', hold', hpending', -⟩ := hsettles.back hnow'
    rw [← hpending, ← hpending']
    exact h.ahead line j u old j' u' old' hold hold' hne'
  case given =>
    intro line j u i ts pending hnow hword j' hport' hne' hpending
    simp only [statusWord, hcaches] at hword ⊢
    obtain ⟨habsent, hflights⟩ := h.given line j u i ts pending (hsettles.upgrading hnow)
      hword j' hport' hne' hpending
    refine ⟨habsent, fun u' flight hnow' => ?_⟩
    obtain ⟨old, hold, hpending', -⟩ := hsettles.back hnow'
    exact hpending' ▸ hflights u' old hold

theorem Coherent.launch {req : Request} {ttype : Transaction} {upgrade : ℕ × Word64}
    (h : Coherent cl sys) (htidy : Tidy cl sys)
    (hlaunches : Launches cl t b req ttype upgrade sys sys') : Coherent cl sys' := by
  have hcaches := hlaunches.caches
  have hthreads := (startSnoop_eq_some hlaunches.start).2.2.2.2.2.2
  constructor
  case single =>
    intro line j i j' i'
    simpa only [state, hcaches] using h.single line j i j' i'
  case bound =>
    intro line j u flight j' hnow hport' hne hanswered
    rw [hcaches]
    rcases hlaunches.flight hnow with ⟨-, rfl, -, -, hpending⟩ | ⟨hu, hold⟩
    · rw [hpending] at hanswered
      exact absurd (mem_others.mpr ⟨hport', hne⟩) hanswered
    · exact h.bound line j u flight j' hold hport' hne hanswered
  case ahead =>
    intro line j u flight j' u' flight' hnow hnow' hne
    rcases hlaunches.flight hnow with ⟨-, hj, -, -, hpending⟩ | ⟨-, hold⟩ <;>
      rcases hlaunches.flight hnow' with ⟨-, hj', -, -, hpending'⟩ | ⟨-, hold'⟩
    · exact absurd (hj.trans hj'.symm) hne
    · rw [hpending]
      exact .inl (mem_others.mpr ⟨htidy.member_of_flight hold', hj ▸ hne.symm⟩)
    · rw [hpending']
      exact .inr (mem_others.mpr ⟨htidy.member_of_flight hold, hj' ▸ hne⟩)
    · exact h.ahead line j u flight j' u' flight' hold hold' hne
  case given =>
    intro line j u i ts pending hnow hword j' hport' hne hanswered
    simp only [statusWord, hcaches] at hword ⊢
    rcases upgrading_of_update hthreads hnow with ⟨-, rfl, _, _, _, hphase, -⟩ | ⟨-, hold⟩
    · injection hphase with _ _ _ hpending
      rw [← hpending] at hanswered
      exact absurd (mem_others.mpr ⟨hport', hne⟩) hanswered
    · obtain ⟨habsent, hflights⟩ :=
        h.given line j u i ts pending hold hword j' hport' hne hanswered
      refine ⟨habsent, fun u' flight hnow' => ?_⟩
      rcases hlaunches.flight hnow' with ⟨-, rfl, -, -, hpending⟩ | ⟨-, hold'⟩
      · rw [hpending, mem_others]
        obtain ⟨rfl, req', notified, replies, hq, -⟩ := hold
        exact ⟨htidy.member u (by rw [hq]; simp), hne.symm⟩
      · exact hflights u' flight hold'

/-- A cache may take or write a line when the others hold it as the new state
allows, and when everybody who relies on its answer still waits for it. -/
theorem Coherent.raise {cache' : Ccache} {i line : ℕ} {news : LineState}
    (h : Coherent cl sys) (htidy : Tidy cl sys)
    (hraises : Ccache.Raises (cl.geometry b) (sys.caches b) cache' i line news)
    (hothers : ∀ j, j ∈ cl.ports → j ≠ b →
      (news.Exclusive → (sys.caches j).Absent (cl.geometry j) line) ∧
        (sys.caches j).AtMostShared (cl.geometry j) line)
    (hflights : ∀ u j flight, sys.InFlight cl u j line flight → j ≠ b → b ∈ flight.pending)
    (hupgrades : ∀ u j i' ts pending, sys.Upgrading cl u j line i' ts pending → j ≠ b →
      sys.statusWord cl j i' line = ts &&& ~~~1 → b ∈ pending) :
    Coherent cl (sys.setCache b cache') := by
  have hself : (sys.setCache b cache').caches b = cache' := caches_setCache_self sys b cache'
  have hother : ∀ j, j ≠ b → (sys.setCache b cache').caches j = sys.caches j :=
    fun j hj => caches_setCache_of_ne sys hj cache'
  have hbounded : ∀ j, j ≠ b → (news.Exclusive →
      (sys.caches j).Absent (cl.geometry j) line) ∧
        (sys.caches j).AtMostShared (cl.geometry j) line := by
    intro j hj
    by_cases hjport : j ∈ cl.ports
    · exact hothers j hjport hj
    · rw [htidy.quiet j hjport]
      exact ⟨fun _ => Ccache.fresh_absent _ _, (Ccache.fresh_absent _ _).atMostShared⟩
  constructor
  case single =>
    intro line' j k j' k' hk hk' hne hexclusive
    simp only [state] at hexclusive ⊢
    by_cases hj : j = b
    · subst hj
      rw [hself] at hexclusive
      rw [hother j' hne.symm]
      by_cases hslot : k = i ∧ line' = line
      · obtain ⟨rfl, rfl⟩ := hslot
        rw [hraises.state_self] at hexclusive
        exact (hbounded j' hne.symm).1 hexclusive k' hk'
      · rw [hraises.valid_other hslot hexclusive.1] at hexclusive
        exact h.single line' j k j' k' hk hk' hne hexclusive
    · rw [hother j hj] at hexclusive
      by_cases hj' : j' = b
      · subst hj'
        rw [hself]
        by_contra hvalid
        by_cases hslot : k' = i ∧ line' = line
        · obtain ⟨rfl, rfl⟩ := hslot
          exact (hbounded j hj).2 k hk hexclusive
        · rw [hraises.valid_other hslot hvalid] at hvalid
          exact hvalid (h.single line' j k j' k' hk hk' hne hexclusive)
      · rw [hother j' hj']
        exact h.single line' j k j' k' hk hk' hne hexclusive
  case bound =>
    intro line' j u flight j' hflight hport' hne hanswered
    obtain ⟨habsent, hshared⟩ := h.bound line' j u flight j' hflight hport' hne hanswered
    by_cases hj' : j' = b
    · subst hj'
      have hline : line' ≠ line := by
        rintro rfl
        exact hanswered (hflights u j flight hflight hne.symm)
      rw [hself]
      exact ⟨fun hexclusive => hraises.absent hline (habsent hexclusive),
        hraises.atMostShared hline hshared⟩
    · rw [hother j' hj']
      exact ⟨habsent, hshared⟩
  case ahead => exact h.ahead
  case given =>
    intro line' j u k ts pending hupgrading hword j' hport' hne hanswered
    have hbefore :=
      (htidy.kept line' j u k _ _ hupgrading.marked).before hraises.toMoves hword
    obtain ⟨habsent, hflights'⟩ :=
      h.given line' j u k ts pending hupgrading hbefore j' hport' hne hanswered
    refine ⟨?_, hflights'⟩
    by_cases hj' : j' = b
    · subst hj'
      rw [hself]
      refine hraises.absent ?_ habsent
      rintro rfl
      exact hanswered (hupgrades u j k ts pending hupgrading hne.symm hbefore)
    · rwa [hother j' hj']

/-- A line that no other cache holds, and nobody else is about to take, can be
written. -/
theorem Coherent.write {cache' : Ccache} {i : ℕ} {line : ℕ} {bytes : Buffer}
    (h : Coherent cl sys) (htidy : Tidy cl sys)
    (hdirties : Ccache.Dirties (cl.geometry b) (sys.caches b) cache' i line bytes)
    (habsent : ∀ j, j ∈ cl.ports → j ≠ b → (sys.caches j).Absent (cl.geometry j) line)
    (hflights : ∀ u j flight, sys.InFlight cl u j line flight → j ≠ b → b ∈ flight.pending) :
    Coherent cl (sys.setCache b cache') := by
  refine h.raise htidy hdirties.raises ?_ hflights ?_
  · exact fun j hj hne => ⟨fun _ => habsent j hj hne, (habsent j hj hne).atMostShared⟩
  · intro u j i' ts pending hupgrading hne harmed
    obtain ⟨hi', -, hstate⟩ := htidy.kept line j u i' _ _ hupgrading.marked
    have hport' : j ∈ cl.ports := by
      obtain ⟨rfl, req, notified, replies, hphase, -⟩ := hupgrading
      exact htidy.member u (by rw [hphase]; simp)
    have hshared := hstate harmed
    rw [state, habsent j hport' hne i' hi'] at hshared
    cases hshared

/-- The line of a thread that has all its answers can be inserted. -/
theorem Coherent.insert {cache' : Ccache} {i : ℕ} {line : ℕ} {news : LineState}
    {cline : Buffer} {flight : Flight} (h : Coherent cl sys) (htidy : Tidy cl sys)
    (hport : b ∈ cl.ports) (hflight : sys.InFlight cl t b line flight)
    (hpending : flight.pending = [])
    (hexclusive : ∀ j, flight.exclusive j ↔ news ≠ .sharedClean)
    (hinserts : Ccache.Inserts (cl.geometry b) (sys.caches b) cache' i line news cline)
    (hsettles : Settles cl t b p sys (sys.setPhase t b p)) :
    Coherent cl ((sys.setCache b cache').setPhase t b p) := by
  refine (h.settle hsettles).raise (htidy.settle hport hsettles) hinserts.raises ?_ ?_ ?_
  · intro j hj hne
    obtain ⟨habsent, hshared⟩ := h.bound line b t flight j hflight hj hne (by simp [hpending])
    exact ⟨fun hnews => habsent ((hexclusive j).mpr hnews.2), hshared⟩
  · intro u j flight' hnow hne
    obtain ⟨old, hold, hpending', -⟩ := hsettles.back hnow
    rcases h.ahead line b t flight j u old hflight hold hne.symm with hmem | hmem
    · rw [hpending] at hmem
      cases hmem
    · rwa [← hpending']
  · intro u j i' ts pending hnow hne harmed
    by_contra hanswered
    have hmem := (h.given line j u i' ts pending (hsettles.upgrading hnow) harmed b hport
      hne.symm hanswered).2 t flight hflight
    rw [hpending] at hmem
    cases hmem

theorem Coherent.move {permits : Transaction → System → Prop} (h : Coherent cl sys)
    (htidy : Tidy cl sys) (hport : b ∈ cl.ports)
    (hmove : Move cl permits t b addr sys sys') : Coherent cl sys' := by
  cases hmove with
  | lower hlowers => exact h.lower htidy hlowers
  | settle hsettles => exact h.settle hsettles
  | launch hlaunches => exact h.launch htidy hlaunches
  | write hdirties hlru hright =>
      have hi := hdirties.held.1
      rcases hright with hexclusive | ⟨ts, hupgrading, hword⟩
      · -- the line is this cache's own
        refine h.write htidy hdirties ?_ ?_
        · exact fun j _ hne i' hi' => h.single _ b _ j i' hi hi' hne.symm hexclusive
        · intro u j flight hflight hne
          by_contra hanswered
          exact (h.bound _ j u flight b hflight hport hne.symm hanswered).2 _ hi hexclusive
      · -- the word of the shared line has not changed: all caches have given it up
        have hgiven := h.given _ b t _ ts [] hupgrading hword
        refine h.write htidy hdirties ?_ ?_
        · exact fun j hj hne => (hgiven j hj hne (by simp)).1
        · intro u j flight hflight hne
          exact (hgiven j (htidy.member_of_flight hflight) hne (by simp)).2 u flight hflight
  | insert hflight hpending hexclusive hinserts hlru hlow hsettles =>
      exact h.insert htidy hport hflight hpending hexclusive hinserts hsettles

/-! ## The answers -/

section Answers

variable {j : ℕ} {req : Request} {ttype : Transaction} {upgrade : ℕ × Word64}
variable {pending : List ℕ} {notified : Bool} {replies : ℕ → Reply} {reply : Reply}

/-- An answer is entered that the cache keeps to, of a cache that has no request
of its own for the line that relies on the requester. -/
theorem Coherent.answer (h : Coherent cl sys)
    (ha : Answers t b j req ttype upgrade pending notified replies reply sys sys')
    (hbound : ttype.isFetch = true →
      (ttype ≠ .readShared ∨ reply.state = .invalid →
        (sys.caches j).Absent (cl.geometry j) (cl.line req.addr)) ∧
        (sys.caches j).AtMostShared (cl.geometry j) (cl.line req.addr))
    (hcross : ttype ≠ .evict → ∀ u flight,
      sys.InFlight cl u j (cl.line req.addr) flight → b ∈ flight.pending)
    (hinvalidated : ttype = .makeInvalid →
      sys.statusWord cl b upgrade.1 (cl.line req.addr) = upgrade.2 &&& ~~~1 →
        (sys.caches j).Absent (cl.geometry j) (cl.line req.addr))
    (hdisarmed : ttype.isFetch = true → ∀ u i ts pending',
      sys.Upgrading cl u j (cl.line req.addr) i ts pending' →
        sys.statusWord cl j i (cl.line req.addr) ≠ ts &&& ~~~1) :
    Coherent cl sys' := by
  have hcaches := ha.caches
  have hkept : ∀ {k}, k ∈ pending → k ≠ j → k ∈ pending.erase j :=
    fun hk hne => (List.mem_erase_of_ne hne).mpr hk
  constructor
  case single =>
    intro line k i k' i'
    simpa only [state, hcaches] using h.single line k i k' i'
  case bound =>
    intro line k u flight j' hnow hport hne hanswered
    rw [hcaches]
    rcases ha.flight hnow with
      ⟨rfl, rfl, htype, rfl, hpending, old, hold, hpending', hexclusive, hexclusive'⟩ | ⟨-, hold⟩
    · by_cases hj' : j' = j
      · subst hj'
        exact ⟨fun hex => (hbound htype).1 (hexclusive' hex), (hbound htype).2⟩
      · rw [hpending] at hanswered
        obtain ⟨habsent, hshared⟩ := h.bound _ _ u old j' hold hport hne
          (hpending' ▸ fun hmem => hanswered (hkept hmem hj'))
        exact ⟨fun hex => habsent (hexclusive j' hj' hex), hshared⟩
    · exact h.bound line k u flight j' hold hport hne hanswered
  case ahead =>
    -- the thread itself against any other flight of the line
    have hahead : ∀ {line k u' : ℕ} {flight old flight' : Flight}, ttype.isFetch = true →
        cl.line req.addr = line → flight.pending = pending.erase j →
        sys.InFlight cl t b line old → old.pending = pending →
        sys.InFlight cl u' k line flight' → b ≠ k →
        k ∈ flight.pending ∨ b ∈ flight'.pending := by
      rintro _ k u' flight old flight' htype rfl hpending hold hpending' hold' hne
      rcases h.ahead _ b t old k u' flight' hold hold' hne with hmem | hmem
      · by_cases hk : k = j
        · subst hk
          exact .inr (hcross (by rintro rfl; cases htype) u' flight' hold')
        · rw [hpending]
          exact .inl (hkept (hpending' ▸ hmem) hk)
      · exact .inr hmem
    intro line k u flight k' u' flight' hnow hnow' hne
    rcases ha.flight hnow with ⟨-, hk, htype, hline, hpending, old, hold, hpending', -⟩ | ⟨-, hold⟩
      <;> rcases ha.flight hnow' with
        ⟨-, hk', htype', hline', hpending₂, old', hold', hpending₂', -⟩ | ⟨-, hold'⟩
    · exact absurd (hk.trans hk'.symm) hne
    · rw [hk] at hne ⊢
      exact hahead htype hline hpending hold hpending' hold' hne
    · rw [hk'] at hne ⊢
      exact (hahead htype' hline' hpending₂ hold' hpending₂' hold hne.symm).symm
    · exact h.ahead line k u flight k' u' flight' hold hold' hne
  case given =>
    intro line k u i ts pending' hnow hword j' hport hne hpending
    simp only [statusWord, hcaches] at hword ⊢
    rcases upgrading_of_update ha.threads hnow with
      ⟨rfl, rfl, req', notified', replies', hq, hline⟩ | ⟨-, hold⟩
    · injection hq with hreq htype hupgrade hpending'
      subst hreq htype hupgrade hpending' hline
      have hflights : ∀ u' flight, sys'.InFlight cl u' j' (cl.line req.addr) flight →
          sys.InFlight cl u' j' (cl.line req.addr) flight := by
        intro u' flight hnow'
        rcases ha.flight hnow' with ⟨-, hj', -⟩ | ⟨-, hold'⟩
        · exact absurd hj' hne
        · exact hold'
      by_cases hj' : j' = j
      · subst hj'
        exact ⟨hinvalidated rfl hword, fun u' flight hnow' =>
          hcross (by decide) u' flight (hflights u' flight hnow')⟩
      · obtain ⟨habsent, hall⟩ := h.given _ _ u i ts pending
          ⟨ha.cache, req, notified, replies, ha.phase, rfl⟩ hword j' hport hne
          fun hmem => hpending (hkept hmem hj')
        exact ⟨habsent, fun u' flight hnow' => hall u' flight (hflights u' flight hnow')⟩
    · obtain ⟨habsent, hall⟩ := h.given line k u i ts pending' hold hword j' hport hne hpending
      refine ⟨habsent, fun u' flight hnow' => ?_⟩
      rcases ha.flight hnow' with
        ⟨rfl, rfl, htype, rfl, hpending', old, hold', hpending'', -⟩ | ⟨-, hold'⟩
      · rw [hpending']
        refine hkept (hpending'' ▸ hall u' old hold') ?_
        rintro rfl
        exact hdisarmed htype u i ts _ hold hword
      · exact hall u' flight hold'

end Answers

/-- The requests of two threads for one line cross when cache `j` answers the
snoop of thread `t` while it has the line in flight itself and has the answer of
`t`'s cache already. -/
def Crossing (cl : Cluster) (sys : System) (t j : ℕ) : Prop :=
  ∃ req ttype upgrade pending notified replies, (sys.threads t).phase =
      .snooping req ttype upgrade pending notified replies ∧ ttype ≠ .evict ∧
    ∃ u flight, sys.InFlight cl u j (cl.line req.addr) flight ∧
      (sys.threads t).cache ∉ flight.pending

theorem Coherent.reply {j : ℕ} (h : Coherent cl sys) (htidy : Tidy cl sys)
    (hroom : (sys.caches j).Room 1) (hcross : ¬Crossing cl sys t j)
    (hstep : sys.step cl (.reply t j) = some sys') : Coherent cl sys' := by
  obtain ⟨req, ttype, upgrade, pending, notified, replies, cache', reply, hphase, hj, hanswer,
    ha⟩ := reply_eq_some hstep
  obtain ⟨-, -, -, -, -, hself⟩ := htidy.served t _ _ _ _ _ _ hphase
  have hne : j ≠ (sys.threads t).cache := by
    rintro rfl
    exact hself hj
  obtain ⟨hlowers, -, hcases⟩ := answerSnoop_spec hroom hanswer
  have hlowered := h.lower htidy hlowers
  have hsound := htidy.sound t
  rw [hphase] at hsound
  have hjcache : (sys.setCache j cache').caches j = cache' := caches_setCache_self _ _ _
  refine hlowered.answer ha ?_ ?_ ?_ ?_
  · intro hfetch
    have htype : ttype ≠ .makeInvalid ∧ ttype ≠ .evict := by
      constructor <;> rintro rfl <;> cases hfetch
    rw [line_lineAddr cl j (lt_of_cached (hsound.2 htype.2))] at hcases
    rw [hjcache]
    rcases hcases with ⟨habsent, rfl, -⟩ | ⟨i, -, ⟨rfl, -⟩ | hsnooped⟩
    · exact ⟨fun _ => habsent, habsent.atMostShared⟩
    · cases hfetch
    · by_cases hread : ttype = .readShared
      · subst hread
        refine ⟨?_, ?_⟩
        · rintro (hcontra | hinvalid)
          · exact absurd rfl hcontra
          · rw [hsnooped.answer] at hinvalid
            exact absurd hinvalid hsnooped.valid
        · intro i' hi' hexclusive
          by_cases hi : i' = i
          · rw [hi, hsnooped.left_state] at hexclusive
            exact hexclusive.2 rfl
          · exact hi (htidy.unique _ j i' i hi' hsnooped.way (hlowers.valid hexclusive.1)
              hsnooped.valid)
      · have habsent := htidy.absent_of_snooped hlowers hsnooped (if_neg hread)
        exact ⟨fun _ => habsent, habsent.atMostShared⟩
  · intro htype u flight hflight
    by_contra hanswered
    exact hcross ⟨req, ttype, upgrade, pending, notified, replies, hphase, htype, u, flight,
      hflight, hanswered⟩
  · rintro rfl hword
    rw [line_lineAddr cl j (lt_of_cached (hsound.2 (by decide)))] at hcases
    rw [hjcache]
    rcases hcases with ⟨habsent, rfl, -⟩ | ⟨i, hfound, ⟨-, hstate, rfl⟩ | hsnooped⟩
    · exact habsent
    · -- the line is shared at the requester, so no other cache can write it
      obtain ⟨hway, -, hkept⟩ := htidy.kept (cl.line req.addr) (sys.threads t).cache t
        upgrade.1 (upgrade.2 &&& ~~~1) .sharedClean ⟨rfl, req.addr, by rw [hphase]; rfl, rfl⟩
      rw [statusWord, caches_setCache_of_ne sys hne.symm] at hword
      have hinvalid := h.single (cl.line req.addr) j i _ upgrade.1 hfound.way hway hne
        ⟨hfound.valid, hstate⟩
      rw [hkept hword] at hinvalid
      cases hinvalid
    · exact htidy.absent_of_snooped hlowers hsnooped rfl
  · intro hfetch u i ts pending' hupgrading harmed
    have htype : ttype ≠ .makeInvalid ∧ ttype ≠ .evict := by
      constructor <;> rintro rfl <;> cases hfetch
    rw [line_lineAddr cl j (lt_of_cached (hsound.2 htype.2))] at hcases
    have hmarked : sys.Marked cl u j (cl.line req.addr) i (ts &&& ~~~1) .sharedClean :=
      Upgrading.marked hupgrading
    have hkept := htidy.kept _ j u i _ _ hmarked
    -- the word is the one that was seen, so the line is there and the snoop has changed it
    have hold := hkept.before hlowers.moves harmed
    have hvalid : sys.state cl j i (cl.line req.addr) ≠ .invalid := by
      rw [hkept.2.2 hold]
      decide
    rcases hcases with ⟨habsent, -, -⟩ | ⟨i', -, ⟨rfl, -⟩ | hsnooped⟩
    · exact hvalid (habsent i hkept.1)
    · exact htype.1 rfl
    · obtain rfl := htidy.unique _ j i i' hkept.1 hsnooped.way hvalid hsnooped.valid
      rw [statusWord, hjcache] at harmed
      exact hsnooped.word_ne (harmed.trans hold.symm)

/-! ## Steps and runs -/

/-- What the steps of a run have to be for the caches to stay coherent: every
requester is snooped, no two requests of one cache fetch one line, and requests
of two caches for one line do not cross. -/
def Orderly (cl : Cluster) (sys : System) : Action → Prop
  | .start t b req => cl.snooped b = true ∧
      (req.linked = none → uncached req.addr = false → Clear cl sys t b (cl.line req.addr))
  | .reply t j => ¬Crossing cl sys t j
  | .wake t _ _ => ∀ req upgrade pending notified replies, (sys.threads t).phase =
      .snooping req .makeInvalid upgrade pending notified replies →
        Clear cl sys t (sys.threads t).cache (cl.line req.addr)
  | .serve _ | .resume _ _ => True

/-- A fetch is permitted when no other thread of the cache has the line in
flight. -/
def fetchAlone (cl : Cluster) (t b addr : ℕ) (ttype : Transaction) (sys : System) : Prop :=
  ttype.isFetch = true → Clear cl sys t b (cl.line addr)

theorem fetchAlone_policy (cl : Cluster) (t b addr : ℕ) :
    Policy cl t b addr (fetchAlone cl t b addr) where
  stable := fun _ _ _ hthreads hclear hfetch => (hclear hfetch).congr hthreads
  flush := fun _ _ hfetch => by cases hfetch
  invalidate := fun _ hfetch => by cases hfetch
  clear := fun _ _ hclear => hclear

/-- One step of a cluster whose requests do not cross. -/
theorem Coherent.step {a : Action} (h : Coherent cl sys) (htidy : Tidy cl sys)
    (hroom : NoWrap sys) (horderly : Orderly cl sys a) (hstep : sys.step cl a = some sys') :
    Tidy cl sys' ∧ Coherent cl sys' := by
  refine htidy.step h (fetchAlone_policy cl)
    (fun t b addr s s' hport htidy h hmove => h.move htidy hport hmove) ?_ hroom ?_ ?_ ?_ hstep
  · rintro t j rfl
    exact h.reply htidy ((hroom j).mono (by omega)) horderly hstep
  · rintro t b req rfl
    exact ⟨horderly.1, fun _ hfetch => (by cases hfetch),
      fun hlinked hcached _ _ => horderly.2 hlinked hcached⟩
  · rintro t garbage returned req upgrade pending notified replies rfl hphase ttype -
    exact horderly _ _ _ _ _ hphase
  · exact fun t flight hflight _ _ => htidy.clear_of_flight hflight

theorem Coherent.powerOn (cl : Cluster) (memory : Memory) : Coherent cl (powerOn memory) := by
  have hflight : ∀ {t b line flight}, ¬(System.powerOn memory).InFlight cl t b line flight := by
    rintro t b line flight ⟨-, hsome, -⟩
    cases hsome
  constructor
  case single =>
    exact fun line b i b' i' _ hi' _ _ => Ccache.fresh_absent (cl.geometry b') line i' hi'
  case bound => exact fun line b t flight j h => absurd h hflight
  case ahead => exact fun line b t flight b' t' flight' h => absurd h hflight
  case given =>
    rintro line b t i ts pending ⟨-, req, notified, replies, hphase, -⟩
    cases hphase

/-- The property: a line that is unique in one cache is in no other. -/
def SingleWriter (cl : Cluster) (sys : System) : Prop :=
  ∀ line b i b' i', i < (cl.geometry b).ways → i' < (cl.geometry b').ways → b ≠ b' →
    sys.state cl b i line = .uniqueClean ∨ sys.state cl b i line = .uniqueDirty →
      sys.state cl b' i' line = .invalid

theorem Coherent.singleWriter (h : Coherent cl sys) : SingleWriter cl sys := by
  intro line b i b' i' hi hi' hne hunique
  refine h.single line b i b' i' hi hi' hne ?_
  rcases hunique with hclean | hdirty
  · rw [hclean]
    exact ⟨by decide, by decide⟩
  · rw [hdirty]
    exact ⟨by decide, by decide⟩

/-- For any number of caches and threads, and any order of their steps: as long
as no two requests for one line cross, a line that is unique in one cache is in
no other. -/
theorem orderly_singleWriter (cl : Cluster) (memory : Memory) (actions : List Action)
    (final : System)
    (hguard : Guarded.Meets (System.step cl)
      (fun sys a => NoWrap sys ∧ Orderly cl sys a) (powerOn memory) actions)
    (hrun : Guarded.exec (System.step cl) (powerOn memory) actions = some final) :
    SingleWriter cl final := by
  have hkeeps : ∀ sys a next, Tidy cl sys ∧ Coherent cl sys →
      NoWrap sys ∧ Orderly cl sys a → sys.step cl a = some next →
      Tidy cl next ∧ Coherent cl next :=
    fun sys a next h hmeets hstep => h.2.step h.1 hmeets.1 hmeets.2 hstep
  have hinv := Guarded.exec_invariant hkeeps
    ⟨Tidy.powerOn cl memory, Coherent.powerOn cl memory⟩ hguard hrun
  exact hinv.2.singleWriter

/-- Two snooped caches of one line each, of sixteen bytes. -/
def twoCaches : Cluster :=
  { boffsetb := 4
    snoopedTargets := [true, true]
    geometry := fun _ =>
      { boffsetb := 4, indexb := 0, ways := 1
        boffsetb_lt := by decide, ways_pos := Nat.one_pos }
    same_line := fun _ => rfl }

/-- A plain read of four bytes at address 0. -/
def readWord : Request :=
  { write := false, addr := 0, length := 4, data := fun _ => 0, benable := none
    blength := 0, linked := none }

/-- The thread that an action is a step of. -/
def Action.thread : Action → ℕ
  | .start t _ _ | .reply t _ | .wake t _ _ | .serve t | .resume t _ => t

/-- A thread that alone has a line in flight crosses no request. -/
theorem orderly_of_alone {a : Action}
    (hstart : ∀ t b req, a = .start t b req → cl.snooped b = true)
    (hreply : ∀ t j, a = .reply t j → (sys.threads t).cache ≠ j)
    (halone : ∀ u, u ≠ a.thread → (sys.threads u).phase.flight = none) :
    Orderly cl sys a := by
  have hclear : ∀ b line, Clear cl sys a.thread b line := fun b line u flight hu hflight => by
    have hsome := hflight.2.1
    rw [halone u hu] at hsome
    cases hsome
  cases a with
  | start t b req => exact ⟨hstart t b req rfl, fun _ _ => hclear b _⟩
  | reply t j =>
      rintro ⟨req, ttype, upgrade, pending, notified, replies, -, -, u, flight, hflight, -⟩
      by_cases hu : u = t
      · exact hreply t j rfl (hu ▸ hflight.1)
      · exact hclear j _ u flight hu hflight
  | wake t garbage returned => exact fun req _ _ _ _ _ => hclear _ (cl.line req.addr)
  | serve t | resume t returned => trivial

/-- Two caches of one line with these status words. -/
theorem noWrap_of_words (first second : Word64) (hfirst : version first + 3 < 2 ^ 60)
    (hsecond : version second + 3 < 2 ^ 60)
    (hwords : ∀ b i k, (sys.caches b).word i k =
      if i = 0 ∧ k = 0 then if b = 0 then first else if b = 1 then second else 0 else 0) :
    NoWrap sys := by
  have hzero : version 0 + 3 < 2 ^ 60 := by decide
  intro b i k
  rw [hwords b i k]
  split_ifs
  exacts [hfirst, hsecond, hzero, hzero]

/-- A write of four bytes at address 0. -/
def writeWord : Request :=
  { write := true, addr := 0, length := 4, data := fun _ => 1, benable := none
    blength := 0, linked := none }

/-- Cache 0 reads a line, then cache 1 writes it. -/
def handover : List Action :=
  [.start 0 0 readWord, .reply 0 1, .wake 0 (fun _ => 0) false, .serve 0, .resume 0 false,
    .start 1 1 writeWord, .reply 1 0, .wake 1 (fun _ => 0) true]

theorem handover_noWrap :
    Guarded.Meets (System.step twoCaches) (fun sys _ => NoWrap sys) (powerOn fun _ => 0)
      handover := by
  iterate 5
    refine Guarded.meets_cons rfl (noWrap_of_words 0 0 (by decide) (by decide) ?_) ?_
    · rintro (_ | _ | b) (_ | i) (_ | k) <;> rfl
  iterate 2
    refine Guarded.meets_cons rfl
      (noWrap_of_words 34 0 (by decide) (by decide) ?_) ?_
    · rintro (_ | _ | b) (_ | i) (_ | k) <;> rfl
  refine Guarded.meets_cons rfl
    (noWrap_of_words 48 0 (by decide) (by decide) ?_) trivial
  rintro (_ | _ | b) (_ | i) (_ | k) <;> rfl

theorem handover_orderly :
    Guarded.Meets (System.step twoCaches) (Orderly twoCaches) (powerOn fun _ => 0)
      handover := by
  iterate 8
    refine Guarded.meets_cons rfl (orderly_of_alone ?_ ?_ ?_) ?_
    · rintro t b req ⟨⟩ <;> rfl
    · rintro t j ⟨⟩ <;> decide
    · rintro (_ | _ | u) hu <;> first | rfl | exact absurd rfl hu
  trivial

/-- A line one cache has read is written by another, to which it passes. -/
theorem orderly_singleWriter_handover : ∃ final,
    Guarded.exec (System.step twoCaches) (powerOn fun _ => 0) handover = some final ∧
      final.state twoCaches 0 0 0 = .invalid ∧ final.state twoCaches 1 0 0 = .uniqueDirty ∧
      SingleWriter twoCaches final := by
  refine ⟨_, rfl, rfl, rfl, orderly_singleWriter twoCaches (fun _ => 0) handover _ ?_ rfl⟩
  exact Guarded.meets_and handover_noWrap handover_orderly

/-- Two reads of one line cross: both caches insert it as unique. -/
theorem crossing_reads_both_unique :
    ∃ final, Guarded.exec (System.step twoCaches) (powerOn fun _ => 0)
        [.start 0 0 readWord, .start 1 1 readWord, .reply 0 1, .reply 1 0,
          .wake 0 (fun _ => 0) false, .wake 1 (fun _ => 0) false, .serve 0, .serve 1,
          .resume 0 false, .resume 1 false] = some final ∧
      final.state twoCaches 0 0 0 = .uniqueClean ∧
      final.state twoCaches 1 0 0 = .uniqueClean ∧ ¬SingleWriter twoCaches final := by
  refine ⟨_, rfl, rfl, rfl, fun hsingle => ?_⟩
  exact absurd (hsingle 0 0 0 1 0 Nat.one_pos Nat.one_pos (by decide) (.inl rfl)) (by decide)

end System

end Prazor.Caches
