import Prazor.Caches.Effects

/-!
# One lemma for each operation of a cache

Each lemma says what an operation that has come to an end did, in terms of the
three effects, so that later proofs need not open it.
-/

namespace Prazor.Caches

theorem acquirets_same_of_unlocked {status : Word64} (hunlocked : locked status = false) :
    acquirets status status = ⟨status ||| 1, status ||| 1, true⟩ := by
  have hself := acquirets_self status
  rwa [and_not_one hunlocked] at hself

theorem acquirets_same_success {status : Word64}
    (hsuccess : (acquirets status status).success = true) : locked status = false := by
  rw [acquirets_success.mp hsuccess, locked_and_not_one]

theorem acquirets_of_success {status oldts : Word64}
    (hsuccess : (acquirets status oldts).success = true) :
    locked status = false ∧ status = oldts &&& ~~~1 ∧
      acquirets status oldts = ⟨status ||| 1, status ||| 1, true⟩ := by
  have hstatus := acquirets_success.mp hsuccess
  refine ⟨by rw [hstatus, locked_and_not_one], hstatus, ?_⟩
  rw [hstatus, acquirets_self]

theorem releasets_success_iff {status oldts newts : Word64} :
    (releasets status oldts newts).success = true ↔ status = oldts := by
  by_cases heq : status = oldts
  · rw [heq, releasets_self]
    exact ⟨fun _ => rfl, fun _ => rfl⟩
  · rw [releasets_of_ne heq]
    exact ⟨fun h => (Bool.false_ne_true h).elim, fun h => absurd h heq⟩

theorem version_or_one_room {ts : Word64} (hunlocked : locked ts = false)
    (hroom : version ts + 1 < 2 ^ 60) : version (ts ||| 1) + 1 < 2 ^ 60 := by
  rwa [version_or_one hunlocked]

namespace Ccache

variable {g : Geometry} {cache cache' : Ccache}

/-- Every column of the cache can still take some new versions. -/
def Room (cache : Ccache) (n : ℕ) : Prop := ∀ i k, version (cache.word i k) + n < 2 ^ 60

theorem Room.mono {n m : ℕ} (hroom : cache.Room n) (hle : m ≤ n) : cache.Room m :=
  fun i k => lt_of_le_of_lt (Nat.add_le_add_left hle _) (hroom i k)

theorem Room.of_le {n : ℕ} (hroom : cache.Room (n + 1))
    (hle : ∀ i k, version (cache'.word i k) ≤ version (cache.word i k) + 1) :
    cache'.Room n := by
  intro i k
  have hword := hle i k
  have hold := hroom i k
  omega

/-- Locking an unlocked line. -/
theorem lowers_lock {i k : ℕ} (hunlocked : locked (cache.word i k) = false) :
    Lowers g cache (cache.setStatus i k (cache.word i k ||| 1)) := by
  apply lowers_setStatus
  · exact .inl (lineState_or_one hunlocked)
  · rw [rank_or_one hunlocked]
    exact Nat.lt_succ_self _
  · rw [version_or_one hunlocked]
    exact Nat.le_succ _

/-- A line that is locked and released with a new version, in the same state or
in a lower one. -/
theorem lowers_release {i k : ℕ} {status : Word64} (hroom : cache.Room 1)
    (hunlocked : locked (cache.word i k) = false)
    (hstatus : status = inctsSame (cache.word i k ||| 1) ∨
      status = incts (cache.word i k ||| 1) .invalid ∨
      (status = incts (cache.word i k ||| 1) .sharedClean ∧
        lineState (cache.word i k) ≠ .invalid)) :
    Lowers g cache (cache.setStatus i k status) := by
  have hversion := version_or_one_room hunlocked (hroom i k)
  have hrank : rank (cache.word i k) < rank (cache.word i k ||| 1) := by
    rw [rank_or_one hunlocked]
    exact Nat.lt_succ_self _
  have hnext : version (cache.word i k ||| 1) + 1 ≤ version (cache.word i k) + 1 := by
    rw [version_or_one hunlocked]
  rcases hstatus with rfl | rfl | ⟨rfl, hvalid⟩
  · apply lowers_setStatus
    · exact .inl (by rw [lineState_inctsSame, lineState_or_one hunlocked])
    · exact hrank.trans (rank_lt_inctsSame hversion)
    · rwa [version_inctsSame hversion]
  · apply lowers_setStatus
    · exact .inr (.inl (lineState_incts _ _))
    · exact hrank.trans (rank_lt_incts hversion _)
    · rwa [version_incts hversion]
  · apply lowers_setStatus
    · exact .inr (.inr ⟨hvalid, lineState_incts _ _⟩)
    · exact hrank.trans (rank_lt_incts hversion _)
    · rwa [version_incts hversion]

/-- A line that is locked and at once given up. -/
theorem releaseInvalid_lock {i k : ℕ} (hroom : cache.Room 1)
    (hunlocked : locked (cache.word i k) = false)
    (hrelease : (cache.setStatus i k (cache.word i k ||| 1)).releaseInvalid i k
      (cache.word i k ||| 1) = some cache') :
    Lowers g cache cache' ∧ cache'.lru = cache.lru ∧
      cache' = cache.setStatus i k (incts (cache.word i k ||| 1) .invalid) := by
  have hword : ((cache.setStatus i k (cache.word i k ||| 1)).mWays i).mStatus k =
      cache.word i k ||| 1 := by
    have hset := word_setStatus cache i k (cache.word i k ||| 1) i k
    rwa [if_pos ⟨rfl, rfl⟩] at hset
  unfold releaseInvalid at hrelease
  rw [hword, releasets_self] at hrelease
  dsimp only at hrelease
  rw [if_pos rfl, Option.some.injEq, setStatus_setStatus] at hrelease
  subst hrelease
  exact ⟨lowers_release hroom hunlocked (.inr (.inl rfl)), rfl, rfl⟩

/-! ## Reads -/

theorem touch_spec {i k : ℕ} {oldts : Word64} (hroom : cache.Room 1)
    (htouch : cache.touch i k oldts = some (some cache')) :
    Lowers g cache cache' ∧ cache'.lru = cache.lru := by
  unfold touch at htouch
  dsimp only at htouch
  split at htouch
  case isFalse => cases htouch
  case isTrue hsuccess =>
    obtain ⟨hunlocked, -, hacquire⟩ := acquirets_of_success hsuccess
    rw [hacquire] at htouch
    simp only [releasets_self, if_true, Option.some.injEq] at htouch
    subst htouch
    exact ⟨lowers_release hroom hunlocked (.inl rfl), rfl⟩

/-! ## Insertion -/

theorem lruw_lt (hlru : cache.lru < g.ways) : (cache.lruw g).lru < g.ways := by
  have hpos := g.ways_pos
  simp only [lruw]
  split <;> omega

/-- Moving on to the next way changes no line. -/
theorem lowers_lruw (g : Geometry) (cache : Ccache) : Lowers g cache (cache.lruw g) where
  state := fun _ _ => .inl rfl
  word := fun _ _ => .inl rfl
  same := fun _ _ _ => rfl
  room := fun _ _ => Nat.le_succ _
  data := fun _ => rfl

theorem Lowers.of_lruw (hlowers : Lowers g (cache.lruw g) cache') :
    Lowers g cache cache' :=
  ⟨hlowers.state, hlowers.word, hlowers.same, hlowers.room, hlowers.data⟩

/-- `beginInsert` either only moves on, or locks the column of the next way. -/
theorem beginInsert_spec {k : ℕ} (hlru : cache.lru < g.ways) :
    Lowers g cache (cache.beginInsert g k).1 ∧
      (cache.beginInsert g k).1.lru < g.ways ∧
      ∀ i ts, (cache.beginInsert g k).2 = some (i, ts) →
        i < g.ways ∧ locked (cache.word i k) = false ∧ ts = cache.word i k ||| 1 ∧
          (cache.beginInsert g k).1 = (cache.lruw g).setStatus i k ts := by
  have hnext := lruw_lt hlru
  have hword : ∀ j, ((cache.lruw g).mWays j).mStatus k = cache.word j k := fun _ => rfl
  unfold beginInsert
  dsimp only
  rw [hword]
  by_cases hunlocked : locked (cache.word (cache.lruw g).lru k) = false
  · rw [acquirets_same_of_unlocked hunlocked, if_pos rfl]
    refine ⟨?_, hnext, ?_⟩
    · exact Lowers.of_lruw (lowers_lock (i := (cache.lruw g).lru) (k := k) hunlocked)
    · rintro i ts heq
      obtain ⟨rfl, rfl⟩ : (cache.lruw g).lru = i ∧
          cache.word (cache.lruw g).lru k ||| 1 = ts := by simpa using heq
      exact ⟨hnext, hunlocked, rfl, rfl⟩
  · rw [if_neg fun hsuccess => hunlocked (acquirets_same_success hsuccess)]
    exact ⟨lowers_lruw g cache, hnext, fun i ts heq => by cases heq⟩

/-- An insertion that cannot begin has found the next way's column locked. -/
theorem locked_of_beginInsert {k : ℕ} (hlru : cache.lru < g.ways)
    (hnone : (cache.beginInsert g k).2 = none) :
    ∃ i, i < g.ways ∧ locked (cache.word i k) = true := by
  refine ⟨(cache.lruw g).lru, lruw_lt hlru, ?_⟩
  by_contra hunlocked
  rw [Bool.not_eq_true] at hunlocked
  have hword : ((cache.lruw g).mWays (cache.lruw g).lru).mStatus k =
      cache.word (cache.lruw g).lru k := rfl
  unfold beginInsert at hnone
  dsimp only at hnone
  rw [hword, acquirets_same_of_unlocked hunlocked, if_pos rfl] at hnone
  cases hnone

theorem finishInsert_spec {i line : ℕ} {cline : Buffer} {news : LineState}
    {ts newts : Word64} (hi : i < g.ways) (hroom : cache.Room 1)
    (hfinish : cache.finishInsert g i (line % g.columns) (line / g.columns) cline news ts =
      some (cache', newts)) :
    Inserts g cache cache' i line news cline ∧ cache'.lru = cache.lru ∧
      cache.word i (line % g.columns) = ts ∧
      newts = cache'.word i (line % g.columns) := by
  unfold finishInsert at hfinish
  dsimp only at hfinish
  split at hfinish
  case isFalse => cases hfinish
  case isTrue hsuccess =>
    have hts : cache.word i (line % g.columns) = ts := releasets_success_iff.mp hsuccess
    have hts' : (cache.mWays i).mStatus (line % g.columns) = ts := hts
    rw [hts'] at hfinish
    simp only [releasets_self, Option.some.injEq, Prod.mk.injEq] at hfinish
    obtain ⟨rfl, rfl⟩ := hfinish
    have hversion : version ts + 1 < 2 ^ 60 := hts ▸ hroom i (line % g.columns)
    have hself : ∀ way : Way, (cache.setWay i way).mWays i = way :=
      fun way => mWays_setWay_self cache i way
    have hother : ∀ (way : Way) j, j ≠ i → (cache.setWay i way).mWays j = cache.mWays j :=
      fun way j hj => mWays_setWay_of_ne cache hj way
    refine ⟨⟨hi, ?_, ?_, ?_, ?_, ?_, ?_, ?_, ?_⟩, rfl, hts, ?_⟩
    · by_cases hnews : news = .invalid <;>
        simp [stateOf, Way.lookup, hself, hnews]
    · intro line' hcolumn hne
      have htag : ¬(line / g.columns = line' / g.columns) := by
        intro heq
        apply hne
        rw [← Nat.div_add_mod' line' g.columns, ← heq, hcolumn, Nat.div_add_mod']
      simp [stateOf, Way.lookup, hself, hcolumn, htag]
    · intro j line' hslot
      by_cases hj : j = i
      · subst hj
        have hcolumn : line' % g.columns ≠ line % g.columns := fun h => hslot ⟨rfl, h⟩
        simp [stateOf, Way.lookup, hself, hcolumn]
      · simp [stateOf, hother _ j hj]
    · simp only [word, hself, Function.update_self, hts']
      exact rank_lt_incts hversion news
    · intro j k hslot
      by_cases hj : j = i
      · subst hj
        have hk : k ≠ line % g.columns := fun h => hslot ⟨rfl, h⟩
        simp [word, hself, hk]
      · simp [word, hother _ j hj]
    · intro j k
      by_cases hslot : j = i ∧ k = line % g.columns
      · obtain ⟨rfl, rfl⟩ := hslot
        simp only [word, hself, Function.update_self, hts']
        rw [version_incts hversion]
      · by_cases hj : j = i
        · subst hj
          have hk : k ≠ line % g.columns := fun h => hslot ⟨rfl, h⟩
          simp [word, hself, hk]
        · simp [word, hother _ j hj]
    · intro k hk
      simp [bytesOf, hself, Bytes.memcpy, hk]
    · intro j k hslot
      by_cases hj : j = i
      · subst hj
        have hk : k ≠ line % g.columns := fun h => hslot ⟨rfl, h⟩
        simp [hself, hk]
      · simp [hother _ j hj]
    · simp [word, hself]

/-! ## Writes into a line that is present -/

/-- A write happens only while the status word is the one that was seen. -/
theorem word_of_warmWrite {i : ℕ} {req : Request} {oldts : Word64} {update : Bool}
    (hwrite : cache.warmWrite g i req oldts update = some (some cache')) :
    cache.word i (g.line req.addr % g.columns) = oldts &&& ~~~1 := by
  unfold warmWrite at hwrite
  dsimp only at hwrite
  split at hwrite
  case isFalse => cases hwrite
  case isTrue hsuccess =>
    rw [word_index]
    exact acquirets_success.mp hsuccess

theorem warmWrite_spec {i : ℕ} {req : Request} {oldts : Word64} {update : Bool}
    (hi : i < g.ways) (hroom : cache.Room 1)
    (hvalid : cache.stateOf g i (g.line req.addr) ≠ .invalid)
    (hupdate : update = true ∨ cache.stateOf g i (g.line req.addr) = .uniqueDirty)
    (hwrite : cache.warmWrite g i req oldts update = some (some cache')) :
    Dirties g cache cache' i (g.line req.addr)
        (mergeAt (g.offset req.addr) req.length req.data
          (cache.bytesOf g i (g.line req.addr))) ∧
      cache'.lru = cache.lru ∧
      cache.word i (g.line req.addr % g.columns) = oldts &&& ~~~1 := by
  unfold warmWrite at hwrite
  dsimp only at hwrite
  rw [g.index_eq, show (cache.mWays i).mStatus (g.line req.addr % g.columns) =
    cache.word i (g.line req.addr % g.columns) from rfl] at hwrite
  generalize hold : cache.word i (g.line req.addr % g.columns) = old at hwrite
  split at hwrite
  case isFalse => cases hwrite
  case isTrue hsuccess =>
    obtain ⟨hunlocked, hoold, hacquire⟩ := acquirets_of_success hsuccess
    rw [hacquire] at hwrite
    simp only [releasets_self, if_true, Option.some.injEq] at hwrite
    have hstate := stateOf_eq_lineState hvalid
    obtain ⟨-, htag⟩ := stateOf_ne_invalid.mp hvalid
    rw [hold] at hstate
    have hversion : version old + 1 < 2 ^ 60 := hold ▸ hroom i _
    have hversion' := version_or_one_room hunlocked hversion
    have hnew : ∀ status, (if update then incts (old ||| 1) .uniqueDirty
        else inctsSame (old ||| 1)) = status →
        lineState status = .uniqueDirty ∧ rank old < rank status ∧
          version status = version old + 1 := by
      rintro status rfl
      have hrank : rank old < rank (old ||| 1) := by
        rw [rank_or_one hunlocked]
        exact Nat.lt_succ_self _
      cases update with
      | true =>
          refine ⟨lineState_incts _ _, hrank.trans (rank_lt_incts hversion' _), ?_⟩
          simp only [if_true]
          rw [version_incts hversion', version_or_one hunlocked]
      | false =>
          have hdirty : lineState old = .uniqueDirty := by
            rw [← hstate]
            exact hupdate.resolve_left (by decide)
          refine ⟨?_, hrank.trans (rank_lt_inctsSame hversion'), ?_⟩
          · simp only [Bool.false_eq_true, if_false]
            rw [lineState_inctsSame, lineState_or_one hunlocked, hdirty]
          · simp only [Bool.false_eq_true, if_false]
            rw [version_inctsSame hversion', version_or_one hunlocked]
    generalize hstatus : (if update then incts (old ||| 1) .uniqueDirty
      else inctsSame (old ||| 1)) = status at hwrite
    obtain ⟨hdirty, hrank, hnext⟩ := hnew status hstatus
    subst hwrite
    have hself : ∀ way : Way, (cache.setWay i way).mWays i = way :=
      fun way => mWays_setWay_self cache i way
    have hother : ∀ (way : Way) j, j ≠ i → (cache.setWay i way).mWays j = cache.mWays j :=
      fun way j hj => mWays_setWay_of_ne cache hj way
    refine ⟨⟨⟨hi, hvalid⟩, ?_, ?_, ?_, ?_, ?_, ?_⟩, rfl, hoold⟩
    · intro j line'
      by_cases hj : j = i
      · subst hj
        by_cases hline : line' = g.line req.addr
        · subst hline
          simp [stateOf, Way.lookup, hself, hdirty, htag]
        · rw [if_neg fun h => hline h.2]
          by_cases hcolumn : line' % g.columns = g.line req.addr % g.columns
          · -- the tag of the column names another line
            have htag' : ¬(g.line req.addr / g.columns = line' / g.columns) := by
              intro heq
              apply hline
              rw [← Nat.div_add_mod' line' g.columns, ← heq, hcolumn, Nat.div_add_mod']
            simp [stateOf, Way.lookup, hself, hcolumn, htag, htag']
          · simp [stateOf, Way.lookup, hself, hcolumn]
      · simp [stateOf, hother _ j hj, hj]
    · simp only [word, hself, Function.update_self]
      exact (congrArg rank hold).trans_lt hrank
    · intro j k hslot
      by_cases hj : j = i
      · subst hj
        have hk : k ≠ g.line req.addr % g.columns := fun h => hslot ⟨rfl, h⟩
        simp [word, hself, hk]
      · simp [word, hother _ j hj]
    · intro j k
      by_cases hslot : j = i ∧ k = g.line req.addr % g.columns
      · obtain ⟨rfl, rfl⟩ := hslot
        rw [hold]
        simp only [word, hself, Function.update_self, hnext, le_refl]
      · by_cases hj : j = i
        · subst hj
          have hk : k ≠ g.line req.addr % g.columns := fun h => hslot ⟨rfl, h⟩
          simp [word, hself, hk]
        · simp [word, hother _ j hj]
    · simp [bytesOf, hself]
    · intro j k hslot
      by_cases hj : j = i
      · subst hj
        have hk : k ≠ g.line req.addr % g.columns := fun h => hslot ⟨rfl, h⟩
        simp [hself, hk]
      · simp [hother _ j hj]

/-! ## Snoops -/

/-- The first way that holds a line, as a snoop finds it. -/
structure Found (g : Geometry) (cache : Ccache) (line i : ℕ) : Prop where
  way : i < g.ways
  valid : cache.stateOf g i line ≠ .invalid
  state : cache.stateOf g i line = lineState (cache.word i (line % g.columns))

/-- What a snoop did to the line it found in way `i`: the answer has the line as
it was, and the line is now in state `left`. -/
structure Snooped (g : Geometry) (cache cache' : Ccache) (reply : Reply) (line i : ℕ)
    (left : LineState) : Prop extends Found g cache line i where
  answer : reply.state = cache.stateOf g i line
  left_state : cache'.stateOf g i line = left
  other : ∀ j, j ≠ i → cache'.stateOf g j line = cache.stateOf g j line
  word_ne : cache'.word i (line % g.columns) ≠ cache.word i (line % g.columns)

theorem found_of_lookup {addr i : ℕ}
    (hhit : cache.lookup g (g.index addr) (g.tag addr) = some i) :
    Found g cache (g.line addr) i := by
  obtain ⟨hi, hvalid, hstate⟩ := stateOf_of_lookup hhit
  exact ⟨hi, hvalid, hstate⟩

/-- A found line whose word is replaced by a newer one in state `left`. -/
theorem snooped_setStatus {line i : ℕ} {status : Word64} {reply : Reply} {left : LineState}
    (hfound : Found g cache line i) (hanswer : reply.state = cache.stateOf g i line)
    (hleft : lineState status = left)
    (hrank : rank (cache.word i (line % g.columns)) < rank status) :
    Snooped g cache (cache.setStatus i (line % g.columns) status) reply line i left where
  toFound := hfound
  answer := hanswer
  left_state := by
    rw [stateOf_setStatus_self, if_pos (stateOf_ne_invalid.mp hfound.valid).2, hleft]
  other := fun j hj => stateOf_setStatus_of_ne status fun h => hj h.1
  word_ne := by
    rw [word_setStatus, if_pos ⟨rfl, rfl⟩]
    intro heq
    rw [heq] at hrank
    exact lt_irrefl _ hrank

theorem snoopLine_spec {lineAddr : ℕ} {shared : Bool} {reply : Reply}
    (hroom : cache.Room 1)
    (hsnoop : cache.snoopLine g lineAddr shared = some (cache', reply)) :
    Lowers g cache cache' ∧ cache'.lru = cache.lru ∧
      ((cache.Absent g (g.line lineAddr) ∧ cache' = cache ∧ reply.state = .invalid) ∨
        ∃ i, cache.lookup g (g.index lineAddr) (g.tag lineAddr) = some i ∧
          reply.data = cache.bytesOf g i (g.line lineAddr) ∧
          Snooped g cache cache' reply (g.line lineAddr) i
            (if shared then .sharedClean else .invalid)) := by
  unfold snoopLine at hsnoop
  dsimp only at hsnoop
  cases hlookup : cache.lookup g (g.index lineAddr) (g.tag lineAddr) with
  | none =>
      rw [hlookup] at hsnoop
      obtain ⟨rfl, rfl⟩ := Prod.mk.inj (Option.some.inj hsnoop)
      exact ⟨Lowers.refl g cache, rfl,
        .inl ⟨lookup_eq_none_iff.mp hlookup, rfl, rfl⟩⟩
  | some i =>
      rw [hlookup] at hsnoop
      have hfound := found_of_lookup hlookup
      have hword : (cache.mWays i).mStatus (g.index lineAddr) =
          cache.word i (g.line lineAddr % g.columns) := (word_index cache g i lineAddr).symm
      simp only [hword] at hsnoop
      split at hsnoop
      case isFalse => cases hsnoop
      case isTrue hsuccess =>
        have hunlocked := acquirets_same_success hsuccess
        simp only [acquirets_same_of_unlocked hunlocked, releasets_self, if_true,
          Option.some.injEq, Prod.mk.injEq] at hsnoop
        obtain ⟨rfl, rfl⟩ := hsnoop
        have hvalid : lineState (cache.word i (g.line lineAddr % g.columns)) ≠ .invalid := by
          rw [← hfound.state]
          exact hfound.valid
        have hversion := version_or_one_room hunlocked (hroom i (g.line lineAddr % g.columns))
        have hrank : rank (cache.word i (g.line lineAddr % g.columns)) <
            rank (incts (cache.word i (g.line lineAddr % g.columns) ||| 1)
              (if shared then .sharedClean else .invalid)) := by
          have hlock := rank_or_one hunlocked
          have hnext := rank_lt_incts hversion (if shared then .sharedClean else .invalid)
          omega
        rw [g.index_eq]
        refine ⟨?_, rfl, .inr ⟨i, rfl, ?_, ?_⟩⟩
        · apply lowers_release hroom hunlocked
          cases shared with
          | true => exact .inr (.inr ⟨rfl, hvalid⟩)
          | false => exact .inr (.inl rfl)
        · rfl
        · exact snooped_setStatus hfound hfound.state.symm (lineState_incts _ _) hrank

theorem snoopMakeInvalid_spec {lineAddr : ℕ} {reply : Reply} (hroom : cache.Room 1)
    (hsnoop : cache.snoopMakeInvalid g lineAddr = some (cache', reply)) :
    Lowers g cache cache' ∧ cache'.lru = cache.lru ∧
      ((cache.Absent g (g.line lineAddr) ∧ cache' = cache ∧ reply.state = .invalid) ∨
        ∃ i, Found g cache (g.line lineAddr) i ∧
          ((cache.stateOf g i (g.line lineAddr) ≠ .sharedClean ∧ cache' = cache) ∨
            Snooped g cache cache' reply (g.line lineAddr) i .invalid)) := by
  unfold snoopMakeInvalid at hsnoop
  dsimp only at hsnoop
  cases hlookup : cache.lookup g (g.index lineAddr) (g.tag lineAddr) with
  | none =>
      rw [hlookup] at hsnoop
      obtain ⟨rfl, rfl⟩ := Prod.mk.inj (Option.some.inj hsnoop)
      exact ⟨Lowers.refl g cache, rfl,
        .inl ⟨lookup_eq_none_iff.mp hlookup, rfl, rfl⟩⟩
  | some i =>
      rw [hlookup] at hsnoop
      have hfound := found_of_lookup hlookup
      have hword : (cache.mWays i).mStatus (g.index lineAddr) =
          cache.word i (g.line lineAddr % g.columns) := (word_index cache g i lineAddr).symm
      simp only [hword] at hsnoop
      split at hsnoop
      case isTrue hstate =>
        obtain ⟨rfl, rfl⟩ := Prod.mk.inj (Option.some.inj hsnoop)
        rw [← hfound.state] at hstate
        exact ⟨Lowers.refl g cache, rfl, .inr ⟨i, hfound, .inl ⟨hstate, rfl⟩⟩⟩
      case isFalse hstate =>
        split at hsnoop
        case isFalse => cases hsnoop
        case isTrue hsuccess =>
          obtain ⟨rfl, rfl⟩ := Prod.mk.inj (Option.some.inj hsnoop)
          have hunlocked : locked (cache.word i (g.line lineAddr % g.columns)) = false := by
            by_contra hlocked
            rw [updatets_of_ne] at hsuccess
            · cases hsuccess
            · intro heq
              rw [heq, locked_and_not_one] at hlocked
              exact hlocked rfl
          have hupdate := updatets_self (cache.word i (g.line lineAddr % g.columns))
            (incts (cache.word i (g.line lineAddr % g.columns)) .invalid)
          rw [and_not_one hunlocked] at hupdate
          have hrank := rank_lt_incts (hroom i (g.line lineAddr % g.columns)) .invalid
          rw [hupdate, g.index_eq]
          refine ⟨?_, rfl, .inr ⟨i, hfound, .inr ?_⟩⟩
          · apply lowers_setStatus
            · exact .inr (.inl (lineState_incts _ _))
            · exact hrank
            · rw [version_incts (hroom i _)]
          · exact snooped_setStatus hfound hfound.state.symm (lineState_incts _ _) hrank

/-! ## Releasing a flushed line -/

theorem releaseInvalid_spec {i k : ℕ} {ts : Word64} (hroom : cache.Room 1)
    (hrelease : cache.releaseInvalid i k ts = some cache') :
    Lowers g cache cache' ∧ cache'.lru = cache.lru ∧ cache.word i k = ts ∧
      cache' = cache.setStatus i k (incts ts .invalid) := by
  unfold releaseInvalid at hrelease
  dsimp only at hrelease
  split at hrelease
  case isFalse => cases hrelease
  case isTrue hsuccess =>
    have hts : cache.word i k = ts := releasets_success_iff.mp hsuccess
    have hts' : (cache.mWays i).mStatus k = ts := hts
    rw [hts', releasets_self] at hrelease
    have hversion : version ts + 1 < 2 ^ 60 := hts ▸ hroom i k
    obtain rfl : cache.setStatus i k (incts ts .invalid) = cache' := Option.some.inj hrelease
    refine ⟨?_, rfl, hts, rfl⟩
    apply lowers_setStatus
    · exact .inr (.inl (lineState_incts _ _))
    · rw [hts]
      exact rank_lt_incts hversion _
    · rw [hts, version_incts hversion]

end Ccache

end Prazor.Caches
