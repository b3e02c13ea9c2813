import Prazor.Caches.Cluster
import Prazor.Caches.OperationSpecs

/-!
# What write tells its caller

`write` waits up to three times: for the answers to `MakeInvalid`, for the line that
is fetched and for the write-back of a victim.  What the other processes do to the
cache meanwhile is arbitrary here.  In the case of a miss the result of `cold_write`
goes to a variable of the same name in an inner block, and `write` returns the outer
one, which was never set.
-/

namespace Prazor.Caches

open Prazor.Bytes

/-- What happens while one call of `write` waits, the line it is brought, and what the
variable `success` happens to hold. -/
structure Waits where
  invalidated : Ccache → Ccache
  arrived : Buffer
  fetched : Ccache → Ccache
  writtenBack : Ccache → Ccache
  leftover : Bool

/-- What one call of `write` leaves: the cache, its result and the caller's data.  It is
recorded in which way the data were stored, and how the others had left the cache. -/
structure Outcome where
  cache : Ccache
  result : Bool
  data : Buffer
  stored : Option ℕ
  left : Ccache

namespace Ccache

variable (g : Geometry)

/-- `warm_write`; `none` when its assertion fails. -/
def warm (cache : Ccache) (i : ℕ) (req : Request) (oldts : Word64) (update : Bool) :
    Option Outcome :=
  let filled := cache.fillDisabled g i req
  (cache.warmWrite g i filled oldts update).map fun written =>
    match written with
    | some next =>
        { cache := next, result := true, data := filled.data, stored := some i, left := cache }
    | none =>
        { cache := cache, result := false, data := filled.data, stored := none, left := cache }

/-- `cold_write`, with `insert`; `none` when an assertion fails. -/
def coldWrite (cache : Ccache) (req : Request) (waits : Waits) : Option Outcome :=
  let index := g.index req.addr
  let tag := g.tag req.addr
  let newdata := System.arrivedLine g { req with write := true } waits.arrived
  let left := waits.fetched cache
  let begun := left.beginInsert g index
  match begun.2 with
  | none =>
      some { cache := begun.1, result := false, data := req.data, stored := none, left := left }
  | some (i, ts) =>
      let held :=
        if (begun.1.victim g i index tag (lineState ts)).isSome then waits.writtenBack begun.1
        else begun.1
      (held.finishInsert g i index tag newdata .uniqueDirty ts).map fun inserted =>
        { cache := inserted.1, result := true, data := req.data, stored := some i, left := held }

/-- `ccache::write`; `none` when an assertion fails. -/
def write (cache : Ccache) (req : Request) (waits : Waits) : Option Outcome :=
  let index := g.index req.addr
  if req.benable.isSome ∧ req.length ≠ req.blength then none
  else
    match cache.lookup g index (g.tag req.addr) with
    | some i =>
        let oldts := cache.word i index
        match lineState oldts with
        | .uniqueDirty => cache.warm g i req oldts false
        | .uniqueClean => cache.warm g i req oldts true
        | .sharedClean => (waits.invalidated cache).warm g i req oldts true
        | _ => none
    | none =>
        (cache.coldWrite g req waits).map fun outcome =>
          { outcome with result := waits.leftover }

/-- The enabled bytes of a request are in a line of this way, which is `UniqueDirty`. -/
structure StoredIn (cache : Ccache) (i : ℕ) (req : Request) : Prop where
  state : lineState (cache.word i (g.index req.addr)) = .uniqueDirty
  tag : (cache.mWays i).mTags (g.index req.addr) = g.tag req.addr
  bytes : ∀ k < req.length, req.enabled k →
    (cache.mWays i).mData (g.index req.addr) (g.offset req.addr + k) = req.data k

/-- The result is true exactly if the bytes were stored, and when it is false nothing was
and no line has changed. -/
structure Faithful (req : Request) (outcome : Outcome) : Prop where
  result_iff : outcome.result = true ↔
    ∃ i, outcome.stored = some i ∧ StoredIn g outcome.cache i req
  unchanged : outcome.result = false →
    outcome.stored = none ∧ outcome.cache.mWays = outcome.left.mWays

/-- The column that `insert` takes is free. -/
def ColumnFree (cache : Ccache) (index : ℕ) : Prop :=
  locked (cache.word (cache.lruw g).lru index) = false

/-- When the line is there, a shared one does not change its tag under the same status
word while the others give theirs up; when it is not, the variable that is returned
happens to hold whether the column is free. -/
def Returns (cache : Ccache) (req : Request) (waits : Waits) : Prop :=
  let index := g.index req.addr
  match cache.lookup g index (g.tag req.addr) with
  | some i =>
      lineState (cache.word i index) = .sharedClean →
        (waits.invalidated cache).word i index = cache.word i index &&& ~~~1 →
          ((waits.invalidated cache).mWays i).mTags index = g.tag req.addr
  | none => waits.leftover = true ↔ ColumnFree g (waits.fetched cache) index

/-! ## A line that is there -/

variable {g : Geometry} {cache : Ccache} {i : ℕ} {req : Request} {oldts : Word64}
  {update : Bool} {outcome : Outcome} {waits : Waits}

theorem lineState_and_not_one (ts : Word64) : lineState (ts &&& ~~~1) = lineState ts := by
  have hshift : (ts &&& ~~~1) >>> 1 = ts >>> 1 := by
    apply BitVec.eq_of_getLsbD_eq
    intro bit _
    simp only [BitVec.getLsbD_ushiftRight, BitVec.getLsbD_and, BitVec.getLsbD_not,
      getLsbD_one]
    have hne : 1 + bit ≠ 0 := by omega
    by_cases hlt : 1 + bit < 64
    · simp [hlt]
    · simp [BitVec.getLsbD_of_ge _ _ (not_lt.mp hlt)]
  rw [lineState, hshift, lineState]

/-- The status word a write into a line leaves is that of a dirty line. -/
theorem lineState_written (hdirty : update = true ∨ lineState oldts = .uniqueDirty) :
    lineState (if update then incts ((oldts &&& ~~~1) ||| 1) .uniqueDirty
      else inctsSame ((oldts &&& ~~~1) ||| 1)) = .uniqueDirty := by
  cases update with
  | true => exact lineState_incts _ _
  | false =>
      have hstate : lineState oldts = .uniqueDirty := hdirty.resolve_left Bool.false_ne_true
      simp only [Bool.false_eq_true, if_false]
      rw [lineState_inctsSame, lineState_or_one (locked_and_not_one oldts),
        lineState_and_not_one, hstate]

/-- The bytes are written if the status word is still the one that was seen, and then
the line is the right one if its tag is. -/
theorem warm_spec (hdirty : update = true ∨ lineState oldts = .uniqueDirty)
    (hwarm : cache.warm g i req oldts update = some outcome) :
    (cache.word i (g.index req.addr) = oldts &&& ~~~1 ∧ outcome.result = true ∧
        outcome.stored = some i ∧ (StoredIn g outcome.cache i req ↔
          (cache.mWays i).mTags (g.index req.addr) = g.tag req.addr)) ∨
      (cache.word i (g.index req.addr) ≠ oldts &&& ~~~1 ∧ outcome.result = false ∧
        outcome.stored = none ∧ outcome.cache = cache ∧ outcome.left = cache) := by
  obtain ⟨written, hwrite, hout⟩ := Option.map_eq_some_iff.mp hwarm
  unfold warmWrite at hwrite
  dsimp only [fillDisabled] at hwrite
  by_cases hword : cache.word i (g.index req.addr) = oldts &&& ~~~1
  · left
    have hstatus : (cache.mWays i).mStatus (g.index req.addr) = oldts &&& ~~~1 := hword
    rw [hstatus, acquirets_self] at hwrite
    simp only [if_true, releasets_self, Option.some.injEq] at hwrite
    subst hwrite
    subst hout
    refine ⟨hword, rfl, rfl, fun hstored => ?_, fun htag => ?_⟩
    · have htag := hstored.tag
      dsimp only at htag
      rwa [mWays_setWay_self] at htag
    · constructor
      case state =>
        dsimp only [word]
        rw [mWays_setWay_self]
        dsimp only
        rw [Function.update_self]
        exact lineState_written hdirty
      case tag =>
        dsimp only
        rwa [mWays_setWay_self]
      case bytes =>
        intro k hk henabled
        dsimp only
        rw [mWays_setWay_self]
        dsimp only
        rw [Function.update_self, mergeAt, if_pos ⟨by omega, by omega⟩,
          Nat.add_sub_cancel_left, if_neg (by simp [henabled])]
  · right
    have hfailed : ¬(acquirets ((cache.mWays i).mStatus (g.index req.addr)) oldts).success =
        true := fun hsuccess => hword (acquirets_success.mp hsuccess)
    rw [if_neg hfailed, Option.some.injEq] at hwrite
    subst hwrite
    subst hout
    exact ⟨hword, rfl, rfl, rfl, rfl⟩

/-- A write into a line says truly whether it was stored, unless the line has got
another tag under the status word that was seen. -/
theorem warm_faithful (hdirty : update = true ∨ lineState oldts = .uniqueDirty)
    (hwarm : cache.warm g i req oldts update = some outcome) :
    Faithful g req outcome ↔
      (cache.word i (g.index req.addr) = oldts &&& ~~~1 →
        (cache.mWays i).mTags (g.index req.addr) = g.tag req.addr) := by
  rcases warm_spec hdirty hwarm with ⟨hword, hresult, hstored, htag⟩ |
    ⟨hword, hresult, hstored, hcache, hleft⟩
  · constructor
    · intro hfaithful _
      obtain ⟨j, hj, hin⟩ := hfaithful.result_iff.mp hresult
      rw [hstored, Option.some.injEq] at hj
      exact htag.mp (hj ▸ hin)
    · intro hright
      constructor
      case result_iff => exact iff_of_true hresult ⟨i, hstored, htag.mpr (hright hword)⟩
      case unchanged =>
        intro hfalse
        rw [hresult] at hfalse
        cases hfalse
  · refine iff_of_true ?_ fun heq => absurd heq hword
    constructor
    case result_iff => simp [hresult, hstored]
    case unchanged =>
      intro _
      exact ⟨hstored, by rw [hcache, hleft]⟩

/-! ## A line that is fetched -/

theorem beginInsert_of_free {index : ℕ} (hfree : cache.ColumnFree g index) :
    cache.beginInsert g index =
      ((cache.lruw g).setStatus (cache.lruw g).lru index
          (cache.word (cache.lruw g).lru index ||| 1),
        some ((cache.lruw g).lru, cache.word (cache.lruw g).lru index ||| 1)) := by
  have hword : ((cache.lruw g).mWays (cache.lruw g).lru).mStatus index =
      cache.word (cache.lruw g).lru index := rfl
  unfold beginInsert
  dsimp only
  rw [hword, acquirets_same_of_unlocked hfree, if_pos rfl]

theorem beginInsert_of_not_free {index : ℕ} (hfree : ¬cache.ColumnFree g index) :
    cache.beginInsert g index = (cache.lruw g, none) := by
  have hword : ((cache.lruw g).mWays (cache.lruw g).lru).mStatus index =
      cache.word (cache.lruw g).lru index := rfl
  unfold beginInsert
  dsimp only
  rw [hword, if_neg fun hsuccess => hfree (acquirets_same_success hsuccess)]

/-- The line that is inserted holds the enabled bytes. -/
theorem finishInsert_stored {arrived : Buffer} {ts : Word64} {inserted : Ccache × Word64}
    (hfits : g.offset req.addr + req.length ≤ g.linesize)
    (hinsert : cache.finishInsert g i (g.index req.addr) (g.tag req.addr)
      (System.arrivedLine g { req with write := true } arrived) .uniqueDirty ts =
        some inserted) : StoredIn g inserted.1 i req := by
  unfold finishInsert at hinsert
  dsimp only at hinsert
  split at hinsert
  case isFalse => cases hinsert
  case isTrue hsuccess =>
    rw [releasets_success_iff.mp hsuccess] at hinsert
    simp only [releasets_self, Option.some.injEq] at hinsert
    subst hinsert
    constructor
    case state =>
      dsimp only [word]
      rw [mWays_setWay_self]
      dsimp only
      rw [Function.update_self]
      exact lineState_incts _ _
    case tag =>
      dsimp only
      rw [mWays_setWay_self]
      exact Function.update_self _ _ _
    case bytes =>
      intro k hk henabled
      dsimp only
      rw [mWays_setWay_self]
      dsimp only
      rw [Function.update_self, memcpy_of_lt (by omega), System.arrivedLine, if_pos rfl]
      dsimp only
      rw [Nat.add_sub_cancel_left]
      exact if_pos ⟨by omega, by omega, henabled⟩

/-- The fetched line is inserted with the enabled bytes if the column is free. -/
theorem coldWrite_spec (hfits : g.offset req.addr + req.length ≤ g.linesize)
    (hcold : cache.coldWrite g req waits = some outcome) :
    ((waits.fetched cache).ColumnFree g (g.index req.addr) ∧
        ∃ i, outcome.stored = some i ∧ StoredIn g outcome.cache i req) ∨
      (¬(waits.fetched cache).ColumnFree g (g.index req.addr) ∧ outcome.stored = none ∧
        outcome.cache.mWays = outcome.left.mWays) := by
  unfold coldWrite at hcold
  dsimp only at hcold
  by_cases hfree : (waits.fetched cache).ColumnFree g (g.index req.addr)
  · left
    refine ⟨hfree, ?_⟩
    rw [beginInsert_of_free hfree] at hcold
    dsimp only at hcold
    obtain ⟨inserted, hinserted, rfl⟩ := Option.map_eq_some_iff.mp hcold
    refine ⟨_, rfl, ?_⟩
    exact finishInsert_stored hfits hinserted
  · right
    rw [beginInsert_of_not_free hfree] at hcold
    cases hcold
    exact ⟨hfree, rfl, rfl⟩

/-! ## Every call -/

/-- A call of `write` that returns says truly whether the bytes were stored exactly if
the line is not fetched, or the variable that is returned happens to be right. -/
theorem write_faithful_iff (hfits : g.offset req.addr + req.length ≤ g.linesize)
    (hwrite : cache.write g req waits = some outcome) :
    Faithful g req outcome ↔ cache.Returns g req waits := by
  unfold write at hwrite
  unfold Returns
  dsimp only at hwrite ⊢
  split at hwrite
  case isTrue => cases hwrite
  case isFalse =>
    cases hlookup : cache.lookup g (g.index req.addr) (g.tag req.addr) with
    | some i =>
        rw [hlookup] at hwrite
        dsimp only at hwrite ⊢
        have htag : (cache.mWays i).mTags (g.index req.addr) = g.tag req.addr :=
          (Way.lookup_ne_invalid.mp (lookup_eq_some hlookup).2).2
        cases hstate : lineState (cache.word i (g.index req.addr)) with
        | uniqueDirty =>
            rw [hstate] at hwrite
            rw [warm_faithful (.inr hstate) hwrite]
            exact iff_of_true (fun _ => htag) nofun
        | uniqueClean =>
            rw [hstate] at hwrite
            rw [warm_faithful (.inl rfl) hwrite]
            exact iff_of_true (fun _ => htag) nofun
        | sharedClean =>
            rw [hstate] at hwrite
            rw [warm_faithful (.inl rfl) hwrite]
            exact ⟨fun hright _ => hright, fun hright => hright rfl⟩
        | invalid => simp [hstate] at hwrite
        | sharedDirty => simp [hstate] at hwrite
    | none =>
        rw [hlookup] at hwrite
        dsimp only at hwrite ⊢
        obtain ⟨cold, hcold, rfl⟩ := Option.map_eq_some_iff.mp hwrite
        rcases coldWrite_spec hfits hcold with ⟨hfree, i, hstored, hin⟩ |
          ⟨hlocked, hstored, hsame⟩
        · constructor
          · intro hfaithful
            exact iff_of_true (hfaithful.result_iff.mpr ⟨i, hstored, hin⟩) hfree
          · intro hright
            have hresult : waits.leftover = true := hright.mpr hfree
            constructor
            case result_iff => exact iff_of_true hresult ⟨i, hstored, hin⟩
            case unchanged =>
              intro hfalse
              dsimp only at hfalse
              rw [hresult] at hfalse
              cases hfalse
        · constructor
          · intro hfaithful
            refine iff_of_false (fun hresult => ?_) hlocked
            obtain ⟨i, hi, -⟩ := hfaithful.result_iff.mp hresult
            dsimp only at hi
            rw [hstored] at hi
            cases hi
          · intro hright
            have hresult : ¬waits.leftover = true := fun htrue => hlocked (hright.mp htrue)
            constructor
            case result_iff =>
              refine iff_of_false hresult ?_
              rintro ⟨i, hi, -⟩
              dsimp only at hi
              rw [hstored] at hi
              cases hi
            case unchanged => exact fun _ => ⟨hstored, hsame⟩

/-! ## The loop of b_transport -/

/-- A call leaves the enabled bytes of the caller's data. -/
theorem write_data (hwrite : cache.write g req waits = some outcome) {k : ℕ}
    (henabled : req.enabled k = true) : outcome.data k = req.data k := by
  have hwarm : ∀ (cache : Ccache) i oldts update, cache.warm g i req oldts update = some outcome →
      outcome.data k = req.data k := by
    intro cache i oldts update hwarm
    obtain ⟨written, -, rfl⟩ := Option.map_eq_some_iff.mp hwarm
    cases written <;> simp [fillDisabled, henabled]
  unfold write at hwrite
  dsimp only at hwrite
  split at hwrite
  case isTrue => cases hwrite
  case isFalse =>
    split at hwrite
    · split at hwrite
      · exact hwarm _ _ _ _ hwrite
      · exact hwarm _ _ _ _ hwrite
      · exact hwarm _ _ _ _ hwrite
      · cases hwrite
    · obtain ⟨cold, hcold, rfl⟩ := Option.map_eq_some_iff.mp hwrite
      unfold coldWrite at hcold
      dsimp only at hcold
      split at hcold
      · cases hcold
        rfl
      · obtain ⟨inserted, -, rfl⟩ := Option.map_eq_some_iff.mp hcold
        rfl

/-- Where the loop that calls `write` is: whether it has ended, how often the bytes were
stored, and in which way the last time. -/
structure Retry where
  cache : Ccache
  data : Buffer
  ended : Bool
  stores : ℕ
  way : Option ℕ

/-- The loop before its first call. -/
def Retry.begin (cache : Ccache) (req : Request) : Retry :=
  { cache := cache, data := req.data, ended := false, stores := 0, way := none }

/-- A round of the loop, which ends when `write` has returned true. -/
def Retry.round (g : Geometry) (req : Request) (retry : Retry) (waits : Waits) :
    Option Retry :=
  if retry.ended then none
  else
    (retry.cache.write g { req with data := retry.data } waits).map fun outcome =>
      { cache := outcome.cache
        data := outcome.data
        ended := outcome.result
        stores := retry.stores + if outcome.stored.isSome then 1 else 0
        way := outcome.stored }

/-- The loop has ended exactly if the bytes were stored, and then they were stored once. -/
structure Retry.Once (g : Geometry) (req : Request) (retry : Retry) : Prop where
  data : ∀ k, req.enabled k = true → retry.data k = req.data k
  ended : retry.ended = true →
    retry.stores = 1 ∧ ∃ i, retry.way = some i ∧ StoredIn g retry.cache i req
  trying : retry.ended = false → retry.stores = 0

theorem StoredIn.of_enabled {data : Buffer}
    (hsame : ∀ k, req.enabled k = true → data k = req.data k)
    (hstored : StoredIn g cache i { req with data := data }) : StoredIn g cache i req where
  state := hstored.state
  tag := hstored.tag
  bytes k hk henabled := (hstored.bytes k hk henabled).trans (hsame k henabled)

theorem Retry.Once.round {retry next : Retry}
    (hfits : g.offset req.addr + req.length ≤ g.linesize) (honce : retry.Once g req)
    (hreturns : retry.cache.Returns g req waits) (hround : retry.round g req waits = some next) :
    next.Once g req := by
  unfold Retry.round at hround
  split_ifs at hround with hended
  obtain ⟨outcome, hwrite, rfl⟩ := Option.map_eq_some_iff.mp hround
  have hzero : retry.stores = 0 := honce.trying (by simpa using hended)
  let current : Request := { req with data := retry.data }
  have hfits' : g.offset current.addr + current.length ≤ g.linesize := hfits
  have hfaithful := (write_faithful_iff hfits' hwrite).mpr hreturns
  constructor
  case data =>
    intro k henabled
    have hkept : outcome.data k = retry.data k := write_data hwrite henabled
    dsimp only
    rw [hkept, honce.data k henabled]
  case ended =>
    intro htrue
    obtain ⟨i, hi, hstored⟩ := hfaithful.result_iff.mp htrue
    refine ⟨by simp [hzero, hi], i, hi, hstored.of_enabled honce.data⟩
  case trying =>
    intro hfalse
    obtain ⟨hnone, -⟩ := hfaithful.unchanged hfalse
    simp [hzero, hnone]

/-- The calls of a loop whose results are right. -/
def Retry.Steady (g : Geometry) (req : Request) (retry : Retry) (waits : Waits) : Prop :=
  retry.cache.Returns g req waits

/-- A call of `write` says truly whether the bytes were stored exactly under the
condition, and where all calls of the loop meet it, the loop has ended exactly when the
bytes were stored, once. -/
theorem write_outcome {req : Request} (hfits : g.offset req.addr + req.length ≤ g.linesize) :
    (∀ cache waits outcome, Ccache.write g cache req waits = some outcome →
      (Faithful g req outcome ↔ cache.Returns g req waits)) ∧
    ∀ cache calls final,
      Guarded.Meets (Retry.round g req) (Retry.Steady g req) (Retry.begin cache req) calls →
      Guarded.exec (Retry.round g req) (Retry.begin cache req) calls = some final →
        (final.ended = true →
          final.stores = 1 ∧ ∃ i, final.way = some i ∧ StoredIn g final.cache i req) ∧
        (final.ended = false → final.stores = 0) := by
  refine ⟨fun cache waits outcome hwrite => write_faithful_iff hfits hwrite,
    fun cache calls final hguard hrun => ?_⟩
  have hstep : ∀ retry waits next, Retry.Once g req retry → Retry.Steady g req retry waits →
      Retry.round g req retry waits = some next → Retry.Once g req next :=
    fun retry waits next honce hsteady hround => honce.round hfits hsteady hround
  have hbegin : Retry.Once g req (Retry.begin cache req) :=
    { data := fun _ _ => rfl, ended := nofun, trying := fun _ => rfl }
  have honce := Guarded.exec_invariant hstep hbegin hguard hrun
  exact ⟨honce.ended, honce.trying⟩

/-! ### A miss in an empty cache -/

/-- One way of one line of eight bytes. -/
def oneLine : Geometry where
  boffsetb := 3
  indexb := 0
  ways := 1
  boffsetb_lt := by decide
  ways_pos := by decide

/-- A write of one byte. -/
def oneByte : Request where
  write := true
  addr := 2
  length := 1
  data := fun _ => 0x5A
  benable := none
  blength := 0
  linked := none

/-- The line is fetched and nothing else happens. -/
def quiet (leftover : Bool) : Waits where
  invalidated := id
  arrived := fun _ => 0
  fetched := id
  writtenBack := id
  leftover := leftover

theorem isSome_write_fresh (leftover : Bool) :
    (Ccache.write oneLine .fresh oneByte (quiet leftover)).isSome := by
  cases leftover <;> decide

theorem returns_fresh_iff (leftover : Bool) :
    Ccache.fresh.Returns oneLine oneByte (quiet leftover) ↔ leftover = true := by
  have hmiss : Ccache.fresh.lookup oneLine (oneLine.index oneByte.addr)
      (oneLine.tag oneByte.addr) = none := by decide
  have hfree : Ccache.fresh.ColumnFree oneLine (oneLine.index oneByte.addr) := by
    unfold ColumnFree
    decide
  unfold Returns
  dsimp only
  rw [hmiss]
  dsimp only [quiet, id]
  simp [hfree]

theorem write_outcome_fresh :
    ∃ outcome, Ccache.write oneLine .fresh oneByte (quiet true) = some outcome ∧
      Faithful oneLine oneByte outcome := by
  obtain ⟨outcome, hwrite⟩ := Option.isSome_iff_exists.mp (isSome_write_fresh true)
  have hfits : oneLine.offset oneByte.addr + oneByte.length ≤ oneLine.linesize := by decide
  exact ⟨outcome, hwrite,
    ((write_outcome hfits).1 _ _ _ hwrite).mpr ((returns_fresh_iff _).mpr rfl)⟩

/-- The bytes are stored, and `write` returns a variable that holds false. -/
theorem not_write_outcome :
    ¬∀ (g : Geometry) (req : Request) (cache : Ccache) (waits : Waits) (outcome : Outcome),
      g.offset req.addr + req.length ≤ g.linesize →
        Ccache.write g cache req waits = some outcome → Faithful g req outcome := by
  intro hclaim
  obtain ⟨outcome, hwrite⟩ := Option.isSome_iff_exists.mp (isSome_write_fresh false)
  have hfits : oneLine.offset oneByte.addr + oneByte.length ≤ oneLine.linesize := by decide
  have hfaithful := hclaim _ _ _ _ _ hfits hwrite
  have hreturns := (write_faithful_iff hfits hwrite).mp hfaithful
  exact Bool.false_ne_true ((returns_fresh_iff false).mp hreturns)

end Ccache

end Prazor.Caches
