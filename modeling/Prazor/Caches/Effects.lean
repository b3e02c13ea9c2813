import Prazor.Caches.Operations

/-!
# What the operations of a cache do to its lines

A line is named by its number; a way that holds it does so in the column given
by the number.  Every operation on the arrays of a cache has one of three
effects: it lowers lines (to shared or to invalid), it makes one line dirty, or
it inserts one line.  In each the rank of every status word it touches grows,
as long as no version field is about to wrap around.
-/

namespace Prazor.Caches

/-- Version and lock together: a word that has changed has a larger rank. -/
def rank (ts : Word64) : ℕ := 2 * version ts + (locked ts).toNat

theorem rank_or_one {ts : Word64} (hlocked : locked ts = false) :
    rank (ts ||| 1) = rank ts + 1 := by
  rw [rank, rank, version_or_one hlocked, locked_or_one, hlocked]
  rfl

/-- A word that was seen is the unlocked one that is compared against later, or
ranks above it. -/
theorem eq_and_not_one_or_rank_lt (ts : Word64) :
    ts = ts &&& ~~~1 ∨ rank (ts &&& ~~~1) < rank ts := by
  cases hlocked : locked ts with
  | false => exact .inl (and_not_one hlocked).symm
  | true =>
      refine .inr ?_
      simp only [rank, version_and_not_one, locked_and_not_one, hlocked, Bool.toNat_false,
        Bool.toNat_true]
      omega

theorem rank_lt_incts {ts : Word64} (hroom : version ts + 1 < 2 ^ 60) (s : LineState) :
    rank ts < rank (incts ts s) := by
  have hlock := Bool.toNat_le (locked ts)
  simp only [rank, version_incts hroom, locked_incts, Bool.toNat_false]
  omega

theorem rank_lt_inctsSame {ts : Word64} (hroom : version ts + 1 < 2 ^ 60) :
    rank ts < rank (inctsSame ts) := by
  have hlock := Bool.toNat_le (locked ts)
  simp only [rank, version_inctsSame hroom, locked_inctsSame, Bool.toNat_false]
  omega

namespace Ccache

/-- The status word of a column. -/
def word (cache : Ccache) (i k : ℕ) : Word64 := (cache.mWays i).mStatus k

/-- The state in which a way holds a line. -/
def stateOf (g : Geometry) (cache : Ccache) (i line : ℕ) : LineState :=
  (cache.mWays i).lookup (line % g.columns) (line / g.columns)

/-- The bytes in the column of a line. -/
def bytesOf (g : Geometry) (cache : Ccache) (i line : ℕ) : Buffer :=
  (cache.mWays i).mData (line % g.columns)

/-- No way of the cache holds the line. -/
def Absent (g : Geometry) (cache : Ccache) (line : ℕ) : Prop :=
  ∀ i, i < g.ways → cache.stateOf g i line = .invalid

variable {g : Geometry} {cache cache' : Ccache}

theorem stateOf_line (g : Geometry) (cache : Ccache) (i addr : ℕ) :
    cache.stateOf g i (g.line addr) =
      (cache.mWays i).lookup (g.index addr) (g.tag addr) := by
  rw [stateOf, g.index_eq, g.tag_eq]

theorem word_index (cache : Ccache) (g : Geometry) (i addr : ℕ) :
    cache.word i (g.line addr % g.columns) = (cache.mWays i).mStatus (g.index addr) := by
  rw [word, g.index_eq]

theorem bytesOf_line (cache : Ccache) (g : Geometry) (i addr : ℕ) :
    cache.bytesOf g i (g.line addr) = (cache.mWays i).mData (g.index addr) := by
  rw [bytesOf, g.index_eq]

theorem stateOf_ne_invalid {i line : ℕ} :
    cache.stateOf g i line ≠ .invalid ↔
      lineState (cache.word i (line % g.columns)) ≠ .invalid ∧
        (cache.mWays i).mTags (line % g.columns) = line / g.columns :=
  Way.lookup_ne_invalid

theorem stateOf_eq_lineState {i line : ℕ} (hvalid : cache.stateOf g i line ≠ .invalid) :
    cache.stateOf g i line = lineState (cache.word i (line % g.columns)) :=
  Way.lookup_of_ne_invalid hvalid

theorem lookup_eq_none_iff {addr : ℕ} :
    cache.lookup g (g.index addr) (g.tag addr) = none ↔ cache.Absent g (g.line addr) := by
  rw [Ccache.lookup_eq_none]
  simp only [Absent, stateOf_line]

theorem stateOf_of_lookup {addr i : ℕ}
    (hhit : cache.lookup g (g.index addr) (g.tag addr) = some i) :
    i < g.ways ∧ cache.stateOf g i (g.line addr) ≠ .invalid ∧
      cache.stateOf g i (g.line addr) = lineState (cache.word i (g.line addr % g.columns)) := by
  obtain ⟨hi, hvalid⟩ := Ccache.lookup_eq_some hhit
  rw [← stateOf_line] at hvalid
  exact ⟨hi, hvalid, stateOf_eq_lineState hvalid⟩

/-! ## Replacing one status word -/

theorem word_setStatus (cache : Ccache) (i k : ℕ) (status : Word64) (j k' : ℕ) :
    (cache.setStatus i k status).word j k' =
      if j = i ∧ k' = k then status else cache.word j k' := by
  by_cases hj : j = i
  · subst hj
    by_cases hk : k' = k
    · subst hk
      simp [word, setStatus, mWays_setWay_self]
    · simp [word, setStatus, mWays_setWay_self, hk]
  · simp [word, setStatus, mWays_setWay_of_ne cache hj, hj]

theorem setStatus_setStatus (cache : Ccache) (i k : ℕ) (status status' : Word64) :
    (cache.setStatus i k status).setStatus i k status' = cache.setStatus i k status' := by
  simp [setStatus, setWay]

theorem mTags_setStatus (cache : Ccache) (i k : ℕ) (status : Word64) (j : ℕ) :
    ((cache.setStatus i k status).mWays j).mTags = (cache.mWays j).mTags := by
  by_cases hj : j = i
  · subst hj
    rw [setStatus, mWays_setWay_self]
  · rw [setStatus, mWays_setWay_of_ne cache hj]

theorem mData_setStatus (cache : Ccache) (i k : ℕ) (status : Word64) (j : ℕ) :
    ((cache.setStatus i k status).mWays j).mData = (cache.mWays j).mData := by
  by_cases hj : j = i
  · subst hj
    rw [setStatus, mWays_setWay_self]
  · rw [setStatus, mWays_setWay_of_ne cache hj]

/-- What a way holds is decided by the word and the tag of the line's column. -/
theorem stateOf_congr {i line : ℕ}
    (hword : lineState (cache'.word i (line % g.columns)) =
      lineState (cache.word i (line % g.columns)))
    (htag : (cache'.mWays i).mTags (line % g.columns) =
      (cache.mWays i).mTags (line % g.columns)) :
    cache'.stateOf g i line = cache.stateOf g i line := by
  simp only [word] at hword
  simp only [stateOf, Way.lookup, hword, htag]

theorem stateOf_setStatus_of_ne {i k j line : ℕ} (status : Word64)
    (hne : ¬(j = i ∧ line % g.columns = k)) :
    (cache.setStatus i k status).stateOf g j line = cache.stateOf g j line :=
  stateOf_congr (by rw [word_setStatus, if_neg hne]) (by rw [mTags_setStatus])

/-- At the column itself the new word decides, for the line the tag names. -/
theorem stateOf_setStatus_self {i line : ℕ} (status : Word64) :
    (cache.setStatus i (line % g.columns) status).stateOf g i line =
      if (cache.mWays i).mTags (line % g.columns) = line / g.columns then
        lineState status
      else .invalid := by
  have hword : lineState ((cache.setStatus i (line % g.columns) status).word i
      (line % g.columns)) = lineState status := by
    rw [word_setStatus, if_pos ⟨rfl, rfl⟩]
  simp only [word] at hword
  simp only [stateOf, Way.lookup, hword, mTags_setStatus]
  by_cases htag : (cache.mWays i).mTags (line % g.columns) = line / g.columns
  · by_cases hinvalid : lineState status = .invalid <;> simp [htag, hinvalid]
  · simp [htag]

/-! ## Effects -/

/-- Lines are kept, shared or given up; the arrays of data stay. -/
structure Lowers (g : Geometry) (cache cache' : Ccache) : Prop where
  state : ∀ i line, cache'.stateOf g i line = cache.stateOf g i line ∨
    cache'.stateOf g i line = .invalid ∨
    (cache.stateOf g i line ≠ .invalid ∧ cache'.stateOf g i line = .sharedClean)
  word : ∀ i k, cache'.word i k = cache.word i k ∨
    rank (cache.word i k) < rank (cache'.word i k)
  same : ∀ i line, cache'.word i (line % g.columns) = cache.word i (line % g.columns) →
    cache'.stateOf g i line = cache.stateOf g i line
  room : ∀ i k, version (cache'.word i k) ≤ version (cache.word i k) + 1
  data : ∀ i, (cache'.mWays i).mData = (cache.mWays i).mData

/-- One line, held by way `i`, becomes dirty and gets new bytes. -/
structure Dirties (g : Geometry) (cache cache' : Ccache) (i line : ℕ) (bytes : Buffer) :
    Prop where
  held : i < g.ways ∧ cache.stateOf g i line ≠ .invalid
  state : ∀ j line', cache'.stateOf g j line' =
    if j = i ∧ line' = line then .uniqueDirty else cache.stateOf g j line'
  word_self : rank (cache.word i (line % g.columns)) <
    rank (cache'.word i (line % g.columns))
  word_other : ∀ j k, ¬(j = i ∧ k = line % g.columns) → cache'.word j k = cache.word j k
  room : ∀ j k, version (cache'.word j k) ≤ version (cache.word j k) + 1
  data_self : cache'.bytesOf g i line = bytes
  data_other : ∀ j k, ¬(j = i ∧ k = line % g.columns) →
    (cache'.mWays j).mData k = (cache.mWays j).mData k

/-- One line is put into way `i`, in the place of what was in its column. -/
structure Inserts (g : Geometry) (cache cache' : Ccache) (i line : ℕ) (news : LineState)
    (bytes : Buffer) : Prop where
  way : i < g.ways
  state_self : cache'.stateOf g i line = news
  state_column : ∀ line', line' % g.columns = line % g.columns → line' ≠ line →
    cache'.stateOf g i line' = .invalid
  state_other : ∀ j line', ¬(j = i ∧ line' % g.columns = line % g.columns) →
    cache'.stateOf g j line' = cache.stateOf g j line'
  word_self : rank (cache.word i (line % g.columns)) <
    rank (cache'.word i (line % g.columns))
  word_other : ∀ j k, ¬(j = i ∧ k = line % g.columns) → cache'.word j k = cache.word j k
  room : ∀ j k, version (cache'.word j k) ≤ version (cache.word j k) + 1
  data_self : ∀ k, k < g.linesize → cache'.bytesOf g i line k = bytes k
  data_other : ∀ j k, ¬(j = i ∧ k = line % g.columns) →
    (cache'.mWays j).mData k = (cache.mWays j).mData k

theorem Lowers.refl (g : Geometry) (cache : Ccache) : Lowers g cache cache where
  state := fun _ _ => .inl rfl
  word := fun _ _ => .inl rfl
  same := fun _ _ _ => rfl
  room := fun _ _ => Nat.le_succ _
  data := fun _ => rfl

/-- A word that only gets the lock or a new version lowers its line when its
new state does. -/
theorem lowers_setStatus {i k : ℕ} {status : Word64}
    (hstate : lineState status = lineState (cache.word i k) ∨
      lineState status = .invalid ∨
      (lineState (cache.word i k) ≠ .invalid ∧ lineState status = .sharedClean))
    (hrank : rank (cache.word i k) < rank status)
    (hroom : version status ≤ version (cache.word i k) + 1) :
    Lowers g cache (cache.setStatus i k status) where
  state := by
    intro j line
    by_cases hslot : j = i ∧ line % g.columns = k
    · obtain ⟨rfl, rfl⟩ := hslot
      rw [stateOf_setStatus_self]
      split
      case isFalse => exact .inr (.inl rfl)
      case isTrue htag =>
        by_cases hvalid : cache.stateOf g j line = .invalid
        · have hold : lineState (cache.word j (line % g.columns)) = .invalid := by
            by_contra hne
            exact stateOf_ne_invalid.mpr ⟨hne, htag⟩ hvalid
          rcases hstate with hsame | hinvalid | ⟨hne, -⟩
          · exact .inl (by rw [hsame, hold, hvalid])
          · exact .inr (.inl hinvalid)
          · exact absurd hold hne
        · rw [stateOf_eq_lineState hvalid]
          rw [stateOf_eq_lineState hvalid] at hvalid
          exact hstate.imp_right fun h => h.imp_right fun h' => ⟨hvalid, h'.2⟩
    · exact .inl (stateOf_setStatus_of_ne status hslot)
  word := by
    intro j k'
    rw [word_setStatus]
    split
    case isTrue hslot =>
      obtain ⟨rfl, rfl⟩ := hslot
      exact .inr hrank
    case isFalse => exact .inl rfl
  same := by
    intro j line hsame
    refine stateOf_setStatus_of_ne status ?_
    rintro ⟨rfl, rfl⟩
    rw [word_setStatus, if_pos ⟨rfl, rfl⟩] at hsame
    rw [hsame] at hrank
    exact lt_irrefl _ hrank
  room := by
    intro j k'
    rw [word_setStatus]
    split
    case isTrue hslot =>
      obtain ⟨rfl, rfl⟩ := hslot
      exact hroom
    case isFalse => exact Nat.le_succ _
  data := fun j => mData_setStatus cache i k status j

end Ccache

end Prazor.Caches
