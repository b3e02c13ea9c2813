import Prazor.Caches.StatusWord

/-!
# The arrays of a ccache

A cache is a number of ways.  Each way keeps, for every column, a status word,
a tag and the bytes of a line.  An address is split into tag, index and block
offset; the sizes are powers of two, as the masks of the source take them to
be.
-/

namespace Prazor.Caches

/-- `geometry_t`, by the numbers of bits it is computed from.  The line size is
a `u32_t`. -/
structure Geometry where
  boffsetb : ℕ
  indexb : ℕ
  ways : ℕ
  boffsetb_lt : boffsetb < 32
  ways_pos : 0 < ways

namespace Geometry

def linesize (g : Geometry) : ℕ := 2 ^ g.boffsetb
def boffsetm (g : Geometry) : ℕ := g.linesize - 1
def columns (g : Geometry) : ℕ := 2 ^ g.indexb
def indexm (g : Geometry) : ℕ := g.columns - 1

/-- `addr & boffsetm`. -/
def offset (g : Geometry) (addr : ℕ) : ℕ := addr &&& g.boffsetm

/-- `(addr >> boffsetb) & indexm`. -/
def index (g : Geometry) (addr : ℕ) : ℕ := (addr >>> g.boffsetb) &&& g.indexm

/-- `addr >> (boffsetb + indexb)`. -/
def tag (g : Geometry) (addr : ℕ) : ℕ := addr >>> (g.boffsetb + g.indexb)

/-- `addr & ~(linesize - 1)`.  The complement is a `u32_t`, which clears the
upper half of the address as well. -/
def lineAddr (g : Geometry) (addr : ℕ) : ℕ := addr % 2 ^ 32 / g.linesize * g.linesize

/-- The number of the line an address is in. -/
def line (g : Geometry) (addr : ℕ) : ℕ := addr / g.linesize

/-- `rebuild_address` of a line with this tag in this column. -/
def rebuildAddress (g : Geometry) (tag index : ℕ) : ℕ :=
  (tag <<< (g.indexb + g.boffsetb)) ||| (index <<< g.boffsetb)

theorem linesize_pos (g : Geometry) : 0 < g.linesize := Nat.two_pow_pos _

theorem columns_pos (g : Geometry) : 0 < g.columns := Nat.two_pow_pos _

theorem offset_eq (g : Geometry) (addr : ℕ) : g.offset addr = addr % g.linesize :=
  Nat.and_two_pow_sub_one_eq_mod addr g.boffsetb

theorem index_eq (g : Geometry) (addr : ℕ) :
    g.index addr = g.line addr % g.columns := by
  rw [index, Nat.shiftRight_eq_div_pow]
  exact Nat.and_two_pow_sub_one_eq_mod _ g.indexb

theorem tag_eq (g : Geometry) (addr : ℕ) : g.tag addr = g.line addr / g.columns := by
  rw [tag, Nat.shiftRight_eq_div_pow, pow_add, line, Nat.div_div_eq_div_mul]
  rfl

theorem offset_lt (g : Geometry) (addr : ℕ) : g.offset addr < g.linesize := by
  rw [offset_eq]
  exact Nat.mod_lt _ g.linesize_pos

theorem index_lt (g : Geometry) (addr : ℕ) : g.index addr < g.columns := by
  rw [index_eq]
  exact Nat.mod_lt _ g.columns_pos

/-- Tag and index together name the line. -/
theorem tag_mul_columns_add_index (g : Geometry) (addr : ℕ) :
    g.tag addr * g.columns + g.index addr = g.line addr := by
  rw [tag_eq, index_eq]
  exact Nat.div_add_mod' _ _

theorem line_eq_iff (g : Geometry) (x y : ℕ) :
    g.line x = g.line y ↔ g.index x = g.index y ∧ g.tag x = g.tag y := by
  constructor
  · intro heq
    rw [index_eq, index_eq, tag_eq, tag_eq, heq]
    exact ⟨rfl, rfl⟩
  · rintro ⟨hindex, htag⟩
    rw [← tag_mul_columns_add_index, ← tag_mul_columns_add_index g y, hindex, htag]

end Geometry

/-- A `WriteBack` of one line, as the secondary storage receives it. -/
structure WriteBack where
  addr : ℕ
  data : Buffer

/-- The bytes of the secondary storage. -/
abbrev Memory := ℕ → Byte

/-- The storage after a write of one line's length. -/
def WriteBack.apply (g : Geometry) (memory : Memory) (write : WriteBack) : Memory :=
  fun x =>
    if write.addr ≤ x ∧ x < write.addr + g.linesize then write.data (x - write.addr)
    else memory x

/-- One way: status words, tags and line data by column. -/
structure Way where
  mStatus : ℕ → Word64
  mTags : ℕ → ℕ
  mData : ℕ → Buffer

/-- A way as constructed. -/
def Way.fresh : Way :=
  { mStatus := fun _ => 0, mTags := fun _ => 0, mData := fun _ _ => 0 }

/-- `way::lookup`: the state of the line when it is there, else `Invalid`. -/
def Way.lookup (way : Way) (index tag : ℕ) : LineState :=
  let clinestate := lineState (way.mStatus index)
  if clinestate ≠ .invalid ∧ way.mTags index = tag then clinestate else .invalid

structure Ccache where
  mWays : ℕ → Way
  lru : ℕ

def Ccache.fresh : Ccache := { mWays := fun _ => .fresh, lru := 0 }

/-- `ccache::lookup`: the first way with a hit. -/
def Ccache.lookup (g : Geometry) (cache : Ccache) (index tag : ℕ) : Option ℕ :=
  (List.range g.ways).find? fun i => (cache.mWays i).lookup index tag ≠ .invalid

/-- The state `ccache::lookup` returns. -/
def Ccache.clstate (g : Geometry) (cache : Ccache) (index tag : ℕ) : LineState :=
  match cache.lookup g index tag with
  | some i => (cache.mWays i).lookup index tag
  | none => .invalid

/-- One way of a cache is replaced. -/
def Ccache.setWay (cache : Ccache) (i : ℕ) (way : Way) : Ccache :=
  { cache with mWays := Function.update cache.mWays i way }

/-- One status word of a cache is replaced. -/
def Ccache.setStatus (cache : Ccache) (i index : ℕ) (status : Word64) : Ccache :=
  cache.setWay i { cache.mWays i with
    mStatus := Function.update (cache.mWays i).mStatus index status }

/-- `ccache::invalidate()`. -/
def Ccache.invalidate (cache : Ccache) : Ccache :=
  { cache with mWays := fun i => { cache.mWays i with mStatus := fun _ => 0 } }

/-- `lruw()`: the way the next insertion goes to. -/
def Ccache.lruw (g : Geometry) (cache : Ccache) : Ccache :=
  { cache with lru := if cache.lru = g.ways - 1 then 0 else cache.lru + 1 }

/-- The beginning of `ccache::insert`: the next way is chosen and its column
locked.  The result has the way and its locked word, `none` when the column
is locked already. -/
def Ccache.beginInsert (g : Geometry) (cache : Ccache) (index : ℕ) :
    Ccache × Option (ℕ × Word64) :=
  let cache := cache.lruw g
  let exchange :=
    acquirets ((cache.mWays cache.lru).mStatus index) ((cache.mWays cache.lru).mStatus index)
  if exchange.success then
    (cache.setStatus cache.lru index exchange.status, some (cache.lru, exchange.oldts))
  else (cache, none)

/-- The line `way::insert` writes back first: a dirty one with another tag. -/
def Ccache.victim (g : Geometry) (cache : Ccache) (i index tag : ℕ)
    (olds : LineState) : Option WriteBack :=
  let way := cache.mWays i
  if olds = .uniqueDirty ∧ way.mTags index ≠ tag then
    some { addr := g.rebuildAddress (way.mTags index) index, data := way.mData index }
  else none

/-- The end of `ccache::insert`: tag and data are written and the column is
released; `none` when the release fails. -/
def Ccache.finishInsert (g : Geometry) (cache : Ccache) (i index tag : ℕ)
    (cline : Buffer) (news : LineState) (ts : Word64) : Option (Ccache × Word64) :=
  let way := cache.mWays i
  let newts := incts ts news
  let exchange := releasets (way.mStatus index) ts newts
  if exchange.success then
    some (cache.setWay i
      { mStatus := Function.update way.mStatus index exchange.status
        mTags := Function.update way.mTags index tag
        mData := Function.update way.mData index
          (Bytes.memcpy g.linesize cline (way.mData index)) }, newts)
  else none

/-- The lock of a line is taken and released with the same state, as a read
does after it has copied the bytes; `none` when the release fails, and
`some none` when the word has changed. -/
def Ccache.touch (cache : Ccache) (i index : ℕ) (oldts : Word64) :
    Option (Option Ccache) :=
  let exchange := acquirets ((cache.mWays i).mStatus index) oldts
  if exchange.success then
    let release := releasets exchange.status exchange.oldts (inctsSame exchange.oldts)
    if release.success then some (some (cache.setStatus i index release.status))
    else none
  else some none

/-- A cached read that misses, in a cache that is not snooped and has no dirty
victim: the line that was fetched is inserted as `UniqueClean`. -/
def Ccache.readMiss (g : Geometry) (cache : Ccache) (addr : ℕ) (cline : Buffer) :
    Option Ccache :=
  match cache.lookup g (g.index addr) (g.tag addr) with
  | some _ => none
  | none =>
      match cache.beginInsert g (g.index addr) with
      | (cache, some (i, ts)) =>
          if (cache.victim g i (g.index addr) (g.tag addr) (lineState ts)).isSome then none
          else (cache.finishInsert g i (g.index addr) (g.tag addr) cline .uniqueClean ts).bind
            fun inserted => (inserted.1.touch i (g.index addr) inserted.2).join
      | (_, none) => none

/-! ## Lookups -/

theorem Way.lookup_ne_invalid {way : Way} {index tag : ℕ} :
    way.lookup index tag ≠ .invalid ↔
      lineState (way.mStatus index) ≠ .invalid ∧ way.mTags index = tag := by
  unfold Way.lookup
  dsimp only
  split
  case isTrue hhit => exact ⟨fun _ => hhit, fun _ => hhit.1⟩
  case isFalse hmiss => exact ⟨fun h => absurd rfl h, fun h => absurd h hmiss⟩

theorem Way.lookup_of_ne_invalid {way : Way} {index tag : ℕ}
    (hhit : way.lookup index tag ≠ .invalid) :
    way.lookup index tag = lineState (way.mStatus index) :=
  if_pos (Way.lookup_ne_invalid.mp hhit)

theorem Ccache.lookup_eq_some {g : Geometry} {cache : Ccache} {index tag i : ℕ}
    (hhit : cache.lookup g index tag = some i) :
    i < g.ways ∧ (cache.mWays i).lookup index tag ≠ .invalid := by
  have hmem := List.mem_of_find?_eq_some hhit
  have hfound := List.find?_some hhit
  exact ⟨List.mem_range.mp hmem, by simpa using hfound⟩

theorem Ccache.lookup_eq_none {g : Geometry} {cache : Ccache} {index tag : ℕ} :
    cache.lookup g index tag = none ↔
      ∀ i, i < g.ways → (cache.mWays i).lookup index tag = .invalid := by
  simp [Ccache.lookup, List.find?_eq_none]

/-- A lookup only sees what each way answers. -/
theorem Ccache.lookup_congr {g : Geometry} {cache cache' : Ccache} {index tag : ℕ}
    (heq : ∀ i, i < g.ways → (cache.mWays i).lookup index tag =
      (cache'.mWays i).lookup index tag) :
    cache.lookup g index tag = cache'.lookup g index tag := by
  unfold Ccache.lookup
  apply List.find?_congr
  intro i hi
  rw [heq i (List.mem_range.mp hi)]

theorem Ccache.mWays_setWay_self (cache : Ccache) (i : ℕ) (way : Way) :
    (cache.setWay i way).mWays i = way := Function.update_self _ _ _

theorem Ccache.mWays_setWay_of_ne (cache : Ccache) {i j : ℕ} (hne : j ≠ i)
    (way : Way) : (cache.setWay i way).mWays j = cache.mWays j :=
  Function.update_of_ne hne _ _

end Prazor.Caches
