import Prazor.Caches.Effects

/-!
# Cache maintenance from CP15

`arm_ccache::b_cp15_access` serves the maintenance messages of the processor:
enabling a cache, cleaning and invalidating one line by address or by set and
way, and invalidating a whole instruction cache.  Maintenance by address hands
the raw operand to `way::clean`, whatever the state of the line.
-/

namespace Prazor.Caches

/-- `arm_ccache::type`. -/
inductive CacheType where
  | instruction
  | data
  | unified
  deriving DecidableEq

def CacheType.code : CacheType → ℕ
  | instruction => 0
  | data => 1
  | unified => 2

/-- `cp15_cache_control_extension::upto`. -/
inductive Upto where
  | none
  | poC
  | poU
  deriving DecidableEq

/-- `cp15_cache_control_extension`, the fields a cache looks at.  `op` and
`types` are bit masks. -/
structure CacheControl where
  types : ℕ
  op : ℕ
  data : BitVec 32
  stop : Upto
  address : Bool
  snooped : Bool

namespace CacheControl

/-! Bits of `op`. -/

def opInvalid : ℕ := 0
def opClean : ℕ := 1
def opEnable : ℕ := 2

end CacheControl

/-- A cache with its place in the hierarchy.  `set_PoU(false)` makes the socket
to the next level, so a cache that is not the point of unification has one. -/
structure ArmCcache where
  cache : Ccache
  mActive : Bool
  mTy : CacheType
  mLevel : ℕ
  mPoU : Bool
  cp15InitiatorSocket : Bool
  socket_of_not_PoU : mPoU = false → cp15InitiatorSocket = true

/-- What a maintenance message does: the cache after it, the writes it sends to
the secondary storage and how often it passes the message on. -/
structure Maintained where
  cache : ArmCcache
  writes : List WriteBack
  forwards : ℕ

/-- `way::clean`; `none` when its assertion fails. -/
def Way.clean (way : Way) (addr index tag : ℕ) : Option WriteBack :=
  if way.mTags index = tag then some { addr := addr, data := way.mData index }
  else none

/-- A line is locked, written back by `clean` when `cleaned`, and released as
invalid or shared; `none` when an assertion fails. -/
def Ccache.maintainLine (cache : Ccache) (i index : ℕ) (op : ℕ)
    (clean : Option (ℕ × ℕ)) : Option (Ccache × List WriteBack) :=
  let way := cache.mWays i
  let exchange := acquirets (way.mStatus index) (way.mStatus index)
  if exchange.success then
    let newts :=
      if op.testBit CacheControl.opInvalid then incts exchange.oldts .invalid
      else incts exchange.oldts .sharedClean
    let release := releasets exchange.status exchange.oldts newts
    if release.success then
      match clean with
      | none => some (cache.setStatus i index release.status, [])
      | some (addr, tag) =>
          (way.clean addr index tag).map fun write =>
            (cache.setStatus i index release.status, [write])
    else none
  else none

/-- Maintenance by address: a hit is cleaned at the operand. -/
def Ccache.maintainAddress (g : Geometry) (cache : Ccache) (op : ℕ) (addr : ℕ) :
    Option (Ccache × List WriteBack) :=
  match cache.lookup g (g.index addr) (g.tag addr) with
  | none => some (cache, [])
  | some i => cache.maintainLine i (g.index addr) op (some (addr, g.tag addr))

/-- `bound_log2`: how often a number can be halved before it is one. -/
def boundLog2 (d : ℕ) : ℕ := Nat.log2 d

/-- Maintenance by set and way.  A shift by 32 and a way that does not exist
are undefined, as an assertion that fails. -/
def Ccache.maintainSetWay (g : Geometry) (cache : Ccache) (op : ℕ)
    (data : BitVec 32) : Option (Ccache × List WriteBack) :=
  let a := boundLog2 g.ways
  let index := (data.toNat >>> boundLog2 g.linesize) &&&
    (2 ^ boundLog2 (g.indexm + 1) - 1)
  let w := data.toNat >>> (32 - a)
  if a = 0 ∨ g.ways ≤ w then none
  else
    let way := cache.mWays w
    if lineState (way.mStatus index) = .invalid then some (cache, [])
    else
      cache.maintainLine w index op
        (if op.testBit CacheControl.opClean then
          some (g.rebuildAddress (way.mTags index) index, way.mTags index)
        else none)

namespace ArmCcache

/-- The message names the type of this cache. -/
def selected (c : ArmCcache) (ext : CacheControl) : Bool :=
  ext.types.testBit c.mTy.code

/-- Clean and invalidate, on a cache the message names. -/
def maintain (g : Geometry) (c : ArmCcache) (ext : CacheControl) : Option Maintained :=
  if ext.data ≠ -1 ∧ ext.address then
    (c.cache.maintainAddress g ext.op ext.data.toNat).map fun done =>
      { cache := { c with cache := done.1 }, writes := done.2, forwards := 0 }
  else if ext.data ≠ -1 ∧ !ext.address then
    let level := (ext.data.toNat >>> 1) &&& 0x7
    if c.mLevel = level + 1 then
      (c.cache.maintainSetWay g ext.op ext.data).map fun done =>
        { cache := { c with cache := done.1 }, writes := done.2, forwards := 0 }
    else if c.mLevel < level + 1 then
      if c.cp15InitiatorSocket then
        some { cache := c, writes := [], forwards := if ext.snooped then 0 else 1 }
      else none
    else none
  else if c.mTy = .instruction then
    some { cache := { c with cache := c.cache.invalidate }, writes := [], forwards := 0 }
  else none

/-- `arm_ccache::b_cp15_access`; `none` when an assertion fails. -/
def bCp15Access (g : Geometry) (c : ArmCcache) (ext : CacheControl) :
    Option Maintained :=
  if ext.op = 1 <<< CacheControl.opEnable then
    some {
      cache := if c.selected ext then { c with mActive := true } else c
      writes := []
      forwards := if c.cp15InitiatorSocket then 1 else 0 }
  else
    let maintained :=
      if c.selected ext ∧ (ext.op.testBit CacheControl.opClean ∨
          ext.op.testBit CacheControl.opInvalid) then
        c.maintain g ext
      else some { cache := c, writes := [], forwards := 0 }
    maintained.bind fun done =>
      if ext.stop ≠ .none ∧ !c.mPoU then
        if c.cp15InitiatorSocket then
          some { done with forwards := done.forwards + if ext.snooped then 0 else 1 }
        else none
      else some done

end ArmCcache

/-! ## The flat view -/

/-- The byte a coherent reader finds at an address: that of a dirty line, else
that of the storage. -/
def Ccache.view (g : Geometry) (cache : Ccache) (memory : Memory) (x : ℕ) : Byte :=
  match cache.lookup g (g.index x) (g.tag x) with
  | some i =>
      if (cache.mWays i).lookup (g.index x) (g.tag x) = .uniqueDirty then
        (cache.mWays i).mData (g.index x) (g.offset x)
      else memory x
  | none => memory x

/-- The write that cleaning the line of an address calls for: its bytes to its
own first address when it is dirty, nothing otherwise. -/
def Ccache.cleanWrites (g : Geometry) (cache : Ccache) (addr : ℕ) : List WriteBack :=
  match cache.lookup g (g.index addr) (g.tag addr) with
  | some i =>
      if (cache.mWays i).lookup (g.index addr) (g.tag addr) = .uniqueDirty then
        [{ addr := g.line addr * g.linesize, data := (cache.mWays i).mData (g.index addr) }]
      else []
  | none => []

/-- A maintenance message by address preserves memory: it completes, its only
write is that of the line when it is dirty, and no byte outside the line looks
different, whatever the storage holds. -/
def PreservesMemory (g : Geometry) (c : ArmCcache) (ext : CacheControl) : Prop :=
  ∃ done, c.bCp15Access g ext = some done ∧
    done.writes =
      (if c.selected ext then c.cache.cleanWrites g ext.data.toNat else []) ∧
    ∀ memory x, g.line x ≠ g.line ext.data.toNat →
      done.cache.cache.view g (done.writes.foldl (WriteBack.apply g) memory) x =
        c.cache.view g memory x

/-- The messages and cache contents on which the maintenance path works: the
message does not name the cache; or no line of an instruction cache is dirty
and the operand is the one that means all lines; or the address misses; or it
is the first address of an unlocked dirty line. -/
def MaintenanceWorks (g : Geometry) (c : ArmCcache) (ext : CacheControl) : Prop :=
  c.selected ext = false ∨
    (ext.data = -1 ∧ c.mTy = .instruction ∧
      ∀ x, c.cache.clstate g (g.index x) (g.tag x) ≠ .uniqueDirty) ∨
    (ext.data ≠ -1 ∧ ∀ i, c.cache.lookup g (g.index ext.data.toNat)
        (g.tag ext.data.toNat) = some i →
      lineState ((c.cache.mWays i).mStatus (g.index ext.data.toNat)) = .uniqueDirty ∧
        locked ((c.cache.mWays i).mStatus (g.index ext.data.toNat)) = false ∧
        g.offset ext.data.toNat = 0)

/-! ## One line -/

/-- The word a maintained line is released with. -/
def maintainedStatus (op : ℕ) (ts : Word64) : Word64 :=
  if op.testBit CacheControl.opInvalid then incts (ts ||| 1) .invalid
  else incts (ts ||| 1) .sharedClean

theorem maintainLine_of_unlocked {cache : Ccache} {i index op addr tag : ℕ}
    (hunlocked : locked ((cache.mWays i).mStatus index) = false)
    (htag : (cache.mWays i).mTags index = tag) :
    cache.maintainLine i index op (some (addr, tag)) =
      some (cache.setStatus i index
          (maintainedStatus op ((cache.mWays i).mStatus index)),
        [{ addr := addr, data := (cache.mWays i).mData index }]) := by
  have hacquire : acquirets ((cache.mWays i).mStatus index)
      ((cache.mWays i).mStatus index) =
        ⟨(cache.mWays i).mStatus index ||| 1, (cache.mWays i).mStatus index ||| 1, true⟩ := by
    have hself := acquirets_self ((cache.mWays i).mStatus index)
    rwa [and_not_one hunlocked] at hself
  simp only [Ccache.maintainLine, hacquire, if_true, releasets_self, Way.clean, htag,
    Option.map_some, maintainedStatus]

theorem maintainLine_of_locked {cache : Ccache} {i index op : ℕ}
    {clean : Option (ℕ × ℕ)} (hlocked : locked ((cache.mWays i).mStatus index) = true) :
    cache.maintainLine i index op clean = none := by
  have hne : (cache.mWays i).mStatus index ≠ (cache.mWays i).mStatus index &&& ~~~1 := by
    intro heq
    rw [heq, locked_and_not_one] at hlocked
    cases hlocked
  simp only [Ccache.maintainLine, acquirets_of_ne hne, Bool.false_eq_true, if_false]

/-- Replacing the status word of one line is not seen by lookups of another. -/
theorem lookup_setStatus_of_other {cache : Ccache} {i index index' tag : ℕ}
    (hother : index' ≠ index ∨ (cache.mWays i).mTags index ≠ tag) (status : Word64)
    (j : ℕ) :
    ((cache.setStatus i index status).mWays j).lookup index' tag =
      (cache.mWays j).lookup index' tag := by
  by_cases hway : j = i
  · subst hway
    rw [Ccache.setStatus, Ccache.mWays_setWay_self]
    by_cases hindex : index' = index
    · subst hindex
      have htag := hother.resolve_left (fun hne => hne rfl)
      simp [Way.lookup, htag]
    · simp [Way.lookup, hindex]
  · rw [Ccache.setStatus, Ccache.mWays_setWay_of_ne cache hway]

/-- The view of a byte depends on the ways' answers and data for its line, and
on the byte of the storage. -/
theorem view_congr {g : Geometry} {cache cache' : Ccache} {memory memory' : Memory}
    {x : ℕ}
    (hlookup : ∀ j, (cache.mWays j).lookup (g.index x) (g.tag x) =
      (cache'.mWays j).lookup (g.index x) (g.tag x))
    (hdata : ∀ j, (cache.mWays j).mData = (cache'.mWays j).mData)
    (hmemory : memory x = memory' x) :
    cache.view g memory x = cache'.view g memory' x := by
  unfold Ccache.view
  rw [Ccache.lookup_congr fun j _ => hlookup j]
  cases cache'.lookup g (g.index x) (g.tag x) with
  | none => exact hmemory
  | some j =>
      dsimp only
      rw [hlookup j, hdata j, hmemory]

/-- A write-back to the first address of a line stays inside the line. -/
theorem apply_of_line_ne {g : Geometry} {x addr : ℕ} (hline : g.line x ≠ g.line addr)
    (data : Buffer) (memory : Memory) :
    WriteBack.apply g memory { addr := g.line addr * g.linesize, data := data } x =
      memory x := by
  unfold WriteBack.apply
  refine if_neg ?_
  rintro ⟨hle, hlt⟩
  apply hline
  exact Nat.div_eq_of_lt_le hle (by rw [Nat.add_mul, one_mul]; exact hlt)

/-! ## The whole access -/

/-- A clean or invalidate message acts through `maintain`; passing it on
changes neither the cache nor the storage. -/
theorem bCp15Access_eq {g : Geometry} {c : ArmCcache} {ext : CacheControl}
    (hop : ext.op.testBit CacheControl.opClean = true ∨
      ext.op.testBit CacheControl.opInvalid = true) :
    ∃ pass : Maintained → ℕ, c.bCp15Access g ext =
      (if c.selected ext then c.maintain g ext
        else some { cache := c, writes := [], forwards := 0 }).map
          fun done => { done with forwards := pass done } := by
  have henable : ext.op ≠ 1 <<< CacheControl.opEnable := by
    intro heq
    rw [heq] at hop
    exact absurd hop (by decide)
  have hmaintained : ∀ o : Option Maintained,
      ∃ pass : Maintained → ℕ, (o.bind fun done =>
        if ext.stop ≠ .none ∧ !c.mPoU then
          if c.cp15InitiatorSocket then
            some { done with forwards := done.forwards + if ext.snooped then 0 else 1 }
          else none
        else some done) =
          o.map fun done => { done with forwards := pass done } := by
    intro o
    by_cases hforward : ext.stop ≠ .none ∧ (!c.mPoU) = true
    · have hsocket : c.cp15InitiatorSocket = true :=
        c.socket_of_not_PoU (by simpa using hforward.2)
      refine ⟨fun done => done.forwards + if ext.snooped then 0 else 1, ?_⟩
      cases o with
      | none => rfl
      | some done => simp only [Option.bind_some, if_pos hforward, hsocket, if_true,
          Option.map_some]
    · refine ⟨fun done => done.forwards, ?_⟩
      cases o with
      | none => rfl
      | some done => simp only [Option.bind_some, if_neg hforward, Option.map_some]
  obtain ⟨pass, hpass⟩ := hmaintained
    (if c.selected ext then c.maintain g ext
      else some { cache := c, writes := [], forwards := 0 })
  refine ⟨pass, ?_⟩
  rw [← hpass, ArmCcache.bCp15Access, if_neg henable]
  simp only [hop, and_true]

/-- Whether memory is preserved is decided by `maintain` alone. -/
theorem preservesMemory_iff {g : Geometry} {c : ArmCcache} {ext : CacheControl}
    (hop : ext.op.testBit CacheControl.opClean = true ∨
      ext.op.testBit CacheControl.opInvalid = true)
    (hselected : c.selected ext = true) :
    PreservesMemory g c ext ↔
      ∃ done, c.maintain g ext = some done ∧
        done.writes = c.cache.cleanWrites g ext.data.toNat ∧
        ∀ memory x, g.line x ≠ g.line ext.data.toNat →
          done.cache.cache.view g (done.writes.foldl (WriteBack.apply g) memory) x =
            c.cache.view g memory x := by
  obtain ⟨pass, haccess⟩ := bCp15Access_eq (g := g) (c := c) hop
  rw [hselected] at haccess
  unfold PreservesMemory
  rw [haccess, hselected]
  simp only [if_true, Option.map_eq_some_iff]
  constructor
  · rintro ⟨done, ⟨done', hdone, rfl⟩, hwrites, hview⟩
    exact ⟨done', hdone, hwrites, hview⟩
  · rintro ⟨done, hdone, hwrites, hview⟩
    exact ⟨_, ⟨done, hdone, rfl⟩, hwrites, hview⟩

theorem clstate_eq_of_lookup {g : Geometry} {cache : Ccache} {index tag i : ℕ}
    (hhit : cache.lookup g index tag = some i) :
    cache.clstate g index tag = (cache.mWays i).lookup index tag := by
  unfold Ccache.clstate
  rw [hhit]

theorem clstate_of_none {g : Geometry} {cache : Ccache} {index tag : ℕ}
    (hmiss : cache.lookup g index tag = none) :
    cache.clstate g index tag = .invalid := by
  unfold Ccache.clstate
  rw [hmiss]

theorem cleanWrites_eq_nil_iff {g : Geometry} {cache : Ccache} {addr : ℕ} :
    cache.cleanWrites g addr = [] ↔
      cache.clstate g (g.index addr) (g.tag addr) ≠ .uniqueDirty := by
  unfold Ccache.cleanWrites
  cases hlookup : cache.lookup g (g.index addr) (g.tag addr) with
  | none => simp [clstate_of_none hlookup]
  | some i => simp [clstate_eq_of_lookup hlookup]

theorem lookup_invalidate (cache : Ccache) (g : Geometry) (index tag : ℕ) :
    cache.invalidate.lookup g index tag = none := by
  rw [Ccache.lookup_eq_none]
  intro i _
  have hzero : lineState 0#64 = .invalid := by decide
  simp [Ccache.invalidate, Way.lookup, hzero]

/-- The operand that stands for all lines: an instruction cache forgets its
lines, which loses the dirty ones. -/
theorem preservesMemory_all_iff {g : Geometry} {c : ArmCcache} {ext : CacheControl}
    (hop : ext.op.testBit CacheControl.opClean = true ∨
      ext.op.testBit CacheControl.opInvalid = true)
    (hselected : c.selected ext = true) (hdata : ext.data = -1) :
    PreservesMemory g c ext ↔ c.mTy = .instruction ∧
      ∀ x, c.cache.clstate g (g.index x) (g.tag x) ≠ .uniqueDirty := by
  rw [preservesMemory_iff hop hselected]
  simp only [ArmCcache.maintain, hdata, ne_eq, not_true_eq_false, false_and, if_false]
  by_cases hty : c.mTy = .instruction
  · simp only [hty, if_true, Option.some.injEq, true_and]
    constructor
    · rintro ⟨done, rfl, hwrites, hview⟩ x hdirty
      have hline := cleanWrites_eq_nil_iff.mp hwrites.symm
      by_cases hx : g.line x = g.line (-1 : BitVec 32).toNat
      · obtain ⟨hindex, htag⟩ := (g.line_eq_iff _ _).mp hx
        rw [hindex, htag] at hdirty
        exact hline hdirty
      · -- a storage that holds another byte there tells the two views apart
        cases hlookup : c.cache.lookup g (g.index x) (g.tag x) with
        | none =>
            rw [clstate_of_none hlookup] at hdirty
            cases hdirty
        | some i =>
            rw [clstate_eq_of_lookup hlookup] at hdirty
            have hbyte := hview
              (fun _ => (c.cache.mWays i).mData (g.index x) (g.offset x) + 1) x hx
            simp only [Ccache.view, lookup_invalidate, hlookup, hdirty, if_true,
              List.foldl_nil] at hbyte
            simp at hbyte
    · intro hclean
      refine ⟨_, rfl, (cleanWrites_eq_nil_iff.mpr (hclean _)).symm, ?_⟩
      intro memory x _
      have hx := hclean x
      simp only [Ccache.view, lookup_invalidate, List.foldl_nil]
      cases hlookup : c.cache.lookup g (g.index x) (g.tag x) with
      | none => rfl
      | some i =>
          rw [clstate_eq_of_lookup hlookup] at hx
          simp only [hx, if_false]
  · simp [hty]

/-- Any other operand: a hit has to be the first address of an unlocked dirty
line. -/
theorem preservesMemory_line_iff {g : Geometry} {c : ArmCcache} {ext : CacheControl}
    (hop : ext.op.testBit CacheControl.opClean = true ∨
      ext.op.testBit CacheControl.opInvalid = true)
    (haddress : ext.address = true)
    (hselected : c.selected ext = true) (hdata : ext.data ≠ -1) :
    PreservesMemory g c ext ↔ ∀ i, c.cache.lookup g (g.index ext.data.toNat)
        (g.tag ext.data.toNat) = some i →
      lineState ((c.cache.mWays i).mStatus (g.index ext.data.toNat)) = .uniqueDirty ∧
        locked ((c.cache.mWays i).mStatus (g.index ext.data.toNat)) = false ∧
        g.offset ext.data.toNat = 0 := by
  rw [preservesMemory_iff hop hselected]
  simp only [ArmCcache.maintain, hdata, haddress, ne_eq, not_false_eq_true, and_self,
    if_true, Ccache.maintainAddress]
  generalize ext.data.toNat = addr
  cases hlookup : c.cache.lookup g (g.index addr) (g.tag addr) with
  | none =>
      simp only [reduceCtorEq, false_imp_iff, implies_true, iff_true, Option.map_some,
        Option.some.injEq]
      refine ⟨_, rfl, ?_, fun _ _ _ => rfl⟩
      rw [eq_comm, cleanWrites_eq_nil_iff, clstate_of_none hlookup]
      exact fun h => by cases h
  | some i =>
      obtain ⟨hi, hhit⟩ := Ccache.lookup_eq_some hlookup
      obtain ⟨-, htag⟩ := Way.lookup_ne_invalid.mp hhit
      have hstate := Way.lookup_of_ne_invalid hhit
      have hclean : c.cache.cleanWrites g addr =
          if lineState ((c.cache.mWays i).mStatus (g.index addr)) = .uniqueDirty then
            [{ addr := g.line addr * g.linesize
               data := (c.cache.mWays i).mData (g.index addr) }]
          else [] := by
        unfold Ccache.cleanWrites
        rw [hlookup]
        dsimp only
        rw [hstate]
      have hbase : g.line addr * g.linesize + g.offset addr = addr := by
        rw [g.offset_eq]
        exact Nat.div_add_mod' _ _
      simp only [Option.some.injEq, forall_eq']
      cases hlocked : locked ((c.cache.mWays i).mStatus (g.index addr)) with
      | true => simp [maintainLine_of_locked hlocked]
      | false =>
          simp only [maintainLine_of_unlocked hlocked htag, Option.map_some,
            Option.some.injEq, true_and, hclean]
          constructor
          · rintro ⟨done, rfl, hwrites, -⟩
            split at hwrites
            case isTrue hdirty =>
              have hstart : addr = g.line addr * g.linesize := by
                simpa using congrArg (List.map WriteBack.addr) hwrites
              exact ⟨hdirty, by omega⟩
            case isFalse => cases hwrites
          · rintro ⟨hdirty, hoffset⟩
            have hstart : addr = g.line addr * g.linesize := by omega
            refine ⟨_, rfl, ?_, ?_⟩
            · rw [if_pos hdirty, ← hstart]
            · intro memory x hx
              have hother : g.index x ≠ g.index addr ∨
                  (c.cache.mWays i).mTags (g.index addr) ≠ g.tag x := by
                by_contra hsame
                push Not at hsame
                exact hx ((g.line_eq_iff _ _).mpr ⟨hsame.1, by rw [← hsame.2, htag]⟩)
              apply view_congr
              · exact lookup_setStatus_of_other hother _
              · exact fun j => Ccache.mData_setStatus _ _ _ _ j
              · rw [List.foldl_cons, List.foldl_nil]
                conv_lhs => rw [hstart]
                exact apply_of_line_ne hx _ memory

/-- A clean or invalidate message by address preserves memory exactly on the
messages and cache contents the maintenance path works on. -/
theorem preservesMemory_iff_maintenanceWorks (g : Geometry) (c : ArmCcache)
    (ext : CacheControl)
    (hop : ext.op.testBit CacheControl.opClean = true ∨
      ext.op.testBit CacheControl.opInvalid = true)
    (haddress : ext.address = true) :
    PreservesMemory g c ext ↔ MaintenanceWorks g c ext := by
  unfold MaintenanceWorks
  cases hselected : c.selected ext with
  | false =>
      simp only [true_or, iff_true]
      obtain ⟨pass, haccess⟩ := bCp15Access_eq (g := g) (c := c) hop
      rw [hselected] at haccess
      exact ⟨_, haccess, by simp [hselected], fun _ _ _ => rfl⟩
  | true =>
      by_cases hdata : ext.data = -1
      · simp [preservesMemory_all_iff hop hselected hdata, hdata]
      · simp only [Bool.true_eq_false, hdata, false_and, false_or, ne_eq,
          not_false_eq_true, true_and]
        exact preservesMemory_line_iff hop haddress hselected hdata

/-- A data cache with two columns of 64-byte lines. -/
def smallGeometry : Geometry :=
  { boffsetb := 6, indexb := 1, ways := 1
    boffsetb_lt := by decide, ways_pos := Nat.one_pos }

/-- The small cache with this content. -/
def smallDataCache (cache : Ccache) : ArmCcache :=
  { cache := cache, mActive := true, mTy := .data, mLevel := 1, mPoU := true
    cp15InitiatorSocket := false, socket_of_not_PoU := fun h => by cases h }

/-- `DCCMVAC`: clean by address to the point of coherence. -/
def dccmvac (address : BitVec 32) : CacheControl :=
  { types := 0b110, op := 1 <<< CacheControl.opClean, data := address, stop := .poC
    address := true, snooped := false }

/-- The line at 0x40 is dirty. -/
def dirtyCache : Ccache :=
  Ccache.fresh.setWay 0
    { mStatus := Function.update (fun _ => 0) 1 (incts 0 .uniqueDirty)
      mTags := fun _ => 0
      mData := fun _ _ => 7 }

/-- A dirty line is cleaned at its own address. -/
theorem preservesMemory_dirty :
    dirtyCache.clstate smallGeometry (smallGeometry.index 0x40) (smallGeometry.tag 0x40) =
        .uniqueDirty ∧
      PreservesMemory smallGeometry (smallDataCache dirtyCache) (dccmvac 0x40) := by
  refine ⟨by decide, ?_⟩
  rw [preservesMemory_iff_maintenanceWorks _ _ _ (.inl rfl) rfl]
  refine .inr (.inr ⟨by decide, fun i hhit => ?_⟩)
  have hway : (smallDataCache dirtyCache).cache.lookup smallGeometry
      (smallGeometry.index (dccmvac 0x40).data.toNat)
      (smallGeometry.tag (dccmvac 0x40).data.toNat) = some 0 := by decide
  rw [hway] at hhit
  obtain rfl := Option.some.inj hhit
  decide

/-- After one cached read the line is clean, and cleaning at another address of
the line writes it to the storage, at that address. -/
theorem clean_writes_clean_line :
    ∃ cache, Ccache.fresh.readMiss smallGeometry 0x40 (fun _ => 7) = some cache ∧
      cache.clstate smallGeometry (smallGeometry.index 0x44) (smallGeometry.tag 0x44) =
        .uniqueClean ∧
      ((smallDataCache cache).bCp15Access smallGeometry (dccmvac 0x44)).map
        (fun done => done.writes.map WriteBack.addr) = some [0x44] ∧
      ¬PreservesMemory smallGeometry (smallDataCache cache) (dccmvac 0x44) := by
  refine ⟨_, rfl, by decide, by decide, ?_⟩
  rw [preservesMemory_iff_maintenanceWorks _ _ _ (.inl rfl) rfl]
  rintro (hselected | ⟨hdata, -⟩ | ⟨-, hhit⟩)
  · exact absurd hselected (by decide)
  · exact absurd hdata (by decide)
  · exact absurd (hhit 0 (by decide)).1 (by decide)

end Prazor.Caches
