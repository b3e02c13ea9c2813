import Prazor.Memory.Doubleword

/-!
# One bank of the secondary cache with its directory

`secondary_cache_with_directory` keeps lines in ways, and for every place of a
primary data cache an entry that names the index and way of the line here that
the place was filled from.  A read of a missing line brings it in over the next
way; a write of a missing line takes the next way without fetching the line.
The bits that select the bank are left out of the addresses sent to the memory
of the bank.
-/

namespace Prazor.Memory

open Prazor.Tlm

/-- What the constructor of a bank is given, with what its masks and shifts take
for granted. -/
structure SecondaryGeom where
  idx : ℕ
  bytes : ℕ
  linesize : ℕ
  ways : ℕ
  secondaryWidth : ℕ
  secondaryBl : ℕ
  banks : ℕ
  primaryBytes : ℕ
  primaryLinesize : ℕ
  primaryWays : ℕ
  linesize_pow : ∃ k, linesize = 2 ^ k
  linesize_ge : 8 ≤ linesize
  banks_pow : ∃ k, banks = 2 ^ k
  idx_lt : idx < banks
  ways_pos : 0 < ways
  dmapping_pow : ∃ k, bytes / (banks * ways * linesize) = 2 ^ k

namespace SecondaryGeom

variable (geom : SecondaryGeom)

def secondaryBlocksizeBytes : ℕ := geom.secondaryWidth / 8 * geom.secondaryBl

def dmapping : ℕ := geom.bytes / (geom.banks * geom.ways * geom.linesize)

def word64sPerLine : ℕ := geom.linesize / 8

def dmapShift : ℕ := 3 + Nat.log2 geom.word64sPerLine + Nat.log2 geom.banks

def primaryOffset : ℕ := Nat.log2 geom.primaryLinesize

def primaryIndex : ℕ :=
  Nat.log2 (geom.primaryBytes / (geom.primaryLinesize * geom.primaryWays))

def directoryPanelRowShift : ℕ := Nat.log2 geom.primaryLinesize

def directoryPanelRowMap : ℕ :=
  (1 <<< (Nat.log2 geom.linesize - Nat.log2 geom.primaryLinesize)) - 1

def directoryPanelColShift : ℕ := geom.dmapShift

def directoryPanelColMap : ℕ :=
  (1 <<< (geom.primaryIndex + geom.primaryOffset - geom.dmapShift)) - 1

def dmap (addr : ℕ) : ℕ := (addr >>> geom.dmapShift) &&& (geom.dmapping - 1)

/-- `addr & ~(geom.linesize - 1)`. -/
def lineAddr (addr : ℕ) : ℕ := addr - (addr &&& (geom.linesize - 1))

def loffset (addr : ℕ) : ℕ := (addr >>> 3) &&& (geom.word64sPerLine - 1)

/-- The address of a line in the memory of its bank. -/
def realAddr (lineAddr : ℕ) : ℕ :=
  (lineAddr >>> geom.dmapShift) <<< Nat.log2 geom.linesize

def dirRow (addr : ℕ) : ℕ :=
  (addr >>> geom.directoryPanelRowShift) &&& geom.directoryPanelRowMap

def dirCol (addr : ℕ) : ℕ :=
  (addr >>> geom.directoryPanelColShift) &&& geom.directoryPanelColMap

def dirEntryContent (dmap way : ℕ) : ℕ := (dmap <<< Nat.log2 geom.ways) ||| way

/-- `for (int d = 0; d < linesize; d += secondary_blocksize_bytes)`; with blocks
of no bytes the loop does not end. -/
def blocks : Option (List ℕ) :=
  if geom.secondaryBlocksizeBytes = 0 then none
  else some ((List.range ((geom.linesize + geom.secondaryBlocksizeBytes - 1) /
    geom.secondaryBlocksizeBytes)).map fun k => k * geom.secondaryBlocksizeBytes)

/-! ## Taking addresses apart -/

theorem lineAddr_eq (addr : ℕ) : geom.lineAddr addr = addr - addr % geom.linesize := by
  obtain ⟨k, hk⟩ := geom.linesize_pow
  rw [lineAddr, hk, Nat.and_two_pow_sub_one_eq_mod]

theorem linesize_pos : 0 < geom.linesize :=
  lt_of_lt_of_le (by norm_num) geom.linesize_ge

theorem mod_lt (addr : ℕ) : addr % geom.linesize < geom.linesize :=
  Nat.mod_lt addr geom.linesize_pos

theorem banks_pos : 0 < geom.banks := Nat.zero_lt_of_lt geom.idx_lt

theorem eight_dvd_linesize : 8 ∣ geom.linesize := by
  obtain ⟨k, hk⟩ := geom.linesize_pow
  have hge := geom.linesize_ge
  rw [hk] at hge ⊢
  have hk3 : 3 ≤ k := (Nat.pow_le_pow_iff_right (by norm_num : 1 < 2)).mp hge
  exact pow_dvd_pow 2 hk3

theorem two_pow_dmapShift : 2 ^ geom.dmapShift = geom.linesize * geom.banks := by
  obtain ⟨k, hk⟩ := geom.linesize_pow
  obtain ⟨m, hm⟩ := geom.banks_pow
  have hge := geom.linesize_ge
  rw [hk] at hge
  have hk3 : 3 ≤ k := (Nat.pow_le_pow_iff_right (by norm_num : 1 < 2)).mp hge
  obtain ⟨j, rfl⟩ := Nat.exists_eq_add_of_le hk3
  have hwords : geom.word64sPerLine = 2 ^ j := by
    rw [word64sPerLine, hk, Nat.pow_add]
    exact Nat.mul_div_cancel_left _ (by norm_num)
  rw [dmapShift, hwords, hm, Nat.log2_two_pow, Nat.log2_two_pow, hk, Nat.pow_add]

theorem two_pow_log2_linesize : 2 ^ Nat.log2 geom.linesize = geom.linesize := by
  obtain ⟨k, hk⟩ := geom.linesize_pow
  rw [hk, Nat.log2_two_pow]

theorem dmapping_pos : 0 < geom.dmapping := by
  obtain ⟨k, hk⟩ := geom.dmapping_pow
  rw [dmapping, hk]
  exact Nat.two_pow_pos k

theorem dmap_eq (addr : ℕ) :
    geom.dmap addr = addr / (geom.linesize * geom.banks) % geom.dmapping := by
  obtain ⟨k, hk⟩ := geom.dmapping_pow
  have hdmapping : geom.dmapping = 2 ^ k := hk
  rw [dmap, Nat.shiftRight_eq_div_pow, two_pow_dmapShift, hdmapping,
    Nat.and_two_pow_sub_one_eq_mod]

theorem dmap_lt (addr : ℕ) : geom.dmap addr < geom.dmapping := by
  rw [dmap_eq]
  exact Nat.mod_lt _ geom.dmapping_pos

theorem realAddr_eq (line : ℕ) :
    geom.realAddr line = line / (geom.linesize * geom.banks) * geom.linesize := by
  rw [realAddr, Nat.shiftLeft_eq, two_pow_log2_linesize, Nat.shiftRight_eq_div_pow,
    two_pow_dmapShift]

theorem loffset_eq (addr : ℕ) : geom.loffset addr = addr % geom.linesize / 8 := by
  obtain ⟨k, hk⟩ := geom.linesize_pow
  obtain ⟨words, hwords⟩ := geom.eight_dvd_linesize
  obtain ⟨j, -, hj⟩ := (Nat.dvd_prime_pow Nat.prime_two).mp
    (hk ▸ Dvd.intro_left 8 hwords.symm : words ∣ 2 ^ k)
  rw [loffset, word64sPerLine, hwords, Nat.mul_div_cancel_left _ (by norm_num), hj,
    Nat.and_two_pow_sub_one_eq_mod, Nat.shiftRight_eq_div_pow, Nat.mod_mul_right_div_self]

/-- The doubleword at an address that is a multiple of eight. -/
theorem loffset_of_aligned {addr : ℕ} (haligned : addr % 8 = 0) :
    8 * geom.loffset addr = addr % geom.linesize := by
  have hmod : addr % geom.linesize % 8 = 0 := by
    rw [Nat.mod_mod_of_dvd _ geom.eight_dvd_linesize, haligned]
  rw [loffset_eq]
  omega

theorem loffset_add_le {addr : ℕ} (haligned : addr % 8 = 0) :
    8 * geom.loffset addr + 8 ≤ geom.linesize := by
  have hdvd := geom.eight_dvd_linesize
  have hlt := geom.mod_lt addr
  have hoffset := geom.loffset_of_aligned haligned
  omega

/-- The address belongs to this bank. -/
def InBank (addr : ℕ) : Prop := addr / geom.linesize % geom.banks = geom.idx

/-- The line of a byte of the bank's memory. -/
def lineOf (real : ℕ) : ℕ :=
  (real / geom.linesize * geom.banks + geom.idx) * geom.linesize

/-- The place of an address of the bank in the bank's memory. -/
def realByte (addr : ℕ) : ℕ := geom.realAddr (geom.lineAddr addr) + addr % geom.linesize

theorem lineOf_div (real : ℕ) :
    geom.lineOf real / (geom.linesize * geom.banks) = real / geom.linesize := by
  rw [lineOf, ← Nat.div_div_eq_div_mul, Nat.mul_div_cancel _ geom.linesize_pos,
    Nat.mul_comm, Nat.mul_add_div geom.banks_pos, Nat.div_eq_of_lt geom.idx_lt,
    Nat.add_zero]

theorem realAddr_lineOf (real : ℕ) :
    geom.realAddr (geom.lineOf real) = real - real % geom.linesize := by
  rw [realAddr_eq, lineOf_div]
  have hsplit := Nat.div_add_mod' real geom.linesize
  omega

/-- The bytes of a line of the bank, by their places in its memory. -/
theorem lineOf_iff (real real' : ℕ) :
    geom.lineOf real' = geom.lineOf real ↔
      geom.realAddr (geom.lineOf real) ≤ real' ∧
        real' < geom.realAddr (geom.lineOf real) + geom.linesize := by
  have hsplit := Nat.div_add_mod' real geom.linesize
  have hsplit' := Nat.div_add_mod' real' geom.linesize
  have hlt := geom.mod_lt real
  have hlt' := geom.mod_lt real'
  rw [realAddr_lineOf]
  constructor
  · intro heq
    have hdiv : real' / geom.linesize = real / geom.linesize := by
      rw [← lineOf_div, heq, lineOf_div]
    rw [hdiv] at hsplit'
    omega
  · rintro ⟨hle, hend⟩
    have hbase : real - real % geom.linesize = real / geom.linesize * geom.linesize := by
      omega
    rw [hbase] at hle hend
    have hdiv : real' / geom.linesize = real / geom.linesize := by
      rw [Nat.div_eq_iff geom.linesize_pos]
      omega
    rw [lineOf, lineOf, hdiv]

theorem realAddr_mod (line : ℕ) : geom.realAddr line % geom.linesize = 0 := by
  rw [realAddr_eq]
  exact Nat.mul_mod_left _ _

theorem lineAddr_div (addr : ℕ) :
    geom.lineAddr addr / (geom.linesize * geom.banks) =
      addr / (geom.linesize * geom.banks) := by
  have hsplit := Nat.div_add_mod' addr geom.linesize
  have hline : geom.lineAddr addr = addr / geom.linesize * geom.linesize := by
    rw [lineAddr_eq]
    omega
  rw [hline, ← Nat.div_div_eq_div_mul, ← Nat.div_div_eq_div_mul,
    Nat.mul_div_cancel _ geom.linesize_pos]

@[simp]
theorem dmap_lineAddr (addr : ℕ) : geom.dmap (geom.lineAddr addr) = geom.dmap addr := by
  rw [dmap_eq, dmap_eq, lineAddr_div]

/-- A byte of an aligned doubleword of the bank is in the doubleword's line. -/
theorem lineOf_realByte {addr i : ℕ} (hbank : geom.InBank addr)
    (hi : addr % geom.linesize + i < geom.linesize) :
    geom.lineOf (geom.realByte addr + i) = geom.lineAddr addr ∧
      (geom.realByte addr + i) % geom.linesize = addr % geom.linesize + i := by
  have hmod : (geom.realByte addr + i) % geom.linesize = addr % geom.linesize + i := by
    rw [realByte, Nat.add_assoc, Nat.add_mod, realAddr_mod, Nat.zero_add, Nat.mod_mod,
      Nat.mod_eq_of_lt hi]
  have hdiv : (geom.realByte addr + i) / geom.linesize =
      addr / (geom.linesize * geom.banks) := by
    rw [realByte, realAddr_eq, lineAddr_div, Nat.add_assoc, Nat.mul_comm,
      Nat.mul_add_div geom.linesize_pos, Nat.div_eq_of_lt hi, Nat.add_zero]
  refine ⟨?_, hmod⟩
  have hsplit := Nat.div_add_mod' addr geom.linesize
  have hbanks := Nat.div_add_mod' (addr / geom.linesize) geom.banks
  rw [Nat.div_div_eq_div_mul, hbank] at hbanks
  rw [lineOf, hdiv, hbanks, lineAddr_eq]
  omega

end SecondaryGeom

inductive LineState where
  | invalid
  | clean
  | dirty
  deriving DecidableEq, Repr

structure SecondaryWay where
  status : ℕ → LineState
  tags : ℕ → ℕ
  data : Buffer

/-- The entries of one row and column, by core and primary way; no entry is `-1`. -/
abbrev Panel := ℕ → ℕ → Option ℕ

/-- The ways, the round-robin pointer, the directory by row and column, and the
memory of the bank. -/
structure SecondaryCache where
  cont : ℕ → SecondaryWay
  lru : ℕ
  directory : ℕ → ℕ → Panel
  main : ℕ → Byte

/-- An invalidate message: the core, its way, and an address that gives the index. -/
structure Invalidation where
  core : ℕ
  way : ℕ
  addr : ℕ
  deriving DecidableEq

namespace SecondaryCache

variable (geom : SecondaryGeom)

def setWay (cache : SecondaryCache) (w : ℕ) (way : SecondaryWay) : SecondaryCache :=
  { cache with cont := Function.update cache.cont w way }

def setStatus (cache : SecondaryCache) (w dmap : ℕ) (status : LineState) :
    SecondaryCache :=
  cache.setWay w
    { cache.cont w with status := Function.update (cache.cont w).status dmap status }

/-- The messages for the entries of a panel that are a tag, over 8 cores. -/
def matching (panel : Panel) (tag addr : ℕ) : List Invalidation :=
  (List.range 8).flatMap fun i =>
    ((List.range geom.primaryWays).filter fun j => panel i j = some tag).map fun j =>
      { core := i, way := j, addr := addr }

/-- The panel after the entries that are a tag have been set to `-1`. -/
def withoutTag (panel : Panel) (tag : ℕ) : Panel := fun i j =>
  if i < 8 ∧ j < geom.primaryWays ∧ panel i j = some tag then none else panel i j

/-- The part of `clear` that looks through all rows of a column for a tag: the
directory after it and the messages it sends. -/
def clearColumn (directory : ℕ → ℕ → Panel) (tag col addr : ℕ) :
    (ℕ → ℕ → Panel) × List Invalidation :=
  (fun r c =>
      if r < geom.directoryPanelRowMap + 1 ∧ c = col then
        withoutTag geom (directory r c) tag
      else directory r c,
    (List.range (geom.directoryPanelRowMap + 1)).flatMap fun r =>
      matching geom (directory r col) tag addr)

/-- The directory and the messages of `clear`, where `addr` is `-1` when the
whole cache is cleaned. -/
def clearDirectory (cache : SecondaryCache) (w dmap : ℕ) (addr : Option ℕ) :
    (ℕ → ℕ → Panel) × List Invalidation :=
  match addr with
  | none => (cache.directory, [])
  | some addr =>
      clearColumn geom cache.directory (geom.dirEntryContent dmap w)
        (geom.dirCol ((cache.cont w).tags dmap)) addr

/-- One block of a line to the memory of the bank; one that goes past the array
of the way ends the run. -/
def sendBlock (w dmap laddr : ℕ) (cache : SecondaryCache) (d : ℕ) :
    Option SecondaryCache :=
  if dmap * geom.linesize + d + geom.secondaryBlocksizeBytes ≤
      geom.dmapping * geom.linesize then
    some { cache with
      main := stored cache.main (geom.realAddr laddr + d) geom.secondaryBlocksizeBytes
        (fun _ => true) fun i => (cache.cont w).data (dmap * geom.linesize + d + i) }
  else none

/-- `cacheway::clear`. -/
def clear (cache : SecondaryCache) (w dmap : ℕ) (addr : Option ℕ) :
    Option (SecondaryCache × List Invalidation) :=
  if (cache.cont w).status dmap ≠ .dirty then some (cache, [])
  else
    let cleared := clearDirectory geom cache w dmap addr
    geom.blocks.bind fun blocks =>
      (blocks.foldlM (sendBlock geom w dmap ((cache.cont w).tags dmap))
          { cache with directory := cleared.1 }).map fun cache =>
        (cache.setStatus w dmap .invalid, cleared.2)

/-- A way with a line of data written into one of its places. -/
def withLine (way : SecondaryWay) (addr dmap : ℕ) (cline : Buffer) : SecondaryWay where
  status := Function.update way.status dmap .clean
  tags := Function.update way.tags dmap addr
  data := copyLine geom.linesize way.data dmap cline

/-- The victim of `cacheway::insert`. -/
def evict (cache : SecondaryCache) (w addr dmap fullAddr : ℕ) :
    Option (SecondaryCache × List Invalidation) :=
  match (cache.cont w).status dmap with
  | .invalid | .clean => some (cache, [])
  | .dirty =>
      if addr ≠ (cache.cont w).tags dmap then clear geom cache w dmap (some fullAddr)
      else none

/-- `cacheway::insert`. -/
def insert (cache : SecondaryCache) (w addr dmap : ℕ) (cline : Buffer)
    (fullAddr : ℕ) : Option (SecondaryCache × List Invalidation) :=
  (evict geom cache w addr dmap fullAddr).bind fun evicted =>
    if dmap * geom.linesize + geom.linesize ≤ geom.dmapping * geom.linesize then
      some (evicted.1.setWay w (withLine geom (evicted.1.cont w) addr dmap cline),
        evicted.2)
    else none

/-- One block of a line into an array of `MAX_LINESIZE` bytes. -/
def fetchBlock (cache : SecondaryCache) (lineAddr : ℕ) (cline : Buffer) (d : ℕ) :
    Option Buffer :=
  if d + geom.secondaryBlocksizeBytes ≤ maxLinesize then
    some fun i =>
      if d ≤ i ∧ i < d + geom.secondaryBlocksizeBytes then
        cache.main (geom.realAddr lineAddr + d + (i - d))
      else cline i
  else none

/-- `main_memory_lookup`. -/
def mainMemoryLookup (cache : SecondaryCache) (lineAddr : ℕ) : Option Buffer :=
  geom.blocks.bind fun blocks => blocks.foldlM (fetchBlock geom cache lineAddr) fun _ => 0

/-- `cacheway::lookup`. -/
def present (cache : SecondaryCache) (w dmap lineAddr : ℕ) : Bool :=
  (cache.cont w).status dmap ≠ .invalid ∧ (cache.cont w).tags dmap = lineAddr

/-- The way that has the line. -/
def findWay (cache : SecondaryCache) (lineAddr dmap : ℕ) : Option ℕ :=
  (List.range geom.ways).find? fun w => cache.present w dmap lineAddr

/-- `lru = (lru == geom.ways - 1) ? 0 : lru + 1`. -/
def nextLru (lru : ℕ) : ℕ := if lru = geom.ways - 1 then 0 else lru + 1

/-- `lookup` with the miss serviced: the way that has the line in the end. -/
def lookup (cache : SecondaryCache) (lineAddr dmap fullAddr : ℕ) :
    Option (SecondaryCache × ℕ × List Invalidation) :=
  match findWay geom cache lineAddr dmap with
  | some w => some (cache, w, [])
  | none =>
      (mainMemoryLookup geom cache lineAddr).bind fun cline10 =>
        (insert geom { cache with lru := nextLru geom cache.lru } cache.lru lineAddr dmap
            cline10 fullAddr).bind fun inserted =>
          if inserted.1.present cache.lru dmap lineAddr then
            some (inserted.1, cache.lru, inserted.2)
          else none

/-- What a bank answers: the payload, and the messages sent on the way. -/
structure Reply where
  trans : Payload
  invalidations : List Invalidation

/-- The read of `b_transport`; `way` is the place of the primary cache, which a
read must carry, and odd identities are those of data caches. -/
def read (cache : SecondaryCache) (id : ℕ) (way : Option ℕ) (trans : Payload) :
    Option (SecondaryCache × Reply) :=
  let addr := trans.address.toNat
  let dmap := geom.dmap addr
  way.bind fun way =>
    (lookup geom cache (geom.lineAddr addr) dmap addr).bind fun found =>
      let recorded : SecondaryCache :=
        if id % 2 = 1 then
          { found.1 with
            directory := Function.update found.1.directory (geom.dirRow addr)
              (Function.update (found.1.directory (geom.dirRow addr)) (geom.dirCol addr)
                (Function.update (found.1.directory (geom.dirRow addr) (geom.dirCol addr))
                  ((id - 1) / 2)
                  (Function.update
                    (found.1.directory (geom.dirRow addr) (geom.dirCol addr)
                      ((id - 1) / 2)) way
                    (some (geom.dirEntryContent dmap found.2.1))))) }
        else found.1
      if trans.dataLength = 8 then
        some (recorded,
          { trans := { trans with
              data := Bytes.memcpy 8 (fun i => (found.1.cont found.2.1).data
                (dmap * geom.linesize + 8 * geom.loffset addr + i)) trans.data
              response := .ok }
            invalidations := found.2.2 })
      else none

/-- The way that a write of a missing line takes. -/
def takeWay (cache : SecondaryCache) (lineAddr dmap addr : ℕ) :
    Option (SecondaryCache × List Invalidation) :=
  let w := cache.lru
  let cache := { cache with lru := nextLru geom cache.lru }
  -- the tag is compared the wrong way round: a line that missed has another tag
  let cleared :=
    if (cache.cont w).status dmap ≠ .invalid ∧ (cache.cont w).tags dmap = lineAddr then
      clear geom cache w dmap (some addr)
    else some (cache, [])
  cleared.map fun cleared =>
    (cleared.1.setWay w
      { cleared.1.cont w with
        status := Function.update (cleared.1.cont w).status dmap .dirty
        tags := Function.update (cleared.1.cont w).tags dmap lineAddr }, cleared.2)

/-- The copy of a write into the line in a way. -/
def storeWay (cache : SecondaryCache) (w dmap loffset : ℕ) (trans : Payload) :
    SecondaryCache :=
  cache.setWay w
    { cache.cont w with
      data := mergeLanes trans (dmap * geom.linesize + 8 * loffset)
        (cache.cont w).data }

/-- The write of `b_transport`, which only a data cache sends. -/
def write (cache : SecondaryCache) (id : ℕ) (trans : Payload) :
    Option (SecondaryCache × Reply) :=
  let addr := trans.address.toNat
  let dmap := geom.dmap addr
  if id % 2 = 1 then
    let placed : Option (SecondaryCache × ℕ × List Invalidation) :=
      match findWay geom cache (geom.lineAddr addr) dmap with
      | none =>
          (takeWay geom cache (geom.lineAddr addr) dmap addr).map fun taken =>
            (taken.1, cache.lru, taken.2)
      | some rp =>
          let panel := cache.directory (geom.dirRow addr) (geom.dirCol addr)
          let tag := geom.dirEntryContent dmap rp
          some ({ cache with
            directory := Function.update cache.directory (geom.dirRow addr)
              (Function.update (cache.directory (geom.dirRow addr)) (geom.dirCol addr)
                (withoutTag geom panel tag)) },
            rp, matching geom panel tag addr)
    placed.map fun placed =>
      (storeWay geom placed.1 placed.2.1 dmap (geom.loffset addr) trans,
        { trans := { trans with response := .ok }, invalidations := placed.2.2 })
  else none

/-- `b_transport`, for one access at a time. -/
def bTransport (cache : SecondaryCache) (id : ℕ) (way : Option ℕ) (trans : Payload) :
    Option (SecondaryCache × Reply) :=
  if 8 < trans.dataLength then none
  else
    match trans.command with
    | .read => read geom cache id way trans
    | .write => write geom cache id trans
    | .ignore => none

/-- `clean`. -/
def clean (cache : SecondaryCache) : Option SecondaryCache :=
  (List.range geom.ways).foldlM (fun cache w =>
    (List.range geom.dmapping).foldlM (fun cache l =>
      (clear geom cache w l none).map Prod.fst) cache) cache

/-- A bank after its constructor. -/
def powerOn (tags : ℕ → ℕ → ℕ) (data : ℕ → Buffer) (main : ℕ → Byte) :
    SecondaryCache where
  cont w := { status := fun _ => .invalid, tags := tags w, data := data w }
  lru := 0
  directory _ _ _ _ := none
  main := main

end SecondaryCache

end Prazor.Memory
