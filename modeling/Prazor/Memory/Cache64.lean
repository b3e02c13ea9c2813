import Prazor.Memory.Doubleword

/-!
# The cache with a write buffer

`cache64` keeps lines in `ways` ways of `dmapping` lines each.  A write to a
line it does not have goes to the one entry of its write buffer, or straight to
the secondary storage when it was built without one.  A read of a line it does
not have brings the line in, in the next way round, and the line that was there
is written out first when it was modified.

This is the cache of data on its own: it snoops nothing, and one access is over
before the next begins, so the sets of lines that are being fetched are empty
between accesses.  An access with a load-linked extension goes past the cache
and is not one of those modelled.
-/

namespace Prazor.Memory

open Prazor.Tlm

/-- What the constructor is given, with what it asserts and what its masks take
for granted: line size and number of banks are powers of two. -/
structure CacheGeom where
  bytes : ℕ
  ways : ℕ
  linesize : ℕ
  secondaryWidth : ℕ
  secondaryBl : ℕ
  secondaryLinesize : ℤ
  secondaryBanks : ℕ
  useWriteBuffer : Bool
  linesize_pow : ∃ k, linesize = 2 ^ k
  banks_pow : ∃ k, secondaryBanks = 2 ^ k
  secondaryLinesize_lt : secondaryLinesize < 2 ^ 31
  width_mod : secondaryWidth % 8 = 0
  width_ge : 64 ≤ secondaryWidth
  linesize_pos : 0 < linesize
  linesize_mod : linesize % 8 = 0
  linesize_le : linesize ≤ maxLinesize
  ways_pos : 0 < ways
  bytes_pos : 0 < bytes
  bytes_mod : bytes % (8 * ways * linesize) = 0
  blocksize_ge : linesize ≤ secondaryWidth / 8 * secondaryBl
  blocksize_mod : secondaryWidth / 8 * secondaryBl % linesize = 0
  dmapping_log : Nat.log2 (bytes / (ways * linesize) - 1) <
    Nat.log2 (bytes / (ways * linesize))

namespace CacheGeom

def secondaryBlocksizeBytes (geom : CacheGeom) : ℕ :=
  geom.secondaryWidth / 8 * geom.secondaryBl

def dmapping (geom : CacheGeom) : ℕ := geom.bytes / (geom.ways * geom.linesize)

def word64sPerLine (geom : CacheGeom) : ℕ := geom.linesize / 8

def dmapShift (geom : CacheGeom) : ℕ := 3 + Nat.log2 geom.word64sPerLine

def loffsetShift : ℕ := 3

def secondaryLinesizeBits (geom : CacheGeom) : ℕ :=
  if geom.secondaryLinesize < geom.linesize then Nat.log2 geom.linesize
  else Nat.log2 geom.secondaryLinesize.toNat

def dmap (geom : CacheGeom) (addr : ℕ) : ℕ :=
  (addr >>> geom.dmapShift) &&& (geom.dmapping - 1)

def loffset (geom : CacheGeom) (addr : ℕ) : ℕ :=
  (addr >>> loffsetShift) &&& (geom.word64sPerLine - 1)

/-- `addr & ~(geom.linesize - 1)`. -/
def lineAddr (geom : CacheGeom) (addr : ℕ) : ℕ :=
  addr - (addr &&& (geom.linesize - 1))

/-- The socket that reads of a line go to. -/
def bank (geom : CacheGeom) (lineAddr : ℕ) : ℕ :=
  if geom.secondaryBanks = 1 then 0
  else (lineAddr >>> geom.secondaryLinesizeBits) &&& (geom.secondaryBanks - 1)

/-- `dl`, the length of one transfer. -/
def transferLength (geom : CacheGeom) : ℕ :=
  if geom.secondaryBlocksizeBytes ≤ geom.linesize then geom.secondaryBlocksizeBytes
  else geom.linesize

/-- `for (int d = 0; d < linesize; d += secondary_blocksize_bytes)`. -/
def blocks (geom : CacheGeom) : List ℕ :=
  List.range' 0
    ((geom.linesize + geom.secondaryBlocksizeBytes - 1) / geom.secondaryBlocksizeBytes)
    geom.secondaryBlocksizeBytes

section Arithmetic

variable (geom : CacheGeom)

theorem addr_and_eq (addr : ℕ) : addr &&& (geom.linesize - 1) = addr % geom.linesize := by
  obtain ⟨k, hk⟩ := geom.linesize_pow
  rw [hk, Nat.and_two_pow_sub_one_eq_mod]

theorem lineAddr_eq (addr : ℕ) :
    geom.lineAddr addr = addr - addr % geom.linesize := by
  rw [lineAddr, addr_and_eq]

theorem lineAddr_add_mod (addr : ℕ) :
    geom.lineAddr addr + addr % geom.linesize = addr := by
  rw [lineAddr_eq, Nat.sub_add_cancel (Nat.mod_le _ _)]

@[simp]
theorem lineAddr_mod (addr : ℕ) : geom.lineAddr addr % geom.linesize = 0 := by
  rw [lineAddr_eq]
  exact Nat.sub_mod_eq_zero_of_mod_eq (Nat.mod_mod _ _).symm

theorem mod_lt (addr : ℕ) : addr % geom.linesize < geom.linesize :=
  Nat.mod_lt addr geom.linesize_pos

/-- The bytes of a line. -/
theorem mod_of_line {line i : ℕ} (hline : line % geom.linesize = 0)
    (hi : i < geom.linesize) : (line + i) % geom.linesize = i := by
  rw [Nat.add_mod, hline, Nat.zero_add, Nat.mod_mod, Nat.mod_eq_of_lt hi]

theorem lineAddr_of_line {line i : ℕ} (hline : line % geom.linesize = 0)
    (hi : i < geom.linesize) : geom.lineAddr (line + i) = line := by
  rw [lineAddr_eq, mod_of_line geom hline hi, Nat.add_sub_cancel]

theorem two_pow_dmapShift : 2 ^ geom.dmapShift = geom.linesize := by
  obtain ⟨k, hk⟩ := geom.linesize_pow
  have hge : 3 ≤ k := by
    by_contra hlt
    have hmod := geom.linesize_mod
    have hk' : k < 3 := Nat.lt_of_not_le hlt
    rw [hk] at hmod
    interval_cases k <;> omega
  obtain ⟨j, rfl⟩ := Nat.exists_eq_add_of_le hge
  have hwords : geom.word64sPerLine = 2 ^ j := by
    rw [word64sPerLine, hk, Nat.pow_add]
    exact Nat.mul_div_cancel_left _ (by norm_num)
  rw [dmapShift, hwords, Nat.log2_two_pow, hk]

theorem dmapping_pow : ∃ k, geom.dmapping = 2 ^ k := by
  have hlog : Nat.log2 (geom.dmapping - 1) < Nat.log2 geom.dmapping := geom.dmapping_log
  have hne : geom.dmapping ≠ 0 := by
    intro hzero
    rw [hzero] at hlog
    exact absurd hlog (lt_irrefl _)
  refine ⟨Nat.log2 geom.dmapping, le_antisymm ?_ (Nat.log2_self_le hne)⟩
  -- otherwise the predecessor has the same logarithm
  by_contra hgt
  have hpred : geom.dmapping - 1 ≠ 0 := by
    have := Nat.one_le_two_pow (n := Nat.log2 geom.dmapping)
    omega
  have hle : 2 ^ Nat.log2 geom.dmapping ≤ geom.dmapping - 1 := by omega
  exact absurd ((Nat.le_log2 hpred).mpr hle) (Nat.not_le.mpr hlog)

theorem dmapping_pos : 0 < geom.dmapping := by
  obtain ⟨k, hk⟩ := geom.dmapping_pow
  rw [hk]
  exact Nat.two_pow_pos k

theorem dmap_eq (addr : ℕ) :
    geom.dmap addr = addr / geom.linesize % geom.dmapping := by
  obtain ⟨k, hk⟩ := geom.dmapping_pow
  rw [dmap, Nat.shiftRight_eq_div_pow, two_pow_dmapShift, hk,
    Nat.and_two_pow_sub_one_eq_mod]

theorem dmap_lt (addr : ℕ) : geom.dmap addr < geom.dmapping := by
  rw [dmap_eq]
  exact Nat.mod_lt _ geom.dmapping_pos

theorem dmap_of_line {line i : ℕ} (hline : line % geom.linesize = 0)
    (hi : i < geom.linesize) : geom.dmap (line + i) = geom.dmap line := by
  obtain ⟨n, rfl⟩ := Nat.dvd_of_mod_eq_zero hline
  rw [dmap_eq, dmap_eq, Nat.mul_add_div geom.linesize_pos, Nat.div_eq_of_lt hi,
    Nat.add_zero, Nat.mul_div_cancel_left n geom.linesize_pos]

@[simp]
theorem dmap_lineAddr (addr : ℕ) : geom.dmap (geom.lineAddr addr) = geom.dmap addr := by
  rw [← dmap_of_line geom (lineAddr_mod geom addr) (mod_lt geom addr),
    lineAddr_add_mod]

theorem loffset_eq (addr : ℕ) :
    geom.loffset addr = addr % geom.linesize / 8 := by
  obtain ⟨k, hk⟩ := geom.linesize_pow
  have hmod := geom.linesize_mod
  obtain ⟨words, hwords⟩ := Nat.dvd_of_mod_eq_zero hmod
  have hpow : ∃ j, words = 2 ^ j := by
    obtain ⟨j, -, hj⟩ := (Nat.dvd_prime_pow Nat.prime_two).mp
      (hk ▸ Dvd.intro_left 8 hwords.symm : words ∣ 2 ^ k)
    exact ⟨j, hj⟩
  obtain ⟨j, hj⟩ := hpow
  rw [loffset, word64sPerLine, hwords, Nat.mul_div_cancel_left _ (by norm_num), hj,
    Nat.and_two_pow_sub_one_eq_mod, loffsetShift, Nat.shiftRight_eq_div_pow,
    Nat.mod_mul_right_div_self]

/-- The doubleword at an address that is a multiple of eight. -/
theorem loffset_of_aligned {addr : ℕ} (haligned : addr % 8 = 0) :
    8 * geom.loffset addr = addr % geom.linesize := by
  have hmod : addr % geom.linesize % 8 = 0 := by
    rw [Nat.mod_mod_of_dvd _ (Nat.dvd_of_mod_eq_zero geom.linesize_mod), haligned]
  rw [loffset_eq]
  omega

/-- A doubleword lies in its line. -/
theorem loffset_add_le {addr : ℕ} (haligned : addr % 8 = 0) :
    8 * geom.loffset addr + 8 ≤ geom.linesize := by
  have hmod := geom.linesize_mod
  have hlt := geom.mod_lt addr
  have hoffset := geom.loffset_of_aligned haligned
  omega

/-- The constructor asserts that a block of the secondary storage is not
smaller than a line, so a line is one transfer. -/
theorem blocks_eq : geom.blocks = [0] := by
  have hge : geom.linesize ≤ geom.secondaryBlocksizeBytes := geom.blocksize_ge
  have hpos := geom.linesize_pos
  have hone : (geom.linesize + geom.secondaryBlocksizeBytes - 1) /
      geom.secondaryBlocksizeBytes = 1 := by
    rw [Nat.div_eq_iff (by omega)]
    omega
  rw [blocks, hone]
  rfl

theorem transferLength_eq : geom.transferLength = geom.linesize := by
  have hge : geom.linesize ≤ geom.secondaryBlocksizeBytes := geom.blocksize_ge
  rw [transferLength]
  split
  · omega
  · rfl

theorem bank_of_single (hbanks : geom.secondaryBanks = 1) (line : ℕ) :
    geom.bank line = 0 := by
  rw [bank, if_pos hbanks]

end Arithmetic

end CacheGeom

inductive Mesi where
  | invalid
  | exclusive
  | modified
  | shared
  | owned
  deriving DecidableEq, Repr

/-- One way: `Data` holds `dmapping * linesize` bytes. -/
structure Cacheway where
  status : ℕ → Mesi
  tags : ℕ → ℕ
  data : Buffer

/-- The write buffer; `m_addr` is `-1` while it is empty, and then not the
address of a line. -/
structure WriteBuffer where
  mAddr : Option ℕ
  dirty : ℕ → Bool
  cline : Buffer

/-- The cache and, behind each of its sockets, a bank of the secondary storage. -/
structure Cache64 where
  cont : ℕ → Cacheway
  lru : ℕ
  buf0 : Option WriteBuffer
  secondary : ℕ → ℕ → Byte

/-- `for (int k = 0; k < length; k++) data[k] = *(source + start + k)`; `none`
when it leaves one of the two arrays. -/
def copyBytes (length : ℕ) (source : Buffer) (sourceSize start targetSize : ℕ) :
    Option Buffer :=
  if start + length ≤ sourceSize ∧ length ≤ targetSize then
    some (Bytes.memcpy length (fun k => source (start + k)) fun _ => 0)
  else none

namespace Cache64

variable (geom : CacheGeom)

def setWay (cache : Cache64) (w : ℕ) (way : Cacheway) : Cache64 :=
  { cache with cont := Function.update cache.cont w way }

/-- `Status[dmap] = op`. -/
def setStatus (cache : Cache64) (w dmap : ℕ) (op : Mesi) : Cache64 :=
  cache.setWay w
    { cache.cont w with status := Function.update (cache.cont w).status dmap op }

/-- A write transaction through the first socket. -/
def sendWrite (cache : Cache64) (address length : ℕ) (enabled : ℕ → Bool)
    (data : Buffer) : Cache64 :=
  { cache with
    secondary := Function.update cache.secondary 0
      (stored (cache.secondary 0) address length enabled data) }

/-- `cacheway::clean`. -/
def cleanWay (cache : Cache64) (w dmap : ℕ) : Option Cache64 :=
  if (cache.cont w).status dmap ≠ .modified ∧ (cache.cont w).status dmap ≠ .owned then
    some cache
  else
    geom.blocks.foldlM (fun cache d =>
      if dmap * geom.linesize + d + geom.transferLength ≤
          geom.dmapping * geom.linesize then
        some (cache.sendWrite ((cache.cont w).tags dmap + d) geom.transferLength
          (fun _ => true)
          fun i => (cache.cont w).data (dmap * geom.linesize + d + i))
      else none)
      (cache.setStatus w dmap .invalid)

/-- `write_buffer::clean`. -/
def cleanBuffer (cache : Cache64) : Option Cache64 :=
  match cache.buf0 with
  | none => some cache
  | some buf =>
      match buf.mAddr with
      | none => some cache
      | some addrM =>
          geom.blocks.foldlM (fun cache d =>
            if (List.range geom.transferLength).any fun i => buf.dirty (d + i) then
              -- the copy is of a whole block of the secondary storage
              (copyBytes geom.secondaryBlocksizeBytes buf.cline geom.linesize d
                maxLinesize).map fun data =>
                cache.sendWrite (addrM + d) geom.transferLength
                  (fun i => buf.dirty (d + i)) data
            else some cache)
            { cache with buf0 := some { buf with mAddr := none } }

/-- `cache64::clean`. -/
def clean (cache : Cache64) : Option Cache64 :=
  ((List.range geom.ways).foldlM (fun cache w =>
    (List.range geom.dmapping).foldlM (fun cache l => cleanWay geom cache w l) cache)
    cache).bind (cleanBuffer geom)

/-- `cacheway::lookup`. -/
def present (cache : Cache64) (w dmap lineAddr : ℕ) : Bool :=
  (cache.cont w).status dmap ≠ .invalid ∧ (cache.cont w).tags dmap = lineAddr

/-- `secondary_lookup`, into an array of `MAX_LINESIZE` bytes; what they were
before does not matter. -/
def secondaryLookup (cache : Cache64) (lineAddr : ℕ) : Option Buffer :=
  geom.blocks.foldlM (fun cline d =>
    if d + geom.transferLength ≤ maxLinesize then
      some fun i =>
        if d ≤ i ∧ i < d + geom.transferLength then
          cache.secondary (geom.bank lineAddr) (lineAddr + d + (i - d))
        else cline i
    else none) fun _ => 0

/-- The victim of `cacheway::insert`: it must not be the line that is inserted. -/
def evict (cache : Cache64) (w addr dmap : ℕ) : Option Cache64 :=
  match (cache.cont w).status dmap with
  | .invalid | .exclusive | .shared => some cache
  | .modified | .owned =>
      if addr ≠ (cache.cont w).tags dmap then cleanWay geom cache w dmap else none

/-- A way with a line written into one of its places. -/
def withLine (way : Cacheway) (addr dmap : ℕ) (cline : Buffer) (newState : Mesi) :
    Cacheway where
  status := Function.update way.status dmap newState
  tags := Function.update way.tags dmap addr
  data := copyLine geom.linesize way.data dmap cline

/-- `cacheway::insert`. -/
def insert (cache : Cache64) (w addr dmap : ℕ) (cline : Buffer) (newState : Mesi) :
    Option Cache64 :=
  (evict geom cache w addr dmap).bind fun cache =>
    if dmap * geom.linesize + geom.linesize ≤ geom.dmapping * geom.linesize then
      some (cache.setWay w (withLine geom (cache.cont w) addr dmap cline newState))
    else none

/-- `lookup`, which gives the way of the line, or no way when the line is not
there and the miss is not to be serviced.  A single cache inserts every line as
shared. -/
def lookup (cache : Cache64) (servicef : Bool) (lineAddr dmap : ℕ) :
    Option (Cache64 × Option ℕ) :=
  match (List.range geom.ways).find? fun w => cache.present w dmap lineAddr with
  | some w => some (cache, some w)
  | none =>
      if servicef then
        let lru := if cache.lru = geom.ways - 1 then 0 else cache.lru + 1
        (secondaryLookup geom cache lineAddr).bind fun cline10 =>
          (insert geom { cache with lru := lru } lru lineAddr dmap cline10 .shared).bind
            fun cache =>
              if cache.present lru dmap lineAddr then some (cache, some lru) else none
      else some (cache, none)

/-- `write_buffer::hit`. -/
def hit (cache : Cache64) (addr : ℕ) : Option WriteBuffer :=
  cache.buf0.filter fun buf => buf.mAddr = some addr

/-- `write_buffer::word_present`. -/
def wordPresent (buf : WriteBuffer) (offset : ℕ) : Bool :=
  (List.range 8).all fun i => buf.dirty (offset * 8 + i)

/-- `write_buffer::mark_dirty`. -/
def markDirty (trans : Payload) (loffset : ℕ) (dirty : ℕ → Bool) : ℕ → Bool :=
  (List.range trans.dataLength).foldl (fun dirty i =>
    if byteEnabled trans i then Function.update dirty (8 * loffset + i) true
    else dirty) dirty

/-- A doubleword of the line in a way. -/
def readWay (cache : Cache64) (w dmap loffset : ℕ) : Option Buffer :=
  let start := dmap * geom.linesize + 8 * loffset
  if start + 8 ≤ geom.dmapping * geom.linesize then
    some fun i => (cache.cont w).data (start + i)
  else none

/-- The copy of a write to the line in a way. -/
def storeWay (cache : Cache64) (w dmap loffset : ℕ) (trans : Payload) :
    Option Cache64 :=
  let start := dmap * geom.linesize + 8 * loffset
  if start + 8 ≤ geom.dmapping * geom.linesize then
    some (cache.setWay w
      { cache.cont w with data := mergeLanes trans start (cache.cont w).data })
  else none

/-- Marking and copying of a write to the write buffer. -/
def storeBuffer (cache : Cache64) (buf : WriteBuffer) (loffset : ℕ)
    (trans : Payload) : Option Cache64 :=
  if 8 * loffset + 8 ≤ geom.linesize ∧ 8 * loffset + trans.dataLength ≤ maxLinesize then
    some { cache with
      buf0 := some { buf with
        dirty := markDirty trans loffset buf.dirty
        cline := mergeLanes trans (8 * loffset) buf.cline } }
  else none

/-- `write_buffer::init`: the buffer must be empty. -/
def initBuffer (buf : WriteBuffer) (addr : ℕ) : Option WriteBuffer :=
  if buf.mAddr = none then
    some { buf with mAddr := some addr, dirty := fun _ => false }
  else none

/-- `write_back`. -/
def writeBack (cache : Cache64) (trans : Payload) (lineAddr loffset dmap : ℕ) :
    Option Cache64 :=
  match cache.hit lineAddr with
  | some buf => storeBuffer geom cache buf loffset trans
  | none =>
      (lookup geom cache false lineAddr dmap).bind fun found =>
        match found.2 with
        | some rp => storeWay geom (found.1.setStatus rp dmap .modified) rp dmap loffset trans
        | none =>
            match found.1.buf0 with
            | none =>
                some (found.1.sendWrite trans.address.toNat trans.dataLength
                  (byteEnabled trans) trans.data)
            | some _ =>
                (cleanBuffer geom found.1).bind fun cache =>
                  cache.buf0.bind fun buf =>
                    (initBuffer buf lineAddr).bind fun buf =>
                      storeBuffer geom cache buf loffset trans

/-- The read of the doubleword at an address. -/
def read (cache : Cache64) (lineAddr loffset dmap : ℕ) : Option (Cache64 × Buffer) :=
  let fromLine (cache : Cache64) : Option (Cache64 × Buffer) :=
    (lookup geom cache true lineAddr dmap).bind fun found =>
      found.2.bind fun w =>
        (readWay geom found.1 w dmap loffset).map fun ans => (found.1, ans)
  match cache.hit lineAddr with
  | some buf =>
      if wordPresent buf loffset then
        if loffset * 8 + 8 ≤ geom.linesize then
          some (cache, fun i => buf.cline (loffset * 8 + i))
        else none
      else
        -- a word that is not all there: write it out and fetch the line
        (cleanBuffer geom cache).bind fromLine
  | none => fromLine cache

/-- `cache64::b_access` for accesses without a load-linked extension. -/
def bAccess (cache : Cache64) (trans : Payload) : Option (Cache64 × Payload) :=
  let addr := trans.address.toNat
  if 8 < trans.dataLength then none
  else if trans.dataLength % 8 ≠ 0 then
    some (cache, { trans with response := .burstError })
  else
    match trans.command with
    | .read =>
        (read geom cache (geom.lineAddr addr) (geom.loffset addr) (geom.dmap addr)).bind
          fun served =>
            if trans.dataLength = 8 then
              some (served.1, { trans with
                data := Bytes.memcpy 8 served.2 trans.data
                response := .ok })
            else none
    | .write =>
        (writeBack geom cache trans (geom.lineAddr addr) (geom.loffset addr)
          (geom.dmap addr)).map fun cache => (cache, { trans with response := .ok })
    | .ignore => some (cache, { trans with response := .ok })

/-- A cache after its constructor, over arrays that hold whatever they hold. -/
def powerOn (tags : ℕ → ℕ → ℕ) (data : ℕ → Buffer) (cline : Buffer)
    (secondary : ℕ → ℕ → Byte) : Cache64 where
  cont w := { status := fun _ => .invalid, tags := tags w, data := data w }
  lru := 0
  buf0 := if geom.useWriteBuffer then
      some { mAddr := none, dirty := fun _ => false, cline := cline }
    else none
  secondary := secondary

end Cache64

end Prazor.Memory
