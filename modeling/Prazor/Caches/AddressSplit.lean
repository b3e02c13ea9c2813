import Prazor.Bus.Vmunit64
import Prazor.Caches.Cluster

/-!
# The address arithmetic of a ccache

An address is split by masks and shifts, a tag and its column are put together again when a line is
written back, and the address of a line is computed by a mask of 32 bits when it is fetched.  The
first two are inverse to one another on all addresses.  The last agrees with them on the first
four gigabytes.
-/

namespace Prazor.Caches

/-! ## The computations of the source -/

/-- `geometry_t`, with the widths of its members. -/
structure GeometryWords where
  linesize : BitVec 32
  boffsetm : BitVec 32
  boffsetb : BitVec 8
  indexm : BitVec 32
  indexb : BitVec 8

/-- `cache_lines_per_way` -/
def cacheLinesPerWay (size linesize : BitVec 32) (ways : BitVec 8) : BitVec 32 :=
  size / linesize / ways.setWidth 32

/-- The geometry that the constructor computes. -/
def GeometryWords.new (size linesize : BitVec 32) (ways : BitVec 8) : GeometryWords where
  linesize := linesize
  boffsetm := linesize - 1
  boffsetb := BitVec.ofNat 8 (Bus.Vmunit64.boundLog2 linesize.toNat)
  indexm := cacheLinesPerWay size linesize ways - 1
  indexb := BitVec.ofNat 8 (Bus.Vmunit64.boundLog2 (cacheLinesPerWay size linesize ways).toNat)

/-- Tag, index and offset of an address. -/
@[ext]
structure Parts where
  tag : Word64
  index : Word64
  offset : Word64

namespace GeometryWords

variable (g : GeometryWords)

def offset (addr : Word64) : Word64 := addr &&& g.boffsetm.setWidth 64

def index (addr : Word64) : Word64 := (addr >>> g.boffsetb.toNat) &&& g.indexm.setWidth 64

def tag (addr : Word64) : Word64 := addr >>> (g.boffsetb.toNat + g.indexb.toNat)

/-- The split of `b_transport`; `peq_cb` computes the first two parts in the same way. -/
def split (addr : Word64) : Parts where
  tag := g.tag addr
  index := g.index addr
  offset := g.offset addr

/-- `m_tags->write(index, 1, &tag)` in `way::insert`, with the parts of an address. -/
def insert (mTags : Word64 → Word64) (addr : Word64) : Word64 → Word64 :=
  Function.update mTags (g.index addr) (g.tag addr)

/-- `rebuild_address` -/
def rebuildAddress (mTags : Word64 → Word64) (index : Word64) : Word64 :=
  (mTags index <<< (g.indexb.toNat + g.boffsetb.toNat)) ||| (index <<< g.boffsetb.toNat)

/-- `line_addr = addr & ~(m_geometry.linesize - 1)`.  The complement is of 32 bits. -/
def lineAddr (addr : Word64) : Word64 := addr &&& (~~~(g.linesize - 1)).setWidth 64

/-- What `secondary_lookup` sends. -/
def secondaryLookup (addr : Word64) : Transaction × Word64 := (.readShared, g.lineAddr addr)

/-- What `cold_write` sends. -/
def coldWrite (addr : Word64) (dlength : BitVec 32) : Transaction × Word64 :=
  (if dlength = g.linesize then .makeUnique else .readUnique, g.lineAddr addr)

/-- What `write` sends for a line that is shared. -/
def writeShared (addr : Word64) : Transaction × Word64 := (.makeInvalid, g.lineAddr addr)

/-- The address of the `WriteBack` and of the `Evict` that `locked_op` sends. -/
def lockedOp (addr : Word64) : Word64 := g.lineAddr addr

/-- The addresses of the secondary storage that an access is sent to. -/
def sends (addr : Word64) : Set Word64 :=
  {sent | sent = (g.secondaryLookup addr).2 ∨ (∃ dlength, sent = (g.coldWrite addr dlength).2) ∨
    sent = (g.writeShared addr).2 ∨ sent = g.lockedOp addr}

/-! ## What they are for -/

/-- The parts that an address can have. -/
def parts : Set Parts :=
  {p | p.tag.toNat < 2 ^ (64 - (g.boffsetb.toNat + g.indexb.toNat)) ∧
    p.index.toNat < 2 ^ g.indexb.toNat ∧ p.offset.toNat < 2 ^ g.boffsetb.toNat}

/-- The address with its offset bits cleared. -/
def cleared (addr : Word64) : Word64 := addr &&& ~~~(g.boffsetm.setWidth 64)

/-- A line is fetched from, snooped at and written back to one address. -/
structure OneAddress (mTags : Word64 → Word64) (addr : Word64) : Prop where
  sent : ∀ sent ∈ g.sends addr,
    sent = g.rebuildAddress (g.insert mTags addr) (g.index addr)
  snooped : ∀ sent ∈ g.sends addr, g.index sent = g.index addr ∧ g.tag sent = g.tag addr

end GeometryWords

/-- Line size and lines of a way are powers of two. -/
structure PowersOfTwo (size linesize : BitVec 32) (ways : BitVec 8) (b i : ℕ) : Prop where
  linesize_eq : linesize.toNat = 2 ^ b
  lines_eq : (cacheLinesPerWay size linesize ways).toNat = 2 ^ i

namespace GeometryWords

/-- The members of a geometry of powers of two. -/
structure Regular (g : GeometryWords) (b i : ℕ) : Prop where
  bits : b + i < 32
  linesize : g.linesize.toNat = 2 ^ b
  boffsetm : g.boffsetm.toNat = 2 ^ b - 1
  boffsetb : g.boffsetb.toNat = b
  indexm : g.indexm.toNat = 2 ^ i - 1
  indexb : g.indexb.toNat = i

theorem new_regular {size linesize : BitVec 32} {ways : BitVec 8} {b i : ℕ}
    (hpow : PowersOfTwo size linesize ways b i) : (new size linesize ways).Regular b i := by
  obtain ⟨hline, hlines⟩ := hpow
  have hbits : b + i < 32 := by
    have hmul : 2 ^ (b + i) < 2 ^ 32 := by
      calc
        2 ^ (b + i) = linesize.toNat * (cacheLinesPerWay size linesize ways).toNat := by
          rw [pow_add, hline, hlines]
        _ ≤ linesize.toNat * (size.toNat / linesize.toNat) := by
          apply Nat.mul_le_mul_left
          rw [cacheLinesPerWay, BitVec.toNat_udiv, BitVec.toNat_udiv]
          exact Nat.div_le_self _ _
        _ ≤ size.toNat := Nat.mul_div_le _ _
        _ < 2 ^ 32 := size.isLt
    exact (Nat.pow_lt_pow_iff_right (by decide)).mp hmul
  have hone (word : BitVec 32) {n : ℕ} (hword : word.toNat = 2 ^ n) :
      (word - 1).toNat = 2 ^ n - 1 := by
    have hpos := Nat.two_pow_pos n
    have hlt := word.isLt
    rw [BitVec.toNat_sub, hword]
    have hunit : (1 : BitVec 32).toNat = 1 := rfl
    omega
  have hlog (word : BitVec 32) {n : ℕ} (hn : n < 32) (hword : word.toNat = 2 ^ n) :
      (BitVec.ofNat 8 (Bus.Vmunit64.boundLog2 word.toNat)).toNat = n := by
    rw [hword, Bus.Vmunit64.boundLog2_two_pow, BitVec.toNat_ofNat]
    omega
  exact ⟨hbits, hline, hone _ hline, hlog _ (by omega) hline, hone _ hlines,
    hlog _ (by omega) hlines⟩

variable {g : GeometryWords} {b i : ℕ} {addr : Word64} {mTags : Word64 → Word64}

/-! ## Bits -/

/-- A mask of the lowest bits. -/
theorem getLsbD_mask {word : BitVec 32} {n : ℕ} (hword : word.toNat = 2 ^ n - 1) (k : ℕ)
    (hk : k < 64) : (word.setWidth 64).getLsbD k = decide (k < n) := by
  have hbit : word.getLsbD k = (2 ^ n - 1).testBit k := by
    rw [← hword]
    rfl
  rw [BitVec.getLsbD_setWidth, hbit, Nat.testBit_two_pow_sub_one, decide_eq_true hk,
    Bool.true_and]

theorem getLsbD_cleared (hg : g.Regular b i) (addr : Word64) {k : ℕ} (hk : k < 64) :
    (g.cleared addr).getLsbD k = (addr.getLsbD k && decide (b ≤ k)) := by
  rw [cleared, BitVec.getLsbD_and, BitVec.getLsbD_not, getLsbD_mask hg.boffsetm k hk,
    decide_eq_true hk, Bool.true_and, ← decide_not]
  simp only [Nat.not_lt]

theorem getLsbD_index (hg : g.Regular b i) (addr : Word64) {k : ℕ} (hk : k < 64) :
    (g.index addr).getLsbD k = (addr.getLsbD (b + k) && decide (k < i)) := by
  rw [index, BitVec.getLsbD_and, BitVec.getLsbD_ushiftRight, getLsbD_mask hg.indexm k hk,
    hg.boffsetb]

theorem getLsbD_tag (hg : g.Regular b i) (addr : Word64) (k : ℕ) :
    (g.tag addr).getLsbD k = addr.getLsbD (b + i + k) := by
  rw [tag, BitVec.getLsbD_ushiftRight, hg.boffsetb, hg.indexb]

theorem getLsbD_lineAddr (hg : g.Regular b i) (addr : Word64) {k : ℕ} (hk : k < 64) :
    (g.lineAddr addr).getLsbD k = (addr.getLsbD k && decide (b ≤ k ∧ k < 32)) := by
  have hmask : (g.linesize - 1).toNat = 2 ^ b - 1 := by
    have hpos := Nat.two_pow_pos b
    have hlt := g.linesize.isLt
    have hunit : (1 : BitVec 32).toNat = 1 := rfl
    have hline := hg.linesize
    rw [BitVec.toNat_sub]
    omega
  rw [lineAddr, BitVec.getLsbD_and, BitVec.getLsbD_setWidth, BitVec.getLsbD_not]
  congr 1
  by_cases hword : k < 32
  · have hbit : (g.linesize - 1).getLsbD k = decide (k < b) := by
      have hwide := getLsbD_mask hmask k hk
      rw [BitVec.getLsbD_setWidth, decide_eq_true hk, Bool.true_and] at hwide
      exact hwide
    rw [hbit, decide_eq_true hword]
    by_cases hblock : b ≤ k
    · simp [hk, hword, hblock, Nat.not_lt.mpr hblock]
    · simp [hk, hblock, Nat.lt_of_not_le hblock]
  · rw [decide_eq_false hword]
    simp [hword]

/-! ## Splitting and rebuilding -/

/-- A line that was inserted is rebuilt at its address. -/
theorem rebuildAddress_insert (hg : g.Regular b i) (mTags : Word64 → Word64) (addr : Word64) :
    g.rebuildAddress (g.insert mTags addr) (g.index addr) = g.cleared addr := by
  apply BitVec.eq_of_getLsbD_eq
  intro k hk
  rw [getLsbD_cleared hg addr hk, rebuildAddress, insert, Function.update_self, BitVec.getLsbD_or,
    BitVec.getLsbD_shiftLeft, BitVec.getLsbD_shiftLeft, getLsbD_tag hg, hg.boffsetb, hg.indexb,
    decide_eq_true hk, Bool.true_and, Bool.true_and]
  by_cases hoffset : k < b
  · have hbelow : k < i + b := by omega
    have hnot : ¬b ≤ k := Nat.not_le.mpr hoffset
    simp [hoffset, hbelow, hnot]
  · have hindex : (g.index addr).getLsbD (k - b) = (addr.getLsbD k && decide (k - b < i)) := by
      have hplace : b + (k - b) = k := by omega
      rw [getLsbD_index hg addr (by omega), hplace]
    have habove : b ≤ k := Nat.not_lt.mp hoffset
    rw [hindex]
    by_cases hcolumn : k - b < i
    · have hbelow : k < i + b := by omega
      simp [hoffset, hbelow, hcolumn, habove]
    · have hbeyond : ¬k < i + b := by omega
      have hplace : b + i + (k - (i + b)) = k := by omega
      rw [hplace]
      simp [hoffset, hbeyond, hcolumn, habove]

/-- The fetched address is the rebuilt one on the first four gigabytes only. -/
theorem lineAddr_eq_cleared_iff (hg : g.Regular b i) (addr : Word64) :
    g.lineAddr addr = g.cleared addr ↔ addr.toNat < 2 ^ 32 := by
  constructor
  · intro heq
    apply Nat.lt_pow_two_of_testBit
    intro k hk
    by_cases hword : k < 64
    · have hbit := congrArg (fun word => word.getLsbD k) heq
      have habove : b ≤ k := by
        have hbits := hg.bits
        omega
      have hbeyond : ¬(b ≤ k ∧ k < 32) := by omega
      simp only [getLsbD_lineAddr hg addr hword, getLsbD_cleared hg addr hword,
        decide_eq_false hbeyond, decide_eq_true habove, Bool.and_false, Bool.and_true] at hbit
      exact hbit.symm
    · exact BitVec.getLsbD_of_ge addr k (Nat.not_lt.mp hword)
  · intro hlow
    apply BitVec.eq_of_getLsbD_eq
    intro k hk
    rw [getLsbD_lineAddr hg addr hk, getLsbD_cleared hg addr hk]
    by_cases hword : k < 32
    · simp [hword]
    · have hbit : addr.getLsbD k = false := by
        apply Nat.testBit_lt_two_pow
        exact hlow.trans_le (Nat.pow_le_pow_right (by decide) (Nat.not_lt.mp hword))
      rw [hbit, Bool.false_and, Bool.false_and]

/-- The parts of an address with its offset bits cleared. -/
theorem index_cleared (hg : g.Regular b i) (addr : Word64) :
    g.index (g.cleared addr) = g.index addr := by
  apply BitVec.eq_of_getLsbD_eq
  intro k hk
  rw [getLsbD_index hg _ hk, getLsbD_index hg _ hk]
  by_cases hword : b + k < 64
  · rw [getLsbD_cleared hg addr hword, decide_eq_true (Nat.le_add_right b k), Bool.and_true]
  · rw [BitVec.getLsbD_of_ge _ _ (Nat.not_lt.mp hword),
      BitVec.getLsbD_of_ge _ _ (Nat.not_lt.mp hword)]

theorem tag_cleared (hg : g.Regular b i) (addr : Word64) :
    g.tag (g.cleared addr) = g.tag addr := by
  apply BitVec.eq_of_getLsbD_eq
  intro k hk
  have hblock : b ≤ b + i + k := by omega
  rw [getLsbD_tag hg, getLsbD_tag hg]
  by_cases hword : b + i + k < 64
  · rw [getLsbD_cleared hg addr hword, decide_eq_true hblock, Bool.and_true]
  · rw [BitVec.getLsbD_of_ge _ _ (Nat.not_lt.mp hword),
      BitVec.getLsbD_of_ge _ _ (Nat.not_lt.mp hword)]

theorem mem_sends {sent : Word64} : sent ∈ g.sends addr ↔ sent = g.lineAddr addr := by
  constructor
  · rintro (heq | ⟨dlength, heq⟩ | heq | heq) <;> exact heq
  · exact fun heq => Or.inl heq

/-- All accesses go to one address on the first four gigabytes only. -/
theorem oneAddress_iff (hg : g.Regular b i) (mTags : Word64 → Word64) (addr : Word64) :
    g.OneAddress mTags addr ↔ addr.toNat < 2 ^ 32 := by
  rw [← lineAddr_eq_cleared_iff hg]
  constructor
  · intro hone
    rw [← rebuildAddress_insert hg mTags addr]
    exact hone.sent _ (mem_sends.mpr rfl)
  · intro heq
    constructor
    · intro sent hsent
      rw [rebuildAddress_insert hg, mem_sends.mp hsent]
      exact heq
    · intro sent hsent
      rw [mem_sends.mp hsent, heq]
      exact ⟨index_cleared hg addr, tag_cleared hg addr⟩

/-! ## The split as numbers -/

/-- The geometry of the caches by its numbers of bits. -/
def toGeometry (hg : g.Regular b i) (ways : ℕ) (hways : 0 < ways) : Geometry where
  boffsetb := b
  indexb := i
  ways := ways
  boffsetb_lt := (Nat.le_add_right b i).trans_lt hg.bits
  ways_pos := hways

theorem toNat_offset (hg : g.Regular b i) {ways : ℕ} (hways : 0 < ways) (addr : Word64) :
    (g.offset addr).toNat = (toGeometry hg ways hways).offset addr.toNat := by
  have hwide : g.boffsetm.toNat < 2 ^ 64 := g.boffsetm.isLt.trans (by decide)
  rw [offset, BitVec.toNat_and, BitVec.toNat_setWidth, Nat.mod_eq_of_lt hwide, hg.boffsetm]
  rfl

theorem toNat_index (hg : g.Regular b i) {ways : ℕ} (hways : 0 < ways) (addr : Word64) :
    (g.index addr).toNat = (toGeometry hg ways hways).index addr.toNat := by
  have hwide : g.indexm.toNat < 2 ^ 64 := g.indexm.isLt.trans (by decide)
  rw [index, BitVec.toNat_and, BitVec.toNat_setWidth, Nat.mod_eq_of_lt hwide, hg.indexm,
    BitVec.toNat_ushiftRight, hg.boffsetb]
  rfl

theorem toNat_tag (hg : g.Regular b i) {ways : ℕ} (hways : 0 < ways) (addr : Word64) :
    (g.tag addr).toNat = (toGeometry hg ways hways).tag addr.toNat := by
  rw [tag, BitVec.toNat_ushiftRight, hg.boffsetb, hg.indexb]
  rfl

/-- An address is the number that its parts make up. -/
theorem toNat_of_split (hg : g.Regular b i) (addr : Word64) :
    addr.toNat = ((g.tag addr).toNat * 2 ^ i + (g.index addr).toNat) * 2 ^ b +
      (g.offset addr).toNat := by
  have hways : 0 < 1 := Nat.one_pos
  have hline := (toGeometry hg 1 hways).tag_mul_columns_add_index addr.toNat
  rw [← toNat_tag, ← toNat_index] at hline
  have hparts := Nat.div_add_mod' addr.toNat (toGeometry hg 1 hways).linesize
  rw [← Geometry.offset_eq, ← toNat_offset, ← Geometry.line, ← hline] at hparts
  exact hparts.symm

theorem split_mapsTo (hg : g.Regular b i) : Set.MapsTo g.split Set.univ g.parts := by
  intro addr _
  have hways : 0 < 1 := Nat.one_pos
  refine ⟨?_, ?_, ?_⟩
  · rw [hg.boffsetb, hg.indexb]
    change (addr >>> (g.boffsetb.toNat + g.indexb.toNat)).toNat < _
    rw [BitVec.toNat_ushiftRight, hg.boffsetb, hg.indexb, Nat.shiftRight_eq_div_pow]
    apply Nat.div_lt_of_lt_mul
    have hsum : b + i + (64 - (b + i)) = 64 := by
      have hbits := hg.bits
      omega
    rw [← pow_add, hsum]
    exact addr.isLt
  · rw [hg.indexb]
    exact (toNat_index hg hways addr).trans_lt (Geometry.index_lt _ _)
  · rw [hg.boffsetb]
    exact (toNat_offset hg hways addr).trans_lt (Geometry.offset_lt _ _)

theorem split_injective (hg : g.Regular b i) : Function.Injective g.split := by
  intro addr other heq
  have htag : g.tag addr = g.tag other := congrArg Parts.tag heq
  have hindex : g.index addr = g.index other := congrArg Parts.index heq
  have hoffset : g.offset addr = g.offset other := congrArg Parts.offset heq
  apply BitVec.eq_of_toNat_eq
  rw [toNat_of_split hg addr, toNat_of_split hg other, htag, hindex, hoffset]

/-- A number made up of a quotient and a remainder. -/
theorem quotient_remainder (quotient : ℕ) {remainder n : ℕ} (hlt : remainder < 2 ^ n) :
    (quotient * 2 ^ n + remainder) / 2 ^ n = quotient ∧
      (quotient * 2 ^ n + remainder) % 2 ^ n = remainder := by
  constructor
  · rw [Nat.mul_comm, Nat.mul_add_div (Nat.two_pow_pos n), Nat.div_eq_of_lt hlt, Nat.add_zero]
  · rw [Nat.mul_comm, Nat.mul_add_mod, Nat.mod_eq_of_lt hlt]

theorem make_up_lt {quotient remainder m n : ℕ} (hquotient : quotient < 2 ^ m)
    (hremainder : remainder < 2 ^ n) : quotient * 2 ^ n + remainder < 2 ^ (m + n) := by
  calc
    quotient * 2 ^ n + remainder < quotient * 2 ^ n + 2 ^ n := Nat.add_lt_add_left hremainder _
    _ = (quotient + 1) * 2 ^ n := (Nat.succ_mul _ _).symm
    _ ≤ 2 ^ m * 2 ^ n := Nat.mul_le_mul_right _ hquotient
    _ = 2 ^ (m + n) := (pow_add 2 m n).symm

/-- Parts in their ranges are those of the number that they make up. -/
theorem split_surjOn (hg : g.Regular b i) : Set.SurjOn g.split Set.univ g.parts := by
  intro p hp
  obtain ⟨htag, hindex, hoffset⟩ := hp
  rw [hg.boffsetb, hg.indexb] at htag
  rw [hg.indexb] at hindex
  rw [hg.boffsetb] at hoffset
  have hline : p.tag.toNat * 2 ^ i + p.index.toNat < 2 ^ (64 - b) := by
    have hsum : 64 - (b + i) + i = 64 - b := by
      have hbits := hg.bits
      omega
    rw [← hsum]
    exact make_up_lt htag hindex
  have hall : (p.tag.toNat * 2 ^ i + p.index.toNat) * 2 ^ b + p.offset.toNat < 2 ^ 64 := by
    have hsum : 64 - b + b = 64 := by
      have hbits := hg.bits
      omega
    have hlast := make_up_lt hline hoffset
    rw [hsum] at hlast
    exact hlast
  obtain ⟨hquotient, hremainder⟩ :=
    quotient_remainder (p.tag.toNat * 2 ^ i + p.index.toNat) hoffset
  obtain ⟨htags, hindexes⟩ := quotient_remainder p.tag.toNat hindex
  have hways : 0 < 1 := Nat.one_pos
  let addr : Word64 :=
    BitVec.ofNat 64 ((p.tag.toNat * 2 ^ i + p.index.toNat) * 2 ^ b + p.offset.toNat)
  have haddr : addr.toNat =
      (p.tag.toNat * 2 ^ i + p.index.toNat) * 2 ^ b + p.offset.toNat := by
    rw [BitVec.toNat_ofNat, Nat.mod_eq_of_lt hall]
  have hnumber : (toGeometry hg 1 hways).line addr.toNat =
      p.tag.toNat * 2 ^ i + p.index.toNat := by
    rw [haddr]
    exact hquotient
  refine ⟨addr, Set.mem_univ addr, ?_⟩
  ext1
  · apply BitVec.eq_of_toNat_eq
    refine (toNat_tag hg hways addr).trans ?_
    rw [Geometry.tag_eq, hnumber]
    exact htags
  · apply BitVec.eq_of_toNat_eq
    refine (toNat_index hg hways addr).trans ?_
    rw [Geometry.index_eq, hnumber]
    exact hindexes
  · apply BitVec.eq_of_toNat_eq
    refine (toNat_offset hg hways addr).trans ?_
    rw [Geometry.offset_eq, haddr]
    exact hremainder

/-- The split is a bijection onto the parts that addresses have. -/
theorem split_bijOn (hg : g.Regular b i) : Set.BijOn g.split Set.univ g.parts :=
  ⟨split_mapsTo hg, (split_injective hg).injOn, split_surjOn hg⟩

end GeometryWords

/-! ## The constructed geometries -/

/-- In a geometry of powers of two the split is a bijection, a line is rebuilt at its address with
the offset bits cleared, and all accesses go there exactly for the addresses below four
gigabytes. -/
theorem addresses_agree_iff {size linesize : BitVec 32} {ways : BitVec 8} {b i : ℕ}
    (hpow : PowersOfTwo size linesize ways b i) :
    Set.BijOn (GeometryWords.new size linesize ways).split Set.univ
        (GeometryWords.new size linesize ways).parts ∧
      ∀ (mTags : Word64 → Word64) (addr : Word64),
        (GeometryWords.new size linesize ways).rebuildAddress
            ((GeometryWords.new size linesize ways).insert mTags addr)
            ((GeometryWords.new size linesize ways).index addr) =
          (GeometryWords.new size linesize ways).cleared addr ∧
        ((GeometryWords.new size linesize ways).OneAddress mTags addr ↔ addr.toNat < 2 ^ 32) := by
  have hg := GeometryWords.new_regular hpow
  refine ⟨GeometryWords.split_bijOn hg, fun mTags addr => ⟨?_, ?_⟩⟩
  · exact GeometryWords.rebuildAddress_insert hg mTags addr
  · exact GeometryWords.oneAddress_iff hg mTags addr

/-- 32 KiB in four ways of lines of 32 bytes. -/
theorem addresses_agree_iff_32k :
    (GeometryWords.new 0x8000 32 4).OneAddress (fun _ => 0) 0xFFFFFFFF ∧
      ¬(GeometryWords.new 0x8000 32 4).OneAddress (fun _ => 0) 0x100000000 := by
  have hpow : PowersOfTwo 0x8000 32 4 5 8 := ⟨rfl, by decide⟩
  obtain ⟨-, hagree⟩ := addresses_agree_iff hpow
  constructor
  · exact (hagree (fun _ => 0) 0xFFFFFFFF).2.mpr (by decide)
  · intro hone
    have hlow := (hagree (fun _ => 0) 0x100000000).2.mp hone
    exact absurd hlow (by decide)

/-- A line at four gigabytes is fetched from address zero. -/
theorem not_addresses_agree :
    ¬∀ (size linesize : BitVec 32) (ways : BitVec 8) (b i : ℕ),
      PowersOfTwo size linesize ways b i → ∀ (mTags : Word64 → Word64) (addr : Word64),
        (GeometryWords.new size linesize ways).OneAddress mTags addr := by
  intro hagree
  have hpow : PowersOfTwo 0x8000 32 4 5 8 := ⟨rfl, by decide⟩
  have hlow := (GeometryWords.oneAddress_iff (GeometryWords.new_regular hpow) (fun _ => 0)
    0x100000000).mp (hagree 0x8000 32 4 5 8 hpow (fun _ => 0) 0x100000000)
  exact absurd hlow (by decide)

end Prazor.Caches
