import Prazor.Core.Guarded
import Prazor.Core.Payload
import Prazor.Core.RadixTree
import Prazor.Core.SlotPool

/-!
# The virtual memory unit

The unit walks a multi-level page table that it builds as it goes, and gives a
page the next physical frame when it is first translated.  `mconfig`, which is
not part of the repository, supplies the width of the address space, the size
of the memory and the number of cores in a socket.  Reading or writing outside
the `levels` array or a table, an undefined shift and a failing assertion are
`none`.
-/

namespace Prazor.Bus.Vmunit64

/-- `getbits`: `n` bits of `x` from bit `p` downwards. -/
def getbits (x p n : Word64) : Word64 :=
  (x >>> (p + 1 - n)) &&& ~~~((~~~(0 : Word64)) <<< n)

/-- `bound_log2`. -/
def boundLog2 (d : ℕ) : ℕ :=
  if 1 < d then boundLog2 (d / 2) + 1 else 0

/-- `pow_2`: `1 << pow` on an `int`. -/
def pow2 (pow : ℕ) : Option ℕ := if pow < 31 then some (2 ^ pow) else none

/-- What the constructor is given.  A page size is a power of two.  No
constructor sets `total_physmem`. -/
structure Config where
  addrSpaceBits : BitVec 16
  nlevels : BitVec 16
  pageBits : ℕ
  physmemSize : Word64
  coresPerSocket : ℕ
  totalPhysmem : Word64
  nlevels_pos : 0 < nlevels.toNat
  pageBits_lt : pageBits < 64
  coresPerSocket_pos : 0 < coresPerSocket

namespace Config

def pagesize (config : Config) : Word64 := BitVec.ofNat 64 (2 ^ config.pageBits)

/-- `addr_space_bits - page_bits`, as a `u64_t`. -/
def vfnBits (config : Config) : Word64 :=
  config.addrSpaceBits.setWidth 64 -
    BitVec.ofNat 64 (boundLog2 config.pagesize.toNat)

/-- `(u32_t) ceil(vfn_bits / nlevels)`: the division is one of integers. -/
def bitsPerLevel (config : Config) : ℕ :=
  config.vfnBits.toNat / config.nlevels.toNat % 2 ^ 32

end Config

/-- `pt_level_t`. -/
structure PtLevel where
  size : ℕ
  logSize : ℕ
  isLeaf : Bool
  deriving DecidableEq

/-- The loop of the constructor, with the room left in `levels` and the bits
already spent. -/
def buildLevels (vfnBits bitsPerLevel : ℕ) : ℕ → ℕ → Option (List PtLevel)
  | 0, _ => none
  | room + 1, bits =>
      if vfnBits ≤ (bits + bitsPerLevel) % 2 ^ 32 then
        (pow2 (vfnBits - bits)).map fun size =>
          [{ size := size, logSize := vfnBits - bits, isLeaf := true }]
      else
        (pow2 bitsPerLevel).bind fun size =>
          (buildLevels vfnBits bitsPerLevel room
            ((bits + bitsPerLevel) % 2 ^ 32)).map fun rest =>
              { size := size, logSize := bitsPerLevel, isLeaf := false } :: rest

/-- The `levels` array. -/
def levels (config : Config) : Option (List PtLevel) :=
  buildLevels config.vfnBits.toNat config.bitsPerLevel config.nlevels.toNat 0

/-- `pte_t`. -/
structure Pte where
  vfn : Word64
  pfn : Word64
  node : BitVec 32
  valid : Bool
  modified : Bool
  deriving DecidableEq

/-- `pt_new_pte`. -/
def ptNewPte (vfn : Word64) : Pte :=
  { vfn := vfn, pfn := -1, node := -1, valid := false, modified := false }

/-- The tables, the page table entries in the order they were made (a table
holds their numbers), and the members of `page_fault_sequential`. -/
structure Unit64 where
  rootTable : RadixTree ℕ
  ptes : List Pte
  physmem : List ℕ
  lastPage : Word64

/-- The unit as constructed. -/
def start : Unit64 :=
  { rootTable := .empty, ptes := [], physmem := [], lastPage := 0 }

/-- `pt_lookup_helper` on the levels from the one of this table on; `fresh` is
the number of the entry it makes if there is none. -/
def ptLookupHelper (vfnBits : Word64) (fresh : ℕ) :
    List PtLevel → Word64 → Word64 → RadixTree ℕ → Option (RadixTree ℕ × ℕ)
  | [], _, _, _ => none
  | level :: rest, bits, mask, pages =>
      let logSize := BitVec.ofNat 64 level.logSize
      let index := (getbits mask (vfnBits - bits - 1) logSize).toNat
      let bits := bits + logSize
      let mask := getbits mask (vfnBits - bits - 1) (vfnBits - bits)
      if index < level.size then
        if level.isLeaf then
          match pages.entries index with
          | none =>
              some (.table (Function.update pages.entries index
                (some (.leaf fresh))), fresh)
          | some (.leaf pte) => some (pages, pte)
          | some (.table _) => none
        else
          let child := (pages.entries index).getD .empty
          (ptLookupHelper vfnBits fresh rest bits mask child).map
            fun (child, pte) =>
              (.table (Function.update pages.entries index (some child)), pte)
      else
        none

/-- `vaddr_to_vfn`. -/
def vaddrToVfn (config : Config) (vAdr : Word64) : Word64 :=
  getbits vAdr (config.addrSpaceBits.setWidth 64 - 1) config.vfnBits

/-- `pt_lookup_vaddr`. -/
def ptLookupVaddr (config : Config) (levels : List PtLevel) (unit : Unit64)
    (vfn : Word64) : Option (Unit64 × ℕ) :=
  (ptLookupHelper config.vfnBits unit.ptes.length levels 0 vfn
    unit.rootTable).map fun (rootTable, pte) =>
      ({ unit with
          rootTable := rootTable
          ptes := if pte = unit.ptes.length then unit.ptes ++ [ptNewPte vfn]
            else unit.ptes }, pte)

/-- `page_fault_sequential::handler` and `load_page`, on the entry with number
`id`; the number of physical pages they compare with is the size in bytes. -/
def handler (config : Config) (unit : Unit64) (id : ℕ) (pte : Pte) :
    Option Unit64 :=
  let phn := unit.lastPage
  if phn ≤ config.physmemSize ∧ phn < config.physmemSize ∧ pte.valid = false ∧
      ∀ other ∈ unit.physmem, (unit.ptes[other]?).map Pte.pfn ≠ some phn then
    some { unit with
      ptes := unit.ptes.set id
        { pte with pfn := phn, modified := false, valid := true }
      physmem := unit.physmem ++ [id]
      lastPage := phn + 1 }
  else
    none

/-- The address `xlat` computes from a valid entry. -/
def physicalAddress (config : Config) (pte : Pte) (vAdr : Word64) : Word64 :=
  let width := config.addrSpaceBits.setWidth 64 - config.vfnBits
  (pte.pfn * config.pagesize + getbits vAdr (width - 1) width) |||
    (pte.node <<< boundLog2 config.totalPhysmem.toNat).setWidth 64

/-- `xlat`; a `u32_t` is shifted by less than its width. -/
def xlat (config : Config) (levels : List PtLevel) (unit : Unit64)
    (vAdr : Word64) (coreno : BitVec 32) : Option (Unit64 × Word64) :=
  (ptLookupVaddr config levels unit (vaddrToVfn config vAdr)).bind
    fun (unit, id) =>
      (unit.ptes[id]?).bind fun pte =>
        let nodeno := BitVec.ofNat 32 (coreno.toNat / config.coresPerSocket)
        let faulted : Option Unit64 :=
          if pte.valid then some unit
          else handler config unit id { pte with node := nodeno }
        faulted.bind fun unit =>
          (unit.ptes[id]?).bind fun pte =>
            if boundLog2 config.totalPhysmem.toNat < 32 then
              some (unit, physicalAddress config pte vAdr)
            else
              none

/-- `is_page_fault`. -/
def isPageFault (config : Config) (levels : List PtLevel) (unit : Unit64)
    (addr : Word64) : Option (Unit64 × Bool) :=
  (ptLookupVaddr config levels unit (vaddrToVfn config addr)).bind
    fun (unit, id) => (unit.ptes[id]?).map fun pte => (unit, !pte.valid)

/-! ## Bits -/

theorem toNat_getbits (x p n : Word64) :
    (getbits x p n).toNat = x.toNat / 2 ^ (p + 1 - n).toNat % 2 ^ n.toNat := by
  rw [getbits, BitVec.ushiftRight_eq', BitVec.shiftLeft_eq']
  generalize (p + 1 - n).toNat = shift
  generalize n.toNat = count
  apply Nat.eq_of_testBit_eq
  intro bit
  rw [BitVec.testBit_toNat, Nat.testBit_mod_two_pow, Nat.testBit_div_two_pow,
    BitVec.testBit_toNat, Nat.add_comm bit shift]
  simp only [BitVec.getLsbD_and, BitVec.getLsbD_ushiftRight, BitVec.getLsbD_not,
    BitVec.getLsbD_shiftLeft]
  by_cases hbit : bit < 64
  · by_cases hcount : bit < count
    · simp [hbit, hcount]
    · have hlow : bit - count < 64 := by omega
      simp [hbit, hcount, hlow]
  · have hhigh : x.getLsbD (shift + bit) = false :=
      BitVec.getLsbD_of_ge x _ (by omega)
    simp [hhigh]

theorem boundLog2_two_pow (pow : ℕ) : boundLog2 (2 ^ pow) = pow := by
  induction pow with
  | zero => simp [boundLog2]
  | succ pow ih =>
      have hlarge : 1 < 2 ^ (pow + 1) := Nat.one_lt_two_pow (Nat.succ_ne_zero pow)
      rw [boundLog2, if_pos hlarge, pow_succ, Nat.mul_div_cancel _ (by omega), ih]

/-! ## The level array -/

/-- The levels fit in the array, and each table in an `int` of entries: the
number of levels divides the bits of a frame number into parts of at most 30,
and a page is no larger than the address space. -/
structure Config.Divides (config : Config) : Prop where
  pageBits_le : config.pageBits ≤ config.addrSpaceBits.toNat
  dvd : config.nlevels.toNat ∣ config.addrSpaceBits.toNat - config.pageBits
  small : (config.addrSpaceBits.toNat - config.pageBits) / config.nlevels.toNat ≤ 30

theorem toNat_pagesize (config : Config) :
    config.pagesize.toNat = 2 ^ config.pageBits := by
  rw [Config.pagesize, BitVec.toNat_ofNat, Nat.mod_eq_of_lt]
  exact Nat.pow_lt_pow_right (by omega) config.pageBits_lt

theorem toNat_vfnBits {config : Config}
    (hle : config.pageBits ≤ config.addrSpaceBits.toNat) :
    config.vfnBits.toNat = config.addrSpaceBits.toNat - config.pageBits := by
  have hbits := config.addrSpaceBits.isLt
  have hpage := config.pageBits_lt
  rw [Config.vfnBits, toNat_pagesize, boundLog2_two_pow, BitVec.toNat_sub,
    BitVec.toNat_setWidth, BitVec.toNat_ofNat]
  omega

/-- What the loop leaves in the array: tables of the right size, the last one
and only the last a leaf. -/
def Shaped : List PtLevel → Prop
  | [] => False
  | [level] => level.isLeaf = true ∧ level.size = 2 ^ level.logSize
  | level :: rest =>
      level.isLeaf = false ∧ level.size = 2 ^ level.logSize ∧ Shaped rest

theorem pow2_eq_some {pow size : ℕ} (hpow : pow2 pow = some size) :
    size = 2 ^ pow ∧ pow < 31 := by
  rw [pow2] at hpow
  split at hpow
  case isTrue hlt => exact ⟨(Option.some.inj hpow).symm, hlt⟩
  case isFalse => simp at hpow

theorem buildLevels_shaped {vfnBits bitsPerLevel room bits : ℕ}
    {built : List PtLevel} (hsmall : vfnBits < 2 ^ 16)
    (hbits : bits ≤ vfnBits) (hper : bitsPerLevel ≤ vfnBits)
    (hbuilt : buildLevels vfnBits bitsPerLevel room bits = some built) :
    Shaped built ∧ (built.map PtLevel.logSize).sum = vfnBits - bits := by
  induction room generalizing bits built with
  | zero => simp [buildLevels] at hbuilt
  | succ room ih =>
      have hmod : (bits + bitsPerLevel) % 2 ^ 32 = bits + bitsPerLevel :=
        Nat.mod_eq_of_lt (by omega)
      rw [buildLevels, hmod] at hbuilt
      split at hbuilt
      case isTrue =>
        obtain ⟨size, hsize, rfl⟩ := Option.map_eq_some_iff.mp hbuilt
        exact ⟨⟨rfl, (pow2_eq_some hsize).1⟩, by simp⟩
      case isFalse hmore =>
        obtain ⟨size, hsize, hmap⟩ := Option.bind_eq_some_iff.mp hbuilt
        obtain ⟨rest, hrest, rfl⟩ := Option.map_eq_some_iff.mp hmap
        obtain ⟨hshaped, hsum⟩ := ih (by omega) hrest
        cases rest with
        | nil => exact hshaped.elim
        | cons next rest =>
            refine ⟨⟨rfl, (pow2_eq_some hsize).1, hshaped⟩, ?_⟩
            rw [List.map_cons, List.sum_cons, hsum]
            show bitsPerLevel + (vfnBits - (bits + bitsPerLevel)) = vfnBits - bits
            omega

/-- When the parts are equal the array has room for all levels. -/
theorem buildLevels_room {vfnBits bitsPerLevel room bits : ℕ}
    (hsmall : vfnBits < 2 ^ 16) (hpart : bitsPerLevel ≤ 30) (hroom : 0 < room)
    (hsum : bits + room * bitsPerLevel = vfnBits) :
    ∃ built, buildLevels vfnBits bitsPerLevel room bits = some built := by
  induction room generalizing bits with
  | zero => omega
  | succ room ih =>
      rw [Nat.succ_mul] at hsum
      have hmod : (bits + bitsPerLevel) % 2 ^ 32 = bits + bitsPerLevel :=
        Nat.mod_eq_of_lt (by omega)
      rw [buildLevels, hmod]
      split
      case isTrue hlast =>
        have hpow : vfnBits - bits < 31 := by omega
        rw [pow2, if_pos hpow]
        exact ⟨_, rfl⟩
      case isFalse hmore =>
        have hroom' : 0 < room := by
          rcases Nat.eq_zero_or_pos room with rfl | hpos
          · omega
          · exact hpos
        have hsum' : bits + bitsPerLevel + room * bitsPerLevel = vfnBits := by
          omega
        obtain ⟨rest, hrest⟩ := ih hroom' hsum'
        rw [pow2, if_pos (by omega), hrest]
        exact ⟨_, rfl⟩

/-- No array is ever built for parts that are not equal. -/
theorem buildLevels_bound {vfnBits bitsPerLevel room bits : ℕ}
    {built : List PtLevel}
    (hbuilt : buildLevels vfnBits bitsPerLevel room bits = some built) :
    vfnBits ≤ bits + room * bitsPerLevel := by
  induction room generalizing bits built with
  | zero => simp [buildLevels] at hbuilt
  | succ room ih =>
      rw [Nat.succ_mul]
      have hmod := Nat.mod_le (bits + bitsPerLevel) (2 ^ 32)
      rw [buildLevels] at hbuilt
      split at hbuilt
      case isTrue hlast => omega
      case isFalse =>
        obtain ⟨size, -, hmap⟩ := Option.bind_eq_some_iff.mp hbuilt
        obtain ⟨rest, hrest, -⟩ := Option.map_eq_some_iff.mp hmap
        have := ih hrest
        omega

theorem levels_of_divides {config : Config} (hdivides : config.Divides) :
    ∃ built, levels config = some built ∧ Shaped built ∧
      (built.map PtLevel.logSize).sum =
        config.addrSpaceBits.toNat - config.pageBits := by
  rw [levels, toNat_vfnBits hdivides.pageBits_le]
  have hper : config.bitsPerLevel =
      (config.addrSpaceBits.toNat - config.pageBits) / config.nlevels.toNat := by
    rw [Config.bitsPerLevel, toNat_vfnBits hdivides.pageBits_le]
    have hsmall := hdivides.small
    exact Nat.mod_eq_of_lt (by omega)
  rw [hper]
  have hdvd := hdivides.dvd
  have hpart := hdivides.small
  have hsmall : config.addrSpaceBits.toNat - config.pageBits < 2 ^ 16 :=
    (Nat.sub_le _ _).trans_lt config.addrSpaceBits.isLt
  generalize config.addrSpaceBits.toNat - config.pageBits = vfnBits at *
  have hsum : 0 + config.nlevels.toNat * (vfnBits / config.nlevels.toNat) =
      vfnBits := by
    rw [Nat.zero_add, Nat.mul_div_cancel' hdvd]
  obtain ⟨built, hbuilt⟩ :=
    buildLevels_room hsmall hpart config.nlevels_pos hsum
  exact ⟨built, hbuilt,
    buildLevels_shaped hsmall (Nat.zero_le _) (Nat.div_le_self _ _) hbuilt⟩

/-! ## The walk -/

/-- The widths of the digits of a frame number. -/
def widths (levels : List PtLevel) : List ℕ := levels.map PtLevel.logSize

section Walk

variable {vfnBits bits : Word64} {level : PtLevel} {rest : List PtLevel}

theorem toNat_remaining {left : ℕ} (hbits : bits.toNat + left = vfnBits.toNat) :
    (vfnBits - bits).toNat = left := by
  rw [BitVec.toNat_sub]
  omega

/-- The bits left after one level. -/
theorem toNat_bits_next
    (hbits : bits.toNat + (widths (level :: rest)).sum = vfnBits.toNat)
    (hsmall : vfnBits.toNat < 2 ^ 16) :
    (bits + BitVec.ofNat 64 level.logSize).toNat + (widths rest).sum =
      vfnBits.toNat := by
  have hsum : (widths (level :: rest)).sum = level.logSize + (widths rest).sum :=
    rfl
  rw [BitVec.toNat_add, BitVec.toNat_ofNat]
  omega

/-- The index is the most significant digit. -/
theorem toNat_index {mask : Word64}
    (hbits : bits.toNat + (widths (level :: rest)).sum = vfnBits.toNat)
    (hsmall : vfnBits.toNat < 2 ^ 16)
    (hmask : mask.toNat < 2 ^ (widths (level :: rest)).sum) :
    (getbits mask (vfnBits - bits - 1) (BitVec.ofNat 64 level.logSize)).toNat =
      mask.toNat / 2 ^ (widths rest).sum ∧
      mask.toNat / 2 ^ (widths rest).sum < 2 ^ level.logSize := by
  have hsum : (widths (level :: rest)).sum = level.logSize + (widths rest).sum :=
    rfl
  have hlt : mask.toNat / 2 ^ (widths rest).sum < 2 ^ level.logSize := by
    rw [Nat.div_lt_iff_lt_mul (Nat.two_pow_pos _), ← pow_add, ← hsum]
    exact hmask
  have hlog : (BitVec.ofNat 64 level.logSize).toNat = level.logSize := by
    rw [BitVec.toNat_ofNat]
    omega
  have hshift : (vfnBits - bits - 1 + 1 - BitVec.ofNat 64 level.logSize).toNat =
      (widths rest).sum := by
    rw [sub_add_cancel, BitVec.toNat_sub, toNat_remaining hbits, hlog]
    omega
  refine ⟨?_, hlt⟩
  rw [toNat_getbits, hshift, hlog, Nat.mod_eq_of_lt hlt]

/-- The new mask is the rest of the digits. -/
theorem toNat_mask_next (mask : Word64)
    (hbits : bits.toNat + (widths (level :: rest)).sum = vfnBits.toNat)
    (hsmall : vfnBits.toNat < 2 ^ 16) :
    (getbits mask (vfnBits - (bits + BitVec.ofNat 64 level.logSize) - 1)
        (vfnBits - (bits + BitVec.ofNat 64 level.logSize))).toNat =
      mask.toNat % 2 ^ (widths rest).sum := by
  rw [toNat_getbits, sub_add_cancel, sub_self,
    toNat_remaining (toNat_bits_next hbits hsmall)]
  simp

/-- The walk finds the entry the digits of the frame number lead to, or makes it
there. -/
theorem ptLookupHelper_spec {levels : List PtLevel} {mask : Word64} {fresh : ℕ}
    {pages : RadixTree ℕ} (hshaped : Shaped levels)
    (hbits : bits.toNat + (widths levels).sum = vfnBits.toNat)
    (hsmall : vfnBits.toNat < 2 ^ 16)
    (hmask : mask.toNat < 2 ^ (widths levels).sum)
    (hdeep : pages = .empty ∨ pages.Deep levels.length) :
    ptLookupHelper vfnBits fresh levels bits mask pages =
      some (match pages.find (Digits.split (widths levels) mask.toNat) with
        | some pte => (pages, pte)
        | none => (pages.insert fresh (Digits.split (widths levels) mask.toNat),
            fresh)) := by
  induction levels generalizing bits mask pages with
  | nil => exact hshaped.elim
  | cons level rest ih =>
      obtain ⟨hindex, hlt⟩ := toNat_index hbits hsmall hmask
      obtain ⟨htable, hchildren⟩ := RadixTree.deep_entries hdeep
      have hsize : level.size = 2 ^ level.logSize := by
        cases rest with
        | nil => exact hshaped.2
        | cons next rest => exact hshaped.2.1
      rw [← hsize] at hlt
      have hmask' := toNat_mask_next mask hbits hsmall
      have hbits' := toNat_bits_next hbits hsmall
      have hsplit : Digits.split (widths (level :: rest)) mask.toNat =
          mask.toNat / 2 ^ (widths rest).sum ::
            Digits.split (widths rest) (mask.toNat % 2 ^ (widths rest).sum) := rfl
      simp only [ptLookupHelper, hindex, if_pos hlt, hsplit, RadixTree.find,
        RadixTree.insert]
      generalize mask.toNat / 2 ^ (widths rest).sum = digit
      cases rest with
      | nil =>
          simp only [hshaped.1, if_true]
          have hnil : Digits.split (widths []) (mask.toNat % 2 ^ (widths []).sum) =
              [] := rfl
          rw [hnil]
          cases hentry : pages.entries digit with
          | none => rfl
          | some child =>
              cases child with
              | leaf pte => rfl
              | table entries => exact (hchildren digit _ hentry).elim
      | cons next rest =>
          simp only [hshaped.1, Bool.false_eq_true, if_false]
          have hpos : 0 < 2 ^ (widths (next :: rest)).sum := Nat.two_pow_pos _
          have hchild : (pages.entries digit).getD .empty = .empty ∨
              ((pages.entries digit).getD .empty).Deep (next :: rest).length := by
            cases hentry : pages.entries digit with
            | none => exact Or.inl rfl
            | some child => exact Or.inr (hchildren digit child hentry)
          rw [ih hshaped.2.2 hbits' (hmask' ▸ Nat.mod_lt _ hpos) hchild, hmask']
          generalize Digits.split (widths (next :: rest))
            (mask.toNat % 2 ^ (widths (next :: rest)).sum) = digits
          cases hentry : pages.entries digit with
          | none =>
              simp only [Option.getD_none, RadixTree.find_empty, Option.bind_none,
                Option.map_some]
          | some child =>
              simp only [Option.getD_some, Option.bind_some]
              cases hfind : child.find digits with
              | none => rfl
              | some pte =>
                  simp only [Option.map_some]
                  rw [← hentry, Function.update_eq_self, htable]

end Walk

/-! ## The invariant -/

/-- The number of the virtual page an address lies in. -/
def page (config : Config) (vAdr : Word64) : ℕ := (vaddrToVfn config vAdr).toNat

theorem page_eq {config : Config} (hdivides : config.Divides) (vAdr : Word64) :
    page config vAdr = vAdr.toNat / 2 ^ config.pageBits %
      2 ^ (config.addrSpaceBits.toNat - config.pageBits) := by
  have hle := hdivides.pageBits_le
  have hwidth := config.addrSpaceBits.isLt
  have hvfn := toNat_vfnBits hle
  have hshift : (config.addrSpaceBits.setWidth 64 - 1 + 1 -
      config.vfnBits).toNat = config.pageBits := by
    rw [sub_add_cancel, BitVec.toNat_sub, BitVec.toNat_setWidth, hvfn]
    omega
  rw [page, vaddrToVfn, toNat_getbits, hshift, hvfn]

theorem page_lt {config : Config} (hdivides : config.Divides) (vAdr : Word64) :
    page config vAdr < 2 ^ (config.addrSpaceBits.toNat - config.pageBits) := by
  rw [page_eq hdivides]
  exact Nat.mod_lt _ (Nat.two_pow_pos _)

/-- The entry of a page, if it has been made. -/
def pteOf (levels : List PtLevel) (unit : Unit64) (key : ℕ) : Option Pte :=
  (unit.rootTable.find (Digits.split (widths levels) key)).bind
    fun id => unit.ptes[id]?

/-- Shifting the node number above the memory loses none of it; node 0 may be
shifted anywhere. -/
def NodeFits (config : Config) (node : BitVec 32) : Prop :=
  node = 0 ∨
    (config.physmemSize.toNat ≤ 2 ^ boundLog2 config.totalPhysmem.toNat ∧
      node.toNat * 2 ^ boundLog2 config.totalPhysmem.toNat < 2 ^ 32)

/-- The frame of an entry lies in the memory. -/
structure Placed (config : Config) (pte : Pte) : Prop where
  frame : (pte.pfn.toNat + 1) * 2 ^ config.pageBits ≤ config.physmemSize.toNat
  node : NodeFits config pte.node

/-- The valid entries are a pool of frames, keyed by virtual page. -/
structure Inv (config : Config) (levels : List PtLevel) (unit : Unit64)
    (pool : SlotPool ℕ) : Prop where
  deep : unit.rootTable = .empty ∨ unit.rootTable.Deep levels.length
  entries : ∀ key id, key < 2 ^ (widths levels).sum →
    unit.rootTable.find (Digits.split (widths levels) key) = some id →
      ∃ pte, unit.ptes[id]? = some pte ∧ pte.vfn.toNat = key
  poolInv : pool.Inv
  free : pool.free = []
  next : pool.next = unit.lastPage.toNat
  slots : ∀ key, key < 2 ^ (widths levels).sum → pool.slotOf key =
    ((pteOf levels unit key).filter Pte.valid).map fun pte => pte.pfn.toNat
  placed : ∀ (id : ℕ) pte, unit.ptes[id]? = some pte → pte.valid = true →
    Placed config pte
  loaded : ∀ id ∈ unit.physmem, ∃ pte, unit.ptes[id]? = some pte ∧
    pte.pfn.toNat < unit.lastPage.toNat

/-- Valid entries stay as they are. -/
def Keeps (levels : List PtLevel) (unit next : Unit64) : Prop :=
  ∀ key pte, key < 2 ^ (widths levels).sum → pteOf levels unit key = some pte →
    pte.valid = true → pteOf levels next key = some pte

section Steps

variable {config : Config} {levels : List PtLevel} {unit : Unit64}
  {pool : SlotPool ℕ}

theorem start_inv (config : Config) (levels : List PtLevel) :
    Inv config levels start SlotPool.empty where
  deep := Or.inl rfl
  entries key id _ hfind := by
    rw [start, RadixTree.find_empty] at hfind
    exact absurd hfind (by simp)
  poolInv := SlotPool.empty_inv
  free := rfl
  next := rfl
  slots key _ := by
    rw [pteOf, start, RadixTree.find_empty]
    rfl
  placed _ _ hpte := by simp [start] at hpte
  loaded _ hid := by simp [start] at hid

/-- The walk makes the entry if there is none, and changes nothing else. -/
theorem ptLookupVaddr_spec (hinv : Inv config levels unit pool)
    (hshaped : Shaped levels) (hsum : (widths levels).sum = config.vfnBits.toNat)
    (hsmall : config.vfnBits.toNat < 2 ^ 16) {vfn : Word64}
    (hvfn : vfn.toNat < 2 ^ (widths levels).sum) :
    ∃ next id pte, ptLookupVaddr config levels unit vfn = some (next, id) ∧
      Inv config levels next pool ∧ Keeps levels unit next ∧
      next.lastPage = unit.lastPage ∧
      next.rootTable.find (Digits.split (widths levels) vfn.toNat) = some id ∧
      next.ptes[id]? = some pte := by
  have hbits : (0 : Word64).toNat + (widths levels).sum =
      config.vfnBits.toNat := by
    rw [hsum]
    exact Nat.zero_add _
  have hwalk := @ptLookupHelper_spec config.vfnBits 0 levels vfn
    unit.ptes.length unit.rootTable hshaped hbits hsmall hvfn hinv.deep
  rw [ptLookupVaddr, hwalk]
  cases hfind : unit.rootTable.find (Digits.split (widths levels) vfn.toNat) with
  | some id =>
      obtain ⟨pte, hpte, -⟩ := hinv.entries vfn.toNat id hvfn hfind
      have hlt : id < unit.ptes.length := (List.getElem?_eq_some_iff.mp hpte).1
      refine ⟨unit, id, pte, ?_, hinv, fun _ _ _ hkey _ => hkey, rfl, hfind, hpte⟩
      simp [Nat.ne_of_lt hlt]
  | none =>
      set digits := Digits.split (widths levels) vfn.toNat with hdigits
      have hlength : digits.length = levels.length := by
        rw [hdigits, Digits.length_split, widths, List.length_map]
      have hother : ∀ key, key < 2 ^ (widths levels).sum → key ≠ vfn.toNat →
          (unit.rootTable.insert unit.ptes.length digits).find
              (Digits.split (widths levels) key) =
            unit.rootTable.find (Digits.split (widths levels) key) := by
        intro key hkey hne
        refine RadixTree.find_insert_of_ne _ ?_ ?_ _
        · rw [hdigits, Digits.length_split, Digits.length_split]
        · exact fun heq => hne (Digits.split_injective hkey hvfn heq)
      have hold : ∀ (id : ℕ) pte, unit.ptes[id]? = some pte →
          (unit.ptes ++ [ptNewPte vfn])[id]? = some pte := by
        intro id pte hpte
        rw [List.getElem?_append_left (List.getElem?_eq_some_iff.mp hpte).1, hpte]
      have hnew : (unit.ptes ++ [ptNewPte vfn])[unit.ptes.length]? =
          some (ptNewPte vfn) := by
        simp
      let next : Unit64 :=
        { unit with
          rootTable := unit.rootTable.insert unit.ptes.length digits
          ptes := unit.ptes ++ [ptNewPte vfn] }
      have hself : pteOf levels next vfn.toNat = some (ptNewPte vfn) := by
        rw [pteOf, ← hdigits, RadixTree.find_insert_self, Option.bind_some, hnew]
      have hothers : ∀ key, key < 2 ^ (widths levels).sum → key ≠ vfn.toNat →
          pteOf levels next key = pteOf levels unit key := by
        intro key hkey hne
        rw [pteOf, pteOf, hother key hkey hne]
        cases hid : unit.rootTable.find (Digits.split (widths levels) key) with
        | none => rfl
        | some id =>
            obtain ⟨pte, hpte, -⟩ := hinv.entries key id hkey hid
            rw [Option.bind_some, Option.bind_some, hpte]
            exact hold id pte hpte
      have hnone : pteOf levels unit vfn.toNat = none := by
        rw [pteOf, ← hdigits, hfind, Option.bind_none]
      refine ⟨next, unit.ptes.length, ptNewPte vfn, by simp [next], ?_, ?_, rfl,
        RadixTree.find_insert_self _ _ _, hnew⟩
      · constructor
        case deep =>
          right
          rw [← hlength]
          exact RadixTree.deep_insert _ _ (hlength ▸ hinv.deep)
        case entries =>
          intro key id hkey hid
          by_cases hne : key = vfn.toNat
          · subst hne
            rw [← hdigits, RadixTree.find_insert_self, Option.some.injEq] at hid
            exact ⟨ptNewPte vfn, hid ▸ hnew, rfl⟩
          · rw [hother key hkey hne] at hid
            obtain ⟨pte, hpte, hkeyOf⟩ := hinv.entries key id hkey hid
            exact ⟨pte, hold id pte hpte, hkeyOf⟩
        case poolInv => exact hinv.poolInv
        case free => exact hinv.free
        case next => exact hinv.next
        case slots =>
          intro key hkey
          rw [hinv.slots key hkey]
          by_cases hne : key = vfn.toNat
          · subst hne
            rw [hself, hnone]
            rfl
          · rw [hothers key hkey hne]
        case placed =>
          intro id pte hpte hvalid
          rcases Nat.lt_or_ge id unit.ptes.length with hlt | hge
          · rw [List.getElem?_append_left hlt] at hpte
            exact hinv.placed id pte hpte hvalid
          · rw [List.getElem?_append_right hge, List.getElem?_singleton] at hpte
            split at hpte
            · rw [← Option.some.inj hpte] at hvalid
              exact absurd hvalid (by simp [ptNewPte])
            · simp at hpte
        case loaded =>
          intro id hid
          obtain ⟨pte, hpte, hlt⟩ := hinv.loaded id hid
          exact ⟨pte, hold id pte hpte, hlt⟩
      · intro key pte hkey hpte hvalid
        by_cases hne : key = vfn.toNat
        · subst hne
          simp [hnone] at hpte
        · rw [hothers key hkey hne, hpte]

/-- The entry a page's digits lead to, with its number. -/
theorem pteOf_eq {key id : ℕ} {pte : Pte}
    (hfind : unit.rootTable.find (Digits.split (widths levels) key) = some id)
    (hpte : unit.ptes[id]? = some pte) : pteOf levels unit key = some pte := by
  rw [pteOf, hfind, Option.bind_some, hpte]

/-- A page without a valid entry has no frame. -/
theorem Inv.slotOf_eq_none (hinv : Inv config levels unit pool) {key : ℕ}
    {pte : Pte} (hkey : key < 2 ^ (widths levels).sum)
    (hpte : pteOf levels unit key = some pte) (hvalid : pte.valid = false) :
    pool.slotOf key = none := by
  rw [hinv.slots key hkey, hpte]
  simp [hvalid]

theorem Inv.slotOf_eq_some (hinv : Inv config levels unit pool) {key : ℕ}
    {pte : Pte} (hkey : key < 2 ^ (widths levels).sum)
    (hpte : pteOf levels unit key = some pte) (hvalid : pte.valid = true) :
    pool.slotOf key = some pte.pfn.toNat := by
  rw [hinv.slots key hkey, hpte]
  simp [hvalid]

/-! ### The next frame is given to an entry -/

/-- The entry with the next frame. -/
def given (unit : Unit64) (pte : Pte) : Pte :=
  { pte with pfn := unit.lastPage, modified := false, valid := true }

/-- The unit after `handler`. -/
def give (unit : Unit64) (id : ℕ) (pte : Pte) : Unit64 :=
  { unit with
    ptes := unit.ptes.set id (given unit pte)
    physmem := unit.physmem ++ [id]
    lastPage := unit.lastPage + 1 }

theorem give_self {id : ℕ} {old : Pte} (pte : Pte) (hold : unit.ptes[id]? = some old) :
    (give unit id pte).ptes[id]? = some (given unit pte) := by
  have hlength : id < unit.ptes.length := (List.getElem?_eq_some_iff.mp hold).1
  simp [give, List.getElem?_set_self hlength]

theorem give_of_ne {id other : ℕ} (hne : other ≠ id) (pte : Pte) :
    (give unit id pte).ptes[other]? = unit.ptes[other]? :=
  List.getElem?_set_ne hne.symm

/-- The frames given lie below the next one, and the memory is that large. -/
theorem lastPage_succ (hroom : (unit.lastPage.toNat + 1) * 2 ^ config.pageBits ≤
      config.physmemSize.toNat) :
    unit.lastPage.toNat + 1 ≤ config.physmemSize.toNat ∧
      (unit.lastPage + 1).toNat = unit.lastPage.toNat + 1 := by
  have hle : unit.lastPage.toNat + 1 ≤ config.physmemSize.toNat := by
    calc
      unit.lastPage.toNat + 1 ≤
          (unit.lastPage.toNat + 1) * 2 ^ config.pageBits :=
        Nat.le_mul_of_pos_right _ (Nat.two_pow_pos _)
      _ ≤ config.physmemSize.toNat := hroom
  have hsize := config.physmemSize.isLt
  refine ⟨hle, ?_⟩
  rw [BitVec.toNat_add]
  exact Nat.mod_eq_of_lt (hle.trans_lt hsize)

/-- The next frame is free and in the memory, so the handler gives it. -/
theorem Inv.handler_eq (hinv : Inv config levels unit pool) (id : ℕ) (pte : Pte)
    (hinvalid : pte.valid = false)
    (hle : unit.lastPage.toNat + 1 ≤ config.physmemSize.toNat) :
    handler config unit id pte = some (give unit id pte) := by
  have hnew : ∀ other ∈ unit.physmem,
      (unit.ptes[other]?).map Pte.pfn ≠ some unit.lastPage := by
    intro other hother heq
    obtain ⟨used, hused, hbelow⟩ := hinv.loaded other hother
    rw [hused, Option.map_some, Option.some.injEq] at heq
    rw [heq] at hbelow
    exact hbelow.false
  have hatMost : unit.lastPage ≤ config.physmemSize := by
    rw [BitVec.le_def]
    omega
  have hless : unit.lastPage < config.physmemSize := by
    rw [BitVec.lt_def]
    omega
  rw [handler, if_pos ⟨hatMost, hless, hinvalid, hnew⟩]
  rfl

/-- No two pages share an entry. -/
theorem Inv.entry_alone (hinv : Inv config levels unit pool) {key other id : ℕ}
    (hkey : key < 2 ^ (widths levels).sum)
    (hfind : unit.rootTable.find (Digits.split (widths levels) key) = some id)
    (hother : other < 2 ^ (widths levels).sum) (hne : other ≠ key) :
    unit.rootTable.find (Digits.split (widths levels) other) ≠ some id := by
  intro hsame
  obtain ⟨left, hleft, hleftKey⟩ := hinv.entries other id hother hsame
  obtain ⟨right, hright, hrightKey⟩ := hinv.entries key id hkey hfind
  rw [hleft, Option.some.injEq] at hright
  rw [← hleftKey, ← hrightKey, hright] at hne
  exact hne rfl

/-- The entries of other pages stay. -/
theorem Inv.pteOf_give (hinv : Inv config levels unit pool) {key other id : ℕ}
    (hkey : key < 2 ^ (widths levels).sum)
    (hfind : unit.rootTable.find (Digits.split (widths levels) key) = some id)
    (hother : other < 2 ^ (widths levels).sum) (hne : other ≠ key) (pte : Pte) :
    pteOf levels (give unit id pte) other = pteOf levels unit other := by
  have htable : (give unit id pte).rootTable = unit.rootTable := rfl
  rw [pteOf, pteOf, htable]
  cases hid : unit.rootTable.find (Digits.split (widths levels) other) with
  | none => rfl
  | some found =>
      have hfound : found ≠ id := fun heq =>
        hinv.entry_alone hkey hfind hother hne (heq ▸ hid)
      exact give_of_ne hfound pte

/-- The page has taken the next frame of the pool. -/
theorem Inv.give (hinv : Inv config levels unit pool) {key id : ℕ} {old pte : Pte}
    (hkey : key < 2 ^ (widths levels).sum)
    (hfind : unit.rootTable.find (Digits.split (widths levels) key) = some id)
    (hold : unit.ptes[id]? = some old) (hinvalid : old.valid = false) (hvfn : pte.vfn = old.vfn)
    (hroom : (unit.lastPage.toNat + 1) * 2 ^ config.pageBits ≤
      config.physmemSize.toNat)
    (hnode : NodeFits config pte.node) :
    Inv config levels (give unit id pte) (pool.assign key).1 := by
  obtain ⟨-, hsucc⟩ := lastPage_succ hroom
  have hself := give_self pte hold
  have hnone := hinv.slotOf_eq_none hkey (pteOf_eq hfind hold) hinvalid
  have hpool : (pool.assign key).1 =
      { slotOf := Function.update pool.slotOf key (some pool.next)
        free := []
        next := pool.next + 1 } := by
    simp only [SlotPool.assign, hnone, hinv.free]
  constructor
  case deep => exact hinv.deep
  case entries =>
    intro other found hother hid
    by_cases hsame : found = id
    · subst hsame
      by_cases hne : other = key
      · obtain ⟨pte', hpte', hkeyOf⟩ := hinv.entries other found hother hid
        rw [hold, Option.some.injEq] at hpte'
        refine ⟨given unit pte, hself, ?_⟩
        rw [← hkeyOf, ← hpte', ← hvfn]
        rfl
      · exact absurd hid (hinv.entry_alone hkey hfind hother hne)
    · rw [give_of_ne hsame]
      exact hinv.entries other found hother hid
  case poolInv => exact hinv.poolInv.assign key
  case free => rw [hpool]
  case next =>
    rw [hpool]
    show pool.next + 1 = (unit.lastPage + 1).toNat
    rw [hsucc, hinv.next]
  case slots =>
    intro other hother
    simp only [hpool]
    by_cases hne : other = key
    · subst hne
      have hgiven : pteOf levels (Vmunit64.give unit id pte) other = some (given unit pte) :=
        pteOf_eq hfind hself
      rw [hgiven, Function.update_self, hinv.next]
      rfl
    · rw [Function.update_of_ne hne, hinv.pteOf_give hkey hfind hother hne]
      exact hinv.slots other hother
  case placed =>
    intro other used hused hvalid
    by_cases hsame : other = id
    · subst hsame
      rw [hself, Option.some.injEq] at hused
      subst hused
      exact ⟨hroom, hnode⟩
    · rw [give_of_ne hsame] at hused
      exact hinv.placed other used hused hvalid
  case loaded =>
    intro other hother
    show ∃ used, (Vmunit64.give unit id pte).ptes[other]? = some used ∧
      used.pfn.toNat < (unit.lastPage + 1).toNat
    rw [hsucc]
    by_cases hsame : other = id
    · subst hsame
      exact ⟨given unit pte, hself, Nat.lt_succ_self _⟩
    · rw [give_of_ne hsame]
      have hbefore : other ∈ unit.physmem := by
        rcases List.mem_append.mp hother with hbefore | hlast
        · exact hbefore
        · exact absurd (List.mem_singleton.mp hlast) hsame
      obtain ⟨used, hused, hbelow⟩ := hinv.loaded other hbefore
      exact ⟨used, hused, hbelow.trans (Nat.lt_succ_self _)⟩

/-- Only an entry that was not valid is changed. -/
theorem Inv.keeps_give (hinv : Inv config levels unit pool) {key id : ℕ} {old : Pte}
    (hkey : key < 2 ^ (widths levels).sum)
    (hfind : unit.rootTable.find (Digits.split (widths levels) key) = some id)
    (hold : unit.ptes[id]? = some old) (hinvalid : old.valid = false) (pte : Pte) :
    Keeps levels unit (Vmunit64.give unit id pte) := by
  intro other used hother hused hvalid
  by_cases hne : other = key
  · subst hne
    rw [pteOf_eq hfind hold, Option.some.injEq] at hused
    rw [← hused, hinvalid] at hvalid
    exact absurd hvalid (by simp)
  · rw [hinv.pteOf_give hkey hfind hother hne, hused]

/-- A page fault is served with the next frame. -/
theorem handler_spec (hinv : Inv config levels unit pool) {key id : ℕ} {pte : Pte}
    (hkey : key < 2 ^ (widths levels).sum)
    (hfind : unit.rootTable.find (Digits.split (widths levels) key) = some id)
    (hpte : unit.ptes[id]? = some pte) (hinvalid : pte.valid = false)
    (hroom : (unit.lastPage.toNat + 1) * 2 ^ config.pageBits ≤
      config.physmemSize.toNat)
    {node : BitVec 32} (hnode : NodeFits config node) :
    ∃ next loaded, handler config unit id { pte with node := node } = some next ∧
      Inv config levels next (pool.assign key).1 ∧ Keeps levels unit next ∧
      next.rootTable = unit.rootTable ∧ next.ptes[id]? = some loaded ∧
      loaded.valid = true :=
  ⟨Vmunit64.give unit id { pte with node := node }, given unit { pte with node := node },
    hinv.handler_eq id _ hinvalid (lastPage_succ hroom).1,
    hinv.give hkey hfind hpte hinvalid rfl hroom hnode,
    hinv.keeps_give hkey hfind hpte hinvalid _, rfl, give_self _ hpte, rfl⟩

/-- The level array the constructor left for this unit. -/
structure Ready (config : Config) (levels : List PtLevel) : Prop where
  divides : config.Divides
  shaped : Shaped levels
  sum : (widths levels).sum = config.addrSpaceBits.toNat - config.pageBits

theorem Ready.page_lt (hready : Ready config levels) (vAdr : Word64) :
    page config vAdr < 2 ^ (widths levels).sum := by
  rw [hready.sum]
  exact Vmunit64.page_lt hready.divides vAdr

theorem Ready.lookup (hready : Ready config levels)
    (hinv : Inv config levels unit pool) (vAdr : Word64) :
    ∃ next id pte,
      ptLookupVaddr config levels unit (vaddrToVfn config vAdr) =
        some (next, id) ∧
      Inv config levels next pool ∧ Keeps levels unit next ∧
      next.lastPage = unit.lastPage ∧
      next.rootTable.find (Digits.split (widths levels) (page config vAdr)) =
        some id ∧ next.ptes[id]? = some pte := by
  have hvfnBits := toNat_vfnBits hready.divides.pageBits_le
  have hsmall : config.vfnBits.toNat < 2 ^ 16 := by
    rw [hvfnBits]
    exact (Nat.sub_le _ _).trans_lt config.addrSpaceBits.isLt
  exact ptLookupVaddr_spec hinv hready.shaped (hready.sum.trans hvfnBits.symm)
    hsmall (hready.page_lt vAdr)

/-- The node a core belongs to. -/
def nodeno (config : Config) (coreno : BitVec 32) : BitVec 32 :=
  BitVec.ofNat 32 (coreno.toNat / config.coresPerSocket)

theorem xlat_spec (hready : Ready config levels)
    (hinv : Inv config levels unit pool)
    (hshift : boundLog2 config.totalPhysmem.toNat < 32) {vAdr : Word64}
    {coreno : BitVec 32}
    (hroom : pool.slotOf (page config vAdr) = none →
      (unit.lastPage.toNat + 1) * 2 ^ config.pageBits ≤
          config.physmemSize.toNat ∧
        NodeFits config (nodeno config coreno)) :
    ∃ next pte,
      xlat config levels unit vAdr coreno =
        some (next, physicalAddress config pte vAdr) ∧
      Inv config levels next (pool.assign (page config vAdr)).1 ∧
      Keeps levels unit next ∧
      pteOf levels next (page config vAdr) = some pte ∧ pte.valid = true := by
  obtain ⟨found, id, pte, hlookup, hinv', hkeeps, hlast, hfind, hpte⟩ :=
    hready.lookup hinv vAdr
  have hkey := hready.page_lt vAdr
  rw [xlat, hlookup, Option.bind_some]
  simp only [hpte, Option.bind_some, if_pos hshift]
  cases hvalid : pte.valid with
  | true =>
      have hslot := hinv'.slotOf_eq_some hkey (pteOf_eq hfind hpte) hvalid
      refine ⟨found, pte, by simp [hpte], ?_, hkeeps, pteOf_eq hfind hpte, hvalid⟩
      simpa only [SlotPool.assign, hslot] using hinv'
  | false =>
      have hnone := hinv'.slotOf_eq_none hkey (pteOf_eq hfind hpte) hvalid
      obtain ⟨hfits, hnode⟩ := hroom hnone
      obtain ⟨next, loaded, hhandler, hnext, hkeeps', hroot, hloaded, hvalid'⟩ :=
        handler_spec hinv' hkey hfind hpte hvalid (hlast ▸ hfits) hnode
      have hhandler' : handler config found id
          { pte with node := BitVec.ofNat 32 (coreno.toNat / config.coresPerSocket) } =
            some next := hhandler
      rw [← hvalid, hhandler']
      refine ⟨next, loaded, by simp [hvalid, hloaded], hnext, ?_,
        pteOf_eq (hroot ▸ hfind) hloaded, hvalid'⟩
      intro key old hold hpteOf hvalidOld
      exact hkeeps' key old hold (hkeeps key old hold hpteOf hvalidOld) hvalidOld

theorem isPageFault_spec (hready : Ready config levels)
    (hinv : Inv config levels unit pool) (addr : Word64) :
    ∃ next fault, isPageFault config levels unit addr = some (next, fault) ∧
      Inv config levels next pool ∧ Keeps levels unit next ∧
      (fault = true ↔ pool.slotOf (page config addr) = none) := by
  obtain ⟨found, id, pte, hlookup, hinv', hkeeps, -, hfind, hpte⟩ :=
    hready.lookup hinv addr
  have hkey := hready.page_lt addr
  rw [isPageFault, hlookup, Option.bind_some]
  simp only [hpte, Option.map_some]
  refine ⟨found, !pte.valid, rfl, hinv', hkeeps, ?_⟩
  cases hvalid : pte.valid with
  | true =>
      simp [hinv'.slotOf_eq_some hkey (pteOf_eq hfind hpte) hvalid]
  | false =>
      simp [hinv'.slotOf_eq_none hkey (pteOf_eq hfind hpte) hvalid]

end Steps

/-! ## The address of a placed entry -/

section Address

variable {config : Config} {pte : Pte}

/-- The frame, the offset and the node lie side by side. -/
theorem toNat_physicalAddress (hdivides : config.Divides)
    (hplaced : Placed config pte) (vAdr : Word64) :
    (physicalAddress config pte vAdr).toNat =
      pte.pfn.toNat * 2 ^ config.pageBits + vAdr.toNat % 2 ^ config.pageBits +
        pte.node.toNat * 2 ^ boundLog2 config.totalPhysmem.toNat := by
  have hvfn := toNat_vfnBits hdivides.pageBits_le
  have hle := hdivides.pageBits_le
  have hwidth := config.addrSpaceBits.isLt
  have hbits : (config.addrSpaceBits.setWidth 64 - config.vfnBits).toNat =
      config.pageBits := by
    rw [BitVec.toNat_sub, BitVec.toNat_setWidth, hvfn]
    omega
  have hoffset : (getbits vAdr
      (config.addrSpaceBits.setWidth 64 - config.vfnBits - 1)
      (config.addrSpaceBits.setWidth 64 - config.vfnBits)).toNat =
        vAdr.toNat % 2 ^ config.pageBits := by
    rw [toNat_getbits, sub_add_cancel, sub_self, hbits]
    simp
  have hlt : vAdr.toNat % 2 ^ config.pageBits < 2 ^ config.pageBits :=
    Nat.mod_lt _ (Nat.two_pow_pos _)
  have hframe := hplaced.frame
  rw [Nat.succ_mul] at hframe
  have hsize := config.physmemSize.isLt
  have hlow : (pte.pfn * config.pagesize + getbits vAdr
      (config.addrSpaceBits.setWidth 64 - config.vfnBits - 1)
      (config.addrSpaceBits.setWidth 64 - config.vfnBits)).toNat =
        pte.pfn.toNat * 2 ^ config.pageBits +
          vAdr.toNat % 2 ^ config.pageBits := by
    rw [BitVec.toNat_add, BitVec.toNat_mul, toNat_pagesize, hoffset,
      Nat.mod_eq_of_lt (show pte.pfn.toNat * 2 ^ config.pageBits < 2 ^ 64 by omega),
      Nat.mod_eq_of_lt (by omega)]
  simp only [physicalAddress, BitVec.toNat_or, hlow]
  rcases hplaced.node with hnode | ⟨hbig, hfits⟩
  · simp [hnode]
  · have hhigh : ((pte.node <<< boundLog2 config.totalPhysmem.toNat).setWidth
        64).toNat = 2 ^ boundLog2 config.totalPhysmem.toNat * pte.node.toNat := by
      rw [BitVec.toNat_setWidth, BitVec.toNat_shiftLeft, Nat.shiftLeft_eq,
        Nat.mod_eq_of_lt hfits, Nat.mod_eq_of_lt (by omega), Nat.mul_comm]
    rw [hhigh, Nat.or_comm, ← Nat.two_pow_add_eq_or_of_lt (by omega),
      Nat.add_comm, Nat.mul_comm _ pte.node.toNat]

/-- A node number goes a number of whole pages up: none, or a multiple of a
number of frames that the memory does not exceed. -/
theorem exists_node_pages (hplaced : Placed config pte) :
    ∃ pages, pte.node.toNat * 2 ^ boundLog2 config.totalPhysmem.toNat =
      pages * 2 ^ config.pageBits ∧
        (pages = 0 ∨ ∃ frames, pages = pte.node.toNat * frames ∧
          2 ^ boundLog2 config.totalPhysmem.toNat =
            frames * 2 ^ config.pageBits ∧
          config.physmemSize.toNat ≤ frames * 2 ^ config.pageBits) := by
  rcases hplaced.node with hnode | ⟨hbig, -⟩
  · exact ⟨0, by simp [hnode], Or.inl rfl⟩
  · have hle : config.pageBits ≤ boundLog2 config.totalPhysmem.toNat := by
      rw [← Nat.pow_le_pow_iff_right (a := 2) (by omega)]
      calc
        2 ^ config.pageBits ≤ (pte.pfn.toNat + 1) * 2 ^ config.pageBits :=
          Nat.le_mul_of_pos_left _ (Nat.succ_pos _)
        _ ≤ config.physmemSize.toNat := hplaced.frame
        _ ≤ 2 ^ boundLog2 config.totalPhysmem.toNat := hbig
    have hsplit : 2 ^ boundLog2 config.totalPhysmem.toNat =
        2 ^ (boundLog2 config.totalPhysmem.toNat - config.pageBits) *
          2 ^ config.pageBits := by
      rw [← pow_add, Nat.sub_add_cancel hle]
    refine ⟨_, ?_, Or.inr ⟨_, rfl, hsplit, hsplit ▸ hbig⟩⟩
    rw [Nat.mul_assoc, ← hsplit]

theorem pfn_lt_frames (hplaced : Placed config pte) {frames : ℕ}
    (hframes : config.physmemSize.toNat ≤ frames * 2 ^ config.pageBits) :
    pte.pfn.toNat < frames :=
  Nat.le_of_mul_le_mul_right (hplaced.frame.trans hframes) (Nat.two_pow_pos _)

theorem offset_physicalAddress (hdivides : config.Divides)
    (hplaced : Placed config pte) (vAdr : Word64) :
    (physicalAddress config pte vAdr).toNat % 2 ^ config.pageBits =
      vAdr.toNat % 2 ^ config.pageBits := by
  obtain ⟨pages, hpages, -⟩ := exists_node_pages hplaced
  rw [toNat_physicalAddress hdivides hplaced, hpages, Nat.add_mul_mod_self_right,
    Nat.add_comm, Nat.add_mul_mod_self_right, Nat.mod_mod]

/-- Entries with different frames give addresses in different pages. -/
theorem page_physicalAddress_ne (hdivides : config.Divides) {other : Pte}
    (hplaced : Placed config pte) (hother : Placed config other)
    (hne : pte.pfn.toNat ≠ other.pfn.toNat) (vAdr vAdr' : Word64) :
    (physicalAddress config pte vAdr).toNat / 2 ^ config.pageBits ≠
      (physicalAddress config other vAdr').toNat / 2 ^ config.pageBits := by
  have hpos : 0 < 2 ^ config.pageBits := Nat.two_pow_pos _
  obtain ⟨left, hleft, hleftPages⟩ := exists_node_pages hplaced
  obtain ⟨right, hright, hrightPages⟩ := exists_node_pages hother
  have hpage : ∀ frame offset pages : ℕ, offset < 2 ^ config.pageBits →
      (frame * 2 ^ config.pageBits + offset + pages * 2 ^ config.pageBits) /
        2 ^ config.pageBits = frame + pages := by
    intro frame offset pages hlt
    rw [Nat.add_mul_div_right _ _ hpos, Nat.add_comm (frame * _),
      Nat.add_mul_div_right _ _ hpos, Nat.div_eq_of_lt hlt, Nat.zero_add]
  rw [toNat_physicalAddress hdivides hplaced, toNat_physicalAddress hdivides hother,
    hleft, hright, hpage _ _ _ (Nat.mod_lt _ hpos), hpage _ _ _ (Nat.mod_lt _ hpos)]
  intro heq
  have hmod : ∀ frames a b, config.physmemSize.toNat ≤
      frames * 2 ^ config.pageBits → left = a * frames → right = b * frames →
        pte.pfn.toNat = other.pfn.toNat := by
    rintro frames a b hframes rfl rfl
    have hsame := congrArg (· % frames) heq
    simpa [Nat.add_mul_mod_self_right,
      Nat.mod_eq_of_lt (pfn_lt_frames hplaced hframes),
      Nat.mod_eq_of_lt (pfn_lt_frames hother hframes)] using hsame
  apply hne
  -- both nodes are 0, or one of them tells how many frames the memory has
  rcases hleftPages with rfl | ⟨frames, hl, hsplit, hframes⟩
  · rcases hrightPages with rfl | ⟨frames, hr, -, hframes⟩
    · exact heq
    · exact hmod frames 0 _ hframes (Nat.zero_mul _).symm hr
  · rcases hrightPages with rfl | ⟨frames', hr, hsplit', -⟩
    · exact hmod frames _ 0 hframes hl (Nat.zero_mul _).symm
    · have hsame : frames' = frames :=
        Nat.eq_of_mul_eq_mul_right hpos (hsplit'.symm.trans hsplit)
      exact hmod frames _ _ hframes hl (hsame ▸ hr)

end Address

/-! ## Runs -/

inductive Op where
  | xlat (vAdr : Word64) (coreno : BitVec 32)
  | isPageFault (addr : Word64)

/-- What was asked and answered. -/
inductive Entry where
  | translated (vAdr : Word64) (coreno : BitVec 32) (pAddr : Word64)
  | asked (addr : Word64) (fault : Bool)
  deriving DecidableEq

/-- The unit with the answers it has given, oldest first. -/
structure Logged where
  unit : Unit64
  log : List Entry

def step (config : Config) (levels : List PtLevel) (logged : Logged) :
    Op → Option Logged
  | .xlat vAdr coreno =>
      (xlat config levels logged.unit vAdr coreno).map fun (unit, pAddr) =>
        { unit := unit, log := logged.log ++ [.translated vAdr coreno pAddr] }
  | .isPageFault addr =>
      (isPageFault config levels logged.unit addr).map fun (unit, fault) =>
        { unit := unit, log := logged.log ++ [.asked addr fault] }

/-- The page has not been translated. -/
def Untouched (config : Config) (log : List Entry) (addr : Word64) : Prop :=
  ∀ vAdr coreno pAddr, .translated vAdr coreno pAddr ∈ log →
    page config vAdr ≠ page config addr

/-- What a virtual memory unit is for. -/
structure Translates (config : Config) (logged : Logged) : Prop where
  same : ∀ vAdr coreno coreno' pAddr pAddr',
    .translated vAdr coreno pAddr ∈ logged.log →
    .translated vAdr coreno' pAddr' ∈ logged.log → pAddr = pAddr'
  offset : ∀ vAdr coreno pAddr, .translated vAdr coreno pAddr ∈ logged.log →
    pAddr.toNat % 2 ^ config.pageBits = vAdr.toNat % 2 ^ config.pageBits
  apart : ∀ vAdr coreno pAddr vAdr' coreno' pAddr',
    .translated vAdr coreno pAddr ∈ logged.log →
    .translated vAdr' coreno' pAddr' ∈ logged.log →
    page config vAdr ≠ page config vAdr' →
    pAddr.toNat / 2 ^ config.pageBits ≠ pAddr'.toNat / 2 ^ config.pageBits
  inMemory : ∀ (id : ℕ) pte, logged.unit.ptes[id]? = some pte →
    pte.valid = true →
    (pte.pfn.toNat + 1) * 2 ^ config.pageBits ≤ config.physmemSize.toNat
  faults : ∀ before after addr fault,
    logged.log = before ++ .asked addr fault :: after →
    (fault = true ↔ Untouched config before addr)

/-- A page that is translated for the first time finds a frame left in the
memory, and its node number can be told from the frame. -/
def Enough (config : Config) (logged : Logged) : Op → Prop
  | .xlat vAdr coreno => Untouched config logged.log vAdr →
      (logged.unit.lastPage.toNat + 1) * 2 ^ config.pageBits ≤
          config.physmemSize.toNat ∧
        NodeFits config (nodeno config coreno)
  | .isPageFault _ => True

/-- The log and the pool of frames tell the same. -/
structure LogInv (config : Config) (levels : List PtLevel) (logged : Logged)
    (pool : SlotPool ℕ) : Prop where
  inv : Inv config levels logged.unit pool
  known : ∀ addr, pool.slotOf (page config addr) = none ↔
    Untouched config logged.log addr
  addresses : ∀ vAdr coreno pAddr, .translated vAdr coreno pAddr ∈ logged.log →
    ∃ pte, pteOf levels logged.unit (page config vAdr) = some pte ∧
      pte.valid = true ∧ pAddr = physicalAddress config pte vAdr
  faults : ∀ before after addr fault,
    logged.log = before ++ .asked addr fault :: after →
    (fault = true ↔ Untouched config before addr)

section Runs

variable {config : Config} {levels : List PtLevel}

theorem start_logInv (config : Config) (levels : List PtLevel) :
    LogInv config levels ⟨start, []⟩ SlotPool.empty where
  inv := start_inv config levels
  known _ := by simp [SlotPool.empty, Untouched]
  addresses _ _ _ hmem := by simp at hmem
  faults _ _ _ _ hlog := by simp at hlog

/-- An entry of a longer log is an old one with the same log before it, or the
new one. -/
theorem append_singleton_eq {log before after : List Entry} {new entry : Entry}
    (hlog : log ++ [new] = before ++ entry :: after) :
    (∃ rest, log = before ++ entry :: rest) ∨ log = before ∧ new = entry := by
  rcases List.eq_nil_or_concat after with rfl | ⟨rest, last, rfl⟩
  · right
    have hboth := List.append_inj' hlog rfl
    exact ⟨hboth.1, by simpa using hboth.2⟩
  · left
    refine ⟨rest, ?_⟩
    rw [List.concat_eq_append, ← List.cons_append, ← List.append_assoc] at hlog
    exact (List.append_inj' hlog rfl).1

theorem Untouched.append_asked {log : List Entry} {addr other : Word64}
    {fault : Bool} :
    Untouched config (log ++ [.asked other fault]) addr ↔
      Untouched config log addr := by
  simp [Untouched]

theorem xlat_logInv (hready : Ready config levels)
    (hshift : boundLog2 config.totalPhysmem.toNat < 32) {logged : Logged}
    {pool : SlotPool ℕ} (hinv : LogInv config levels logged pool)
    {vAdr : Word64} {coreno : BitVec 32}
    (henough : Enough config logged (.xlat vAdr coreno)) :
    ∃ next, step config levels logged (.xlat vAdr coreno) = some next ∧
      ∃ pool', LogInv config levels next pool' := by
  obtain ⟨next, pte, hxlat, hnext, hkeeps, hpte, hvalid⟩ :=
    xlat_spec hready hinv.inv hshift
      (fun hnone => henough ((hinv.known vAdr).mp hnone))
  refine ⟨_, by rw [step, hxlat, Option.map_some],
    (pool.assign (page config vAdr)).1, ?_⟩
  constructor
  case inv => exact hnext
  case known =>
    intro addr
    by_cases hsame : page config addr = page config vAdr
    · rw [hsame, SlotPool.assign_slot]
      refine iff_of_false (by simp) fun huntouched => ?_
      exact huntouched vAdr coreno (physicalAddress config pte vAdr) (by simp)
        hsame.symm
    · rw [SlotPool.assign_other pool hsame, hinv.known]
      simp only [Untouched, List.mem_append, List.mem_singleton,
        Entry.translated.injEq]
      refine ⟨fun hold => ?_, fun hnew other core pAddr hmem =>
        hnew other core pAddr (Or.inl hmem)⟩
      rintro other core pAddr (hmem | ⟨rfl, -, -⟩)
      · exact hold other core pAddr hmem
      · exact fun heq => hsame heq.symm
  case addresses =>
    intro other core pAddr hmem
    simp only [List.mem_append, List.mem_singleton, Entry.translated.injEq] at hmem
    rcases hmem with hold | ⟨rfl, -, rfl⟩
    · obtain ⟨used, hused, hvalid', rfl⟩ := hinv.addresses other core pAddr hold
      exact ⟨used, hkeeps _ used (hready.page_lt other) hused hvalid', hvalid', rfl⟩
    · exact ⟨pte, hpte, hvalid, rfl⟩
  case faults =>
    intro before after addr fault hlog
    rcases append_singleton_eq hlog with ⟨rest, hold⟩ | ⟨-, hnew⟩
    · exact hinv.faults before rest addr fault hold
    · simp at hnew

theorem isPageFault_logInv (hready : Ready config levels) {logged : Logged}
    {pool : SlotPool ℕ} (hinv : LogInv config levels logged pool)
    (addr : Word64) :
    ∃ next, step config levels logged (.isPageFault addr) = some next ∧
      ∃ pool', LogInv config levels next pool' := by
  obtain ⟨next, fault, hasked, hnext, hkeeps, hfault⟩ :=
    isPageFault_spec hready hinv.inv addr
  refine ⟨_, by rw [step, hasked, Option.map_some], pool, ?_⟩
  constructor
  case inv => exact hnext
  case known =>
    intro other
    rw [hinv.known]
    exact Untouched.append_asked.symm
  case addresses =>
    intro other core pAddr hmem
    simp only [List.mem_append, List.mem_singleton, reduceCtorEq, or_false] at hmem
    obtain ⟨used, hused, hvalid, rfl⟩ := hinv.addresses other core pAddr hmem
    exact ⟨used, hkeeps _ used (hready.page_lt other) hused hvalid, hvalid, rfl⟩
  case faults =>
    intro before after other answer hlog
    rcases append_singleton_eq hlog with ⟨rest, hold⟩ | ⟨rfl, hnew⟩
    · exact hinv.faults before rest other answer hold
    · obtain ⟨rfl, rfl⟩ : addr = other ∧ fault = answer := by simpa using hnew
      rw [hfault, hinv.known]

theorem LogInv.translates (hready : Ready config levels) {logged : Logged}
    {pool : SlotPool ℕ} (hinv : LogInv config levels logged pool) :
    Translates config logged := by
  have hplaced : ∀ key pte, pteOf levels logged.unit key = some pte →
      pte.valid = true → Placed config pte := by
    intro key pte hpte hvalid
    obtain ⟨id, -, hid⟩ := Option.bind_eq_some_iff.mp hpte
    exact hinv.inv.placed id pte hid hvalid
  constructor
  case same =>
    intro vAdr coreno coreno' pAddr pAddr' hleft hright
    obtain ⟨pte, hpte, -, rfl⟩ := hinv.addresses vAdr coreno pAddr hleft
    obtain ⟨pte', hpte', -, rfl⟩ := hinv.addresses vAdr coreno' pAddr' hright
    rw [hpte, Option.some.injEq] at hpte'
    rw [hpte']
  case offset =>
    intro vAdr coreno pAddr hmem
    obtain ⟨pte, hpte, hvalid, rfl⟩ := hinv.addresses vAdr coreno pAddr hmem
    exact offset_physicalAddress hready.divides (hplaced _ pte hpte hvalid) vAdr
  case apart =>
    intro vAdr coreno pAddr vAdr' coreno' pAddr' hleft hright hne
    obtain ⟨pte, hpte, hvalid, rfl⟩ := hinv.addresses vAdr coreno pAddr hleft
    obtain ⟨pte', hpte', hvalid', rfl⟩ := hinv.addresses vAdr' coreno' pAddr' hright
    refine page_physicalAddress_ne hready.divides (hplaced _ pte hpte hvalid)
      (hplaced _ pte' hpte' hvalid') ?_ vAdr vAdr'
    -- two pages do not share a frame of the pool
    intro hframe
    have hslot := hinv.inv.slotOf_eq_some (hready.page_lt vAdr) hpte hvalid
    have hslot' := hinv.inv.slotOf_eq_some (hready.page_lt vAdr') hpte' hvalid'
    exact hne (hinv.inv.poolInv.injective _ _ _ hslot (hframe ▸ hslot'))
  case inMemory =>
    intro id pte hpte hvalid
    exact (hinv.inv.placed id pte hpte hvalid).frame
  case faults => exact hinv.faults

/-- A run whose first translations all find room never leaves the arrays and
translates as it should. -/
theorem exec_translates (hready : Ready config levels)
    (hshift : boundLog2 config.totalPhysmem.toNat < 32) {ops : List Op}
    (henough : Guarded.Meets (step config levels) (Enough config) ⟨start, []⟩ ops) :
    ∃ final, Guarded.exec (step config levels) ⟨start, []⟩ ops = some final ∧
      Translates config final := by
  have hstep : ∀ logged op, (∃ pool, LogInv config levels logged pool) →
      Enough config logged op → ∃ next, step config levels logged op = some next ∧
        ∃ pool, LogInv config levels next pool := by
    rintro logged op ⟨pool, hinv⟩ hguard
    cases op with
    | xlat vAdr coreno => exact xlat_logInv hready hshift hinv hguard
    | isPageFault addr => exact isPageFault_logInv hready hinv addr
  obtain ⟨final, hfinal, pool, hinv⟩ :=
    Guarded.exec_total hstep ⟨_, start_logInv config levels⟩ henough
  exact ⟨final, hfinal, hinv.translates hready⟩

end Runs

/-- The levels of a unit cover the bits of a frame number only if their number
divides them. -/
theorem dvd_of_levels {config : Config}
    (hle : config.pageBits ≤ config.addrSpaceBits.toNat) {built : List PtLevel}
    (hbuilt : levels config = some built) :
    config.nlevels.toNat ∣ config.addrSpaceBits.toNat - config.pageBits := by
  have hbound := buildLevels_bound hbuilt
  rw [toNat_vfnBits hle, Nat.zero_add] at hbound
  have hper : config.bitsPerLevel ≤
      (config.addrSpaceBits.toNat - config.pageBits) / config.nlevels.toNat := by
    rw [Config.bitsPerLevel, toNat_vfnBits hle]
    exact Nat.mod_le _ _
  rw [Nat.dvd_iff_le_div_mul, Nat.mul_comm]
  exact hbound.trans (Nat.mul_le_mul_left _ hper)

/-- A unit whose number of levels divides the bits of a frame number into
parts a table can have, and whose `total_physmem` happens to be less than
`2 ^ 32`, translates as it should as long as there are frames left and the
node numbers do not disturb them. -/
theorem translates_of_divides (config : Config) (hdivides : config.Divides)
    (hshift : boundLog2 config.totalPhysmem.toNat < 32) :
    ∃ built, levels config = some built ∧
      ∀ ops, Guarded.Meets (step config built) (Enough config) ⟨start, []⟩ ops →
        ∃ final, Guarded.exec (step config built) ⟨start, []⟩ ops = some final ∧
          Translates config final := by
  obtain ⟨built, hbuilt, hshaped, hsum⟩ := levels_of_divides hdivides
  exact ⟨built, hbuilt, fun ops => exec_translates ⟨hdivides, hshaped, hsum⟩ hshift⟩

/-- A 32-bit address space with pages of 4 KiB and two levels. -/
theorem translates_two_levels :
    ∃ (config : Config) (built : List PtLevel) (final : Logged),
      config.nlevels = 2 ∧ levels config = some built ∧
        Guarded.exec (step config built) ⟨start, []⟩
          [.xlat 0x1234 0, .isPageFault 0x2000] = some final ∧
        Translates config final := by
  let config : Config :=
    { addrSpaceBits := 32
      nlevels := 2
      pageBits := 12
      physmemSize := 0x100000
      coresPerSocket := 2
      totalPhysmem := 0
      nlevels_pos := by decide
      pageBits_lt := by decide
      coresPerSocket_pos := by decide }
  have hdivides : config.Divides := ⟨by decide, by decide, by decide⟩
  obtain ⟨built, hbuilt, hruns⟩ :=
    translates_of_divides config hdivides (by simp [config, boundLog2])
  obtain ⟨final, hfinal, htranslates⟩ :=
    hruns [.xlat 0x1234 0, .isPageFault 0x2000]
      ⟨fun _ => ⟨by decide, Or.inl (by decide)⟩,
        fun _ _ => ⟨trivial, fun _ _ => trivial⟩⟩
  exact ⟨config, built, final, rfl, hbuilt, hfinal, htranslates⟩

/-- With three levels for 20 bits the loop writes a fourth one. -/
theorem not_translates_three_levels :
    ¬∀ config : Config, ∃ built, levels config = some built ∧
      ∀ ops, ∃ final,
        Guarded.exec (step config built) ⟨start, []⟩ ops = some final ∧
          Translates config final := by
  intro hclaim
  obtain ⟨built, hbuilt, -⟩ := hclaim
    { addrSpaceBits := 32
      nlevels := 3
      pageBits := 12
      physmemSize := 0x100000
      coresPerSocket := 2
      totalPhysmem := 0
      nlevels_pos := by decide
      pageBits_lt := by decide
      coresPerSocket_pos := by decide }
  exact absurd (dvd_of_levels (by decide) hbuilt) (by decide)

end Prazor.Bus.Vmunit64
