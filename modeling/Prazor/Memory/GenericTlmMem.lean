import Prazor.Memory.LlscLocks

/-!
# The generic memory

`generic_tlm_mem` keeps its bytes in pages of 4096 that are made when a byte of
them is first written; a page starts with whatever `new` left in it.  An
access checks its address and its length, then reads or writes doubleword by
doubleword.  A doubleword whose eight byte enables are all set is stored by one
aligned write, any other one byte by byte.
-/

namespace Prazor.Memory

open Prazor.Tlm Prazor.Bytes

/-- What the constructor of a memory is given, and the bytes that `new` leaves
in a page with a given base. -/
structure MemoryConfig where
  memBase : Word64
  memSizeBytes : Word64
  newPage : Word64 → Buffer

/-- `memory_hash_map`. -/
abbrev Pages := Word64 → Option Buffer

structure GenericTlmMem where
  memoryHashMap : Pages
  llscLocks : LlscLocks

/-- `a & ~0xFFF`. -/
def pageBase (a : Word64) : Word64 := a &&& ~~~0xFFF

/-- `a & 0xFFF`. -/
def pageOffset (a : Word64) : ℕ := (a &&& 0xFFF).toNat

/-- The 64-bit `ip_read`; `none` when its alignment assertion fails. -/
def ipRead (pages : Pages) (a : Word64) : Option Word64 :=
  if pageOffset a % 8 ≠ 0 then none
  else match pages (pageBase a) with
    | none => some 0
    | some page => some (load64 fun i => page (pageOffset a + i))

/-- The page a write goes to: the one there is, or a new one. -/
def pageForWrite (newPage : Word64 → Buffer) (pages : Pages) (a : Word64) : Buffer :=
  (pages (pageBase a)).getD (newPage (pageBase a))

/-- The 8-bit `ip_write`. -/
def ipWrite8 (newPage : Word64 → Buffer) (pages : Pages) (a : Word64) (d : Byte) :
    Pages :=
  Function.update pages (pageBase a)
    (some (Function.update (pageForWrite newPage pages a) (pageOffset a) d))

/-- The 64-bit `ip_write`, of the doubleword at `d`; `none` when its alignment
assertion fails. -/
def ipWrite64 (newPage : Word64 → Buffer) (pages : Pages) (a : Word64)
    (d : Buffer) : Option Pages :=
  if pageOffset a % 8 ≠ 0 then none
  else some (Function.update pages (pageBase a)
    (some fun i =>
      if pageOffset a ≤ i ∧ i < pageOffset a + 8 then d (i - pageOffset a)
      else pageForWrite newPage pages a i))

/-- `int bel = trans.get_byte_enable_length()`, which is negative from `2^31` on,
without its sign: a remainder has that of the dividend. -/
def bel (trans : Payload) : ℕ := (BitVec.ofNat 32 trans.byteEnableLength).toInt.natAbs

/-- The number of enables fits in the `int`. -/
def EnablesFit (trans : Payload) : Prop :=
  trans.byteEnable.isSome → trans.byteEnableLength < 2 ^ 31

instance decidableEnablesFit (trans : Payload) : Decidable (EnablesFit trans) :=
  inferInstanceAs (Decidable (_ → _))

theorem bel_of_lt {trans : Payload} (hlt : trans.byteEnableLength < 2 ^ 31) :
    bel trans = trans.byteEnableLength := by
  have hword : (BitVec.ofNat 32 trans.byteEnableLength).toNat = trans.byteEnableLength := by
    rw [BitVec.toNat_ofNat, Nat.mod_eq_of_lt (by omega)]
  rw [bel, BitVec.toInt_eq_toNat_of_lt (by omega), hword, Int.natAbs_natCast]

/-- The eight byte enables of the doubleword at `dd` are looked at as one: it
is stored whole when there are none or all are set. -/
def wholeWord (trans : Payload) (dd : ℕ) : Bool :=
  match trans.byteEnable with
  | none => true
  | some lanes =>
      bel trans = 0 ∨ load64 (fun i => lanes (8 * ((dd % bel trans) / 8) + i)) =
        0xFFFFFFFFFFFFFFFF

/-- `!lanes || lanes[(dd+l)%bel]`. -/
def laneEnabled (trans : Payload) (dd l : ℕ) : Bool :=
  match trans.byteEnable with
  | none => true
  | some lanes => lanes ((dd + l) % bel trans) ≠ 0

/-- The loop body of a write, at the doubleword `dd`. -/
def storeWord (newPage : Word64 → Buffer) (trans : Payload) (adr : Word64)
    (pages : Pages) (dd : ℕ) : Option Pages :=
  if wholeWord trans dd then
    ipWrite64 newPage pages (adr + BitVec.ofNat 64 dd) (fun i => trans.data (dd + i))
  else
    some ((List.range 8).foldl (fun pages l =>
      if laneEnabled trans dd l then
        ipWrite8 newPage pages (adr + BitVec.ofNat 64 l + BitVec.ofNat 64 dd)
          (trans.data (l + dd))
      else pages) pages)

/-- The loop body of a read, at the doubleword `dd`. -/
def loadWord (pages : Pages) (adr : Word64) (data : Buffer) (dd : ℕ) :
    Option Buffer :=
  (ipRead pages (adr + BitVec.ofNat 64 dd)).map fun temp i =>
    if dd ≤ i ∧ i < dd + 8 then bytes64 temp (i - dd) else data i

/-- The offsets `0, 8, …` below a length that is a multiple of eight. -/
def doublewords (len : ℕ) : List ℕ := (List.range (len / 8)).map (8 * ·)

/-- `generic_tlm_mem::access`; `none` when an assertion fails and the
simulation ends. -/
def access (config : MemoryConfig) (mem : GenericTlmMem) (trans : Payload) :
    Option (GenericTlmMem × Payload) :=
  let adr := trans.address - config.memBase
  if config.memSizeBytes ≤ adr then
    some (mem, { trans with response := .addressError })
  else if trans.dataLength % 8 ≠ 0 then
    some (mem, { trans with response := .burstError })
  else
    match trans.command with
    | .read =>
        let locked := match trans.llsc with
          | some id => mem.llscLocks.loadlockedFail id (adr.setWidth 32)
          | none => (mem.llscLocks, false)
        if locked.2 then
          some ({ mem with llscLocks := locked.1 },
            { trans with response := .addressError })
        else
          ((doublewords trans.dataLength).foldlM
            (loadWord mem.memoryHashMap adr) trans.data).map fun data =>
              ({ mem with llscLocks := locked.1 },
                { trans with data := data, response := .ok })
    | .write =>
        let locked := match trans.llsc with
          | some id => mem.llscLocks.storeconditionalFail id adr
          | none => (mem.llscLocks, false)
        if locked.2 then
          some ({ mem with llscLocks := locked.1 },
            { trans with response := .addressError })
        else
          ((doublewords trans.dataLength).foldlM
            (storeWord config.newPage trans adr) mem.memoryHashMap).map fun pages =>
              ({ mem with memoryHashMap := pages, llscLocks := locked.1 },
                { trans with response := .ok })
    | .ignore => some (mem, { trans with response := .ok })

/-! ## Bytes in pages -/

/-- The byte at an offset of the memory, `none` while its page is missing. -/
def Pages.byte (pages : Pages) (a : Word64) : Option Byte :=
  (pages (pageBase a)).map fun page => page (pageOffset a)

theorem pageBase_add_pageOffset (a : Word64) :
    pageBase a + BitVec.ofNat 64 (pageOffset a) = a := by
  have hdisjoint : pageBase a &&& (a &&& 0xFFF) = 0 := by
    apply BitVec.eq_of_getLsbD_eq
    intro i hi
    simp only [pageBase, BitVec.getLsbD_and, BitVec.getLsbD_not, hi]
    cases a.getLsbD i <;> cases (0xFFF : Word64).getLsbD i <;> simp
  have hsplit : pageBase a ||| (a &&& 0xFFF) = a := by
    apply BitVec.eq_of_getLsbD_eq
    intro i hi
    simp only [pageBase, BitVec.getLsbD_and, BitVec.getLsbD_or, BitVec.getLsbD_not, hi]
    cases a.getLsbD i <;> cases (0xFFF : Word64).getLsbD i <;> simp
  rw [pageOffset, BitVec.ofNat_toNat, BitVec.setWidth_eq,
    BitVec.add_eq_or_of_and_eq_zero _ _ hdisjoint, hsplit]

/-- Two addresses in one page differ by the difference of their offsets. -/
theorem eq_add_of_pageBase_eq {a x : Word64} (hbase : pageBase x = pageBase a)
    (hle : pageOffset a ≤ pageOffset x) :
    x = a + BitVec.ofNat 64 (pageOffset x - pageOffset a) := by
  calc x = pageBase x + BitVec.ofNat 64 (pageOffset x) :=
        (pageBase_add_pageOffset x).symm
    _ = pageBase a + BitVec.ofNat 64
          (pageOffset a + (pageOffset x - pageOffset a)) := by
        rw [hbase, Nat.add_sub_cancel' hle]
    _ = pageBase a + BitVec.ofNat 64 (pageOffset a) +
          BitVec.ofNat 64 (pageOffset x - pageOffset a) := by
        rw [BitVec.ofNat_add, BitVec.add_assoc]
    _ = a + BitVec.ofNat 64 (pageOffset x - pageOffset a) := by
        rw [pageBase_add_pageOffset]

theorem pageForWrite_eq {newPage : Word64 → Buffer} {pages : Pages} {a : Word64}
    {page : Buffer} (hpage : pages (pageBase a) = some page) :
    pageForWrite newPage pages a = page := by
  rw [pageForWrite, hpage, Option.getD_some]

/-- A byte write keeps every byte there is at another address. -/
theorem byte_ipWrite8 {newPage : Word64 → Buffer} {pages : Pages} {a x : Word64}
    {v : Byte} (hne : x ≠ a) (hbyte : pages.byte x = some v) (d : Byte) :
    Pages.byte (ipWrite8 newPage pages a d) x = some v := by
  obtain ⟨page, hpage, hv⟩ := Option.map_eq_some_iff.mp hbyte
  by_cases hbase : pageBase x = pageBase a
  · have hoffset : pageOffset x ≠ pageOffset a := by
      intro heq
      apply hne
      rw [← pageBase_add_pageOffset x, ← pageBase_add_pageOffset a, hbase, heq]
    rw [hbase] at hpage
    simp [Pages.byte, ipWrite8, hbase, hoffset, pageForWrite_eq hpage, hv]
  · simp [Pages.byte, ipWrite8, Function.update_of_ne hbase, hpage, hv]

/-- A doubleword write keeps every byte there is outside the doubleword. -/
theorem byte_ipWrite64 {newPage : Word64 → Buffer} {pages next : Pages}
    {a x : Word64} {v : Byte} {d : Buffer}
    (hwrite : ipWrite64 newPage pages a d = some next)
    (hne : ∀ l, l < 8 → x ≠ a + BitVec.ofNat 64 l)
    (hbyte : pages.byte x = some v) : next.byte x = some v := by
  obtain ⟨page, hpage, hv⟩ := Option.map_eq_some_iff.mp hbyte
  rw [ipWrite64] at hwrite
  split at hwrite
  · cases hwrite
  rw [Option.some.injEq] at hwrite
  subst hwrite
  by_cases hbase : pageBase x = pageBase a
  · have houtside : ¬(pageOffset a ≤ pageOffset x ∧
        pageOffset x < pageOffset a + 8) := by
      rintro ⟨hle, hlt⟩
      exact hne _ (by omega) (eq_add_of_pageBase_eq hbase hle)
    rw [hbase] at hpage
    simp [Pages.byte, hbase, if_neg houtside, pageForWrite_eq hpage, hv]
  · simp [Pages.byte, Function.update_of_ne hbase, hpage, hv]

/-! ## Which bytes a transaction stores -/

/-- The transaction stores the byte `l` of its doubleword `dd`. -/
def storesLane (trans : Payload) (dd l : ℕ) : Bool :=
  wholeWord trans dd || laneEnabled trans dd l

/-- The lanes of a transaction that put a byte at an offset of the memory. -/
def storesByte (config : MemoryConfig) (trans : Payload) (x : Word64) : Bool :=
  (doublewords trans.dataLength).any fun dd =>
    (List.range 8).any fun l =>
      storesLane trans dd l &&
        x = trans.address - config.memBase + BitVec.ofNat 64 l + BitVec.ofNat 64 dd

theorem byte_storeWord {newPage : Word64 → Buffer} {trans : Payload}
    {adr x : Word64} {pages next : Pages} {dd : ℕ} {v : Byte}
    (hstore : storeWord newPage trans adr pages dd = some next)
    (hne : ∀ l, l < 8 → storesLane trans dd l = true →
      x ≠ adr + BitVec.ofNat 64 l + BitVec.ofNat 64 dd)
    (hbyte : pages.byte x = some v) : next.byte x = some v := by
  rw [storeWord] at hstore
  split at hstore
  case isTrue hwhole =>
    refine byte_ipWrite64 hstore (fun l hl => ?_) hbyte
    have hlane := hne l hl (by rw [storesLane, hwhole, Bool.true_or])
    rwa [add_right_comm] at hlane
  case isFalse hwhole =>
    rw [Option.some.injEq] at hstore
    subst hstore
    -- the lanes are stored one by one, each at an address other than `x`
    refine List.foldlRecOn (motive := fun pages : Pages => pages.byte x = some v)
      (List.range 8) _ hbyte ?_
    intro pages hpages l hl
    split
    case isTrue hlane =>
      exact byte_ipWrite8
        (hne l (List.mem_range.mp hl) (by rw [storesLane, hlane, Bool.or_true]))
        hpages _
    case isFalse => exact hpages

/-- The stores of a transaction keep every byte they do not put there. -/
theorem byte_foldlM_storeWord {newPage : Word64 → Buffer} {trans : Payload}
    {adr x : Word64} {offsets : List ℕ} {pages next : Pages} {v : Byte}
    (hstore : offsets.foldlM (storeWord newPage trans adr) pages = some next)
    (hne : ∀ dd ∈ offsets, ∀ l, l < 8 → storesLane trans dd l = true →
      x ≠ adr + BitVec.ofNat 64 l + BitVec.ofNat 64 dd)
    (hbyte : pages.byte x = some v) : next.byte x = some v := by
  induction offsets generalizing pages with
  | nil =>
      rw [List.foldlM_nil, Option.pure_def, Option.some.injEq] at hstore
      exact hstore ▸ hbyte
  | cons dd rest ih =>
      rw [List.foldlM_cons, Option.bind_eq_bind, Option.bind_eq_some_iff] at hstore
      obtain ⟨pages', hword, hrest⟩ := hstore
      refine ih hrest (fun dd' hdd' => hne dd' (List.mem_cons_of_mem dd hdd')) ?_
      exact byte_storeWord hword (hne dd List.mem_cons_self) hbyte

end Prazor.Memory
