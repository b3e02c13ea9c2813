import Prazor.Core.Guarded
import Prazor.Memory.GenericTlmMem

/-!
# The pages as a flat array of bytes

A memory of pages looks like an array of bytes that is zero at first as long as
what `new` leaves in a page is not read, the byte enables are not looked at past
their end or out of step, and no access leaves the memory.
-/

namespace Prazor.Memory

open Prazor.Tlm Prazor.Bytes

/-! ## Addresses in pages -/

theorem pageOffset_eq_mod (a : Word64) : pageOffset a = a.toNat % 4096 := by
  rw [pageOffset, BitVec.toNat_and]
  exact Nat.and_two_pow_sub_one_eq_mod a.toNat 12

theorem pageBase_toNat (a : Word64) : (pageBase a).toNat = a.toNat / 4096 * 4096 := by
  have hsum := congrArg BitVec.toNat (pageBase_add_pageOffset a)
  have hbelow : (pageBase a).toNat ≤ a.toNat := by
    rw [pageBase, BitVec.toNat_and]
    exact Nat.and_le_left
  have hoffset := pageOffset_eq_mod a
  have hlt := a.isLt
  rw [BitVec.toNat_add, BitVec.toNat_ofNat] at hsum
  omega

/-- The doubleword at an aligned address lies in one page. -/
theorem page_of_near {a x : Word64} (haligned : a.toNat % 8 = 0) (hnear : (x - a).toNat < 8) :
    pageBase x = pageBase a ∧ pageOffset x = pageOffset a + (x - a).toNat := by
  have hx : x.toNat = a.toNat + (x - a).toNat := by
    have := a.isLt
    have := x.isLt
    rw [BitVec.toNat_sub] at hnear ⊢
    omega
  constructor
  · apply BitVec.eq_of_toNat_eq
    rw [pageBase_toNat, pageBase_toNat]
    omega
  · rw [pageOffset_eq_mod, pageOffset_eq_mod]
    omega

theorem near_of_page {a x : Word64} (haligned : a.toNat % 8 = 0)
    (hbase : pageBase x = pageBase a) :
    (x - a).toNat < 8 ↔ pageOffset a ≤ pageOffset x ∧ pageOffset x < pageOffset a + 8 := by
  constructor
  · intro hnear
    have hoffset := (page_of_near haligned hnear).2
    omega
  · rintro ⟨hle, hlt⟩
    rw [eq_add_of_pageBase_eq hbase hle, BitVec.add_comm, BitVec.add_sub_cancel,
      BitVec.toNat_ofNat]
    omega

/-! ## What is known of a byte -/

variable {newPage : Word64 → Buffer} {pages next : Pages}

/-- A byte that was stored is there; at any other one there is no page, or what `new`
left in it. -/
def Holds (newPage : Word64 → Buffer) (pages : Pages) (x : Word64) : Option Byte → Prop
  | some stored => pages.byte x = some stored
  | none => pages.byte x = none ∨ pages.byte x = some (newPage (pageBase x) (pageOffset x))

/-- The page that a store makes holds what the bytes there held. -/
theorem holds_pageForWrite {a x : Word64} {stored : Option Byte}
    (hbase : pageBase x = pageBase a) (hholds : Holds newPage pages x stored) :
    pageForWrite newPage pages a (pageOffset x) =
      stored.getD (newPage (pageBase x) (pageOffset x)) := by
  unfold pageForWrite
  rw [← hbase]
  cases hpage : pages (pageBase x) with
  | none =>
      cases stored with
      | none => rfl
      | some data => simp [Holds, Pages.byte, hpage] at hholds
  | some page =>
      cases stored with
      | none => simpa [Holds, Pages.byte, hpage] using hholds
      | some data => simpa [Holds, Pages.byte, hpage] using hholds

theorem holds_of_page {x : Word64} {page : Buffer} {stored : Option Byte}
    (hpage : pages (pageBase x) = some page)
    (hbyte : page (pageOffset x) = stored.getD (newPage (pageBase x) (pageOffset x))) :
    Holds newPage pages x stored := by
  cases stored with
  | none => exact .inr (by rw [Pages.byte, hpage, Option.map_some, hbyte, Option.getD_none])
  | some data =>
      change pages.byte x = some data
      rw [Pages.byte, hpage, Option.map_some, hbyte, Option.getD_some]

theorem holds_of_other_page {a x : Word64} {page : Buffer} {stored : Option Byte}
    (hbase : pageBase x ≠ pageBase a) (hholds : Holds newPage pages x stored) :
    Holds newPage (Function.update pages (pageBase a) (some page)) x stored := by
  have hsame : Pages.byte (Function.update pages (pageBase a) (some page)) x =
      pages.byte x := by
    rw [Pages.byte, Function.update_of_ne hbase, Pages.byte]
  cases stored with
  | none => exact hholds.imp hsame.trans hsame.trans
  | some data => exact hsame.trans hholds

/-- A byte store. -/
theorem holds_ipWrite8 {a x : Word64} {d : Byte} {stored : Option Byte}
    (hholds : Holds newPage pages x stored) :
    Holds newPage (ipWrite8 newPage pages a d) x (if x = a then some d else stored) := by
  by_cases hbase : pageBase x = pageBase a
  · have hpage : ipWrite8 newPage pages a d (pageBase x) =
        some (Function.update (pageForWrite newPage pages a) (pageOffset a) d) := by
      rw [ipWrite8, hbase, Function.update_self]
    refine holds_of_page hpage ?_
    by_cases heq : x = a
    · rw [heq, Function.update_self, if_pos rfl, Option.getD_some]
    · have hoffset : pageOffset x ≠ pageOffset a := by
        intro hsame
        apply heq
        rw [← pageBase_add_pageOffset x, ← pageBase_add_pageOffset a, hbase, hsame]
      rw [Function.update_of_ne hoffset, if_neg heq, holds_pageForWrite hbase hholds]
  · have hne : x ≠ a := fun heq => hbase (congrArg pageBase heq)
    rw [if_neg hne]
    exact holds_of_other_page hbase hholds

/-- A doubleword store. -/
theorem ipWrite64_of_aligned {a : Word64} (haligned : a.toNat % 8 = 0) (d : Buffer) :
    ipWrite64 newPage pages a d = some (Function.update pages (pageBase a)
      (some fun i =>
        if pageOffset a ≤ i ∧ i < pageOffset a + 8 then d (i - pageOffset a)
        else pageForWrite newPage pages a i)) := by
  rw [ipWrite64, if_neg]
  rw [pageOffset_eq_mod]
  omega

theorem holds_ipWrite64 {a x : Word64} {d : Buffer} {stored : Option Byte}
    (haligned : a.toNat % 8 = 0) (hwrite : ipWrite64 newPage pages a d = some next)
    (hholds : Holds newPage pages x stored) :
    Holds newPage next x (if (x - a).toNat < 8 then some (d (x - a).toNat) else stored) := by
  rw [ipWrite64_of_aligned haligned, Option.some.injEq] at hwrite
  subst hwrite
  by_cases hbase : pageBase x = pageBase a
  · refine holds_of_page (by rw [hbase, Function.update_self]) ?_
    by_cases hnear : (x - a).toNat < 8
    · have hoffset := (page_of_near haligned hnear).2
      rw [if_pos ((near_of_page haligned hbase).mp hnear), if_pos hnear, Option.getD_some,
        hoffset, Nat.add_sub_cancel_left]
    · rw [if_neg (mt (near_of_page haligned hbase).mpr hnear), if_neg hnear,
        holds_pageForWrite hbase hholds]
  · have hfar : ¬(x - a).toNat < 8 := fun hnear => hbase (page_of_near haligned hnear).1
    rw [if_neg hfar]
    exact holds_of_other_page hbase hholds

/-! ## The loops of an access -/

/-- The enable of the byte `i` of an access. -/
def enableSet (trans : Payload) (i : ℕ) : Bool :=
  match trans.byteEnable with
  | none => true
  | some lanes => lanes (i % trans.byteEnableLength) ≠ 0

/-- Where a doubleword is stored whole, all its enables are set. -/
def LanesAgree (trans : Payload) : Prop :=
  ∀ dd ∈ doublewords trans.dataLength, wholeWord trans dd → ∀ l < 8, enableSet trans (dd + l)

instance decidableLanesAgree (trans : Payload) : Decidable (LanesAgree trans) :=
  inferInstanceAs (Decidable (∀ dd ∈ doublewords trans.dataLength, _))

variable {trans : Payload} {adr x : Word64} {dd : ℕ} {stored : Option Byte}

/-- An `int` number of enables is the number of enables. -/
theorem laneEnabled_eq (hfit : EnablesFit trans) (dd l : ℕ) :
    laneEnabled trans dd l = enableSet trans (dd + l) := by
  unfold laneEnabled enableSet
  cases hlanes : trans.byteEnable with
  | none => rfl
  | some lanes => rw [bel_of_lt (hfit (by rw [hlanes, Option.isSome_some]))]

/-- The byte at a distance from an address. -/
theorem eq_add_of_distance {l : ℕ} (hl : l < 2 ^ 64) :
    x = adr + BitVec.ofNat 64 l ↔ (x - adr).toNat = l := by
  constructor
  · rintro rfl
    rw [BitVec.add_comm, BitVec.add_sub_cancel, BitVec.toNat_ofNat, Nat.mod_eq_of_lt hl]
  · intro hdistance
    rw [← hdistance, BitVec.ofNat_toNat, BitVec.setWidth_eq, BitVec.add_comm,
      BitVec.sub_add_cancel]

theorem foldl_lanes (hfit : EnablesFit trans) (hholds : Holds newPage pages x stored) (n : ℕ)
    (hn : n ≤ 8) :
    Holds newPage
      ((List.range n).foldl (fun pages l =>
        if laneEnabled trans dd l then
          ipWrite8 newPage pages (adr + BitVec.ofNat 64 l + BitVec.ofNat 64 dd)
            (trans.data (l + dd))
        else pages) pages) x
      (if (x - (adr + BitVec.ofNat 64 dd)).toNat < n ∧
          enableSet trans (dd + (x - (adr + BitVec.ofNat 64 dd)).toNat) then
        some (trans.data (dd + (x - (adr + BitVec.ofNat 64 dd)).toNat))
      else stored) := by
  let distance := (x - (adr + BitVec.ofNat 64 dd)).toNat
  change Holds _ _ _ (if distance < n ∧ enableSet trans (dd + distance) then
    some (trans.data (dd + distance)) else stored)
  induction n with
  | zero => exact hholds
  | succ n ih =>
      rw [List.range_succ, List.foldl_append, List.foldl_cons, List.foldl_nil]
      have hplace : x = adr + BitVec.ofNat 64 n + BitVec.ofNat 64 dd ↔ distance = n := by
        rw [add_right_comm]
        exact eq_add_of_distance (by omega)
      have hlane := laneEnabled_eq hfit dd n
      split_ifs with henabled hnow hnow
      · -- the byte is stored in this round or in an earlier one
        have hnext := holds_ipWrite8 (a := adr + BitVec.ofNat 64 n + BitVec.ofNat 64 dd)
          (d := trans.data (n + dd)) (ih (by omega))
        by_cases heq : distance = n
        · rw [if_pos (hplace.mpr heq)] at hnext
          rw [heq, Nat.add_comm dd n]
          exact hnext
        · rw [if_neg (mt hplace.mp heq), if_pos ⟨by omega, hnow.2⟩] at hnext
          exact hnext
      · have hnext := holds_ipWrite8 (a := adr + BitVec.ofNat 64 n + BitVec.ofNat 64 dd)
          (d := trans.data (n + dd)) (ih (by omega))
        have hne : distance ≠ n := by
          intro heq
          exact hnow ⟨by omega, by rw [heq, ← hlane]; exact henabled⟩
        rw [if_neg (mt hplace.mp hne), if_neg (by
          rintro ⟨hlt, hset⟩
          exact hnow ⟨by omega, hset⟩)] at hnext
        exact hnext
      · have hne : distance ≠ n := by
          intro heq
          rw [heq, ← hlane] at hnow
          exact henabled hnow.2
        have hnext := ih (by omega)
        rw [if_pos ⟨by omega, hnow.2⟩] at hnext
        exact hnext
      · have hnext := ih (by omega)
        rw [if_neg (by
          rintro ⟨hlt, hset⟩
          exact hnow ⟨by omega, hset⟩)] at hnext
        exact hnext

/-- A round of the loop of a write stores the bytes of its doubleword that are set. -/
theorem storeWord_holds (newPage : Word64 → Buffer) (pages : Pages) (trans : Payload)
    (haligned : (adr + BitVec.ofNat 64 dd).toNat % 8 = 0) (hfit : EnablesFit trans)
    (hagree : wholeWord trans dd → ∀ l < 8, enableSet trans (dd + l)) :
    ∃ next, storeWord newPage trans adr pages dd = some next ∧
      ∀ x stored, Holds newPage pages x stored →
        Holds newPage next x
          (if (x - (adr + BitVec.ofNat 64 dd)).toNat < 8 ∧
              enableSet trans (dd + (x - (adr + BitVec.ofNat 64 dd)).toNat) then
            some (trans.data (dd + (x - (adr + BitVec.ofNat 64 dd)).toNat))
          else stored) := by
  by_cases hwhole : wholeWord trans dd
  · refine ⟨_, by rw [storeWord, if_pos hwhole, ipWrite64_of_aligned haligned], ?_⟩
    intro x stored hholds
    have hnext := holds_ipWrite64 (d := fun i => trans.data (dd + i)) haligned
      (ipWrite64_of_aligned haligned _) hholds
    have hset : ((x - (adr + BitVec.ofNat 64 dd)).toNat < 8 ∧
        enableSet trans (dd + (x - (adr + BitVec.ofNat 64 dd)).toNat)) ↔
        (x - (adr + BitVec.ofNat 64 dd)).toNat < 8 :=
      and_iff_left_of_imp fun hnear => hagree hwhole _ hnear
    simp only [hset]
    exact hnext
  · refine ⟨_, by rw [storeWord, if_neg hwhole], fun x stored hholds => ?_⟩
    exact foldl_lanes hfit hholds 8 (Nat.le_refl 8)

theorem doublewords_succ (n : ℕ) : doublewords (8 * (n + 1)) = doublewords (8 * n) ++ [8 * n] := by
  simp [doublewords, List.range_succ]

theorem aligned_add {adr : Word64} (haligned : adr.toNat % 8 = 0) (n : ℕ) :
    (adr + BitVec.ofNat 64 (8 * n)).toNat % 8 = 0 := by
  rw [BitVec.toNat_add, BitVec.toNat_ofNat]
  omega

/-- What the loop of a write stores. -/
theorem storeWords_holds (newPage : Word64 → Buffer) (pages : Pages)
    (haligned : adr.toNat % 8 = 0) (n : ℕ) (hn : 8 * n ≤ 2 ^ 64) (hfit : EnablesFit trans)
    (hagree : ∀ dd ∈ doublewords (8 * n), wholeWord trans dd →
      ∀ l < 8, enableSet trans (dd + l)) :
    ∃ next, (doublewords (8 * n)).foldlM (storeWord newPage trans adr) pages = some next ∧
      ∀ x stored, Holds newPage pages x stored →
        Holds newPage next x
          (if (x - adr).toNat < 8 * n ∧ enableSet trans (x - adr).toNat then
            some (trans.data (x - adr).toNat)
          else stored) := by
  induction n with
  | zero => exact ⟨pages, rfl, fun x stored hholds => hholds⟩
  | succ n ih =>
      rw [doublewords_succ] at hagree ⊢
      obtain ⟨mid, hmid, hheld⟩ := ih (by omega) fun dd hdd =>
        hagree dd (List.mem_append_left _ hdd)
      obtain ⟨next, hnext, hheld'⟩ := storeWord_holds newPage mid trans
        (aligned_add haligned n) hfit
        (hagree (8 * n) (List.mem_append_right _ (List.mem_singleton_self _)))
      refine ⟨next, ?_, fun x stored hholds => ?_⟩
      · rw [List.foldlM_append, hmid]
        simpa using hnext
      · have hdistance : (x - (adr + BitVec.ofNat 64 (8 * n))).toNat =
            ((x - adr).toNat + (2 ^ 64 - 8 * n)) % 2 ^ 64 := by
          rw [← BitVec.sub_sub, BitVec.toNat_sub, BitVec.toNat_ofNat]
          omega
        have hlt := (x - adr).isLt
        have hstep := hheld' x _ (hheld x stored hholds)
        by_cases hlast : 8 * n ≤ (x - adr).toNat ∧ (x - adr).toNat < 8 * (n + 1)
        · have hback : 8 * n + (x - (adr + BitVec.ofNat 64 (8 * n))).toNat =
              (x - adr).toNat := by omega
          have hnear : (x - (adr + BitVec.ofNat 64 (8 * n))).toNat < 8 := by omega
          rw [hback, if_neg (by omega : ¬((x - adr).toNat < 8 * n ∧ _))] at hstep
          simpa only [hnear, hlast.2, true_and] using hstep
        · have hfar : ¬(x - (adr + BitVec.ofNat 64 (8 * n))).toNat < 8 := by omega
          have hsame : (x - adr).toNat < 8 * (n + 1) ↔ (x - adr).toNat < 8 * n := by omega
          rw [if_neg (fun hand => hfar hand.1)] at hstep
          simpa only [hsame] using hstep

/-- What a doubleword read gives: the bytes there are, and zero where there is no page. -/
theorem ipRead_of_aligned (pages : Pages) {a : Word64} (haligned : a.toNat % 8 = 0) :
    ∃ temp, ipRead pages a = some temp ∧
      ∀ j < 8, bytes64 temp j = (pages.byte (a + BitVec.ofNat 64 j)).getD 0 := by
  have hoffset : pageOffset a % 8 = 0 := by
    rw [pageOffset_eq_mod]
    omega
  have hpage (j : ℕ) (hj : j < 8) : pageBase (a + BitVec.ofNat 64 j) = pageBase a ∧
      pageOffset (a + BitVec.ofNat 64 j) = pageOffset a + j := by
    have hdistance : (a + BitVec.ofNat 64 j - a).toNat = j := (eq_add_of_distance (by omega)).mp rfl
    have hnear := page_of_near haligned (by omega : (a + BitVec.ofNat 64 j - a).toNat < 8)
    rwa [hdistance] at hnear
  unfold ipRead
  rw [if_neg (not_not.mpr hoffset)]
  cases hthere : pages (pageBase a) with
  | none =>
      refine ⟨0, rfl, fun j hj => ?_⟩
      rw [Pages.byte, (hpage j hj).1, hthere]
      simp [bytes64]
  | some page =>
      refine ⟨_, rfl, fun j hj => ?_⟩
      rw [bytes64_load64 _ hj, Pages.byte, (hpage j hj).1, hthere, (hpage j hj).2]
      rfl

/-- What the loop of a read gives. -/
theorem loadWords (haligned : adr.toNat % 8 = 0) (n : ℕ) (data : Buffer) :
    (doublewords (8 * n)).foldlM (loadWord pages adr) data =
      some fun i => if i < 8 * n then (pages.byte (adr + BitVec.ofNat 64 i)).getD 0
        else data i := by
  induction n with
  | zero => rfl
  | succ n ih =>
      obtain ⟨temp, htemp, hbytes⟩ := ipRead_of_aligned pages
        (aligned_add haligned n)
      rw [doublewords_succ, List.foldlM_append, ih]
      simp only [Option.bind_eq_bind, Option.bind_some, List.foldlM_cons, List.foldlM_nil,
        loadWord, htemp, Option.map_some, Option.pure_def, Option.some.injEq]
      funext i
      by_cases hlast : 8 * n ≤ i ∧ i < 8 * n + 8
      · have hplace : adr + BitVec.ofNat 64 (8 * n) + BitVec.ofNat 64 (i - 8 * n) =
            adr + BitVec.ofNat 64 i := by
          rw [BitVec.add_assoc, ← BitVec.ofNat_add, Nat.add_sub_cancel' hlast.1]
        rw [if_pos hlast, if_pos (by omega), hbytes _ (by omega), hplace]
      · rw [if_neg hlast]
        have hsame : i < 8 * (n + 1) ↔ i < 8 * n := by omega
        simp only [hsame]

/-! ## Whole accesses -/

/-- The locks after an access, and whether they refuse it. -/
def lockAnswer (trans : Payload) (adr : Word64) (locks : LlscLocks) : LlscLocks × Bool :=
  match trans.llsc, trans.command with
  | some id, .read => locks.loadlockedFail id (adr.setWidth 32)
  | some id, .write => locks.storeconditionalFail id adr
  | _, _ => (locks, false)

/-- An array of bytes, with the locks. -/
structure ByteMemory where
  bytes : Word64 → Byte
  llscLocks : LlscLocks

/-- The access lies in the memory. -/
def InRange (config : MemoryConfig) (trans : Payload) : Prop :=
  (trans.address - config.memBase).toNat + trans.dataLength ≤ config.memSizeBytes.toNat ∧
    trans.address - config.memBase < config.memSizeBytes

instance decidableInRange (config : MemoryConfig) (trans : Payload) :
    Decidable (InRange config trans) := inferInstanceAs (Decidable (_ ∧ _))

/-- The byte that a write puts at an offset of the memory. -/
def storedByte (config : MemoryConfig) (trans : Payload) (x : Word64) : Option Byte :=
  let i := (x - (trans.address - config.memBase)).toNat
  if i < trans.dataLength ∧ enableSet trans i then some (trans.data i) else none

/-- What an access to an array of bytes does. -/
def ByteMemory.access (config : MemoryConfig) (mem : ByteMemory) (trans : Payload) :
    ByteMemory × Payload :=
  let adr := trans.address - config.memBase
  let locked := lockAnswer trans adr mem.llscLocks
  if ¬InRange config trans then (mem, { trans with response := .addressError })
  else if locked.2 then
    ({ mem with llscLocks := locked.1 }, { trans with response := .addressError })
  else
    match trans.command with
    | .read =>
        ({ mem with llscLocks := locked.1 },
          { trans with
            data := fun i =>
              if i < trans.dataLength then mem.bytes (adr + BitVec.ofNat 64 i)
              else trans.data i
            response := .ok })
    | .write =>
        ({ bytes := fun x => (storedByte config trans x).getD (mem.bytes x)
           llscLocks := locked.1 }, { trans with response := .ok })
    | .ignore => ({ mem with llscLocks := locked.1 }, { trans with response := .ok })

/-- The memory of pages with what was last stored at each byte. -/
structure PagedMemory where
  mem : GenericTlmMem
  stored : Word64 → Option Byte

/-- An access, which stores bytes unless it is refused. -/
def PagedMemory.access (config : MemoryConfig) (paged : PagedMemory) (trans : Payload) :
    Option (PagedMemory × Payload) :=
  (Memory.access config paged.mem trans).map fun answer =>
    ({ mem := answer.1
       stored := fun x =>
        if trans.command = .write ∧ answer.2.response = .ok then
          (storedByte config trans x).or (paged.stored x)
        else paged.stored x }, answer.2)

/-- The accesses the memory is meant for. -/
structure Suitable (config : MemoryConfig) (trans : Payload) : Prop where
  aligned : (trans.address - config.memBase).toNat % 8 = 0
  doublewords : trans.dataLength % 8 = 0
  enables : trans.byteEnable.isSome → trans.byteEnableLength ≠ 0

/-- A byte that was stored, or that is zero since nothing was. -/
def Known (config : MemoryConfig) (paged : PagedMemory) (x : Word64) : Prop :=
  (paged.stored x).isSome ∨ paged.mem.memoryHashMap (pageBase x) = none ∨
    config.newPage (pageBase x) (pageOffset x) = 0

/-- The access begins outside the memory or is refused by the locks, or it lies inside,
a write has an `int` number of enables and looks at them in step, and a read finds known
bytes. -/
def Regular (config : MemoryConfig) (paged : PagedMemory) (trans : Payload) : Prop :=
  let adr := trans.address - config.memBase
  config.memSizeBytes ≤ adr ∨ (lockAnswer trans adr paged.mem.llscLocks).2 = true ∨
    adr.toNat + trans.dataLength ≤ config.memSizeBytes.toNat ∧
      trans.dataLength ≤ 2 ^ 31 ∧
      (trans.command = .write → EnablesFit trans ∧ LanesAgree trans) ∧
      (trans.command = .read → ∀ i < trans.dataLength,
        Known config paged (adr + BitVec.ofNat 64 i))

instance decidableKnown (config : MemoryConfig) (paged : PagedMemory) (x : Word64) :
    Decidable (Known config paged x) := inferInstanceAs (Decidable (_ ∨ _ ∨ _))

instance decidableRegular (config : MemoryConfig) (paged : PagedMemory) (trans : Payload) :
    Decidable (Regular config paged trans) :=
  inferInstanceAs (Decidable (_ ∨ _ ∨ _ ∧ _ ∧ (_ → _) ∧ (_ → ∀ i < trans.dataLength, _)))

/-- The array of bytes that a memory of pages stands for. -/
structure Represents (config : MemoryConfig) (paged : PagedMemory) (flat : ByteMemory) :
    Prop where
  holds : ∀ x, Holds config.newPage paged.mem.memoryHashMap x (paged.stored x)
  bytes : ∀ x, flat.bytes x = (paged.stored x).getD 0
  locks : flat.llscLocks = paged.mem.llscLocks

/-! ### One access -/

section Access

variable {config : MemoryConfig} {mem : GenericTlmMem} {paged : PagedMemory}
  {flat : ByteMemory}

/-- An access that begins in the memory. -/
theorem access_eq (hstart : ¬config.memSizeBytes ≤ trans.address - config.memBase)
    (hlength : trans.dataLength % 8 = 0) :
    Memory.access config mem trans =
      let adr := trans.address - config.memBase
      let locked := lockAnswer trans adr mem.llscLocks
      if locked.2 then
        some ({ mem with llscLocks := locked.1 }, { trans with response := .addressError })
      else
        match trans.command with
        | .read =>
            ((doublewords trans.dataLength).foldlM
              (loadWord mem.memoryHashMap adr) trans.data).map fun data =>
                ({ mem with llscLocks := locked.1 },
                  { trans with data := data, response := .ok })
        | .write =>
            ((doublewords trans.dataLength).foldlM
              (storeWord config.newPage trans adr) mem.memoryHashMap).map fun pages =>
                ({ memoryHashMap := pages, llscLocks := locked.1 },
                  { trans with response := .ok })
        | .ignore => some ({ mem with llscLocks := locked.1 }, { trans with response := .ok }) := by
  unfold Memory.access lockAnswer
  dsimp only
  rw [if_neg hstart, if_neg (by omega : ¬trans.dataLength % 8 ≠ 0)]
  cases trans.command <;> cases trans.llsc <;> rfl

/-- Only a store-conditional is refused, and it leaves the locks. -/
theorem lockAnswer_refused {locks : LlscLocks}
    (hrefused : (lockAnswer trans adr locks).2 = true) :
    (lockAnswer trans adr locks).1 = locks := by
  unfold lockAnswer at hrefused ⊢
  split at hrefused
  · unfold LlscLocks.loadlockedFail at hrefused
    dsimp only at hrefused
    split_ifs at hrefused
  · unfold LlscLocks.storeconditionalFail at hrefused ⊢
    split_ifs at hrefused ⊢
    rfl
  · cases hrefused

theorem access_write (paged : PagedMemory) (hsuitable : Suitable config trans)
    (hbound : trans.dataLength ≤ 2 ^ 31) (hfit : EnablesFit trans) (hagree : LanesAgree trans) :
    ∃ next, (doublewords trans.dataLength).foldlM
        (storeWord config.newPage trans (trans.address - config.memBase))
        paged.mem.memoryHashMap = some next ∧
      ∀ x stored, Holds config.newPage paged.mem.memoryHashMap x stored →
        Holds config.newPage next x ((storedByte config trans x).or stored) := by
  obtain ⟨n, hn⟩ : ∃ n, trans.dataLength = 8 * n :=
    Nat.dvd_of_mod_eq_zero hsuitable.doublewords
  unfold LanesAgree at hagree
  rw [hn] at hagree hbound ⊢
  obtain ⟨next, hnext, hheld⟩ := storeWords_holds config.newPage
    paged.mem.memoryHashMap hsuitable.aligned n (by omega) hfit hagree
  refine ⟨next, hnext, fun x stored hholds => ?_⟩
  have hstep := hheld x stored hholds
  unfold storedByte
  rw [hn]
  dsimp only
  split_ifs at hstep ⊢
  · exact hstep
  · exact hstep

theorem access_read (hsuitable : Suitable config trans)
    (hrepresents : Represents config paged flat)
    (hknown : ∀ i < trans.dataLength,
      Known config paged (trans.address - config.memBase + BitVec.ofNat 64 i)) :
    (doublewords trans.dataLength).foldlM
        (loadWord paged.mem.memoryHashMap (trans.address - config.memBase)) trans.data =
      some fun i =>
        if i < trans.dataLength then
          flat.bytes (trans.address - config.memBase + BitVec.ofNat 64 i)
        else trans.data i := by
  obtain ⟨n, hn⟩ : ∃ n, trans.dataLength = 8 * n :=
    Nat.dvd_of_mod_eq_zero hsuitable.doublewords
  rw [hn] at hknown ⊢
  rw [loadWords hsuitable.aligned, Option.some.injEq]
  funext i
  split_ifs with hi
  · have hheld := hrepresents.holds (trans.address - config.memBase + BitVec.ofNat 64 i)
    rw [hrepresents.bytes]
    have hbyte := hknown i hi
    unfold Known at hbyte
    cases hstored : paged.stored (trans.address - config.memBase + BitVec.ofNat 64 i) with
    | some data =>
        rw [hstored] at hheld
        rw [hheld, Option.getD_some]
    | none =>
        rw [hstored] at hheld hbyte
        rcases hheld with hmissing | hfresh
        · rw [hmissing]
        · rcases hbyte with hnever | hpage | hzero
          · cases hnever
          · rw [Pages.byte, hpage]
            rfl
          · rw [hfresh, Option.getD_some, hzero]
            rfl
  · rfl

/-- A regular access is one to the array of bytes. -/
theorem access_represents (hrepresents : Represents config paged flat)
    (hsuitable : Suitable config trans) (hregular : Regular config paged trans) :
    ∃ next, paged.access config trans = some (next, (flat.access config trans).2) ∧
      Represents config next (flat.access config trans).1 := by
  unfold PagedMemory.access ByteMemory.access
  rw [hrepresents.locks]
  by_cases hstart : config.memSizeBytes ≤ trans.address - config.memBase
  · have hout : ¬InRange config trans := fun hin => absurd hin.2 (BitVec.not_lt.mpr hstart)
    have hanswer : Memory.access config paged.mem trans =
        some (paged.mem, { trans with response := .addressError }) := if_pos hstart
    rw [hanswer]
    dsimp only
    rw [if_pos hout]
    exact ⟨_, rfl, { holds := by simpa using hrepresents.holds
                     bytes := by simpa using hrepresents.bytes
                     locks := hrepresents.locks }⟩
  · rw [access_eq hstart hsuitable.doublewords]
    dsimp only
    by_cases hrefused : (lockAnswer trans (trans.address - config.memBase)
        paged.mem.llscLocks).2 = true
    · rw [if_pos hrefused, lockAnswer_refused hrefused]
      split_ifs with hout
      · exact ⟨_, rfl, { holds := by simpa using hrepresents.holds
                         bytes := by simpa using hrepresents.bytes
                         locks := rfl }⟩
      · exact ⟨_, rfl, { holds := by simpa using hrepresents.holds
                         bytes := by simpa using hrepresents.bytes
                         locks := hrepresents.locks }⟩
    · obtain ⟨hrange, hbound, hwrite, hread⟩ :=
        (hregular.resolve_left hstart).resolve_left hrefused
      have hin : InRange config trans := ⟨hrange, BitVec.not_le.mp hstart⟩
      rw [if_neg hrefused, if_neg (not_not.mpr hin), if_neg hrefused]
      cases hcommand : trans.command with
      | read =>
          dsimp only
          rw [access_read hsuitable hrepresents (hread hcommand)]
          exact ⟨_, rfl, { holds := by simpa using hrepresents.holds
                           bytes := by simpa using hrepresents.bytes
                           locks := rfl }⟩
      | write =>
          obtain ⟨hfit, hagree⟩ := hwrite hcommand
          obtain ⟨next, hnext, hheld⟩ := access_write paged hsuitable hbound hfit hagree
          dsimp only
          rw [hnext]
          refine ⟨_, rfl, ?_⟩
          constructor
          case holds =>
            intro x
            simpa using hheld x _ (hrepresents.holds x)
          case bytes =>
            intro x
            simp only [hrepresents.bytes, and_self, if_true]
            cases storedByte config trans x <;> rfl
          case locks => rfl
      | ignore =>
          exact ⟨_, rfl, { holds := by simpa using hrepresents.holds
                           bytes := by simpa using hrepresents.bytes
                           locks := rfl }⟩

/-- The enables are looked at in step if their number is a multiple of eight. -/
theorem lanesAgree_of_multiple (hmultiple : trans.byteEnableLength % 8 = 0)
    (hfit : EnablesFit trans) (hpos : trans.byteEnable.isSome → trans.byteEnableLength ≠ 0) :
    LanesAgree trans := by
  intro dd hdd hwhole l hl
  obtain ⟨k, -, rfl⟩ := List.mem_map.mp hdd
  unfold wholeWord at hwhole
  unfold enableSet
  cases hlanes : trans.byteEnable with
  | none => rfl
  | some lanes =>
      rw [hlanes] at hwhole hpos
      have hbel := hpos rfl
      obtain ⟨n, hn⟩ : ∃ n, trans.byteEnableLength = 8 * n :=
        Nat.dvd_of_mod_eq_zero hmultiple
      have hint : bel trans = trans.byteEnableLength :=
        bel_of_lt (hfit (by rw [hlanes, Option.isSome_some]))
      simp only [hint, hbel, false_or, decide_eq_true_eq] at hwhole
      have hround : 8 * (8 * k % trans.byteEnableLength / 8) = 8 * k % trans.byteEnableLength := by
        rw [hn, Nat.mul_mod_mul_left]
        omega
      have hlane : (8 * k + l) % trans.byteEnableLength = 8 * k % trans.byteEnableLength + l := by
        rw [hn, Nat.mul_mod_mul_left, Nat.add_mod, Nat.mul_mod_mul_left]
        have hlt : k % n < n := Nat.mod_lt k (by omega)
        rw [Nat.mod_eq_of_lt (by omega : l < 8 * n), Nat.mod_eq_of_lt (by omega)]
      have hbyte : lanes (8 * k % trans.byteEnableLength + l) = 0xFF := by
        have hword := bytes64_load64
          (fun i => lanes (8 * (8 * k % trans.byteEnableLength / 8) + i)) hl
        rw [hwhole] at hword
        rw [← hround, ← hword]
        interval_cases l <;> rfl
      simp [hlane, hbyte]

end Access

/-! ## Runs -/

/-- The memory as it is made, before any page is. -/
def PagedMemory.made (locks : LlscLocks) : PagedMemory where
  mem := { memoryHashMap := fun _ => none, llscLocks := locks }
  stored := fun _ => none

def ByteMemory.zero (locks : LlscLocks) : ByteMemory where
  bytes := fun _ => 0
  llscLocks := locks

/-- The accesses a memory serves as an array of bytes does. -/
def Served (config : MemoryConfig) (paged : PagedMemory) (trans : Payload) : Prop :=
  Suitable config trans ∧ Regular config paged trans

/-- A memory gives the answers of an array of bytes along every run of regular accesses. -/
theorem memory_is_bytes {config : MemoryConfig} {locks : LlscLocks} {accesses : List Payload}
    (hguard : Guarded.Meets (Guarded.advance (PagedMemory.access config)) (Served config)
      (PagedMemory.made locks) accesses) :
    ∃ final, Guarded.serve (PagedMemory.access config) (PagedMemory.made locks) accesses =
        some (final, Machine.outputs (ByteMemory.access config) (ByteMemory.zero locks)
          accesses) ∧
      Represents config final
        (Machine.run (ByteMemory.access config) (ByteMemory.zero locks) accesses) := by
  have hstep : ∀ paged flat trans, Represents config paged flat → Served config paged trans →
      ∃ next, paged.access config trans = some (next, (flat.access config trans).2) ∧
        Represents config next (flat.access config trans).1 :=
    fun paged flat trans hrepresents hserved =>
      access_represents hrepresents hserved.1 hserved.2
  have hstart : Represents config (PagedMemory.made locks) (ByteMemory.zero locks) :=
    { holds := fun _ => .inl rfl, bytes := fun _ => rfl, locks := rfl }
  exact Guarded.serve_refines hstep hstart hguard

/-- A memory of one page, in which `new` leaves `0xAA`. -/
def wordRam : MemoryConfig where
  memBase := 0
  memSizeBytes := 4096
  newPage := fun _ _ => 0xAA

/-- An access without enables. -/
def plainAccess (command : Command) (address : Word64) (dataLength : ℕ) : Payload where
  command := command
  address := address
  data := fun i => BitVec.ofNat 8 (i + 1)
  dataLength := dataLength
  byteEnable := none
  byteEnableLength := 0
  llsc := none
  response := .incomplete

theorem suitable_plainAccess (command : Command) {address : Word64} {dataLength : ℕ}
    (haligned : address.toNat % 8 = 0) (hlength : dataLength % 8 = 0) :
    Suitable wordRam (plainAccess command address dataLength) where
  aligned := by simpa [plainAccess, wordRam] using haligned
  doublewords := hlength
  enables := nofun

theorem memory_is_bytes_onePage :
    ∃ final, Guarded.serve (PagedMemory.access wordRam) (PagedMemory.made .fresh)
        [plainAccess .write 8 8, plainAccess .read 8 8] =
      some (final, Machine.outputs (ByteMemory.access wordRam) (ByteMemory.zero .fresh)
        [plainAccess .write 8 8, plainAccess .read 8 8]) := by
  have hregular : Guarded.Meets (Guarded.advance (PagedMemory.access wordRam))
      (Regular wordRam) (PagedMemory.made .fresh)
      [plainAccess .write 8 8, plainAccess .read 8 8] := by decide
  have hsuitable : Guarded.Meets (Guarded.advance (PagedMemory.access wordRam))
      (fun _ trans => Suitable wordRam trans) (PagedMemory.made .fresh)
      [plainAccess .write 8 8, plainAccess .read 8 8] := by
    refine Guarded.meets_of_forall _ fun trans hmem => ?_
    rcases List.mem_pair.mp hmem with rfl | rfl
    · exact suitable_plainAccess .write (by decide) (by decide)
    · exact suitable_plainAccess .read (by decide) (by decide)
  obtain ⟨final, hserve, -⟩ := memory_is_bytes (Guarded.meets_and hsuitable hregular)
  exact ⟨final, hserve⟩

/-- A write of two doublewords at the last one of the memory is carried out. -/
theorem not_memory_is_bytes :
    ¬∀ (config : MemoryConfig) (locks : LlscLocks) (accesses : List Payload),
      (∀ trans ∈ accesses, Suitable config trans) →
        ∃ final, Guarded.serve (PagedMemory.access config) (PagedMemory.made locks) accesses =
          some (final, Machine.outputs (ByteMemory.access config) (ByteMemory.zero locks)
            accesses) := by
  intro hclaim
  obtain ⟨final, hserve⟩ := hclaim wordRam .fresh [plainAccess .write 4088 16] (by
    intro trans hmem
    rw [List.mem_singleton.mp hmem]
    exact suitable_plainAccess .write (by decide) (by decide))
  have hresponses : (Guarded.serve (PagedMemory.access wordRam) (PagedMemory.made .fresh)
      [plainAccess .write 4088 16]).map (fun served => served.2.map Payload.response) =
        some [.ok] := by decide
  rw [hserve, Option.map_some] at hresponses
  have hexpected : (Machine.outputs (ByteMemory.access wordRam) (ByteMemory.zero .fresh)
      [plainAccess .write 4088 16]).map Payload.response = [.addressError] := by
    decide
  rw [hexpected] at hresponses
  cases hresponses

end Prazor.Memory
