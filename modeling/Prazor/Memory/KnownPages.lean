import Prazor.Memory.Exclusivity
import Prazor.Memory.SparsePages

/-!
# Pages whose bytes are known

A read finds zero where there is no page, but the first write into a page also
brings in what `new` left in it.  The bytes a read finds are therefore only
those that were written where the page is there already, or is zero when it is
made.
-/

namespace Prazor.Memory

open Prazor.Tlm Prazor.Bytes

/-- The byte that a read finds at an offset. -/
def Pages.shown (pages : Pages) (x : Word64) : Byte := (pages.byte x).getD 0

/-- The page is there, or `new` gives it full of zeros. -/
def KnownPage (newPage : Word64 → Buffer) (pages : Pages) (base : Word64) : Prop :=
  pages base ≠ none ∨ ∀ i, newPage base i = 0

variable {config : MemoryConfig} {newPage : Word64 → Buffer} {pages next : Pages}
  {trans : Payload} {adr x base : Word64} {dd : ℕ}

/-! ## What a write leaves known -/

/-- In a known page a read finds what is known of a byte. -/
theorem shown_of_holds (put : Option Byte) (hknown : KnownPage newPage pages (pageBase x))
    (hholds : ∀ stored, Holds newPage pages x stored → Holds newPage next x (put.or stored)) :
    next.shown x = put.getD (pages.shown x) := by
  unfold Pages.shown
  cases hbyte : pages.byte x with
  | some v =>
      have hnext := hholds (some v) hbyte
      cases put with
      | none => exact congrArg (Option.getD · 0) hnext
      | some d => exact congrArg (Option.getD · 0) hnext
  | none =>
      have hnext := hholds none (.inl hbyte)
      cases put with
      | some d => exact congrArg (Option.getD · 0) hnext
      | none =>
          have hmissing : pages (pageBase x) = none := Option.map_eq_none_iff.mp hbyte
          have hzero := hknown.resolve_left (not_not.mpr hmissing) (pageOffset x)
          rcases hnext with hnone | hnew
          · rw [hnone]
            rfl
          · rw [hnew, hzero]
            rfl

theorem knownPage_update (hknown : KnownPage newPage pages base) (at' : Word64)
    (page : Buffer) :
    KnownPage newPage (Function.update pages at' (some page)) base := by
  apply hknown.imp_left
  intro hthere
  by_cases hsame : base = at'
  · rw [hsame, Function.update_self]
    exact Option.some_ne_none page
  · rwa [Function.update_of_ne hsame]

theorem knownPage_storeWord (hknown : KnownPage newPage pages base)
    (hstore : storeWord newPage trans adr pages dd = some next) :
    KnownPage newPage next base := by
  rw [storeWord] at hstore
  split at hstore
  case isTrue =>
    rw [ipWrite64] at hstore
    split at hstore
    · cases hstore
    · rw [Option.some.injEq] at hstore
      exact hstore ▸ knownPage_update hknown _ _
  case isFalse =>
    rw [Option.some.injEq] at hstore
    subst hstore
    apply List.foldlRecOn (motive := fun pages => KnownPage newPage pages base) _ _ hknown
    intro pages hpages l _
    split
    · exact knownPage_update hpages _ _
    · exact hpages

/-- A round of the loop of a write that does not store a byte. -/
theorem holds_storeWord_of_not_stored
    (hstore : storeWord newPage trans adr pages dd = some next)
    (hne : ∀ l, l < 8 → storesLane trans dd l = true →
      x ≠ adr + BitVec.ofNat 64 l + BitVec.ofNat 64 dd)
    {stored : Option Byte} (hholds : Holds newPage pages x stored) :
    Holds newPage next x stored := by
  rw [storeWord] at hstore
  split at hstore
  case isTrue hwhole =>
    have haligned : (adr + BitVec.ofNat 64 dd).toNat % 8 = 0 := by
      rw [ipWrite64] at hstore
      split at hstore
      · cases hstore
      · rename_i hoffset
        rw [pageOffset_eq_mod] at hoffset
        omega
    have hnext := holds_ipWrite64 haligned hstore hholds
    have hfar : ¬(x - (adr + BitVec.ofNat 64 dd)).toNat < 8 := by
      intro hnear
      apply hne _ hnear (by rw [storesLane, hwhole, Bool.true_or])
      rw [add_right_comm]
      exact (eq_add_of_distance (by omega)).mpr rfl
    rwa [if_neg hfar] at hnext
  case isFalse hwhole =>
    rw [Option.some.injEq] at hstore
    subst hstore
    apply List.foldlRecOn (motive := fun pages => Holds newPage pages x stored) _ _ hholds
    intro pages hpages l hl
    split
    case isTrue hlane =>
      have hother := hne l (List.mem_range.mp hl) (by rw [storesLane, hlane, Bool.or_true])
      have hnext := holds_ipWrite8 (a := adr + BitVec.ofNat 64 l + BitVec.ofNat 64 dd)
        (d := trans.data (l + dd)) hpages
      rwa [if_neg hother] at hnext
    case isFalse => exact hpages

theorem holds_foldlM_of_not_stored {offsets : List ℕ}
    (hstore : offsets.foldlM (storeWord newPage trans adr) pages = some next)
    (hne : ∀ dd ∈ offsets, ∀ l, l < 8 → storesLane trans dd l = true →
      x ≠ adr + BitVec.ofNat 64 l + BitVec.ofNat 64 dd)
    (stored : Option Byte) (hholds : Holds newPage pages x stored) :
    Holds newPage next x stored := by
  have hround : ∀ (pages : Pages) (dd : ℕ) (next : Pages), dd ∈ offsets →
      Holds newPage pages x stored → storeWord newPage trans adr pages dd = some next →
        Holds newPage next x stored :=
    fun _ dd _ hdd hpages hword => holds_storeWord_of_not_stored hword (hne dd hdd) hpages
  exact Guarded.foldlM_keeps hround hholds hstore

/-- An aligned store of a doubleword leaves the other pages as they are. -/
theorem page_storeWord_of_other (haligned : adr.toNat % 8 = 0) (hother : base ≠ pageBase adr)
    (hstore : storeWord newPage trans adr pages 0 = some next) : next base = pages base := by
  have hzero : adr + BitVec.ofNat 64 0 = adr := BitVec.add_zero adr
  rw [storeWord, hzero] at hstore
  split at hstore
  case isTrue =>
    rw [ipWrite64_of_aligned haligned, Option.some.injEq] at hstore
    rw [← hstore, Function.update_of_ne hother]
  case isFalse =>
    rw [Option.some.injEq] at hstore
    subst hstore
    apply List.foldlRecOn (motive := fun next : Pages => next base = pages base) _ _ rfl
    intro next hnext l hl
    split
    case isTrue =>
      have hpage : pageBase (adr + BitVec.ofNat 64 l + BitVec.ofNat 64 0) = pageBase adr := by
        have hl := List.mem_range.mp hl
        have hnear : (adr + BitVec.ofNat 64 l - adr).toNat = l :=
          (eq_add_of_distance (by omega)).mp rfl
        rw [add_right_comm, hzero]
        exact (page_of_near haligned (by omega)).1
      rw [ipWrite8, hpage, Function.update_of_ne hother]
      exact hnext
    case isFalse => exact hnext

/-! ## Whole transactions -/

section Transactions

variable {mem after : GenericTlmMem} {answer : Payload}

/-- What a transaction does to the pages. -/
theorem access_pages (haccess : access config mem trans = some (after, answer)) :
    (trans.command = .write ∧ answer.response = .ok ∧
        (doublewords trans.dataLength).foldlM
          (storeWord config.newPage trans (offsetOf config trans)) mem.memoryHashMap =
            some after.memoryHashMap) ∨
      (¬(trans.command = .write ∧ answer.response = .ok) ∧
        after.memoryHashMap = mem.memoryHashMap) := by
  cases access_outcome haccess with
  | refused hnext hanswer => exact .inr ⟨fun h => hanswer h.2, congrArg _ hnext⟩
  | unlinkedRead hcommand _ hnext => exact .inr ⟨by simp [hcommand], congrArg _ hnext⟩
  | loadLinked id _ hcommand _ _ hnext => exact .inr ⟨by simp [hcommand], by rw [hnext]⟩
  | plainWrite _ hcommand _ hanswer _ hpages => exact .inl ⟨hcommand, hanswer, hpages⟩
  | ignored hcommand hnext => exact .inr ⟨by simp [hcommand], congrArg _ hnext⟩
  | storeConditional id haccepted hcommand hllsc hanswer hlocks =>
      refine .inl ⟨hcommand, hanswer, ?_⟩
      have hrange : ¬config.memSizeBytes ≤ trans.address - config.memBase :=
        BitVec.not_le.mpr haccepted.1
      simp only [access, if_neg hrange, if_neg (not_not.mpr haccepted.2), hcommand, hllsc,
        offsetOf] at haccess hlocks ⊢
      rw [hlocks, if_neg Bool.false_ne_true] at haccess
      obtain ⟨pages, hpages, hafter⟩ := Option.map_eq_some_iff.mp haccess
      rw [hpages, ← (Prod.mk.inj hafter).1]

theorem knownPage_access (haccess : access config mem trans = some (after, answer))
    (hknown : KnownPage config.newPage mem.memoryHashMap base) :
    KnownPage config.newPage after.memoryHashMap base := by
  rcases access_pages haccess with ⟨-, -, hstore⟩ | ⟨-, hsame⟩
  · exact Guarded.foldlM_keeps (fun _ _ _ _ hpages hword => knownPage_storeWord hpages hword)
      hknown hstore
  · rwa [hsame]

/-- A byte in a known page stays as it is unless the transaction stores it. -/
theorem shown_access_of_not_stored (haccess : access config mem trans = some (after, answer))
    (hknown : KnownPage config.newPage mem.memoryHashMap (pageBase x))
    (hnot : trans.command = .write → answer.response = .ok →
      storesByte config trans x = false) :
    after.memoryHashMap.shown x = mem.memoryHashMap.shown x := by
  rcases access_pages haccess with ⟨hcommand, hanswer, hstore⟩ | ⟨-, hsame⟩
  · apply shown_of_holds none hknown
    apply holds_foldlM_of_not_stored hstore
    intro dd hdd l hl hlane heq
    have hstores : storesByte config trans x = true := by
      simp only [storesByte, List.any_eq_true, List.mem_range, Bool.and_eq_true,
        decide_eq_true_eq]
      exact ⟨dd, hdd, l, hl, hlane, heq⟩
    rw [hnot hcommand hanswer] at hstores
    cases hstores
  · rw [hsame]

/-- The loop of a read that was answered. -/
theorem read_of_access (haccess : access config mem trans = some (after, answer))
    (hcommand : trans.command = .read) (hlength : trans.dataLength % 8 = 0)
    (hanswer : answer.response = .ok) :
    offsetOf config trans < config.memSizeBytes ∧
      (doublewords trans.dataLength).foldlM
        (loadWord mem.memoryHashMap (offsetOf config trans)) trans.data = some answer.data := by
  have hrange : ¬config.memSizeBytes ≤ trans.address - config.memBase := by
    intro hle
    rw [access, if_pos hle, Option.some.injEq] at haccess
    rw [← (Prod.mk.inj haccess).2] at hanswer
    cases hanswer
  refine ⟨BitVec.not_le.mp hrange, ?_⟩
  cases hllsc : trans.llsc with
  | none =>
      simp only [access, if_neg hrange, if_neg (not_not.mpr hlength), hcommand, hllsc,
        Bool.false_eq_true, if_false, Option.map_eq_some_iff, Prod.mk.injEq] at haccess
      obtain ⟨data, hdata, -, rfl⟩ := haccess
      exact hdata
  | some id =>
      simp only [access, if_neg hrange, if_neg (not_not.mpr hlength), hcommand, hllsc,
        loadlockedFail_snd, Bool.false_eq_true, if_false, Option.map_eq_some_iff,
        Prod.mk.injEq] at haccess
      obtain ⟨data, hdata, -, rfl⟩ := haccess
      exact hdata

/-- What a read of a doubleword finds. -/
theorem access_read_doubleword (haccess : access config mem trans = some (after, answer))
    (hcommand : trans.command = .read) (hlength : trans.dataLength = 8)
    (hanswer : answer.response = .ok) :
    offsetOf config trans < config.memSizeBytes ∧ (offsetOf config trans).toNat % 8 = 0 ∧
      ∀ i < 8, answer.data i =
        mem.memoryHashMap.shown (offsetOf config trans + BitVec.ofNat 64 i) := by
  obtain ⟨hrange, hloop⟩ := read_of_access haccess hcommand (by rw [hlength]) hanswer
  rw [hlength] at hloop
  have haligned : (offsetOf config trans).toNat % 8 = 0 := by
    have hword : loadWord mem.memoryHashMap (offsetOf config trans) trans.data 0 =
        some answer.data := by
      simpa [doublewords] using hloop
    have hzero : offsetOf config trans + BitVec.ofNat 64 0 = offsetOf config trans :=
      BitVec.add_zero _
    rw [loadWord, hzero, ipRead] at hword
    split at hword
    · cases hword
    · rename_i hoffset
      rw [pageOffset_eq_mod] at hoffset
      omega
  have hwords := hloop.symm.trans (loadWords haligned 1 trans.data)
  refine ⟨hrange, haligned, fun i hi => ?_⟩
  rw [Option.some.inj hwords]
  exact if_pos hi

/-- What a write of a doubleword leaves, in a known page. -/
theorem shown_access_doubleword (haccess : access config mem trans = some (after, answer))
    (hcommand : trans.command = .write) (hlength : trans.dataLength = 8)
    (hanswer : answer.response = .ok) (haligned : (offsetOf config trans).toNat % 8 = 0)
    (hfit : EnablesFit trans) (hagree : wholeWord trans 0 → ∀ l < 8, enableSet trans l)
    (hknown : KnownPage config.newPage mem.memoryHashMap (pageBase (offsetOf config trans)))
    (x : Word64) :
    after.memoryHashMap.shown x =
      if (x - offsetOf config trans).toNat < 8 ∧
          enableSet trans (x - offsetOf config trans).toNat then
        trans.data (x - offsetOf config trans).toNat
      else mem.memoryHashMap.shown x := by
  have hstore : storeWord config.newPage trans (offsetOf config trans) mem.memoryHashMap 0 =
      some after.memoryHashMap := by
    rcases access_pages haccess with ⟨-, -, hstore⟩ | ⟨hnot, -⟩
    · simpa [hlength, doublewords] using hstore
    · exact absurd ⟨hcommand, hanswer⟩ hnot
  by_cases hpage : pageBase x = pageBase (offsetOf config trans)
  · have hzero : offsetOf config trans + BitVec.ofNat 64 0 = offsetOf config trans :=
      BitVec.add_zero _
    have hplace : (offsetOf config trans + BitVec.ofNat 64 0).toNat % 8 = 0 := by rwa [hzero]
    obtain ⟨next, hnext, hholds⟩ :=
      storeWord_holds config.newPage mem.memoryHashMap trans hplace hfit
      (by simpa only [Nat.zero_add] using hagree)
    rw [hstore, Option.some.injEq] at hnext
    subst hnext
    simp only [hzero, Nat.zero_add] at hholds
    rw [← hpage] at hknown
    have hput := shown_of_holds
      (if (x - offsetOf config trans).toNat < 8 ∧
          enableSet trans (x - offsetOf config trans).toNat then
        some (trans.data (x - offsetOf config trans).toNat)
      else none) hknown fun stored hstored => by
        have hbyte := hholds x stored hstored
        split_ifs at hbyte ⊢ <;> exact hbyte
    rw [hput]
    split <;> rfl
  · have hfar : ¬((x - offsetOf config trans).toNat < 8 ∧
        enableSet trans (x - offsetOf config trans).toNat) :=
      fun hnear => hpage (page_of_near haligned hnear.1).1
    rw [if_neg hfar, Pages.shown, Pages.byte, page_storeWord_of_other haligned hpage hstore]
    rfl

end Transactions

end Prazor.Memory
