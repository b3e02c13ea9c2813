import Prazor.Bus.EvalXchg
import Prazor.Memory.Doubleword

/-!
# Exchanges are atomic in careful runs

The second lock slot always belongs to the latest load-linked, and the first
one to nobody.  So a core that finds its lock held knows that no other core has
linked or stored conditionally since its own load-linked; only plain writes can
have come between, and careful ones stay away from its place.
-/

namespace Prazor.Bus.Xchg

open Prazor.Tlm Prazor.Bytes Prazor.Memory

variable {platform : Platform} {call : Call} {core : ℕ} {rdata : Word64}

/-! ## The place of a call -/

/-- The lanes of a place lie in its doubleword. -/
theorem lane_of_place (platform : Platform) (call : Call) {o : ℕ} (ho : o < call.width.bytes) :
    firstLane platform.endianFlip call.width call.memaddr + o < 8 ∧
      busAddress platform.endianFlip call.width call.memaddr + BitVec.ofNat 64 o -
          platform.config.memBase =
        call.offset platform +
          BitVec.ofNat 64 (firstLane platform.endianFlip call.width call.memaddr + o) := by
  have hlane := (firstLane_mod platform.flip call.aligned ho).1
  refine ⟨hlane, ?_⟩
  have hplace : busAddress platform.endianFlip call.width call.memaddr + BitVec.ofNat 64 o =
      (call.memaddr &&& ~~~7) +
        BitVec.ofNat 64 (firstLane platform.endianFlip call.width call.memaddr + o) := by
    have hbus := toNat_busAddress call.width platform.flip call.aligned
    rw [← firstLane] at hbus
    apply BitVec.eq_of_toNat_eq
    rw [BitVec.toNat_add, BitVec.toNat_add, hbus, toNat_doubleword, BitVec.toNat_ofNat,
      BitVec.toNat_ofNat]
    omega
  rw [hplace, Call.offset, BitVec.sub_eq_add_neg, BitVec.sub_eq_add_neg, add_right_comm]

/-- The bytes of the doubleword of a call are in one page. -/
theorem page_of_lane (haligned : (call.offset platform).toNat % 8 = 0) {l : ℕ} (hl : l < 8) :
    pageBase (call.offset platform + BitVec.ofNat 64 l) = pageBase (call.offset platform) := by
  have hnear : (call.offset platform + BitVec.ofNat 64 l - call.offset platform).toNat = l :=
    (eq_add_of_distance (by omega)).mp rfl
  exact (page_of_near haligned (by omega)).1

/-- A transaction that does not cover the place stores none of its lanes. -/
theorem not_stored_of_not_covers {payload : Payload} (hmiss : ¬Covers platform call payload)
    {o : ℕ} (ho : o < call.width.bytes) :
    storesByte platform.config payload
      (busAddress platform.endianFlip call.width call.memaddr + BitVec.ofNat 64 o -
        platform.config.memBase) = false := by
  apply Bool.eq_false_iff.mpr
  intro hstores
  let lane := busAddress platform.endianFlip call.width call.memaddr + BitVec.ofNat 64 o
  have hback : (lane ^^^ BitVec.ofNat 64 platform.endianFlip) ^^^
      BitVec.ofNat 64 platform.endianFlip = lane := by
    rw [BitVec.xor_assoc, BitVec.xor_self, BitVec.xor_zero]
  have hbytes : call.width.bytes ≤ 8 := by cases call.width <;> norm_num
  apply hmiss
  refine ⟨lane ^^^ BitVec.ofNat 64 platform.endianFlip, ?_, by rwa [hback]⟩
  rw [addressed_iff platform.flip call.aligned, hback, show (lane - _).toNat = o from
    (eq_add_of_distance (by omega)).mp rfl]
  exact ho

/-- Each byte of the contents of a place. -/
theorem extract_contents (endianFlip : ℕ) (mem : LaneMemory) (width : Width) (addr : Word64)
    {o : ℕ} (ho : o < width.bytes) :
    (contents endianFlip mem width addr).extractLsb' (8 * o) 8 =
      mem (busAddress endianFlip width addr + BitVec.ofNat 64 o) := by
  have hbytes : width.bytes ≤ 8 := by cases width <;> norm_num
  have hpiece := extract_shifted
    (load64 fun i => mem (busAddress endianFlip width addr + BitVec.ofNat 64 i)) width.bits 0
    (show 8 * o + 8 ≤ width.bits by rw [Width.bits]; omega)
  rw [Nat.mul_zero, BitVec.ushiftRight_zero, Nat.zero_add, bytes64_load64 _ (by omega)] at hpiece
  exact hpiece

/-- The contents of a place are what a load of it gives. -/
theorem evalMem_contents (bigEndianDefined : Bool) {endianFlip : ℕ}
    (hflip : endianFlip = 0 ∨ endianFlip = 7) (answer : Payload → Response) (mem : LaneMemory)
    {width : Width} {addr : Word64} (haligned : width.bytes ∣ addr.toNat) (stale : Word64) :
    evalMem bigEndianDefined endianFlip (LaneMemory.transport answer) mem width addr stale =
      (mem, some (contents endianFlip mem width addr)) := by
  obtain ⟨v, hload, hlanes⟩ : LoadsLanes endianFlip mem width addr (evalMem bigEndianDefined
      endianFlip (LaneMemory.transport answer) mem width addr stale) :=
    evalMem_lanes bigEndianDefined hflip haligned stale
  rw [hload]
  have hsame : v = contents endianFlip mem width addr :=
    ext_bytes fun o ho => (hlanes o ho).trans (extract_contents endianFlip mem width addr ho).symm
  rw [hsame]

/-- What a call that fits hands back are the lanes of its place. -/
theorem adjusted_bytes (hfits : call.Fits platform) (rdata : Word64) {o : ℕ}
    (ho : o < call.width.bytes) :
    ((adjusted platform.endianFlip call rdata).setWidth call.width.bits).extractLsb' (8 * o) 8 =
      bytes64 rdata (firstLane platform.endianFlip call.width call.memaddr + o) := by
  have hshift : adjusted platform.endianFlip call rdata =
      rdata >>> (8 * firstLane platform.endianFlip call.width call.memaddr) := by
    have haligned := aligned_lane call.aligned
    have hlow : call.memaddr.toNat % 8 < 8 := Nat.mod_lt _ (by norm_num)
    have hflip := platform.flip
    unfold adjusted
    cases hwidth : call.width with
    | w16 => exact absurd hwidth hfits.1
    | w8 =>
        rw [if_neg (by simp), hfits.2 hwidth, Nat.mul_zero, BitVec.ushiftRight_zero]
    | w64 =>
        have hfirst : firstLane platform.endianFlip .w64 call.memaddr = 0 := by
          rw [hwidth] at haligned
          rw [firstLane]
          dsimp only [Width.bytes] at *
          split_ifs <;> omega
        rw [if_neg (by simp), hfirst, Nat.mul_zero, BitVec.ushiftRight_zero]
    | w32 =>
        rw [hwidth] at haligned
        have hhalf : ((call.memaddr ^^^ BitVec.ofNat 64 platform.endianFlip) &&& 4).toNat =
            firstLane platform.endianFlip .w32 call.memaddr := by
          have hand := and_lane (show 4 < 8 by norm_num)
            (call.memaddr ^^^ BitVec.ofNat 64 platform.endianFlip)
          rw [toNat_flip hflip, Nat.mul_add_mod] at hand
          rw [firstLane]
          refine hand.trans ?_
          dsimp only [Width.bytes] at *
          generalize call.memaddr.toNat % 8 = a at *
          rcases hflip with hflip | hflip <;> rw [hflip] <;> interval_cases a <;> simp_all
        have hlane : firstLane platform.endianFlip .w32 call.memaddr = 0 ∨
            firstLane platform.endianFlip .w32 call.memaddr = 4 := by
          rw [firstLane]
          dsimp only [Width.bytes] at *
          split_ifs <;> omega
        rcases hlane with hlow | hhigh
        · have hclear : (call.memaddr ^^^ BitVec.ofNat 64 platform.endianFlip) &&& 4 = 0 :=
            BitVec.eq_of_toNat_eq (hhalf.trans hlow)
          rw [if_neg fun hupper => hupper.2 hclear, hlow, Nat.mul_zero, BitVec.ushiftRight_zero]
        · have hset : (call.memaddr ^^^ BitVec.ofNat 64 platform.endianFlip) &&& 4 ≠ 0 := by
            intro hzero
            rw [hzero, hhigh] at hhalf
            cases hhalf
          rw [if_pos ⟨rfl, hset⟩, hhigh]
  rw [hshift, extract_shifted _ _ _ (by rw [Width.bits]; omega)]

/-! ## The locks -/

section Locks

variable {config : MemoryConfig} {mem after : GenericTlmMem} {trans answer : Payload}

/-- No transaction takes the first slot. -/
theorem llsc0_access (hfree : mem.llscLocks.llsc0.a = LlscLocks.free)
    (haccess : access config mem trans = some (after, answer)) :
    after.llscLocks.llsc0.a = LlscLocks.free := by
  cases access_outcome haccess with
  | refused hnext _ => rwa [hnext]
  | unlinkedRead _ _ hnext => rwa [hnext]
  | ignored _ hnext => rwa [hnext]
  | plainWrite _ _ _ _ hlocks _ => rwa [hlocks]
  | loadLinked id _ _ _ _ hnext =>
      rw [hnext, LlscLocks.loadlockedFail_of_free hfree]
      exact hfree
  | storeConditional id haccepted _ _ _ hlocks =>
      rw [LlscLocks.storeconditionalFail_of_free hfree id haccepted.ne_free] at hlocks
      split at hlocks
      · rw [← (Prod.mk.inj hlocks).1]
        exact hfree
      · cases (Prod.mk.inj hlocks).2

/-- A lock that is held after a transaction of another core was held before it, and
the transaction is no write unless it is a plain one. -/
theorem reserved_of_access (hfree : mem.llscLocks.llsc0.a = LlscLocks.free)
    (haccess : access platform.config mem trans = some (after, answer))
    (hother : trans.llsc ≠ some core) (hoffset : call.offset platform ≠ LlscLocks.free)
    (hreserved : Reserved platform after core call) :
    Reserved platform mem core call ∧
      (trans.command = .write → answer.response = .ok →
        trans.llsc = none ∧ accepted platform.config trans) := by
  cases access_outcome haccess with
  | refused hnext hanswer => exact ⟨hnext ▸ hreserved, fun _ hok => absurd hok hanswer⟩
  | unlinkedRead hcommand _ hnext => exact ⟨hnext ▸ hreserved, by simp [hcommand]⟩
  | ignored hcommand hnext => exact ⟨hnext ▸ hreserved, by simp [hcommand]⟩
  | plainWrite haccepted _ hllsc _ hlocks _ =>
      rw [Reserved, hlocks] at hreserved
      exact ⟨hreserved, fun _ _ => ⟨hllsc, haccepted⟩⟩
  | loadLinked id _ _ hllsc _ hnext =>
      -- the slot belongs to the core that linked
      rw [Reserved, hnext, LlscLocks.loadlockedFail_of_free hfree] at hreserved
      exact absurd (hllsc.trans (congrArg some hreserved.2)) hother
  | storeConditional id haccepted _ _ _ hlocks =>
      -- the slot is free again
      rw [LlscLocks.storeconditionalFail_of_free hfree id haccepted.ne_free] at hlocks
      split at hlocks
      · rw [Reserved, ← (Prod.mk.inj hlocks).1] at hreserved
        exact absurd hreserved.1.symm hoffset
      · cases (Prod.mk.inj hlocks).2

/-- A store-conditional that took effect had its lock. -/
theorem reserved_of_store (hfree : mem.llscLocks.llsc0.a = LlscLocks.free)
    (haccess : access platform.config mem trans = some (after, answer))
    (hcommand : trans.command = .write) (hllsc : trans.llsc = some core)
    (hoffset : offsetOf platform.config trans = call.offset platform)
    (hanswer : answer.response = .ok) : Reserved platform mem core call := by
  cases access_outcome haccess with
  | refused _ hrefused => exact absurd hanswer hrefused
  | unlinkedRead hread _ _ => rw [hcommand] at hread; cases hread
  | ignored hignore _ => rw [hcommand] at hignore; cases hignore
  | loadLinked _ _ hread _ _ _ => rw [hcommand] at hread; cases hread
  | plainWrite _ _ hnone _ _ _ => rw [hllsc] at hnone; cases hnone
  | storeConditional id haccepted _ hid _ hlocks =>
      rw [LlscLocks.storeconditionalFail_of_free hfree id haccepted.ne_free] at hlocks
      split at hlocks
      case isTrue hslot =>
        rw [hllsc, Option.some.injEq] at hid
        exact ⟨hslot.1.trans hoffset, hslot.2.trans hid.symm⟩
      case isFalse => cases (Prod.mk.inj hlocks).2

end Locks

/-! ## What each core keeps -/

/-- A core between its load-linked and its store-conditional. -/
structure Linked (platform : Platform) (mem : GenericTlmMem) (core : ℕ) (call : Call)
    (rdata : Word64) (earlier : List Transfer) (link : Transfer) (between : List Transfer) :
    Prop where
  linked : link.core = core ∧ link.trans.command = .read ∧ link.trans.llsc = some core
  others : ∀ transfer ∈ between, transfer.core ≠ core
  once : Quiet core (earlier ++ link :: between)
  accepted : call.offset platform < platform.config.memSizeBytes
  aligned : (call.offset platform).toNat % 8 = 0
  known : KnownPage platform.config.newPage mem.memoryHashMap (pageBase (call.offset platform))
  /-- As long as the lock is held, the place is as it was read. -/
  intact : Reserved platform mem core call →
    (∀ transfer ∈ between, ¬transfer.Reaches platform call) ∧
      ∀ o < call.width.bytes,
        mem.memoryHashMap.shown (call.offset platform +
            BitVec.ofNat 64 (firstLane platform.endianFlip call.width call.memaddr + o)) =
          bytes64 rdata (firstLane platform.endianFlip call.width call.memaddr + o)

/-- What holds of a core, by where it is in its exchange. -/
def Phase.Sound (platform : Platform) (mem : GenericTlmMem) (core : ℕ) : Phase → Prop
  | .idle => True
  | .loading call _ log => call.Fits platform ∧ Quiet core log
  | .storing call rdata log => call.Fits platform ∧ ∃ earlier link between,
      log = earlier ++ link :: between ∧ Linked platform mem core call rdata earlier link between
  | .returned call ok2 rdata log => Atomic platform core call ok2 rdata log

/-- The first slot is free, and every core keeps what it promises. -/
structure System.Sound (platform : Platform) (s : System) : Prop where
  free : s.mem.llscLocks.llsc0.a = LlscLocks.free
  cores : ∀ core, (s.cores core).Sound platform s.mem core

theorem sound_powerOn (platform : Platform) (pages : Pages) :
    (System.powerOn pages).Sound platform :=
  ⟨rfl, fun _ => trivial⟩

/-- An offset in the memory is not the mark of a free slot. -/
theorem ne_free_of_lt {config : MemoryConfig} {offset : Word64}
    (hlt : offset < config.memSizeBytes) : offset ≠ LlscLocks.free := by
  intro hfree
  have hmax : LlscLocks.free.toNat = 2 ^ 64 - 1 := by decide
  have hsize := config.memSizeBytes.isLt
  rw [hfree, BitVec.lt_def] at hlt
  omega

theorem quiet_append {log : List Transfer} {transfer : Transfer} (hquiet : Quiet core log)
    (hnew : transfer.core = core → ¬transfer.Stores) : Quiet core (log ++ [transfer]) :=
  List.forall_mem_append.mpr ⟨hquiet, List.forall_mem_singleton.mpr hnew⟩

/-- A core without an exchange in progress takes no notice of a transaction. -/
theorem sound_of_not_busy {mem after : GenericTlmMem} {phase : Phase} {transfer : Transfer}
    (hidle : ¬phase.busy) (hsound : phase.Sound platform mem core) :
    (phase.note transfer).Sound platform after core := by
  cases phase with
  | idle => trivial
  | returned call ok2 rdata log => exact hsound
  | loading call rdata log => exact absurd rfl hidle
  | storing call rdata log => exact absurd rfl hidle

section Steps

variable {s : System} {served : GenericTlmMem × Payload} {trans : Payload} {sender : ℕ}

/-- A transaction of another core leaves a core linked. -/
theorem linked_after {earlier between : List Transfer} {link : Transfer}
    (hlinked : Linked platform s.mem core call rdata earlier link between)
    (hfree : s.mem.llscLocks.llsc0.a = LlscLocks.free)
    (haccess : access platform.config s.mem trans = some served) (hsender : sender ≠ core)
    (hother : trans.llsc ≠ some core)
    (hplain : trans.command = .write → trans.llsc = none → accepted platform.config trans →
      Reserved platform s.mem core call → ¬Covers platform call trans) :
    Linked platform served.1 core call rdata earlier link
      (between ++ [transferOf s sender trans served]) where
  linked := hlinked.linked
  others := List.forall_mem_append.mpr
    ⟨hlinked.others, List.forall_mem_singleton.mpr hsender⟩
  once := by
    rw [← List.cons_append, ← List.append_assoc]
    exact quiet_append hlinked.once fun hown => absurd hown hsender
  accepted := hlinked.accepted
  aligned := hlinked.aligned
  known := knownPage_access haccess hlinked.known
  intact := by
    intro hreserved
    obtain ⟨hheld, hwrite⟩ := reserved_of_access hfree haccess hother
      (ne_free_of_lt hlinked.accepted) hreserved
    obtain ⟨hquiet, hbytes⟩ := hlinked.intact hheld
    have hmiss : trans.command = .write → served.2.response = .ok →
        ¬Covers platform call trans := by
      intro hcommand hok
      obtain ⟨hnone, haccepted⟩ := hwrite hcommand hok
      exact hplain hcommand hnone haccepted hheld
    constructor
    · rw [List.forall_mem_append, List.forall_mem_singleton]
      exact ⟨hquiet, fun hreaches => hmiss hreaches.1.1 hreaches.1.2 hreaches.2⟩
    · intro o ho
      obtain ⟨hlane, hplace⟩ := lane_of_place platform call ho
      rw [← hbytes o ho]
      apply shown_access_of_not_stored haccess
      · rw [page_of_lane hlinked.aligned hlane]
        exact hlinked.known
      · intro hcommand hok
        rw [← hplace]
        exact not_stored_of_not_covers (hmiss hcommand hok) ho

/-- A transaction of another core keeps what holds of a core. -/
theorem sound_note {phase : Phase} (hsound : phase.Sound platform s.mem core)
    (hfree : s.mem.llscLocks.llsc0.a = LlscLocks.free)
    (haccess : access platform.config s.mem trans = some served) (hsender : sender ≠ core)
    (hother : trans.llsc ≠ some core)
    (hplain : ∀ call rdata log, phase = .storing call rdata log → trans.command = .write →
      trans.llsc = none → accepted platform.config trans →
        Reserved platform s.mem core call → ¬Covers platform call trans) :
    (phase.note (transferOf s sender trans served)).Sound platform served.1 core := by
  cases phase with
  | idle => trivial
  | returned call ok2 rdata log => exact hsound
  | loading call rdata log =>
      exact ⟨hsound.1, quiet_append hsound.2 fun hown => absurd hown hsender⟩
  | storing call rdata log =>
      obtain ⟨hfits, earlier, link, between, rfl, hlinked⟩ := hsound
      refine ⟨hfits, earlier, link, between ++ [transferOf s sender trans served], ?_, ?_⟩
      · rw [List.append_assoc, List.cons_append]
      · exact linked_after hlinked hfree haccess hsender hother (hplain call rdata _ rfl)

/-- The load-linked of an exchange. -/
theorem sound_load {log : List Transfer} (hfits : call.Fits platform) (hquiet : Quiet core log)
    (haccess : access platform.config s.mem
      (loadLinked core (call.memaddr &&& ~~~7) rdata) = some served)
    (hknown : KnownPage platform.config.newPage s.mem.memoryHashMap
      (pageBase (call.offset platform))) :
    (receives platform.endianFlip served.2 (.loading call rdata
      (log ++ [transferOf s core (loadLinked core (call.memaddr &&& ~~~7) rdata) served]))).Sound
        platform served.1 core := by
  let link := transferOf s core (loadLinked core (call.memaddr &&& ~~~7) rdata) served
  have hread : ¬link.Stores := fun hstores => by cases hstores.1
  have honce : Quiet core (log ++ [link]) := quiet_append hquiet fun _ => hread
  simp only [receives]
  by_cases hanswer : served.2.response = .ok
  · rw [if_neg (not_not.mpr hanswer)]
    obtain ⟨hrange, haligned, hbytes⟩ := access_read_doubleword haccess rfl rfl hanswer
    refine ⟨hfits, log, link, [], rfl, ?_⟩
    exact {
      linked := ⟨rfl, rfl, rfl⟩
      others := by simp
      once := honce
      accepted := hrange
      aligned := haligned
      known := knownPage_access haccess hknown
      intact := by
        refine fun _ => ⟨by simp, fun o ho => ?_⟩
        have hlane := (lane_of_place platform call ho).1
        rw [bytes64_load64 _ hlane, hbytes _ hlane]
        apply shown_access_of_not_stored haccess
        · exact (page_of_lane haligned hlane).symm ▸ hknown
        · exact fun hcommand => by cases hcommand }
  · rw [if_pos hanswer]
    exact honce

theorem byteEnableLength_storeConditional (endianFlip procID : ℕ) (memaddr value : Word64)
    (width : Width) :
    (storeConditional endianFlip procID memaddr value width).byteEnableLength < 2 ^ 31 := by
  have hlength : (storeConditional endianFlip procID memaddr value width).byteEnableLength =
      if width = .w64 then 0 else 8 := rfl
  rw [hlength]
  split_ifs <;> norm_num

/-- The lanes of a store-conditional that are looked at whole are all set. -/
theorem storeConditional_agrees (endianFlip procID : ℕ) (memaddr value : Word64)
    (width : Width) :
    wholeWord (storeConditional endianFlip procID memaddr value width) 0 →
      ∀ l < 8, enableSet (storeConditional endianFlip procID memaddr value width) l := by
  intro hwhole l hl
  have hset := byteEnabled_eq (storeConditional endianFlip procID memaddr value width) hl
  rw [hwhole, Bool.true_or, byteEnabled,
    bel_of_lt (byteEnableLength_storeConditional _ _ _ _ _)] at hset
  cases width with
  | w64 => rfl
  | _ => simpa [enableSet, storeConditional] using hset

/-- An enable of a store-conditional is all ones or zero. -/
theorem enableSet_storeConditional (endianFlip procID : ℕ) (memaddr value : Word64)
    (width : Width) (l : ℕ) :
    enableSet (storeConditional endianFlip procID memaddr value width) l =
      laneEnabled (storeConditional endianFlip procID memaddr value width) l := by
  have hmask : ∀ bytes piece i, (decide (writeMask bytes piece i ≠ 0)) =
      decide (writeMask bytes piece i = 0xFF) := by
    intro bytes piece i
    unfold writeMask
    split <;> rfl
  cases width with
  | w64 => rfl
  | w8 => exact hmask _ _ _
  | w16 => exact hmask _ _ _
  | w32 => exact hmask _ _ _

/-- The memory as the cores see it takes a store-conditional as a memory of lanes does. -/
theorem lanes_store (haccess : access platform.config s.mem
      (storeConditional platform.endianFlip core call.memaddr call.wdata call.width) =
        some served)
    (hanswer : served.2.response = .ok) (haligned : (call.offset platform).toNat % 8 = 0)
    (hknown : KnownPage platform.config.newPage s.mem.memoryHashMap
      (pageBase (call.offset platform))) :
    lanes platform.config served.1.memoryHashMap =
      (lanes platform.config s.mem.memoryHashMap).store
        (storeConditional platform.endianFlip core call.memaddr call.wdata call.width) := by
  funext y
  have hshown := shown_access_doubleword haccess rfl rfl hanswer haligned
    (fun _ => byteEnableLength_storeConditional _ _ _ _ _)
    (storeConditional_agrees _ _ _ _ _) hknown (y - platform.config.memBase)
  have hdistance : y - platform.config.memBase - offsetOf platform.config
      (storeConditional platform.endianFlip core call.memaddr call.wdata call.width) =
        y - (call.memaddr &&& ~~~7) :=
    sub_sub_sub_cancel_right y (call.memaddr &&& ~~~7) platform.config.memBase
  rw [hdistance, enableSet_storeConditional] at hshown
  exact hshown

/-- A store-conditional that is refused leaves an exchange that stored nothing. -/
theorem sound_refused {mem : GenericTlmMem} {log : List Transfer} {answer : Payload}
    (hfits : call.Fits platform) (hquiet : Quiet core log) (hanswer : answer.response ≠ .ok) :
    (receives platform.endianFlip answer (.storing call rdata log)).Sound platform mem core := by
  have hresult : conditionalResult answer.response ≠ 1 := by
    intro hone
    revert hanswer hone
    cases answer.response <;> simp [conditionalResult]
  simp only [receives]
  split
  · change Atomic platform core call _ _ _
    rw [Atomic, if_neg hresult]
    exact hquiet
  · exact ⟨hfits, hquiet⟩

/-- The store-conditional of an exchange. -/
theorem sound_store {log : List Transfer}
    (hsound : (Phase.storing call rdata log).Sound platform s.mem core)
    (hfree : s.mem.llscLocks.llsc0.a = LlscLocks.free)
    (haccess : access platform.config s.mem
      (storeConditional platform.endianFlip core call.memaddr call.wdata call.width) =
        some served) :
    (receives platform.endianFlip served.2 (.storing call rdata
      (log ++ [transferOf s core
        (storeConditional platform.endianFlip core call.memaddr call.wdata call.width)
        served]))).Sound platform served.1 core := by
  obtain ⟨hfits, earlier, link, between, rfl, hlinked⟩ := hsound
  let store := transferOf s core
    (storeConditional platform.endianFlip core call.memaddr call.wdata call.width) served
  by_cases hanswer : served.2.response = .ok
  · have hreserved : Reserved platform s.mem core call :=
      reserved_of_store hfree haccess rfl rfl rfl hanswer
    obtain ⟨hundisturbed, hbytes⟩ := hlinked.intact hreserved
    have hlanes := lanes_store haccess hanswer hlinked.aligned hlinked.known
    simp only [receives, hanswer, conditionalResult]
    rw [if_pos (by norm_num)]
    change Atomic platform core call 1 _ _
    rw [Atomic, if_pos rfl]
    refine ⟨earlier, link, between, store, ?_, ?_⟩
    · rw [List.append_assoc, List.cons_append]
    · exact {
        linked := hlinked.linked
        others := hlinked.others
        stores := ⟨rfl, rfl, hanswer⟩
        stored := by
          have hstored := stored_storedAt (lanes platform.config s.mem.memoryHashMap)
            platform.flip call.aligned (call.wdata.setWidth call.width.bits)
          rwa [← store_storeConditional platform.flip call.aligned hfits.1 core call.wdata,
            ← hlanes] at hstored
        once := hlinked.once
        returns := by
          apply ext_bytes
          intro o ho
          rw [adjusted_bytes hfits rdata ho, extract_contents _ _ _ _ ho, ← hbytes o ho,
            ← (lane_of_place platform call ho).2]
          rfl
        undisturbed := hundisturbed }
  · have hquiet : Quiet core ((earlier ++ link :: between) ++ [store]) :=
      quiet_append hlinked.once fun _ hstores => hanswer hstores.2
    exact sound_refused hfits hquiet hanswer

/-- A store-conditional that is answered with an error on its way. -/
theorem sound_fault {log : List Transfer} {answer : Payload}
    (hsound : (Phase.storing call rdata log).Sound platform s.mem core)
    (hanswer : answer.response ≠ .ok) :
    (receives platform.endianFlip answer (.storing call rdata log)).Sound platform s.mem
      core := by
  obtain ⟨hfits, earlier, link, between, rfl, hlinked⟩ := hsound
  exact sound_refused hfits hlinked.once hanswer

end Steps

/-! ## Runs -/

/-- A core goes on while the others stay where they are. -/
theorem sound_setPhase {s : System} {core : ℕ} {phase : Phase}
    (hfree : s.mem.llscLocks.llsc0.a = LlscLocks.free)
    (hphase : phase.Sound platform s.mem core)
    (hothers : ∀ other, other ≠ core → (s.cores other).Sound platform s.mem other) :
    (s.setPhase core phase).Sound platform := by
  refine ⟨hfree, fun other => ?_⟩
  change (Function.update s.cores core phase other).Sound platform s.mem other
  by_cases hsame : other = core
  · rw [hsame, Function.update_self]
    exact hphase
  · rw [Function.update_of_ne hsame]
    exact hothers other hsame

/-- The transactions of an exchange carry the identity of its core. -/
theorem llsc_sends {endianFlip procID : ℕ} {phase : Phase} {trans : Payload}
    (hsends : sends endianFlip procID phase = some trans) : trans.llsc = some procID := by
  cases phase with
  | idle => cases hsends
  | returned call ok2 rdata log => cases hsends
  | loading call rdata log => exact Option.some.inj hsends ▸ rfl
  | storing call rdata log => exact Option.some.inj hsends ▸ rfl

theorem sound_step {platform : Platform} {s next : System} {move : Move}
    (hsound : s.Sound platform) (hguard : Careful platform s move)
    (hstep : step platform s move = some next) : next.Sound platform := by
  cases move with
  | call core call rdata =>
      rw [step] at hstep
      split at hstep
      · cases hstep
      rw [Option.some.injEq] at hstep
      subst hstep
      apply sound_setPhase hsound.free
      · exact ⟨hguard, fun _ hmem => by cases hmem⟩
      · exact fun other _ => hsound.cores other
  | exchange core =>
      obtain ⟨trans, hsends, hserve⟩ := Option.bind_eq_some_iff.mp hstep
      obtain ⟨served, haccess, rfl⟩ := Option.map_eq_some_iff.mp hserve
      have hllsc := llsc_sends hsends
      apply sound_setPhase (llsc0_access hsound.free haccess)
      · have hcore := hsound.cores core
        change Phase.Sound platform served.1 core
          (receives _ served.2 ((s.cores core).note (transferOf s core trans served)))
        revert hsends hcore
        cases hphase : s.cores core with
        | idle => exact fun hsends => by cases hsends
        | returned call ok2 rdata log => exact fun hsends => by cases hsends
        | loading call rdata log =>
            intro hsends hcore
            obtain rfl := Option.some.inj hsends
            exact sound_load hcore.1 hcore.2 haccess (hguard call rdata log hphase)
        | storing call rdata log =>
            intro hsends hcore
            obtain rfl := Option.some.inj hsends
            exact sound_store hcore hsound.free haccess
      · intro other hother
        have hid : trans.llsc ≠ some other := by
          rw [hllsc]
          exact fun hsame => hother (Option.some.inj hsame).symm
        apply sound_note (hsound.cores other) hsound.free haccess hother.symm hid
        intro _ _ _ _ _ hnone
        rw [hllsc] at hnone
        cases hnone
  | fault core response =>
      rw [step] at hstep
      split at hstep
      · cases hstep
      case isFalse hresponse =>
      obtain ⟨trans, hsends, rfl⟩ := Option.map_eq_some_iff.mp hstep
      refine sound_setPhase hsound.free ?_ fun other _ => hsound.cores other
      have hcore := hsound.cores core
      revert hsends hcore
      cases s.cores core with
      | idle => exact fun hsends => by cases hsends
      | returned call ok2 rdata log => exact fun hsends => by cases hsends
      | loading call rdata log =>
          intro _ hcore
          simp only [receives]
          rw [if_pos hresponse]
          exact hcore.2
      | storing call rdata log =>
          intro _ hcore
          exact sound_fault hcore hresponse
  | transact core payload =>
      rw [step] at hstep
      split at hstep
      · cases hstep
      case isFalse hallowed =>
      obtain ⟨served, haccess, rfl⟩ := Option.map_eq_some_iff.mp hstep
      obtain ⟨hidle, hown⟩ := not_or.mp hallowed
      refine ⟨llsc0_access hsound.free haccess, fun other => ?_⟩
      have hother := hsound.cores other
      by_cases hsame : other = core
      · subst hsame
        exact sound_of_not_busy hidle hother
      · have hid : payload.llsc ≠ some other := by
          rcases not_not.mp hown with hnone | hsome
          · simp [hnone]
          · rw [hsome]
            exact fun heq => hsame (Option.some.inj heq).symm
        apply sound_note hother hsound.free haccess (Ne.symm hsame) hid
        intro call rdata log hphase hcommand hnone haccepted
        exact hguard hcommand hnone haccepted other call rdata log hphase

/-- From power-on, in every state that careful moves reach, each exchange that returned
is atomic. -/
theorem atomic_of_careful (platform : Platform) (pages : Pages) (moves : List Move)
    (s : System)
    (hguard : Guarded.Meets (step platform) (Careful platform) (.powerOn pages) moves)
    (hrun : Guarded.exec (step platform) (.powerOn pages) moves = some s) (core : ℕ)
    (call : Call) (ok2 : ℕ) (rdata : Word64) (log : List Transfer)
    (hreturned : s.cores core = .returned call ok2 rdata log) :
    Atomic platform core call ok2 rdata log := by
  have hsound : s.Sound platform :=
    Guarded.exec_invariant (fun _ _ _ => sound_step) (sound_powerOn platform pages) hguard hrun
  have hcore := hsound.cores core
  rw [hreturned] at hcore
  exact hcore

/-! ## Runs of two cores -/

/-- A little-endian platform with a page of zeros at address zero. -/
def smallPlatform : Platform :=
  { config := onePage, endianFlip := 0, flip := .inl rfl }

/-- An exchange of the doubleword at address zero. -/
def zeroCall (wdata : Word64) : Call :=
  { memaddr := 0, wdata := wdata, width := .w64, aligned := Nat.dvd_zero _ }

/-- Core 0 loses its lock to core 1, tries again, and gets what core 1 has stored. -/
theorem atomic_of_careful_pair : ∃ log, Atomic smallPlatform 0 (zeroCall 9) 1 5 log := by
  have hzero (pages : Pages) (base : Word64) :
      KnownPage smallPlatform.config.newPage pages base := .inr fun _ => rfl
  have hcall (wdata : Word64) : (zeroCall wdata).Fits smallPlatform := by
    constructor
    · exact fun hshort => Width.noConfusion hshort
    · exact fun hbyte => Width.noConfusion hbyte
  refine ⟨_, atomic_of_careful smallPlatform (fun _ => none)
    [.call 0 (zeroCall 9) 0, .exchange 0, .call 1 (zeroCall 5) 0, .exchange 1, .exchange 0,
      .exchange 1, .exchange 0, .exchange 0] _ ?_ rfl 0 _ _ _ _ rfl⟩
  refine ⟨hcall 9, fun _ _ => ⟨fun _ _ _ _ => hzero _ _, fun _ _ => ⟨hcall 5, fun _ _ =>
    ⟨fun _ _ _ _ => hzero _ _, fun _ _ => ⟨fun _ _ _ _ => hzero _ _, fun _ _ =>
      ⟨fun _ _ _ _ => hzero _ _, fun _ _ => ⟨fun _ _ _ _ => hzero _ _, fun _ _ =>
        ⟨fun _ _ _ _ => hzero _ _, fun _ _ => trivial⟩⟩⟩⟩⟩⟩⟩⟩

theorem getLast?_log (earlier : List Transfer) (link : Transfer) (between : List Transfer)
    (store : Transfer) :
    (earlier ++ link :: (between ++ [store])).getLast? = some store := by
  rw [← List.cons_append, ← List.append_assoc, List.getLast?_concat]

/-- Core 0 has linked the doubleword, core 1 writes sevens to it, and core 0 stores and
returns the zero it read before. -/
theorem not_atomic :
    ¬∀ (platform : Platform) (pages : Pages) (moves : List Move) (s : System),
      Guarded.exec (step platform) (.powerOn pages) moves = some s →
        ∀ (core : ℕ) (call : Call) (ok2 : ℕ) (rdata : Word64) (log : List Transfer),
          s.cores core = .returned call ok2 rdata log →
            Atomic platform core call ok2 rdata log := by
  intro hclaim
  have hatomic := hclaim smallPlatform (fun _ => none)
    [.call 0 (zeroCall 9) 0, .exchange 0, .transact 1 (doubleword .write 0 (fun _ => 7) none),
      .exchange 0] _ rfl 0 _ _ _ _ rfl
  rw [Atomic, if_pos (by decide)] at hatomic
  obtain ⟨earlier, link, between, store, hlog, hexchanged⟩ := hatomic
  have hlast := congrArg (fun log : List Transfer => log.getLast?.map fun transfer =>
    contents 0 (lanes onePage transfer.found) .w64 0) hlog
  rw [getLast?_log, Option.map_some] at hlast
  -- what the memory held before the store is not what was returned
  have hreturns := hlast.trans (congrArg some hexchanged.returns.symm)
  revert hreturns
  decide

end Prazor.Bus.Xchg
