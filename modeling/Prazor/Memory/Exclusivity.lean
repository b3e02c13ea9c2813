import Prazor.Core.Guarded
import Prazor.Memory.GenericTlmMem

/-!
# Exclusivity of store-conditionals

Beside the memory runs an abstract monitor.  For every requester it remembers
the address of its most recent load-linked together with the bytes it found
there, and forgets them when a write puts a byte in that doubleword.  A
store-conditional is exclusive when the monitor still remembers its address for
its requester.

The lock slots of the memory are weaker than the monitor in two places: a plain
write leaves them alone, and a load-linked is entered under the low 32 bits of
its offset.  Runs without these two kinds of step have only exclusive
store-conditionals.
-/

namespace Prazor.Memory

open Prazor.Tlm

/-- A load-linked no write has reached since. -/
structure Link where
  address : Word64
  seen : ℕ → Option Byte

/-- The memory beside the monitor. -/
structure Monitored where
  mem : GenericTlmMem
  links : ℕ → Option Link

/-- The offset an access works on. -/
def offsetOf (config : MemoryConfig) (trans : Payload) : Word64 :=
  trans.address - config.memBase

/-- The transaction stores a byte in the doubleword at an offset. -/
def touches (config : MemoryConfig) (trans : Payload) (address : Word64) : Bool :=
  (List.range 8).any fun k =>
    storesByte config trans (address + BitVec.ofNat 64 k)

/-- The monitor after a transaction that was answered with `answer`. -/
def linksAfter (config : MemoryConfig) (state : Monitored) (trans answer : Payload) :
    ℕ → Option Link :=
  if answer.response ≠ .ok then state.links
  else
    match trans.command, trans.llsc with
    | .read, some id =>
        Function.update state.links id (some
          { address := offsetOf config trans
            seen := fun k => state.mem.memoryHashMap.byte
              (offsetOf config trans + BitVec.ofNat 64 k) })
    | .write, _ => fun id =>
        (state.links id).filter fun link => !touches config trans link.address
    | _, _ => state.links

/-- One transaction, seen by the memory and by the monitor. -/
def monitoredStep (config : MemoryConfig) (state : Monitored) (trans : Payload) :
    Option Monitored :=
  (access config state.mem trans).map fun answer =>
    { mem := answer.1, links := linksAfter config state trans answer.2 }

/-- A memory with this image, before the first transaction. -/
def Monitored.powerOn (pages : Pages) : Monitored :=
  { mem := { memoryHashMap := pages, llscLocks := .fresh }, links := fun _ => none }

/-- The address and the length pass the checks of an access. -/
def accepted (config : MemoryConfig) (trans : Payload) : Prop :=
  offsetOf config trans < config.memSizeBytes ∧ trans.dataLength % 8 = 0

/-- The steps the lock slots can follow: a load-linked at an offset of 32 bits,
and no plain write into a doubleword that a slot holds. -/
structure RespectsLocks (config : MemoryConfig) (state : Monitored)
    (trans : Payload) : Prop where
  narrow : accepted config trans → trans.command = .read → trans.llsc ≠ none →
    (offsetOf config trans).toNat < 2 ^ 32
  plain : accepted config trans → trans.command = .write → trans.llsc = none →
    ∀ lock ∈ [state.mem.llscLocks.llsc0, state.mem.llscLocks.llsc1],
      lock.a ≠ LlscLocks.free → touches config trans lock.a = false

/-! ## What an access does -/

theorem loadlockedFail_snd (id : ℕ) (lks : LlscLocks) (adr : BitVec 32) :
    (lks.loadlockedFail id adr).2 = false := by
  simp only [LlscLocks.loadlockedFail]
  split
  · rfl
  · split
    · rfl
    · split <;> rfl

theorem storeconditionalFail_of_failed {id : ℕ} {lks : LlscLocks} {adr : Word64}
    (hfailed : (lks.storeconditionalFail id adr).2 = true) :
    (lks.storeconditionalFail id adr).1 = lks := by
  revert hfailed
  rw [LlscLocks.storeconditionalFail]
  split
  · exact fun hfailed => by cases hfailed
  · split
    · exact fun hfailed => by cases hfailed
    · exact fun _ => rfl

/-- An accepted offset is not the mark of a free slot. -/
theorem accepted.ne_free {config : MemoryConfig} {trans : Payload}
    (haccepted : accepted config trans) :
    offsetOf config trans ≠ LlscLocks.free := by
  intro hfree
  have hlt := BitVec.lt_def.mp haccepted.1
  have hmax : LlscLocks.free.toNat = 2 ^ 64 - 1 := by decide
  have hsize := config.memSizeBytes.isLt
  rw [hfree] at hlt
  omega

/-- Everything an access can do to the memory. -/
inductive AccessOutcome (config : MemoryConfig) (mem : GenericTlmMem)
    (trans : Payload) (next : GenericTlmMem) (answer : Payload) : Prop where
  | refused (hnext : next = mem) (hanswer : answer.response ≠ .ok)
  | unlinkedRead (hcommand : trans.command = .read) (hllsc : trans.llsc = none)
      (hnext : next = mem)
  | loadLinked (id : ℕ) (haccepted : accepted config trans)
      (hcommand : trans.command = .read) (hllsc : trans.llsc = some id)
      (hanswer : answer.response = .ok)
      (hnext : next = { mem with llscLocks :=
        (mem.llscLocks.loadlockedFail id ((offsetOf config trans).setWidth 32)).1 })
  | plainWrite (haccepted : accepted config trans) (hcommand : trans.command = .write)
      (hllsc : trans.llsc = none) (hanswer : answer.response = .ok)
      (hlocks : next.llscLocks = mem.llscLocks)
      (hpages : (doublewords trans.dataLength).foldlM
        (storeWord config.newPage trans (offsetOf config trans)) mem.memoryHashMap =
          some next.memoryHashMap)
  | storeConditional (id : ℕ) (haccepted : accepted config trans)
      (hcommand : trans.command = .write) (hllsc : trans.llsc = some id)
      (hanswer : answer.response = .ok)
      (hlocks : mem.llscLocks.storeconditionalFail id (offsetOf config trans) =
        (next.llscLocks, false))
  | ignored (hcommand : trans.command = .ignore) (hnext : next = mem)

theorem access_outcome {config : MemoryConfig} {mem next : GenericTlmMem}
    {trans answer : Payload} (haccess : access config mem trans = some (next, answer)) :
    AccessOutcome config mem trans next answer := by
  simp only [access] at haccess
  split at haccess
  case isTrue =>
    obtain ⟨rfl, rfl⟩ := Prod.mk.inj (Option.some.inj haccess)
    exact .refused rfl (by simp)
  case isFalse hrange =>
  split at haccess
  case isTrue =>
    obtain ⟨rfl, rfl⟩ := Prod.mk.inj (Option.some.inj haccess)
    exact .refused rfl (by simp)
  case isFalse hlen =>
  have haccepted : accepted config trans := ⟨BitVec.not_le.mp hrange, not_not.mp hlen⟩
  cases hcommand : trans.command with
  | ignore =>
      rw [hcommand] at haccess
      obtain ⟨rfl, rfl⟩ := Prod.mk.inj (Option.some.inj haccess)
      exact .ignored hcommand rfl
  | read =>
      rw [hcommand] at haccess
      cases hllsc : trans.llsc with
      | none =>
          simp only [hllsc, Bool.false_eq_true, if_false, Option.map_eq_some_iff,
            Prod.mk.injEq] at haccess
          obtain ⟨data, -, hnext, -⟩ := haccess
          exact .unlinkedRead hcommand hllsc hnext.symm
      | some id =>
          simp only [hllsc, loadlockedFail_snd, Bool.false_eq_true, if_false,
            Option.map_eq_some_iff, Prod.mk.injEq] at haccess
          obtain ⟨data, -, hnext, rfl⟩ := haccess
          exact .loadLinked id haccepted hcommand hllsc rfl hnext.symm
  | write =>
      rw [hcommand] at haccess
      cases hllsc : trans.llsc with
      | none =>
          simp only [hllsc, Bool.false_eq_true, if_false, Option.map_eq_some_iff,
            Prod.mk.injEq] at haccess
          obtain ⟨pages, hpages, rfl, rfl⟩ := haccess
          exact .plainWrite haccepted hcommand hllsc rfl rfl hpages
      | some id =>
          simp only [hllsc] at haccess
          split at haccess
          case isTrue hfailed =>
            obtain ⟨rfl, rfl⟩ := Prod.mk.inj (Option.some.inj haccess)
            rw [storeconditionalFail_of_failed hfailed]
            exact .refused rfl (by simp)
          case isFalse hfound =>
            obtain ⟨pages, -, hnext⟩ := Option.map_eq_some_iff.mp haccess
            obtain ⟨rfl, rfl⟩ := Prod.mk.inj hnext
            exact .storeConditional id haccepted hcommand hllsc rfl
              (Prod.ext rfl (Bool.not_eq_true _ ▸ hfound))

/-! ## The slots follow the monitor -/

/-- The bytes a link has seen are still there. -/
def Link.Intact (link : Link) (pages : Pages) : Prop :=
  ∀ k, k < 8 → ∀ v, link.seen k = some v →
    pages.byte (link.address + BitVec.ofNat 64 k) = some v

/-- The first slot is free; the second is free or holds the address of an
intact link of its requester. -/
structure SlotsFollow (state : Monitored) : Prop where
  first : state.mem.llscLocks.llsc0.a = LlscLocks.free
  second : state.mem.llscLocks.llsc1.a ≠ LlscLocks.free →
    ∃ link, state.links state.mem.llscLocks.llsc1.id = some link ∧
      link.address = state.mem.llscLocks.llsc1.a ∧
      link.Intact state.mem.memoryHashMap

theorem slotsFollow_powerOn (pages : Pages) : SlotsFollow (.powerOn pages) :=
  ⟨rfl, fun hheld => absurd rfl hheld⟩

/-- A write that does not touch the doubleword of a link leaves it intact. -/
theorem intact_of_not_touched {config : MemoryConfig} {trans : Payload}
    {pages next : Pages} {link : Link}
    (hpages : (doublewords trans.dataLength).foldlM
      (storeWord config.newPage trans (offsetOf config trans)) pages = some next)
    (htouch : touches config trans link.address = false)
    (hintact : link.Intact pages) : link.Intact next := by
  intro k hk v hseen
  refine byte_foldlM_storeWord hpages ?_ (hintact k hk v hseen)
  intro dd hdd l hl hlane heq
  -- a lane stored at this address would make the transaction touch the link
  have htrue : touches config trans link.address = true := by
    simp only [touches, storesByte, List.any_eq_true, List.mem_range,
      Bool.and_eq_true, decide_eq_true_eq]
    exact ⟨k, hk, dd, hdd, l, hl, hlane, heq⟩
  rw [htouch] at htrue
  cases htrue

theorem slotsFollow_step {config : MemoryConfig} {state next : Monitored}
    {trans : Payload} (hstate : SlotsFollow state)
    (hguard : RespectsLocks config state trans)
    (hstep : monitoredStep config state trans = some next) : SlotsFollow next := by
  obtain ⟨⟨mem, answer⟩, haccess, rfl⟩ := Option.map_eq_some_iff.mp hstep
  cases access_outcome haccess with
  | refused hnext hanswer =>
      subst hnext
      simpa only [linksAfter, if_pos hanswer] using hstate
  | unlinkedRead hcommand hllsc hnext =>
      subst hnext
      simpa only [linksAfter, hcommand, hllsc, ite_self] using hstate
  | ignored hcommand hnext =>
      subst hnext
      simpa only [linksAfter, hcommand, ite_self] using hstate
  | loadLinked id haccepted hcommand hllsc hanswer hnext =>
      have hnarrow : ((offsetOf config trans).setWidth 32).setWidth 64 =
          offsetOf config trans := by
        apply BitVec.eq_of_toNat_eq
        have hlt := hguard.narrow haccepted hcommand (by simp [hllsc])
        simp only [BitVec.toNat_setWidth]
        omega
      rw [LlscLocks.loadlockedFail_of_free hstate.first, hnarrow] at hnext
      subst hnext
      refine ⟨hstate.first, fun _ => ⟨Link.mk (offsetOf config trans) fun k =>
        state.mem.memoryHashMap.byte (offsetOf config trans + BitVec.ofNat 64 k),
        ?_, rfl, fun k _ v hseen => hseen⟩⟩
      simp [linksAfter, hanswer, hcommand, hllsc]
  | plainWrite haccepted hcommand hllsc hanswer hlocks hpages =>
      constructor
      · rw [hlocks]
        exact hstate.first
      · simp only [hlocks]
        intro hheld
        obtain ⟨link, hlink, haddress, hintact⟩ := hstate.second hheld
        have htouch : touches config trans link.address = false := by
          rw [haddress]
          exact hguard.plain haccepted hcommand hllsc _ (by simp) hheld
        refine ⟨link, ?_, haddress, intact_of_not_touched hpages htouch hintact⟩
        simp [linksAfter, hanswer, hcommand, hlink, htouch]
  | storeConditional id haccepted hcommand hllsc hanswer hlocks =>
      rw [LlscLocks.storeconditionalFail_of_free hstate.first id
        haccepted.ne_free] at hlocks
      split at hlocks
      case isTrue =>
        -- the slot that granted the write is free again
        obtain ⟨hslots, -⟩ := Prod.mk.inj hlocks
        constructor
        · simpa only [← hslots] using hstate.first
        · exact fun hheld => absurd (by simp only [← hslots]) hheld
      case isFalse =>
        cases (Prod.mk.inj hlocks).2

/-! ## Exclusivity -/

/-- Every store-conditional that succeeds in this state is exclusive, and finds
the bytes its load-linked has seen. -/
def Exclusive (config : MemoryConfig) (state : Monitored) : Prop :=
  ∀ id trans next answer, trans.command = .write → trans.llsc = some id →
    access config state.mem trans = some (next, answer) → answer.response = .ok →
      ∃ link, state.links id = some link ∧
        link.address = offsetOf config trans ∧
        link.Intact state.mem.memoryHashMap

theorem exclusive_of_slotsFollow {config : MemoryConfig} {state : Monitored}
    (hstate : SlotsFollow state) : Exclusive config state := by
  intro id trans next answer hcommand hllsc haccess hanswer
  cases access_outcome haccess with
  | refused _ hrefused => exact absurd hanswer hrefused
  | unlinkedRead hread _ _ => simp [hcommand] at hread
  | loadLinked _ _ hread _ _ _ => simp [hcommand] at hread
  | ignored hignore _ => simp [hcommand] at hignore
  | plainWrite _ _ hnone _ _ _ => simp [hllsc] at hnone
  | storeConditional id' haccepted _ hid' _ hlocks =>
      obtain rfl : id = id' := Option.some.inj (hllsc.symm.trans hid')
      rw [LlscLocks.storeconditionalFail_of_free hstate.first id
        haccepted.ne_free] at hlocks
      split at hlocks
      case isTrue hslot =>
        have hheld : state.mem.llscLocks.llsc1.a ≠ LlscLocks.free := by
          rw [hslot.1]
          exact haccepted.ne_free
        obtain ⟨link, hlink, haddress, hintact⟩ := hstate.second hheld
        rw [hslot.2] at hlink
        exact ⟨link, hlink, haddress.trans hslot.1, hintact⟩
      case isFalse =>
        cases (Prod.mk.inj hlocks).2

/-- In every state reached from power-on by steps the lock slots can follow,
every store-conditional that succeeds is exclusive. -/
theorem storeConditional_exclusive (config : MemoryConfig) (pages : Pages)
    (inputs : List Payload) (state : Monitored)
    (hguard : Guarded.Meets (monitoredStep config) (RespectsLocks config)
      (.powerOn pages) inputs)
    (hrun : Guarded.exec (monitoredStep config) (.powerOn pages) inputs = some state) :
    Exclusive config state :=
  exclusive_of_slotsFollow
    (Guarded.exec_invariant (fun _ _ _ => slotsFollow_step)
      (slotsFollow_powerOn pages) hguard hrun)

/-- A doubleword access of the bus, with or without the extension. -/
def doubleword (command : Command) (address : Word64) (data : Buffer)
    (llsc : Option ℕ) : Payload :=
  { command := command
    address := address
    data := data
    dataLength := 8
    byteEnable := none
    byteEnableLength := 0
    llsc := llsc
    response := .incomplete }

/-- A memory of one page at address zero. -/
def onePage : MemoryConfig :=
  { memBase := 0, memSizeBytes := 4096, newPage := fun _ _ => 0 }

/-- Requester 1 links a doubleword and another one is written: its store-conditional
succeeds and is exclusive. -/
theorem storeConditional_exclusive_elsewhere :
    ∃ state next answer,
      Guarded.exec (monitoredStep onePage) (.powerOn fun _ => none)
          [doubleword .read 0 (fun _ => 0) (some 1),
            doubleword .write 64 (fun _ => 7) none] = some state ∧
        access onePage state.mem (doubleword .write 0 (fun _ => 9) (some 1)) =
          some (next, answer) ∧
        answer.response = .ok ∧
        ∃ link, state.links 1 = some link ∧ link.Intact state.mem.memoryHashMap := by
  refine ⟨_, _, _, rfl, rfl, rfl, ?_⟩
  have hread : RespectsLocks onePage (.powerOn fun _ => none)
      (doubleword .read 0 (fun _ => 0) (some 1)) :=
    { narrow := fun _ _ _ => by decide
      plain := fun _ hwrite => by cases hwrite }
  have hexclusive := storeConditional_exclusive onePage (fun _ => none)
    [doubleword .read 0 (fun _ => 0) (some 1), doubleword .write 64 (fun _ => 7) none] _
    (Guarded.meets_cons rfl hread (Guarded.meets_cons rfl
      { narrow := fun _ hread => by cases hread
        -- one slot is free and the other one holds the doubleword at zero
        plain := fun _ _ _ lock hlock _ => by
          rcases List.mem_pair.mp hlock with rfl | rfl <;> decide } trivial)) rfl
  obtain ⟨link, hlink, -, hintact⟩ := hexclusive 1
    (doubleword .write 0 (fun _ => 9) (some 1)) _ _ rfl rfl rfl rfl
  exact ⟨link, hlink, hintact⟩

/-- Requester 1 links a doubleword, a plain write replaces it, and the
store-conditional of requester 1 still succeeds. -/
theorem storeConditional_after_plain_write :
    ∃ state next answer,
      Guarded.exec (monitoredStep onePage) (.powerOn fun _ => none)
          [doubleword .read 0 (fun _ => 0) (some 1),
            doubleword .write 0 (fun _ => 7) none] = some state ∧
        access onePage state.mem (doubleword .write 0 (fun _ => 9) (some 1)) =
          some (next, answer) ∧
        answer.response = .ok ∧ state.links 1 = none ∧ ¬Exclusive onePage state := by
  refine ⟨_, _, _, rfl, rfl, rfl, rfl, ?_⟩
  intro hexclusive
  obtain ⟨link, hlink, -⟩ := hexclusive 1
    (doubleword .write 0 (fun _ => 9) (some 1)) _ _ rfl rfl rfl rfl
  cases hlink

end Prazor.Memory
