import Prazor.Arm.Armisa
import Prazor.Core.Assignments

/-!
# Block transfers: LDM and STM

`bodystate_clock` moves one register of the list in each clock, starting with the lowest
address and working upwards, and takes a data abort where the memory refuses an access.
The body states of the other instructions are left out, and with them the transfer sizes
that `DecodeMultiple` does not set.

`armisa_read1` and `armisa_write1` belong to the core that the interpreter is built into.
Here a memory of bytes stands behind them that refuses the accesses at some addresses; an
access that is refused changes nothing.
-/

namespace Prazor.Arm

open Prazor.Assignments

/-- The body states that a block transfer goes through. -/
inductive RunState
  | runningS
  | midMultipleS
  | midMultiple2S
  deriving DecidableEq, Repr

/-- The vector of data aborts. -/
def dataVector : BitVec 32 := 0xFFFF0010

def lrReg : ℕ := 14

/-- The interpreter with the fields of a block transfer and the memory.  `insBlockT` says
that `insDecodeT` is `BlockT`. -/
structure BlockArmisa extends Armisa where
  insBlockT : Bool
  insL : Bool
  insP : Bool
  insU : Bool
  insW : Bool
  insMultRegisters : BitVec 16
  insMultCount : BitVec 32
  insMultWriteback : BitVec 32
  insDataAddress : BitVec 32
  insDataOffset : BitVec 32
  insSUser : Bool
  insAddress : BitVec 32
  runstate : RunState
  vectorBase : BitVec 32
  itstate : BitVec 8
  mem : BitVec 32 → Byte
  fault : BitVec 32 → Bool

/-! ## Words in memory -/

/-- The word at an address. -/
def wordAt (mem : BitVec 32 → Byte) (addr : BitVec 32) : BitVec 32 :=
  Bytes.load32 fun i => mem (addr + BitVec.ofNat 32 i)

/-- The bytes of a word and where they go. -/
def wordBytes (addr word : BitVec 32) : List (BitVec 32 × Byte) :=
  (List.range 4).map fun i => (addr + BitVec.ofNat 32 i, word.extractLsb' (8 * i) 8)

namespace BlockArmisa

variable (s : BlockArmisa)

/-- An assignment to `raw_reg`. -/
def setRaw (i : ℕ) (v : BitVec 32) : BlockArmisa :=
  { s with rawReg := Function.update s.rawReg i v }

/-- An assignment to a register of the current bank. -/
def assignReg (r : ℕ) (v : BitVec 32) : Option BlockArmisa :=
  (s.toArmisa.setReg? r v).map fun core => { s with toArmisa := core }

/-- The T bit of the CPSR. -/
def thumbBit : BitVec 32 := 1 <<< 5

/-- `armisa_read1` of a word of data; `none` is a refused access. -/
def armisaRead1 (addr : BitVec 32) : Option (BitVec 32) :=
  if s.fault addr then none else some (wordAt s.mem addr)

def setMem (mem : BitVec 32 → Byte) : BlockArmisa := { s with mem := mem }

/-- `armisa_write1` of a word. -/
def armisaWrite1 (addr wdata : BitVec 32) : Option BlockArmisa :=
  if s.fault addr then none
  else some (s.setMem (assignAll s.mem (wordBytes addr wdata)))

/-- The first listed register from a number on: `while (0 == Bit(insMultRegisters, insRd))
insRd++`. -/
def seek (start : ℕ) : Option ℕ :=
  (List.range 16).find? fun j => s.insMultRegisters.getLsbD j && decide (start ≤ j)

/-- `DecodeMultiple`, which never asks to be called again. -/
def decodeMultiple : Option BlockArmisa :=
  let count := (List.range 16).countP fun j => s.insMultRegisters.getLsbD j
  if count = 0 then none
  else do
    let insMultCount := BitVec.ofNat 32 count
    let insDataAddress ← s.reg? s.insRn
    let (insMultWriteback, insDataAddress) :=
      if s.insU then (insDataAddress + 4 * insMultCount, insDataAddress)
      else (insDataAddress - insMultCount * 4, insDataAddress - insMultCount * 4 + 4)
    let insDataAddress :=
      if s.insP then if s.insU then insDataAddress + 4 else insDataAddress - 4
      else insDataAddress
    let insRd ← s.seek 0
    some { s with
      insMultCount := insMultCount
      insMultWriteback := insMultWriteback
      insDataAddress := insDataAddress
      insRd := insRd
      insSUser := (s.insL && s.insS && !s.insMultRegisters.getLsbD 15) || (!s.insL && s.insS) }

/-- Where a register that is transferred is kept: `raw_reg[r]` or `Reg(r)`. -/
def transferIndex (r : ℕ) : Option ℕ :=
  if s.insSUser then some r else Armisa.rawIndex s.currentBank r

/-- What a load of a word does to its register and, for the PC, to the T bit. -/
def loadWord (rd1 : ℕ) (readData : BitVec 32) : BlockArmisa :=
  let s := s.setRaw rd1 readData
  if s.insRd = pcReg then
    let s :=
      if bit readData 0 then
        (s.setRaw cpsrReg (s.cpsr ||| thumbBit)).setRaw rd1 (readData &&& ~~~1)
      else if bit readData 1 then s
      else s.setRaw cpsrReg (s.cpsr &&& ~~~thumbBit)
    s.setRaw rd1 (s.rawReg rd1 + armPcCorrection)
  else s

/-- The write-back of the single transfers. -/
def singleWriteback : Option BlockArmisa :=
  if s.runstate ≠ .midMultiple2S ∧ (s.insW ∨ ¬s.insP) then
    let s := if s.insP then s else { s with insDataAddress := s.insDataAddress + s.insDataOffset }
    if s.insDataOffset ≠ 0 then s.assignReg s.insRn s.insDataAddress else some s
  else some s

/-- The generic loads, for words: the result says whether the access was granted. -/
def genericLoad (rd1 : ℕ) : Option (BlockArmisa × Bool) :=
  match s.armisaRead1 s.insDataAddress with
  | some readData => (s.loadWord rd1 readData).singleWriteback.map (·, true)
  | none => some (s, false)

/-- The word that a store is to write. -/
def takeResult (v : BitVec 32) : BlockArmisa := { s with insAluResult := v, insAluResultHi := 0 }

/-- The generic stores, for words. -/
def genericStore (rd1 : ℕ) : Option (BlockArmisa × Bool) :=
  let s := s.takeResult (s.rawReg rd1)
  match s.armisaWrite1 s.insDataAddress s.insAluResult with
  | some s => s.singleWriteback.map (·, true)
  | none => some (s, false)

/-- `exec_mem_operand_instr` for plain words.  A load looks for the places of two
registers, as it may be one of a doubleword. -/
def execMemOperandInstr : Option (BlockArmisa × Bool) := do
  let rd1 ← s.transferIndex s.insRd
  if s.insL then
    let _rd2 ← s.transferIndex (s.insRd + 1)
    s.genericLoad rd1
  else s.genericStore rd1

/-- The last register of a load with S and the PC: the mode of before the exception. -/
def exceptionReturn : Option BlockArmisa :=
  if s.insL && s.insS && s.insMultRegisters.getLsbD 15 && decide (s.insRd = pcReg) then
    (s.reg? spsrReg).map fun spsr =>
      { s with toArmisa := (s.toArmisa.setCpsr spsr).decodeSetModeFromCpsr }
  else some s

/-- A PC that is odd selects Thumb. -/
def dropPcBit : BlockArmisa :=
  if s.insRd = pcReg ∧ bit (s.rawReg pcReg) 0 then
    let s := s.setRaw pcReg (s.rawReg pcReg &&& ~~~1)
    s.setRaw cpsrReg (s.cpsr ||| thumbBit)
  else s

/-- `DecodeMultiple2`: the result says whether the transfer is finished. -/
def decodeMultiple2 : Option (BlockArmisa × Bool) := do
  let s ← s.exceptionReturn
  let s := s.dropPcBit
  if s.insMultCount = 1 then
    let s ← if s.insW then s.assignReg s.insRn s.insMultWriteback else some s
    some (s, true)
  else
    let insRd ← s.seek (s.insRd + 1)
    some ({ s with
      insDataAddress := s.insDataAddress + 4
      insRd := insRd
      insMultCount := s.insMultCount - 1 }, false)

/-- `InITBlock` -/
def inITBlock : Bool := s.itstate &&& 0xF ≠ 0

/-- The PC that a trap saves.  After a 16-bit Thumb instruction it is moved on by two, as
the handler returns to four bytes before it. -/
def savedPc : BitVec 32 :=
  let prevPc := s.rawReg pcReg
  if s.thumbMode ∧ prevPc - armPcCorrection - s.insAddress = 2 then prevPc + 2 else prevPc

/-- `DecodeTrap`; a trap out of an IT block is not implemented. -/
def decodeTrap (mode : ArmMode) (vector : BitVec 32) : Option BlockArmisa :=
  let newpc := vector + s.vectorBase + armPcCorrection
  let prevCpsr := s.cpsr
  let prevPc := s.savedPc
  if s.thumbMode && s.inITBlock then none
  else do
    let core :=
      if s.thumbMode then s.toArmisa.setCpsr (s.cpsr &&& ~~~thumbBit) else s.toArmisa
    let core ← (core.setMode mode false).setReg? lrReg prevPc
    let core ← core.setReg? spsrReg prevCpsr
    let core ← core.setReg? pcReg newpc
    some { s with toArmisa := core }

/-- The refresh of `thumb_mode` with which each clock starts. -/
def refreshed : BlockArmisa :=
  { s with prevThumbMode := s.thumbMode, thumbMode := bit s.cpsr 5 }

/-- `bodystate_clock` during a block transfer.  `none` is a failed assertion, or that the
transfer is over. -/
def bodystateClock : Option BlockArmisa :=
  let s := s.refreshed
  match s.runstate with
  | .midMultipleS => s.decodeMultiple.map fun s => { s with runstate := .midMultiple2S }
  | .midMultiple2S =>
      if s.insBlockT then do
        let (s, granted) ← s.execMemOperandInstr
        if granted then
          let (s, finished) ← s.decodeMultiple2
          some (if finished then { s with runstate := .runningS } else s)
        else
          (s.decodeTrap .abort dataVector).map fun s => { s with runstate := .runningS }
      else none
  | .runningS => none

/-- The state after a number of clocks. -/
def clocks : ℕ → Option BlockArmisa
  | 0 => some s
  | n + 1 => (clocks n).bind bodystateClock

/-! ## What an instruction is to transfer -/

/-- The decoder has found a block transfer with registers in its list, in a clock that has
refreshed `thumb_mode`. -/
structure Decoded : Prop where
  runstate : s.runstate = .midMultipleS
  thumbMode : s.thumbMode = bit s.cpsr 5
  blockT : s.insBlockT = true
  nonempty : s.insMultRegisters ≠ 0
  insRn : s.insRn < 16

/-- The listed registers in ascending order. -/
def listed : List ℕ := (List.range 16).filter fun j => s.insMultRegisters.getLsbD j

def count : ℕ := s.listed.length

def listedReg (i : ℕ) : ℕ := s.listed.getD i 0

/-- The registers of user mode are transferred: S is set, and no PC is loaded. -/
def userRegisters : Bool :=
  (s.insL && s.insS && !s.insMultRegisters.getLsbD 15) || (!s.insL && s.insS)

/-- Where a transferred register is kept. -/
def place (r : ℕ) : ℕ :=
  if s.userRegisters then r else (Armisa.rawIndex s.currentBank r).getD 0

/-- Where the base register is kept. -/
def basePlace : ℕ := (Armisa.rawIndex s.currentBank s.insRn).getD 0

def base : BitVec 32 := s.rawReg s.basePlace

/-- The size of the transferred block. -/
def size : BitVec 32 := 4 * BitVec.ofNat 32 s.count

/-- What a write-back gives the base. -/
def writeback : BitVec 32 := if s.insU then s.base + s.size else s.base - s.size

/-- The lowest address: increment or decrement, before or after the access. -/
def lowest : BitVec 32 :=
  match s.insU, s.insP with
  | true, false => s.base
  | true, true => s.base + 4
  | false, false => s.base - s.size + 4
  | false, true => s.base - s.size

/-- The address of the register at an index of the list. -/
def address (i : ℕ) : BitVec 32 := s.lowest + 4 * BitVec.ofNat 32 i

/-- What a loaded register gets.  A loaded PC loses the bit that selects Thumb. -/
def loaded (i : ℕ) : BitVec 32 :=
  let word := wordAt s.mem (s.address i)
  if s.listedReg i = pcReg then (word &&& ~~~1) + armPcCorrection else word

/-- The registers that the first loads assign. -/
def loads (k : ℕ) : List (ℕ × BitVec 32) := turns (fun i => s.place (s.listedReg i)) s.loaded k

/-- What a store takes from its register. -/
def storedAt (i : ℕ) : BitVec 32 := s.rawReg (s.place (s.listedReg i))

/-- The bytes that the first stores assign. -/
def stores (k : ℕ) : List (BitVec 32 × Byte) :=
  (List.range k).flatMap fun i => wordBytes (s.address i) (s.storedAt i)

variable {s} {i j k r : ℕ}

theorem mem_listed : r ∈ s.listed ↔ r < 16 ∧ s.insMultRegisters.getLsbD r = true := by
  rw [listed, List.mem_filter, List.mem_range]

theorem count_le (s : BlockArmisa) : s.count ≤ 16 :=
  List.length_filter_le _ _

theorem count_pos (hdecoded : s.Decoded) : 0 < s.count := by
  by_contra hzero
  apply hdecoded.nonempty
  apply BitVec.eq_of_getLsbD_eq
  intro r hr
  have hempty : s.listed = [] := List.length_eq_zero_iff.mp (Nat.eq_zero_of_not_pos hzero)
  have hnot : r ∉ s.listed := by
    rw [hempty]
    exact List.not_mem_nil
  rw [mem_listed, not_and, Bool.not_eq_true] at hnot
  rw [hnot hr]
  exact BitVec.getLsbD_zero.symm

theorem listedReg_eq (hi : i < s.listed.length) : s.listedReg i = s.listed[i] :=
  List.getD_eq_getElem _ _ hi

theorem listedReg_mem (hi : i < s.count) : s.listedReg i ∈ s.listed := by
  rw [listedReg_eq hi]
  exact List.getElem_mem hi

theorem listedReg_lt (hi : i < s.count) : s.listedReg i < 16 :=
  (mem_listed.mp (listedReg_mem hi)).1

theorem exists_listedReg (hr : r ∈ s.listed) : ∃ i < s.count, s.listedReg i = r := by
  obtain ⟨i, hi, hreg⟩ := List.getElem_of_mem hr
  exact ⟨i, hi, (listedReg_eq hi).trans hreg⟩

/-- The list is in ascending order. -/
theorem listedReg_ascending (hij : i < j) (hj : j < s.count) :
    s.listedReg i < s.listedReg j := by
  have hsorted : s.listed.Pairwise (· < ·) := List.Pairwise.filter _ List.pairwise_lt_range
  rw [listedReg_eq (hij.trans hj), listedReg_eq hj]
  exact List.pairwise_iff_getElem.mp hsorted i j (hij.trans hj) hj hij

theorem listedReg_injective (hi : i < s.count) (hj : j < s.count)
    (hsame : s.listedReg i = s.listedReg j) : i = j := by
  rcases Nat.lt_trichotomy i j with hlt | heq | hgt
  · exact absurd hsame (listedReg_ascending hlt hj).ne
  · exact heq
  · exact absurd hsame (listedReg_ascending hgt hi).ne'

/-- Only the last register of a list can be the PC. -/
theorem listedReg_ne_pc (hi : i + 1 < s.count) : s.listedReg i ≠ pcReg := by
  have hlt : s.listedReg i < s.listedReg (i + 1) := listedReg_ascending (Nat.lt_succ_self i) hi
  have hle : s.listedReg (i + 1) < 16 := listedReg_lt hi
  simp only [pcReg]
  omega

/-- The search for the next register finds the one that the list has next. -/
theorem seek_eq {start : ℕ} (hi : i < s.count) (hstart : start ≤ s.listedReg i)
    (hbefore : ∀ j < i, s.listedReg j < start) : s.seek start = some (s.listedReg i) := by
  have hseek : s.seek start = s.listed.find? fun j => decide (start ≤ j) := by
    rw [seek, listed, List.find?_filter]
    apply congrArg (List.find? · (List.range 16))
    funext j
    simp only [decide_eq_true_eq, Bool.decide_and, Bool.decide_eq_true]
  rw [hseek]
  apply List.find?_eq_some_iff_getElem.mpr
  refine ⟨decide_eq_true hstart, i, hi, (listedReg_eq hi).symm, fun j hj => ?_⟩
  have hlt := hbefore j hj
  rw [listedReg_eq (hj.trans hi)] at hlt
  simp only [Bool.not_eq_true', decide_eq_false_iff_not, Nat.not_le]
  exact hlt

theorem seek_zero (hpos : 0 < s.count) : s.seek 0 = some (s.listedReg 0) :=
  seek_eq hpos (Nat.zero_le _) fun _ hj => absurd hj (Nat.not_lt_zero _)

theorem seek_next (hi : i + 1 < s.count) :
    s.seek (s.listedReg i + 1) = some (s.listedReg (i + 1)) := by
  apply seek_eq hi (listedReg_ascending (Nat.lt_succ_self i) hi)
  intro j hj
  rcases Nat.lt_succ_iff_lt_or_eq.mp hj with hlt | rfl
  · exact (listedReg_ascending hlt (by omega)).trans (Nat.lt_succ_self _)
  · exact Nat.lt_succ_self _

/-! ## Where the registers are kept -/

theorem rawIndex_getD (bank : ArmBank) (hr : r < 17) :
    Armisa.rawIndex bank r = some ((Armisa.rawIndex bank r).getD 0) := by
  obtain ⟨i, hi⟩ := Armisa.rawIndex_of_lt bank hr
  rw [hi, Option.getD_some]

theorem place_ne_cpsr (hr : r < 16) : s.place r ≠ cpsrReg := by
  rw [place]
  split_ifs
  · simp only [cpsrReg]
    omega
  · exact Armisa.rawIndex_ne_cpsr (by simp only [cpsrReg]; omega)
      (rawIndex_getD s.currentBank (by omega))

theorem place_pc (s : BlockArmisa) : s.place pcReg = pcReg := by
  rw [place]
  split_ifs
  · rfl
  · cases s.currentBank <;> rfl

theorem place_injective {r r' : ℕ} (hr : r < 16) (hr' : r' < 16)
    (hsame : s.place r = s.place r') : r = r' := by
  simp only [place] at hsame
  split_ifs at hsame
  · exact hsame
  · apply Armisa.rawIndex_injective (rawIndex_getD s.currentBank (by omega))
    rw [rawIndex_getD s.currentBank (by omega : r' < 17), hsame]

theorem listed_place_injective :
    ∀ i < s.count, ∀ j < s.count,
      s.place (s.listedReg i) = s.place (s.listedReg j) → i = j := by
  intro i hi j hj hsame
  exact listedReg_injective hi hj (place_injective (listedReg_lt hi) (listedReg_lt hj) hsame)

end BlockArmisa

end Prazor.Arm
