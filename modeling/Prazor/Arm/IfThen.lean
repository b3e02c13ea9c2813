import Prazor.Arm.BranchTargets

/-!
# IT blocks

IT leaves its condition and its mask in `ITSTATE`.  The decoder looks there before each Thumb
instruction, shifts the mask, and skips the instruction where its condition fails; nothing else
writes `ITSTATE`.  Over any run of Thumb instructions the block therefore covers as many of them
as its mask says, whatever they do.

`DecodeCcode` has an assertion for the condition 15, which the first condition 14 gives with an
else and which no assembler writes.
-/

namespace Prazor.Arm.Branches

open Fields

variable {μ : Type} (port : FetchPort μ) (others : OtherInstructions μ)

/-! ## The architecture -/

def itInstruction (firstcond mask : BitVec 4) : BitVec 32 :=
  (0xBF#8 ++ firstcond ++ mask).setWidth 32

/-- An instruction that starts an IT block. -/
def IsIT (instruction : BitVec 32) : Prop :=
  bits instruction 12 4 = 0xB ∧ bits instruction 8 4 = 0xF ∧ bits4 instruction 0 ≠ 0

/-- The number of instructions of a block. -/
def blockLength (mask : BitVec 4) : ℕ :=
  if mask.getLsbD 0 then 4
  else if mask.getLsbD 1 then 3
  else if mask.getLsbD 2 then 2
  else 1

/-- The conditions of a block.  Each but the first has its last bit in the mask: it is a then
where this is the last bit of the first condition. -/
def blockConditions (firstcond mask : BitVec 4) : List (BitVec 4) :=
  let condition (i : ℕ) : BitVec 4 :=
    firstcond.extractLsb' 1 3 ++ BitVec.ofBool (mask.getLsbD i)
  [firstcond, condition 3, condition 2, condition 1].take (blockLength mask)

namespace ThumbArmisa

variable (s : ThumbArmisa μ)

/-- The Thumb instruction that the next clock fetches. -/
def instructionAt : Option (BitVec 32) :=
  if bit s.cpsr 5 then port.read1 s.memory (s.pc - armPcCorrection) 1 else none

/-- At the decoding of an instruction, with what a block says about it. -/
def decoded (instruction : BitVec 32) (insCcodeTest : Bool) (itstate : BitVec 8) :
    ThumbArmisa μ :=
  { s.startClock.fetched instruction with
    insDecodeT := .unknownT
    insCcodeTest := insCcodeTest
    itstate := itstate }

/-- What an instruction does that is executed; inside a block it may not set the flags. -/
def execute (inITBlock : Bool) : Option (ThumbArmisa μ) :=
  if Wide s.instruction then
    (s.decodeThumb32 port (fun instruction2 => others.thumb32 instruction2 s) true).map
      s.withRunning
  else s.decodeThumb16 others true inITBlock

end ThumbArmisa

/-- No register, flag or memory is changed, and the PC is advanced. -/
structure SkippedTo (s t : ThumbArmisa μ) (length : BitVec 32) : Prop where
  rawReg : t.rawReg = Function.update s.rawReg pcReg (s.pc + length)
  currentMode : t.currentMode = s.currentMode
  currentBank : t.currentBank = s.currentBank
  memory : t.memory = s.memory

/-- The instructions that the interpreter fetches in a run of Thumb code. -/
inductive ThumbRun : List (BitVec 32) → ThumbArmisa μ → ThumbArmisa μ → Prop
  | nil (s) : ThumbRun [] s s
  | cons {instruction code s s' t} (hfetch : s.instructionAt port = some instruction)
      (hclock : s.clock port others = some s') (hrest : ThumbRun code s' t) :
      ThumbRun (instruction :: code) s t

/-- The next instruction is executed if its condition holds, and else skipped.  The second
halfword of an instruction is read in any case, with an assertion that this succeeds. -/
def ConditionalOn (cond : BitVec 4) (s : ThumbArmisa μ) : Prop :=
  ∀ instruction, s.instructionAt port = some instruction →
    (conditionPassed s.toArmisa cond = true →
      s.clock port others =
        (s.decoded instruction true (itAdvance s.itstate)).execute port others true) ∧
    (conditionPassed s.toArmisa cond = false →
      (ThumbArmisa.Wide instruction → ∃ instruction2,
        port.read1 s.memory (s.pc - armPcCorrection + 2) 1 = some instruction2) →
      ∃ t, s.clock port others = some t ∧
        SkippedTo s t (if ThumbArmisa.Wide instruction then 4 else 2))

/-- The next instruction is executed. -/
def Unconditional (s : ThumbArmisa μ) : Prop :=
  ∀ instruction, s.instructionAt port = some instruction →
    s.clock port others =
      (s.decoded instruction s.insCcodeTest s.itstate).execute port others false

/-- What IT does: it changes `ITSTATE` only, the instructions of its block are conditional, and
behind the block, up to the next IT, they are not. -/
def StartsBlock (firstcond mask : BitVec 4) (s : ThumbArmisa μ) : Prop :=
  ∃ start, s.clock port others = some start ∧ SkippedTo s start 2 ∧
    ∀ code t, ThumbRun port others code start t →
      (∀ cond, (blockConditions firstcond mask)[code.length]? = some cond →
        ConditionalOn port others cond t) ∧
      (blockLength mask ≤ code.length →
        (∀ instruction ∈ code.drop (blockLength mask), ¬IsIT instruction) →
        t.itstate = 0 ∧ Unconditional port others t)

/-! ## ITSTATE -/

/-- `ITSTATE` after some instructions of a block. -/
def blockState (firstcond mask : BitVec 4) (i : ℕ) : BitVec 8 :=
  itAdvance^[i] (firstcond ++ mask)

theorem blockLength_le (mask : BitVec 4) : blockLength mask ≤ 4 := by
  revert mask
  decide

theorem blockConditions_length (firstcond mask : BitVec 4) :
    (blockConditions firstcond mask).length = blockLength mask := by
  rw [blockConditions, List.length_take]
  exact Nat.min_eq_left (blockLength_le mask)

/-- Inside the block, the upper half is the condition of the next instruction. -/
theorem blockState_inside : ∀ firstcond mask : BitVec 4, mask ≠ 0 → ∀ i : Fin 4,
    i.val < blockLength mask → blockState firstcond mask i &&& 0xF ≠ 0 ∧
      (blockConditions firstcond mask)[i.val]? =
        some ((blockState firstcond mask i).extractLsb' 4 4) := by
  decide

/-- Behind it nothing is left. -/
theorem blockState_end : ∀ firstcond mask : BitVec 4, mask ≠ 0 →
    blockState firstcond mask (blockLength mask) = 0 := by
  decide

/-- The condition that the decoder finds. -/
theorem blockState_condition {firstcond mask cond : BitVec 4} (hmask : mask ≠ 0) {i : ℕ}
    (hcond : (blockConditions firstcond mask)[i]? = some cond) {s : ThumbArmisa μ}
    (hstate : s.itstate = blockState firstcond mask i) :
    s.inITBlock = true ∧ s.blockCondition = cond := by
  have hi : i < blockLength mask := by
    rw [← blockConditions_length firstcond mask]
    exact (List.getElem?_eq_some_iff.mp hcond).1
  obtain ⟨hinside, hsame⟩ := blockState_inside firstcond mask hmask
    ⟨i, Nat.lt_of_lt_of_le hi (blockLength_le mask)⟩ hi
  have hin : s.inITBlock = true := by
    rw [ThumbArmisa.inITBlock, hstate, decide_eq_true_eq]
    exact hinside
  refine ⟨hin, ?_⟩
  rw [ThumbArmisa.blockCondition, hin, if_pos rfl, hstate]
  exact Option.some.inj (hsame.symm.trans hcond)

theorem blockState_succ (firstcond mask : BitVec 4) (i : ℕ) :
    blockState firstcond mask (i + 1) = itAdvance (blockState firstcond mask i) :=
  Function.iterate_succ_apply' itAdvance i _

theorem blockState_of_le {firstcond mask : BitVec 4} (hmask : mask ≠ 0) {i : ℕ}
    (hi : blockLength mask ≤ i) : blockState firstcond mask i = 0 := by
  induction i, hi using Nat.le_induction with
  | base => exact blockState_end firstcond mask hmask
  | succ i hi ih =>
      rw [blockState_succ, ih]
      rfl

/-! ## One clock -/

variable {port others} {s t : ThumbArmisa μ} {instruction : BitVec 32}

/-- A clock in Thumb code. -/
theorem clock_of_instructionAt (hfetch : s.instructionAt port = some instruction) :
    s.clock port others =
      (s.startClock.fetched instruction).decodeThumbInstruction port others := by
  cases hset : bit s.cpsr 5 with
  | false =>
      rw [ThumbArmisa.instructionAt, hset, if_neg Bool.false_ne_true] at hfetch
      cases hfetch
  | true =>
      rw [ThumbArmisa.instructionAt, hset, if_pos rfl] at hfetch
      exact clock_thumb s hset hfetch

/-- Outside a block an instruction is executed. -/
theorem clock_outside (hfetch : s.instructionAt port = some instruction)
    (hout : s.inITBlock = false) :
    s.clock port others =
      (s.decoded instruction s.insCcodeTest s.itstate).execute port others false := by
  have hit : ThumbArmisa.itCondition
      { s.startClock.fetched instruction with insDecodeT := .unknownT } =
        some (s.decoded instruction s.insCcodeTest s.itstate, true) :=
    if_neg (Bool.eq_false_iff.mp hout)
  rw [clock_of_instructionAt hfetch, ThumbArmisa.decodeThumbInstruction]
  simp only [hit, Option.bind_eq_bind, Option.bind_some]
  rw [show (s.startClock.fetched instruction).inITBlock = false from hout]
  rfl

/-- Inside a block its condition is looked at, and the mask is shifted. -/
theorem clock_inside (hfetch : s.instructionAt port = some instruction)
    (hin : s.inITBlock = true) (hcond : s.blockCondition ≠ 15) :
    s.clock port others =
      if conditionPassed s.toArmisa s.blockCondition then
        (s.decoded instruction true (itAdvance s.itstate)).execute port others true
      else if ThumbArmisa.Wide instruction then
        ((s.decoded instruction false (itAdvance s.itstate)).decodeThumb32 port
          (fun instruction2 => others.thumb32 instruction2
            (s.decoded instruction false (itAdvance s.itstate))) false).map
          (s.decoded instruction false (itAdvance s.itstate)).withRunning
      else some (s.decoded instruction false (itAdvance s.itstate)) := by
  have hflags : conditionPassed (s.startClock.fetched instruction).toArmisa s.blockCondition =
      conditionPassed s.toArmisa s.blockCondition :=
    conditionPassed_congr (atDecode_fetched s instruction).cpsr _
  have hit : ThumbArmisa.itCondition
      { s.startClock.fetched instruction with insDecodeT := .unknownT } =
        some (s.decoded instruction
          (conditionPassed (s.startClock.fetched instruction).toArmisa s.blockCondition)
          (itAdvance s.itstate),
          conditionPassed (s.startClock.fetched instruction).toArmisa s.blockCondition) :=
    itCondition_inside { s.startClock.fetched instruction with insDecodeT := .unknownT } hin hcond
  rw [clock_of_instructionAt hfetch, ThumbArmisa.decodeThumbInstruction]
  simp only [hit, Option.bind_eq_bind, Option.bind_some]
  rw [hflags, show (s.startClock.fetched instruction).inITBlock = true from hin]
  cases conditionPassed s.toArmisa s.blockCondition with
  | false => rfl
  | true => rfl

theorem bits_low (a : BitVec 32) {bitno : ℕ} (hfit : bitno + 4 ≤ 16) :
    bits (bits a 0 16) bitno 4 = bits a bitno 4 := by
  rw [bits_bits a (by decide) hfit, Nat.zero_add]

/-- What the decoder takes for IT. -/
theorem isIT_of_tests (hopcode : bits (bits instruction 0 16) 10 6 &&& 0x3C = 0x2C)
    (hmisc : bits (bits instruction 0 16) 5 7 &&& 0x78 = 0x78)
    (hmask : bits4 (bits instruction 0 16) 0 ≠ 0) : IsIT instruction := by
  refine ⟨?_, ?_, ?_⟩
  · have hfield : bits (bits (bits instruction 0 16) 10 6) 2 4 = bits 0x2C 2 4 :=
      bits_of_pattern hopcode (by decide) (by decide)
    rwa [bits_bits _ (by decide) (by decide), bits_low _ (by decide)] at hfield
  · have hfield : bits (bits (bits instruction 0 16) 5 7) 3 4 = bits 0x78 3 4 :=
      bits_of_pattern hmisc (by decide) (by decide)
    rwa [bits_bits _ (by decide) (by decide), bits_low _ (by decide)] at hfield
  · intro hzero
    exact hmask ((bits_low instruction (by decide)).trans hzero)

/-- In no instruction but IT is `ITSTATE` written. -/
theorem execute_itstate {inITBlock : Bool} (hrun : s.execute port others inITBlock = some t)
    (hit : inITBlock = true ∨ ¬IsIT s.instruction) : t.itstate = s.itstate := by
  have hkept : ∀ result : Option (RunningArmisa μ), result.map s.withRunning = some t →
      t.itstate = s.itstate := by
    intro result hresult
    obtain ⟨running, -, rfl⟩ := Option.map_eq_some_iff.mp hresult
    rfl
  rw [ThumbArmisa.execute] at hrun
  split at hrun
  case isTrue => exact hkept _ hrun
  case isFalse =>
    simp only [ThumbArmisa.decodeThumb16, Bool.true_eq_false, if_false] at hrun
    split at hrun
    case isTrue => exact hkept _ hrun
    case isFalse =>
      split at hrun
      case isFalse =>
        split at hrun
        case isTrue => exact hkept _ hrun
        case isFalse =>
          split at hrun
          case isTrue => exact hkept _ hrun
          case isFalse => exact hkept _ hrun
      case isTrue hopcode =>
        rw [ThumbArmisa.decodeThumb16Misc] at hrun
        split at hrun
        case isFalse => exact hkept _ hrun
        case isTrue hmisc =>
          simp only [ThumbArmisa.decodeThumb16IfThenHints] at hrun
          split at hrun
          case isFalse => exact hkept _ hrun
          case isTrue hmask =>
            cases hblock : inITBlock with
            | false =>
                refine absurd (isIT_of_tests hopcode hmisc hmask) (hit.resolve_left ?_)
                exact fun h => Bool.noConfusion (hblock.symm.trans h)
            | true =>
                rw [hblock] at hrun
                cases hrun

/-- A skipped instruction. -/
theorem clock_skipped (hfetch : s.instructionAt port = some instruction)
    (hin : s.inITBlock = true) (hcond : s.blockCondition ≠ 15)
    (hfails : conditionPassed s.toArmisa s.blockCondition = false)
    (hread : ThumbArmisa.Wide instruction → ∃ instruction2,
      port.read1 s.memory (s.pc - armPcCorrection + 2) 1 = some instruction2) :
    ∃ t, s.clock port others = some t ∧
      SkippedTo s t (if ThumbArmisa.Wide instruction then 4 else 2) ∧
      t.itstate = itAdvance s.itstate := by
  have hmode : bit s.cpsr 5 = true := by
    by_contra hmode
    rw [ThumbArmisa.instructionAt, if_neg hmode] at hfetch
    cases hfetch
  have hraw : (s.decoded instruction false (itAdvance s.itstate)).rawReg =
      Function.update s.rawReg pcReg (s.pc + 2) := by
    change Function.update s.rawReg pcReg (s.pc + if bit s.cpsr 5 then 2 else 4) = _
    rw [hmode, if_pos rfl]
  rw [clock_inside hfetch hin hcond, hfails, if_neg Bool.false_ne_true]
  by_cases hwide : ThumbArmisa.Wide instruction
  · obtain ⟨instruction2, hinstruction2⟩ := hread hwide
    have hsecond : port.read1 (s.decoded instruction false (itAdvance s.itstate)).memory
        ((s.decoded instruction false (itAdvance s.itstate)).insAddress + 2) 1 =
          some instruction2 := hinstruction2
    rw [if_pos hwide, if_pos hwide, RunningArmisa.decodeThumb32, hsecond]
    refine ⟨_, rfl, ⟨?_, rfl, rfl, rfl⟩, rfl⟩
    change Function.update (s.decoded instruction false (itAdvance s.itstate)).rawReg pcReg
      ((s.decoded instruction false (itAdvance s.itstate)).rawReg pcReg + 2) = _
    rw [hraw, Function.update_self, Function.update_idem, BitVec.add_assoc]
    rfl
  · rw [if_neg hwide, if_neg hwide]
    exact ⟨_, rfl, ⟨hraw, rfl, rfl, rfl⟩, rfl⟩

/-- `ITSTATE` is shifted by each instruction of a block, and kept by others. -/
theorem clock_itstate (hfetch : s.instructionAt port = some instruction)
    (hrun : s.clock port others = some t)
    (hit : s.inITBlock = true ∧ s.blockCondition ≠ 15 ∨ s.itstate = 0 ∧ ¬IsIT instruction) :
    t.itstate = itAdvance s.itstate := by
  rcases hit with ⟨hin, hcond⟩ | ⟨hzero, hother⟩
  · rw [clock_inside hfetch hin hcond] at hrun
    split at hrun
    case isTrue => exact execute_itstate hrun (.inl rfl)
    case isFalse =>
      split at hrun
      case isTrue =>
        obtain ⟨running, -, rfl⟩ := Option.map_eq_some_iff.mp hrun
        rfl
      case isFalse =>
        rw [← Option.some.inj hrun]
        rfl
  · have hout : s.inITBlock = false := by
      rw [ThumbArmisa.inITBlock, hzero]
      rfl
    rw [clock_outside hfetch hout] at hrun
    rw [execute_itstate hrun (.inr hother)]
    change s.itstate = itAdvance s.itstate
    rw [hzero]
    rfl

/-! ## Runs -/

/-- The state of the block after any run of Thumb code. -/
theorem ThumbRun.itstate {firstcond mask : BitVec 4} {code : List (BitVec 32)}
    (hmask : mask ≠ 0) (hconds : ∀ cond ∈ blockConditions firstcond mask, cond ≠ 15)
    (hrun : ThumbRun port others code s t) (i : ℕ)
    (hstart : s.itstate = blockState firstcond mask i)
    (hother : ∀ instruction ∈ code.drop (blockLength mask - i), ¬IsIT instruction) :
    t.itstate = blockState firstcond mask (i + code.length) := by
  induction hrun generalizing i with
  | nil s => exact hstart
  | @cons instruction code s s' t hfetch hclock hrest ih =>
      have hnext : s'.itstate = blockState firstcond mask (i + 1) := by
        rw [blockState_succ, ← hstart]
        apply clock_itstate hfetch hclock
        by_cases hi : i < blockLength mask
        · have hlt : i < (blockConditions firstcond mask).length := by
            rwa [blockConditions_length]
          obtain ⟨hin, hcond⟩ := blockState_condition hmask (List.getElem?_eq_getElem hlt) hstart
          exact .inl ⟨hin, hcond ▸ hconds _ (List.getElem_mem hlt)⟩
        · have hzero : blockLength mask - i = 0 := by omega
          rw [hzero, List.drop_zero] at hother
          exact .inr ⟨hstart.trans (blockState_of_le hmask (by omega)),
            hother instruction List.mem_cons_self⟩
      have htail : ∀ instruction ∈ code.drop (blockLength mask - (i + 1)), ¬IsIT instruction := by
        intro instruction hmem
        apply hother instruction
        rcases Nat.eq_zero_or_pos (blockLength mask - i) with hzero | hpos
        · rw [hzero, List.drop_zero]
          rw [show blockLength mask - (i + 1) = 0 by omega, List.drop_zero] at hmem
          exact List.mem_cons_of_mem _ hmem
        · rw [show blockLength mask - i = blockLength mask - (i + 1) + 1 by omega,
            List.drop_succ_cons]
          exact hmem
      rw [ih (i + 1) hnext htail, List.length_cons]
      congr 1
      omega

theorem mask_setWidth : ∀ mask : BitVec 4, mask ≠ 0 → mask.setWidth 32 ≠ (0 : BitVec 32) := by
  decide

/-- The decoding of IT. -/
theorem decodeThumb16_it {firstcond mask : BitVec 4} (hmask : mask ≠ 0) (state : ThumbArmisa μ)
    (hinstr : state.instruction = itInstruction firstcond mask) :
    state.decodeThumb16 others true false = some { state with itstate := firstcond ++ mask } := by
  have hwhole : bits (itInstruction firstcond mask) 0 16 = itInstruction firstcond mask :=
    bits_halfword _
  have hopcode : bits (itInstruction firstcond mask) 10 6 = 0x2F := by
    rw [itInstruction]
    simp (disch := decide) only [bits_setWidth, BitVec.extractLsb'_append_eq_of_le,
      Nat.reduceSub]
    rfl
  have hmisc : bits (itInstruction firstcond mask) 5 7 &&& 0x78 = 0x78 := by
    have hfield : bits (bits (itInstruction firstcond mask) 5 7) 3 4 = 0xF := by
      refine (bits_bits _ (by decide) (by decide)).trans ?_
      change bits _ 8 4 = 0xF
      rw [itInstruction]
      simp (disch := decide) only [bits_setWidth, BitVec.extractLsb'_append_eq_of_le,
        Nat.reduceSub]
      rfl
    refine (and_field (bits (itInstruction firstcond mask) 5 7) 3 (show 4 < 32 by decide)).trans ?_
    rw [hfield]
    rfl
  have hopA : bits4 (itInstruction firstcond mask) 4 = firstcond.setWidth 32 := by
    change bits _ 4 4 = _
    rw [itInstruction]
    simp (disch := decide) only [bits_setWidth, BitVec.extractLsb'_append_eq_of_le,
      BitVec.extractLsb'_append_eq_of_add_le, Nat.reduceSub, BitVec.extractLsb'_eq_self]
  have hopB : bits4 (itInstruction firstcond mask) 0 = mask.setWidth 32 := by
    change bits _ 0 4 = _
    rw [itInstruction]
    simp (disch := decide) only [bits_setWidth, BitVec.extractLsb'_append_eq_of_add_le,
      BitVec.extractLsb'_eq_self]
  have hstate : ((firstcond.setWidth 32 <<< 4) ||| mask.setWidth 32 : BitVec 32).setWidth 8 =
      firstcond ++ mask := by
    rw [shiftLeft_or_setWidth, BitVec.setWidth_setWidth_of_le _ (by decide), BitVec.setWidth_eq]
  rw [ThumbArmisa.decodeThumb16]
  simp only [hinstr, hwhole, hopcode]
  rw [if_neg (Bool.false_ne_true.symm), if_neg (by decide), if_pos (by decide),
    ThumbArmisa.decodeThumb16Misc, if_pos hmisc, ThumbArmisa.decodeThumb16IfThenHints]
  simp only [hopA, hopB, if_pos (mask_setWidth mask hmask), hstate]
  rfl

/-- IT puts its condition and mask in `ITSTATE`. -/
theorem clock_it (port : FetchPort μ) (others : OtherInstructions μ) {s : ThumbArmisa μ}
    {firstcond mask : BitVec 4} (hmask : mask ≠ 0)
    (hfetch : s.instructionAt port = some (itInstruction firstcond mask))
    (hout : s.inITBlock = false) :
    ∃ start, s.clock port others = some start ∧ SkippedTo s start 2 ∧
      start.itstate = blockState firstcond mask 0 := by
  have hmode : bit s.cpsr 5 = true := by
    by_contra hmode
    rw [ThumbArmisa.instructionAt, if_neg hmode] at hfetch
    cases hfetch
  have hnarrow : ¬ThumbArmisa.Wide (itInstruction firstcond mask) := by
    have hopcode : bits (itInstruction firstcond mask) 11 5 = 0x17 := by
      rw [itInstruction]
      simp (disch := decide) only [bits_setWidth, BitVec.extractLsb'_append_eq_of_le,
        Nat.reduceSub]
      rfl
    simp only [ThumbArmisa.Wide, hopcode]
    decide
  rw [clock_outside hfetch hout, ThumbArmisa.execute]
  refine ⟨_, (if_neg hnarrow).trans (decodeThumb16_it hmask _ rfl), ⟨?_, rfl, rfl, rfl⟩, rfl⟩
  change Function.update s.rawReg pcReg (s.pc + if bit s.cpsr 5 then 2 else 4) = _
  rw [hmode, if_pos rfl]

/-- With conditions that are all defined, the block is what the mask says, over every run of
Thumb code that follows. -/
theorem startsBlock (port : FetchPort μ) (others : OtherInstructions μ)
    (firstcond mask : BitVec 4) (s : ThumbArmisa μ) (hmask : mask ≠ 0)
    (hconds : ∀ cond ∈ blockConditions firstcond mask, cond ≠ 15)
    (hfetch : s.instructionAt port = some (itInstruction firstcond mask))
    (hout : s.inITBlock = false) : StartsBlock port others firstcond mask s := by
  obtain ⟨start, hclock, hskipped, hstate⟩ := clock_it port others hmask hfetch hout
  refine ⟨start, hclock, hskipped, fun code t hrun => ⟨?_, ?_⟩⟩
  · intro cond hcond instruction hinstruction
    have hlt : code.length < blockLength mask := by
      rw [← blockConditions_length firstcond mask]
      exact (List.getElem?_eq_some_iff.mp hcond).1
    have hitstate : t.itstate = blockState firstcond mask code.length := by
      rw [hrun.itstate hmask hconds 0 hstate, Nat.zero_add]
      rw [Nat.sub_zero, List.drop_eq_nil_of_le hlt.le]
      exact fun instruction hmem => absurd hmem List.not_mem_nil
    obtain ⟨hin, rfl⟩ := blockState_condition hmask hcond hitstate
    have hdefined : t.blockCondition ≠ 15 := hconds _ (List.mem_of_getElem? hcond)
    refine ⟨fun hpasses => ?_, fun hfails hread => ?_⟩
    · rw [clock_inside hinstruction hin hdefined, hpasses, if_pos rfl]
    · obtain ⟨next, hnext, hskip, -⟩ := clock_skipped hinstruction hin hdefined hfails hread
      exact ⟨next, hnext, hskip⟩
  · intro hlength hother
    have hzero : t.itstate = 0 := by
      rw [hrun.itstate hmask hconds 0 hstate hother, Nat.zero_add,
        blockState_of_le hmask hlength]
    have hleft : t.inITBlock = false := by
      rw [ThumbArmisa.inITBlock, hzero]
      rfl
    exact ⟨hzero, fun instruction hinstruction => clock_outside hinstruction hleft⟩

/-- Thumb code at 0x8000, outside a block. -/
def itStart : ThumbArmisa Unit :=
  { Armisa.idle with
    rawReg := Function.update (Function.update (fun _ => 0) cpsrReg 0x33) pcReg 0x8004
    memory := ()
    insAddress := 0
    insL := false
    insCcodeTest := true
    itstate := 0 }

/-- IT and branches behind it. -/
def itCode (firstcond mask : BitVec 4) : FetchPort Unit where
  read1 := fun _ address _ =>
    if address = 0x8000 then some (itInstruction firstcond mask) else some 0xE000

/-- An ITE block. -/
theorem startsBlock_ite : StartsBlock (itCode 0 0xC) noOthers 0 0xC itStart :=
  startsBlock (itCode 0 0xC) noOthers 0 0xC itStart (by decide) (by decide) rfl rfl

/-- With the condition 15 the instruction behind IT is neither executed nor skipped. -/
theorem not_startsBlock :
    itStart.instructionAt (itCode 15 8) = some (itInstruction 15 8) ∧
      itStart.inITBlock = false ∧ ¬StartsBlock (itCode 15 8) noOthers 15 8 itStart := by
  refine ⟨rfl, rfl, ?_⟩
  rintro ⟨start, hclock, -, hblock⟩
  have hfetch : (itStart.clock (itCode 15 8) noOthers).map
      (·.instructionAt (itCode 15 8)) = some (some 0xE000) := rfl
  have hfails : (itStart.clock (itCode 15 8) noOthers).map
      (fun start => (start.clock (itCode 15 8) noOthers).isSome) = some false := rfl
  have hruns : (itStart.clock (itCode 15 8) noOthers).map (fun start =>
      ((start.decoded 0xE000 true (itAdvance start.itstate)).execute (itCode 15 8) noOthers
        true).isSome) = some true := rfl
  rw [hclock, Option.map_some, Option.some.injEq] at hfetch hfails hruns
  have hexecuted := ((hblock [] start (.nil start)).1 15 rfl 0xE000 hfetch).1 rfl
  rw [hexecuted, hruns] at hfails
  cases hfails

end Prazor.Arm.Branches
