import Prazor.Core.Guarded

/-!
# The branch predictor

`operate` is told of every branch when its outcome is known, predicts it from what it has seen
before and counts a penalty when the prediction was wrong.  An access to an array outside its
bounds is `none`.
-/

namespace Prazor.Tenos

/-- `predict_entry` -/
structure PredictEntry where
  tornament : BitVec 8
  historyHistory : BitVec 8
  globalPathPrediction : Bool

/-- `BP_TORNAMENT_MAX` -/
def bpTornamentMax : ℕ := 15

def PredictEntry.new : PredictEntry where
  tornament := BitVec.ofNat 8 (bpTornamentMax / 2)
  historyHistory := 0
  globalPathPrediction := false

/-- `predictor_stats_s` -/
structure PredictorStats where
  simpOperations : BitVec 64
  simpMispredicts : BitVec 64
  simpTaken : BitVec 64
  computedJumps : BitVec 64
  computedJumpMispredicts : BitVec 64
  popJumps : BitVec 64
  popJumpMispredicts : BitVec 64
  simpLocalMisses : BitVec 64
  simpGlobalMisses : BitVec 64
  simpTornsLoc : BitVec 64
  simpTornsGlob : BitVec 64

def PredictorStats.reset : PredictorStats := ⟨0, 0, 0, 0, 0, 0, 0, 0, 0, 0, 0⟩

/-- `RSTACK_ENTRIES` -/
def rstackEntries : ℕ := 8

/-- The members of `generic_branch_predictor`; of a `btb_entry` the prediction. -/
structure BranchPredictor where
  btbCapacity : BitVec 32
  historyCapacity : BitVec 32
  globalHistory : BitVec 16
  globalPathEnabled : Bool
  localHistEnabled : Bool
  uncollectedPenalties : BitVec 64
  returnStackPointer : BitVec 32
  returnStack : List (BitVec 32)
  btbTable : List (BitVec 32)
  historyTable : List PredictEntry
  stats : PredictorStats
  abtTempLastCall : BitVec 32
  abtTempLastCallTo : BitVec 32

namespace BranchPredictor

/-- The constructor.  The arrays without an initialiser hold what was there. -/
def new (logsize : ℕ) (historyCapacity : ℕ) (returnStack : List (BitVec 32))
    (lastCall lastCallTo : BitVec 32) : BranchPredictor where
  btbCapacity := 1 <<< logsize
  historyCapacity := BitVec.ofNat 32 historyCapacity
  globalHistory := 0
  globalPathEnabled := true
  localHistEnabled := true
  uncollectedPenalties := 0
  returnStackPointer := 0
  returnStack := returnStack
  btbTable := List.replicate (1 <<< logsize : BitVec 32).toNat 0
  historyTable := List.replicate historyCapacity .new
  stats := .reset
  abtTempLastCall := lastCall
  abtTempLastCallTo := lastCallTo

/-- `collect_penalties` -/
def collectPenalties (p : BranchPredictor) : BranchPredictor × BitVec 64 :=
  ({ p with uncollectedPenalties := 0 }, p.uncollectedPenalties)

variable (p : BranchPredictor)

/-- `m_return_stack_pointer--; m_return_stack_pointer &= (RSTACK_ENTRIES-1);` -/
def popPointer : BitVec 32 := (p.returnStackPointer - 1) &&& BitVec.ofNat 32 (rstackEntries - 1)

/-- An indirect jump. -/
def computedJump (pc dest : BitVec 32) : Option BranchPredictor := do
  let p := { p with
    stats := { p.stats with computedJumps := p.stats.computedJumps + 1 }
    returnStackPointer := p.popPointer }
  let hashS := (pc &&& (p.btbCapacity - 1)).toNat
  let prediction ← p.btbTable[hashS]?
  let p := { p with btbTable := p.btbTable.set hashS dest }
  if prediction = dest then some p
  else some { p with
    stats := { p.stats with
      computedJumpMispredicts := p.stats.computedJumpMispredicts + 1 }
    uncollectedPenalties := p.uncollectedPenalties + 1 }

/-- The prediction for a subroutine return. -/
def popPrediction : Option (BitVec 32) := p.returnStack[p.popPointer.toNat]?

/-- A subroutine return. -/
def subroutineReturn (dest : BitVec 32) : Option BranchPredictor := do
  let prediction ← p.popPrediction
  let p := { p with
    stats := { p.stats with popJumps := p.stats.popJumps + 1 }
    returnStackPointer := p.popPointer }
  if prediction = dest then some p
  else some { p with
    stats := { p.stats with popJumpMispredicts := p.stats.popJumpMispredicts + 1 }
    uncollectedPenalties := p.uncollectedPenalties + 1 }

/-- A taken subroutine call is noted. -/
def noteCall (pc dest : BitVec 32) : Option BranchPredictor :=
  if p.returnStackPointer.toNat < p.returnStack.length then
    some { p with
      abtTempLastCall := pc
      abtTempLastCallTo := dest
      returnStack := p.returnStack.set p.returnStackPointer.toNat (pc + 1)
      returnStackPointer :=
        (p.returnStackPointer + 1) &&& BitVec.ofNat 32 (rstackEntries - 1) }
  else none

/-- `BP_LOCAL_HIST_MASK` -/
def bpLocalHistMask : ℕ := 3

/-- What the predictors say of a normal branch, and whether it was right. -/
structure Verdict where
  taken : Bool
  localPrediction : Bool
  globalPathPrediction : Bool
  useGlobalHere : Bool
  prediction : Bool

namespace Verdict

variable (v : Verdict)

def localHistCorrect : Bool := v.localPrediction == v.taken

def globalPathCorrect : Bool := v.globalPathPrediction == v.taken

def correct : Bool := v.prediction == v.taken

end Verdict

/-- The extra stats of a normal branch. -/
def extraStats (v : Verdict) : PredictorStats :=
  let stats := p.stats
  let stats := if p.localHistEnabled && !v.localHistCorrect then
    { stats with simpLocalMisses := stats.simpLocalMisses + 1 } else stats
  let stats := if p.globalPathEnabled && !v.globalPathCorrect then
    { stats with simpGlobalMisses := stats.simpGlobalMisses + 1 } else stats
  if p.localHistEnabled && p.globalPathEnabled then
    if v.useGlobalHere then { stats with simpTornsGlob := stats.simpTornsGlob + 1 }
    else { stats with simpTornsLoc := stats.simpTornsLoc + 1 }
  else stats

/-- The tournament counter after a normal branch. -/
def moveTornament (v : Verdict) (tornament : BitVec 8) : BitVec 8 :=
  if p.localHistEnabled && p.globalPathEnabled && v.localHistCorrect && !v.globalPathCorrect &&
      0 < tornament.toNat then
    tornament - 1
  else if v.globalPathCorrect && !v.localHistCorrect && tornament.toNat < bpTornamentMax then
    tornament + 1
  else tornament

/-- A bit is shifted in. -/
def shiftIn {width : ℕ} (history : BitVec width) (taken : Bool) : BitVec width :=
  (history <<< 1) ||| (BitVec.ofBool taken).setWidth width

/-- A branch is counted. -/
def countBranch (taken : Bool) : BranchPredictor :=
  let stats := { p.stats with simpOperations := p.stats.simpOperations + 1 }
  { p with stats := if taken then { stats with simpTaken := stats.simpTaken + 1 } else stats }

/-- The predictions for a branch from the entries of its two hashes. -/
def verdict (entryS entryD : PredictEntry) (pc : BitVec 32) (taken : Bool) (dest : BitVec 32) :
    Verdict :=
  let localPrediction := bpLocalHistMask / 2 < (entryS.historyHistory &&& 3).toNat
  let globalPathPrediction := entryD.globalPathPrediction
  let useGlobalHere := bpTornamentMax / 2 < entryS.tornament.toNat
  { taken := taken
    localPrediction := localPrediction
    globalPathPrediction := globalPathPrediction
    useGlobalHere := useGlobalHere
    prediction :=
      if !p.localHistEnabled && !p.globalPathEnabled then dest ≤ pc
      else if p.localHistEnabled && p.globalPathEnabled then
        if useGlobalHere then globalPathPrediction else localPrediction
      else if p.localHistEnabled then localPrediction else globalPathPrediction }

/-- An entry of the history table is replaced. -/
def setEntry (hash : BitVec 32) (entry : PredictEntry) : BranchPredictor :=
  { p with historyTable := p.historyTable.set hash.toNat entry }

/-- The entry of a branch after it. -/
def learnt (v : Verdict) (entry : PredictEntry) : PredictEntry :=
  { entry with
    tornament := p.moveTornament v entry.tornament
    historyHistory := shiftIn entry.historyHistory v.taken }

/-- A normal branch was mispredicted. -/
def mispredict : BranchPredictor :=
  { p with
    stats := { p.stats with simpMispredicts := p.stats.simpMispredicts + 1 }
    uncollectedPenalties := p.uncollectedPenalties + 1 }

/-- A normal branch, and the branch part of a call. -/
def normalBranch (pc : BitVec 32) (taken : Bool) (dest : BitVec 32) : Option BranchPredictor := do
  let p := p.countBranch taken
  let hashS := pc &&& (p.historyCapacity - 1)
  let hashD := hashS ^^^ (p.globalHistory.setWidth 32 &&& (p.historyCapacity - 1))
  let entryS ← p.historyTable[hashS.toNat]?
  let entryD ← p.historyTable[hashD.toNat]?
  let v := p.verdict entryS entryD pc taken dest
  let p := p.setEntry hashD { entryD with globalPathPrediction := taken }
  let p := { p with stats := p.extraStats v }
  let entryS ← p.historyTable[hashS.toNat]?
  let p := p.setEntry hashS (p.learnt v entryS)
  let p := { p with globalHistory := shiftIn p.globalHistory taken }
  if v.correct then some p else some p.mispredict

/-- `operate` -/
def operate (pc : BitVec 32) (taken : Bool) (dest : BitVec 32) (pushPopStyle : ℤ) :
    Option BranchPredictor :=
  if pushPopStyle = 100 then p.computedJump pc dest
  else if pushPopStyle < 0 then p.subroutineReturn dest
  else if taken ∧ 0 < pushPopStyle then
    (p.noteCall pc dest).bind fun p => p.normalBranch pc taken dest
  else p.normalBranch pc taken dest

/-! ## What one operation does -/

/-- The three mispredict counters together. -/
def mispredicts : BitVec 64 :=
  p.stats.simpMispredicts + p.stats.computedJumpMispredicts + p.stats.popJumpMispredicts

/-- The tables have the sizes that were asked for, which are powers of two. -/
structure Sized : Prop where
  returnStack : p.returnStack.length = rstackEntries
  pointer : p.returnStackPointer.toNat < rstackEntries
  btbTable : p.btbTable.length = p.btbCapacity.toNat
  btbCapacity : 0 < p.btbCapacity.toNat
  historyTable : p.historyTable.length = p.historyCapacity.toNat
  historyCapacity : ∃ k, p.historyCapacity.toNat = 2 ^ k

/-- The tournament counters stay in their range. -/
def TornamentsInRange : Prop :=
  ∀ entry ∈ p.historyTable, entry.tornament.toNat ≤ bpTornamentMax

/-- An operation that adds as many penalties as it counts mispredictions. -/
structure Counted (p' : BranchPredictor) : Prop where
  sized : p.Sized → p'.Sized
  tornaments : p.TornamentsInRange → p'.TornamentsInRange
  penalties : p'.uncollectedPenalties + p.mispredicts = p.uncollectedPenalties + p'.mispredicts

variable {p} {p' p'' : BranchPredictor}

theorem Counted.trans (hfirst : p.Counted p') (hsecond : p'.Counted p'') : p.Counted p'' where
  sized hsized := hsecond.sized (hfirst.sized hsized)
  tornaments hrange := hsecond.tornaments (hfirst.tornaments hrange)
  penalties := by
    have hlast := hsecond.penalties
    have hmid := hfirst.penalties
    apply add_right_cancel (b := p'.uncollectedPenalties + p'.mispredicts)
    calc p''.uncollectedPenalties + p.mispredicts + (p'.uncollectedPenalties + p'.mispredicts)
        = (p''.uncollectedPenalties + p'.mispredicts) +
            (p'.uncollectedPenalties + p.mispredicts) := by ac_rfl
      _ = (p'.uncollectedPenalties + p''.mispredicts) +
            (p.uncollectedPenalties + p'.mispredicts) := by rw [hlast, hmid]
      _ = p.uncollectedPenalties + p''.mispredicts +
            (p'.uncollectedPenalties + p'.mispredicts) := by ac_rfl

theorem toNat_and_lt {x capacity : BitVec 32} (hcapacity : 0 < capacity.toNat) :
    (x &&& (capacity - 1)).toNat < capacity.toNat := by
  have hone : (1 : BitVec 32) ≤ capacity := by
    rw [BitVec.le_def]
    exact hcapacity
  have hle : (x &&& (capacity - 1)).toNat ≤ (capacity - 1).toNat := by
    rw [BitVec.toNat_and]
    exact Nat.and_le_right
  rw [BitVec.toNat_sub_of_le hone] at hle
  exact Nat.lt_of_le_of_lt hle (Nat.sub_lt hcapacity Nat.one_pos)

theorem popPointer_lt (p : BranchPredictor) : p.popPointer.toNat < rstackEntries :=
  @toNat_and_lt (p.returnStackPointer - 1) 8 (by decide)

/-- Sizes and capacities that are kept. -/
theorem Sized.of_eq (hsized : p.Sized) (hstack : p'.returnStack.length = p.returnStack.length)
    (hpointer : p'.returnStackPointer.toNat < rstackEntries)
    (hbtb : p'.btbTable.length = p.btbTable.length) (hcapacity : p'.btbCapacity = p.btbCapacity)
    (hhistory : p'.historyTable.length = p.historyTable.length)
    (hcapacity' : p'.historyCapacity = p.historyCapacity) : p'.Sized where
  returnStack := hstack.trans hsized.returnStack
  pointer := hpointer
  btbTable := by rw [hbtb, hcapacity, hsized.btbTable]
  btbCapacity := by
    rw [hcapacity]
    exact hsized.btbCapacity
  historyTable := by rw [hhistory, hcapacity', hsized.historyTable]
  historyCapacity := by
    rw [hcapacity']
    exact hsized.historyCapacity

theorem computedJump_spec (hsized : p.Sized) (pc dest : BitVec 32) :
    ∃ p', p.computedJump pc dest = some p' ∧ p.Counted p' := by
  have hplace : (pc &&& (p.btbCapacity - 1)).toNat < p.btbTable.length := by
    rw [hsized.btbTable]
    exact toNat_and_lt hsized.btbCapacity
  rw [computedJump]
  simp only [List.getElem?_eq_getElem hplace, Option.bind_eq_bind, Option.bind_some]
  by_cases hright : p.btbTable[(pc &&& (p.btbCapacity - 1)).toNat] = dest
  · rw [if_pos hright]
    refine ⟨_, rfl, ⟨fun hsized => hsized.of_eq rfl p.popPointer_lt List.length_set rfl rfl rfl,
      fun hrange => hrange, rfl⟩⟩
  · rw [if_neg hright]
    refine ⟨_, rfl, ⟨fun hsized => hsized.of_eq rfl p.popPointer_lt List.length_set rfl rfl rfl,
      fun hrange => hrange, ?_⟩⟩
    simp only [mispredicts]
    ac_rfl

theorem subroutineReturn_spec (hsized : p.Sized) (dest : BitVec 32) :
    ∃ prediction, p.popPrediction = some prediction ∧
      ∃ p', p.subroutineReturn dest = some p' ∧ p.Counted p' ∧
        p'.returnStack = p.returnStack ∧ p'.returnStackPointer = p.popPointer ∧
        p'.stats.popJumpMispredicts =
          p.stats.popJumpMispredicts + if prediction = dest then 0 else 1 := by
  have hplace : p.popPointer.toNat < p.returnStack.length := by
    rw [hsized.returnStack]
    exact p.popPointer_lt
  have hprediction : p.popPrediction = some p.returnStack[p.popPointer.toNat] :=
    List.getElem?_eq_getElem hplace
  refine ⟨_, hprediction, ?_⟩
  rw [subroutineReturn, hprediction, Option.bind_eq_bind, Option.bind_some]
  by_cases hright : p.returnStack[p.popPointer.toNat] = dest
  · rw [if_pos hright, if_pos hright]
    refine ⟨_, rfl, ?_, rfl, rfl, ?_⟩
    · exact ⟨fun hsized => hsized.of_eq rfl p.popPointer_lt rfl rfl rfl rfl,
        fun hrange => hrange, rfl⟩
    · exact (BitVec.add_zero _).symm
  · rw [if_neg hright, if_neg hright]
    refine ⟨_, rfl, ?_, rfl, rfl, rfl⟩
    refine ⟨fun hsized => hsized.of_eq rfl p.popPointer_lt rfl rfl rfl rfl,
      fun hrange => hrange, ?_⟩
    simp only [mispredicts]
    ac_rfl

theorem noteCall_spec (hsized : p.Sized) (pc dest : BitVec 32) :
    ∃ p', p.noteCall pc dest = some p' ∧ p.Counted p' ∧
      p'.returnStack = p.returnStack.set p.returnStackPointer.toNat (pc + 1) ∧
      p'.returnStackPointer = (p.returnStackPointer + 1) &&& 7 := by
  have hplace : p.returnStackPointer.toNat < p.returnStack.length := by
    rw [hsized.returnStack]
    exact hsized.pointer
  have hpointer : ((p.returnStackPointer + 1) &&& 7).toNat < rstackEntries :=
    @toNat_and_lt (p.returnStackPointer + 1) 8 (by decide)
  rw [noteCall, if_pos hplace]
  refine ⟨_, rfl, ⟨fun hsized => hsized.of_eq List.length_set hpointer rfl rfl rfl rfl,
    fun hrange => hrange, rfl⟩, rfl, rfl⟩

theorem extraStats_mispredicts (p : BranchPredictor) (v : Verdict) :
    (p.extraStats v).simpMispredicts = p.stats.simpMispredicts ∧
      (p.extraStats v).computedJumpMispredicts = p.stats.computedJumpMispredicts ∧
      (p.extraStats v).popJumpMispredicts = p.stats.popJumpMispredicts := by
  unfold extraStats
  split_ifs <;> exact ⟨rfl, rfl, rfl⟩

/-- A tournament counter stops at its ends. -/
theorem moveTornament_le (v : Verdict) {tornament : BitVec 8}
    (hrange : tornament.toNat ≤ bpTornamentMax) :
    (p.moveTornament v tornament).toNat ≤ bpTornamentMax := by
  have hmax : bpTornamentMax = 15 := rfl
  unfold moveTornament
  split_ifs with hdown hup
  · simp only [Bool.and_eq_true, decide_eq_true_eq] at hdown
    rw [BitVec.toNat_sub_of_le (by
      rw [BitVec.le_def]
      exact hdown.2)]
    exact Nat.le_trans (Nat.sub_le _ _) hrange
  · simp only [Bool.and_eq_true, decide_eq_true_eq] at hup
    rw [BitVec.toNat_add]
    change (tornament.toNat + 1) % 256 ≤ bpTornamentMax
    omega
  · exact hrange

theorem counted_countBranch (p : BranchPredictor) (taken : Bool) :
    p.Counted (p.countBranch taken) where
  sized hsized := hsized.of_eq rfl hsized.pointer rfl rfl rfl rfl
  tornaments hrange := hrange
  penalties := by cases taken <;> rfl

theorem counted_extraStats (p : BranchPredictor) (v : Verdict) :
    p.Counted { p with stats := p.extraStats v } where
  sized hsized := hsized.of_eq rfl hsized.pointer rfl rfl rfl rfl
  tornaments hrange := hrange
  penalties := by
    obtain ⟨hsimple, hcomputed, hpop⟩ := extraStats_mispredicts p v
    simp only [mispredicts, hsimple, hcomputed, hpop]

theorem counted_setEntry (p : BranchPredictor) (hash : BitVec 32) {entry : PredictEntry}
    (hentry : p.TornamentsInRange → entry.tornament.toNat ≤ bpTornamentMax) :
    p.Counted (p.setEntry hash entry) where
  sized hsized := hsized.of_eq rfl hsized.pointer rfl rfl List.length_set rfl
  tornaments hrange := by
    intro other hother
    obtain hold | rfl := List.mem_or_eq_of_mem_set hother
    · exact hrange other hold
    · exact hentry hrange
  penalties := rfl

theorem counted_mispredict (p : BranchPredictor) : p.Counted p.mispredict where
  sized hsized := hsized.of_eq rfl hsized.pointer rfl rfl rfl rfl
  tornaments hrange := hrange
  penalties := by
    simp only [mispredicts, mispredict]
    ac_rfl

theorem normalBranch_spec (hsized : p.Sized) (pc : BitVec 32) (taken : Bool)
    (dest : BitVec 32) :
    ∃ p', p.normalBranch pc taken dest = some p' ∧ p.Counted p' ∧
      p'.returnStack = p.returnStack ∧ p'.returnStackPointer = p.returnStackPointer := by
  obtain ⟨k, hk⟩ := hsized.historyCapacity
  have hpositive : 0 < p.historyCapacity.toNat := by
    rw [hk]
    exact Nat.two_pow_pos k
  have hplaceS : (pc &&& (p.historyCapacity - 1)).toNat < p.historyTable.length := by
    rw [hsized.historyTable]
    exact toNat_and_lt hpositive
  have hplaceD : ((pc &&& (p.historyCapacity - 1)) ^^^
      (p.globalHistory.setWidth 32 &&& (p.historyCapacity - 1))).toNat <
        p.historyTable.length := by
    rw [hsized.historyTable, hk, BitVec.toNat_xor]
    apply Nat.xor_lt_two_pow
    · rw [← hk]
      exact toNat_and_lt hpositive
    · rw [← hk]
      exact toNat_and_lt hpositive
  let counted := p.countBranch taken
  let hashS := pc &&& (p.historyCapacity - 1)
  let hashD := hashS ^^^ (p.globalHistory.setWidth 32 &&& (p.historyCapacity - 1))
  let entryD := p.historyTable[hashD.toNat]
  let v := counted.verdict p.historyTable[hashS.toNat] entryD pc taken dest
  let marked := counted.setEntry hashD { entryD with globalPathPrediction := taken }
  let noted := { marked with stats := marked.extraStats v }
  have hplace : hashS.toNat < noted.historyTable.length := by
    change hashS.toNat < (p.historyTable.set _ _).length
    rw [List.length_set]
    exact hplaceS
  let trained := noted.setEntry hashS (noted.learnt v noted.historyTable[hashS.toNat])
  let shifted := { trained with globalHistory := shiftIn trained.globalHistory taken }
  have hbranch : p.normalBranch pc taken dest =
      if v.correct then some shifted else some shifted.mispredict := by
    have hentryS : counted.historyTable[hashS.toNat]? = some p.historyTable[hashS.toNat] :=
      List.getElem?_eq_getElem hplaceS
    have hentryD : counted.historyTable[hashD.toNat]? = some entryD :=
      List.getElem?_eq_getElem hplaceD
    have hentry : noted.historyTable[hashS.toNat]? = some noted.historyTable[hashS.toNat] :=
      List.getElem?_eq_getElem hplace
    rw [normalBranch]
    change (counted.historyTable[hashS.toNat]?.bind fun entryS =>
      counted.historyTable[hashD.toNat]?.bind fun entryD => _) = _
    rw [hentryS, hentryD]
    change (noted.historyTable[hashS.toNat]?.bind fun entryS => _) = _
    rw [hentry]
    rfl
  have hmarked : counted.Counted marked :=
    counted_setEntry counted hashD fun hrange => hrange entryD (List.getElem_mem hplaceD)
  have htrained : noted.Counted trained :=
    counted_setEntry noted hashS fun hrange =>
      noted.moveTornament_le v (hrange _ (List.getElem_mem hplace))
  have hshifted : trained.Counted shifted :=
    ⟨fun hsized => hsized.of_eq rfl hsized.pointer rfl rfl rfl rfl, fun hrange => hrange, rfl⟩
  have hall : p.Counted shifted :=
    (counted_countBranch p taken).trans (hmarked.trans
      ((counted_extraStats marked v).trans (htrained.trans hshifted)))
  by_cases hcorrect : v.correct
  · exact ⟨shifted, by rw [hbranch, if_pos hcorrect], hall, rfl, rfl⟩
  · exact ⟨shifted.mispredict, by rw [hbranch, if_neg hcorrect],
      hall.trans (counted_mispredict shifted), rfl, rfl⟩

end BranchPredictor

/-! ## Programs -/

/-- What a program does with the predictor. -/
inductive PredictorEvent
  | operate (pc : BitVec 32) (taken : Bool) (dest : BitVec 32) (pushPopStyle : ℤ)
  | collect

namespace PredictorEvent

/-- The calls that are open after an event, latest first.  There is none when a return has no call
or calls are nested deeper than the return stack. -/
def openCalls (calls : List (BitVec 32)) : PredictorEvent → Option (List (BitVec 32))
  | collect => some calls
  | operate pc taken _ style =>
      if style = 100 then some calls
      else if style < 0 then
        match calls with
        | [] => none
        | _ :: outer => some outer
      else if taken ∧ 0 < style then
        if calls.length < rstackEntries then some (pc :: calls) else none
      else some calls

/-- A computed jump comes while no call is open. -/
def JumpsOutside (calls : List (BitVec 32)) : PredictorEvent → Prop
  | collect => True
  | operate _ _ _ style => style = 100 → calls = []

instance decidableJumpsOutside (calls : List (BitVec 32)) :
    ∀ event : PredictorEvent, Decidable (event.JumpsOutside calls)
  | collect => .isTrue trivial
  | operate _ _ _ style => inferInstanceAs (Decidable (style = 100 → calls = []))

end PredictorEvent

/-- A predictor, the calls that are open and the penalties that were collected. -/
structure PredictorSession where
  predictor : BranchPredictor
  calls : List (BitVec 32)
  collected : BitVec 64

namespace PredictorSession

def step (s : PredictorSession) (event : PredictorEvent) : Option PredictorSession := do
  let calls ← event.openCalls s.calls
  match event with
  | .collect =>
      let (predictor, penalties) := s.predictor.collectPenalties
      some ⟨predictor, calls, s.collected + penalties⟩
  | .operate pc taken dest style =>
      let predictor ← s.predictor.operate pc taken dest style
      some ⟨predictor, calls, s.collected⟩

/-- The return that comes next is predicted to go behind its call, and is counted as mispredicted
when it goes elsewhere. -/
def Predicts (s : PredictorSession) : PredictorEvent → Prop
  | .collect => True
  | .operate pc taken dest style => style < 0 → ∀ call outer, s.calls = call :: outer →
      s.predictor.popPrediction = some (call + 1) ∧
        ∀ next, s.predictor.operate pc taken dest style = some next →
          next.stats.popJumpMispredicts = s.predictor.stats.popJumpMispredicts +
            if dest = call + 1 then 0 else 1

/-- What holds of a predictor between two operations. -/
structure Regular (s : PredictorSession) : Prop where
  tornaments : s.predictor.TornamentsInRange
  penalties : s.collected + s.predictor.uncollectedPenalties = s.predictor.mispredicts

/-- Events are served without an access outside the tables, every return is predicted, and what
holds between two operations holds all the time. -/
def Serves (start : PredictorSession) (events : List PredictorEvent) : Prop :=
  Guarded.Meets step (fun s event => s.Regular ∧ s.Predicts event) start events ∧
    ∃ final, Guarded.exec step start events = some final ∧ final.Regular

/-! ## The return stack -/

/-- The return stack holds where the open calls return to, below its pointer. -/
def Remembers (p : BranchPredictor) (calls : List (BitVec 32)) : Prop :=
  ∀ i (hi : i < calls.length),
    p.returnStack[(p.returnStackPointer.toNat + 15 - i) % rstackEntries]? = some (calls[i] + 1)

theorem toNat_and_seven (x : BitVec 32) : (x &&& 7).toNat = x.toNat % 8 := by
  rw [BitVec.toNat_and]
  exact Nat.and_two_pow_sub_one_eq_mod x.toNat 3

section Stack

variable {p p' : BranchPredictor} {calls : List (BitVec 32)} {call pc : BitVec 32}

theorem toNat_popPointer (p : BranchPredictor) :
    p.popPointer.toNat = (p.returnStackPointer.toNat + 7) % 8 := by
  have hpop : p.popPointer.toNat = (p.returnStackPointer - 1).toNat % 8 :=
    toNat_and_seven (p.returnStackPointer - 1)
  rw [hpop, BitVec.toNat_sub]
  change (2 ^ 32 - 1 + p.returnStackPointer.toNat) % 2 ^ 32 % 8 = _
  omega

/-- The last call that is open is what a return is predicted to belong to. -/
theorem popPrediction_of_remembers (hremembers : Remembers p (call :: calls)) :
    p.popPrediction = some (call + 1) := by
  have hplace : p.popPointer.toNat = (p.returnStackPointer.toNat + 15 - 0) % rstackEntries := by
    rw [toNat_popPointer]
    change _ = (p.returnStackPointer.toNat + 15) % 8
    omega
  rw [BranchPredictor.popPrediction, hplace]
  exact hremembers 0 (Nat.succ_pos _)

theorem remembers_pop (hdepth : (call :: calls).length ≤ rstackEntries)
    (hremembers : Remembers p (call :: calls)) (hstack : p'.returnStack = p.returnStack)
    (hpop : p'.returnStackPointer = p.popPointer) : Remembers p' calls := by
  intro i hi
  have hentries : rstackEntries = 8 := rfl
  have hcall := hremembers (i + 1) (Nat.succ_lt_succ hi)
  have hplace : (p.popPointer.toNat + 15 - i) % rstackEntries =
      (p.returnStackPointer.toNat + 15 - (i + 1)) % rstackEntries := by
    rw [toNat_popPointer]
    simp only [hentries, List.length_cons] at hdepth ⊢
    omega
  rw [hstack, hpop, hplace, hcall, List.getElem_cons_succ]

theorem remembers_push (hstackSize : p.returnStack.length = rstackEntries)
    (hpointer : p.returnStackPointer.toNat < rstackEntries)
    (hdepth : calls.length < rstackEntries) (hremembers : Remembers p calls)
    (hstack : p'.returnStack = p.returnStack.set p.returnStackPointer.toNat (pc + 1))
    (hpush : p'.returnStackPointer = (p.returnStackPointer + 1) &&& 7) :
    Remembers p' (pc :: calls) := by
  intro i hi
  have hentries : rstackEntries = 8 := rfl
  have hnext : p'.returnStackPointer.toNat = (p.returnStackPointer.toNat + 1) % 8 := by
    rw [hpush, toNat_and_seven, BitVec.toNat_add]
    change (p.returnStackPointer.toNat + 1) % 2 ^ 32 % 8 = _
    omega
  cases i with
  | zero =>
      have hplace : (p'.returnStackPointer.toNat + 15 - 0) % rstackEntries =
          p.returnStackPointer.toNat := by
        simp only [hentries] at hpointer ⊢
        omega
      rw [hplace, hstack, List.getElem?_set_self (by omega), List.getElem_cons_zero]
  | succ i =>
      rw [List.length_cons] at hi
      have hplace : (p'.returnStackPointer.toNat + 15 - (i + 1)) % rstackEntries =
          (p.returnStackPointer.toNat + 15 - i) % rstackEntries := by
        simp only [hentries] at hdepth hpointer ⊢
        omega
      have hother : p.returnStackPointer.toNat ≠
          (p.returnStackPointer.toNat + 15 - i) % rstackEntries := by
        simp only [hentries] at hdepth hpointer ⊢
        omega
      rw [hplace, hstack, List.getElem?_set_ne hother, List.getElem_cons_succ]
      exact hremembers i (Nat.lt_of_succ_lt_succ hi)

end Stack

/-! ## Runs -/

/-- What holds along a run in which no computed jump comes inside a call. -/
structure Sound (s : PredictorSession) : Prop where
  sized : s.predictor.Sized
  regular : s.Regular
  depth : s.calls.length ≤ rstackEntries
  remembers : Remembers s.predictor s.calls

variable {s : PredictorSession} {event : PredictorEvent} {calls : List (BitVec 32)}
  {predictor : BranchPredictor}

/-- An operation of the predictor that counts its penalties. -/
theorem Sound.after (hsound : s.Sound) (hcounted : s.predictor.Counted predictor)
    (hdepth : calls.length ≤ rstackEntries) (hremembers : Remembers predictor calls) :
    Sound ⟨predictor, calls, s.collected⟩ where
  sized := hcounted.sized hsound.sized
  regular := {
    tornaments := hcounted.tornaments hsound.regular.tornaments
    penalties := by
      have hpenalties := hcounted.penalties
      rw [← hsound.regular.penalties] at hpenalties
      apply add_right_cancel (b := s.predictor.uncollectedPenalties)
      calc s.collected + predictor.uncollectedPenalties + s.predictor.uncollectedPenalties
          = predictor.uncollectedPenalties +
              (s.collected + s.predictor.uncollectedPenalties) := by ac_rfl
        _ = s.predictor.uncollectedPenalties + predictor.mispredicts := hpenalties
        _ = predictor.mispredicts + s.predictor.uncollectedPenalties := by ac_rfl }
  depth := hdepth
  remembers := hremembers

theorem Sound.predicts (hsound : s.Sound) (event : PredictorEvent) : s.Predicts event := by
  cases event with
  | collect => trivial
  | operate pc taken dest style =>
      intro hstyle call outer hcalls
      have hremembers := hsound.remembers
      rw [hcalls] at hremembers
      have hprediction := popPrediction_of_remembers hremembers
      obtain ⟨prediction, hpop, p', hp', -, -, -, hcount⟩ :=
        BranchPredictor.subroutineReturn_spec hsound.sized dest
      rw [hprediction, Option.some.injEq] at hpop
      have hreturn : s.predictor.operate pc taken dest style = some p' := by
        rw [BranchPredictor.operate, if_neg (by omega), if_pos hstyle, hp']
      refine ⟨hprediction, fun next hnext => ?_⟩
      rw [hreturn, Option.some.injEq] at hnext
      rw [← hnext, hcount, ← hpop]
      simp only [eq_comm]

/-- An event of a well-nested program is served. -/
theorem Sound.step (hsound : s.Sound) (hnested : event.openCalls s.calls = some calls)
    (houtside : event.JumpsOutside s.calls) :
    ∃ next, s.step event = some next ∧ next.calls = calls ∧ next.Sound := by
  have hsized := hsound.sized
  cases event with
  | collect =>
      obtain rfl : s.calls = calls := Option.some.inj hnested
      refine ⟨_, rfl, rfl, ⟨hsized.of_eq rfl hsized.pointer rfl rfl rfl rfl,
        ⟨hsound.regular.tornaments, ?_⟩, hsound.depth, hsound.remembers⟩⟩
      exact (BitVec.add_zero _).trans hsound.regular.penalties
  | operate pc taken dest style =>
      have hserved : ∀ p', s.predictor.operate pc taken dest style = some p' →
          s.step (.operate pc taken dest style) = some ⟨p', calls, s.collected⟩ := by
        intro p' hp'
        rw [PredictorSession.step, hnested]
        simp only [hp', Option.bind_eq_bind, Option.bind_some]
      simp only [PredictorEvent.openCalls] at hnested
      split_ifs at hnested with hjump hreturn hcall hroom
      · -- a computed jump, outside all calls
        obtain rfl : s.calls = calls := Option.some.inj hnested
        obtain ⟨p', hp', hcounted⟩ := BranchPredictor.computedJump_spec hsized pc dest
        have hnone : s.calls = [] := houtside hjump
        refine ⟨_, hserved p' (by rw [BranchPredictor.operate, if_pos hjump, hp']), rfl,
          hsound.after hcounted hsound.depth ?_⟩
        rw [hnone]
        exact fun i hi => absurd hi (Nat.not_lt_zero i)
      · -- a return
        cases hcalls : s.calls with
        | nil =>
            rw [hcalls] at hnested
            cases hnested
        | cons call outer =>
            rw [hcalls] at hnested
            obtain rfl : outer = calls := Option.some.inj hnested
            obtain ⟨_, _, p', hp', hcounted, hstack, hpointer, -⟩ :=
              BranchPredictor.subroutineReturn_spec hsized dest
            have hdepth := hsound.depth
            have hremembers := hsound.remembers
            rw [hcalls] at hdepth hremembers
            refine ⟨_, hserved p' (by
              rw [BranchPredictor.operate, if_neg hjump, if_pos hreturn, hp']), rfl,
              hsound.after hcounted (Nat.le_of_succ_le hdepth) ?_⟩
            exact remembers_pop hdepth hremembers hstack hpointer
      · -- a taken call
        obtain rfl : pc :: s.calls = calls := Option.some.inj hnested
        obtain ⟨noted, hnoted, hcounted, hstack, hpointer⟩ :=
          BranchPredictor.noteCall_spec hsized pc dest
        obtain ⟨p', hp', hcounted', hstack', hpointer'⟩ :=
          BranchPredictor.normalBranch_spec (hcounted.sized hsized) pc taken dest
        refine ⟨_, hserved p' (by
          rw [BranchPredictor.operate, if_neg hjump, if_neg hreturn, if_pos hcall, hnoted,
            Option.bind_some, hp']), rfl, hsound.after (hcounted.trans hcounted') hroom ?_⟩
        exact remembers_push hsized.returnStack hsized.pointer hroom hsound.remembers
          (hstack'.trans hstack) (hpointer'.trans hpointer)
      · -- a normal branch
        obtain rfl : s.calls = calls := Option.some.inj hnested
        obtain ⟨p', hp', hcounted, hstack, hpointer⟩ :=
          BranchPredictor.normalBranch_spec hsized pc taken dest
        refine ⟨_, hserved p' (by
          rw [BranchPredictor.operate, if_neg hjump, if_neg hreturn, if_neg hcall, hp']), rfl,
          hsound.after hcounted hsound.depth ?_⟩
        intro i hi
        rw [hstack, hpointer]
        exact hsound.remembers i hi

theorem Sound.serves (hsound : s.Sound) {events : List PredictorEvent}
    (hnested : Guarded.exec (fun calls event => event.openCalls calls) s.calls events = some calls)
    (houtside : Guarded.Meets (fun calls event => event.openCalls calls)
      (fun calls event => event.JumpsOutside calls) s.calls events) :
    s.Serves events := by
  induction events generalizing s with
  | nil => exact ⟨trivial, s, rfl, hsound.regular⟩
  | cons event events ih =>
      obtain ⟨calls', hcalls', hrest⟩ := Guarded.exec_cons_eq_some.mp hnested
      obtain ⟨next, hnext, hnextCalls, hnextSound⟩ := hsound.step hcalls' houtside.1
      have hserves := ih hnextSound (by rw [hnextCalls]; exact hrest) (by
        rw [hnextCalls]
        exact houtside.2 calls' hcalls')
      obtain ⟨hmeets, final, hfinal, hregular⟩ := hserves
      exact ⟨Guarded.meets_cons hnext ⟨hsound.regular, hsound.predicts event⟩ hmeets, final,
        Guarded.exec_cons_eq_some.mpr ⟨next, hnext, hfinal⟩, hregular⟩

/-- A new predictor without open calls. -/
def made (logsize k : ℕ) (returnStack : List (BitVec 32)) (lastCall lastCallTo : BitVec 32) :
    PredictorSession where
  predictor := .new logsize (2 ^ k) returnStack lastCall lastCallTo
  calls := []
  collected := 0

theorem sound_made {logsize k : ℕ} {returnStack : List (BitVec 32)}
    (lastCall lastCallTo : BitVec 32) (hlogsize : logsize ≤ 30) (hk : k ≤ 30)
    (hstack : returnStack.length = rstackEntries) :
    (made logsize k returnStack lastCall lastCallTo).Sound where
  sized := {
    returnStack := hstack
    pointer := Nat.succ_pos 7
    btbTable := List.length_replicate
    btbCapacity := by
      change 0 < ((1 : BitVec 32) <<< logsize).toNat
      have hsmall : 2 ^ logsize < 2 ^ 32 := Nat.pow_lt_pow_right (by decide) (by omega)
      rw [BitVec.toNat_shiftLeft, Nat.shiftLeft_eq]
      change 0 < 1 * 2 ^ logsize % 2 ^ 32
      rw [Nat.one_mul, Nat.mod_eq_of_lt hsmall]
      exact Nat.two_pow_pos logsize
    historyTable := by
      have hsmall : 2 ^ k < 2 ^ 32 := Nat.pow_lt_pow_right (by decide) (by omega)
      change (List.replicate (2 ^ k) PredictEntry.new).length = (BitVec.ofNat 32 (2 ^ k)).toNat
      rw [List.length_replicate, BitVec.toNat_ofNat, Nat.mod_eq_of_lt hsmall]
    historyCapacity := by
      have hsmall : 2 ^ k < 2 ^ 32 := Nat.pow_lt_pow_right (by decide) (by omega)
      refine ⟨k, ?_⟩
      change (BitVec.ofNat 32 (2 ^ k)).toNat = 2 ^ k
      rw [BitVec.toNat_ofNat, Nat.mod_eq_of_lt hsmall] }
  regular := {
    tornaments := by
      intro entry hentry
      rw [List.eq_of_mem_replicate hentry]
      decide
    penalties := rfl }
  depth := Nat.zero_le _
  remembers i hi := absurd hi (Nat.not_lt_zero i)

/-- A program with well-nested calls, no computed jump inside one, finds every return predicted;
the tables and counters stay in their ranges and the penalties are the mispredictions. -/
theorem made_serves (logsize k : ℕ) (returnStack : List (BitVec 32))
    (lastCall lastCallTo : BitVec 32) (events : List PredictorEvent) (calls : List (BitVec 32))
    (hlogsize : logsize ≤ 30) (hk : k ≤ 30) (hstack : returnStack.length = rstackEntries)
    (hnested : Guarded.exec (fun calls event => event.openCalls calls) [] events = some calls)
    (houtside : Guarded.Meets (fun calls event => event.openCalls calls)
      (fun calls event => event.JumpsOutside calls) [] events) :
    (made logsize k returnStack lastCall lastCallTo).Serves events :=
  (sound_made lastCall lastCallTo hlogsize hk hstack).serves hnested houtside

/-- A call in a call, a conditional branch, and a computed jump behind them. -/
theorem made_serves_nested :
    (made 9 12 (List.replicate 8 0) 0 0).Serves
      [.operate 0x100 true 0x200 1, .operate 0x208 false 0x240 0, .operate 0x20A true 0x300 1,
        .operate 0x304 true 0x20B (-1), .collect, .operate 0x20C true 0x101 (-1),
        .operate 0x104 true 0x500 100] :=
  made_serves 9 12 _ 0 0 _ [] (by decide) (by decide) rfl (by decide) (by decide)

/-- A call, and a computed jump in the subroutine. -/
def jumpInCall : List PredictorEvent :=
  [.operate 0x100 true 0x200 1, .operate 0x208 true 0x240 100]

/-- A computed jump in a subroutine takes the place of its return off the return stack. -/
theorem not_made_serves :
    ¬(made 9 12 (List.replicate 8 0) 0 0).Serves
      (jumpInCall ++ [.operate 0x244 true 0x101 (-1)]) := by
  rintro ⟨hmeets, -⟩
  obtain ⟨-, hlast⟩ := Guarded.meets_append hmeets
  have hmid : (Guarded.exec step (made 9 12 (List.replicate 8 0) 0 0) jumpInCall).map
      (fun s => (s.calls, s.predictor.popPrediction)) = some ([0x100], some 0) := by
    decide
  cases hexec : Guarded.exec step (made 9 12 (List.replicate 8 0) 0 0) jumpInCall with
  | none =>
      rw [hexec] at hmid
      cases hmid
  | some s =>
      rw [hexec, Option.map_some, Option.some.injEq, Prod.mk.injEq] at hmid
      have hpredicts := (hlast s hexec).1.2 (by decide) 0x100 [] hmid.1
      rw [hmid.2] at hpredicts
      exact absurd hpredicts.1 (by decide)

end PredictorSession

end Prazor.Tenos
