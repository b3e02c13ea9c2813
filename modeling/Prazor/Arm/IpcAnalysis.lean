import Prazor.Arm.Armisa

/-!
# Instructions per cycle

`do_ipc_analysis` counts blocks of one or two instructions, where the second of a block uses no
register that the first defines.  It runs before an instruction is decoded; the registers of the
instruction are then put into one of two slots, those of the instruction before it being in the
other one or, if it starts a block, nowhere.

The arrays `uses` and `defs` are not cleared when the core is made.
-/

namespace Prazor.Arm

/-- An instruction: the calls of `add_use` and `add_def` while it is decoded and executed, of
which one that is skipped makes none, and the modes in which it is found. -/
structure IpcInstruction where
  prevThumbMode : Bool
  thumb32 : Bool
  executed : Bool
  useCalls : List ℕ
  defCalls : List ℕ
  skipped : executed = false → useCalls = [] ∧ defCalls = []

/-- The members of the analysis and the two counters. -/
structure IpcState where
  uses : ℕ → BitVec 16
  defs : ℕ → BitVec 16
  usesDefsIdx : ℕ
  thumb16OnlyIpc : Bool
  instructions : ℕ
  instructionBlocks : ℕ

/-- What the constructor leaves. -/
def IpcState.new (uses defs : ℕ → BitVec 16) : IpcState where
  uses := uses
  defs := defs
  usesDefsIdx := 0
  thumb16OnlyIpc := false
  instructions := 0
  instructionBlocks := 0

/-- The bit of a register, which is none for the number of no register. -/
def registerBit (reg : ℕ) : BitVec 16 :=
  if reg ≠ undefinedReg then ((1 : BitVec 32) <<< reg).setWidth 16 else 0

namespace IpcState

variable (s : IpcState)

/-- `add_use` -/
def addUse (index reg : ℕ) : IpcState :=
  { s with uses := Function.update s.uses index (s.uses index ||| registerBit reg) }

/-- `add_def` -/
def addDef (index reg : ℕ) : IpcState :=
  { s with defs := Function.update s.defs index (s.defs index ||| registerBit reg) }

/-- `clear_uses_and_defs`, of the two slots. -/
def clearUsesAndDefs : IpcState :=
  { s with
    uses := fun i => if i < 2 then 0 else s.uses i
    defs := fun i => if i < 2 then 0 else s.defs i }

/-- `do_ipc_analysis`; `none` is a failed assertion. -/
def doIpcAnalysis (prevThumbMode thumb32 : Bool) : Option IpcState :=
  if 0 < s.instructions then
    if ¬s.thumb16OnlyIpc ∨ (s.thumb16OnlyIpc ∧ prevThumbMode ∧ ¬thumb32) then
      match s.usesDefsIdx with
      | 0 => some { s with usesDefsIdx := 1 }
      | 1 =>
          let s :=
            if s.uses 1 &&& s.defs 0 = 0 then { s.clearUsesAndDefs with usesDefsIdx := 0 }
            else
              { s with
                uses := Function.update (Function.update s.uses 0 (s.uses 1)) 1 0
                defs := Function.update (Function.update s.defs 0 (s.defs 1)) 1 0
                usesDefsIdx := 1 }
          some { s with instructionBlocks := s.instructionBlocks + 1 }
      | _ => none
    else
      let blocks := if s.usesDefsIdx = 1 then s.instructionBlocks + 1 else s.instructionBlocks
      some { s.clearUsesAndDefs with usesDefsIdx := 0, instructionBlocks := blocks + 1 }
  else some s

/-- The registers of an instruction are put into the slot, and it is counted if it is executed. -/
def execute (instr : IpcInstruction) : IpcState :=
  let s := instr.useCalls.foldl (fun s reg => s.addUse s.usesDefsIdx reg) s
  let s := instr.defCalls.foldl (fun s reg => s.addDef s.usesDefsIdx reg) s
  if instr.executed then { s with instructions := s.instructions + 1 } else s

/-- The part of `bodystate_clock` that a fetched instruction goes through. -/
def bodystateClock (instr : IpcInstruction) : Option IpcState :=
  (s.doIpcAnalysis instr.prevThumbMode instr.thumb32).map fun s => s.execute instr

/-- A sequence of instructions, with one call of the analysis for each of them. -/
def run (s : IpcState) : List IpcInstruction → Option IpcState
  | [] => some s
  | instr :: instrs => (s.bodystateClock instr).bind fun s => run s instrs

/-- Whether the next call consults the slots. -/
def Compares : Prop := 0 < s.instructions ∧ s.usesDefsIdx = 1

/-- Whether the next call completes a block with both instructions in the slots, so that the
instruction after it starts another block. -/
def Shares : Prop :=
  ∃ prevThumbMode thumb32 t, s.doIpcAnalysis prevThumbMode thumb32 = some t ∧
    t.instructionBlocks = s.instructionBlocks + 1 ∧ t.usesDefsIdx = 0

end IpcState

/-! ## The registers of an instruction -/

/-- The registers that some calls name. -/
def registers (calls : List ℕ) : BitVec 16 :=
  calls.foldl (fun bits reg => bits ||| registerBit reg) 0

def IpcInstruction.uses (instr : IpcInstruction) : BitVec 16 := registers instr.useCalls

def IpcInstruction.defs (instr : IpcInstruction) : BitVec 16 := registers instr.defCalls

/-- The instructions that are skipped before the first one is executed. -/
def leading (instrs : List IpcInstruction) : ℕ := (instrs.takeWhile fun i => !i.executed).length

namespace IpcState

variable {s : IpcState} {instr : IpcInstruction} {instrs : List IpcInstruction}

theorem foldl_registers (calls : List ℕ) (bits : BitVec 16) :
    calls.foldl (fun bits reg => bits ||| registerBit reg) bits = bits ||| registers calls := by
  induction calls generalizing bits with
  | nil => exact BitVec.or_zero.symm
  | cons reg calls ih =>
      have hzero : 0 ||| registerBit reg = registerBit reg := BitVec.zero_or
      rw [registers, List.foldl_cons, List.foldl_cons, ih, ih, hzero, BitVec.or_assoc]

theorem registers_cons (reg : ℕ) (calls : List ℕ) :
    registers (reg :: calls) = registerBit reg ||| registers calls := by
  have hzero : 0 ||| registerBit reg = registerBit reg := BitVec.zero_or
  rw [registers, List.foldl_cons, foldl_registers, hzero]

/-- The calls of `add_use` of one instruction. -/
theorem foldl_addUse (s : IpcState) (calls : List ℕ) :
    calls.foldl (fun s reg => s.addUse s.usesDefsIdx reg) s =
      { s with
        uses := Function.update s.uses s.usesDefsIdx
          (s.uses s.usesDefsIdx ||| registers calls) } := by
  induction calls generalizing s with
  | nil =>
      have hsame : s.uses s.usesDefsIdx ||| registers [] = s.uses s.usesDefsIdx := BitVec.or_zero
      rw [hsame, Function.update_eq_self]
      rfl
  | cons reg calls ih =>
      rw [List.foldl_cons, ih, registers_cons, ← BitVec.or_assoc]
      simp only [addUse, Function.update_self, Function.update_idem]

theorem foldl_addDef (s : IpcState) (calls : List ℕ) :
    calls.foldl (fun s reg => s.addDef s.usesDefsIdx reg) s =
      { s with
        defs := Function.update s.defs s.usesDefsIdx
          (s.defs s.usesDefsIdx ||| registers calls) } := by
  induction calls generalizing s with
  | nil =>
      have hsame : s.defs s.usesDefsIdx ||| registers [] = s.defs s.usesDefsIdx := BitVec.or_zero
      rw [hsame, Function.update_eq_self]
      rfl
  | cons reg calls ih =>
      rw [List.foldl_cons, ih, registers_cons, ← BitVec.or_assoc]
      simp only [addDef, Function.update_self, Function.update_idem]

/-- An instruction changes its slot and the counter of the executed ones only. -/
theorem execute_eq (s : IpcState) (instr : IpcInstruction) :
    s.execute instr = { s with
      uses := Function.update s.uses s.usesDefsIdx (s.uses s.usesDefsIdx ||| instr.uses)
      defs := Function.update s.defs s.usesDefsIdx (s.defs s.usesDefsIdx ||| instr.defs)
      instructions := s.instructions + if instr.executed then 1 else 0 } := by
  rw [execute, foldl_addUse, foldl_addDef]
  cases instr.executed <;> rfl

theorem uses_execute (s : IpcState) (instr : IpcInstruction) (i : ℕ) :
    (s.execute instr).uses i =
      if i = s.usesDefsIdx then s.uses i ||| instr.uses else s.uses i := by
  rw [execute_eq]
  by_cases hsame : i = s.usesDefsIdx
  · rw [if_pos hsame, hsame]
    exact Function.update_self _ _ _
  · rw [if_neg hsame]
    exact Function.update_of_ne hsame _ _

theorem defs_execute (s : IpcState) (instr : IpcInstruction) (i : ℕ) :
    (s.execute instr).defs i =
      if i = s.usesDefsIdx then s.defs i ||| instr.defs else s.defs i := by
  rw [execute_eq]
  by_cases hsame : i = s.usesDefsIdx
  · rw [if_pos hsame, hsame]
    exact Function.update_self _ _ _
  · rw [if_neg hsame]
    exact Function.update_of_ne hsame _ _

theorem usesDefsIdx_execute (s : IpcState) (instr : IpcInstruction) :
    (s.execute instr).usesDefsIdx = s.usesDefsIdx := by
  rw [execute_eq]

theorem thumb16OnlyIpc_execute (s : IpcState) (instr : IpcInstruction) :
    (s.execute instr).thumb16OnlyIpc = s.thumb16OnlyIpc := by
  rw [execute_eq]

theorem instructionBlocks_execute (s : IpcState) (instr : IpcInstruction) :
    (s.execute instr).instructionBlocks = s.instructionBlocks := by
  rw [execute_eq]

theorem instructions_execute (s : IpcState) (instr : IpcInstruction) :
    (s.execute instr).instructions = s.instructions + if instr.executed then 1 else 0 := by
  rw [execute_eq]

theorem run_append (s : IpcState) (instrs : List IpcInstruction) (instr : IpcInstruction) :
    s.run (instrs ++ [instr]) = (s.run instrs).bind fun s => s.bodystateClock instr := by
  induction instrs generalizing s with
  | nil =>
      rw [List.nil_append, run, run, Option.bind_some]
      cases s.bodystateClock instr with
      | none => rfl
      | some t => rfl
  | cons first instrs ih =>
      rw [List.cons_append, run, run]
      cases s.bodystateClock first with
      | none => rfl
      | some t => exact ih t

/-! ## Where the analysis is -/

/-- A slot holds the registers of one instruction and perhaps one of the given values that the
arrays held at first. -/
def Stray (own slot : BitVec 16) (strays : List (BitVec 16)) : Prop :=
  ∃ left ∈ 0 :: strays, slot = own ||| left

theorem Stray.add {own slot more : BitVec 16} {strays : List (BitVec 16)}
    (hslot : Stray own slot strays) : Stray (own ||| more) (slot ||| more) strays := by
  obtain ⟨left, hleft, hsum⟩ := hslot
  exact ⟨left, hleft, by rw [hsum, BitVec.or_assoc, BitVec.or_comm left, BitVec.or_assoc]⟩

theorem Stray.weaken {own slot : BitVec 16} {strays more : List (BitVec 16)}
    (hslot : Stray own slot strays) (hsub : strays ⊆ more) : Stray own slot more := by
  obtain ⟨left, hleft, hsum⟩ := hslot
  exact ⟨left, List.cons_subset_cons 0 hsub hleft, hsum⟩

theorem Stray.zero (strays : List (BitVec 16)) : Stray 0 0 strays :=
  ⟨0, List.mem_cons_self, BitVec.or_zero.symm⟩

/-- No instruction has been executed, the first of a block is in its slot, or both slots are
taken. -/
inductive Phase (init s : IpcState) (instrs : List IpcInstruction) : Prop
  | waiting (hskipped : ∀ instr ∈ instrs, instr.executed = false) (hcount : s.instructions = 0)
      (hidx : s.usesDefsIdx = 0) (huses : s.uses = init.uses) (hdefs : s.defs = init.defs)
  | first (before : List IpcInstruction) (last : IpcInstruction)
      (hinstrs : instrs = before ++ [last]) (hcount : 0 < s.instructions)
      (hidx : s.usesDefsIdx = 0) (hdefs : Stray last.defs (s.defs 0) [init.defs 0])
      (huses : Stray 0 (s.uses 1) [init.uses 1]) (hdefs' : Stray 0 (s.defs 1) [init.defs 1])
      (hcalls : instrs.length ≤ leading instrs + 2 * s.instructionBlocks + 1)
  | second (before : List IpcInstruction) (first second : IpcInstruction)
      (hinstrs : instrs = before ++ [first, second]) (hcount : 0 < s.instructions)
      (hidx : s.usesDefsIdx = 1)
      (hdefs : Stray first.defs (s.defs 0) [init.defs 0, init.defs 1])
      (huses : Stray second.uses (s.uses 1) [init.uses 1])
      (hdefs' : Stray second.defs (s.defs 1) [init.defs 1])
      (hcalls : instrs.length ≤ leading instrs + 2 * s.instructionBlocks + 2)

/-- What holds of the state after some instructions. -/
structure Sound (init s : IpcState) (instrs : List IpcInstruction) : Prop where
  mode : s.thumb16OnlyIpc = false
  blocks_le : s.instructionBlocks ≤ instrs.length
  phase : Phase init s instrs

theorem leading_le_append (instrs : List IpcInstruction) (instr : IpcInstruction) :
    leading instrs ≤ leading (instrs ++ [instr]) := by
  rw [leading, leading, List.takeWhile_append]
  split_ifs with hall
  · rw [hall, List.length_append]
    exact Nat.le_add_right _ _
  · exact le_refl _

/-- All instructions are skipped so far. -/
theorem leading_of_skipped (hskipped : ∀ instr ∈ instrs, instr.executed = false) :
    leading instrs = instrs.length := by
  rw [leading, List.takeWhile_eq_self_iff.mpr]
  intro instr hmem
  rw [hskipped instr hmem]
  rfl

/-- A call before an instruction has been executed does nothing. -/
theorem doIpcAnalysis_waiting (hcount : s.instructions = 0) (prevThumbMode thumb32 : Bool) :
    s.doIpcAnalysis prevThumbMode thumb32 = some s := by
  rw [doIpcAnalysis, if_neg (by omega)]

/-- A call with one instruction in the slots makes room for a second one. -/
theorem doIpcAnalysis_first (hmode : s.thumb16OnlyIpc = false) (hcount : 0 < s.instructions)
    (hidx : s.usesDefsIdx = 0) (prevThumbMode thumb32 : Bool) :
    s.doIpcAnalysis prevThumbMode thumb32 = some { s with usesDefsIdx := 1 } := by
  have hon : ¬s.thumb16OnlyIpc = true := by
    rw [hmode]
    exact Bool.false_ne_true
  rw [doIpcAnalysis, if_pos hcount, if_pos (Or.inl hon), hidx]
  rfl

/-- A call with two instructions completes a block, with both of them or with the first. -/
theorem doIpcAnalysis_second (hmode : s.thumb16OnlyIpc = false) (hcount : 0 < s.instructions)
    (hidx : s.usesDefsIdx = 1) (prevThumbMode thumb32 : Bool) :
    ∃ t, s.doIpcAnalysis prevThumbMode thumb32 = some t ∧
      t.instructionBlocks = s.instructionBlocks + 1 ∧ t.instructions = s.instructions ∧
      t.thumb16OnlyIpc = false ∧ t.uses 1 = 0 ∧ t.defs 1 = 0 ∧
      (t.usesDefsIdx = 0 ∧ t.defs 0 = 0 ∧ s.uses 1 &&& s.defs 0 = 0 ∨
        t.usesDefsIdx = 1 ∧ t.defs 0 = s.defs 1) := by
  have hon : ¬s.thumb16OnlyIpc = true := by
    rw [hmode]
    exact Bool.false_ne_true
  rw [doIpcAnalysis, if_pos hcount, if_pos (Or.inl hon), hidx]
  refine ⟨_, rfl, ?_⟩
  split_ifs with hnone
  · exact ⟨rfl, rfl, hmode, rfl, rfl, Or.inl ⟨rfl, rfl, hnone⟩⟩
  · exact ⟨rfl, rfl, hmode, rfl, rfl, Or.inr ⟨rfl, rfl⟩⟩

theorem Stray.take {slot own : BitVec 16} {strays : List (BitVec 16)}
    (hslot : Stray 0 slot strays) : Stray own (slot ||| own) strays := by
  have hzero : 0 ||| own = own := BitVec.zero_or
  have hadded := @Stray.add 0 slot own strays hslot
  rwa [hzero] at hadded

/-- A skipped instruction has no registers. -/
theorem registers_of_skipped (hskip : instr.executed = false) :
    instr.uses = 0 ∧ instr.defs = 0 := by
  rw [IpcInstruction.uses, IpcInstruction.defs, (instr.skipped hskip).1, (instr.skipped hskip).2]
  exact ⟨rfl, rfl⟩

/-- One instruction takes the analysis from where it is to where it should be next. -/
theorem sound_step {init : IpcState} (hsound : Sound init s instrs) (instr : IpcInstruction) :
    ∃ t, s.bodystateClock instr = some t ∧ Sound init t (instrs ++ [instr]) := by
  obtain ⟨hmode, hblocks, hphase⟩ := hsound
  have hlength : (instrs ++ [instr]).length = instrs.length + 1 := List.length_append
  have hleading := leading_le_append instrs instr
  cases hphase with
  | waiting hskipped hcount hidx huses hdefs =>
      refine ⟨s.execute instr, ?_, (thumb16OnlyIpc_execute s instr).trans hmode, ?_, ?_⟩
      · rw [bodystateClock, doIpcAnalysis_waiting hcount, Option.map_some]
      · rw [instructionBlocks_execute, hlength]
        exact Nat.le_succ_of_le hblocks
      · cases hexecuted : instr.executed with
        | false =>
            obtain ⟨hnouses, hnodefs⟩ := registers_of_skipped hexecuted
            have hnone : ∀ slot : BitVec 16, slot ||| 0 = slot := fun _ => BitVec.or_zero
            refine .waiting ?_ ?_ ((usesDefsIdx_execute s instr).trans hidx) ?_ ?_
            · intro other hmem
              rcases List.mem_append.mp hmem with hold | hnew
              · exact hskipped other hold
              · rw [List.mem_singleton.mp hnew]
                exact hexecuted
            · rw [instructions_execute, hcount, hexecuted]
              rfl
            · funext i
              rw [uses_execute, hnouses, hnone, ite_self, huses]
            · funext i
              rw [defs_execute, hnodefs, hnone, ite_self, hdefs]
        | true =>
            have hzero : ∀ slot : BitVec 16, slot = 0 ||| slot := fun _ => BitVec.zero_or.symm
            rw [leading_of_skipped hskipped] at hleading
            refine .first instrs instr rfl ?_ ((usesDefsIdx_execute s instr).trans hidx)
              ⟨init.defs 0, by simp, ?_⟩ ⟨init.uses 1, by simp, ?_⟩ ⟨init.defs 1, by simp, ?_⟩ ?_
            · rw [instructions_execute, hexecuted]
              exact Nat.succ_pos _
            · rw [defs_execute, hidx, if_pos rfl, hdefs, BitVec.or_comm]
            · rw [uses_execute, hidx, if_neg (by decide), huses, ← hzero]
            · rw [defs_execute, hidx, if_neg (by decide), hdefs, ← hzero]
            · rw [hlength, instructionBlocks_execute]
              omega
  | first before last hinstrs hcount hidx hdefs huses hdefs' hcalls =>
      set t := { s with usesDefsIdx := 1 }
      refine ⟨t.execute instr, ?_, (thumb16OnlyIpc_execute t instr).trans hmode, ?_, ?_⟩
      · rw [bodystateClock, doIpcAnalysis_first hmode hcount hidx, Option.map_some]
      · rw [instructionBlocks_execute, hlength]
        exact Nat.le_succ_of_le hblocks
      · refine .second before last instr ?_ ?_ (usesDefsIdx_execute t instr) ?_ ?_ ?_ ?_
        · rw [hinstrs, List.append_assoc]
          rfl
        · rw [instructions_execute]
          exact Nat.lt_of_lt_of_le hcount (Nat.le_add_right _ _)
        · rw [defs_execute, if_neg (show 0 ≠ t.usesDefsIdx from Nat.zero_ne_one)]
          exact hdefs.weaken (by simp)
        · rw [uses_execute, if_pos (show 1 = t.usesDefsIdx from rfl)]
          exact huses.take
        · rw [defs_execute, if_pos (show 1 = t.usesDefsIdx from rfl)]
          exact hdefs'.take
        · rw [hlength, instructionBlocks_execute]
          exact Nat.succ_le_succ (hcalls.trans (by gcongr))
  | second before first second hinstrs hcount hidx hdefs huses hdefs' hcalls =>
      obtain ⟨t, hcall, htblocks, htcount, htmode, htuses, htdefs, hnext⟩ :=
        doIpcAnalysis_second hmode hcount hidx instr.prevThumbMode instr.thumb32
      have hpos : 0 < (t.execute instr).instructions := by
        rw [instructions_execute, htcount]
        exact Nat.lt_of_lt_of_le hcount (Nat.le_add_right _ _)
      refine ⟨t.execute instr, ?_, (thumb16OnlyIpc_execute t instr).trans htmode, ?_, ?_⟩
      · rw [bodystateClock, hcall, Option.map_some]
      · rw [instructionBlocks_execute, htblocks, hlength]
        exact Nat.succ_le_succ hblocks
      · rcases hnext with ⟨htidx, htdefs0, -⟩ | ⟨htidx, htdefs0⟩
        · refine .first instrs instr rfl hpos ((usesDefsIdx_execute t instr).trans htidx)
            ?_ ?_ ?_ ?_
          · rw [defs_execute, htidx, if_pos rfl, htdefs0]
            exact (Stray.zero _).take
          · rw [uses_execute, htidx, if_neg (by decide), htuses]
            exact .zero _
          · rw [defs_execute, htidx, if_neg (by decide), htdefs]
            exact .zero _
          · rw [hlength, instructionBlocks_execute, htblocks]
            omega
        · refine .second (before ++ [first]) second instr ?_ hpos
            ((usesDefsIdx_execute t instr).trans htidx) ?_ ?_ ?_ ?_
          · rw [hinstrs, List.append_assoc, List.append_assoc]
            rfl
          · rw [defs_execute, htidx, if_neg (by decide), htdefs0]
            exact hdefs'.weaken (by simp)
          · rw [uses_execute, htidx, if_pos rfl, htuses]
            exact (Stray.zero _).take
          · rw [defs_execute, htidx, if_pos rfl, htdefs]
            exact (Stray.zero _).take
          · rw [hlength, instructionBlocks_execute, htblocks]
            omega

/-- The state after a sequence of instructions. -/
theorem sound_run (uses defs : ℕ → BitVec 16) (instrs : List IpcInstruction) :
    ∃ s, (IpcState.new uses defs).run instrs = some s ∧ Sound (.new uses defs) s instrs := by
  induction instrs using List.reverseRecOn with
  | nil =>
      refine ⟨_, rfl, rfl, le_refl 0, .waiting ?_ rfl rfl rfl rfl⟩
      exact fun _ hmem => absurd hmem List.not_mem_nil
  | append_singleton instrs instr ih =>
      obtain ⟨s, hrun, hsound⟩ := ih
      obtain ⟨t, hclock, hnext⟩ := sound_step hsound instr
      refine ⟨t, ?_, hnext⟩
      rw [run_append, hrun, Option.bind_some, hclock]

/-- No register is in both slots, so none is in the parts of them. -/
theorem and_eq_zero_of_stray {own own' slot slot' : BitVec 16} {strays strays' : List (BitVec 16)}
    (hslot : Stray own slot strays) (hslot' : Stray own' slot' strays')
    (hzero : slot &&& slot' = 0) : own &&& own' = 0 := by
  obtain ⟨left, -, rfl⟩ := hslot
  obtain ⟨left', -, rfl⟩ := hslot'
  apply BitVec.eq_of_getLsbD_eq
  intro i hi
  have hnone : (0 : BitVec 16).getLsbD i = false := BitVec.getLsbD_zero
  have hbit := congrArg (fun bits => bits.getLsbD i) hzero
  simp only [BitVec.getLsbD_and, BitVec.getLsbD_or, hnone] at hbit ⊢
  cases hown : own.getLsbD i
  · rfl
  · rw [hown, Bool.true_or, Bool.true_and, Bool.or_eq_false_iff] at hbit
    rw [Bool.true_and]
    exact hbit.1

/-- The counters, the pairs and the registers that are consulted, after every sequence of
instructions: calls before the first executed instruction do nothing, and what the arrays held
at first may still be in the slots. -/
theorem ipc_accounting (uses defs : ℕ → BitVec 16) (instrs : List IpcInstruction) :
    ∃ s, (IpcState.new uses defs).run instrs = some s ∧
      s.instructionBlocks ≤ instrs.length ∧
      instrs.length ≤ 2 * s.instructionBlocks + 2 + leading instrs ∧
      (s.Shares → s.Compares) ∧
      (s.Compares → ∃ before first second, instrs = before ++ [first, second] ∧
        Stray second.uses (s.uses 1) [uses 1] ∧ Stray first.defs (s.defs 0) [defs 0, defs 1] ∧
        (s.Shares → second.uses &&& first.defs = 0)) := by
  obtain ⟨s, hrun, hmode, hblocks, hphase⟩ := sound_run uses defs instrs
  refine ⟨s, hrun, hblocks, ?_⟩
  cases hphase with
  | waiting hskipped hcount hidx huses hdefs =>
      refine ⟨?_, ?_, ?_⟩
      · rw [leading_of_skipped hskipped]
        exact Nat.le_add_left _ _
      · rintro ⟨prevThumbMode, thumb32, t, hcall, hnext, -⟩
        rw [doIpcAnalysis_waiting hcount, Option.some.injEq] at hcall
        rw [hcall] at hnext
        exact absurd hnext.symm (Nat.succ_ne_self _)
      · rintro ⟨hpos, -⟩
        exact absurd hcount hpos.ne'
  | first before last hinstrs hcount hidx hdefs huses hdefs' hcalls =>
      refine ⟨by omega, ?_, ?_⟩
      · rintro ⟨prevThumbMode, thumb32, t, hcall, hnext, -⟩
        rw [doIpcAnalysis_first hmode hcount hidx, Option.some.injEq] at hcall
        rw [← hcall] at hnext
        exact absurd hnext.symm (Nat.succ_ne_self _)
      · rintro ⟨-, hone⟩
        rw [hidx] at hone
        exact absurd hone Nat.zero_ne_one
  | second before first second hinstrs hcount hidx hdefs huses hdefs' hcalls =>
      refine ⟨by omega, fun _ => ⟨hcount, hidx⟩, fun _ => ?_⟩
      refine ⟨before, first, second, hinstrs, huses, hdefs, ?_⟩
      rintro ⟨prevThumbMode, thumb32, t, hcall, -, hzero⟩
      obtain ⟨t', hcall', -, -, -, -, -, ⟨-, -, hand⟩ | ⟨hone, -⟩⟩ :=
        doIpcAnalysis_second hmode hcount hidx prevThumbMode thumb32
      · exact and_eq_zero_of_stray huses hdefs hand
      · rw [hcall, Option.some.injEq] at hcall'
        rw [← hcall', hzero] at hone
        exact absurd hone Nat.zero_ne_one

/-- An instruction without registers. -/
def plainInstruction (executed : Bool) : IpcInstruction where
  prevThumbMode := false
  thumb32 := false
  executed := executed
  useCalls := []
  defCalls := []
  skipped _ := ⟨rfl, rfl⟩

/-- With the first instruction skipped, three calls go by before a block is counted; and with a
bit left in the arrays, the first two instructions are taken to depend on each other. -/
theorem not_ipc_accounting :
    (¬∀ instrs : List IpcInstruction, ∃ s, (IpcState.new (fun _ => 0) fun _ => 0).run instrs =
      some s ∧ instrs.length ≤ 2 * s.instructionBlocks + 2) ∧
    ¬∀ (uses defs : ℕ → BitVec 16) (instrs : List IpcInstruction) (s : IpcState),
      (IpcState.new uses defs).run instrs = some s → s.Compares →
        ∃ before first second, instrs = before ++ [first, second] ∧
          s.uses 1 = second.uses ∧ s.defs 0 = first.defs := by
  constructor
  · intro hclaim
    obtain ⟨s, hrun, hle⟩ :=
      hclaim [plainInstruction false, plainInstruction true, plainInstruction true]
    have hblocks : ((IpcState.new (fun _ => 0) fun _ => 0).run
        [plainInstruction false, plainInstruction true, plainInstruction true]).map
          (·.instructionBlocks) = some 0 := rfl
    rw [hrun, Option.map_some, Option.some.injEq] at hblocks
    rw [hblocks] at hle
    exact absurd hle (by decide)
  · intro hclaim
    obtain ⟨before, first, second, hinstrs, -, hdefs⟩ := hclaim (fun _ => 0) (fun _ => 1)
      [plainInstruction true, plainInstruction true] _ rfl ⟨by decide, rfl⟩
    have hbefore : before = [] := by
      have hlength := congrArg List.length hinstrs
      rw [List.length_append] at hlength
      exact List.length_eq_zero_iff.mp (Nat.right_eq_add.mp hlength)
    rw [hbefore, List.nil_append] at hinstrs
    rw [← (List.cons.inj hinstrs).1] at hdefs
    revert hdefs
    decide

end IpcState

end Prazor.Arm
