import Prazor.Core.ArrayMap

/-!
# The breakpoint table of the ARM interpreter

`set_breakpoint`, `delete_breakpoint` and the break check of `bodystate_clock`.  The table
keeps a finite map from addresses to styles.  The loop that closes a gap reads one entry more
than it needs, which lies outside of the array if the table was full.

What lies behind the array can be read and written like an entry here, and the table
remembers that this has been done.
-/

namespace Prazor.Arm

open Prazor.ArrayMap

inductive WpStyle
  | watch
  | break
  | singleStep
  deriving DecidableEq, Repr

structure ArmBreak where
  addr : BitVec 32
  style : WpStyle

def maxBreakpoints : ℕ := 4

structure BreakpointTable where
  pcBreakpoints : ℕ → ArmBreak
  breakpointsActive : ℕ
  instructionGrace : Bool
  outside : Bool

namespace BreakpointTable

variable (t : BreakpointTable)

/-- An access to an element. -/
def touch (i : ℕ) : BreakpointTable :=
  { t with outside := t.outside || decide (maxBreakpoints ≤ i) }

/-- `pc_breakpoints[i] = b` -/
def assign (i : ℕ) (b : ArmBreak) : BreakpointTable :=
  { t.touch i with pcBreakpoints := Function.update t.pcBreakpoints i b }

/-- A scan of some entries for an address: the first one that has it, or where the scan
ends. -/
def scan (addr : BitVec 32) : BreakpointTable → ℕ → ℕ → BreakpointTable × ℕ
  | t, 0, n => (t, n)
  | t, left + 1, n =>
      if (t.pcBreakpoints n).addr = addr then (t.touch n, n)
      else scan addr (t.touch n) left (n + 1)

/-- `for (int m = n; m < breakpoints_active; m++) pc_breakpoints[m] = pc_breakpoints[m+1]` -/
def shift : BreakpointTable → ℕ → ℕ → BreakpointTable
  | t, 0, _ => t
  | t, left + 1, m => shift ((t.touch (m + 1)).assign m (t.pcBreakpoints (m + 1))) left (m + 1)

/-- The end of `delete_breakpoint`, after its assertion. -/
def remove (n : ℕ) : Option BreakpointTable :=
  if n < t.breakpointsActive then
    let t := t.shift (t.breakpointsActive - n) n
    some { t with breakpointsActive := t.breakpointsActive - 1 }
  else none

/-- `delete_breakpoint`: a negative number asks for a scan for the address. -/
def deleteBreakpoint (addr : BitVec 32) (specificWhich : ℤ) : Option (BreakpointTable × ℤ) :=
  if specificWhich < 0 then
    let (t, n) := scan addr t t.breakpointsActive 0
    if n = t.breakpointsActive then some (t, -2) else (t.remove n).map (·, 0)
  else (t.remove specificWhich.toNat).map (·, 0)

/-- `set_breakpoint` -/
def setBreakpoint (addr : BitVec 32) (style : WpStyle) : BreakpointTable × ℤ :=
  let t := { t with instructionGrace := true }
  let (t, i) := scan addr t t.breakpointsActive 0
  if i = t.breakpointsActive then
    if t.breakpointsActive < maxBreakpoints then
      let t := t.assign i ⟨addr, style⟩
      ({ t with breakpointsActive := t.breakpointsActive + 1 }, 0)
    else (t, -1)
  else (t.assign i { t.pcBreakpoints i with style := style }, 0)

/-- The break check before an instruction: whether the core is halted. -/
def breakCheck (insAddress : BitVec 32) : Option (BreakpointTable × Bool) :=
  if t.instructionGrace then some ({ t with instructionGrace := false }, false)
  else
    let (t, w) := scan insAddress t t.breakpointsActive 0
    if w = t.breakpointsActive then some (t, false)
    else if (t.pcBreakpoints w).style = .singleStep then
      (t.deleteBreakpoint 0 w).map fun result => (result.1, true)
    else some (t, true)

/-- The table after the constructor, with what the memory held. -/
def start (memory : ℕ → ArmBreak) : BreakpointTable where
  pcBreakpoints := memory
  breakpointsActive := 0
  instructionGrace := false
  outside := false

/-! ## Runs -/

/-- What is done to a table. -/
inductive Call
  | set (addr : BitVec 32) (style : WpStyle)
  | delete (addr : BitVec 32)
  | deleteAt (n : ℕ)
  | check (insAddress : BitVec 32)

/-- A call, with what it returns.  The check returns nothing. -/
def call : Call → Option (BreakpointTable × ℤ)
  | .set addr style => some (t.setBreakpoint addr style)
  | .delete addr => t.deleteBreakpoint addr (-1)
  | .deleteAt n => t.deleteBreakpoint 0 n
  | .check insAddress => (t.breakCheck insAddress).map fun result => (result.1, 0)

end BreakpointTable

/-- The styles of the addresses that have a breakpoint. -/
abbrev BreakpointMap := BitVec 32 → Option WpStyle

open BreakpointTable

/-- What a call that succeeds is to do to the map: a check removes a single step that it
hits. -/
def BreakpointMap.after (map : BreakpointMap) (t : BreakpointTable) : Call → BreakpointMap
  | .set addr style => Function.update map addr (some style)
  | .delete addr => Function.update map addr none
  | .deleteAt n => Function.update map (t.pcBreakpoints n).addr none
  | .check insAddress =>
      if t.instructionGrace = false ∧ map insAddress = some .singleStep then
        Function.update map insAddress none
      else map

/-- A table after some calls, with the map that the successful ones give. -/
def BreakpointTable.run :
    List Call → BreakpointTable × BreakpointMap → Option (BreakpointTable × BreakpointMap)
  | [], state => some state
  | c :: rest, (t, map) =>
      match t.call c with
      | some (t', result) => run rest (t', if result < 0 then map else map.after t c)
      | none => none

/-! ## One operation -/

namespace BreakpointTable

variable {t t' : BreakpointTable} {addr : BitVec 32} {style : WpStyle} {map : BreakpointMap}
  {n left i m : ℕ}

/-- An entry as a pair of an address and a style. -/
def entry (t : BreakpointTable) (i : ℕ) : BitVec 32 × WpStyle :=
  ((t.pcBreakpoints i).addr, (t.pcBreakpoints i).style)

/-- The active entries are in the array and are those of the map. -/
structure Keeps (t : BreakpointTable) (map : BreakpointMap) : Prop where
  le : t.breakpointsActive ≤ maxBreakpoints
  represents : Represents t.entry t.breakpointsActive map

theorem touch_of_lt (hi : i < maxBreakpoints) : t.touch i = t := by
  rw [touch, decide_eq_false (Nat.not_le.mpr hi), Bool.or_false]

/-- A scan of elements of the array changes nothing and finds the first entry. -/
theorem scan_spec (hle : n + left ≤ maxBreakpoints) :
    ∃ i, scan addr t left n = (t, i) ∧ n ≤ i ∧ i ≤ n + left ∧
      (∀ j, n ≤ j → j < i → (t.pcBreakpoints j).addr ≠ addr) ∧
      (i < n + left → (t.pcBreakpoints i).addr = addr) := by
  induction left generalizing n with
  | zero =>
      exact ⟨n, rfl, le_rfl, le_rfl, fun j hj hlt => absurd hlt (Nat.not_lt.mpr hj),
        fun h => absurd h (Nat.lt_irrefl n)⟩
  | succ left ih =>
      have hn : n < maxBreakpoints := by omega
      rw [scan, touch_of_lt hn]
      by_cases haddr : (t.pcBreakpoints n).addr = addr
      · rw [if_pos haddr]
        exact ⟨n, rfl, le_rfl, Nat.le_add_right _ _,
          fun j hj hlt => absurd hlt (Nat.not_lt.mpr hj), fun _ => haddr⟩
      · rw [if_neg haddr]
        obtain ⟨i, hscan, hlow, hhigh, hbefore, hfound⟩ := @ih (n + 1) (by omega)
        refine ⟨i, hscan, by omega, by omega, ?_, fun hi => hfound (by omega)⟩
        intro j hj hlt
        rcases Nat.eq_or_lt_of_le hj with rfl | hgt
        · exact haddr
        · exact hbefore j hgt hlt

/-- What the scan of all active entries finds. -/
theorem scan_active (hkeeps : Keeps t map) (addr : BitVec 32) :
    (scan addr t t.breakpointsActive 0 = (t, t.breakpointsActive) ∧ map addr = none) ∨
      ∃ i < t.breakpointsActive, scan addr t t.breakpointsActive 0 = (t, i) ∧
        (t.pcBreakpoints i).addr = addr := by
  obtain ⟨i, hscan, -, hhigh, hbefore, hfound⟩ :=
    @scan_spec t addr 0 t.breakpointsActive ((Nat.zero_add _).trans_le hkeeps.le)
  rw [Nat.zero_add] at hhigh hfound
  rcases Nat.eq_or_lt_of_le hhigh with heq | hlt
  · left
    rw [heq] at hscan hbefore
    exact ⟨hscan, hkeeps.represents.eq_none.mpr fun j hj => hbefore j (Nat.zero_le j) hj⟩
  · exact Or.inr ⟨i, hlt, hscan, hfound hlt⟩

/-- What the loop that closes a gap does.  It reads the element behind the last one. -/
structure Shifted (t t' : BreakpointTable) (left m : ℕ) : Prop where
  moved : ∀ j, m ≤ j → j < m + left → t'.pcBreakpoints j = t.pcBreakpoints (j + 1)
  kept : ∀ j, j < m → t'.pcBreakpoints j = t.pcBreakpoints j
  behind : ∀ j, m + left ≤ j → t'.pcBreakpoints j = t.pcBreakpoints j
  breakpointsActive : t'.breakpointsActive = t.breakpointsActive
  instructionGrace : t'.instructionGrace = t.instructionGrace
  outside : t'.outside = true ↔ t.outside = true ∨ (0 < left ∧ maxBreakpoints ≤ m + left)

theorem shift_spec (t : BreakpointTable) (left m : ℕ) : Shifted t (t.shift left m) left m := by
  induction left generalizing t m with
  | zero =>
      exact
        { moved := fun j hj hlt => absurd hlt (Nat.not_lt.mpr hj)
          kept := fun _ _ => rfl
          behind := fun _ _ => rfl
          breakpointsActive := rfl
          instructionGrace := rfl
          outside := by simp [shift] }
  | succ left ih =>
      have hrest := ih ((t.touch (m + 1)).assign m (t.pcBreakpoints (m + 1))) (m + 1)
      have hself : ((t.touch (m + 1)).assign m (t.pcBreakpoints (m + 1))).pcBreakpoints m =
          t.pcBreakpoints (m + 1) := Function.update_self _ _ _
      have hother : ∀ j, j ≠ m →
          ((t.touch (m + 1)).assign m (t.pcBreakpoints (m + 1))).pcBreakpoints j =
            t.pcBreakpoints j := fun j hj => Function.update_of_ne hj _ _
      exact
        { moved := fun j hj hlt => by
            rw [shift]
            rcases Nat.eq_or_lt_of_le hj with rfl | hgt
            · rw [hrest.kept m (Nat.lt_succ_self m), hself]
            · rw [hrest.moved j hgt (by omega), hother (j + 1) (by omega)]
          kept := fun j hj => by
            rw [shift, hrest.kept j (by omega), hother j hj.ne]
          behind := fun j hj => by
            rw [shift, hrest.behind j (by omega), hother j (by omega)]
          breakpointsActive := hrest.breakpointsActive
          instructionGrace := hrest.instructionGrace
          outside := by
            rw [shift, hrest.outside]
            simp only [assign, touch, Bool.or_eq_true, decide_eq_true_eq, or_assoc]
            apply or_congr_right
            omega }

/-- What the removal of an entry does. -/
structure Removed (t t' : BreakpointTable) (map : BreakpointMap) : Prop where
  keeps : Keeps t' map
  instructionGrace : t'.instructionGrace = t.instructionGrace
  outside : t'.outside = true ↔ t.outside = true ∨ t.breakpointsActive = maxBreakpoints

theorem remove_spec (hkeeps : Keeps t map) (hn : n < t.breakpointsActive) :
    ∃ t', t.remove n = some t' ∧
      Removed t t' (Function.update map (t.pcBreakpoints n).addr none) := by
  have hle := hkeeps.le
  have hshift := t.shift_spec (t.breakpointsActive - n) n
  have hcount : t.breakpointsActive = t.breakpointsActive - 1 + 1 := by omega
  have hrep := hkeeps.represents
  rw [hcount] at hrep
  refine ⟨_, if_pos hn, ?_, hshift.instructionGrace, ?_⟩
  · constructor
    · change (t.shift (t.breakpointsActive - n) n).breakpointsActive - 1 ≤ _
      rw [hshift.breakpointsActive]
      omega
    · change Represents _ ((t.shift (t.breakpointsActive - n) n).breakpointsActive - 1) _
      rw [hshift.breakpointsActive]
      apply hrep.closeGap (by omega)
      · intro j hj
        simp only [entry, hshift.kept j hj]
      · intro j hj hlt
        simp only [entry, hshift.moved j hj (by omega)]
  · change (t.shift (t.breakpointsActive - n) n).outside = true ↔ _
    rw [hshift.outside]
    apply or_congr_right
    omega

/-! ## One call -/

/-- The index of a deletion is that of an active entry. -/
def Allowed (t : BreakpointTable) : Call → Prop
  | .deleteAt n => n < t.breakpointsActive
  | _ => True

/-- The call removes an entry. -/
def Removes (t : BreakpointTable) (map : BreakpointMap) : Call → Prop
  | .set _ _ => False
  | .delete addr => map addr ≠ none
  | .deleteAt _ => True
  | .check insAddress => t.instructionGrace = false ∧ map insAddress = some .singleStep

/-- The call does not remove an entry of a full table. -/
def Spares (t : BreakpointTable) (map : BreakpointMap) (c : Call) : Prop :=
  ¬(t.breakpointsActive = maxBreakpoints ∧ Removes t map c)

/-- What a call does: a failing one leaves the entries as they are. -/
structure Called (t t' : BreakpointTable) (map : BreakpointMap) (c : Call) (result : ℤ) :
    Prop where
  keeps : Keeps t' (if result < 0 then map else map.after t c)
  outside : t'.outside = true ↔ t.outside = true ∨ ¬Spares t map c
  failed : result < 0 → t'.pcBreakpoints = t.pcBreakpoints ∧
    t'.breakpointsActive = t.breakpointsActive

theorem not_spares {c : Call} :
    ¬Spares t map c ↔ t.breakpointsActive = maxBreakpoints ∧ Removes t map c :=
  not_not

/-- A call that removes nothing and succeeds. -/
theorem Called.of_kept {c : Call} (hkeeps : Keeps t' (map.after t c))
    (houtside : t'.outside = t.outside) (hnot : ¬Removes t map c) : Called t t' map c 0 where
  keeps := by rwa [if_neg (lt_irrefl 0)]
  outside := by
    rw [houtside, not_spares]
    exact (or_iff_left fun h => hnot h.2).symm
  failed := fun h => absurd h (lt_irrefl 0)

/-- A call that removes an entry. -/
theorem Called.of_removed {c : Call} (hremoved : Removed t t' (map.after t c))
    (hremoves : Removes t map c) : Called t t' map c 0 where
  keeps := by
    rw [if_neg (lt_irrefl 0)]
    exact hremoved.keeps
  outside := by
    rw [hremoved.outside, not_spares, and_iff_left hremoves]
  failed := fun h => absurd h (lt_irrefl 0)

/-- A call that finds nothing to do. -/
theorem Called.of_failed {c : Call} {result : ℤ} (hkeeps : Keeps t map) (hfails : result < 0)
    (hentries : t'.pcBreakpoints = t.pcBreakpoints)
    (hactive : t'.breakpointsActive = t.breakpointsActive) (houtside : t'.outside = t.outside)
    (hnot : ¬Removes t map c) : Called t t' map c result where
  keeps := by
    have hentry : t'.entry = t.entry := by
      funext i
      simp only [entry, hentries]
    rw [if_pos hfails]
    exact ⟨hactive.trans_le hkeeps.le, by rw [hentry, hactive]; exact hkeeps.represents⟩
  outside := by
    rw [houtside, not_spares]
    exact (or_iff_left fun h => hnot h.2).symm
  failed := fun _ => ⟨hentries, hactive⟩

theorem called_set (hkeeps : Keeps t map) (addr : BitVec 32) (style : WpStyle) :
    ∃ t' result, t.call (.set addr style) = some (t', result) ∧
      Called t t' map (.set addr style) result := by
  set u : BreakpointTable := { t with instructionGrace := true }
  have hu : Keeps u map := ⟨hkeeps.le, hkeeps.represents⟩
  rcases scan_active hu addr with ⟨hscan, hnone⟩ | ⟨i, hi, hscan, haddr⟩
  · by_cases hroom : u.breakpointsActive < maxBreakpoints
    · have hset : t.setBreakpoint addr style =
          ({ u.assign u.breakpointsActive ⟨addr, style⟩ with
            breakpointsActive := u.breakpointsActive + 1 }, 0) := by
        simp only [setBreakpoint]
        rw [hscan]
        simp only [if_true, if_pos hroom]
        rfl
      refine ⟨_, _, congrArg some hset, Called.of_kept ⟨hroom, ?_⟩ ?_ id⟩
      · apply hu.represents.push hnone
        · intro j hj
          have hne : j ≠ u.breakpointsActive := hj.ne
          simp only [entry, assign, Function.update_of_ne hne]
        · simp only [entry, assign, Function.update_self]
      · have houtside : (u.touch u.breakpointsActive).outside = u.outside := by
          rw [touch_of_lt hroom]
        exact houtside
    · have hset : t.setBreakpoint addr style = (u, -1) := by
        simp only [setBreakpoint]
        rw [hscan]
        simp only [if_true, if_neg hroom]
      exact ⟨_, _, congrArg some hset, Called.of_failed hkeeps (by decide) rfl rfl rfl id⟩
  · have hne : i ≠ u.breakpointsActive := hi.ne
    have hset : t.setBreakpoint addr style =
        (u.assign i { u.pcBreakpoints i with style := style }, 0) := by
      simp only [setBreakpoint]
      rw [hscan]
      simp only [if_neg hne]
    refine ⟨_, _, congrArg some hset, Called.of_kept ⟨hu.le, ?_⟩ ?_ id⟩
    · apply hu.represents.assign hi haddr
      funext j
      by_cases hj : j = i
      · simp only [entry, assign, hj, Function.update_self, haddr]
      · simp only [entry, assign, Function.update_of_ne hj]
    · have houtside : (u.touch i).outside = u.outside := by
        rw [touch_of_lt (hi.trans_le hu.le)]
      exact houtside

theorem called_delete (hkeeps : Keeps t map) (addr : BitVec 32) :
    ∃ t' result, t.call (.delete addr) = some (t', result) ∧
      Called t t' map (.delete addr) result := by
  rcases scan_active hkeeps addr with ⟨hscan, hnone⟩ | ⟨i, hi, hscan, haddr⟩
  · have hdelete : t.deleteBreakpoint addr (-1) = some (t, -2) := by
      simp only [deleteBreakpoint, if_pos (by decide : (-1 : ℤ) < 0)]
      rw [hscan]
      simp only [if_true]
    exact ⟨_, _, hdelete, Called.of_failed hkeeps (by decide) rfl rfl rfl fun h => h hnone⟩
  · obtain ⟨t', hremove, hremoved⟩ := remove_spec hkeeps hi
    have hdelete : t.deleteBreakpoint addr (-1) = some (t', 0) := by
      simp only [deleteBreakpoint, if_pos (by decide : (-1 : ℤ) < 0)]
      rw [hscan]
      simp only [if_neg hi.ne, hremove, Option.map_some]
    rw [haddr] at hremoved
    refine ⟨_, _, hdelete, Called.of_removed hremoved ?_⟩
    intro hnone
    exact hkeeps.represents.eq_none.mp hnone i hi haddr

theorem deleteBreakpoint_at (hn : t.remove n = some t') :
    t.deleteBreakpoint addr n = some (t', 0) := by
  rw [deleteBreakpoint, if_neg (Int.not_lt.mpr (Int.natCast_nonneg n)), Int.toNat_natCast, hn]
  rfl

theorem called_deleteAt (hkeeps : Keeps t map) (hn : n < t.breakpointsActive) :
    ∃ t' result, t.call (.deleteAt n) = some (t', result) ∧
      Called t t' map (.deleteAt n) result := by
  obtain ⟨t', hremove, hremoved⟩ := remove_spec hkeeps hn
  exact ⟨t', 0, deleteBreakpoint_at hremove, Called.of_removed hremoved trivial⟩

theorem called_check (hkeeps : Keeps t map) (insAddress : BitVec 32) :
    ∃ t' result, t.call (.check insAddress) = some (t', result) ∧
      Called t t' map (.check insAddress) result := by
  cases hgrace : t.instructionGrace with
  | true =>
      have hcall : t.call (.check insAddress) = some ({ t with instructionGrace := false }, 0) := by
        rw [call, breakCheck, hgrace, if_pos rfl, Option.map_some]
      have hafter : map.after t (.check insAddress) = map :=
        if_neg fun h => Bool.false_ne_true (h.1.symm.trans hgrace)
      refine ⟨_, _, hcall, Called.of_kept ?_ rfl fun h => ?_⟩
      · rw [hafter]
        exact ⟨hkeeps.le, hkeeps.represents⟩
      · exact Bool.false_ne_true (h.1.symm.trans hgrace)
  | false =>
      rcases scan_active hkeeps insAddress with ⟨hscan, hnone⟩ | ⟨i, hi, hscan, haddr⟩
      · have hcall : t.call (.check insAddress) = some (t, 0) := by
          simp only [call, breakCheck, hgrace, Bool.false_eq_true, if_false]
          rw [hscan]
          simp only [if_true, Option.map_some]
        have hnot : ¬Removes t map (.check insAddress) := by
          rintro ⟨-, hstyle⟩
          rw [hnone] at hstyle
          cases hstyle
        have hafter : map.after t (.check insAddress) = map := if_neg hnot
        exact ⟨_, _, hcall, Called.of_kept (by rwa [hafter]) rfl hnot⟩
      · have hstyle : map insAddress = some (t.pcBreakpoints i).style := by
          rw [← haddr]
          exact hkeeps.represents.at_entry hi
        by_cases hsingle : (t.pcBreakpoints i).style = .singleStep
        · obtain ⟨t', hremove, hremoved⟩ := remove_spec hkeeps hi
          have hcall : t.call (.check insAddress) = some (t', 0) := by
            simp only [call, breakCheck, hgrace, Bool.false_eq_true, if_false]
            rw [hscan]
            simp only [if_neg hi.ne, if_pos hsingle, deleteBreakpoint_at hremove,
              Option.map_some]
          have hremoves : Removes t map (.check insAddress) := ⟨hgrace, by rw [hstyle, hsingle]⟩
          have hafter : map.after t (.check insAddress) =
              Function.update map (t.pcBreakpoints i).addr none := by
            rw [haddr]
            exact if_pos hremoves
          exact ⟨_, _, hcall, Called.of_removed (by rwa [hafter]) hremoves⟩
        · have hcall : t.call (.check insAddress) = some (t, 0) := by
            simp only [call, breakCheck, hgrace, Bool.false_eq_true, if_false]
            rw [hscan]
            simp only [if_neg hi.ne, if_neg hsingle, Option.map_some]
          have hnot : ¬Removes t map (.check insAddress) := by
            rintro ⟨-, hstep⟩
            rw [hstyle, Option.some.injEq] at hstep
            exact hsingle hstep
          have hafter : map.after t (.check insAddress) = map := if_neg hnot
          exact ⟨_, _, hcall, Called.of_kept (by rwa [hafter]) rfl hnot⟩

/-- Every call does to the map what it is to do. -/
theorem called (hkeeps : Keeps t map) (c : Call) (hallowed : Allowed t c) :
    ∃ t' result, t.call c = some (t', result) ∧ Called t t' map c result := by
  cases c with
  | set addr style => exact called_set hkeeps addr style
  | delete addr => exact called_delete hkeeps addr
  | deleteAt n => exact called_deleteAt hkeeps hallowed
  | check insAddress => exact called_check hkeeps insAddress

/-! ## All calls -/

/-- A condition on every call of a run. -/
def Along (condition : BreakpointTable → BreakpointMap → Call → Prop) :
    List Call → BreakpointTable → BreakpointMap → Prop
  | [], _, _ => True
  | c :: rest, t, map => condition t map c ∧ ∀ t' result, t.call c = some (t', result) →
      Along condition rest t' (if result < 0 then map else map.after t c)

/-- The table is the map of the successful calls, a failing call leaves it as it is, and no
element outside of the array has been read or written. -/
structure Faithful (t : BreakpointTable) (map : BreakpointMap) : Prop where
  keeps : Keeps t map
  failed : ∀ c t' result, t.call c = some (t', result) → result < 0 →
    t'.pcBreakpoints = t.pcBreakpoints ∧ t'.breakpointsActive = t.breakpointsActive
  inside : t.outside = false

theorem failed_of_keeps (hkeeps : Keeps t map) {c : Call} {result : ℤ}
    (hcall : t.call c = some (t', result)) (hfails : result < 0) :
    t'.pcBreakpoints = t.pcBreakpoints ∧ t'.breakpointsActive = t.breakpointsActive := by
  have hallowed : Allowed t c := by
    cases c with
    | deleteAt n =>
        by_contra hnot
        have hn : ¬n < t.breakpointsActive := hnot
        have hnone : t.call (.deleteAt n) = none := by
          rw [call, deleteBreakpoint, if_neg (Int.not_lt.mpr (Int.natCast_nonneg n)),
            Int.toNat_natCast, remove, if_neg hn, Option.map_none]
        rw [hnone] at hcall
        cases hcall
    | _ => trivial
  obtain ⟨u, result', hcall', hcalled⟩ := called hkeeps c hallowed
  rw [hcall, Option.some.injEq, Prod.mk.injEq] at hcall'
  obtain ⟨rfl, rfl⟩ := hcall'
  exact hcalled.failed hfails

/-- What a run does to a table that keeps a map. -/
theorem run_spec (calls : List Call) (hkeeps : Keeps t map)
    (hallowed : Along (fun t _ => Allowed t) calls t map) :
    ∃ t' map', run calls (t, map) = some (t', map') ∧ Keeps t' map' ∧
      (t'.outside = false ↔ t.outside = false ∧ Along Spares calls t map) := by
  induction calls generalizing t map with
  | nil => exact ⟨t, map, rfl, hkeeps, (and_iff_left trivial).symm⟩
  | cons c rest ih =>
      obtain ⟨u, result, hcall, hcalled⟩ := called hkeeps c hallowed.1
      obtain ⟨t', map', hrun, hkeeps', houtside⟩ :=
        ih hcalled.keeps (hallowed.2 u result hcall)
      refine ⟨t', map', ?_, hkeeps', ?_⟩
      · rw [run, hcall]
        exact hrun
      · have hfirst : u.outside = false ↔ t.outside = false ∧ Spares t map c := by
          rw [← Bool.not_eq_true, hcalled.outside, not_or, not_not, Bool.not_eq_true]
        rw [houtside, hfirst, Along]
        constructor
        · rintro ⟨⟨hinside, hspares⟩, hrest⟩
          refine ⟨hinside, hspares, fun u' result' hcall' => ?_⟩
          rw [hcall, Option.some.injEq, Prod.mk.injEq] at hcall'
          obtain ⟨rfl, rfl⟩ := hcall'
          exact hrest
        · rintro ⟨hinside, hspares, hrest⟩
          exact ⟨⟨hinside, hspares⟩, hrest u result hcall⟩

theorem keeps_start (memory : ℕ → ArmBreak) : Keeps (start memory) fun _ => none where
  le := Nat.zero_le _
  represents := Represents.empty _

/-- The table is a map after any calls, without a look behind the array, exactly if no call
removes an entry of a full table. -/
theorem faithful_iff (memory : ℕ → ArmBreak) (calls : List Call)
    (hallowed : Along (fun t _ => Allowed t) calls (start memory) fun _ => none) :
    (∃ t map, run calls (start memory, fun _ => none) = some (t, map) ∧ Faithful t map) ↔
      Along Spares calls (start memory) fun _ => none := by
  obtain ⟨t, map, hrun, hkeeps, houtside⟩ := run_spec calls (keeps_start memory) hallowed
  have hinside : t.outside = false ↔ Along Spares calls (start memory) fun _ => none :=
    houtside.trans (and_iff_right rfl)
  rw [← hinside]
  constructor
  · rintro ⟨t', map', hrun', hfaithful⟩
    rw [hrun, Option.some.injEq, Prod.mk.injEq] at hrun'
    rw [hrun'.1]
    exact hfaithful.inside
  · intro h
    exact ⟨t, map, hrun, hkeeps, fun _ _ _ => failed_of_keeps hkeeps, h⟩

/-- A breakpoint that is set and deleted again. -/
theorem faithful_pair : ∃ t map,
    run [.set 0x8000 .break, .delete 0x8000] (start fun _ => ⟨0, .watch⟩, fun _ => none) =
      some (t, map) ∧ Faithful t map := by
  have hallowed : Along (fun t _ => Allowed t) [.set 0x8000 .break, .delete 0x8000]
      (start fun _ => ⟨0, .watch⟩) fun _ => none :=
    ⟨trivial, fun _ _ _ => ⟨trivial, fun _ _ _ => trivial⟩⟩
  apply (faithful_iff _ _ hallowed).mpr
  refine ⟨fun h => h.2, fun t' result hcall => ⟨fun h => ?_, fun _ _ _ => trivial⟩⟩
  have hactive : t'.breakpointsActive = 1 := by
    cases hcall
    rfl
  rw [hactive] at h
  exact absurd h.1 (by decide)

/-- The last entry of a full table is deleted with a look behind the array. -/
theorem not_faithful_full : ¬∀ (memory : ℕ → ArmBreak) (calls : List Call),
    Along (fun t _ => Allowed t) calls (start memory) (fun _ => none) →
      ∃ t map, run calls (start memory, fun _ => none) = some (t, map) ∧ Faithful t map := by
  intro hall
  have hallowed : Along (fun t _ => Allowed t)
      [.set 0 .break, .set 4 .break, .set 8 .break, .set 12 .break, .delete 12]
      (start fun _ => ⟨0, .watch⟩) fun _ => none :=
    ⟨trivial, fun _ _ _ => ⟨trivial, fun _ _ _ => ⟨trivial, fun _ _ _ => ⟨trivial,
      fun _ _ _ => ⟨trivial, fun _ _ _ => trivial⟩⟩⟩⟩⟩
  obtain ⟨t, map, hrun, hfaithful⟩ := hall _ _ hallowed
  have houtside : (run
      [.set 0 .break, .set 4 .break, .set 8 .break, .set 12 .break, .delete 12]
      (start fun _ => ⟨0, .watch⟩, fun _ => none)).map (fun state => state.1.outside) =
        some true := by
    decide
  rw [hrun, Option.map_some, hfaithful.inside] at houtside
  exact absurd houtside (by decide)

end BreakpointTable

end Prazor.Arm
