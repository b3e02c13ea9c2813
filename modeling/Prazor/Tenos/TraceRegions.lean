import Prazor.Core.Guarded
import Prazor.Core.Payload

/-!
# Trace regions

A component that traces its accesses keeps a linked list of regions.  `check` asks all of them
about an address and a mask; a region that answers uses up one of its `count` traces.
-/

namespace Prazor.Tenos

structure TraceRegion where
  startAddress : Word64
  endAddress : Word64
  count : BitVec 32
  flags : BitVec 32
  deriving DecidableEq

/-- `TENOS_TRACE_DEFAULT_FLAGS` -/
def traceDefaultFlags : BitVec 32 := 0xFFFFFF

/-- The arguments of `check`. -/
structure TraceProbe where
  testv : Word64
  searchMask : BitVec 32

namespace TraceRegion

/-- The maximal constructor. -/
def maximal : TraceRegion where
  startAddress := 0
  endAddress := -1
  count := -1
  flags := traceDefaultFlags

/-- `clone`, of a region and of those behind it. -/
def clone (region : TraceRegion) : List TraceRegion → List TraceRegion → List TraceRegion
  | [], rest => region :: rest
  | next :: behind, rest => region :: clone next behind rest

/-- `add`: the list behind the pointer it is given. -/
def add (region : TraceRegion) (behind pointer : List TraceRegion) : List TraceRegion :=
  region.clone behind pointer

theorem add_eq (region : TraceRegion) (behind pointer : List TraceRegion) :
    region.add behind pointer = region :: behind ++ pointer := by
  unfold add
  induction behind generalizing region with
  | nil => rfl
  | cons next behind ih =>
      rw [clone, ih, List.cons_append, List.cons_append, List.cons_append]

variable (region : TraceRegion) (probe : TraceProbe)

/-- The address is in the region. -/
def InRange : Prop := region.startAddress ≤ probe.testv ∧ probe.testv < region.endAddress

instance decidableInRange : Decidable (region.InRange probe) :=
  inferInstanceAs (Decidable (_ ∧ _))

/-- `(search_mask==0)||(flags & search_mask)` -/
def MeetsMask : Prop := probe.searchMask = 0 ∨ region.flags &&& probe.searchMask ≠ 0

instance decidableMeetsMask : Decidable (region.MeetsMask probe) :=
  inferInstanceAs (Decidable (_ ∨ _))

/-- `check1` -/
def check1 : TraceRegion × BitVec 32 :=
  if probe.testv = 0 ∨ (region.InRange probe ∧ 0 < region.count) ∧ region.MeetsMask probe then
    ({ region with count := region.count - 1 },
      if region.flags ≠ 0 then region.flags else traceDefaultFlags)
  else (region, 0)

end TraceRegion

open TraceRegion

/-- The loop of `check`. -/
def checkFrom (probe : TraceProbe) (r : BitVec 32) :
    List TraceRegion → List TraceRegion × BitVec 32
  | [] => ([], r)
  | region :: next =>
      let (region', found) := region.check1 probe
      let (next', r) := checkFrom probe (r ||| found) next
      (region' :: next', r)

def check (regions : List TraceRegion) (probe : TraceProbe) : List TraceRegion × BitVec 32 :=
  let (regions, r) := checkFrom probe 0 regions
  (regions, if probe.searchMask ≠ 0 then r &&& probe.searchMask else r)

/-- What the region at a place of the list adds to the result of a check. -/
def contribution (regions : List TraceRegion) (i : ℕ) (probe : TraceProbe) : BitVec 32 :=
  (regions[i]?.map fun region => (region.check1 probe).2).getD 0

/-- How many results the region at a place adds to. -/
def contributions (i : ℕ) : List TraceRegion → List TraceProbe → ℕ
  | _, [] => 0
  | regions, probe :: probes =>
      (if contribution regions i probe ≠ 0 then 1 else 0) +
        contributions i (check regions probe).1 probes

/-! ## The regions one by one -/

section Regions

variable {regions : List TraceRegion} {region : TraceRegion} {probe : TraceProbe} {i : ℕ}

theorem checkFrom_fst (probe : TraceProbe) (r : BitVec 32) (regions : List TraceRegion) :
    (checkFrom probe r regions).1 = regions.map fun region => (region.check1 probe).1 := by
  induction regions generalizing r with
  | nil => rfl
  | cons region next ih =>
      rw [checkFrom, List.map_cons, ← ih (r ||| (region.check1 probe).2)]

/-- A check treats every region by itself. -/
theorem check_fst (regions : List TraceRegion) (probe : TraceProbe) :
    (check regions probe).1 = regions.map fun region => (region.check1 probe).1 :=
  checkFrom_fst probe 0 regions

theorem getElem?_check (regions : List TraceRegion) (probe : TraceProbe) (i : ℕ) :
    (check regions probe).1[i]? = regions[i]?.map fun region => (region.check1 probe).1 := by
  rw [check_fst, List.getElem?_map]

/-- What a region gives is nothing or its flags. -/
theorem check1_snd_ne_zero :
    (region.check1 probe).2 ≠ 0 ↔
      probe.testv = 0 ∨ (region.InRange probe ∧ 0 < region.count) ∧ region.MeetsMask probe := by
  have hdefault : traceDefaultFlags ≠ 0 := by decide
  rw [check1]
  split_ifs with hmatch hflags
  · exact iff_of_true hflags hmatch
  · exact iff_of_true hdefault hmatch
  · exact iff_of_false (not_not_intro rfl) hmatch

theorem check1_fst_of_eq_zero (hnone : (region.check1 probe).2 = 0) :
    (region.check1 probe).1 = region := by
  have hmatch := (not_congr check1_snd_ne_zero).mp (not_not_intro hnone)
  rw [check1, if_neg hmatch]

theorem count_of_contributes (hsome : (region.check1 probe).2 ≠ 0) (hcount : region.count ≠ 0) :
    (region.check1 probe).1.count.toNat + 1 = region.count.toNat := by
  have hpositive : 0 < region.count.toNat := by
    apply Nat.pos_of_ne_zero
    intro hzero
    exact hcount (BitVec.eq_of_toNat_eq hzero)
  rw [check1, if_pos (check1_snd_ne_zero.mp hsome)]
  change (region.count - 1).toNat + 1 = region.count.toNat
  rw [BitVec.toNat_sub_of_le (by
    rw [BitVec.le_def]
    exact hpositive)]
  exact Nat.sub_add_cancel hpositive

theorem contribution_eq (hregion : regions[i]? = some region) :
    contribution regions i probe = (region.check1 probe).2 := by
  rw [contribution, hregion, Option.map_some, Option.getD_some]

end Regions

/-! ## Budgets -/

/-- The regions that the next call finds. -/
def advance (regions : List TraceRegion) (probe : TraceProbe) : Option (List TraceRegion) :=
  some (check regions probe).1

/-- A region answers calls for an address in it with a mask that meets its flags. -/
def TraceRegion.Matches (region : TraceRegion) (probe : TraceProbe) : Prop :=
  region.InRange probe ∧ region.MeetsMask probe

/-- The address 0 stands for every address. -/
def TraceRegion.MatchesAny (region : TraceRegion) (probe : TraceProbe) : Prop :=
  (probe.testv = 0 ∨ region.InRange probe) ∧ region.MeetsMask probe

/-- What a call does to one of the regions. -/
structure RegionStep (Answers : TraceRegion → TraceProbe → Prop) (regions : List TraceRegion)
    (probe : TraceProbe) (i : ℕ) (region next : TraceRegion) : Prop where
  answers : contribution regions i probe ≠ 0 → Answers region probe
  count_le : next.count ≤ region.count
  unchanged : ¬Answers region probe → next = region

/-- What calls do to the region at a place: with a count of `n` it adds to at most `n`
results. -/
structure Budgeted (Answers : TraceRegion → TraceProbe → Prop) (i : ℕ)
    (regions : List TraceRegion) (probes : List TraceProbe) : Prop where
  steps : Guarded.Meets advance (fun regions probe => ∀ region next, regions[i]? = some region →
    (check regions probe).1[i]? = some next → RegionStep Answers regions probe i region next)
    regions probes
  budget : ∀ region, regions[i]? = some region →
    contributions i regions probes ≤ region.count.toNat

/-- A call for the address 0 finds the region at a place with traces left and flags that meet
its mask. -/
def WildcardMeets (i : ℕ) (regions : List TraceRegion) (probe : TraceProbe) : Prop :=
  probe.testv = 0 → ∀ region ∈ regions[i]?, region.count ≠ 0 ∧ region.MeetsMask probe

instance decidableWildcardMeets (i : ℕ) (regions : List TraceRegion) (probe : TraceProbe) :
    Decidable (WildcardMeets i regions probe) :=
  inferInstanceAs (Decidable (_ → ∀ region ∈ regions[i]?, _))

section Runs

variable {regions : List TraceRegion} {region next : TraceRegion} {probe : TraceProbe} {i : ℕ}

/-- A region that answers has traces left. -/
theorem count_ne_zero (hregular : WildcardMeets i regions probe)
    (hregion : regions[i]? = some region) (hsome : (region.check1 probe).2 ≠ 0) :
    region.count ≠ 0 ∧ region.MatchesAny probe := by
  obtain hwildcard | ⟨⟨hrange, hcount⟩, hmask⟩ := check1_snd_ne_zero.mp hsome
  · obtain ⟨hcount, hmask⟩ := hregular hwildcard region hregion
    exact ⟨hcount, .inl hwildcard, hmask⟩
  · exact ⟨(BitVec.pos_iff_ne_zero _).mp hcount, .inr hrange, hmask⟩

theorem regionStep (hregular : WildcardMeets i regions probe)
    (hregion : regions[i]? = some region)
    (hnext : (check regions probe).1[i]? = some next) :
    RegionStep MatchesAny regions probe i region next := by
  rw [getElem?_check, hregion, Option.map_some, Option.some.injEq] at hnext
  subst hnext
  by_cases hsome : (region.check1 probe).2 = 0
  · have hsame := check1_fst_of_eq_zero hsome
    rw [hsame]
    constructor
    · intro hcontributes
      rw [contribution_eq hregion] at hcontributes
      exact absurd hsome hcontributes
    · exact BitVec.le_refl _
    · exact fun _ => rfl
  · obtain ⟨hcount, hanswers⟩ := count_ne_zero hregular hregion hsome
    constructor
    · exact fun _ => hanswers
    · have hdecrement := count_of_contributes hsome hcount
      rw [BitVec.le_def]
      exact Nat.le_of_succ_le hdecrement.le
    · exact fun hnot => absurd hanswers hnot

/-- The budget of a region shrinks with every result it adds to. -/
theorem contributions_le {probes : List TraceProbe}
    (hregular : Guarded.Meets advance (WildcardMeets i) regions probes)
    (hregion : regions[i]? = some region) :
    contributions i regions probes ≤ region.count.toNat := by
  induction probes generalizing regions region with
  | nil => exact Nat.zero_le _
  | cons probe probes ih =>
      have hrest := hregular.2 (check regions probe).1 rfl
      have hnext : (check regions probe).1[i]? = some (region.check1 probe).1 := by
        rw [getElem?_check, hregion, Option.map_some]
      have hle := ih hrest hnext
      rw [contributions, contribution_eq hregion]
      by_cases hsome : (region.check1 probe).2 = 0
      · rw [if_neg (not_not_intro hsome), Nat.zero_add]
        rw [check1_fst_of_eq_zero hsome] at hle
        exact hle
      · have hcount := (count_ne_zero hregular.1 hregion hsome).1
        have hdecrement := count_of_contributes hsome hcount
        rw [if_pos hsome, ← hdecrement, Nat.add_comm]
        exact Nat.succ_le_succ hle

/-- A region keeps to its budget along every run in which the calls for the address 0 find it
with traces left and flags that meet their masks, whatever the other regions are. -/
theorem checks_budgeted (i : ℕ) (regions : List TraceRegion) (probes : List TraceProbe)
    (hregular : Guarded.Meets advance (WildcardMeets i) regions probes) :
    Budgeted MatchesAny i regions probes where
  steps := by
    induction probes generalizing regions with
    | nil => trivial
    | cons probe probes ih =>
        constructor
        · intro region next hregion hnext
          exact regionStep hregular.1 hregion hnext
        · intro next hnext
          exact ih next (hregular.2 next hnext)
  budget region hregion := contributions_le hregular hregion

end Runs

/-- A region of two traces, and one that is watched for writes. -/
def twoRegions : List TraceRegion :=
  [⟨0x1000, 0x2000, 2, traceDefaultFlags⟩, ⟨0x1800, 0x4000, 5, 8⟩]

/-- The first region has used up its traces when the second is asked about any address. -/
theorem checks_budgeted_twoRegions :
    Budgeted MatchesAny 1 twoRegions
      [⟨0x1800, 8⟩, ⟨0, 8⟩, ⟨0x1900, 4⟩, ⟨0x3000, 8⟩, ⟨0, 0⟩] :=
  checks_budgeted _ _ _ (by decide)

/-- A call for the address 0 is answered by a region that does not hold it, and uses up a trace of
one whose flags do not meet its mask; a region that has no trace left has all of them again. -/
theorem not_checks_budgeted :
    ¬Budgeted Matches 0 [⟨0x1000, 0x2000, 5, 8⟩] [⟨0, 8⟩] ∧
      ¬Budgeted Matches 0 [⟨0, 0x2000, 5, 8⟩] [⟨0, 4⟩] ∧
      ¬Budgeted Matches 0 [⟨0, 0x2000, 1, 8⟩] [⟨0x1000, 8⟩, ⟨0, 8⟩] := by
  refine ⟨fun hclaim => ?_, fun hclaim => ?_, fun hclaim => ?_⟩
  · have hanswers := (hclaim.steps.1 _ _ rfl rfl).answers (by decide)
    exact absurd hanswers.1 (by decide)
  · have hunchanged := (hclaim.steps.1 _ _ rfl rfl).unchanged fun hanswers =>
      absurd hanswers.2 (by decide)
    exact absurd hunchanged (by decide)
  · have hbudget := hclaim.budget _ rfl
    exact absurd hbudget (by decide)

end Prazor.Tenos
