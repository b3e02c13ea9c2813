import Prazor.Arm.Cp15
import Prazor.Core.Guarded

/-!
# The instruction fetch buffer

`ins_fetcher_t` keeps the doubleword of the last fetch that went to the bus, under its
virtual address.  A fetch of the same doubleword is served from there.  The address is
kept even when the bus read has failed, and nothing empties the buffer.

The bus answers a read of a doubleword with its content or an error; between two fetches
stores, changes of the translation and faults may change its answers in any way.
-/

namespace Prazor.Arm.InstructionFetch

/-- What a read of a doubleword at a virtual address gives, `none` for an error. -/
abbrev Bus := Word → Option Word64

/-- `ins_fetcher_t` at its bus.  The code does not keep the last field: the doubleword that
was last read, and the answer of the bus. -/
structure Fetcher where
  bus : Bus
  cachedAdr : Word64
  cachedIns : Word64
  filled : Option (Word × Option Word64)

/-- After the constructor: `cached_adr` is no address of a doubleword. -/
def Fetcher.made (bus : Bus) (cachedIns : Word64) : Fetcher where
  bus := bus
  cachedAdr := 1
  cachedIns := cachedIns
  filled := none

/-- `adr & ~7` -/
def doubleword (adr : Word) : Word := adr &&& ~~~7

/-- The word of a doubleword that an address selects, in little-endian order. -/
def wordAt (adr : Word) (rdata : Word64) : Word :=
  (if adr &&& 4 ≠ 0 then rdata >>> 32 else rdata).setWidth 32

/-- `fetch`.  An error of the bus leaves `left` in `cached_ins`. -/
def fetch (fetcher : Fetcher) (adr : Word) (left : Word64) : Fetcher × Bool × Word :=
  let a1 := doubleword adr
  let (fetcher, ok) :=
    if a1.setWidth 64 ≠ fetcher.cachedAdr then
      let rdata := fetcher.bus a1
      ({ fetcher with
          cachedIns := rdata.getD left
          cachedAdr := a1.setWidth 64
          filled := some (a1, rdata) }, rdata.isSome)
    else (fetcher, true)
  (fetcher, ok, wordAt adr fetcher.cachedIns)

/-- `eval_insn` takes a half of the word for an instruction of 16 bits. -/
def instructionOf (adr : Word) (sizeCode : ℕ) (readData : Word) : Word :=
  if sizeCode = 1 then (if adr &&& 2 ≠ 0 then readData >>> 16 else readData) &&& 0xFFFF
  else readData

/-- `eval_insn` -/
def evalInsn (fetcher : Fetcher) (memaddr : Word) (sizeCode : ℕ) (left : Word64) :
    Fetcher × Bool × Word :=
  let (fetcher, ok, readData) := fetch fetcher memaddr left
  (fetcher, ok, instructionOf memaddr sizeCode readData)

/-- What a read of the bus at this moment gives. -/
def busRead (bus : Bus) (adr : Word) (sizeCode : ℕ) : Option Word :=
  (bus (doubleword adr)).map fun rdata => instructionOf adr sizeCode (wordAt adr rdata)

/-- The core fetches an instruction, or anything changes what the bus answers. -/
inductive Event where
  | fetch (adr : Word) (sizeCode : ℕ) (left : Word64)
  | change (bus : Bus)

/-- A fetch, with what a read of the bus would have given. -/
structure Fetched where
  ok : Bool
  instruction : Word
  direct : Option Word
  deriving DecidableEq

def step (fetcher : Fetcher) : Event → Fetcher × Option Fetched
  | .fetch adr sizeCode left =>
      let (next, ok, instruction) := evalInsn fetcher adr sizeCode left
      (next, some { ok, instruction, direct := busRead fetcher.bus adr sizeCode })
  | .change bus => ({ fetcher with bus := bus }, none)

/-- A fetch that is ok gives what the bus gives. -/
def Fetched.Transparent (fetched : Fetched) : Prop :=
  fetched.ok = true → fetched.direct = some fetched.instruction

instance decidableTransparent (fetched : Fetched) : Decidable fetched.Transparent :=
  inferInstanceAs (Decidable (fetched.ok = true → fetched.direct = some fetched.instruction))

/-- A fetch of the doubleword that was last read finds that this read succeeded, and that
the bus still gives the same word. -/
def Unchanged (fetcher : Fetcher) : Event → Prop
  | .fetch adr _ _ =>
      ∀ answer, fetcher.filled = some (doubleword adr, answer) →
        answer ≠ none ∧
          (fetcher.bus (doubleword adr)).map (wordAt adr) = answer.map (wordAt adr)
  | .change _ => True

/-- The fetcher after an event. -/
def advance (fetcher : Fetcher) (event : Event) : Option Fetcher :=
  some (step fetcher event).1

/-! ## The buffer holds the last answer -/

/-- The buffer holds what the last read gave, under its address. -/
structure Holds (fetcher : Fetcher) : Prop where
  empty : fetcher.filled = none → fetcher.cachedAdr = 1
  address : ∀ a1 answer, fetcher.filled = some (a1, answer) →
    fetcher.cachedAdr = a1.setWidth 64
  content : ∀ a1 rdata, fetcher.filled = some (a1, some rdata) → fetcher.cachedIns = rdata

variable {fetcher : Fetcher} {adr : Word} {left : Word64}

theorem holds_made (bus : Bus) (cachedIns : Word64) : Holds (Fetcher.made bus cachedIns) := by
  constructor <;> simp [Fetcher.made]

/-- The address that the buffer starts with is that of no doubleword. -/
theorem doubleword_ne_one (adr : Word) : (doubleword adr).setWidth 64 ≠ 1 := by
  intro hone
  have hbit : ((doubleword adr).setWidth 64).getLsbD 0 = true := by
    rw [hone]
    decide
  simp [doubleword] at hbit

/-- A fetch is served from the buffer when its doubleword was the last to be read. -/
theorem Holds.hit (hholds : Holds fetcher)
    (hhit : (doubleword adr).setWidth 64 = fetcher.cachedAdr) :
    ∃ answer, fetcher.filled = some (doubleword adr, answer) := by
  cases hfilled : fetcher.filled with
  | none =>
      rw [hholds.empty hfilled] at hhit
      exact absurd hhit (doubleword_ne_one adr)
  | some filled =>
      obtain ⟨a1, answer⟩ := filled
      have hsame : (doubleword adr).setWidth 64 = a1.setWidth 64 :=
        hhit.trans (hholds.address a1 answer hfilled)
      have hdoubleword : doubleword adr = a1 := by
        have := congrArg (BitVec.setWidth 32) hsame
        simpa using this
      exact ⟨answer, by rw [hdoubleword]⟩

theorem fetch_of_hit (hhit : (doubleword adr).setWidth 64 = fetcher.cachedAdr) :
    fetch fetcher adr left = (fetcher, true, wordAt adr fetcher.cachedIns) := by
  rw [fetch, if_neg (not_not.mpr hhit)]

theorem fetch_of_miss (hmiss : (doubleword adr).setWidth 64 ≠ fetcher.cachedAdr) :
    fetch fetcher adr left =
      ({ fetcher with
          cachedIns := (fetcher.bus (doubleword adr)).getD left
          cachedAdr := (doubleword adr).setWidth 64
          filled := some (doubleword adr, fetcher.bus (doubleword adr)) },
        (fetcher.bus (doubleword adr)).isSome,
        wordAt adr ((fetcher.bus (doubleword adr)).getD left)) := by
  rw [fetch, if_pos hmiss]

theorem Holds.fetch (hholds : Holds fetcher) : Holds (fetch fetcher adr left).1 := by
  by_cases hhit : (doubleword adr).setWidth 64 = fetcher.cachedAdr
  · rw [fetch_of_hit hhit]
    exact hholds
  · rw [fetch_of_miss hhit]
    constructor
    · simp
    · intro a1 answer hfilled
      rw [Option.some.injEq, Prod.mk.injEq] at hfilled
      rw [← hfilled.1]
    · intro a1 rdata hfilled
      rw [Option.some.injEq, Prod.mk.injEq] at hfilled
      simp only [hfilled.2, Option.getD_some]

theorem Holds.step (hholds : Holds fetcher) (event : Event) :
    Holds (step fetcher event).1 := by
  cases event with
  | fetch adr sizeCode left => exact hholds.fetch
  | change bus => exact ⟨hholds.empty, hholds.address, hholds.content⟩

/-! ## Transparency -/

/-- A fetch that reads the bus gives what it gives. -/
theorem evalInsn_of_miss (hmiss : (doubleword adr).setWidth 64 ≠ fetcher.cachedAdr)
    (sizeCode : ℕ) (hok : (evalInsn fetcher adr sizeCode left).2.1 = true) :
    busRead fetcher.bus adr sizeCode = some (evalInsn fetcher adr sizeCode left).2.2 := by
  rw [evalInsn, fetch_of_miss hmiss] at hok ⊢
  obtain ⟨rdata, hrdata⟩ := Option.isSome_iff_exists.mp hok
  rw [busRead, hrdata]
  rfl

/-- A fetch that the buffer serves gives what the bus gives when that is unchanged. -/
theorem Holds.evalInsn_of_hit (hholds : Holds fetcher)
    (hhit : (doubleword adr).setWidth 64 = fetcher.cachedAdr) (sizeCode : ℕ)
    (hunchanged : Unchanged fetcher (.fetch adr sizeCode left)) :
    busRead fetcher.bus adr sizeCode = some (evalInsn fetcher adr sizeCode left).2.2 := by
  obtain ⟨answer, hfilled⟩ := hholds.hit hhit
  obtain ⟨hsome, hsame⟩ := hunchanged answer hfilled
  obtain ⟨rdata, rfl⟩ := Option.ne_none_iff_exists'.mp hsome
  have hcontent := hholds.content _ rdata hfilled
  obtain ⟨current, hcurrent, hword⟩ := Option.map_eq_some_iff.mp hsame
  rw [evalInsn, fetch_of_hit hhit, busRead, hcurrent, hcontent, Option.map_some, hword]

theorem Holds.transparent (hholds : Holds fetcher) {event : Event}
    (hunchanged : Unchanged fetcher event) {fetched : Fetched}
    (hfetched : (InstructionFetch.step fetcher event).2 = some fetched) :
    fetched.Transparent := by
  cases event with
  | change bus => cases hfetched
  | fetch adr sizeCode left =>
      cases hfetched
      intro hok
      by_cases hhit : (doubleword adr).setWidth 64 = fetcher.cachedAdr
      · exact hholds.evalInsn_of_hit hhit sizeCode hunchanged
      · exact evalInsn_of_miss hhit sizeCode hok

theorem Holds.transparent_run (hholds : Holds fetcher) {events : List Event}
    (hunchanged : Guarded.Meets advance Unchanged fetcher events) {fetched : Fetched}
    (hfetched : some fetched ∈ Machine.outputs InstructionFetch.step fetcher events) :
    fetched.Transparent := by
  induction events generalizing fetcher with
  | nil => cases hfetched
  | cons event rest ih =>
      rcases List.mem_cons.mp hfetched with hfirst | hrest
      · exact hholds.transparent hunchanged.1 hfirst.symm
      · exact ih (hholds.step event) (hunchanged.2 _ rfl) hrest

/-- Every fetch of a run is transparent when each finds that the doubleword of the buffer
was read without an error and that the bus still gives its word. -/
theorem fetch_transparent (bus : Bus) (cachedIns : Word64) {events : List Event}
    (hunchanged : Guarded.Meets advance Unchanged (Fetcher.made bus cachedIns) events)
    {fetched : Fetched}
    (hfetched : some fetched ∈ Machine.outputs step (Fetcher.made bus cachedIns) events) :
    fetched.Transparent :=
  (holds_made bus cachedIns).transparent_run hunchanged hfetched

/-- Two fetches of a doubleword, a store to another one, and a fetch of that one. -/
def quietEvents : List Event :=
  [.fetch 0x100 2 0, .fetch 0x104 1 0, .change fun _ => some 0x22222222, .fetch 0x10A 1 0]

theorem fetch_transparent_quiet :
    Fetched.Transparent { ok := true, instruction := 0x1111, direct := some 0x1111 } := by
  have hunchanged : Guarded.Meets advance Unchanged
      (Fetcher.made (fun _ => some 0x1111111111111111) 0) quietEvents := by
    refine ⟨?_, fun _ hnext => ?_⟩
    · simp [Unchanged, Fetcher.made]
    cases hnext
    refine ⟨?_, fun _ hnext => ?_⟩
    · rintro answer hfilled
      cases hfilled
      exact ⟨by decide, rfl⟩
    cases hnext
    refine ⟨trivial, fun _ hnext => ?_⟩
    cases hnext
    refine ⟨?_, fun _ _ => trivial⟩
    rintro answer hfilled
    simp [step, evalInsn, fetch, Fetcher.made, doubleword] at hfilled
  have hfetched : some { ok := true, instruction := 0x1111, direct := some 0x1111 } ∈
      Machine.outputs step (Fetcher.made (fun _ => some 0x1111111111111111) 0)
        quietEvents := by
    decide
  exact fetch_transparent (fun _ => some 0x1111111111111111) 0 hunchanged hfetched

/-- A fetch after a store to its doubleword gives the old word, and a second fetch after an
error of the bus gives what the first one left. -/
theorem not_fetch_transparent :
    (∃ fetched, some fetched ∈ Machine.outputs step (Fetcher.made (fun _ => some 1) 0)
        [.fetch 0x100 2 0, .change fun _ => some 2, .fetch 0x100 2 0] ∧
      ¬fetched.Transparent) ∧
    ∃ fetched, some fetched ∈ Machine.outputs step (Fetcher.made (fun _ => none) 0)
        [.fetch 0x100 2 3, .fetch 0x100 2 3] ∧
      ¬fetched.Transparent := by
  constructor
  · exact ⟨{ ok := true, instruction := 1, direct := some 2 }, by decide, by decide⟩
  · exact ⟨{ ok := true, instruction := 3, direct := none }, by decide, by decide⟩

end Prazor.Arm.InstructionFetch
