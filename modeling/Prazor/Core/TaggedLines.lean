import Prazor.Core.Layers

/-!
# Lines kept by tag

A set-associative cache keeps a line in one of several ways, at the index that
the line's address picks, and finds it by its tag.  Each place is a holder of
the line's bytes above the memory below the cache, beside any other holders the
cache has, such as a write buffer.
-/

namespace Prazor

/-- How a cache takes an address apart. -/
structure Shape (Address Line : Type*) where
  ways : ℕ
  lineOf : Address → Line
  offset : Address → ℕ
  index : Line → ℕ

/-- What is in each place, given by way and index. -/
@[ext]
structure TaggedLines (Line Value : Type*) where
  tag : ℕ → ℕ → Option Line
  dirty : ℕ → ℕ → Prop
  value : ℕ → ℕ → ℕ → Value

namespace TaggedLines

variable {Address Line Value Other : Type*}
variable {shape : Shape Address Line} {lines : TaggedLines Line Value}

/-- One place gets another line, or none. -/
def setLine (lines : TaggedLines Line Value) (w index : ℕ) (tag : Option Line)
    (dirty : Prop) (value : ℕ → Value) : TaggedLines Line Value where
  tag w' index' := if w' = w ∧ index' = index then tag else lines.tag w' index'
  dirty w' index' := if w' = w ∧ index' = index then dirty else lines.dirty w' index'
  value w' index' := if w' = w ∧ index' = index then value else lines.value w' index'

@[simp]
theorem tag_setLine_self (w index : ℕ) (tag : Option Line) (dirty : Prop)
    (value : ℕ → Value) : (lines.setLine w index tag dirty value).tag w index = tag :=
  if_pos ⟨rfl, rfl⟩

theorem tag_setLine_of_ne {w index w' index' : ℕ} (hne : ¬(w' = w ∧ index' = index))
    (tag : Option Line) (dirty : Prop) (value : ℕ → Value) :
    (lines.setLine w index tag dirty value).tag w' index' = lines.tag w' index' :=
  if_neg hne

@[simp]
theorem dirty_setLine_self (w index : ℕ) (tag : Option Line) (dirty : Prop)
    (value : ℕ → Value) :
    (lines.setLine w index tag dirty value).dirty w index = dirty :=
  if_pos ⟨rfl, rfl⟩

theorem dirty_setLine_of_ne {w index w' index' : ℕ} (hne : ¬(w' = w ∧ index' = index))
    (tag : Option Line) (dirty : Prop) (value : ℕ → Value) :
    (lines.setLine w index tag dirty value).dirty w' index' = lines.dirty w' index' :=
  if_neg hne

@[simp]
theorem value_setLine_self (w index : ℕ) (tag : Option Line) (dirty : Prop)
    (value : ℕ → Value) :
    (lines.setLine w index tag dirty value).value w index = value :=
  if_pos ⟨rfl, rfl⟩

theorem setLine_setLine (w index : ℕ) (tag tag' : Option Line) (dirty dirty' : Prop)
    (value value' : ℕ → Value) :
    (lines.setLine w index tag dirty value).setLine w index tag' dirty' value' =
      lines.setLine w index tag' dirty' value' := by
  apply TaggedLines.ext <;> funext w' index' <;>
    by_cases hplace : w' = w ∧ index' = index <;> simp [setLine, hplace]

/-- What differs from other lines in one place only is those lines with that
place set. -/
theorem eq_setLine {lines' : TaggedLines Line Value} {w index : ℕ}
    (hother : ∀ w' index', ¬(w' = w ∧ index' = index) →
      lines'.tag w' index' = lines.tag w' index' ∧
        lines'.dirty w' index' = lines.dirty w' index' ∧
        lines'.value w' index' = lines.value w' index') :
    lines' = lines.setLine w index (lines'.tag w index) (lines'.dirty w index)
      (lines'.value w index) := by
  apply TaggedLines.ext <;> funext w' index'
  all_goals
    by_cases hplace : w' = w ∧ index' = index
    · rw [hplace.1, hplace.2]
      exact (if_pos ⟨rfl, rfl⟩).symm
    · simp only [setLine, if_neg hplace, hother w' index' hplace]

/-! ## The lines of ways -/

section Ways

variable {State : Type*}

/-- A way: the state, the tag and the values of the line at each index. -/
structure Way (State Line Value : Type*) where
  state : ℕ → State
  tag : ℕ → Line
  value : ℕ → ℕ → Value

/-- Only the line at one index of a way differs. -/
structure Way.ChangedAt (index : ℕ) (way way' : Way State Line Value) : Prop where
  state : ∀ index', index' ≠ index → way'.state index' = way.state index'
  tag : ∀ index', index' ≠ index → way'.tag index' = way.tag index'
  value : ∀ index', index' ≠ index → way'.value index' = way.value index'

variable [DecidableEq State] {invalid : State} {dirty : State → Prop}
variable {ways : ℕ → Way State Line Value} {way : Way State Line Value} {w index : ℕ}

/-- The lines of ways; a line in the state `invalid` is not there. -/
def ofWays (invalid : State) (dirty : State → Prop) (ways : ℕ → Way State Line Value) :
    TaggedLines Line Value where
  tag w index := if (ways w).state index = invalid then none else some ((ways w).tag index)
  dirty w index := dirty ((ways w).state index)
  value w index := (ways w).value index

theorem tag_ofWays {line : Line} :
    (ofWays invalid dirty ways).tag w index = some line ↔
      (ways w).state index ≠ invalid ∧ (ways w).tag index = line := by
  unfold ofWays
  by_cases hstate : (ways w).state index = invalid <;> simp [hstate]

/-- The change of one line of a way is the change of one place. -/
theorem ofWays_update (hchanged : (ways w).ChangedAt index way) :
    ofWays invalid dirty (Function.update ways w way) =
      (ofWays invalid dirty ways).setLine w index
        (if way.state index = invalid then none else some (way.tag index))
        (dirty (way.state index)) (way.value index) := by
  have hset : ofWays invalid dirty (Function.update ways w way) =
      (ofWays invalid dirty ways).setLine w index
        ((ofWays invalid dirty (Function.update ways w way)).tag w index)
        ((ofWays invalid dirty (Function.update ways w way)).dirty w index)
        ((ofWays invalid dirty (Function.update ways w way)).value w index) := by
    refine eq_setLine fun w' index' hplace => ?_
    by_cases hw : w' = w
    · subst hw
      have hindex : index' ≠ index := fun h => hplace ⟨rfl, h⟩
      simp only [ofWays, Function.update_self, hchanged.state index' hindex,
        hchanged.tag index' hindex, hchanged.value index' hindex, and_self]
    · simp only [ofWays, Function.update_of_ne hw, and_self]
  simpa only [ofWays, Function.update_self] using hset

end Ways

/-! ## Keeping lines in their places -/

/-- A line is at its index, and in one way at most. -/
structure Placed (shape : Shape Address Line) (lines : TaggedLines Line Value) :
    Prop where
  index : ∀ w index line, w < shape.ways → lines.tag w index = some line →
    shape.index line = index
  unique : ∀ w w' index line, w < shape.ways → w' < shape.ways →
    lines.tag w index = some line → lines.tag w' index = some line → w = w'

/-- No way has the line. -/
def Absent (shape : Shape Address Line) (lines : TaggedLines Line Value)
    (line : Line) : Prop :=
  ∀ w, w < shape.ways → lines.tag w (shape.index line) ≠ some line

theorem Placed.drop (hplaced : lines.Placed shape) (w index : ℕ) (dirty : Prop)
    (value : ℕ → Value) : (lines.setLine w index none dirty value).Placed shape where
  index w' index' line hw' htag := by
    by_cases hplace : w' = w ∧ index' = index
    · rw [hplace.1, hplace.2, tag_setLine_self] at htag
      cases htag
    · rw [tag_setLine_of_ne hplace] at htag
      exact hplaced.index w' index' line hw' htag
  unique w₁ w₂ index' line hw₁ hw₂ htag₁ htag₂ := by
    by_cases h₁ : w₁ = w ∧ index' = index
    · rw [h₁.1, h₁.2, tag_setLine_self] at htag₁
      cases htag₁
    by_cases h₂ : w₂ = w ∧ index' = index
    · rw [h₂.1, h₂.2, tag_setLine_self] at htag₂
      cases htag₂
    rw [tag_setLine_of_ne h₁] at htag₁
    rw [tag_setLine_of_ne h₂] at htag₂
    exact hplaced.unique w₁ w₂ index' line hw₁ hw₂ htag₁ htag₂

/-- A line takes a place when no other way has it. -/
theorem Placed.bringIn (hplaced : lines.Placed shape) {w : ℕ} {line : Line}
    (habsent : ∀ w', w' < shape.ways → w' ≠ w →
      lines.tag w' (shape.index line) ≠ some line)
    (dirty : Prop) (value : ℕ → Value) :
    (lines.setLine w (shape.index line) (some line) dirty value).Placed shape where
  index w' index' line' hw' htag := by
    by_cases hplace : w' = w ∧ index' = shape.index line
    · rw [hplace.1, hplace.2, tag_setLine_self, Option.some.injEq] at htag
      rw [← htag, hplace.2]
    · rw [tag_setLine_of_ne hplace] at htag
      exact hplaced.index w' index' line' hw' htag
  unique w₁ w₂ index' line' hw₁ hw₂ htag₁ htag₂ := by
    by_cases h₁ : w₁ = w ∧ index' = shape.index line
    · by_contra hne
      rw [h₁.1, h₁.2, tag_setLine_self, Option.some.injEq] at htag₁
      have hw₂' : w₂ ≠ w := fun h => hne (h₁.1.trans h.symm)
      rw [tag_setLine_of_ne fun h => hw₂' h.1, ← htag₁, h₁.2] at htag₂
      exact habsent w₂ hw₂ hw₂' htag₂
    by_cases h₂ : w₂ = w ∧ index' = shape.index line
    · by_contra hne
      rw [h₂.1, h₂.2, tag_setLine_self, Option.some.injEq] at htag₂
      have hw₁' : w₁ ≠ w := fun h => hne (h.trans h₂.1.symm)
      rw [tag_setLine_of_ne fun h => hw₁' h.1, ← htag₂, h₂.2] at htag₁
      exact habsent w₁ hw₁ hw₁' htag₁
    rw [tag_setLine_of_ne h₁] at htag₁
    rw [tag_setLine_of_ne h₂] at htag₂
    exact hplaced.unique w₁ w₂ index' line' hw₁ hw₂ htag₁ htag₂

/-! ## Lines as holders -/

variable [DecidableEq Line]

/-- The value that a place has for an address. -/
def held (shape : Shape Address Line) (lines : TaggedLines Line Value)
    (place : ℕ × ℕ) (a : Address) : Option Value :=
  if place.1 < shape.ways ∧ shape.index (shape.lineOf a) = place.2 ∧
      lines.tag place.1 place.2 = some (shape.lineOf a) then
    some (lines.value place.1 place.2 (shape.offset a))
  else none

theorem held_setLine_of_ne {w index : ℕ} {place : ℕ × ℕ} (hne : place ≠ (w, index))
    (tag : Option Line) (dirty : Prop) (value : ℕ → Value) :
    (lines.setLine w index tag dirty value).held shape place = lines.held shape place := by
  have hne' : ¬(place.1 = w ∧ place.2 = index) := fun h => hne (Prod.ext h.1 h.2)
  funext a
  rw [held, held, tag_setLine_of_ne hne']
  simp only [setLine, if_neg hne']

theorem held_of_absent {a : Address} (habsent : lines.Absent shape (shape.lineOf a))
    (place : ℕ × ℕ) : lines.held shape place a = none := by
  rw [held, if_neg]
  rintro ⟨hw, hindex, htag⟩
  exact habsent place.1 hw (hindex ▸ htag)

/-- A line in a way is held nowhere else. -/
theorem held_of_elsewhere (hplaced : lines.Placed shape) {w : ℕ} {a : Address}
    (hw : w < shape.ways)
    (htag : lines.tag w (shape.index (shape.lineOf a)) = some (shape.lineOf a))
    {place : ℕ × ℕ} (hne : place ≠ (w, shape.index (shape.lineOf a))) :
    lines.held shape place a = none := by
  rw [held, if_neg]
  rintro ⟨hw', hindex, htag'⟩
  rw [← hindex] at htag'
  exact hne (Prod.ext (hplaced.unique _ _ _ _ hw' hw htag' htag) hindex.symm)

theorem held_of_tag {w : ℕ} {a : Address} (hw : w < shape.ways)
    (htag : lines.tag w (shape.index (shape.lineOf a)) = some (shape.lineOf a)) :
    lines.held shape (w, shape.index (shape.lineOf a)) a =
      some (lines.value w (shape.index (shape.lineOf a)) (shape.offset a)) :=
  if_pos ⟨hw, rfl, htag⟩

/-- The places and the other holders above a memory. -/
def layers (shape : Shape Address Line) (lines : TaggedLines Line Value)
    (others : Other → Address → Option Value) (memory : Address → Value) :
    Layers ((ℕ × ℕ) ⊕ Other) Address Value where
  held := Sum.elim (lines.held shape) others
  dirty := Sum.elim (fun place => lines.dirty place.1 place.2) fun _ => True
  memory := memory

variable {others : Other → Address → Option Value}
variable {memory flat : Address → Value} {w index : ℕ}

/-- An address that nothing holds is up to date in the memory. -/
theorem memory_of_absent (hagrees : (lines.layers shape others memory).Agrees flat)
    {a : Address} (habsent : lines.Absent shape (shape.lineOf a))
    (hothers : ∀ other, others other a = none) : memory a = flat a := by
  refine hagrees.memory a fun holder _ => ?_
  cases holder with
  | inl place => exact held_of_absent habsent place
  | inr other => exact hothers other

variable [DecidableEq Other]

theorem layers_setLine (w index : ℕ) (tag : Option Line) (dirty : Prop)
    (value : ℕ → Value) :
    (lines.setLine w index tag dirty value).layers shape others memory =
      (lines.layers shape others memory).put (.inl (w, index))
        ((lines.setLine w index tag dirty value).held shape (w, index)) dirty := by
  apply Layers.ext
  · funext holder
    by_cases hholder : holder = .inl (w, index)
    · rw [hholder, Layers.held_put_self]
      rfl
    · rw [Layers.held_put_of_ne hholder]
      cases holder with
      | inl place =>
          have hplace : place ≠ (w, index) := fun h => hholder (congrArg Sum.inl h)
          exact held_setLine_of_ne hplace tag dirty value
      | inr other => rfl
  · funext holder
    by_cases hholder : holder = .inl (w, index)
    · rw [hholder, Layers.dirty_put_self]
      exact dirty_setLine_self w index tag dirty value
    · rw [Layers.dirty_put_of_ne hholder]
      cases holder with
      | inl place =>
          have hplace : ¬(place.1 = w ∧ place.2 = index) := fun h =>
            hholder (congrArg Sum.inl (Prod.ext h.1 h.2))
          exact dirty_setLine_of_ne hplace tag dirty value
      | inr other => rfl
  · rfl

/-- A line whose data the memory has is dropped. -/
theorem agrees_drop (hagrees : (lines.layers shape others memory).Agrees flat)
    (hwritten : lines.dirty w index → ∀ a value,
      lines.held shape (w, index) a = some value → memory a = value)
    (dirty : Prop) (value : ℕ → Value) :
    ((lines.setLine w index none dirty value).layers shape others memory).Agrees flat := by
  rw [layers_setLine]
  refine hagrees.put ?_ ?_ dirty
  · exact hwritten
  · intro a value hheld
    rw [held, tag_setLine_self, if_neg (fun h => by cases h.2.2)] at hheld
    cases hheld

/-- A line with the values of the flat memory takes the place of one whose data
the memory has. -/
theorem agrees_bringIn (hagrees : (lines.layers shape others memory).Agrees flat)
    (hwritten : lines.dirty w index → ∀ a value,
      lines.held shape (w, index) a = some value → memory a = value)
    {line : Line} {value : ℕ → Value}
    (hvalue : ∀ a, shape.lineOf a = line → value (shape.offset a) = flat a)
    (dirty : Prop) :
    ((lines.setLine w index (some line) dirty value).layers shape others memory).Agrees
      flat := by
  rw [layers_setLine]
  refine hagrees.put ?_ ?_ dirty
  · exact hwritten
  · intro a byte hheld
    rw [held, tag_setLine_self] at hheld
    split at hheld
    case isTrue h =>
      rw [Option.some.injEq] at hheld
      rw [← hvalue a (Option.some.inj h.2.2).symm, ← hheld, value_setLine_self]
    case isFalse => cases hheld

/-- Values are stored in a line that is in one place only. -/
theorem agrees_store (hagrees : (lines.layers shape others memory).Agrees flat)
    (hplaced : lines.Placed shape) {line : Line} (hw : w < shape.ways)
    (htag : lines.tag w (shape.index line) = some line)
    {patch : Address → Option Value} (hpatch : ∀ a, (patch a).isSome →
      shape.lineOf a = line ∧ ∀ other, others other a = none)
    {value : ℕ → Value} (hvalue : ∀ a, shape.lineOf a = line →
      value (shape.offset a) =
        (patch a).getD (lines.value w (shape.index line) (shape.offset a))) :
    ((lines.setLine w (shape.index line) (some line) True value).layers shape others
      memory).Agrees (overlay patch flat) := by
  have hheld : (lines.setLine w (shape.index line) (some line) True value).held shape
      (w, shape.index line) =
      fun a => (patch a).or (lines.held shape (w, shape.index line) a) := by
    funext a
    by_cases hline : shape.lineOf a = line
    · subst hline
      rw [held_of_tag hw (tag_setLine_self _ _ _ _ _), held_of_tag hw htag]
      have hvalue' := hvalue a rfl
      cases hsome : patch a <;> simp_all [setLine]
    · have hnone : patch a = none := by
        by_contra hsome
        exact hline (hpatch a (Option.isSome_iff_ne_none.mpr hsome)).1
      rw [hnone, Option.none_or, held, held, tag_setLine_self, htag,
        if_neg (fun h => hline (Option.some.inj h.2.2).symm),
        if_neg (fun h => hline (Option.some.inj h.2.2).symm)]
  rw [layers_setLine, hheld]
  refine hagrees.store fun holder a hholder hsome => ?_
  obtain ⟨rfl, hothers⟩ := hpatch a hsome
  cases holder with
  | inl place => exact held_of_elsewhere hplaced hw htag fun h => hholder (congrArg _ h)
  | inr other => exact hothers other

end TaggedLines

end Prazor
