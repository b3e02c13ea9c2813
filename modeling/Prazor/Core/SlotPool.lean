import Prazor.Core.ArraySizes

/-!
# Slots handed out on demand

A pool hands a numbered slot to each key that asks for one.  A slot given back
is kept on a stack and reused before a new number is taken, so a number below
the next one is always either free or in use, and the numbers never exceed the
number of keys there are.
-/

namespace Prazor

variable {Key : Type*}

/-- The slot of each key, the stack of slots given back with its top first, and
the first number not taken yet. -/
structure SlotPool (Key : Type*) where
  slotOf : Key → Option ℕ
  free : List ℕ
  next : ℕ

namespace SlotPool

def empty : SlotPool Key :=
  { slotOf := fun _ => none, free := [], next := 0 }

variable [DecidableEq Key]

/-- The slot of a key, which gets one now if it has none. -/
def assign (pool : SlotPool Key) (key : Key) : SlotPool Key × ℕ :=
  match pool.slotOf key with
  | some slot => (pool, slot)
  | none =>
      match pool.free with
      | slot :: rest =>
          ({ slotOf := Function.update pool.slotOf key (some slot)
             free := rest
             next := pool.next }, slot)
      | [] =>
          ({ slotOf := Function.update pool.slotOf key (some pool.next)
             free := []
             next := pool.next + 1 }, pool.next)

/-- A key gives its slot back. -/
def release (pool : SlotPool Key) (key : Key) (slot : ℕ) : SlotPool Key :=
  { slotOf := Function.update pool.slotOf key none
    free := slot :: pool.free
    next := pool.next }

/-- No slot is used twice, none is free and used, and none is forgotten. -/
structure Inv (pool : SlotPool Key) : Prop where
  injective : ∀ key key' slot, pool.slotOf key = some slot →
    pool.slotOf key' = some slot → key = key'
  unused : ∀ key slot, pool.slotOf key = some slot → slot ∉ pool.free
  nodup : pool.free.Nodup
  below : ∀ key slot, pool.slotOf key = some slot → slot < pool.next
  freeBelow : ∀ slot, slot ∈ pool.free → slot < pool.next
  kept : ∀ slot, slot < pool.next →
    slot ∈ pool.free ∨ ∃ key, pool.slotOf key = some slot

omit [DecidableEq Key] in
theorem empty_inv : Inv (empty : SlotPool Key) where
  injective _ _ _ hslot := by simp [empty] at hslot
  unused _ _ hslot := by simp [empty] at hslot
  nodup := List.nodup_nil
  below _ _ hslot := by simp [empty] at hslot
  freeBelow _ hslot := by simp [empty] at hslot
  kept _ hslot := by simp [empty] at hslot

/-- Giving a slot that no key has, and that is no longer free, to a key that has
none. -/
theorem Inv.give {pool : SlotPool Key} (hinv : Inv pool) {key : Key} {slot : ℕ}
    {rest : List ℕ} {next : ℕ} (hkey : pool.slotOf key = none)
    (hfresh : ∀ other, pool.slotOf other ≠ some slot)
    (hslot : slot ∉ rest) (hrest : rest.Nodup)
    (hsub : ∀ other, other ∈ rest → other ∈ pool.free)
    (hnext : pool.next ≤ next) (hbelow : slot < next)
    (hkept : ∀ other, other < next → other ≠ slot →
      other ∈ rest ∨ ∃ key, pool.slotOf key = some other) :
    Inv { slotOf := Function.update pool.slotOf key (some slot)
          free := rest
          next := next } where
  injective left right other hleft hright := by
    by_cases hl : left = key <;> by_cases hr : right = key
    · rw [hl, hr]
    · subst hl
      simp only [Function.update_self, Option.some.injEq] at hleft
      simp only [Function.update_of_ne hr] at hright
      exact absurd (hleft ▸ hright) (hfresh right)
    · subst hr
      simp only [Function.update_self, Option.some.injEq] at hright
      simp only [Function.update_of_ne hl] at hleft
      exact absurd (hright ▸ hleft) (hfresh left)
    · simp only [Function.update_of_ne hl] at hleft
      simp only [Function.update_of_ne hr] at hright
      exact hinv.injective left right other hleft hright
  unused other used hused := by
    by_cases ho : other = key
    · subst ho
      simp only [Function.update_self, Option.some.injEq] at hused
      exact hused ▸ hslot
    · simp only [Function.update_of_ne ho] at hused
      exact fun hmem => hinv.unused other used hused (hsub used hmem)
  nodup := hrest
  below other used hused := by
    by_cases ho : other = key
    · subst ho
      simp only [Function.update_self, Option.some.injEq] at hused
      exact hused ▸ hbelow
    · simp only [Function.update_of_ne ho] at hused
      exact (hinv.below other used hused).trans_le hnext
  freeBelow used hused := (hinv.freeBelow used (hsub used hused)).trans_le hnext
  kept used hused := by
    by_cases hsame : used = slot
    · exact Or.inr ⟨key, by simp [hsame]⟩
    · rcases hkept used hused hsame with hmem | ⟨other, hother⟩
      · exact Or.inl hmem
      · have hne : other ≠ key := by
          rintro rfl
          simp [hkey] at hother
        exact Or.inr ⟨other, by simp [hne, hother]⟩

theorem Inv.assign {pool : SlotPool Key} (hinv : Inv pool) (key : Key) :
    Inv (pool.assign key).1 := by
  rw [SlotPool.assign]
  split
  case h_1 => exact hinv
  case h_2 hkey =>
    split
    case h_1 slot rest hfree =>
      have hnodup := hinv.nodup
      rw [hfree, List.nodup_cons] at hnodup
      refine hinv.give hkey ?_ hnodup.1 hnodup.2 ?_ le_rfl ?_ ?_
      · intro other hother
        exact hinv.unused other slot hother (by simp [hfree])
      · intro other hother
        simp [hfree, hother]
      · exact hinv.freeBelow slot (by simp [hfree])
      · intro other hother hne
        simpa [hfree, hne] using hinv.kept other hother
    case h_2 hfree =>
      refine hinv.give hkey ?_ (by simp) List.nodup_nil (by simp)
        (Nat.le_succ pool.next) (Nat.lt_succ_self pool.next) ?_
      · intro other hother
        exact (hinv.below other pool.next hother).false
      · intro other hother hne
        have hlt : other < pool.next := by omega
        simpa [hfree] using hinv.kept other hlt

theorem Inv.release {pool : SlotPool Key} (hinv : Inv pool) {key : Key}
    {slot : ℕ} (hslot : pool.slotOf key = some slot) :
    Inv (pool.release key slot) where
  injective left right other hleft hright := by
    have hl : left ≠ key := by
      rintro rfl
      simp [SlotPool.release] at hleft
    have hr : right ≠ key := by
      rintro rfl
      simp [SlotPool.release] at hright
    simp only [SlotPool.release, Function.update_of_ne hl] at hleft
    simp only [SlotPool.release, Function.update_of_ne hr] at hright
    exact hinv.injective left right other hleft hright
  unused other used hused := by
    have ho : other ≠ key := by
      rintro rfl
      simp [SlotPool.release] at hused
    simp only [SlotPool.release, Function.update_of_ne ho] at hused
    simp only [SlotPool.release, List.mem_cons, not_or]
    refine ⟨?_, hinv.unused other used hused⟩
    rintro rfl
    exact ho (hinv.injective other key used hused hslot)
  nodup := List.nodup_cons.mpr ⟨hinv.unused key slot hslot, hinv.nodup⟩
  below other used hused := by
    have ho : other ≠ key := by
      rintro rfl
      simp [SlotPool.release] at hused
    simp only [SlotPool.release, Function.update_of_ne ho] at hused
    exact hinv.below other used hused
  freeBelow used hused := by
    rcases List.mem_cons.mp hused with rfl | hmem
    · exact hinv.below key used hslot
    · exact hinv.freeBelow used hmem
  kept used hused := by
    by_cases hsame : used = slot
    · exact Or.inl (by simp [SlotPool.release, hsame])
    · rcases hinv.kept used hused with hmem | ⟨other, hother⟩
      · exact Or.inl (List.mem_cons_of_mem slot hmem)
      · have hne : other ≠ key := by
          rintro rfl
          rw [hslot, Option.some.injEq] at hother
          exact hsame hother.symm
        exact Or.inr ⟨other, by simp [SlotPool.release, hne, hother]⟩

theorem assign_slot (pool : SlotPool Key) (key : Key) :
    (pool.assign key).1.slotOf key = some (pool.assign key).2 := by
  rw [assign]
  split
  case h_1 hkey => exact hkey
  case h_2 => split <;> simp

theorem assign_other (pool : SlotPool Key) {key other : Key} (hne : other ≠ key) :
    (pool.assign key).1.slotOf other = pool.slotOf other := by
  rw [assign]
  split
  case h_1 => rfl
  case h_2 => split <;> simp [hne]

/-- The numbers taken do not exceed the keys there are. -/
theorem Inv.assign_next_le {pool : SlotPool Key} (hinv : Inv pool)
    {keys : Finset Key} (hkeys : ∀ key, pool.slotOf key ≠ none → key ∈ keys)
    (hle : pool.next ≤ keys.card) {key : Key} (hkey : key ∈ keys) :
    (pool.assign key).1.next ≤ keys.card := by
  rw [SlotPool.assign]
  split
  case h_1 => exact hle
  case h_2 hnone =>
    split
    case h_1 => exact hle
    case h_2 hfree =>
      -- all numbers are in use by other keys
      have hsub : Finset.range pool.next ⊆
          (keys.erase key).image fun key => (pool.slotOf key).getD 0 := by
        intro slot hslot
        have hused := hinv.kept slot (Finset.mem_range.mp hslot)
        simp only [hfree, List.not_mem_nil, false_or] at hused
        obtain ⟨other, hother⟩ := hused
        refine Finset.mem_image.mpr ⟨other, ?_, by simp [hother]⟩
        refine Finset.mem_erase.mpr ⟨?_, hkeys other (by simp [hother])⟩
        rintro rfl
        simp [hnone] at hother
      have hcard : pool.next ≤ (keys.erase key).card := by
        calc
          pool.next = (Finset.range pool.next).card := (Finset.card_range _).symm
          _ ≤ ((keys.erase key).image fun key =>
                (pool.slotOf key).getD 0).card := Finset.card_le_card hsub
          _ ≤ (keys.erase key).card := Finset.card_image_le
      have hpos : 0 < keys.card := Finset.card_pos.mpr ⟨key, hkey⟩
      rw [Finset.card_erase_of_mem hkey] at hcard
      show pool.next + 1 ≤ keys.card
      omega

end SlotPool

end Prazor
