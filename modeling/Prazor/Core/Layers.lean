import Prazor.Core.ArraySizes

/-!
# Copies above a memory

Caches and write buffers hold values for some of the addresses of a memory.
What a user of the whole sees is one flat memory: a held value is the value
there, and where no holder with unwritten data holds an address the memory
below has the value.  The operations of a cache keep this agreement.
-/

namespace Prazor

/-- The memory with the values of a partial map put over it. -/
def overlay {Address Value : Type*} (patch : Address → Option Value)
    (memory : Address → Value) : Address → Value :=
  fun a => (patch a).getD (memory a)

/-- What each holder holds, which holders have data that the memory below may
lack, and that memory. -/
@[ext]
structure Layers (Holder Address Value : Type*) where
  held : Holder → Address → Option Value
  dirty : Holder → Prop
  memory : Address → Value

namespace Layers

variable {Holder Address Value : Type*}
variable {flat : Address → Value} {layers : Layers Holder Address Value}

/-- The holders and the memory below them show the flat memory. -/
structure Agrees (flat : Address → Value) (layers : Layers Holder Address Value) :
    Prop where
  held : ∀ holder a value, layers.held holder a = some value → value = flat a
  memory : ∀ a, (∀ holder, layers.dirty holder → layers.held holder a = none) →
    layers.memory a = flat a

/-- A holder's data goes to the memory below. -/
def writeBack (holder : Holder) (layers : Layers Holder Address Value) :
    Layers Holder Address Value :=
  { layers with memory := overlay (layers.held holder) layers.memory }

/-- Values are stored in the memory below. -/
def storeBelow (patch : Address → Option Value)
    (layers : Layers Holder Address Value) : Layers Holder Address Value :=
  { layers with memory := overlay patch layers.memory }

theorem overlay_of_none {patch : Address → Option Value} {a : Address}
    (hnone : patch a = none) (memory : Address → Value) :
    overlay patch memory a = memory a := by
  rw [overlay, hnone, Option.getD_none]

theorem overlay_of_some {patch : Address → Option Value} {a : Address} {value : Value}
    (hsome : patch a = some value) (memory : Address → Value) :
    overlay patch memory a = value := by
  rw [overlay, hsome, Option.getD_some]

/-- Without holders with unwritten data the memory below is the flat memory. -/
theorem Agrees.memory_eq (hagrees : Agrees flat layers)
    (hclean : ∀ holder a, layers.dirty holder → layers.held holder a = none) :
    layers.memory = flat :=
  funext fun a => hagrees.memory a fun holder hdirty => hclean holder a hdirty

theorem Agrees.of_held_none (hnone : ∀ holder a, layers.held holder a = none) :
    Agrees layers.memory layers where
  held holder a value hheld := by
    rw [hnone] at hheld
    cases hheld
  memory _ _ := rfl

theorem Agrees.writeBack (hagrees : Agrees flat layers) (holder : Holder) :
    Agrees flat (layers.writeBack holder) where
  held := hagrees.held
  memory a hclean := by
    cases hheld : layers.held holder a with
    | none =>
        exact (overlay_of_none hheld layers.memory).trans (hagrees.memory a hclean)
    | some value =>
        exact (overlay_of_some hheld layers.memory).trans
          (hagrees.held holder a value hheld)

/-- Values that no holder holds are stored in the memory below. -/
theorem Agrees.storeBelow (hagrees : Agrees flat layers)
    {patch : Address → Option Value}
    (hfree : ∀ holder a, (patch a).isSome → layers.held holder a = none) :
    Agrees (overlay patch flat) (layers.storeBelow patch) where
  held holder a value hheld := by
    have hnone : patch a = none := by
      by_contra hsome
      have hfree := hfree holder a (Option.isSome_iff_ne_none.mpr hsome)
      exact absurd (hfree.symm.trans hheld) (by simp)
    rw [overlay_of_none hnone]
    exact hagrees.held holder a value hheld
  memory a hclean := by
    cases hpatch : patch a with
    | none =>
        rw [overlay_of_none hpatch]
        exact (overlay_of_none hpatch layers.memory).trans (hagrees.memory a hclean)
    | some value =>
        rw [overlay_of_some hpatch]
        exact overlay_of_some hpatch layers.memory

section Put

variable [DecidableEq Holder]

/-- A holder gets new contents. -/
def put (holder : Holder) (contents : Address → Option Value) (dirty : Prop)
    (layers : Layers Holder Address Value) : Layers Holder Address Value :=
  { layers with
    held := Function.update layers.held holder contents
    dirty := Function.update layers.dirty holder dirty }

@[simp]
theorem held_put_self (holder : Holder) (contents : Address → Option Value)
    (dirty : Prop) (layers : Layers Holder Address Value) :
    (layers.put holder contents dirty).held holder = contents := by
  simp [put]

theorem held_put_of_ne {holder other : Holder} (hother : other ≠ holder)
    (contents : Address → Option Value) (dirty : Prop)
    (layers : Layers Holder Address Value) :
    (layers.put holder contents dirty).held other = layers.held other := by
  simp [put, hother]

@[simp]
theorem dirty_put_self (holder : Holder) (contents : Address → Option Value)
    (dirty : Prop) (layers : Layers Holder Address Value) :
    (layers.put holder contents dirty).dirty holder = dirty := by
  simp [put]

theorem dirty_put_of_ne {holder other : Holder} (hother : other ≠ holder)
    (contents : Address → Option Value) (dirty : Prop)
    (layers : Layers Holder Address Value) :
    (layers.put holder contents dirty).dirty other = layers.dirty other := by
  simp [put, hother]

/-- A holder whose data the memory has takes other values of the flat memory:
a line is replaced or dropped. -/
theorem Agrees.put (hagrees : Agrees flat layers) {holder : Holder}
    (hwritten : layers.dirty holder → ∀ a value,
      layers.held holder a = some value → layers.memory a = value)
    {contents : Address → Option Value}
    (hcontents : ∀ a value, contents a = some value → value = flat a)
    (dirty : Prop) : Agrees flat (layers.put holder contents dirty) where
  held other a value hheld := by
    by_cases hother : other = holder
    · subst hother
      rw [held_put_self] at hheld
      exact hcontents a value hheld
    · rw [held_put_of_ne hother] at hheld
      exact hagrees.held other a value hheld
  memory a hclean := by
    by_cases hlost : layers.dirty holder ∧ (layers.held holder a).isSome
    · obtain ⟨hdirty, hsome⟩ := hlost
      obtain ⟨value, hheld⟩ := Option.isSome_iff_exists.mp hsome
      rw [show (layers.put holder contents dirty).memory a = layers.memory a from rfl,
        hwritten hdirty a value hheld]
      exact hagrees.held holder a value hheld
    · refine hagrees.memory a fun other hdirty => ?_
      by_cases hother : other = holder
      · subst hother
        simpa [hdirty] using hlost
      · have hother' := hclean other
        rw [held_put_of_ne hother, dirty_put_of_ne hother] at hother'
        exact hother' hdirty

/-- A holder takes values that no other holder holds. -/
theorem Agrees.store (hagrees : Agrees flat layers) {holder : Holder}
    {patch : Address → Option Value}
    (hfree : ∀ other a, other ≠ holder → (patch a).isSome →
      layers.held other a = none) :
    Agrees (overlay patch flat)
      (layers.put holder (fun a => (patch a).or (layers.held holder a)) True) where
  held other a value hheld := by
    by_cases hother : other = holder
    · subst hother
      rw [held_put_self] at hheld
      cases hpatch : patch a with
      | none =>
          rw [hpatch, Option.none_or] at hheld
          rw [overlay_of_none hpatch]
          exact hagrees.held other a value hheld
      | some stored =>
          rw [hpatch, Option.some_or, Option.some.injEq] at hheld
          rw [overlay_of_some hpatch, hheld]
    · rw [held_put_of_ne hother] at hheld
      have hnone : patch a = none := by
        by_contra hsome
        have hfree := hfree other a hother (Option.isSome_iff_ne_none.mpr hsome)
        exact absurd (hfree.symm.trans hheld) (by simp)
      rw [overlay_of_none hnone]
      exact hagrees.held other a value hheld
  memory a hclean := by
    have hholder := hclean holder
    rw [held_put_self, dirty_put_self, true_imp_iff, Option.or_eq_none_iff] at hholder
    rw [overlay_of_none hholder.1]
    refine hagrees.memory a fun other hdirty => ?_
    by_cases hother : other = holder
    · rw [hother]
      exact hholder.2
    · have hother' := hclean other
      rw [held_put_of_ne hother, dirty_put_of_ne hother] at hother'
      exact hother' hdirty

end Put

end Layers

end Prazor
