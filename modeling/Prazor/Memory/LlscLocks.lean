import Prazor.Core.Payload

/-!
# Load-locked and store-conditional locks

A target that supports load-linked accesses keeps two lock slots.  A slot holds
the address of a load-linked and the identity of its requester; `-1` in the
address marks a free slot.  The slots are kept by `loadlocked_fail` and
`storeconditional_fail` of the extension a transaction carries.
-/

namespace Prazor.Memory

/-- One lock slot. -/
structure LlscLock where
  a : Word64
  id : ℕ
  deriving DecidableEq

/-- The two slots of a target. -/
structure LlscLocks where
  llsc0 : LlscLock
  llsc1 : LlscLock
  deriving DecidableEq

namespace LlscLocks

/-- The address of a free slot, `(u64_t) -1`. -/
def free : Word64 := -1

/-- The slots as constructed. -/
def fresh : LlscLocks :=
  { llsc0 := { a := free, id := 0 }, llsc1 := { a := free, id := 0 } }

/-- `loadlocked_fail`.  The parameter is an `unsigned int`, and so is the `-1`
the third branch compares with. -/
def loadlockedFail (id : ℕ) (lks : LlscLocks) (adr : BitVec 32) :
    LlscLocks × Bool :=
  let adr := adr.setWidth 64
  if lks.llsc0.a = adr then
    ({ lks with llsc0 := { lks.llsc0 with id := id } }, false)
  else if lks.llsc1.a = adr then
    ({ lks with llsc1 := { lks.llsc1 with id := id } }, false)
  else if lks.llsc0.a = (-1 : BitVec 32).setWidth 64 then
    ({ lks with llsc0 := { a := adr, id := id } }, false)
  else
    ({ lks with llsc1 := { a := adr, id := id } }, false)

/-- `storeconditional_fail`: the slot that is found is freed. -/
def storeconditionalFail (id : ℕ) (lks : LlscLocks) (adr : Word64) :
    LlscLocks × Bool :=
  if lks.llsc0.a = adr ∧ lks.llsc0.id = id then
    ({ lks with llsc0 := { lks.llsc0 with a := free } }, false)
  else if lks.llsc1.a = adr ∧ lks.llsc1.id = id then
    ({ lks with llsc1 := { lks.llsc1 with a := free } }, false)
  else
    (lks, true)

/-! The comparison with the 32-bit `-1` never finds the 64-bit one, so the
first slot is never taken and the second one always holds the latest
load-linked. -/

theorem setWidth_ne_free (adr : BitVec 32) : adr.setWidth 64 ≠ free := by
  intro heq
  have hbit := congrArg (fun word => word.getLsbD 63) heq
  simp [free] at hbit

theorem loadlockedFail_of_free {lks : LlscLocks} (hfree : lks.llsc0.a = free)
    (id : ℕ) (adr : BitVec 32) :
    loadlockedFail id lks adr =
      ({ lks with llsc1 := { a := adr.setWidth 64, id := id } }, false) := by
  have hadr : lks.llsc0.a ≠ adr.setWidth 64 := by
    rw [hfree]
    exact (setWidth_ne_free adr).symm
  have hnarrow : lks.llsc0.a ≠ (-1 : BitVec 32).setWidth 64 := by
    rw [hfree]
    exact (setWidth_ne_free _).symm
  simp only [loadlockedFail, if_neg hadr, if_neg hnarrow]
  split
  case isTrue hsame => rw [← hsame]
  case isFalse => rfl

theorem storeconditionalFail_of_free {lks : LlscLocks}
    (hfree : lks.llsc0.a = free) (id : ℕ) {adr : Word64} (hadr : adr ≠ free) :
    storeconditionalFail id lks adr =
      if lks.llsc1.a = adr ∧ lks.llsc1.id = id then
        ({ lks with llsc1 := { lks.llsc1 with a := free } }, false)
      else (lks, true) := by
  have hslot : ¬(lks.llsc0.a = adr ∧ lks.llsc0.id = id) := by
    rw [hfree]
    exact fun h => hadr h.1.symm
  rw [storeconditionalFail, if_neg hslot]

end LlscLocks

end Prazor.Memory
