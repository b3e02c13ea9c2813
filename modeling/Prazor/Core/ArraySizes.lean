import Mathlib

/-!
# Sizes of arrays of registers

The register arrays of the devices have fixed sizes, and an index is given by a
numeral.  That these sizes are not zero is stated once here, by name, so that the
definitions of all modules refer to the same facts.
-/

namespace Prazor

instance neZeroTwo : NeZero 2 := ⟨by decide⟩

instance neZeroThree : NeZero 3 := ⟨by decide⟩

instance neZeroFour : NeZero 4 := ⟨by decide⟩

instance neZeroEight : NeZero 8 := ⟨by decide⟩

instance neZeroSixteen : NeZero 16 := ⟨by decide⟩

instance neZeroThirtyTwo : NeZero 32 := ⟨by decide⟩

instance neZeroSixtyFour : NeZero 64 := ⟨by decide⟩

instance neZeroTwoHundredFiftySix : NeZero 256 := ⟨by decide⟩

end Prazor
