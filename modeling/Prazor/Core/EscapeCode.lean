import Prazor.Core.ArraySizes

/-!
# Escape codes

Characters that a transport keeps for itself are sent as a mark and a disguise of the
character.  The disguise is its own inverse and never a kept character, so an escaped text
holds no kept character but the mark.
-/

namespace Prazor

/-- What an escape code is made of. -/
structure EscapeCode (A : Type*) where
  kept : A → Bool
  mark : A
  disguise : A → A
  kept_mark : kept mark = true
  disguise_disguise : ∀ a, disguise (disguise a) = a
  kept_disguise : ∀ a, kept a = true → kept (disguise a) = false

namespace EscapeCode

variable {A : Type*} (code : EscapeCode A)

/-- What is sent for one character. -/
def escapeOne (a : A) : List A :=
  if code.kept a then [code.mark, code.disguise a] else [a]

/-- What is sent for a text. -/
def escape (text : List A) : List A := text.flatMap code.escapeOne

@[simp]
theorem escape_nil : code.escape [] = [] := rfl

theorem escape_cons (a : A) (text : List A) :
    code.escape (a :: text) = code.escapeOne a ++ code.escape text := rfl

/-- Only marks stand among the kept characters of an escaped text. -/
theorem eq_mark_of_mem_escape {text : List A} {a : A} (hmem : a ∈ code.escape text)
    (hkept : code.kept a = true) : a = code.mark := by
  obtain ⟨b, -, hb⟩ := List.mem_flatMap.mp hmem
  rw [escapeOne] at hb
  split at hb
  case isTrue hbkept =>
    rcases List.mem_pair.mp hb with hmark | hdisguise
    · exact hmark
    · rw [hdisguise, code.kept_disguise b hbkept] at hkept
      exact absurd hkept Bool.false_ne_true
  case isFalse hbplain =>
    rw [List.mem_singleton.mp hb] at hkept
    exact absurd hkept hbplain

/-- A kept character that is not the mark is not sent. -/
theorem notMem_escape {a : A} (hkept : code.kept a = true) (hne : a ≠ code.mark)
    (text : List A) : a ∉ code.escape text :=
  fun hmem => hne (code.eq_mark_of_mem_escape hmem hkept)

end EscapeCode

end Prazor
