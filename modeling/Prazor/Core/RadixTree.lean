import Prazor.Core.ArraySizes

/-!
# Radix trees

A number is cut into digits of given widths, most significant first, and the
digits lead from the root of a tree of tables to a leaf.  Inserting at one list
of digits leaves what is found at every other list of the same length.
-/

namespace Prazor

/-! ## Digits -/

namespace Digits

/-- The digits of a number, most significant first. -/
def split : List ℕ → ℕ → List ℕ
  | [], _ => []
  | _ :: rest, number =>
      number / 2 ^ rest.sum :: split rest (number % 2 ^ rest.sum)

theorem length_split (widths : List ℕ) (number : ℕ) :
    (split widths number).length = widths.length := by
  induction widths generalizing number with
  | nil => rfl
  | cons width rest ih => simp [split, ih]

/-- Numbers that fit the widths are told apart by their digits. -/
theorem split_injective {widths : List ℕ} {left right : ℕ}
    (hleft : left < 2 ^ widths.sum) (hright : right < 2 ^ widths.sum)
    (heq : split widths left = split widths right) : left = right := by
  induction widths generalizing left right with
  | nil =>
      rw [List.sum_nil, pow_zero] at hleft hright
      omega
  | cons width rest ih =>
      rw [split, split, List.cons.injEq] at heq
      obtain ⟨hdigit, hrest⟩ := heq
      have hpos : 0 < 2 ^ rest.sum := Nat.two_pow_pos _
      have hmod := ih (Nat.mod_lt left hpos) (Nat.mod_lt right hpos) hrest
      calc
        left = 2 ^ rest.sum * (left / 2 ^ rest.sum) + left % 2 ^ rest.sum :=
          (Nat.div_add_mod left _).symm
        _ = 2 ^ rest.sum * (right / 2 ^ rest.sum) + right % 2 ^ rest.sum := by
          rw [hdigit, hmod]
        _ = right := Nat.div_add_mod right _

end Digits

/-! ## Trees -/

/-- A tree of tables; an entry that is not there is `none`. -/
inductive RadixTree (Value : Type*) where
  | leaf (value : Value)
  | table (entries : ℕ → Option (RadixTree Value))

namespace RadixTree

variable {Value : Type*}

def empty : RadixTree Value := table fun _ => none

/-- The entries of a table; a leaf has none. -/
def entries : RadixTree Value → ℕ → Option (RadixTree Value)
  | leaf _ => fun _ => none
  | table entries => entries

@[simp]
theorem entries_table (entries : ℕ → Option (RadixTree Value)) :
    (table entries).entries = entries := rfl

/-- What the digits lead to. -/
def find : List ℕ → RadixTree Value → Option Value
  | [], leaf value => some value
  | [], table _ => none
  | digit :: rest, tree => (tree.entries digit).bind (find rest)

/-- The tree with a value at the digits; tables that are not there are made. -/
def insert (value : Value) : List ℕ → RadixTree Value → RadixTree Value
  | [], _ => leaf value
  | digit :: rest, tree =>
      table (Function.update tree.entries digit
        (some (insert value rest ((tree.entries digit).getD empty))))

/-- Every leaf is the given number of tables away from the root. -/
def Deep : ℕ → RadixTree Value → Prop
  | 0, leaf _ => True
  | 0, table _ => False
  | _ + 1, leaf _ => False
  | depth + 1, table entries =>
      ∀ digit child, entries digit = some child → Deep depth child

theorem find_empty (digits : List ℕ) : find digits (empty : RadixTree Value) = none := by
  cases digits <;> rfl

theorem find_insert_self (value : Value) (digits : List ℕ) (tree : RadixTree Value) :
    find digits (insert value digits tree) = some value := by
  induction digits generalizing tree with
  | nil => rfl
  | cons digit rest ih => simp [insert, find, ih]

theorem find_insert_of_ne (value : Value) {digits others : List ℕ}
    (hlength : others.length = digits.length) (hne : others ≠ digits)
    (tree : RadixTree Value) :
    find others (insert value digits tree) = find others tree := by
  induction digits generalizing others tree with
  | nil => exact absurd (List.length_eq_zero_iff.mp hlength) hne
  | cons digit rest ih =>
      cases others with
      | nil => simp at hlength
      | cons other others =>
          have hrest : others.length = rest.length := by simpa using hlength
          by_cases hdigit : other = digit
          · subst hdigit
            have hne' : others ≠ rest := fun heq => hne (by rw [heq])
            simp only [insert, find, entries_table, Function.update_self,
              Option.bind_some, ih hrest hne']
            cases tree.entries other with
            | none => exact find_empty others
            | some child => rfl
          · simp [insert, find, hdigit]

/-- A table of the right depth, or a new one, is a table of trees of the depth
below. -/
theorem deep_entries {depth : ℕ} {tree : RadixTree Value}
    (hdeep : tree = empty ∨ Deep (depth + 1) tree) :
    table tree.entries = tree ∧
      ∀ digit child, tree.entries digit = some child → Deep depth child := by
  rcases hdeep with rfl | hdeep
  · exact ⟨rfl, fun digit child hchild => by simp [empty] at hchild⟩
  · cases tree with
    | leaf value => exact hdeep.elim
    | table entries => exact ⟨rfl, hdeep⟩

/-- Inserting into a tree of the right depth, or into a new table, leaves a tree
of that depth. -/
theorem deep_insert (value : Value) (digits : List ℕ) {tree : RadixTree Value}
    (hdeep : tree = empty ∨ Deep digits.length tree) :
    Deep digits.length (insert value digits tree) := by
  induction digits generalizing tree with
  | nil => trivial
  | cons digit rest ih =>
      intro other child hchild
      by_cases hother : other = digit
      · subst hother
        rw [Function.update_self, Option.some.injEq] at hchild
        rw [← hchild]
        refine ih ?_
        cases hentry : tree.entries other with
        | none => exact Or.inl rfl
        | some old => exact Or.inr ((deep_entries hdeep).2 other old hentry)
      · rw [Function.update_of_ne hother] at hchild
        exact (deep_entries hdeep).2 other child hchild

end RadixTree

end Prazor
