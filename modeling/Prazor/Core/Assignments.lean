import Prazor.Core.ArraySizes

/-!
# Assignments made one after another

A loop that assigns one entry of a map in each turn: what an entry holds at its end, and
when a second run of the loop over its own beginning gives what one run gives.  A loop over the
places of a list is one over its items.
-/

namespace Prazor.Assignments

variable {Key Value : Type*} [DecidableEq Key] {f g : Key → Value} {key : Key} {value : Value}

/-- A map after some assignments, the last one of a key being the one that counts. -/
def assignAll (f : Key → Value) (writes : List (Key × Value)) : Key → Value :=
  writes.foldl (fun f write => Function.update f write.1 write.2) f

@[simp]
theorem assignAll_nil (f : Key → Value) : assignAll f [] = f := rfl

theorem assignAll_cons (f : Key → Value) (write : Key × Value) (writes : List (Key × Value)) :
    assignAll f (write :: writes) = assignAll (Function.update f write.1 write.2) writes := rfl

theorem assignAll_append (f : Key → Value) (first second : List (Key × Value)) :
    assignAll f (first ++ second) = assignAll (assignAll f first) second :=
  List.foldl_append

/-- A key that is not assigned keeps its value. -/
theorem assignAll_of_notMem {writes : List (Key × Value)} (hkey : key ∉ writes.map Prod.fst) :
    assignAll f writes key = f key := by
  induction writes generalizing f with
  | nil => rfl
  | cons write writes ih =>
      rw [List.map_cons, List.mem_cons, not_or] at hkey
      rw [assignAll_cons, ih hkey.2, Function.update_of_ne hkey.1]

/-- What an assigned key holds does not depend on what was there. -/
theorem assignAll_congr_of_mem {writes : List (Key × Value)}
    (hkey : key ∈ writes.map Prod.fst) :
    assignAll f writes key = assignAll g writes key := by
  induction writes generalizing f g with
  | nil => exact absurd hkey List.not_mem_nil
  | cons write writes ih =>
      rw [assignAll_cons, assignAll_cons]
      by_cases hlater : key ∈ writes.map Prod.fst
      · exact ih hlater
      · have hnow : key = write.1 := by
          rw [List.map_cons] at hkey
          exact (List.mem_cons.mp hkey).resolve_right hlater
        rw [assignAll_of_notMem hlater, assignAll_of_notMem hlater, hnow,
          Function.update_self, Function.update_self]

/-- A key that is assigned once holds the value of that assignment. -/
theorem assignAll_of_mem {writes : List (Key × Value)} (hnodup : (writes.map Prod.fst).Nodup)
    (hmem : (key, value) ∈ writes) : assignAll f writes key = value := by
  induction writes generalizing f with
  | nil => exact absurd hmem List.not_mem_nil
  | cons write writes ih =>
      rw [List.map_cons, List.nodup_cons] at hnodup
      rw [assignAll_cons]
      rcases List.mem_cons.mp hmem with rfl | hlater
      · rw [assignAll_of_notMem hnodup.1, Function.update_self]
      · exact ih hnodup.2 hlater

/-- A key whose assignments all have one value holds it. -/
theorem assignAll_of_agree {writes : List (Key × Value)} (hmem : key ∈ writes.map Prod.fst)
    (hagree : ∀ write ∈ writes, write.1 = key → write.2 = value) :
    assignAll f writes key = value := by
  induction writes generalizing f with
  | nil => exact absurd hmem List.not_mem_nil
  | cons write writes ih =>
      rw [assignAll_cons]
      by_cases hlater : key ∈ writes.map Prod.fst
      · exact ih hlater fun write hwrite => hagree write (List.mem_cons_of_mem _ hwrite)
      · have hnow : key = write.1 := by
          rw [List.map_cons] at hmem
          exact (List.mem_cons.mp hmem).resolve_right hlater
        rw [assignAll_of_notMem hlater, hnow, Function.update_self]
        exact hagree write List.mem_cons_self hnow.symm

/-- A loop that had already assigned some of its keys gives what it gives from the start. -/
theorem assignAll_assignAll {first second : List (Key × Value)}
    (hkeys : first.map Prod.fst ⊆ second.map Prod.fst) (f : Key → Value) :
    assignAll (assignAll f first) second = assignAll f second := by
  funext key
  by_cases hmem : key ∈ second.map Prod.fst
  · exact assignAll_congr_of_mem hmem
  · have hnot : key ∉ first.map Prod.fst := fun hfirst => hmem (hkeys hfirst)
    rw [assignAll_of_notMem hmem, assignAll_of_notMem hmem, assignAll_of_notMem hnot]

section Indexed

variable {place : ℕ → Key} {content : ℕ → Value} {n i : ℕ}

/-- The assignments that the first turns of a loop make. -/
def turns (place : ℕ → Key) (content : ℕ → Value) (n : ℕ) : List (Key × Value) :=
  (List.range n).map fun i => (place i, content i)

omit [DecidableEq Key] in
theorem turns_succ (place : ℕ → Key) (content : ℕ → Value) (n : ℕ) :
    turns place content (n + 1) = turns place content n ++ [(place n, content n)] := by
  simp only [turns, List.range_succ, List.map_append, List.map_cons, List.map_nil]

omit [DecidableEq Key] in
theorem turns_congr {content' : ℕ → Value} (hsame : ∀ i < n, content i = content' i) :
    turns place content n = turns place content' n := by
  apply List.map_congr_left
  intro i hi
  rw [hsame i (List.mem_range.mp hi)]

omit [DecidableEq Key] in
/-- Turns after some of them. -/
theorem turns_add (place : ℕ → Key) (content : ℕ → Value) (n m : ℕ) :
    turns place content (n + m) =
      turns place content n ++ turns (fun i => place (n + i)) (fun i => content (n + i)) m := by
  simp only [turns, List.range_add, List.map_append, List.map_map]
  rfl

theorem assignAll_turns_succ (f : Key → Value) :
    assignAll f (turns place content (n + 1)) =
      Function.update (assignAll f (turns place content n)) (place n) (content n) := by
  rw [turns_succ, assignAll_append]
  rfl

omit [DecidableEq Key] in
theorem mem_turns_keys : key ∈ (turns place content n).map Prod.fst ↔ ∃ i < n, place i = key := by
  simp only [turns, List.map_map, List.mem_map, List.mem_range, Function.comp]

/-- A key that no turn assigns. -/
theorem assignAll_turns_of_ne (hne : ∀ i < n, place i ≠ key) :
    assignAll f (turns place content n) key = f key := by
  apply assignAll_of_notMem
  rw [mem_turns_keys]
  rintro ⟨i, hi, hplace⟩
  exact hne i hi hplace

/-- A key that one turn assigns. -/
theorem assignAll_turns_of_lt
    (hinjective : ∀ i < n, ∀ j < n, place i = place j → i = j) (hi : i < n) :
    assignAll f (turns place content n) (place i) = content i := by
  apply assignAll_of_mem
  · have hkeys : (turns place content n).map Prod.fst = (List.range n).map place := by
      simp only [turns, List.map_map]
      rfl
    rw [hkeys]
    apply List.Nodup.map_on _ List.nodup_range
    intro i hi j hj
    exact hinjective i (List.mem_range.mp hi) j (List.mem_range.mp hj)
  · exact List.mem_map_of_mem (List.mem_range.mpr hi)

/-- More turns after some of them give what they give alone. -/
theorem assignAll_turns_again {m : ℕ} (hle : n ≤ m) (f : Key → Value) :
    assignAll (assignAll f (turns place content n)) (turns place content m) =
      assignAll f (turns place content m) := by
  apply assignAll_assignAll
  intro key hkey
  obtain ⟨i, hi, hplace⟩ := mem_turns_keys.mp hkey
  exact mem_turns_keys.mpr ⟨i, hi.trans_le hle, hplace⟩

end Indexed

section Rounds

variable {State Item : Type*} {Inv : State → Prop} {put : State → Item → State}
  {items : List Item}

theorem foldl_keeps (hput : ∀ s, ∀ item ∈ items, Inv s → Inv (put s item)) {s : State}
    (hs : Inv s) : Inv (items.foldl put s) := by
  induction items generalizing s with
  | nil => exact hs
  | cons item items ih =>
      rw [List.foldl_cons]
      apply ih fun s item hitem => hput s item (List.mem_cons_of_mem _ hitem)
      exact hput s item List.mem_cons_self hs

/-- A loop over the places of a list, each round of which does what the item there says. -/
theorem foldlM_range (Inv : State → Prop) {M : Type _ → Type*} [Monad M] [LawfulMonad M]
    {step : State → ℕ → M State}
    (hput : ∀ s, ∀ item ∈ items, Inv s → Inv (put s item))
    (hstep : ∀ s i (hi : i < items.length), Inv s → step s i = pure (put s items[i]))
    {s : State} (hs : Inv s) :
    (List.range items.length).foldlM step s = pure (items.foldl put s) := by
  have hfirst : ∀ n ≤ items.length,
      (List.range n).foldlM step s = pure ((items.take n).foldl put s) := by
    intro n
    induction n with
    | zero =>
        intro _
        rfl
    | succ n ih =>
        intro hn
        have hinv : Inv ((items.take n).foldl put s) :=
          foldl_keeps (fun s item hitem => hput s item (List.mem_of_mem_take hitem)) hs
        rw [List.range_succ, List.foldlM_append, ih (Nat.le_of_succ_le hn), pure_bind,
          List.take_succ_eq_append_getElem hn, List.foldl_append]
        simp only [List.foldlM_cons, List.foldlM_nil, List.foldl_cons, List.foldl_nil, bind_pure]
        exact hstep _ n hn hinv
  rw [hfirst items.length (Nat.le_refl _), List.take_length]

theorem foldl_range (Inv : State → Prop) {step : State → ℕ → State}
    (hput : ∀ s, ∀ item ∈ items, Inv s → Inv (put s item))
    (hstep : ∀ s i (hi : i < items.length), Inv s → step s i = put s items[i])
    {s : State} (hs : Inv s) : (List.range items.length).foldl step s = items.foldl put s := by
  have hrounds := foldlM_range Inv (M := Id) hput 
    (fun s i hi hinv => congrArg (pure : State → Id State) (hstep s i hi hinv)) hs
  rw [List.foldlM_pure] at hrounds
  exact hrounds

end Rounds

end Prazor.Assignments
