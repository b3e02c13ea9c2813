import Prazor.Core.ArraySizes

/-!
# Chains of pointers

In a heap of linked nodes, `links p` is `none` for a pointer that is not allocated, and the
pointer in the node otherwise, which may be NULL.  A chain is the list of the nodes that are
reached from a pointer before NULL.
-/

namespace Prazor

/-- The pointer in each allocated node. -/
abbrev Links (P : Type*) := P → Option (Option P)

namespace Links

variable {P : Type*} {links links' : Links P} {start next : Option P} {p q : P}
  {before after ps : List P}

/-- Following the links from a pointer reaches these nodes, and then NULL. -/
def Chain (links : Links P) : Option P → List P → Prop
  | start, [] => start = none
  | start, p :: ps => start = some p ∧ ∃ next, links p = some next ∧ Chain links next ps

/-- A pointer begins one chain only. -/
theorem Chain.unique (hchain : Chain links start ps) {qs : List P}
    (hother : Chain links start qs) : ps = qs := by
  induction ps generalizing start qs with
  | nil =>
      cases qs with
      | nil => rfl
      | cons q qs => exact absurd (hother.1.symm.trans hchain) (Option.some_ne_none q)
  | cons p ps ih =>
      obtain ⟨rfl, next, hnext, hchain⟩ := hchain
      cases qs with
      | nil => exact absurd hother (Option.some_ne_none p)
      | cons q qs =>
          obtain ⟨heq, next', hnext', hother⟩ := hother
          cases heq
          rw [hnext] at hnext'
          cases hnext'
          rw [ih hchain hother]

/-- A node of a chain begins the rest of it. -/
theorem Chain.rest (hchain : Chain links start (before ++ p :: after)) :
    Chain links (some p) (p :: after) := by
  induction before generalizing start with
  | nil =>
      obtain ⟨rfl, hrest⟩ := hchain
      exact ⟨rfl, hrest⟩
  | cons b before ih =>
      obtain ⟨-, next, -, hchain⟩ := hchain
      exact ih hchain

/-- No node is reached twice, for it would be reached forever. -/
theorem Chain.nodup (hchain : Chain links start ps) : ps.Nodup := by
  induction ps generalizing start with
  | nil => exact List.nodup_nil
  | cons p ps ih =>
      have hself : Chain links (some p) (p :: ps) := ⟨rfl, hchain.2⟩
      obtain ⟨-, next, -, hnext⟩ := hchain
      refine List.nodup_cons.mpr ⟨?_, ih hnext⟩
      intro hmem
      obtain ⟨before, after, rfl⟩ := List.append_of_mem hmem
      have hsame := congrArg List.length (hself.unique hnext.rest)
      simp only [List.length_cons, List.length_append] at hsame
      omega

/-- Every node of a chain is allocated. -/
theorem Chain.allocated (hchain : Chain links start ps) (hmem : p ∈ ps) :
    ∃ next, links p = some next := by
  obtain ⟨before, after, rfl⟩ := List.append_of_mem hmem
  obtain ⟨-, next, hnext, -⟩ := hchain.rest
  exact ⟨next, hnext⟩

/-- Only the nodes of a chain matter to it. -/
theorem Chain.congr (hchain : Chain links start ps) (hsame : ∀ p ∈ ps, links' p = links p) :
    Chain links' start ps := by
  induction ps generalizing start with
  | nil => exact hchain
  | cons p ps ih =>
      obtain ⟨hstart, next, hnext, hchain⟩ := hchain
      refine ⟨hstart, next, ?_, ih hchain fun q hq => hsame q (List.mem_cons_of_mem p hq)⟩
      rw [hsame p List.mem_cons_self, hnext]

section Updates

variable [DecidableEq P]

/-- A new node in front. -/
theorem Chain.push (hchain : Chain links start ps) (hfresh : p ∉ ps) :
    Chain (Function.update links p (some start)) (some p) (p :: ps) := by
  refine ⟨rfl, start, Function.update_self .., hchain.congr ?_⟩
  intro q hq
  exact Function.update_of_ne (ne_of_mem_of_not_mem hq hfresh) ..

/-- The first node is unlinked and freed. -/
theorem Chain.pop (hchain : Chain links start (p :: ps)) (hnext : links p = some next) :
    Chain (Function.update links p none) next ps := by
  have hnodup := hchain.nodup
  obtain ⟨-, next', hnext', hchain⟩ := hchain
  rw [hnext] at hnext'
  cases hnext'
  apply hchain.congr
  intro q hq
  exact Function.update_of_ne (ne_of_mem_of_not_mem hq (List.nodup_cons.mp hnodup).1) ..

/-- A node behind another is unlinked and freed. -/
theorem Chain.unlink (hchain : Chain links start (before ++ q :: p :: after))
    (hnext : links p = some next) :
    Chain (Function.update (Function.update links q (some next)) p none) start
      (before ++ q :: after) := by
  have hnodup := hchain.nodup
  induction before generalizing start with
  | nil =>
      obtain ⟨hstart, -, -, -, next', hnext', hafter⟩ := hchain
      rw [hnext] at hnext'
      cases hnext'
      rw [List.nil_append, List.nodup_cons, List.nodup_cons, List.mem_cons, not_or] at hnodup
      obtain ⟨⟨hqp, hq⟩, hp, -⟩ := hnodup
      refine ⟨hstart, next, ?_, hafter.congr ?_⟩
      · rw [Function.update_of_ne hqp, Function.update_self]
      · intro r hr
        rw [Function.update_of_ne (ne_of_mem_of_not_mem hr hp),
          Function.update_of_ne (ne_of_mem_of_not_mem hr
            hq)]
  | cons b before ih =>
      obtain ⟨hstart, follow, hfollow, hchain⟩ := hchain
      rw [List.cons_append, List.nodup_cons] at hnodup
      refine ⟨hstart, follow, ?_, ih hchain hnodup.2⟩
      rw [Function.update_of_ne, Function.update_of_ne, hfollow]
      · intro heq
        exact hnodup.1 (heq ▸ List.mem_append_right before List.mem_cons_self)
      · intro heq
        exact hnodup.1 (heq ▸ List.mem_append_right before
          (List.mem_cons_of_mem q List.mem_cons_self))

end Updates

end Links

end Prazor
