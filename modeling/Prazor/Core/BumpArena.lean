import Prazor.Core.ArraySizes

/-!
# Blocks laid one after the other

An allocator that only moves a frontier lays its blocks end to end: each block
begins where the one before it ends, the first at the base of the arena and the
last one up to the frontier.  So the blocks lie within the arena and apart from
each other, and what follows a block is either the next block or free.
-/

namespace Prazor.BumpArena

variable {Block : Type*} {first last : Block → ℕ} {base frontier : ℕ}
  {blocks : List Block} {block : Block}

/-- The blocks, the latest first, fill the arena from its base to the frontier. -/
def Tiled (first last : Block → ℕ) (base : ℕ) : List Block → ℕ → Prop
  | [], frontier => frontier = base
  | block :: rest, frontier =>
      last block = frontier ∧ first block ≤ last block ∧
        Tiled first last base rest (first block)

theorem Tiled.base_le (htiled : Tiled first last base blocks frontier) :
    base ≤ frontier := by
  induction blocks generalizing frontier with
  | nil => exact htiled.ge
  | cons block rest ih =>
      obtain ⟨hlast, hle, hrest⟩ := htiled
      calc base
        _ ≤ first block := ih hrest
        _ ≤ last block := hle
        _ = frontier := hlast

/-- A block lies between the base and the frontier. -/
theorem Tiled.within (htiled : Tiled first last base blocks frontier)
    (hblock : block ∈ blocks) : base ≤ first block ∧ last block ≤ frontier := by
  induction blocks generalizing frontier with
  | nil => cases hblock
  | cons head rest ih =>
      obtain ⟨hlast, hle, hrest⟩ := htiled
      rcases List.mem_cons.mp hblock with rfl | hmem
      · exact ⟨hrest.base_le, hlast.le⟩
      · obtain ⟨hbase, hlimit⟩ := ih hrest hmem
        exact ⟨hbase, hlimit.trans (hle.trans hlast.le)⟩

/-- A block ends before any later one begins. -/
theorem Tiled.apart (htiled : Tiled first last base blocks frontier) :
    blocks.Pairwise fun later earlier => last earlier ≤ first later := by
  induction blocks generalizing frontier with
  | nil => exact List.Pairwise.nil
  | cons head rest ih =>
      obtain ⟨-, -, hrest⟩ := htiled
      exact List.Pairwise.cons (fun block hblock => (hrest.within hblock).2) (ih hrest)

/-- What follows a block is the next one, or free. -/
theorem Tiled.next_or_free (htiled : Tiled first last base blocks frontier)
    (hblock : block ∈ blocks) :
    last block = frontier ∨ ∃ next ∈ blocks, first next = last block := by
  induction blocks generalizing frontier with
  | nil => cases hblock
  | cons head rest ih =>
      obtain ⟨hlast, -, hrest⟩ := htiled
      rcases List.mem_cons.mp hblock with rfl | hmem
      · exact .inl hlast
      · rcases ih hrest hmem with hfree | ⟨next, hnext, hfollows⟩
        · exact .inr ⟨head, List.mem_cons_self, hfree.symm⟩
        · exact .inr ⟨next, List.mem_cons_of_mem head hnext, hfollows⟩

/-- A change of the blocks that leaves their extents leaves the tiling. -/
theorem Tiled.map {change : Block → Block}
    (hfirst : ∀ block ∈ blocks, first (change block) = first block)
    (hlast : ∀ block ∈ blocks, last (change block) = last block)
    (htiled : Tiled first last base blocks frontier) :
    Tiled first last base (blocks.map change) frontier := by
  induction blocks generalizing frontier with
  | nil => exact htiled
  | cons head rest ih =>
      obtain ⟨hend, hle, hrest⟩ := htiled
      have hhead := hfirst head List.mem_cons_self
      have hhead' := hlast head List.mem_cons_self
      refine ⟨hhead'.trans hend, by rw [hhead, hhead']; exact hle, ?_⟩
      rw [hhead]
      exact ih (fun block hblock => hfirst block (List.mem_cons_of_mem head hblock))
        (fun block hblock => hlast block (List.mem_cons_of_mem head hblock)) hrest

end Prazor.BumpArena
