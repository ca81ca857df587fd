import Mathlib.Tactic.Common

/-!
# Blocks of memory

An allocated block is the list of its cells. It can be resized, which keeps
what fits and leaves the rest to the allocator, and it can be copied into, if
the copy stays inside.
-/

namespace Blocks

variable {α : Type*}

/-- The block after a change of its size; the allocator fills new cells. -/
def resize (block : List α) (n : Nat) (fill : Nat → α) : List α :=
  block.take n ++ (List.range (n - block.length)).map fill

/-- The block after a copy to an offset; there is none if the copy leaves the block. -/
def copyInto (block : List α) (offset : Nat) (cells : List α) : Option (List α) :=
  if offset + cells.length ≤ block.length then
    some (block.take offset ++ cells ++ block.drop (offset + cells.length))
  else none

@[simp] theorem length_resize (block : List α) (n : Nat) (fill : Nat → α) :
    (resize block n fill).length = n := by
  simp only [resize, List.length_append, List.length_take, List.length_map, List.length_range]
  omega

/-- What lies inside of both sizes is kept. -/
theorem take_resize {block : List α} {n k : Nat} (fill : Nat → α) (hn : k ≤ n)
    (hblock : k ≤ block.length) : (resize block n fill).take k = block.take k := by
  have hlength : k ≤ (block.take n).length := by
    rw [List.length_take]
    omega
  rw [resize, List.take_append_of_le_length hlength, List.take_take, Nat.min_eq_left hn]

section CopyInto

variable {block block' cells : List α} {offset : Nat}

/-- There is room for cells that end within the block. -/
theorem exists_copyInto (h : offset + cells.length ≤ block.length) :
    ∃ block', copyInto block offset cells = some block' := ⟨_, if_pos h⟩

/-- A copy that has a result stayed inside, and the block keeps its length. -/
theorem length_copyInto (h : copyInto block offset cells = some block') :
    offset + cells.length ≤ block.length ∧ block'.length = block.length := by
  unfold copyInto at h
  split_ifs at h with hinside
  cases h
  refine ⟨hinside, ?_⟩
  simp only [List.length_append, List.length_take, List.length_drop]
  omega

/-- Up to its end the copy stands behind what was there before it. -/
theorem take_copyInto (h : copyInto block offset cells = some block') :
    block'.take (offset + cells.length) = block.take offset ++ cells := by
  have hinside := (length_copyInto h).1
  unfold copyInto at h
  rw [if_pos hinside] at h
  cases h
  apply List.take_left'
  simp only [List.length_append, List.length_take]
  omega

end CopyInto

end Blocks
