import Mathlib.Algebra.BigOperators.Group.Finset.Basic
import Mathlib.Algebra.BigOperators.Group.Finset.Piecewise
import Mathlib.Algebra.Order.BigOperators.Group.Finset
import Mathlib.Logic.Function.Basic

/-!
# Tallies

Threads of finitely many names are each in some phase, and each phase has a
weight. When one thread moves, only its own weight changes.
-/

namespace Tally

variable {ι θ : Type*} [Fintype ι]

/-- The weights of all the phases together. -/
def tally (weight : θ → Nat) (phases : ι → θ) : Nat := ∑ i, weight (phases i)

variable {weight : θ → Nat} {phases phases' : ι → θ}

/-- One thread moves. -/
theorem tally_update [DecidableEq ι] (weight : θ → Nat) (phases : ι → θ) (i : ι) (phase : θ) :
    tally weight (Function.update phases i phase) + weight (phases i) =
      tally weight phases + weight phase := by
  have hupdate : (fun j => weight (Function.update phases i phase j)) =
      Function.update (fun j => weight (phases j)) i (weight phase) :=
    funext fun j => Function.apply_update (fun _ => weight) phases i phase j
  have hsplit := Finset.add_sum_erase Finset.univ (fun j => weight (phases j)) (Finset.mem_univ i)
  rw [tally, tally, hupdate, Finset.sum_update_of_mem (Finset.mem_univ i), ← hsplit,
    Finset.sdiff_singleton_eq_erase]
  omega

/-- A change that does not touch the weight of its phase does not touch the tally. -/
theorem tally_update_of_eq [DecidableEq ι] {i : ι} {phase : θ}
    (h : weight phase = weight (phases i)) :
    tally weight (Function.update phases i phase) = tally weight phases := by
  have hmoved := tally_update weight phases i phase
  omega

/-- Every thread moves up by one at most. -/
theorem tally_le_add_card (h : ∀ i, weight (phases' i) ≤ weight (phases i) + 1) :
    tally weight phases' ≤ tally weight phases + Fintype.card ι := by
  calc tally weight phases' ≤ ∑ i, (weight (phases i) + 1) := Finset.sum_le_sum fun i _ => h i
    _ = tally weight phases + Fintype.card ι := by
      rw [Finset.sum_add_distrib, ← Finset.card_eq_sum_ones, Finset.card_univ, tally]

/-- A tally is zero if nobody weighs anything. -/
theorem tally_eq_zero_iff : tally weight phases = 0 ↔ ∀ i, weight (phases i) = 0 := by
  simp [tally, Finset.sum_eq_zero_iff]

end Tally
