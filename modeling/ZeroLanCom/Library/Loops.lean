import Mathlib.Tactic.Common

/-!
# Loops that need not end

A round of a loop goes on with a new state or leaves the loop with a result. A
loop is run with fuel, so that one that never ends has no result at any fuel.
The rules are those of partial correctness, of termination by a variant and of
divergence.
-/

namespace Loops

/-- What one round does. -/
inductive Round (σ ρ : Type*) where
  | again (s : σ)
  | leave (r : ρ)

variable {σ ρ : Type*}

/-- At most `fuel` rounds of a loop. -/
def loop (round : σ → Round σ ρ) : Nat → σ → Option ρ
  | 0, _ => none
  | fuel + 1, s =>
    match round s with
    | .again s => loop round fuel s
    | .leave r => some r

/-- The loop ends, with that result. -/
def EndsWith (round : σ → Round σ ρ) (s : σ) (r : ρ) : Prop := ∃ fuel, loop round fuel s = some r

section Rounds

variable {round : σ → Round σ ρ} {s s' : σ} {r r' : ρ}

/-- A loop that ends has made a round. -/
theorem endsWith_iff_succ : EndsWith round s r ↔ ∃ fuel, loop round (fuel + 1) s = some r := by
  constructor
  · rintro ⟨fuel, hfuel⟩
    cases fuel with
    | zero => cases hfuel
    | succ fuel => exact ⟨fuel, hfuel⟩
  · rintro ⟨fuel, hfuel⟩
    exact ⟨fuel + 1, hfuel⟩

/-- A round that goes on leaves the end of the loop to the rounds behind it. -/
theorem endsWith_of_again (h : round s = .again s') :
    EndsWith round s r ↔ EndsWith round s' r := by
  simp only [endsWith_iff_succ (s := s), loop, h]
  exact Iff.rfl

/-- A round that leaves is the end of the loop. -/
theorem endsWith_of_leave (h : round s = .leave r) : EndsWith round s r' ↔ r = r' := by
  simp only [endsWith_iff_succ, loop, h, Option.some.injEq, exists_const]

/-- Partial correctness: what an invariant implies of every way out holds of the result. -/
theorem EndsWith.result {I : σ → Prop} {Q : ρ → Prop}
    (hagain : ∀ s s', I s → round s = .again s' → I s')
    (hleave : ∀ s r, I s → round s = .leave r → Q r) (h : EndsWith round s r) (hs : I s) :
    Q r := by
  obtain ⟨fuel, hfuel⟩ := h
  induction fuel generalizing s with
  | zero => cases hfuel
  | succ fuel ih =>
    rw [loop] at hfuel
    cases hround : round s with
    | again s' =>
      rw [hround] at hfuel
      exact ih (hagain s s' hs hround) hfuel
    | leave r' =>
      rw [hround] at hfuel
      cases hfuel
      exact hleave s r hs hround

/-- Termination: a loop ends if every round that goes on lowers a variant. -/
theorem exists_endsWith {I : σ → Prop} (variant : σ → Nat)
    (hagain : ∀ s s', I s → round s = .again s' → I s' ∧ variant s' < variant s) (hs : I s) :
    ∃ r, EndsWith round s r := by
  induction hn : variant s using Nat.strongRecOn generalizing s with
  | ind n ih =>
    cases hround : round s with
    | again s' =>
      obtain ⟨hs', hlt⟩ := hagain s s' hs hround
      obtain ⟨r, hr⟩ := ih (variant s') (hn ▸ hlt) hs' rfl
      exact ⟨r, (endsWith_of_again hround).mpr hr⟩
    | leave r => exact ⟨r, (endsWith_of_leave hround).mpr rfl⟩

/-- Divergence: a loop has no result if some invariant lets every round go on. -/
theorem loop_eq_none {I : σ → Prop} (hround : ∀ s, I s → ∃ s', round s = .again s' ∧ I s')
    (hs : I s) (fuel : Nat) : loop round fuel s = none := by
  induction fuel generalizing s with
  | zero => rfl
  | succ fuel ih =>
    obtain ⟨s', hs', hI⟩ := hround s hs
    rw [loop, hs']
    exact ih hI

/-- A loop ends in one way only. -/
theorem EndsWith.unique (h : EndsWith round s r) (h' : EndsWith round s r') : r = r' := by
  refine h.result (I := fun s => EndsWith round s r') (Q := fun r => r = r') ?_ ?_ h'
  · intro s s' hs hround
    exact (endsWith_of_again hround).mp hs
  · intro s r hs hround
    exact (endsWith_of_leave hround).mp hs

/-- Counting: a loop that has gone through `k` known states ends as it does from there. -/
theorem endsWith_of_walk {f : Nat → σ} {k : Nat}
    (hwalk : ∀ j < k, round (f j) = .again (f (j + 1))) :
    EndsWith round (f 0) r ↔ EndsWith round (f k) r := by
  induction k with
  | zero => exact Iff.rfl
  | succ k ih =>
    rw [ih fun j hj => hwalk j (Nat.lt_succ_of_lt hj)]
    exact endsWith_of_again (hwalk k (Nat.lt_succ_self k))

end Rounds

end Loops
