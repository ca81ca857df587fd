import Mathlib.Logic.Relation
import Mathlib.Tactic.Common

/-!
# Properties of whole runs

A sequential component is a step function folded over the operations it is
given. `Always` follows a property of states along such a run and `Each` a
condition on every step and the state before it. The transfer rule turns a
step lemma into a statement about whole runs, in both directions, and the
simulation rule relates them to the runs of a second component. For systems
with a step relation the invariant rule is the one over reachability.
-/

namespace Runs

variable {σ ο : Type*}

/-- The state after the operations, in order. -/
def run (step : σ → ο → σ) (s : σ) (ops : List ο) : σ := ops.foldl step s

@[simp] theorem run_nil (step : σ → ο → σ) (s : σ) : run step s [] = s := rfl

@[simp] theorem run_cons (step : σ → ο → σ) (s : σ) (o : ο) (ops : List ο) :
    run step s (o :: ops) = run step (step s o) ops := rfl

/-- The property holds at the start of the run and after each of its operations. -/
def Always (step : σ → ο → σ) (P : σ → Prop) : σ → List ο → Prop
  | s, [] => P s
  | s, o :: ops => P s ∧ Always step P (step s o) ops

/-- The condition holds of every operation of the run and the state it finds. -/
def Each (step : σ → ο → σ) (C : σ → ο → Prop) : σ → List ο → Prop
  | _, [] => True
  | s, o :: ops => C s o ∧ Each step C (step s o) ops

/-- Conditions that agree on every step agree along the run. -/
theorem each_congr {step : σ → ο → σ} {C D : σ → ο → Prop} (h : ∀ s o, C s o ↔ D s o) {s : σ}
    {ops : List ο} : Each step C s ops ↔ Each step D s ops := by
  induction ops generalizing s with
  | nil => exact Iff.rfl
  | cons o ops ih => exact and_congr (h s o) ih

/-- `Always` speaks about every prefix of the run. -/
theorem always_iff_take {step : σ → ο → σ} {P : σ → Prop} {s : σ} {ops : List ο} :
    Always step P s ops ↔ ∀ k, P (run step s (ops.take k)) := by
  induction ops generalizing s with
  | nil => simp [Always]
  | cons o ops ih =>
    rw [Always, ih]
    constructor
    · rintro ⟨hs, h⟩ k
      cases k with
      | zero => exact hs
      | succ k => exact h k
    · intro h
      exact ⟨h 0, fun k => h (k + 1)⟩

/-- What an invariant of the orderly steps implies always holds in an orderly run. -/
theorem always_of_each {step : σ → ο → σ} {I P : σ → Prop} {C : σ → ο → Prop}
    (hstep : ∀ s o, I s → C s o → I (step s o)) (himp : ∀ s, I s → P s) {s : σ} (hs : I s)
    {ops : List ο} (h : Each step C s ops) : Always step P s ops := by
  induction ops generalizing s with
  | nil => exact himp s hs
  | cons o ops ih => exact ⟨himp s hs, ih (hstep s o hs h.1) h.2⟩

/-- What an invariant implies always holds. -/
theorem always_of_invariant {step : σ → ο → σ} {I P : σ → Prop}
    (hstep : ∀ s o, I s → I (step s o)) (himp : ∀ s, I s → P s) {s : σ} (hs : I s)
    (ops : List ο) : Always step P s ops := by
  induction ops generalizing s with
  | nil => exact himp s hs
  | cons o ops ih => exact ⟨himp s hs, ih (hstep s o hs)⟩

/-- An invariant of the steps always holds. -/
theorem always_of_step {step : σ → ο → σ} {I : σ → Prop} (hstep : ∀ s o, I s → I (step s o))
    {s : σ} (hs : I s) (ops : List ο) : Always step I s ops :=
  always_of_invariant hstep (fun _ h => h) hs ops

/-- What the operations of the run keep holds at its end. -/
theorem run_of_mem {step : σ → ο → σ} {I : σ → Prop} {ops : List ο}
    (hstep : ∀ s, ∀ o ∈ ops, I s → I (step s o)) {s : σ} (hs : I s) : I (run step s ops) :=
  List.foldlRecOn ops step hs fun s h o ho => hstep s o ho h

/-- An invariant holds at the end of a run. -/
theorem run_of_step {step : σ → ο → σ} {I : σ → Prop} (hstep : ∀ s o, I s → I (step s o))
    {s : σ} (hs : I s) (ops : List ο) : I (run step s ops) := by
  induction ops generalizing s with
  | nil => exact hs
  | cons o ops ih => exact ih (hstep s o hs)

/-- What has always held holds at the end. -/
theorem run_of_always {step : σ → ο → σ} {P : σ → Prop} {s : σ} {ops : List ο}
    (h : Always step P s ops) : P (run step s ops) := by
  have hend := always_iff_take.mp h ops.length
  rwa [List.take_length] at hend

/-- What is lost for good once it is lost has always held if it holds at the end. -/
theorem always_iff_run {step : σ → ο → σ} {P : σ → Prop}
    (hlost : ∀ s o, ¬ P s → ¬ P (step s o)) {s : σ} {ops : List ο} :
    Always step P s ops ↔ P (run step s ops) := by
  induction ops generalizing s with
  | nil => exact Iff.rfl
  | cons o ops ih =>
    rw [Always, ih, run_cons, and_iff_right_iff_imp]
    intro hend
    by_contra hs
    exact run_of_step (I := fun s => ¬ P s) hlost (hlost s o hs) ops hend

/-- A descent reaches its end: if some operation lowers a measure as long as the goal is not met,
some run meets it. -/
theorem exists_run_of_measure {step : σ → ο → σ} {I Q : σ → Prop} (measure : σ → Nat)
    (hstep : ∀ s, I s → Q s ∨ ∃ o, I (step s o) ∧ measure (step s o) < measure s) {s : σ}
    (hs : I s) : ∃ ops, Q (run step s ops) := by
  induction hm : measure s using Nat.strongRecOn generalizing s with
  | ind m ih =>
    rcases hstep s hs with hq | ⟨o, ho, hlt⟩
    · exact ⟨[], hq⟩
    · obtain ⟨ops, hq⟩ := ih _ (hm ▸ hlt) ho rfl
      exact ⟨o :: ops, hq⟩

/-- The transfer rule. Under an invariant, a condition that decides at each step whether the
property survives and a requirement on the step is met decides along the run whether the property
always holds and each step meets the requirement. The steps that meet the condition keep the
invariant. -/
theorem always_and_each_iff {step : σ → ο → σ} {I P : σ → Prop} {Q C : σ → ο → Prop}
    (hinv : ∀ s o, I s → C s o → I (step s o))
    (hstep : ∀ s o, I s → P s → (P (step s o) ∧ Q s o ↔ C s o))
    {s : σ} (hI : I s) (hP : P s) (ops : List ο) :
    Always step P s ops ∧ Each step Q s ops ↔ Each step C s ops := by
  induction ops generalizing s with
  | nil => exact ⟨fun _ => trivial, fun _ => ⟨hP, trivial⟩⟩
  | cons o ops ih =>
    have hnext := hstep s o hI hP
    constructor
    · rintro ⟨⟨_, halways⟩, hQ, heach⟩
      have hP' : P (step s o) := by
        cases ops with
        | nil => exact halways
        | cons => exact halways.1
      have hC := hnext.mp ⟨hP', hQ⟩
      exact ⟨hC, (ih (hinv s o hI hC) hP').mp ⟨halways, heach⟩⟩
    · rintro ⟨hC, h⟩
      obtain ⟨hP', hQ⟩ := hnext.mpr hC
      obtain ⟨halways, heach⟩ := (ih (hinv s o hI hC) hP').mpr h
      exact ⟨⟨hP, halways⟩, hQ, heach⟩

/-- The same without a requirement on the steps. -/
theorem always_iff_each {step : σ → ο → σ} {I P : σ → Prop} {C : σ → ο → Prop}
    (hinv : ∀ s o, I s → I (step s o))
    (hstep : ∀ s o, I s → P s → (P (step s o) ↔ C s o))
    {s : σ} (hI : I s) (hP : P s) (ops : List ο) :
    Always step P s ops ↔ Each step C s ops := by
  have heach : ∀ (s : σ) (ops : List ο), Each step (fun _ _ => True) s ops := by
    intro s ops
    induction ops generalizing s with
    | nil => trivial
    | cons o ops ih => exact ⟨trivial, ih _⟩
  rw [← always_and_each_iff (Q := fun _ _ => True) (fun s o hs _ => hinv s o hs)
    (fun s o hs hp => (and_iff_left trivial).trans (hstep s o hs hp)) hI hP ops]
  exact (and_iff_left (heach s ops)).symm

/-- Conditions on the steps that agree under an invariant agree along the run, if the steps that
meet them keep it. -/
theorem each_iff_each {step : σ → ο → σ} {I : σ → Prop} {C D : σ → ο → Prop}
    (hinv : ∀ s o, I s → D s o → I (step s o)) (h : ∀ s o, I s → (C s o ↔ D s o)) {s : σ}
    (hI : I s) (ops : List ο) : Each step C s ops ↔ Each step D s ops := by
  rw [← always_and_each_iff (P := fun _ => True) hinv
    (fun s o hs _ => (and_iff_right trivial).trans (h s o hs)) hI trivial ops]
  have halways : Always step (fun _ => True) s ops :=
    always_of_step (fun _ _ _ => trivial) trivial ops
  exact (and_iff_right halways).symm

/-- Two conditions hold along the run together or not at all. -/
theorem each_and_iff {step : σ → ο → σ} {C D : σ → ο → Prop} {s : σ} {ops : List ο} :
    Each step (fun s o => C s o ∧ D s o) s ops ↔ Each step C s ops ∧ Each step D s ops := by
  induction ops generalizing s with
  | nil => exact (and_iff_left trivial).symm
  | cons o ops ih =>
    rw [Each, Each, Each, ih]
    exact and_and_and_comm

/-- A condition that the property of the state decides holds at each step of such a run. -/
theorem each_of_always {step : σ → ο → σ} {P : σ → Prop} {C : σ → ο → Prop}
    (hPC : ∀ s o, P s → C s o) {s : σ} {ops : List ο} (h : Always step P s ops) :
    Each step C s ops := by
  induction ops generalizing s with
  | nil => trivial
  | cons o ops ih => exact ⟨hPC s o h.1, ih h.2⟩

/-- The simulation rule: if every orderly step does to the view of the state what the event does
that it stands for, or nothing if it stands for none, the view of an orderly run is the run of the
events. -/
theorem simulation_of_each {τ ε : Type*} {step : σ → ο → σ} {step' : τ → ε → τ} {I : σ → Prop}
    {C : σ → ο → Prop} {view : σ → τ} {event : ο → Option ε}
    (hinv : ∀ s o, I s → C s o → I (step s o))
    (hstep : ∀ s o, I s → C s o → view (step s o) = (event o).elim (view s) (step' (view s)))
    {s : σ} (hs : I s) {ops : List ο} (h : Each step C s ops) :
    I (run step s ops) ∧ view (run step s ops) = run step' (view s) (ops.filterMap event) := by
  induction ops generalizing s with
  | nil => exact ⟨hs, rfl⟩
  | cons o ops ih =>
    obtain ⟨hend, hview⟩ := ih (hinv s o hs h.1) h.2
    refine ⟨hend, ?_⟩
    rw [run_cons, hview, hstep s o hs h.1, List.filterMap_cons]
    cases event o <;> rfl

/-- A step that may be refused: what holds of the state if it is, and of every result if it is not,
holds afterwards. -/
theorem getD_of_step {next : Option σ} {s : σ} {P : σ → Prop} (hnone : next = none → P s)
    (hsome : ∀ s', next = some s' → P s') : P (next.getD s) := by
  cases next with
  | none => exact hnone rfl
  | some s' => exact hsome s' rfl

/-- The invariant rule of a step relation. -/
theorem reachable_invariant {r : σ → σ → Prop} {I : σ → Prop}
    (hstep : ∀ s s', I s → r s s' → I s') {s s' : σ}
    (hreach : Relation.ReflTransGen r s s') (hs : I s) : I s' := by
  induction hreach with
  | refl => exact hs
  | tail _ hst ih => exact hstep _ _ ih hst

/-- The descent rule of a step relation: what a measure loses with each step bounds the number of
steps. -/
theorem add_le_measure {r : σ → σ → Prop} {I : σ → Prop} (measure : σ → Nat)
    (hstep : ∀ s s', I s → r s s' → I s' ∧ measure s' < measure s) {f : Nat → σ} {n : Nat}
    (hf : ∀ i < n, r (f i) (f (i + 1))) (hs : I (f 0)) :
    I (f n) ∧ measure (f n) + n ≤ measure (f 0) := by
  induction n with
  | zero => exact ⟨hs, Nat.le_refl _⟩
  | succ n ih =>
    obtain ⟨hn, hle⟩ := ih fun i hi => hf i (Nat.lt_succ_of_lt hi)
    obtain ⟨hnext, hlt⟩ := hstep _ _ hn (hf n (Nat.lt_succ_self n))
    exact ⟨hnext, by omega⟩

end Runs
