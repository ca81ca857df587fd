import Mathlib.Data.Finset.Max
import Mathlib.Data.Fintype.Basic
import Mathlib.Logic.Function.Basic
import ZeroLanCom.Library.Runs

/-!
# Threads that take and release locks

A thread is the list of its lock operations, and every operation is one atomic
step of the system. A lock is held by one thread, or shared by several. Programs
that take locks in increasing rank, and give all of them back, never leave the
threads waiting for each other. A program that does so by itself can also run
to any point of its text while no other thread holds a lock.
-/

namespace Locks

/-- How a lock is held. -/
inductive Mode where
  | exclusive
  | shared
  deriving DecidableEq, Repr

/-- One lock operation. -/
inductive LockOp (Λ : Type*) where
  | acquire (m : Mode) (l : Λ)
  | release (m : Mode) (l : Λ)
  deriving DecidableEq, Repr

variable {Λ κ : Type*} [DecidableEq κ]

/-- Two holds of one lock exclude each other unless both are shared. -/
def Conflicts (h g : Mode × Λ) : Prop := h.2 = g.2 ∧ (h.1 = .exclusive ∨ g.1 = .exclusive)

/-- What every thread has still to do, and what it holds. -/
@[ext]
structure State (κ Λ : Type*) where
  rest : κ → List (LockOp Λ)
  held : κ → List (Mode × Λ)

/-- All threads at the start of their programs. -/
def State.start (programs : κ → List (LockOp Λ)) : State κ Λ := ⟨programs, fun _ => []⟩

/-- Thread `i` goes on with `p`, holding `hs`. -/
def State.set (s : State κ Λ) (i : κ) (p : List (LockOp Λ)) (hs : List (Mode × Λ)) : State κ Λ :=
  ⟨Function.update s.rest i p, Function.update s.held i hs⟩

@[simp] theorem State.rest_set_self (s : State κ Λ) (i : κ) (p : List (LockOp Λ))
    (hs : List (Mode × Λ)) : (s.set i p hs).rest i = p := Function.update_self ..

@[simp] theorem State.held_set_self (s : State κ Λ) (i : κ) (p : List (LockOp Λ))
    (hs : List (Mode × Λ)) : (s.set i p hs).held i = hs := Function.update_self ..

/-- The program of one thread is no business of another. -/
theorem State.rest_set_of_ne (s : State κ Λ) {i j : κ} (h : j ≠ i) (p : List (LockOp Λ))
    (hs : List (Mode × Λ)) : (s.set i p hs).rest j = s.rest j := Function.update_of_ne h ..

/-- Neither are the locks it holds. -/
theorem State.held_set_of_ne (s : State κ Λ) {i j : κ} (h : j ≠ i) (p : List (LockOp Λ))
    (hs : List (Mode × Λ)) : (s.set i p hs).held j = s.held j := Function.update_of_ne h ..

@[simp] theorem State.set_set (s : State κ Λ) (i : κ) (p q : List (LockOp Λ))
    (hs gs : List (Mode × Λ)) : (s.set i p hs).set i q gs = s.set i q gs := by
  simp [set]

variable [DecidableEq Λ]

/-- Threads move one operation at a time, in any order. A lock is granted when no hold of any
thread conflicts with it. -/
inductive Step : State κ Λ → State κ Λ → Prop
  | acquire {s : State κ Λ} {m : Mode} {l : Λ} {p : List (LockOp Λ)} (i : κ)
      (hnext : s.rest i = .acquire m l :: p)
      (hfree : ∀ j, ∀ g ∈ s.held j, ¬ Conflicts (m, l) g) :
      Step s (s.set i p ((m, l) :: s.held i))
  | release {s : State κ Λ} {m : Mode} {l : Λ} {p : List (LockOp Λ)} (i : κ)
      (hnext : s.rest i = .release m l :: p) :
      Step s (s.set i p ((s.held i).erase (m, l)))

/-- All programs have run to their ends. -/
def Finished (s : State κ Λ) : Prop := ∀ i, s.rest i = []

/-- Every reachable state has finished or has a next step. -/
def DeadlockFree (programs : κ → List (LockOp Λ)) : Prop :=
  ∀ s, Relation.ReflTransGen Step (.start programs) s → Finished s ∨ ∃ s', Step s s'

/-- The next operation of the thread asks for a lock that some hold conflicts with. -/
def Waits (s : State κ Λ) (i : κ) : Prop :=
  ∃ m l p, s.rest i = .acquire m l :: p ∧ ∃ j, ∃ g ∈ s.held j, Conflicts (m, l) g

/-- When every thread has finished or waits, there is no next step. -/
theorem stuck_of_waits {s : State κ Λ} (h : ∀ i, s.rest i = [] ∨ Waits s i) :
    ¬ ∃ s', Step s s' := by
  rintro ⟨s', hstep⟩
  cases hstep with
  | acquire i hnext hfree =>
    rcases h i with hnil | ⟨m, l, p, hrest, j, g, hg, hconf⟩
    · simp [hnil] at hnext
    · rw [hrest, List.cons.injEq, LockOp.acquire.injEq] at hnext
      obtain ⟨⟨rfl, rfl⟩, rfl⟩ := hnext
      exact hfree j g hg hconf
  | release i hnext =>
    rcases h i with hnil | ⟨m, l, p, hrest, _⟩
    · simp [hnil] at hnext
    · simp [hrest] at hnext

/-- Locks are taken above everything held, from the first list of holds to the second. -/
def Ordered (rank : Λ → Nat) : List (Mode × Λ) → List (LockOp Λ) → List (Mode × Λ) → Prop
  | held, [], last => held = last
  | held, .acquire m l :: p, last =>
    (∀ g ∈ held, rank g.2 < rank l) ∧ Ordered rank ((m, l) :: held) p last
  | held, .release m l :: p, last => Ordered rank (held.erase (m, l)) p last

/-- Programs that keep the order keep it one after the other, if the second starts with the locks
that the first has left. -/
theorem Ordered.append {rank : Λ → Nat} {p q : List (LockOp Λ)} {first mid last : List (Mode × Λ)}
    (hp : Ordered rank first p mid) (hq : Ordered rank mid q last) :
    Ordered rank first (p ++ q) last := by
  induction p generalizing first with
  | nil =>
    obtain rfl : first = mid := hp
    exact hq
  | cons op p ih =>
    cases op with
    | acquire m l => exact ⟨hp.1, ih hp.2⟩
    | release m l => exact ih hp

/-- Calls that each start and end with the same holds do so one after the other. -/
theorem Ordered.flatMap {α : Type*} {rank : Λ → Nat} {body : α → List (LockOp Λ)} {as : List α}
    {held : List (Mode × Λ)} (h : ∀ a ∈ as, Ordered rank held (body a) held) :
    Ordered rank held (as.flatMap body) held := by
  induction as with
  | nil => rfl
  | cons a as ih =>
    rw [List.flatMap_cons]
    exact (h a (List.mem_cons_self ..)).append (ih fun b hb => h b (List.mem_cons_of_mem a hb))

/-- Every thread follows the order to its end, where it holds nothing. -/
def AllOrdered (rank : Λ → Nat) (s : State κ Λ) : Prop :=
  ∀ i, Ordered rank (s.held i) (s.rest i) []

/-- A thread may be given another program that keeps the order. -/
theorem allOrdered_set {rank : Λ → Nat} {s : State κ Λ} (h : AllOrdered rank s) {i : κ}
    {p : List (LockOp Λ)} {hs : List (Mode × Λ)} (hi : Ordered rank hs p []) :
    AllOrdered rank (s.set i p hs) := by
  intro j
  by_cases hj : j = i
  · subst hj
    simpa using hi
  · rw [s.rest_set_of_ne hj, s.held_set_of_ne hj]
    exact h j

/-- What is left of an ordered program after one of its operations is ordered. -/
theorem allOrdered_of_step {rank : Λ → Nat} {s s' : State κ Λ} (h : AllOrdered rank s)
    (hstep : Step s s') : AllOrdered rank s' := by
  cases hstep with
  | acquire i hnext _ =>
    have hi := h i
    rw [hnext] at hi
    exact allOrdered_set h hi.2
  | release i hnext =>
    have hi := h i
    rw [hnext] at hi
    exact allOrdered_set h hi

/-- The rank of the lock a thread asks for next. -/
def wantedRank (rank : Λ → Nat) (s : State κ Λ) (i : κ) : Nat :=
  match s.rest i with
  | .acquire _ l :: _ => rank l
  | _ => 0

/-- A thread that holds a lock is not at its end, and without a next step for anyone it asks
for a lock of higher rank. -/
theorem holder_wants_more {rank : Λ → Nat} {s : State κ Λ} (h : AllOrdered rank s)
    (hstuck : ¬ ∃ s', Step s s') {j : κ} {g : Mode × Λ} (hg : g ∈ s.held j) :
    rank g.2 < wantedRank rank s j ∧ s.rest j ≠ [] := by
  have hj := h j
  cases hrest : s.rest j with
  | nil =>
    rw [hrest] at hj
    simp only [Ordered] at hj
    simp [hj] at hg
  | cons op p =>
    cases op with
    | release m l => exact absurd ⟨_, Step.release j hrest⟩ hstuck
    | acquire m l =>
      rw [hrest] at hj
      simp only [wantedRank, hrest]
      exact ⟨hj.1 g hg, List.cons_ne_nil _ _⟩

/-- Finitely many threads that follow one order never all wait. -/
theorem deadlockFree_of_ordered [Fintype κ] (rank : Λ → Nat) {programs : κ → List (LockOp Λ)}
    (h : ∀ i, Ordered rank [] (programs i) []) : DeadlockFree programs := by
  intro s hreach
  have hordered : AllOrdered rank s :=
    Runs.reachable_invariant (I := AllOrdered rank) (fun _ _ => allOrdered_of_step) hreach h
  by_contra hcon
  obtain ⟨hunfinished, hstuck⟩ := not_or.mp hcon
  obtain ⟨i₀, hi₀⟩ := not_forall.mp hunfinished
  -- a waiting thread that asks for a lock of the highest rank
  obtain ⟨i, hi, hmax⟩ := (Finset.univ.filter fun i => s.rest i ≠ []).exists_max_image
    (wantedRank rank s) ⟨i₀, by simpa using hi₀⟩
  have hi : s.rest i ≠ [] := (Finset.mem_filter.mp hi).2
  cases hrest : s.rest i with
  | nil => exact hi hrest
  | cons op p =>
    cases op with
    | release m l => exact hstuck ⟨_, .release i hrest⟩
    | acquire m l =>
      have hwait : ¬ ∀ j, ∀ g ∈ s.held j, ¬ Conflicts (m, l) g :=
        fun hfree => hstuck ⟨_, .acquire i hrest hfree⟩
      push Not at hwait
      obtain ⟨j, g, hg, hconf⟩ := hwait
      obtain ⟨hrank, hj⟩ := holder_wants_more hordered hstuck hg
      have hle := hmax j (by simpa using hj)
      have hsame : l = g.2 := hconf.1
      have hwanted : wantedRank rank s i = rank g.2 := by
        rw [← hsame]
        simp [wantedRank, hrest]
      omega

/-- While nobody else holds a lock, a thread can run an ordered part of its program. -/
theorem run_alone {rank : Λ → Nat} {i : κ} {p q : List (LockOp Λ)} {s : State κ Λ}
    {last : List (Mode × Λ)} (hothers : ∀ j, j ≠ i → s.held j = []) (hrest : s.rest i = p ++ q)
    (hp : Ordered rank (s.held i) p last) :
    Relation.ReflTransGen Step s (s.set i q last) := by
  induction p generalizing s with
  | nil =>
    have hheld : s.held i = last := hp
    have hsame : s.set i q last = s := by
      rw [List.nil_append] at hrest
      rw [State.set, ← hheld, ← hrest, Function.update_eq_self, Function.update_eq_self]
    rw [hsame]
  | cons op p ih =>
    have hnext : ∀ hs, ∀ j, j ≠ i → (s.set i (p ++ q) hs).held j = [] := fun hs j hj => by
      rw [s.held_set_of_ne hj, hothers j hj]
    cases op with
    | acquire m l =>
      have hfree : ∀ j, ∀ g ∈ s.held j, ¬ Conflicts (m, l) g := by
        intro j g hg hconf
        by_cases hj : j = i
        · subst hj
          have hlt : rank g.2 < rank l := hp.1 g hg
          have hsame : l = g.2 := hconf.1
          rw [hsame] at hlt
          exact lt_irrefl _ hlt
        · rw [hothers j hj] at hg
          exact List.not_mem_nil hg
      have htail := ih (hnext ((m, l) :: s.held i)) (by simp) (by simpa using hp.2)
      rw [State.set_set] at htail
      exact .head (.acquire i hrest hfree) htail
    | release m l =>
      have hp' : Ordered rank ((s.held i).erase (m, l)) p last := hp
      have htail := ih (hnext ((s.held i).erase (m, l))) (by simp) (by simpa using hp')
      rw [State.set_set] at htail
      exact .head (.release i hrest) htail

end Locks
