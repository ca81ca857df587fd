import Mathlib.Algebra.BigOperators.Group.Finset.Piecewise
import Mathlib.Algebra.Order.BigOperators.Group.Finset
import Mathlib.Algebra.Order.Group.Multiset
import Mathlib.Data.Multiset.Range
import Mathlib.Tactic.Abel
import ZeroLanCom.Utils.ThreadPool

/-!
# What becomes of a task

The tasks of a pool are counted three times: in the queue, in the hands of the
workers, and among those accounted for. No step of any thread changes the sum
except a push.
-/

namespace ZeroLanCom

/-- The task in the hands of a worker. -/
def WorkerPhase.held (phase : WorkerPhase) : Multiset Nat :=
  match phase.task with
  | some k => {k}
  | none => 0

/-- The same, once its execution has ended. -/
def WorkerPhase.ran : WorkerPhase → Multiset Nat
  | .executed k => {k}
  | _ => 0

@[simp] theorem WorkerPhase.held_woken (phase : WorkerPhase) : phase.woken.held = phase.held := by
  cases phase <;> rfl

@[simp] theorem WorkerPhase.ran_woken (phase : WorkerPhase) : phase.woken.ran = phase.ran := by
  cases phase <;> rfl

/-- A worker has the task of its phase in hand, and no other. -/
theorem WorkerPhase.mem_held {phase : WorkerPhase} {k : Nat} :
    k ∈ phase.held ↔ phase.task = some k := by
  cases phase <;> simp [held, task, eq_comm]

/-- What it has executed it still has in hand. -/
theorem WorkerPhase.ran_le_held (phase : WorkerPhase) : phase.ran ≤ phase.held := by
  cases phase <;> simp [ran, held, task]

/-- It has one task in hand at most. -/
theorem WorkerPhase.card_held (phase : WorkerPhase) :
    phase.held.card = if phase.task.isSome then 1 else 0 := by
  cases phase <;> rfl

namespace Pool

/-- What all the workers together have of something. -/
def total {n : Nat} {M : Type*} [AddCommMonoid M] (f : WorkerPhase → M)
    (workers : Fin n → WorkerPhase) : M := ∑ w, f (workers w)

section Total

variable {n : Nat} {M : Type*} [AddCommMonoid M] {f : WorkerPhase → M}
  {workers : Fin n → WorkerPhase}

/-- One worker moves from one phase to another. -/
theorem total_update (f : WorkerPhase → M) (workers : Fin n → WorkerPhase) (w : Fin n)
    (phase : WorkerPhase) :
    total f (Function.update workers w phase) + f (workers w) = total f workers + f phase := by
  have hupdate : (fun v => f (Function.update workers w phase v)) =
      Function.update (fun v => f (workers v)) w (f phase) :=
    funext fun v => Function.apply_update (fun _ => f) workers w phase v
  have hsplit := Finset.add_sum_erase Finset.univ (fun v => f (workers v)) (Finset.mem_univ w)
  rw [total, total, hupdate, Finset.sum_update_of_mem (Finset.mem_univ w), ← hsplit,
    Finset.sdiff_singleton_eq_erase]
  abel

/-- Who had nothing before brings in what it has now. -/
theorem total_update_of_zero {w : Fin n} {phase : WorkerPhase} (h : f (workers w) = 0) :
    total f (Function.update workers w phase) = total f workers + f phase := by
  have hmoved := total_update f workers w phase
  rwa [h, add_zero] at hmoved

/-- Who has as much as before leaves the total as it was. -/
theorem total_update_of_eq [IsRightCancelAdd M] {w : Fin n} {phase : WorkerPhase}
    (h : f (workers w) = f phase) :
    total f (Function.update workers w phase) = total f workers := by
  have hmoved := total_update f workers w phase
  rw [h] at hmoved
  exact add_right_cancel hmoved

/-- The workers together have what one of them has. -/
theorem mem_total {f : WorkerPhase → Multiset Nat} {k : Nat} :
    k ∈ total f workers ↔ ∃ w, k ∈ f (workers w) := by
  simp [total, Multiset.mem_sum]

end Total

variable {κ : Type*} {n : Nat} {s s' : Pool κ n}

/-- The tasks in the hands of the workers. -/
def inHand (s : Pool κ n) : Multiset Nat := total WorkerPhase.held s.workers

/-- Those whose execution has ended. -/
def ranInHand (s : Pool κ n) : Multiset Nat := total WorkerPhase.ran s.workers

/-- The queue continues where the dequeued tasks end, what was dequeued is in hand or accounted
for, and the counter counts what is in hand. -/
structure Balanced (s : Pool κ n) : Prop where
  fifo : s.dequeued ++ s.tasks = List.range s.pushed
  account : (s.dequeued : Multiset Nat) = s.inHand + s.finished
  ran : (s.executions : Multiset Nat) = s.ranInHand + s.finished
  active : s.activeTasks = s.inHand.card

/-- At the start there is nothing to account for. -/
theorem balanced_started : (started : Pool κ n).Balanced := by
  have hhand : (started : Pool κ n).inHand = 0 := by
    change ∑ _w : Fin n, (0 : Multiset Nat) = 0
    exact Finset.sum_const_zero
  have hran : (started : Pool κ n).ranInHand = 0 := by
    change ∑ _w : Fin n, (0 : Multiset Nat) = 0
    exact Finset.sum_const_zero
  refine ⟨rfl, ?_, ?_, ?_⟩
  · rw [hhand]
    rfl
  · rw [hran]
    rfl
  · rw [hhand]
    rfl

/-- The worker has dequeued the task, and has not accounted for it. -/
def Executes (s : Pool κ n) (w : Fin n) (k : Nat) : Prop := (s.workers w).task = some k

/-- A task is in hand if some worker executes it. -/
theorem mem_inHand {k : Nat} : k ∈ s.inHand ↔ ∃ w, s.Executes w k := by
  rw [inHand, mem_total]
  exact exists_congr fun w => WorkerPhase.mem_held

/-- Tasks that have been executed are among those in hand. -/
theorem ranInHand_le_inHand (s : Pool κ n) : s.ranInHand ≤ s.inHand := by
  rw [ranInHand, inHand, total, total]
  exact Finset.sum_le_sum fun w _ => (s.workers w).ran_le_held

/-- Two workers with one task have it twice. -/
theorem two_le_count_inHand {v w : Fin n} {k : Nat} (hne : v ≠ w) (hv : s.Executes v k)
    (hw : s.Executes w k) : 2 ≤ s.inHand.count k := by
  have hheld : ∀ u, s.Executes u k → (s.workers u).held = {k} := by
    intro u hu
    have htask : (s.workers u).task = some k := hu
    rw [WorkerPhase.held, htask]
  have hpair : ∑ u ∈ {v, w}, (s.workers u).held ≤ s.inHand :=
    Finset.sum_le_sum_of_subset (Finset.subset_univ _)
  rw [Finset.sum_pair hne, hheld v hv, hheld w hw] at hpair
  have hcount := Multiset.count_le_of_le k hpair
  rwa [Multiset.count_add, Multiset.count_singleton_self] at hcount

namespace Balanced

/-- A pushed task is once in what was dequeued or once in what was not. -/
theorem count_pushed (h : s.Balanced) {k : Nat} (hk : k < s.pushed) :
    s.dequeued.count k + s.tasks.count k = 1 := by
  rw [← List.count_append, h.fifo]
  exact List.count_eq_one_of_mem List.nodup_range (List.mem_range.mpr hk)

/-- A dequeued task is in hand or finished, as often as it was dequeued. -/
theorem count_dequeued (h : s.Balanced) (k : Nat) :
    s.dequeued.count k = s.inHand.count k + s.finished.count k := by
  have hcount := congrArg (Multiset.count k) h.account
  rwa [Multiset.count_add, Multiset.coe_count, Multiset.coe_count] at hcount

/-- Only pushed tasks are dequeued, -/
theorem lt_of_dequeued (h : s.Balanced) {k : Nat} (hk : 0 < s.dequeued.count k) :
    k < s.pushed := by
  rw [← List.mem_range, ← h.fifo]
  exact List.mem_append_left _ (List.count_pos_iff.mp hk)

/-- and so only pushed tasks are executed. -/
theorem lt_of_executes (h : s.Balanced) {w : Fin n} {k : Nat} (hw : s.Executes w k) :
    k < s.pushed := by
  apply h.lt_of_dequeued
  have hpos := Multiset.count_pos.mpr (mem_inHand.mpr ⟨w, hw⟩)
  have hdequeued := h.count_dequeued k
  omega

/-- A task has been executed as often as it is about to be finished or is. -/
theorem count_executions (h : s.Balanced) (k : Nat) :
    s.executions.count k = s.ranInHand.count k + s.finished.count k := by
  have hcount := congrArg (Multiset.count k) h.ran
  rwa [Multiset.count_add, Multiset.coe_count, Multiset.coe_count] at hcount

/-- What nobody has in hand has been executed as often as it is finished. -/
theorem count_executions_of_not_executes (h : s.Balanced) {k : Nat}
    (hnone : ∀ w, ¬ s.Executes w k) : s.executions.count k = s.finished.count k := by
  have hhand : k ∉ s.inHand := fun hmem => (mem_inHand.mp hmem).elim hnone
  have hran : k ∉ s.ranInHand := fun hmem => hhand (Multiset.mem_of_le s.ranInHand_le_inHand hmem)
  rw [h.count_executions, Multiset.count_eq_zero_of_notMem hran, Nat.zero_add]

/-- With an empty queue and nothing in hand, everything that was pushed is finished. -/
theorem finished_of_isDone (h : s.Balanced) (hdone : s.IsDone) {k : Nat} (hk : k < s.pushed) :
    k ∈ s.finished := by
  have hhand : s.inHand = 0 := Multiset.card_eq_zero.mp (h.active.symm.trans hdone.2)
  have hpushed := h.count_pushed hk
  rw [h.count_dequeued, hhand, hdone.1, Multiset.count_zero, List.count_nil] at hpushed
  exact List.count_pos_iff.mp (by omega)

end Balanced

/-- Neither the clients nor the phases between two tasks matter. -/
theorem Balanced.of_phases (h : s.Balanced) {workers : Fin n → WorkerPhase}
    (hheld : total WorkerPhase.held workers = s.inHand)
    (hran : total WorkerPhase.ran workers = s.ranInHand) (isRunning : Bool)
    (clients : κ → ClientPhase) :
    Balanced { s with isRunning := isRunning, workers := workers, clients := clients } :=
  ⟨h.fifo, by rw [inHand, hheld]; exact h.account, by rw [ranInHand, hran]; exact h.ran,
    by rw [inHand, hheld]; exact h.active⟩

/-- A worker without a task moves to another phase without one. -/
theorem Balanced.setWorker (h : s.Balanced) {w : Fin n} {phase : WorkerPhase}
    (hheld : (s.workers w).held = phase.held) (hran : (s.workers w).ran = phase.ran) :
    (s.setWorker w phase).Balanced :=
  h.of_phases (total_update_of_eq hheld) (total_update_of_eq hran) s.isRunning s.clients

/-- A wake-up hands out no task. -/
theorem Balanced.wakeWorker (h : s.Balanced) (w : Fin n) : (s.wakeWorker w).Balanced :=
  h.setWorker (WorkerPhase.held_woken _).symm (WorkerPhase.ran_woken _).symm

/-- A task leaves the queue for the hands of a worker. -/
theorem Balanced.take (h : s.Balanced) {w : Fin n} {k : Nat} {tasks : List Nat}
    (htesting : s.workers w = .testing) (htasks : s.tasks = k :: tasks) :
    Balanced { s with
      workers := Function.update s.workers w (.executing k)
      tasks := tasks
      activeTasks := s.activeTasks + 1
      dequeued := s.dequeued ++ [k] } := by
  have hhand : total WorkerPhase.held (Function.update s.workers w (.executing k)) =
      s.inHand + {k} := total_update_of_zero (by rw [htesting]; rfl)
  have hran : total WorkerPhase.ran (Function.update s.workers w (.executing k)) = s.ranInHand :=
    total_update_of_eq (by rw [htesting]; rfl)
  refine ⟨?_, ?_, ?_, ?_⟩
  · have hfifo := h.fifo
    rw [htasks] at hfifo
    change s.dequeued ++ [k] ++ tasks = List.range s.pushed
    rw [List.append_assoc, List.singleton_append, hfifo]
  · change ((s.dequeued ++ [k] : List Nat) : Multiset Nat) = total WorkerPhase.held _ + s.finished
    rw [hhand, ← Multiset.coe_add, h.account, Multiset.coe_singleton]
    abel
  · change (s.executions : Multiset Nat) = total WorkerPhase.ran _ + s.finished
    rw [hran, h.ran]
  · change s.activeTasks + 1 = (total WorkerPhase.held _).card
    rw [hhand, Multiset.card_add, Multiset.card_singleton, h.active]

/-- It is executed there. -/
theorem Balanced.execute (h : s.Balanced) {w : Fin n} {k : Nat}
    (hexecuting : s.workers w = .executing k) :
    Balanced { s with
      workers := Function.update s.workers w (.executed k)
      executions := s.executions ++ [k] } := by
  have hhand : total WorkerPhase.held (Function.update s.workers w (.executed k)) = s.inHand :=
    total_update_of_eq (by rw [hexecuting]; rfl)
  have hran : total WorkerPhase.ran (Function.update s.workers w (.executed k)) =
      s.ranInHand + {k} := total_update_of_zero (by rw [hexecuting]; rfl)
  refine ⟨h.fifo, ?_, ?_, ?_⟩
  · change (s.dequeued : Multiset Nat) = total WorkerPhase.held _ + s.finished
    rw [hhand, h.account]
  · change ((s.executions ++ [k] : List Nat) : Multiset Nat) = total WorkerPhase.ran _ + s.finished
    rw [hran, ← Multiset.coe_add, h.ran, Multiset.coe_singleton]
    abel
  · change s.activeTasks = (total WorkerPhase.held _).card
    rw [hhand, h.active]

/-- And it is finished when the counter goes down. -/
theorem Balanced.decrement (h : s.Balanced) {w : Fin n} {k : Nat}
    (hexecuted : s.workers w = .executed k) :
    Balanced { s with
      workers := Function.update s.workers w .notifying
      activeTasks := s.activeTasks - 1
      finished := s.finished ++ [k] } := by
  have hhand := total_update WorkerPhase.held s.workers w .notifying
  have hran := total_update WorkerPhase.ran s.workers w .notifying
  rw [hexecuted] at hhand hran
  change total WorkerPhase.held _ + {k} = s.inHand + 0 at hhand
  change total WorkerPhase.ran _ + {k} = s.ranInHand + 0 at hran
  rw [add_zero] at hhand hran
  refine ⟨h.fifo, ?_, ?_, ?_⟩
  · change (s.dequeued : Multiset Nat) =
      total WorkerPhase.held _ + ((s.finished ++ [k] : List Nat) : Multiset Nat)
    rw [h.account, ← hhand, ← Multiset.coe_add, Multiset.coe_singleton]
    abel
  · change (s.executions : Multiset Nat) =
      total WorkerPhase.ran _ + ((s.finished ++ [k] : List Nat) : Multiset Nat)
    rw [h.ran, ← hran, ← Multiset.coe_add, Multiset.coe_singleton]
    abel
  · change s.activeTasks - 1 = (total WorkerPhase.held _).card
    rw [h.active, ← hhand, Multiset.card_add, Multiset.card_singleton, Nat.add_sub_cancel]

variable [DecidableEq κ]

/-- Clients that wait, stop or go on have no tasks. -/
theorem Balanced.setClient (h : s.Balanced) (c : κ) (phase : ClientPhase) :
    (s.setClient c phase).Balanced := h.of_phases rfl rfl s.isRunning _

/-- A push appends the next task to the queue. -/
theorem Balanced.push (h : s.Balanced) (c : κ) (phase : ClientPhase) :
    Balanced { s with
      clients := Function.update s.clients c phase
      tasks := s.tasks ++ [s.pushed]
      pushed := s.pushed + 1 } := by
  refine ⟨?_, h.account, h.ran, h.active⟩
  change s.dequeued ++ (s.tasks ++ [s.pushed]) = List.range (s.pushed + 1)
  rw [← List.append_assoc, h.fifo, List.range_succ]

/-- Every step keeps the balance. -/
theorem Balanced.moves (h : s.Balanced) {a : PoolAct κ n} (hmoves : Moves s a s') :
    s'.Balanced := by
  cases hmoves with
  | accept => exact h.setClient ..
  | reject => exact h
  | push => exact h.push ..
  | @notifyOne _ woken =>
    cases woken with
    | none => exact h.setClient ..
    | some w => exact (h.wakeWorker w).setClient ..
  | wait => exact h.setClient ..
  | done => exact h.setClient ..
  | sleep => exact h.setClient ..
  | stop => exact h.setClient ..
  | stopped => exact h
  | lower => exact h.of_phases rfl rfl false _
  | notifyAll =>
    refine h.of_phases ?_ ?_ s.isRunning _
    · simp only [total, WorkerPhase.held_woken, inHand]
    · simp only [total, WorkerPhase.ran_woken, ranInHand]
  | join => exact h.setClient ..
  | clear => exact h.setClient ..
  | rest htesting => exact h.setWorker (by rw [htesting]; rfl) (by rw [htesting]; rfl)
  | exit htesting => exact h.setWorker (by rw [htesting]; rfl) (by rw [htesting]; rfl)
  | take htesting htasks => exact h.take htesting htasks
  | execute hexecuting => exact h.execute hexecuting
  | decrement hexecuted => exact h.decrement hexecuted
  | @notifyDone w woken hnotifying =>
    cases woken with
    | none => exact h.setWorker (by rw [hnotifying]; rfl) (by rw [hnotifying]; rfl)
    | some c =>
      have hwoken : (s.wakeClient c).Balanced := h.setClient ..
      have hsame : (s.wakeClient c).workers w = .notifying := hnotifying
      exact hwoken.setWorker (by rw [hsame]; rfl) (by rw [hsame]; rfl)
  | wakeWorker => exact h.wakeWorker _
  | wakeClient => exact h.setClient ..

variable [Fintype κ]

/-- An action that is not possible changes nothing, so every action keeps the balance. -/
theorem balanced_next (h : s.Balanced) (a : PoolAct κ n) : (s.next a).Balanced :=
  next_of_moves h fun _ => h.moves

/-- Every run keeps it. -/
theorem balanced_run (acts : List (PoolAct κ n)) : (Runs.run next started acts).Balanced :=
  Runs.run_of_step (I := Balanced) (fun _ a h => balanced_next h a) balanced_started acts

/-- Everything that has been pushed is in the queue, or with exactly one worker, or has been
executed once; tasks are dequeued in the order of their pushes; the counter counts the workers
between dequeue and decrement, and never goes below zero; and whoever returns from `wait` leaves no
task behind that is not finished. -/
structure Conserved (s : Pool κ n) : Prop where
  place : ∀ k < s.pushed,
    (s.tasks.count k = 1 ∧ (∀ w, ¬ s.Executes w k) ∧ k ∉ s.finished ∧ k ∉ s.executions) ∨
      (k ∉ s.tasks ∧ (∃! w, s.Executes w k) ∧ k ∉ s.finished) ∨
      (k ∉ s.tasks ∧ (∀ w, ¬ s.Executes w k) ∧ s.finished.count k = 1 ∧ s.executions.count k = 1)
  fifo : s.dequeued ++ s.tasks = List.range s.pushed
  active : s.activeTasks = (Finset.univ.filter fun w => (s.workers w).task.isSome).card
  noUnderflow : ∀ w k, s.workers w = .executed k → 0 < s.activeTasks
  waits : ∀ c s', s.step (.check c) = some s' → s'.clients c = .idle →
    ∀ k < s.pushed, k ∈ s.finished

/-- Whatever is balanced conserves its tasks. -/
theorem Balanced.conserved (h : s.Balanced) : s.Conserved where
  place k hk := by
    have hpushed := h.count_pushed hk
    have hdequeued := h.count_dequeued k
    by_cases hqueued : k ∈ s.tasks
    · left
      have hpos := List.count_pos_iff.mpr hqueued
      have hhand : ∀ w, ¬ s.Executes w k := fun w hw =>
        absurd (Multiset.count_pos.mpr (mem_inHand.mpr ⟨w, hw⟩)) (by omega)
      have hexecutions := h.count_executions_of_not_executes hhand
      exact ⟨by omega, hhand, List.count_eq_zero.mp (by omega), List.count_eq_zero.mp (by omega)⟩
    · right
      have hzero := List.count_eq_zero.mpr hqueued
      by_cases hhand : ∃ w, s.Executes w k
      · left
        obtain ⟨w, hw⟩ := hhand
        have hpos := Multiset.count_pos.mpr (mem_inHand.mpr ⟨w, hw⟩)
        refine ⟨hqueued, ⟨w, hw, fun v hv => ?_⟩, List.count_eq_zero.mp (by omega)⟩
        by_contra hne
        have htwo := two_le_count_inHand hne hv hw
        omega
      · right
        have hnone := not_exists.mp hhand
        have hnot : k ∉ s.inHand := fun hmem => hhand (mem_inHand.mp hmem)
        have hcount := Multiset.count_eq_zero_of_notMem hnot
        have hexecutions := h.count_executions_of_not_executes hnone
        exact ⟨hqueued, hnone, by omega, by omega⟩
  fifo := h.fifo
  active := by
    rw [h.active, inHand, total, Multiset.card_sum, Finset.card_filter]
    exact Finset.sum_congr rfl fun w _ => (s.workers w).card_held
  noUnderflow w k hexecuted := by
    rw [h.active]
    exact Multiset.card_pos_iff_exists_mem.mpr
      ⟨k, mem_inHand.mpr ⟨w, by rw [Executes, hexecuted]; rfl⟩⟩
  waits c s' hstep hidle k hk := by
    cases step_cases hstep with
    | done _ hdone => exact h.finished_of_isDone hdone hk
    | sleep => simp [Pool.setClient] at hidle

/-- Whatever the threads do, tasks are neither lost nor run twice. -/
theorem tasks_conserved (acts : List (PoolAct κ n)) :
    Runs.Always next Conserved (started : Pool κ n) acts :=
  Runs.always_of_invariant (I := Balanced) (fun _ a h => balanced_next h a) (fun _ h => h.conserved)
    balanced_started acts

end Pool

end ZeroLanCom
