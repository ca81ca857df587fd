import Mathlib.Data.Fintype.Basic
import Mathlib.Logic.Function.Basic
import ZeroLanCom.Library.Runs
import ZeroLanCom.Utils.Event

/-!
# The thread pool

`n` workers run `workerLoop`, and any number of client threads call `enqueue`,
`wait` and `stop`. A critical section is one step, and so is each access outside
of one. A thread that sleeps on a condition variable moves on only after a wake-up,
which `notify_one` gives to one sleeper of the scheduler's choice. Tasks go by the
number of their push.
-/

namespace ZeroLanCom

/-- Where a worker is in `workerLoop`. -/
inductive WorkerPhase where
  /-- It takes the mutex next, and tests the predicate of `cv_.wait`. -/
  | testing
  /-- In `cv_.wait`, with no wake-up delivered. -/
  | asleep
  | executing (task : Nat)
  /-- Behind the `try` block, whichever way the task ended. -/
  | executed (task : Nat)
  /-- Behind the decrement of `active_tasks_`. -/
  | notifying
  | exited
  deriving DecidableEq, Repr

/-- The task the worker has dequeued and not accounted for. -/
def WorkerPhase.task : WorkerPhase → Option Nat
  | .executing k => some k
  | .executed k => some k
  | _ => none

/-- With a wake-up delivered, if it sleeps. -/
def WorkerPhase.woken : WorkerPhase → WorkerPhase
  | .asleep => .testing
  | phase => phase

/-- Where a client is in its call. A `wait` call remembers how many tasks had been pushed when it
was made. -/
inductive ClientPhase where
  | idle
  /-- In `enqueue`, behind the test of `is_running_`. -/
  | accepted
  /-- In `enqueue`, before `cv_.notify_one`. -/
  | pushed
  /-- In `wait`. It takes the mutex next, and tests the predicate of `cv_done_.wait`. -/
  | checking (since : Nat)
  /-- In `cv_done_.wait`, with no wake-up delivered. -/
  | waiting (since : Nat)
  /-- In `stop`, behind the test of `is_running_`. -/
  | stopping
  /-- In `stop`, before `cv_.notify_all`. -/
  | lowered
  /-- In `stop`, with that many workers joined. -/
  | joining (joined : Nat)
  deriving DecidableEq, Repr

/-- In `cv_done_.wait`. -/
def ClientPhase.isWaiting : ClientPhase → Bool
  | .waiting _ => true
  | _ => false

/-- In a `wait` that has not returned, called behind that many pushes. -/
def ClientPhase.pending : ClientPhase → Option Nat
  | .checking since => some since
  | .waiting since => some since
  | _ => none

/-- With a wake-up delivered, if it sleeps. -/
def ClientPhase.woken : ClientPhase → ClientPhase
  | .waiting since => .checking since
  | phase => phase

/-- Only who is in `wait` can sleep in it. -/
theorem ClientPhase.isWaiting_of_pending {phase : ClientPhase} (h : phase.pending = none) :
    phase.isWaiting = false := by
  cases phase with
  | waiting => cases h
  | _ => rfl

/-- The pool with its threads; the last four fields only record what has happened. -/
structure Pool (κ : Type*) (n : Nat) where
  isRunning : Bool
  tasks : List Nat
  activeTasks : Nat
  workers : Fin n → WorkerPhase
  clients : κ → ClientPhase
  pushed : Nat
  dequeued : List Nat
  executions : List Nat
  finished : List Nat

/-- What a thread does next. -/
inductive PoolAct (κ : Type*) (n : Nat) where
  | enqueue (c : κ)
  | push (c : κ)
  | notifyOne (c : κ) (woken : Option (Fin n))
  | wait (c : κ)
  | check (c : κ)
  | stop (c : κ)
  | lower (c : κ)
  | notifyAll (c : κ)
  | join (c : κ)
  | take (w : Fin n)
  | execute (w : Fin n) (thrown : Option Exn)
  | decrement (w : Fin n)
  | notifyDone (w : Fin n) (woken : Option κ)
  /-- Both condition variables may wake a sleeper without a notification. -/
  | wakeWorker (w : Fin n)
  | wakeClient (c : κ)

namespace Pool

variable {κ : Type*} {n : Nat}

/-- `ThreadPool::ThreadPool`: no thread has been created. -/
def constructed : Pool κ n := ⟨false, [], 0, fun _ => .exited, fun _ => .idle, 0, [], [], []⟩

/-- `ThreadPool::start`. -/
def start (s : Pool κ n) : Pool κ n :=
  if s.isRunning then s else { s with isRunning := true, workers := fun _ => .testing }

/-- A pool whose workers have been started. -/
def started : Pool κ n := constructed.start

/-- One worker moves on. -/
def setWorker (s : Pool κ n) (w : Fin n) (phase : WorkerPhase) : Pool κ n :=
  { s with workers := Function.update s.workers w phase }

/-- One client moves on. -/
def setClient [DecidableEq κ] (s : Pool κ n) (c : κ) (phase : ClientPhase) : Pool κ n :=
  { s with clients := Function.update s.clients c phase }

/-- A wake-up of a worker. -/
def wakeWorker (s : Pool κ n) (w : Fin n) : Pool κ n := s.setWorker w (s.workers w).woken

/-- A wake-up of a client. -/
def wakeClient [DecidableEq κ] (s : Pool κ n) (c : κ) : Pool κ n :=
  s.setClient c (s.clients c).woken

/-- `notify_one` wakes one sleeper if there is one. -/
def Notifies {θ : Type*} (asleep : θ → Bool) : Option θ → Prop
  | some t => asleep t = true
  | none => ∀ t, asleep t = false

instance {θ : Type*} [Fintype θ] (asleep : θ → Bool) (woken : Option θ) :
    Decidable (Notifies asleep woken) :=
  match woken with
  | some t => inferInstanceAs (Decidable (asleep t = true))
  | none => inferInstanceAs (Decidable (∀ t, asleep t = false))

/-- `cv_.notify_one`. -/
def NotifiesWorker (s : Pool κ n) (woken : Option (Fin n)) : Prop :=
  Notifies (fun w => decide (s.workers w = .asleep)) woken

/-- `cv_done_.notify_one`. -/
def NotifiesClient (s : Pool κ n) (woken : Option κ) : Prop :=
  Notifies (fun c => (s.clients c).isWaiting) woken

instance (s : Pool κ n) (woken : Option (Fin n)) : Decidable (s.NotifiesWorker woken) :=
  inferInstanceAs (Decidable (Notifies _ woken))

instance [Fintype κ] (s : Pool κ n) (woken : Option κ) : Decidable (s.NotifiesClient woken) :=
  inferInstanceAs (Decidable (Notifies _ woken))

/-- The critical section at the head of `workerLoop`, from the predicate on. -/
def takeTask (s : Pool κ n) (w : Fin n) : Pool κ n :=
  match s.tasks with
  | [] => s.setWorker w (if s.isRunning then .asleep else .exited)
  | k :: tasks =>
    { s with
      workers := Function.update s.workers w (.executing k)
      tasks := tasks
      activeTasks := s.activeTasks + 1
      dequeued := s.dequeued ++ [k] }

/-- The predicate of `cv_done_.wait`. -/
def IsDone (s : Pool κ n) : Prop := s.tasks = [] ∧ s.activeTasks = 0

instance (s : Pool κ n) : Decidable s.IsDone := inferInstanceAs (Decidable (_ ∧ _))

/-- What any step does to one worker, and which steps are its own. -/
inductive WorkerMoves (s : Pool κ n) (a : PoolAct κ n) (w : Fin n) :
    WorkerPhase → WorkerPhase → Prop
  | stay (phase : WorkerPhase) : WorkerMoves s a w phase phase
  | wake : WorkerMoves s a w .asleep .testing
  | rest (ha : a = .take w) (hempty : s.tasks = []) (hrunning : s.isRunning = true) :
    WorkerMoves s a w .testing .asleep
  | exit (ha : a = .take w) (hempty : s.tasks = []) (hstopped : s.isRunning = false) :
    WorkerMoves s a w .testing .exited
  | take (ha : a = .take w) {k : Nat} {tasks : List Nat} (htasks : s.tasks = k :: tasks) :
    WorkerMoves s a w .testing (.executing k)
  | execute {thrown : Option Exn} (ha : a = .execute w thrown) (k : Nat) :
    WorkerMoves s a w (.executing k) (.executed k)
  | decrement (ha : a = .decrement w) (k : Nat) : WorkerMoves s a w (.executed k) .notifying
  | again {woken : Option κ} (ha : a = .notifyDone w woken) :
    WorkerMoves s a w .notifying .testing

/-- What any step does to one client, and which steps are its own. -/
inductive ClientMoves (s : Pool κ n) (a : PoolAct κ n) (c : κ) : ClientPhase → ClientPhase → Prop
  | stay (phase : ClientPhase) : ClientMoves s a c phase phase
  | accept (ha : a = .enqueue c) (hrunning : s.isRunning = true) :
    ClientMoves s a c .idle .accepted
  | push (ha : a = .push c) : ClientMoves s a c .accepted .pushed
  | notifyOne {woken : Option (Fin n)} (ha : a = .notifyOne c woken) :
    ClientMoves s a c .pushed .idle
  | wait (ha : a = .wait c) : ClientMoves s a c .idle (.checking s.pushed)
  | done (ha : a = .check c) (since : Nat) (hdone : s.IsDone) :
    ClientMoves s a c (.checking since) .idle
  | sleep (ha : a = .check c) (since : Nat) (hbusy : ¬ s.IsDone) :
    ClientMoves s a c (.checking since) (.waiting since)
  | wake (since : Nat) : ClientMoves s a c (.waiting since) (.checking since)
  | stop (ha : a = .stop c) (hrunning : s.isRunning = true) : ClientMoves s a c .idle .stopping
  | lower (ha : a = .lower c) : ClientMoves s a c .stopping .lowered
  | notifyAll (ha : a = .notifyAll c) : ClientMoves s a c .lowered (.joining 0)
  | join (ha : a = .join c) {i : Nat} (hi : i < n) (hexited : s.workers ⟨i, hi⟩ = .exited) :
    ClientMoves s a c (.joining i) (.joining (i + 1))
  | clear (ha : a = .join c) {i : Nat} (hi : n ≤ i) : ClientMoves s a c (.joining i) .idle

/-- Any action may wake a worker. -/
theorem WorkerMoves.woken (s : Pool κ n) (a : PoolAct κ n) (w : Fin n) (phase : WorkerPhase) :
    WorkerMoves s a w phase phase.woken := by
  cases phase with
  | asleep => exact .wake
  | _ => exact .stay _

/-- And any action may wake a client. -/
theorem ClientMoves.woken (s : Pool κ n) (a : PoolAct κ n) (c : κ) (phase : ClientPhase) :
    ClientMoves s a c phase phase.woken := by
  cases phase with
  | waiting since => exact .wake since
  | _ => exact .stay _

/-- A move of one worker is none of the others. -/
theorem WorkerMoves.update {s : Pool κ n} {a : PoolAct κ n} {v : Fin n} {phase : WorkerPhase}
    (h : WorkerMoves s a v (s.workers v) phase) (w : Fin n) :
    WorkerMoves s a w (s.workers w) (Function.update s.workers v phase w) := by
  by_cases hw : w = v
  · rw [hw, Function.update_self]
    exact h
  · rw [Function.update_of_ne hw]
    exact .stay _

variable [DecidableEq κ]

/-- One step of one thread, if it can make it. -/
def step [Fintype κ] (s : Pool κ n) : PoolAct κ n → Option (Pool κ n)
  | .enqueue c =>
    if s.clients c = .idle then some (if s.isRunning then s.setClient c .accepted else s)
    else none
  | .push c =>
    if s.clients c = .accepted then
      some { s with
        clients := Function.update s.clients c .pushed
        tasks := s.tasks ++ [s.pushed]
        pushed := s.pushed + 1 }
    else none
  | .notifyOne c woken =>
    if s.clients c = .pushed ∧ s.NotifiesWorker woken then
      some ((woken.elim s s.wakeWorker).setClient c .idle)
    else none
  | .wait c => if s.clients c = .idle then some (s.setClient c (.checking s.pushed)) else none
  | .check c =>
    match s.clients c with
    | .checking since => some (s.setClient c (if s.IsDone then .idle else .waiting since))
    | _ => none
  | .stop c =>
    if s.clients c = .idle then some (if s.isRunning then s.setClient c .stopping else s)
    else none
  | .lower c =>
    if s.clients c = .stopping then
      some { s with clients := Function.update s.clients c .lowered, isRunning := false }
    else none
  | .notifyAll c =>
    if s.clients c = .lowered then
      some { s with
        clients := Function.update s.clients c (.joining 0)
        workers := fun w => (s.workers w).woken }
    else none
  | .join c =>
    match s.clients c with
    | .joining i =>
      if h : i < n then
        if s.workers ⟨i, h⟩ = .exited then some (s.setClient c (.joining (i + 1))) else none
      else some (s.setClient c .idle) -- workers_.clear()
    | _ => none
  | .take w => if s.workers w = .testing then some (s.takeTask w) else none
  | .execute w _ => -- both catch clauses only log
    match s.workers w with
    | .executing k =>
      some { s with
        workers := Function.update s.workers w (.executed k)
        executions := s.executions ++ [k] }
    | _ => none
  | .decrement w =>
    match s.workers w with
    | .executed k =>
      some { s with
        workers := Function.update s.workers w .notifying
        activeTasks := s.activeTasks - 1
        finished := s.finished ++ [k] }
    | _ => none
  | .notifyDone w woken =>
    if s.workers w = .notifying ∧ s.NotifiesClient woken then
      some ((woken.elim s s.wakeClient).setWorker w .testing)
    else none
  | .wakeWorker w => if s.workers w = .asleep then some (s.wakeWorker w) else none
  | .wakeClient c => if (s.clients c).isWaiting then some (s.wakeClient c) else none

/-- A thread that cannot make the step stays where it is. -/
def next [Fintype κ] (s : Pool κ n) (a : PoolAct κ n) : Pool κ n := (s.step a).getD s

/-- What the steps do, and when. -/
inductive Moves (s : Pool κ n) : PoolAct κ n → Pool κ n → Prop
  | accept {c : κ} (hidle : s.clients c = .idle) (hrunning : s.isRunning = true) :
    Moves s (.enqueue c) (s.setClient c .accepted)
  | reject {c : κ} (hidle : s.clients c = .idle) (hstopped : s.isRunning = false) :
    Moves s (.enqueue c) s
  | push {c : κ} (haccepted : s.clients c = .accepted) :
    Moves s (.push c)
      { s with
        clients := Function.update s.clients c .pushed
        tasks := s.tasks ++ [s.pushed]
        pushed := s.pushed + 1 }
  | notifyOne {c : κ} {woken : Option (Fin n)} (hpushed : s.clients c = .pushed)
    (hwoken : s.NotifiesWorker woken) :
    Moves s (.notifyOne c woken) ((woken.elim s s.wakeWorker).setClient c .idle)
  | wait {c : κ} (hidle : s.clients c = .idle) :
    Moves s (.wait c) (s.setClient c (.checking s.pushed))
  | done {c : κ} {since : Nat} (hchecking : s.clients c = .checking since) (hdone : s.IsDone) :
    Moves s (.check c) (s.setClient c .idle)
  | sleep {c : κ} {since : Nat} (hchecking : s.clients c = .checking since) (hbusy : ¬ s.IsDone) :
    Moves s (.check c) (s.setClient c (.waiting since))
  | stop {c : κ} (hidle : s.clients c = .idle) (hrunning : s.isRunning = true) :
    Moves s (.stop c) (s.setClient c .stopping)
  | stopped {c : κ} (hidle : s.clients c = .idle) (hstopped : s.isRunning = false) :
    Moves s (.stop c) s
  | lower {c : κ} (hstopping : s.clients c = .stopping) :
    Moves s (.lower c)
      { s with clients := Function.update s.clients c .lowered, isRunning := false }
  | notifyAll {c : κ} (hlowered : s.clients c = .lowered) :
    Moves s (.notifyAll c)
      { s with
        clients := Function.update s.clients c (.joining 0)
        workers := fun w => (s.workers w).woken }
  | join {c : κ} {i : Nat} (hjoining : s.clients c = .joining i) (hi : i < n)
    (hexited : s.workers ⟨i, hi⟩ = .exited) : Moves s (.join c) (s.setClient c (.joining (i + 1)))
  | clear {c : κ} {i : Nat} (hjoining : s.clients c = .joining i) (hi : n ≤ i) :
    Moves s (.join c) (s.setClient c .idle)
  | rest {w : Fin n} (htesting : s.workers w = .testing) (hempty : s.tasks = [])
    (hrunning : s.isRunning = true) : Moves s (.take w) (s.setWorker w .asleep)
  | exit {w : Fin n} (htesting : s.workers w = .testing) (hempty : s.tasks = [])
    (hstopped : s.isRunning = false) : Moves s (.take w) (s.setWorker w .exited)
  | take {w : Fin n} {k : Nat} {tasks : List Nat} (htesting : s.workers w = .testing)
    (htasks : s.tasks = k :: tasks) :
    Moves s (.take w)
      { s with
        workers := Function.update s.workers w (.executing k)
        tasks := tasks
        activeTasks := s.activeTasks + 1
        dequeued := s.dequeued ++ [k] }
  | execute {w : Fin n} {thrown : Option Exn} {k : Nat} (hexecuting : s.workers w = .executing k) :
    Moves s (.execute w thrown)
      { s with
        workers := Function.update s.workers w (.executed k)
        executions := s.executions ++ [k] }
  | decrement {w : Fin n} {k : Nat} (hexecuted : s.workers w = .executed k) :
    Moves s (.decrement w)
      { s with
        workers := Function.update s.workers w .notifying
        activeTasks := s.activeTasks - 1
        finished := s.finished ++ [k] }
  | notifyDone {w : Fin n} {woken : Option κ} (hnotifying : s.workers w = .notifying)
    (hwoken : s.NotifiesClient woken) :
    Moves s (.notifyDone w woken) ((woken.elim s s.wakeClient).setWorker w .testing)
  | wakeWorker {w : Fin n} (hasleep : s.workers w = .asleep) :
    Moves s (.wakeWorker w) (s.wakeWorker w)
  | wakeClient {c : κ} (hwaiting : (s.clients c).isWaiting = true) :
    Moves s (.wakeClient c) (s.wakeClient c)

/-- These are all the things a step can do. -/
theorem step_cases [Fintype κ] {s s' : Pool κ n} {a : PoolAct κ n} (h : s.step a = some s') :
    Moves s a s' := by
  cases a with
  | enqueue c =>
    rw [step, Option.ite_none_right_eq_some, Option.some.injEq] at h
    obtain ⟨hidle, rfl⟩ := h
    split_ifs with hrunning
    · exact .accept hidle hrunning
    · exact .reject hidle (Bool.eq_false_iff.mpr hrunning)
  | push c =>
    rw [step, Option.ite_none_right_eq_some, Option.some.injEq] at h
    obtain ⟨haccepted, rfl⟩ := h
    exact .push haccepted
  | notifyOne c woken =>
    rw [step, Option.ite_none_right_eq_some, Option.some.injEq] at h
    obtain ⟨⟨hpushed, hwoken⟩, rfl⟩ := h
    exact .notifyOne hpushed hwoken
  | wait c =>
    rw [step, Option.ite_none_right_eq_some, Option.some.injEq] at h
    obtain ⟨hidle, rfl⟩ := h
    exact .wait hidle
  | check c =>
    rw [step] at h
    split at h
    · rename_i since hchecking
      obtain rfl := Option.some.inj h
      split_ifs with hdone
      · exact .done hchecking hdone
      · exact .sleep hchecking hdone
    · cases h
  | stop c =>
    rw [step, Option.ite_none_right_eq_some, Option.some.injEq] at h
    obtain ⟨hidle, rfl⟩ := h
    split_ifs with hrunning
    · exact .stop hidle hrunning
    · exact .stopped hidle (Bool.eq_false_iff.mpr hrunning)
  | lower c =>
    rw [step, Option.ite_none_right_eq_some, Option.some.injEq] at h
    obtain ⟨hstopping, rfl⟩ := h
    exact .lower hstopping
  | notifyAll c =>
    rw [step, Option.ite_none_right_eq_some, Option.some.injEq] at h
    obtain ⟨hlowered, rfl⟩ := h
    exact .notifyAll hlowered
  | join c =>
    rw [step] at h
    split at h
    · rename_i i hjoining
      split_ifs at h with hi hexited
      · obtain rfl := Option.some.inj h
        exact .join hjoining hi hexited
      · obtain rfl := Option.some.inj h
        exact .clear hjoining (not_lt.mp hi)
    · cases h
  | take w =>
    rw [step, Option.ite_none_right_eq_some, Option.some.injEq] at h
    obtain ⟨htesting, rfl⟩ := h
    unfold takeTask
    split
    · rename_i hempty
      split_ifs with hrunning
      · exact .rest htesting hempty hrunning
      · exact .exit htesting hempty (Bool.eq_false_iff.mpr hrunning)
    · rename_i k tasks htasks
      exact .take htesting htasks
  | execute w thrown =>
    rw [step] at h
    split at h
    · rename_i k hexecuting
      obtain rfl := Option.some.inj h
      exact .execute hexecuting
    · cases h
  | decrement w =>
    rw [step] at h
    split at h
    · rename_i k hexecuted
      obtain rfl := Option.some.inj h
      exact .decrement hexecuted
    · cases h
  | notifyDone w woken =>
    rw [step, Option.ite_none_right_eq_some, Option.some.injEq] at h
    obtain ⟨⟨hnotifying, hwoken⟩, rfl⟩ := h
    exact .notifyDone hnotifying hwoken
  | wakeWorker w =>
    rw [step, Option.ite_none_right_eq_some, Option.some.injEq] at h
    obtain ⟨hasleep, rfl⟩ := h
    exact .wakeWorker hasleep
  | wakeClient c =>
    rw [step, Option.ite_none_right_eq_some, Option.some.injEq] at h
    obtain ⟨hwaiting, rfl⟩ := h
    exact .wakeClient hwaiting

/-- The same for the clients. -/
theorem ClientMoves.update {s : Pool κ n} {a : PoolAct κ n} {d : κ} {phase : ClientPhase}
    (h : ClientMoves s a d (s.clients d) phase) (c : κ) :
    ClientMoves s a c (s.clients c) (Function.update s.clients d phase c) := by
  by_cases hc : c = d
  · rw [hc, Function.update_self]
    exact h
  · rw [Function.update_of_ne hc]
    exact .stay _

section Moves

variable {s s' : Pool κ n} {a : PoolAct κ n}

/-- What an action does to each worker. -/
theorem Moves.worker (h : Moves s a s') (w : Fin n) :
    WorkerMoves s a w (s.workers w) (s'.workers w) := by
  cases h with
  | @notifyOne _ woken =>
    cases woken with
    | none => exact .stay _
    | some v => exact WorkerMoves.update (WorkerMoves.woken s _ v _) w
  | notifyAll => exact WorkerMoves.woken s _ w _
  | rest htesting hempty hrunning =>
    exact WorkerMoves.update (by rw [htesting]; exact .rest rfl hempty hrunning) w
  | exit htesting hempty hstopped =>
    exact WorkerMoves.update (by rw [htesting]; exact .exit rfl hempty hstopped) w
  | take htesting htasks => exact WorkerMoves.update (by rw [htesting]; exact .take rfl htasks) w
  | execute hexecuting => exact WorkerMoves.update (by rw [hexecuting]; exact .execute rfl _) w
  | decrement hexecuted => exact WorkerMoves.update (by rw [hexecuted]; exact .decrement rfl _) w
  | @notifyDone v woken hnotifying =>
    have hagain : WorkerMoves s (.notifyDone v woken) v (s.workers v) .testing := by
      rw [hnotifying]
      exact .again rfl
    cases woken with
    | none => exact hagain.update w
    | some c => exact hagain.update w
  | wakeWorker => exact WorkerMoves.update (WorkerMoves.woken s _ _ _) w
  | _ => exact .stay _

/-- And to each client. -/
theorem Moves.client (h : Moves s a s') (c : κ) :
    ClientMoves s a c (s.clients c) (s'.clients c) := by
  cases h with
  | accept hidle hrunning =>
    exact ClientMoves.update (by rw [hidle]; exact .accept rfl hrunning) c
  | push haccepted => exact ClientMoves.update (by rw [haccepted]; exact .push rfl) c
  | @notifyOne d woken hpushed =>
    have hdone : ClientMoves s (.notifyOne d woken) d (s.clients d) .idle := by
      rw [hpushed]
      exact .notifyOne rfl
    cases woken with
    | none => exact hdone.update c
    | some w => exact hdone.update c
  | wait hidle => exact ClientMoves.update (by rw [hidle]; exact .wait rfl) c
  | done hchecking hdone =>
    exact ClientMoves.update (by rw [hchecking]; exact .done rfl _ hdone) c
  | sleep hchecking hbusy =>
    exact ClientMoves.update (by rw [hchecking]; exact .sleep rfl _ hbusy) c
  | stop hidle hrunning => exact ClientMoves.update (by rw [hidle]; exact .stop rfl hrunning) c
  | lower hstopping => exact ClientMoves.update (by rw [hstopping]; exact .lower rfl) c
  | notifyAll hlowered => exact ClientMoves.update (by rw [hlowered]; exact .notifyAll rfl) c
  | join hjoining hi hexited =>
    exact ClientMoves.update (by rw [hjoining]; exact .join rfl hi hexited) c
  | clear hjoining hi => exact ClientMoves.update (by rw [hjoining]; exact .clear rfl hi) c
  | @notifyDone _ woken =>
    cases woken with
    | none => exact .stay _
    | some d => exact ClientMoves.update (ClientMoves.woken s _ d _) c
  | wakeClient => exact ClientMoves.update (ClientMoves.woken s _ _ _) c
  | _ => exact .stay _

/-- The queue grows at its end by a push and is consumed from its head by a worker. -/
theorem Moves.tasks (h : Moves s a s') :
    s'.tasks = s.tasks ∨ (∃ c, a = .push c ∧ s'.tasks = s.tasks ++ [s.pushed]) ∨
      ∃ w k, s.workers w = .testing ∧ s.tasks = k :: s'.tasks := by
  cases h with
  | push => exact Or.inr (Or.inl ⟨_, rfl, rfl⟩)
  | take htesting htasks => exact Or.inr (Or.inr ⟨_, _, htesting, htasks⟩)
  | @notifyOne _ woken => cases woken <;> exact Or.inl rfl
  | @notifyDone _ woken => cases woken <;> exact Or.inl rfl
  | _ => exact Or.inl rfl

/-- Nothing but a push adds to the tasks there have ever been. -/
theorem Moves.pushed (h : Moves s a s') (hpush : ∀ c, a ≠ .push c) : s'.pushed = s.pushed := by
  cases h with
  | push => exact absurd rfl (hpush _)
  | @notifyOne _ woken => cases woken <;> rfl
  | @notifyDone _ woken => cases woken <;> rfl
  | _ => rfl

/-- Only `stop` touches the flag, and lowers it. -/
theorem Moves.isRunning (h : Moves s a s') :
    s'.isRunning = s.isRunning ∨ s'.isRunning = false ∧ ∃ c, s'.clients c = .lowered := by
  cases h with
  | @lower c => exact Or.inr ⟨rfl, c, Function.update_self ..⟩
  | @notifyOne _ woken => cases woken <;> exact Or.inl rfl
  | @notifyDone _ woken => cases woken <;> exact Or.inl rfl
  | _ => exact Or.inl rfl

/-- `stop` lowers the flag, -/
theorem Moves.lowers {c : κ} (h : Moves s (.lower c) s') : s'.isRunning = false := by
  cases h
  rfl

/-- and nothing raises it again. -/
theorem Moves.stays_down (h : Moves s a s') (hdown : s.isRunning = false) :
    s'.isRunning = false := by
  rcases h.isRunning with hsame | ⟨hlowered, _⟩
  · rwa [hsame]
  · exact hlowered

end Moves

/-- A push is never refused to a client that has been accepted. -/
theorem step_push_ne_none [Fintype κ] {s : Pool κ n} {c : κ} (h : s.clients c = .accepted) :
    s.step (.push c) ≠ none := by
  rw [step, if_pos h]
  exact Option.some_ne_none _

/-- A property that every possible step keeps is kept by `next`. -/
theorem next_of_moves [Fintype κ] {P : Pool κ n → Prop} {s : Pool κ n} (h : P s) {a : PoolAct κ n}
    (hmoves : ∀ s', Moves s a s' → P s') : P (s.next a) := by
  rw [next]
  exact Runs.getD_of_step (fun _ => h) fun s' hstep => hmoves s' (step_cases hstep)

/-- A condition that decides after every possible step, and holds where none is possible, decides
after `next`. -/
theorem next_iff_of_moves [Fintype κ] {P : Pool κ n → Prop} {C : Prop} {s : Pool κ n} (h : P s)
    {a : PoolAct κ n} (hnone : s.step a = none → C) (hmoves : ∀ s', Moves s a s' → (P s' ↔ C)) :
    P (s.next a) ↔ C := by
  rw [next]
  exact Runs.getD_of_step (P := fun s => P s ↔ C) (fun hstep => iff_of_true h (hnone hstep))
    fun s' hstep => hmoves s' (step_cases hstep)

end Pool

end ZeroLanCom
