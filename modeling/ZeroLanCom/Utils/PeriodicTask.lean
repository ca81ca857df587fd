import ZeroLanCom.Utils.PoolShutdown

/-!
# Periodic tasks

The `PeriodicTask` objects of one pool, with the thread that starts and stops
them. `start` enqueues a call of `runLoop`, which occupies a worker until it sees
`is_running_` lowered. The flag is raised and lowered any number of times, the
promise is kept once.
-/

namespace ZeroLanCom

/-- Where a call of `runLoop` is. -/
inductive LoopPhase where
  /-- Before the test of `is_running_`. -/
  | testing
  | calling
  | sleeping
  /-- Before `promise_done_.set_value`. -/
  | signalling
  | returned
  deriving DecidableEq, Repr

/-- Where the controlling thread is. -/
inductive ControlPhase (τ : Type*) where
  | idle
  /-- In `start`, with the flag raised. -/
  | starting (t : τ)
  /-- In `start`, with the task pushed. -/
  | started
  /-- In `stop`, with the flag lowered. -/
  | waiting (t : τ)
  deriving DecidableEq, Repr

/-- The state of the tasks `τ` on a pool of `n` workers. `owner` is the object that a task of the
pool belongs to, and `stopped` records that `stop` has returned without a timeout, and `start` has
not been called since. -/
structure Periodic (τ : Type*) (n : Nat) where
  pool : Pool Unit n
  isRunning : τ → Bool
  promiseDone : τ → Bool
  owner : Nat → Option τ
  loops : Nat → LoopPhase
  control : ControlPhase τ
  stopped : τ → Bool

/-- What the controlling thread or a worker does next. -/
inductive PeriodicAct (τ : Type*) (n : Nat) where
  | start (t : τ)
  | enqueue
  | push
  | notifyOne (woken : Option (Fin n))
  | stop (t : τ)
  | ready
  | timeout
  | test (w : Fin n)
  | call (w : Fin n) (thrown : Option Exn)
  | sleep (w : Fin n)
  | signal (w : Fin n)
  | pool (a : PoolAct Unit n)

namespace Periodic

variable {τ : Type*} {n : Nat}

/-- The pool has been started, and no task has. -/
def started : Periodic τ n :=
  ⟨Pool.started, fun _ => false, fun _ => false, fun _ => none, fun _ => .testing, .idle,
    fun _ => false⟩

/-- The controlling thread is in no call. -/
def Idle (s : Periodic τ n) : Prop := s.control = .idle ∧ s.pool.clients () = .idle

/-- The call of `runLoop` that the worker executes, and whose it is. -/
def loopAt (s : Periodic τ n) (w : Fin n) : Option (Nat × τ) :=
  match s.pool.workers w with
  | .executing k => (s.owner k).map fun t => (k, t)
  | _ => none

/-- The worker is at a call of `runLoop` if it executes a task that has an owner. -/
theorem loopAt_eq_some_iff {s : Periodic τ n} {w : Fin n} {k : Nat} {t : τ} :
    s.loopAt w = some (k, t) ↔ s.pool.workers w = .executing k ∧ s.owner k = some t := by
  unfold loopAt
  split
  · rename_i j hexecuting
    simp only [Option.map_eq_some_iff, Prod.mk.injEq, hexecuting, WorkerPhase.executing.injEq]
    constructor
    · rintro ⟨u, howner, rfl, rfl⟩
      exact ⟨rfl, howner⟩
    · rintro ⟨rfl, howner⟩
      exact ⟨t, howner, rfl, rfl⟩
  · rename_i hnot
    simp only [reduceCtorEq, false_iff, not_and]
    exact fun hexecuting => absurd hexecuting (hnot k)

/-- One call of `runLoop` moves on. -/
def setLoop (s : Periodic τ n) (k : Nat) (phase : LoopPhase) : Periodic τ n :=
  { s with loops := Function.update s.loops k phase }

/-- What any step does to one call of `runLoop`. -/
inductive LoopMoves (s : Periodic τ n) (a : PeriodicAct τ n) (k : Nat) :
    LoopPhase → LoopPhase → Prop
  | stay (phase : LoopPhase) : LoopMoves s a k phase phase
  | enter {w : Fin n} {t : τ} (hloop : s.loopAt w = some (k, t)) (hup : s.isRunning t = true) :
    LoopMoves s a k .testing .calling
  | leave {w : Fin n} {t : τ} (hloop : s.loopAt w = some (k, t)) (hdown : s.isRunning t = false) :
    LoopMoves s a k .testing .signalling
  | call {w : Fin n} {t : τ} {thrown : Option Exn} (ha : a = .call w thrown)
    (hloop : s.loopAt w = some (k, t)) : LoopMoves s a k .calling .sleeping
  | sleep : LoopMoves s a k .sleeping .testing
  | signal : LoopMoves s a k .signalling .returned

/-- A move of one call of `runLoop` is none of the others. -/
theorem LoopMoves.update {s : Periodic τ n} {a : PeriodicAct τ n} {j : Nat} {phase : LoopPhase}
    (h : LoopMoves s a j (s.loops j) phase) (k : Nat) :
    LoopMoves s a k (s.loops k) (Function.update s.loops j phase k) := by
  by_cases hk : k = j
  · rw [hk, Function.update_self]
    exact h
  · rw [Function.update_of_ne hk]
    exact .stay _

/-- What holds of the pool and its tasks, whoever is started and stopped. -/
structure Sound (s : Periodic τ n) : Prop where
  balanced : s.pool.Balanced
  stopping : s.pool.Stopping
  nobodyWaits : ∀ c, (s.pool.clients c).pending = none
  owned : ∀ k < s.pool.pushed, (s.owner k).isSome
  called : ∀ k, s.loops k = .calling → ∃ w t, s.loopAt w = some (k, t)

/-- At the start there is neither a task nor a loop. -/
theorem sound_started : (started : Periodic τ n).Sound where
  balanced := Pool.balanced_started
  stopping := Pool.stopping_started
  nobodyWaits _ := rfl
  owned _ hk := absurd hk (Nat.not_lt_zero _)
  called _ hcalling := nomatch hcalling

/-- Only tasks that have been pushed are at work in a loop. -/
theorem Sound.lt_of_loopAt {s : Periodic τ n} (h : s.Sound) {w : Fin n} {k : Nat} {t : τ}
    (hloop : s.loopAt w = some (k, t)) : k < s.pool.pushed := by
  refine h.balanced.lt_of_executes (w := w) ?_
  rw [Pool.Executes, (loopAt_eq_some_iff.mp hloop).1]
  rfl

/-- Whatever a worker executes is the loop of some task. -/
theorem Sound.loopAt_of_executing {s : Periodic τ n} (h : s.Sound) {w : Fin n} {k : Nat}
    (hexecuting : s.pool.workers w = .executing k) : ∃ t, s.loopAt w = some (k, t) := by
  have hk := h.balanced.lt_of_executes (w := w) (k := k) (by rw [Pool.Executes, hexecuting]; rfl)
  obtain ⟨t, ht⟩ := Option.isSome_iff_exists.mp (h.owned k hk)
  exact ⟨t, loopAt_eq_some_iff.mpr ⟨hexecuting, ht⟩⟩

variable [DecidableEq τ]

instance (s : Periodic τ n) : Decidable s.Idle := inferInstanceAs (Decidable (_ ∧ _))

/-- The steps of the pool outside of `start`. A task is executed when its `runLoop` has returned. -/
def permits (s : Periodic τ n) : PoolAct Unit n → Bool
  | .take _ => true
  | .execute w _ => (s.loopAt w).all fun p => s.loops p.1 = .returned
  | .decrement _ => true
  | .notifyDone _ _ => true
  | .wakeWorker _ => true
  | .stop _ => s.control = .idle
  | .lower _ => s.control = .idle
  | .notifyAll _ => s.control = .idle
  | .join _ => s.control = .idle
  | _ => false

/-- One step of one thread, if it can make it. -/
def step (s : Periodic τ n) : PeriodicAct τ n → Option (Periodic τ n)
  | .start t =>
    if s.Idle then
      if s.isRunning t then some { s with stopped := Function.update s.stopped t false }
      else some { s with
        isRunning := Function.update s.isRunning t true
        control := .starting t
        stopped := Function.update s.stopped t false }
    else none
  | .enqueue =>
    match s.control with
    | .starting _ =>
      (s.pool.step (.enqueue ())).map fun pool =>
        { s with pool := pool, control := if pool.clients () = .idle then .idle else s.control }
    | _ => none
  | .push =>
    match s.control with
    | .starting t =>
      (s.pool.step (.push ())).map fun pool =>
        { s with
          pool := pool
          owner := Function.update s.owner s.pool.pushed (some t)
          control := .started }
    | _ => none
  | .notifyOne woken =>
    match s.control with
    | .started =>
      (s.pool.step (.notifyOne () woken)).map fun pool => { s with pool := pool, control := .idle }
    | _ => none
  | .stop t =>
    if s.Idle then
      if s.isRunning t then
        some { s with isRunning := Function.update s.isRunning t false, control := .waiting t }
      else some { s with stopped := Function.update s.stopped t true }
    else none
  | .ready =>
    match s.control with
    | .waiting t =>
      if s.promiseDone t then
        some { s with control := .idle, stopped := Function.update s.stopped t true }
      else none
    | _ => none
  | .timeout =>
    match s.control with
    | .waiting _ => some { s with control := .idle }
    | _ => none
  | .test w =>
    match s.loopAt w with
    | some (k, t) =>
      if s.loops k = .testing then
        some (s.setLoop k (if s.isRunning t then .calling else .signalling))
      else none
    | none => none
  | .call w _ => -- both catch clauses only log
    match s.loopAt w with
    | some (k, _) => if s.loops k = .calling then some (s.setLoop k .sleeping) else none
    | none => none
  | .sleep w =>
    match s.loopAt w with
    | some (k, _) => if s.loops k = .sleeping then some (s.setLoop k .testing) else none
    | none => none
  | .signal w => -- a promise that is kept already throws, which ends the call as well
    match s.loopAt w with
    | some (k, t) =>
      if s.loops k = .signalling then
        some { s with
          loops := Function.update s.loops k .returned
          promiseDone := Function.update s.promiseDone t true }
      else none
    | none => none
  | .pool a => if s.permits a then (s.pool.step a).map fun pool => { s with pool := pool } else none

/-- A thread that cannot make the step stays where it is. -/
def next (s : Periodic τ n) (a : PeriodicAct τ n) : Periodic τ n := (s.step a).getD s

/-- What the steps do, and when. -/
inductive Moves (s : Periodic τ n) : PeriodicAct τ n → Periodic τ n → Prop
  | start {t : τ} (hidle : s.Idle) (hdown : s.isRunning t = false) :
    Moves s (.start t) { s with
      isRunning := Function.update s.isRunning t true
      control := .starting t
      stopped := Function.update s.stopped t false }
  | startAgain {t : τ} (hidle : s.Idle) (hup : s.isRunning t = true) :
    Moves s (.start t) { s with stopped := Function.update s.stopped t false }
  | enqueue {t : τ} {pool : Pool Unit n} (hstarting : s.control = .starting t)
    (hpool : Pool.Moves s.pool (.enqueue ()) pool) :
    Moves s .enqueue { s with
      pool := pool
      control := if pool.clients () = .idle then .idle else s.control }
  | push {t : τ} {pool : Pool Unit n} (hstarting : s.control = .starting t)
    (hpool : Pool.Moves s.pool (.push ()) pool) :
    Moves s .push { s with
      pool := pool
      owner := Function.update s.owner s.pool.pushed (some t)
      control := .started }
  | notifyOne {woken : Option (Fin n)} {pool : Pool Unit n} (hstarted : s.control = .started)
    (hpool : Pool.Moves s.pool (.notifyOne () woken) pool) :
    Moves s (.notifyOne woken) { s with pool := pool, control := .idle }
  | stop {t : τ} (hidle : s.Idle) (hup : s.isRunning t = true) :
    Moves s (.stop t) { s with
      isRunning := Function.update s.isRunning t false
      control := .waiting t }
  | stopAgain {t : τ} (hidle : s.Idle) (hdown : s.isRunning t = false) :
    Moves s (.stop t) { s with stopped := Function.update s.stopped t true }
  | ready {t : τ} (hwaiting : s.control = .waiting t) (hdone : s.promiseDone t = true) :
    Moves s .ready { s with control := .idle, stopped := Function.update s.stopped t true }
  | timeout {t : τ} (hwaiting : s.control = .waiting t) :
    Moves s .timeout { s with control := .idle }
  | enter {w : Fin n} {k : Nat} {t : τ} (hloop : s.loopAt w = some (k, t))
    (htesting : s.loops k = .testing) (hup : s.isRunning t = true) :
    Moves s (.test w) (s.setLoop k .calling)
  | leave {w : Fin n} {k : Nat} {t : τ} (hloop : s.loopAt w = some (k, t))
    (htesting : s.loops k = .testing) (hdown : s.isRunning t = false) :
    Moves s (.test w) (s.setLoop k .signalling)
  | call {w : Fin n} {k : Nat} {t : τ} {thrown : Option Exn} (hloop : s.loopAt w = some (k, t))
    (hcalling : s.loops k = .calling) : Moves s (.call w thrown) (s.setLoop k .sleeping)
  | sleep {w : Fin n} {k : Nat} {t : τ} (hloop : s.loopAt w = some (k, t))
    (hsleeping : s.loops k = .sleeping) : Moves s (.sleep w) (s.setLoop k .testing)
  | signal {w : Fin n} {k : Nat} {t : τ} (hloop : s.loopAt w = some (k, t))
    (hsignalling : s.loops k = .signalling) :
    Moves s (.signal w) { s with
      loops := Function.update s.loops k .returned
      promiseDone := Function.update s.promiseDone t true }
  | pool {a : PoolAct Unit n} {pool : Pool Unit n} (hpermits : s.permits a = true)
    (hpool : Pool.Moves s.pool a pool) : Moves s (.pool a) { s with pool := pool }

/-- These are all the things a step can do. -/
theorem step_cases {s s' : Periodic τ n} {a : PeriodicAct τ n} (h : s.step a = some s') :
    Moves s a s' := by
  cases a with
  | start t =>
    rw [step] at h
    split_ifs at h with hidle hup
    · obtain rfl := Option.some.inj h
      exact .startAgain hidle hup
    · obtain rfl := Option.some.inj h
      exact .start hidle (Bool.eq_false_iff.mpr hup)
  | enqueue =>
    rw [step] at h
    split at h
    · rename_i t hstarting
      obtain ⟨pool, hpool, rfl⟩ := Option.map_eq_some_iff.mp h
      exact .enqueue hstarting (Pool.step_cases hpool)
    · cases h
  | push =>
    rw [step] at h
    split at h
    · rename_i t hstarting
      obtain ⟨pool, hpool, rfl⟩ := Option.map_eq_some_iff.mp h
      exact .push hstarting (Pool.step_cases hpool)
    · cases h
  | notifyOne woken =>
    rw [step] at h
    split at h
    · rename_i hstarted
      obtain ⟨pool, hpool, rfl⟩ := Option.map_eq_some_iff.mp h
      exact .notifyOne hstarted (Pool.step_cases hpool)
    · cases h
  | stop t =>
    rw [step] at h
    split_ifs at h with hidle hup
    · obtain rfl := Option.some.inj h
      exact .stop hidle hup
    · obtain rfl := Option.some.inj h
      exact .stopAgain hidle (Bool.eq_false_iff.mpr hup)
  | ready =>
    rw [step] at h
    split at h
    · rename_i t hwaiting
      rw [Option.ite_none_right_eq_some, Option.some.injEq] at h
      obtain ⟨hdone, rfl⟩ := h
      exact .ready hwaiting hdone
    · cases h
  | timeout =>
    rw [step] at h
    split at h
    · rename_i t hwaiting
      obtain rfl := Option.some.inj h
      exact .timeout hwaiting
    · cases h
  | test w =>
    rw [step] at h
    split at h
    · rename_i k t hloop
      rw [Option.ite_none_right_eq_some, Option.some.injEq] at h
      obtain ⟨htesting, rfl⟩ := h
      split_ifs with hup
      · exact .enter hloop htesting hup
      · exact .leave hloop htesting (Bool.eq_false_iff.mpr hup)
    · cases h
  | call w thrown =>
    rw [step] at h
    split at h
    · rename_i k t hloop
      rw [Option.ite_none_right_eq_some, Option.some.injEq] at h
      obtain ⟨hcalling, rfl⟩ := h
      exact .call hloop hcalling
    · cases h
  | sleep w =>
    rw [step] at h
    split at h
    · rename_i k t hloop
      rw [Option.ite_none_right_eq_some, Option.some.injEq] at h
      obtain ⟨hsleeping, rfl⟩ := h
      exact .sleep hloop hsleeping
    · cases h
  | signal w =>
    rw [step] at h
    split at h
    · rename_i k t hloop
      rw [Option.ite_none_right_eq_some, Option.some.injEq] at h
      obtain ⟨hsignalling, rfl⟩ := h
      exact .signal hloop hsignalling
    · cases h
  | pool a =>
    rw [step] at h
    split_ifs at h with hpermits
    obtain ⟨pool, hpool, rfl⟩ := Option.map_eq_some_iff.mp h
    exact .pool hpermits (Pool.step_cases hpool)

/-- A property that every possible step keeps is kept by `next`. -/
theorem next_of_moves {P : Periodic τ n → Prop} {s : Periodic τ n} (h : P s)
    {a : PeriodicAct τ n} (hmoves : ∀ s', Moves s a s' → P s') : P (s.next a) := by
  rw [next]
  exact Runs.getD_of_step (fun _ => h) fun s' hstep => hmoves s' (step_cases hstep)

variable {s s' : Periodic τ n} {a : PeriodicAct τ n}

/-- What an action does to each call of `runLoop`. -/
theorem Moves.loop (h : Moves s a s') (k : Nat) : LoopMoves s a k (s.loops k) (s'.loops k) := by
  cases h with
  | enter hloop htesting hup => exact LoopMoves.update (by rw [htesting]; exact .enter hloop hup) k
  | leave hloop htesting hdown =>
    exact LoopMoves.update (by rw [htesting]; exact .leave hloop hdown) k
  | call hloop hcalling =>
    exact LoopMoves.update (by rw [hcalling]; exact .call rfl hloop) k
  | sleep _ hsleeping => exact LoopMoves.update (by rw [hsleeping]; exact .sleep) k
  | signal _ hsignalling => exact LoopMoves.update (by rw [hsignalling]; exact .signal) k
  | _ => exact .stay _

/-- The pool makes its own steps, but nobody waits for it, and no call of `runLoop` is left before
it has returned. -/
theorem Moves.pool_moves (h : Moves s a s') : s'.pool = s.pool ∨
    ∃ b, Pool.Moves s.pool b s'.pool ∧ (∀ c, b ≠ .wait c) ∧
      ∀ w thrown, b = .execute w thrown → s.permits b = true := by
  cases h with
  | enqueue _ hpool => exact Or.inr ⟨_, hpool, by simp, by simp⟩
  | push _ hpool => exact Or.inr ⟨_, hpool, by simp, by simp⟩
  | notifyOne _ hpool => exact Or.inr ⟨_, hpool, by simp, by simp⟩
  | @pool b _ hpermits hpool =>
    refine Or.inr ⟨b, hpool, ?_, fun _ _ _ => hpermits⟩
    rintro c rfl
    cases hpermits
  | _ => exact Or.inl rfl

/-- A worker stays with a call of `runLoop` until that has returned. -/
theorem Moves.executing (h : Moves s a s') {w : Fin n} {k : Nat} {t : τ}
    (hloop : s.loopAt w = some (k, t)) (hactive : s.loops k ≠ .returned) :
    s'.pool.workers w = .executing k := by
  have hexecuting := (loopAt_eq_some_iff.mp hloop).1
  rcases h.pool_moves with hsame | ⟨b, hpool, _, hpermits⟩
  · rw [hsame, hexecuting]
  · have hmove := hpool.worker w
    rw [hexecuting] at hmove
    generalize s'.pool.workers w = phase at hmove
    cases hmove with
    | stay => rfl
    | execute hb =>
      have hreturned := hpermits w _ hb
      rw [hb] at hreturned
      simp only [permits, hloop, Option.all_some, decide_eq_true_eq] at hreturned
      exact absurd hreturned hactive

/-- A task of the pool keeps its owner. -/
theorem Moves.owner (h : Moves s a s') {k : Nat} (hk : k < s.pool.pushed) :
    s'.owner k = s.owner k := by
  cases h with
  | push => exact Function.update_of_ne (Nat.ne_of_lt hk) ..
  | _ => rfl

/-- Only `start` raises a flag. -/
theorem Moves.stays_down (h : Moves s a s') {t : τ} (hstart : a ≠ .start t)
    (hdown : s.isRunning t = false) : s'.isRunning t = false := by
  cases h with
  | @start u =>
    have hu : t ≠ u := fun hu => hstart (by rw [hu])
    simpa only [Function.update_of_ne hu] using hdown
  | @stop u =>
    by_cases hu : t = u
    · simp [hu]
    · simpa only [Function.update_of_ne hu] using hdown
  | _ => exact hdown

/-- `stop` lowers the flag of its task. -/
theorem Moves.lowers {t : τ} (h : Moves s (.stop t) s') : s'.isRunning t = false := by
  cases h with
  | stop => exact Function.update_self ..
  | stopAgain _ hdown => exact hdown

/-- A task that was not pushed in this step has its owner, and one that was gets it. -/
theorem Sound.owned_moves (h : s.Sound) (hmoves : Moves s a s') :
    ∀ k < s'.pool.pushed, (s'.owner k).isSome := by
  intro k hk
  cases hmoves with
  | push _ hpool =>
    cases hpool
    by_cases hlast : k = s.pool.pushed
    · simp [hlast]
    · simp only [Function.update_of_ne hlast]
      exact h.owned k (Nat.lt_of_le_of_ne (Nat.le_of_lt_succ hk) hlast)
  | enqueue _ hpool =>
    change k < Pool.pushed _ at hk
    rw [hpool.pushed (by simp)] at hk
    exact h.owned k hk
  | notifyOne _ hpool =>
    change k < Pool.pushed _ at hk
    rw [hpool.pushed (by simp)] at hk
    exact h.owned k hk
  | pool hpermits hpool =>
    change k < Pool.pushed _ at hk
    rw [hpool.pushed (by rintro c rfl; cases hpermits)] at hk
    exact h.owned k hk
  | _ => exact h.owned k hk

/-- All of it is kept by every move. -/
theorem Sound.moves (h : s.Sound) (hmoves : Moves s a s') : s'.Sound := by
  refine ⟨?_, ?_, fun c => ?_, h.owned_moves hmoves, fun k hcalling => ?_⟩
  · rcases hmoves.pool_moves with hsame | ⟨b, hpool, _⟩
    · rw [hsame]
      exact h.balanced
    · exact h.balanced.moves hpool
  · rcases hmoves.pool_moves with hsame | ⟨b, hpool, _⟩
    · rw [hsame]
      exact h.stopping
    · exact h.stopping.moves hpool
  · rcases hmoves.pool_moves with hsame | ⟨b, hpool, hwait, _⟩
    · rw [hsame]
      exact h.nobodyWaits c
    · have hmove := hpool.client c
      have hnone := h.nobodyWaits c
      generalize s.pool.clients c = phase at hmove hnone
      generalize s'.pool.clients c = phase' at hmove
      cases hmove with
      | stay => exact hnone
      | wait hb => exact absurd hb (hwait c)
      | sleep => cases hnone
      | wake => cases hnone
      | _ => rfl
  · have hcalled : ∃ w t, s.loopAt w = some (k, t) ∧ s.loops k ≠ .returned := by
      have hmove := hmoves.loop k
      have hbefore := h.called k
      rw [hcalling] at hmove
      generalize s.loops k = phase at hmove hbefore
      cases hmove with
      | stay =>
        obtain ⟨w, t, hloop⟩ := hbefore rfl
        exact ⟨w, t, hloop, by simp⟩
      | enter hloop => exact ⟨_, _, hloop, by simp⟩
    obtain ⟨w, t, hloop, hactive⟩ := hcalled
    refine ⟨w, t, loopAt_eq_some_iff.mpr ⟨hmoves.executing hloop hactive, ?_⟩⟩
    rw [hmoves.owner (h.lt_of_loopAt hloop), (loopAt_eq_some_iff.mp hloop).2]

end Periodic

end ZeroLanCom
