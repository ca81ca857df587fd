import ZeroLanCom.Utils.PoolTasks

/-!
# Enqueueing while the pool stops

`enqueue` tests `is_running_` before it takes the mutex. A worker exits once it
sees the flag lowered and the queue empty, so a task that is pushed behind the
last exit is never run.
-/

namespace ZeroLanCom

/-- In a call of `enqueue` that has not returned. -/
def ClientPhase.inEnqueue : ClientPhase → Bool
  | .accepted => true
  | .pushed => true
  | _ => false

/-- In a call of `stop` that has not returned. -/
def ClientPhase.inStop : ClientPhase → Bool
  | .stopping => true
  | .lowered => true
  | .joining _ => true
  | _ => false

/-- The flag is lowered, and the workers are not all joined yet. -/
def ClientPhase.ending : ClientPhase → Bool
  | .lowered => true
  | .joining _ => true
  | _ => false

/-- Who has lowered the flag is still in `stop`. -/
theorem ClientPhase.inStop_of_ending {phase : ClientPhase} (h : phase.ending = true) :
    phase.inStop = true := by
  cases phase with
  | lowered => rfl
  | joining => rfl
  | _ => cases h

namespace Pool

variable {κ : Type*} {n : Nat} {s s' : Pool κ n}

/-- The pool has been stopped, and no call of `stop` or `enqueue` is under way. -/
def Settled (s : Pool κ n) : Prop :=
  s.isRunning = false ∧
    ∀ c, (s.clients c).inEnqueue = false ∧ (s.clients c).inStop = false

instance [Fintype κ] (s : Pool κ n) : Decidable s.Settled :=
  inferInstanceAs (Decidable (_ ∧ _))

/-- Every accepted task has been executed once, and none is left. -/
def AllRun (s : Pool κ n) : Prop :=
  s.tasks = [] ∧ ∀ k < s.pushed, s.executions.count k = 1

instance (s : Pool κ n) : Decidable s.AllRun := inferInstanceAs (Decidable (_ ∧ _))

/-- Some worker has not exited. -/
def Manned (s : Pool κ n) : Prop := ∃ w, s.workers w ≠ .exited

/-- A push comes before the last worker exits. -/
def PushInTime (s : Pool κ n) : PoolAct κ n → Prop
  | .push c => s.clients c = .accepted → s.Manned
  | _ => True

/-- Whatever is queued can still be taken. -/
def Attended (s : Pool κ n) : Prop := s.tasks ≠ [] → s.Manned

/-- A pool is deserted if all its workers have exited. -/
theorem not_manned_iff : ¬ s.Manned ↔ ∀ w, s.workers w = .exited := by
  simp only [Manned, not_exists, not_not]

/-- A thread that joins has seen the workers before exit, and all of them awake, and the flag stays
down until all have exited or while a thread is still waiting for them. -/
structure Stopping (s : Pool κ n) : Prop where
  lowered : ∀ c, (s.clients c).ending = true → s.isRunning = false
  awake : ∀ c i, s.clients c = .joining i → ∀ w, s.workers w ≠ .asleep
  joined : ∀ c i, s.clients c = .joining i → ∀ w : Fin n, w < i → s.workers w = .exited
  down : s.isRunning = false → (∃ c, (s.clients c).ending = true) ∨ ∀ w, s.workers w = .exited

/-- Nobody stops a pool that has just started. -/
theorem stopping_started : (started : Pool κ n).Stopping where
  lowered _ hending := nomatch hending
  awake _ _ hjoining := nomatch hjoining
  joined _ _ hjoining := nomatch hjoining
  down hdown := nomatch hdown

/-- Once `stop` has returned, so have all the workers. -/
theorem Stopping.exited (h : s.Stopping) (hsettled : s.Settled) (w : Fin n) :
    s.workers w = .exited := by
  rcases h.down hsettled.1 with ⟨c, hending⟩ | hexited
  · have hstop := (hsettled.2 c).2
    rw [ClientPhase.inStop_of_ending hending] at hstop
    cases hstop
  · exact hexited w

/-- What a settled pool has not run is what is still queued. -/
theorem allRun_iff (h : s.Balanced) (hexited : ∀ w, s.workers w = .exited) :
    s.AllRun ↔ s.Attended := by
  have hunmanned : ¬ s.Manned := not_manned_iff.mpr hexited
  constructor
  · intro hall htasks
    exact absurd hall.1 htasks
  · intro hattended
    have hempty : s.tasks = [] := by
      by_contra htasks
      exact hunmanned (hattended htasks)
    have hnone : ∀ k w, ¬ s.Executes w k := by
      intro k w hw
      rw [Executes, hexited w] at hw
      cases hw
    refine ⟨hempty, fun k hk => ?_⟩
    have hhand : k ∉ s.inHand := fun hmem => (mem_inHand.mp hmem).elim (hnone k)
    have hpushed := h.count_pushed hk
    have hdequeued := h.count_dequeued k
    rw [Multiset.count_eq_zero_of_notMem hhand] at hdequeued
    rw [hempty, List.count_nil] at hpushed
    rw [h.count_executions_of_not_executes (hnone k)]
    omega

variable [DecidableEq κ] {a : PoolAct κ n}

/-- Nobody comes back. -/
theorem Moves.exited (h : Moves s a s') {w : Fin n} (hw : s.workers w = .exited) :
    s'.workers w = .exited := by
  have hmove := h.worker w
  rw [hw] at hmove
  generalize s'.workers w = phase at hmove
  cases hmove
  rfl

/-- A worker exits from an empty queue. -/
theorem Moves.manned (h : Moves s a s') (hs : s.Manned) (htasks : s.tasks ≠ []) :
    s'.Manned := by
  obtain ⟨w, hw⟩ := hs
  refine ⟨w, fun hexited => ?_⟩
  have hmove := h.worker w
  rw [hexited] at hmove
  generalize s.workers w = phase at hmove hw
  cases hmove with
  | stay => exact hw rfl
  | exit _ hempty => exact htasks hempty

/-- Only a push can leave a task where nobody takes it. -/
theorem Moves.attended (h : Moves s a s') (hpush : ∀ c, a ≠ .push c) (hs : s.Attended) :
    s'.Attended := by
  intro htasks
  rcases h.tasks with hsame | ⟨c, ha, _⟩ | ⟨w, k, _, hhead⟩
  · rw [hsame] at htasks
    exact h.manned (hs htasks) htasks
  · exact absurd ha (hpush c)
  · have htasks : s.tasks ≠ [] := by simp [hhead]
    exact h.manned (hs htasks) htasks

/-- Nobody falls asleep on a lowered flag. -/
theorem Moves.awake (h : Moves s a s') (hdown : s.isRunning = false) {w : Fin n}
    (hw : s.workers w ≠ .asleep) : s'.workers w ≠ .asleep := by
  intro hasleep
  have hmove := h.worker w
  rw [hasleep] at hmove
  generalize s.workers w = phase at hmove hw
  cases hmove with
  | stay => exact hw rfl
  | rest _ _ hrunning =>
    rw [hdown] at hrunning
    cases hrunning

namespace Stopping

/-- Who has lowered the flag finds it down ever after. -/
theorem lowered_moves (h : s.Stopping) (hmoves : Moves s a s') (c : κ)
    (hending : (s'.clients c).ending = true) : s'.isRunning = false := by
  have hmove := hmoves.client c
  have hbefore := h.lowered c
  generalize s.clients c = phase at hmove hbefore
  generalize s'.clients c = phase' at hmove hending
  cases hmove with
  | stay => exact hmoves.stays_down (hbefore hending)
  | lower ha => exact (ha ▸ hmoves).lowers
  | notifyAll => exact hmoves.stays_down (hbefore rfl)
  | join => exact hmoves.stays_down (hbefore rfl)
  | _ => cases hending

/-- No worker falls asleep again while it is joined. -/
theorem awake_moves (h : s.Stopping) (hmoves : Moves s a s') {c : κ} {i : Nat}
    (hjoining : s'.clients c = .joining i) (w : Fin n) : s'.workers w ≠ .asleep := by
  have hmove := hmoves.client c
  have hbefore := h.lowered c
  have hawake := h.awake c
  rw [hjoining] at hmove
  generalize s.clients c = phase at hmove hbefore hawake
  cases hmove with
  | stay => exact hmoves.awake (hbefore rfl) (hawake i rfl w)
  | notifyAll ha =>
    subst ha
    cases hmoves
    change (s.workers w).woken ≠ .asleep
    cases s.workers w <;> simp [WorkerPhase.woken]
  | @join _ j => exact hmoves.awake (hbefore rfl) (hawake j rfl w)

/-- Workers that have been joined stay where they are. -/
theorem joined_moves (h : s.Stopping) (hmoves : Moves s a s') {c : κ} {i : Nat}
    (hjoining : s'.clients c = .joining i) {w : Fin n} (hw : w < i) :
    s'.workers w = .exited := by
  apply hmoves.exited
  have hmove := hmoves.client c
  rw [hjoining] at hmove
  generalize hphase : s.clients c = phase at hmove
  cases hmove with
  | stay => exact h.joined c i hphase w hw
  | notifyAll => exact absurd hw (Nat.not_lt_zero _)
  | @join _ j hj hexited =>
    rcases Nat.lt_succ_iff_lt_or_eq.mp hw with hlt | heq
    · exact h.joined c j hphase w hlt
    · have hlast : w = ⟨j, hj⟩ := Fin.ext heq
      rw [hlast, hexited]

/-- The flag is down only from a `stop` on that has not joined all workers, or when all have exited.
-/
theorem down_moves (h : s.Stopping) (hmoves : Moves s a s') (hdown : s'.isRunning = false) :
    (∃ c, (s'.clients c).ending = true) ∨ ∀ w, s'.workers w = .exited := by
  rcases hmoves.isRunning with hsame | ⟨_, c, hlowered⟩
  · rw [hsame] at hdown
    rcases h.down hdown with ⟨c, hending⟩ | hexited
    · have hmove := hmoves.client c
      generalize hphase : s.clients c = phase at hmove hending
      generalize hphase' : s'.clients c = phase' at hmove
      cases hmove with
      | stay => exact Or.inl ⟨c, hphase' ▸ hending⟩
      | notifyAll => exact Or.inl ⟨c, by rw [hphase']; rfl⟩
      | join => exact Or.inl ⟨c, by rw [hphase']; rfl⟩
      | clear _ hi =>
        exact Or.inr fun w => hmoves.exited (h.joined c _ hphase w (w.isLt.trans_le hi))
      | _ => cases hending
    · exact Or.inr fun w => hmoves.exited (hexited w)
  · exact Or.inl ⟨c, by rw [hlowered]; rfl⟩

/-- So every move of a thread keeps the order of shutting down. -/
theorem moves (h : s.Stopping) (hmoves : Moves s a s') : s'.Stopping :=
  ⟨h.lowered_moves hmoves, fun _ _ hjoining => h.awake_moves hmoves hjoining,
    fun _ _ hjoining _ => h.joined_moves hmoves hjoining, h.down_moves hmoves⟩

end Stopping

variable [Fintype κ]

/-- And every run does. -/
theorem stopping_run (acts : List (PoolAct κ n)) : (Runs.run next started acts).Stopping :=
  Runs.run_of_step (I := Stopping) (fun _ _ h => next_of_moves h fun _ => h.moves)
    stopping_started acts

/-- Of all the steps, only a push can leave tasks to nobody. -/
theorem attended_next_iff (hs : s.Attended) (a : PoolAct κ n) :
    (s.next a).Attended ↔ s.PushInTime a := by
  refine next_iff_of_moves hs (fun hnone => ?_) fun s' hmoves => ?_
  · cases a with
    | push c => exact fun haccepted => absurd hnone (step_push_ne_none haccepted)
    | _ => trivial
  · cases a with
    | push c =>
      cases hmoves with
      | push haccepted =>
        constructor
        · intro hattended _
          exact hattended (by simp)
        · intro hintime _
          exact hintime haccepted
    | _ => exact iff_of_true (hmoves.attended (by simp) hs) trivial

/-- Tasks left to nobody stay where they are. -/
theorem not_attended_next (hs : ¬ s.Attended) (a : PoolAct κ n) : ¬ (s.next a).Attended := by
  refine next_of_moves (P := fun s => ¬ s.Attended) hs fun s' hmoves => ?_
  obtain ⟨htasks, hunmanned⟩ := Classical.not_imp.mp hs
  have hexited := not_manned_iff.mp hunmanned
  refine Classical.not_imp.mpr ⟨?_, not_manned_iff.mpr fun w => hmoves.exited (hexited w)⟩
  rcases hmoves.tasks with hsame | ⟨c, _, hpushed⟩ | ⟨w, k, htesting, _⟩
  · rwa [hsame]
  · rw [hpushed]
    simp
  · rw [hexited w] at htesting
    cases htesting

/-- What was accepted before `stop` returned has all been run, exactly if no push came behind the
exit of the last worker. -/
theorem no_task_lost_iff (acts : List (PoolAct κ n))
    (hsettled : (Runs.run next started acts).Settled) :
    (Runs.run next started acts).AllRun ↔ Runs.Each next PushInTime started acts := by
  have hattended : (started : Pool κ n).Attended := fun htasks => absurd rfl htasks
  rw [allRun_iff (balanced_run acts) ((stopping_run acts).exited hsettled),
    ← Runs.always_iff_run (P := Attended) fun _ a h => not_attended_next h a]
  exact Runs.always_iff_each (P := Attended) (C := PushInTime) (I := fun _ => True)
    (fun _ _ _ => trivial) (fun _ a _ hs => attended_next_iff hs a) trivial hattended acts

/-- A task is enqueued and run, and then the pool is stopped. -/
def enqueuedBeforeStop : List (PoolAct Bool 1) :=
  [.enqueue false, .push false, .notifyOne false none, .take 0, .execute 0 none, .decrement 0,
    .notifyDone 0 none, .stop true, .lower true, .notifyAll true, .take 0, .join true, .join true]

/-- Its only task has been run, and its push came in time. -/
theorem no_task_lost_before_stop : (Runs.run next started enqueuedBeforeStop).pushed = 1 ∧
    (Runs.run next started enqueuedBeforeStop).AllRun ∧
    Runs.Each next PushInTime started enqueuedBeforeStop := by
  have hall : (Runs.run next started enqueuedBeforeStop).AllRun := by decide
  exact ⟨by decide, hall, (no_task_lost_iff enqueuedBeforeStop (by decide)).mp hall⟩

/-- One thread has passed the test of `enqueue` when another runs `stop` to its end. -/
def enqueuedAcrossStop : List (PoolAct Bool 1) :=
  [.enqueue false, .stop true, .lower true, .notifyAll true, .take 0, .join true, .join true,
    .push false, .notifyOne false none]

/-- The pool has stopped with an accepted task in its queue. -/
theorem task_lost_across_stop : (Runs.run next started enqueuedAcrossStop).Settled ∧
    ¬ (Runs.run next started enqueuedAcrossStop).AllRun := by
  decide

end Pool

end ZeroLanCom
