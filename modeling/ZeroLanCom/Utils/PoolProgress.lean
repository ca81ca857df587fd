import ZeroLanCom.Library.Tally
import ZeroLanCom.Utils.PoolShutdown

/-!
# What the pool gets done

A worker that sleeps is not told of every task: `notify_one` may find somebody
else awake. The queue never gets ahead of those that are awake or about to be
woken, so no task waits for a worker that nobody wakes, and the calls under way
come to an end with the queue empty.
-/

namespace ZeroLanCom

open Tally

/-- The worker looks at the queue next. -/
def WorkerPhase.looks : WorkerPhase → Nat
  | .testing => 1
  | _ => 0

/-- Who has been woken does not sleep. -/
theorem WorkerPhase.woken_ne_asleep (phase : WorkerPhase) : phase.woken ≠ .asleep := by
  cases phase <;> simp [woken]

/-- A wake-up takes nobody's eyes off the queue. -/
theorem WorkerPhase.looks_le_woken (phase : WorkerPhase) : phase.looks ≤ phase.woken.looks := by
  cases phase <;> simp [woken, looks]

/-- The client is about to wake a worker. -/
def ClientPhase.notifies : ClientPhase → Nat
  | .pushed => 1
  | _ => 0

/-- And it owes nobody another one. -/
theorem ClientPhase.notifies_woken (phase : ClientPhase) :
    phase.woken.notifies = phase.notifies := by
  cases phase <;> rfl

/-- It belongs to a call that has been made, or to a worker that is awake. -/
def PoolAct.UnderWay {κ : Type*} {n : Nat} : PoolAct κ n → Prop
  | .enqueue _ => False
  | .wait _ => False
  | .stop _ => False
  | .wakeWorker _ => False
  | .wakeClient _ => False
  | _ => True

/-- How many steps a worker has ahead of it, and those it may cause. -/
def WorkerPhase.ahead : WorkerPhase → Nat
  | .testing => 1
  | .asleep => 0
  | .executing _ => 5
  | .executed _ => 4
  | .notifying => 3
  | .exited => 0

/-- The same for a client, in a pool of `n` workers. -/
def ClientPhase.ahead (n : Nat) : ClientPhase → Nat
  | .idle => 0
  | .accepted => 8
  | .pushed => 2
  | .checking _ => 1
  | .waiting _ => 0
  | .stopping => 2 * n + 4
  | .lowered => 2 * n + 3
  | .joining joined => n - joined + 1

/-- A worker that is woken has one more step ahead of it, -/
theorem WorkerPhase.ahead_woken_le (phase : WorkerPhase) :
    phase.woken.ahead ≤ phase.ahead + 1 := by
  cases phase <;> simp [woken, ahead]

/-- and so has a client. -/
theorem ClientPhase.ahead_woken_le (n : Nat) (phase : ClientPhase) :
    phase.woken.ahead n ≤ phase.ahead n + 1 := by
  cases phase <;> simp [woken, ahead]

namespace Pool

variable {κ : Type*} [Fintype κ] {n : Nat} {s s' : Pool κ n}

/-- The workers that look at the queue next, and the wake-ups that clients owe. -/
def attention (s : Pool κ n) : Nat :=
  tally WorkerPhase.looks s.workers + tally ClientPhase.notifies s.clients

/-- As long as some worker sleeps, there are no more tasks than that. -/
def Attentive (s : Pool κ n) : Prop :=
  (∃ w, s.workers w = .asleep) → s.tasks.length ≤ s.attention

/-- At the start nobody sleeps. -/
theorem attentive_started : (started : Pool κ n).Attentive := by
  rintro ⟨w, hasleep⟩
  cases hasleep

/-- An empty queue needs no attention. -/
theorem Attentive.of_empty (h : s.tasks = []) : s.Attentive := by
  intro _
  rw [h]
  exact Nat.zero_le _

/-- A worker moves that does not fall asleep, and looks at the queue next if it did before. -/
theorem Attentive.setWorker (h : s.Attentive) {w : Fin n} {phase : WorkerPhase}
    (hawake : phase ≠ .asleep) (hlooks : (s.workers w).looks ≤ phase.looks) :
    (s.setWorker w phase).Attentive := by
  rintro ⟨v, hv⟩
  have hne : v ≠ w := by
    rintro rfl
    exact hawake (by simpa [Pool.setWorker] using hv)
  have hbefore := h ⟨v, by simpa [Pool.setWorker, hne] using hv⟩
  have htally := tally_update WorkerPhase.looks s.workers w phase
  simp only [attention, Pool.setWorker] at hbefore ⊢
  omega

/-- A wake-up adds to the attention. -/
theorem Attentive.wakeWorker (h : s.Attentive) (w : Fin n) : (s.wakeWorker w).Attentive :=
  h.setWorker (WorkerPhase.woken_ne_asleep _) (WorkerPhase.looks_le_woken _)

variable [DecidableEq κ]

/-- A client moves, and owes as many wake-ups as before. -/
theorem Attentive.setClient (h : s.Attentive) {c : κ} {phase : ClientPhase}
    (hsame : phase.notifies = (s.clients c).notifies) : (s.setClient c phase).Attentive := by
  intro hasleep
  have hbefore := h hasleep
  have htally : tally ClientPhase.notifies (Function.update s.clients c phase) =
      tally ClientPhase.notifies s.clients := tally_update_of_eq hsame
  simp only [attention, Pool.setClient, htally] at hbefore ⊢
  exact hbefore

/-- That of a client does not take from it. -/
theorem Attentive.wakeClient (h : s.Attentive) (c : κ) : (s.wakeClient c).Attentive :=
  h.setClient (ClientPhase.notifies_woken _)

/-- The wake-up that a client owes goes to a sleeper, or nobody sleeps. -/
theorem Attentive.notifyOne (h : s.Attentive) {c : κ} {woken : Option (Fin n)}
    (hpushed : s.clients c = .pushed) (hwoken : s.NotifiesWorker woken) :
    ((woken.elim s s.wakeWorker).setClient c .idle).Attentive := by
  cases woken with
  | none =>
    rintro ⟨w, hasleep⟩
    have hnone := hwoken w
    rw [decide_eq_false_iff_not] at hnone
    exact absurd hasleep hnone
  | some w =>
    have hasleep : s.workers w = .asleep := of_decide_eq_true hwoken
    intro _
    have hbefore := h ⟨w, hasleep⟩
    have hworkers := tally_update WorkerPhase.looks s.workers w .testing
    have hclients := tally_update ClientPhase.notifies s.clients c .idle
    simp only [hasleep, hpushed, WorkerPhase.looks, ClientPhase.notifies] at hworkers hclients
    simp only [attention, Option.elim_some, Pool.wakeWorker, Pool.setWorker, Pool.setClient,
      hasleep, WorkerPhase.woken] at hbefore ⊢
    omega

/-- No move of any thread leaves a task to workers that sleep. -/
theorem Attentive.moves (h : s.Attentive) {a : PoolAct κ n} (hmoves : Moves s a s') :
    s'.Attentive := by
  cases hmoves with
  | accept hidle => exact h.setClient (by rw [hidle]; rfl)
  | wait hidle => exact h.setClient (by rw [hidle]; rfl)
  | done hchecking => exact h.setClient (by rw [hchecking]; rfl)
  | sleep hchecking => exact h.setClient (by rw [hchecking]; rfl)
  | stop hidle => exact h.setClient (by rw [hidle]; rfl)
  | @lower c hstopping =>
    have hsame : ClientPhase.lowered.notifies = (s.clients c).notifies := by
      rw [hstopping]
      rfl
    exact h.setClient hsame
  | join hjoining => exact h.setClient (by rw [hjoining]; rfl)
  | clear hjoining => exact h.setClient (by rw [hjoining]; rfl)
  | reject => exact h
  | stopped => exact h
  | @push c haccepted =>
    intro hasleep
    have hbefore := h hasleep
    have hclients := tally_update ClientPhase.notifies s.clients c .pushed
    simp only [haccepted, ClientPhase.notifies] at hclients
    simp only [attention, List.length_append, List.length_singleton] at hbefore ⊢
    omega
  | notifyOne hpushed hwoken => exact h.notifyOne hpushed hwoken
  | notifyAll =>
    rintro ⟨w, hasleep⟩
    exact absurd hasleep (WorkerPhase.woken_ne_asleep _)
  | rest htesting hempty => exact .of_empty hempty
  | exit htesting hempty => exact .of_empty hempty
  | @take w k tasks htesting htasks =>
    rintro ⟨v, hv⟩
    have hne : v ≠ w := by
      rintro rfl
      simp at hv
    have hbefore := h ⟨v, by simpa [hne] using hv⟩
    have hworkers := tally_update WorkerPhase.looks s.workers w (.executing k)
    simp only [htesting, WorkerPhase.looks] at hworkers
    simp only [attention, htasks, List.length_cons] at hbefore ⊢
    omega
  | execute hexecuting => exact h.setWorker (by simp) (by rw [hexecuting]; rfl)
  | decrement hexecuted => exact h.setWorker (by simp) (by rw [hexecuted]; rfl)
  | @notifyDone w woken hnotifying =>
    have hclient : (woken.elim s s.wakeClient).Attentive := by
      cases woken with
      | none => exact h
      | some c => exact h.wakeClient c
    refine hclient.setWorker (by simp) ?_
    cases woken <;> simp [Pool.wakeClient, Pool.setClient, hnotifying, WorkerPhase.looks]
  | wakeWorker => exact h.wakeWorker _
  | wakeClient => exact h.wakeClient _

/-- No task waits for a worker that sleeps, unless somebody else is there for it, or about to be
woken. -/
theorem no_task_overlooked (acts : List (PoolAct κ n)) :
    Runs.Always next Attentive (started : Pool κ n) acts :=
  Runs.always_of_invariant (I := Attentive) (fun _ _ h => next_of_moves h fun _ => h.moves)
    (fun _ h => h) attentive_started acts

/-- A step of what is under way. -/
def Advance (s s' : Pool κ n) : Prop := ∃ a, a.UnderWay ∧ s.step a = some s'

/-- The steps that what is under way has ahead of it at most. -/
def ahead (s : Pool κ n) : Nat :=
  5 * s.tasks.length + tally WorkerPhase.ahead s.workers + tally (ClientPhase.ahead n) s.clients

/-- A client that moves on trades its own steps only, -/
theorem setClient_ahead (s : Pool κ n) (c : κ) (phase : ClientPhase) :
    (s.setClient c phase).ahead + (s.clients c).ahead n = s.ahead + phase.ahead n := by
  have hclients := tally_update (ClientPhase.ahead n) s.clients c phase
  simp only [ahead, setClient]
  omega

omit [DecidableEq κ] in
/-- and so does a worker. -/
theorem setWorker_ahead (s : Pool κ n) (w : Fin n) (phase : WorkerPhase) :
    (s.setWorker w phase).ahead + (s.workers w).ahead = s.ahead + phase.ahead := by
  have hworkers := tally_update WorkerPhase.ahead s.workers w phase
  simp only [ahead, setWorker]
  omega

omit [DecidableEq κ] in
/-- A wake-up of a worker adds one step at most. -/
theorem ahead_wakeWorker_le (s : Pool κ n) (w : Fin n) : (s.wakeWorker w).ahead ≤ s.ahead + 1 := by
  have hwake := setWorker_ahead s w (s.workers w).woken
  have hle := WorkerPhase.ahead_woken_le (s.workers w)
  rw [wakeWorker]
  omega

/-- So does one of a client. -/
theorem ahead_wakeClient_le (s : Pool κ n) (c : κ) : (s.wakeClient c).ahead ≤ s.ahead + 1 := by
  have hwake := setClient_ahead s c (s.clients c).woken
  have hle := ClientPhase.ahead_woken_le n (s.clients c)
  rw [wakeClient]
  omega

/-- Whatever is under way gets closer to its end with every step. -/
theorem Moves.ahead_lt {a : PoolAct κ n} (hmoves : Moves s a s') (ha : a.UnderWay) :
    s'.ahead < s.ahead := by
  cases hmoves with
  | @push c haccepted =>
    have hclients := tally_update (ClientPhase.ahead n) s.clients c .pushed
    simp only [haccepted, ClientPhase.ahead] at hclients
    simp only [ahead, List.length_append, List.length_singleton]
    omega
  | @notifyOne c woken hpushed hwoken =>
    -- the client comes back, and the worker it wakes looks at the queue
    have hwake : (woken.elim s s.wakeWorker).ahead ≤ s.ahead + 1 := by
      cases woken with
      | none => exact Nat.le_succ _
      | some w => exact ahead_wakeWorker_le s w
    have hback := setClient_ahead (woken.elim s s.wakeWorker) c .idle
    have hclient : (woken.elim s s.wakeWorker).clients c = .pushed := by
      cases woken <;> exact hpushed
    simp only [hclient, ClientPhase.ahead] at hback
    omega
  | @done c since hchecking =>
    have hback := setClient_ahead s c .idle
    simp only [hchecking, ClientPhase.ahead] at hback
    omega
  | @sleep c since hchecking =>
    have hback := setClient_ahead s c (.waiting since)
    simp only [hchecking, ClientPhase.ahead] at hback
    omega
  | @lower c hstopping =>
    have hclients := tally_update (ClientPhase.ahead n) s.clients c .lowered
    simp only [hstopping, ClientPhase.ahead] at hclients
    simp only [ahead]
    omega
  | @notifyAll c hlowered =>
    have hclients := tally_update (ClientPhase.ahead n) s.clients c (.joining 0)
    have hworkers : tally WorkerPhase.ahead (fun w => (s.workers w).woken) ≤ _ :=
      tally_le_add_card fun w => WorkerPhase.ahead_woken_le (s.workers w)
    rw [Fintype.card_fin] at hworkers
    simp only [hlowered, ClientPhase.ahead] at hclients
    simp only [ahead]
    omega
  | @join c i hjoining hi hexited =>
    have hnext := setClient_ahead s c (.joining (i + 1))
    simp only [hjoining, ClientPhase.ahead] at hnext
    omega
  | @clear c i hjoining hi =>
    have hback := setClient_ahead s c .idle
    simp only [hjoining, ClientPhase.ahead] at hback
    omega
  | @rest w htesting =>
    have hrest := setWorker_ahead s w .asleep
    simp only [htesting, WorkerPhase.ahead] at hrest
    omega
  | @exit w htesting =>
    have hexit := setWorker_ahead s w .exited
    simp only [htesting, WorkerPhase.ahead] at hexit
    omega
  | @take w k tasks htesting htasks =>
    have hworkers := tally_update WorkerPhase.ahead s.workers w (.executing k)
    simp only [htesting, WorkerPhase.ahead] at hworkers
    simp only [ahead, htasks, List.length_cons]
    omega
  | @execute w thrown k hexecuting =>
    have hworkers := tally_update WorkerPhase.ahead s.workers w (.executed k)
    simp only [hexecuting, WorkerPhase.ahead] at hworkers
    simp only [ahead]
    omega
  | @decrement w k hexecuted =>
    have hworkers := tally_update WorkerPhase.ahead s.workers w .notifying
    simp only [hexecuted, WorkerPhase.ahead] at hworkers
    simp only [ahead]
    omega
  | @notifyDone w woken hnotifying hwoken =>
    have hwake : (woken.elim s s.wakeClient).ahead ≤ s.ahead + 1 := by
      cases woken with
      | none => exact Nat.le_succ _
      | some c => exact ahead_wakeClient_le s c
    have hback := setWorker_ahead (woken.elim s s.wakeClient) w .testing
    have hworker : (woken.elim s s.wakeClient).workers w = .notifying := by
      cases woken <;> exact hnotifying
    simp only [hworker, WorkerPhase.ahead] at hback
    omega
  | _ => exact ha.elim

/-- No thread of the pool can go on with what it has begun. -/
def Stuck (s : Pool κ n) : Prop := ∀ s', ¬ Advance s s'

/-- In a stuck pool no action under way is possible. -/
theorem Stuck.step_eq_none (h : s.Stuck) {a : PoolAct κ n} (ha : a.UnderWay) :
    s.step a = none := by
  cases hstep : s.step a with
  | none => rfl
  | some s' => exact absurd ⟨a, ha, hstep⟩ (h s')

/-- Somebody is woken if anybody sleeps. -/
theorem exists_notifies {θ : Type*} (asleep : θ → Bool) : ∃ woken, Notifies asleep woken := by
  by_cases hasleep : ∃ t, asleep t = true
  · obtain ⟨t, ht⟩ := hasleep
    exact ⟨some t, ht⟩
  · exact ⟨none, fun t => Bool.eq_false_iff.mpr fun ht => hasleep ⟨t, ht⟩⟩

/-- Its workers sleep or have exited. -/
theorem Stuck.worker (h : s.Stuck) (w : Fin n) :
    s.workers w = .asleep ∨ s.workers w = .exited := by
  cases hphase : s.workers w with
  | asleep => exact Or.inl rfl
  | exited => exact Or.inr rfl
  | testing =>
    have hnone := h.step_eq_none (a := .take w) trivial
    simp [step, hphase] at hnone
  | executing k =>
    have hnone := h.step_eq_none (a := .execute w none) trivial
    simp [step, hphase] at hnone
  | executed k =>
    have hnone := h.step_eq_none (a := .decrement w) trivial
    simp [step, hphase] at hnone
  | notifying =>
    obtain ⟨woken, hwoken⟩ := exists_notifies fun c => (s.clients c).isWaiting
    have hnone := h.step_eq_none (a := .notifyDone w woken) trivial
    rw [step, if_pos ⟨hphase, hwoken⟩] at hnone
    cases hnone

/-- The calls of `enqueue` and `stop` have returned. -/
theorem Stuck.client (h : s.Stuck) (hstopping : s.Stopping) (c : κ) :
    (s.clients c).inEnqueue = false ∧ (s.clients c).inStop = false := by
  cases hphase : s.clients c with
  | idle => exact ⟨rfl, rfl⟩
  | checking since => exact ⟨rfl, rfl⟩
  | waiting since => exact ⟨rfl, rfl⟩
  | accepted => exact absurd (h.step_eq_none (a := .push c) trivial) (step_push_ne_none hphase)
  | pushed =>
    obtain ⟨woken, hwoken⟩ := exists_notifies fun w => decide (s.workers w = .asleep)
    have hnone := h.step_eq_none (a := .notifyOne c woken) trivial
    rw [step, if_pos ⟨hphase, hwoken⟩] at hnone
    cases hnone
  | stopping =>
    have hnone := h.step_eq_none (a := .lower c) trivial
    simp [step, hphase] at hnone
  | lowered =>
    have hnone := h.step_eq_none (a := .notifyAll c) trivial
    simp [step, hphase] at hnone
  | joining i =>
    -- nobody sleeps any more, so the next worker has exited
    have hexited : ∀ w, s.workers w = .exited := fun w =>
      (h.worker w).resolve_left (hstopping.awake c i hphase w)
    have hnone := h.step_eq_none (a := .join c) trivial
    simp only [step, hphase, hexited, if_true] at hnone
    split_ifs at hnone

/-- A worker of a running pool does not exit. -/
def Staffed (s : Pool κ n) : Prop := s.isRunning = true → ∀ w, s.workers w ≠ .exited

omit [Fintype κ] in
/-- No worker exits before the flag is down. -/
theorem Staffed.moves (h : s.Staffed) {a : PoolAct κ n} (hmoves : Moves s a s') : s'.Staffed := by
  intro hrunning w hexited
  have hbefore : s.isRunning = true := by
    by_contra hdown
    have hstays := hmoves.stays_down (Bool.eq_false_iff.mpr hdown)
    rw [hrunning] at hstays
    cases hstays
  have hmove := hmoves.worker w
  rw [hexited] at hmove
  generalize hphase : s.workers w = phase at hmove
  cases hmove with
  | stay => exact h hbefore w hphase
  | exit _ _ hstopped =>
    rw [hbefore] at hstopped
    cases hstopped

/-- What holds between any two steps. -/
structure Sound (s : Pool κ n) : Prop where
  balanced : s.Balanced
  stopping : s.Stopping
  attentive : s.Attentive
  staffed : s.Staffed

omit [DecidableEq κ] in
/-- All of this holds at the start. -/
theorem sound_started : (started : Pool κ n).Sound :=
  ⟨balanced_started, stopping_started, attentive_started, fun _ _ h => nomatch h⟩

/-- And every move of a thread keeps it. -/
theorem Sound.moves (h : s.Sound) {a : PoolAct κ n} (hmoves : Moves s a s') : s'.Sound :=
  ⟨h.balanced.moves hmoves, h.stopping.moves hmoves, h.attentive.moves hmoves,
    h.staffed.moves hmoves⟩

/-- In particular the steps of what is under way do. -/
theorem Sound.advance (h : s.Sound) (hadvance : Advance s s') : s'.Sound := by
  obtain ⟨a, _, hstep⟩ := hadvance
  exact h.moves (step_cases hstep)

/-- Nobody looks at the queue, and nobody owes a wake-up. -/
theorem Stuck.attention (h : s.Stuck) (hstopping : s.Stopping) : s.attention = 0 := by
  have hworkers : tally WorkerPhase.looks s.workers = 0 := by
    rw [tally_eq_zero_iff]
    intro w
    rcases h.worker w with hphase | hphase <;> rw [hphase] <;> rfl
  have hclients : tally ClientPhase.notifies s.clients = 0 := by
    rw [tally_eq_zero_iff]
    intro c
    have hreturned := (h.client hstopping c).1
    cases hphase : s.clients c with
    | pushed =>
      rw [hphase] at hreturned
      cases hreturned
    | _ => rfl
  rw [Pool.attention, hworkers, hclients]

/-- A running pool stops only with an empty queue. -/
theorem Sound.allRun (h : s.Sound) (hn : 0 < n) (hrunning : s.isRunning = true) (hstuck : s.Stuck) :
    s.AllRun := by
  have hasleep : ∀ w, s.workers w = .asleep := fun w =>
    (hstuck.worker w).resolve_right (h.staffed hrunning w)
  have hle := h.attentive ⟨⟨0, hn⟩, hasleep _⟩
  rw [hstuck.attention h.stopping, Nat.le_zero, List.length_eq_zero_iff] at hle
  have hnone : ∀ k w, ¬ s.Executes w k := by
    intro k w hw
    rw [Executes, hasleep w] at hw
    cases hw
  refine ⟨hle, fun k hk => ?_⟩
  rcases h.balanced.conserved.place k hk with ⟨hqueued, _⟩ | ⟨_, ⟨w, hw, _⟩, _⟩ | ⟨_, _, _, honce⟩
  · rw [hle, List.count_nil] at hqueued
    cases hqueued
  · exact absurd hw (hnone k w)
  · exact honce

/-- Whatever the threads of a pool have begun comes to an end: only so many steps are possible
before new calls or spurious wake-ups, and when there are none left, the calls of `enqueue` and
`stop` have returned, and every task that a running pool accepted has been executed once. -/
theorem tasks_get_done (hn : 0 < n) (acts : List (PoolAct κ n)) :
    (∀ (f : Nat → Pool κ n) (m : Nat), f 0 = Runs.run next started acts →
      (∀ i < m, Advance (f i) (f (i + 1))) → m ≤ (Runs.run next started acts).ahead) ∧
      ∀ s', Relation.ReflTransGen Advance (Runs.run next started acts) s' → s'.Stuck →
        (∀ c, (s'.clients c).inEnqueue = false ∧ (s'.clients c).inStop = false) ∧
          (s'.isRunning = true → s'.AllRun) := by
  have hsound : (Runs.run next started acts : Pool κ n).Sound :=
    Runs.run_of_step (I := Sound) (fun _ _ h => next_of_moves h fun _ => h.moves) sound_started acts
  refine ⟨fun f m h0 hf => ?_, fun s' hrun hstuck => ?_⟩
  · rw [← h0] at hsound ⊢
    have hdescent := Runs.add_le_measure (I := Sound) ahead (fun s s' h hadvance => ?_) hf hsound
    · omega
    · obtain ⟨a, ha, hstep⟩ := hadvance
      exact ⟨h.moves (step_cases hstep), (step_cases hstep).ahead_lt ha⟩
  · have hend := Runs.reachable_invariant (I := Sound) (fun _ _ h => h.advance) hrun hsound
    exact ⟨hstuck.client hend.stopping, fun hrunning => hend.allRun hn hrunning hstuck⟩

/-- A client has pushed a task, and has not woken anybody yet. -/
def onePushed : List (PoolAct Bool 1) := [.enqueue true, .push true]

/-- Eight steps at most, and the task has been run. -/
theorem tasks_get_done_onePushed : (Runs.run next started onePushed).ahead = 8 ∧
    ∀ s', Relation.ReflTransGen Advance (Runs.run next started onePushed) s' → s'.Stuck →
      s'.isRunning = true → s'.AllRun :=
  ⟨rfl, fun s' hrun hstuck => ((tasks_get_done Nat.one_pos onePushed).2 s' hrun hstuck).2⟩

end Pool

end ZeroLanCom
