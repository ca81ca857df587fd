import ZeroLanCom.System.Threads

/-!
# Whether the shutdown comes to its end

`ZeroLanComNode::stop` waits for each task with a timeout and joins the workers
without one. The receiver looks at its flag between two callbacks, and its
callback sits in `recvfrom`. The heartbeats of the own sender, which would wake
it, have been stopped before.
-/

namespace ZeroLanCom

namespace Threads

namespace Node

variable {s s' : Node} {a : Act}

/-- The receive task is in the callback, and not in its loop. -/
def InCallback (s : Node) : Prop :=
  ∃ k, s.tasks.owner k = some .receiver ∧ s.tasks.loops k = .calling

/-- What the callback of the receiver waits for has not come, or is a datagram behind which it
waits for an answer. -/
def Awaits (s : Node) : Prop :=
  match s.receive with
  | .receiving => s.pending.head? ≠ some .plain
  | .fetching => s.replied = false
  | .handled => False

/-- The receive task is in its callback, and what it waits for may never come. -/
def Blocked (s : Node) : Prop := s.InCallback ∧ s.Awaits

/-- `MulticastReceiver::stop` has lowered its flag. -/
def Lowered (s : Node) : Prop := s.stopping = true ∧ Call.stop .receiver ∉ s.script

/-- The steps of the main thread in `ZeroLanComNode::stop`. -/
def isMain : PeriodicAct Loop 4 → Bool
  | .stop _ => true
  | .timeout => true
  | .pool (.stop _) => true
  | .pool (.lower _) => true
  | .pool (.notifyAll _) => true
  | .pool (.join _) => true
  | _ => false

/-- What the main thread does is done by a thread. -/
theorem isThread_of_isMain {b : PeriodicAct Loop 4} (h : isMain b = true) :
    (Act.task b).isThread = true := by
  unfold isMain at h
  split at h
  all_goals first | rfl | cases h

/-- A step that the loops have is one of the node. -/
theorem exists_step_task {b : PeriodicAct Loop 4} (hallows : s.allows b = true)
    (h : (s.tasks.step b).isSome = true) : ∃ s', s.step (.task b) = some s' := by
  obtain ⟨tasks, htasks⟩ := Option.isSome_iff_exists.mp h
  exact ⟨_, by rw [step, if_pos hallows, htasks]; rfl⟩

/-- A step that the pool has is one of the node. -/
theorem exists_step_pool {b : PoolAct Unit 4} (hallows : s.allows (.pool b) = true)
    (hpermits : s.tasks.permits b = true) (h : (s.tasks.pool.step b).isSome = true) :
    ∃ s', s.step (.task (.pool b)) = some s' := by
  refine exists_step_task hallows ?_
  rw [Periodic.step, if_pos hpermits, Option.isSome_map]
  exact h

/-- One thread that can go on is enough. -/
theorem live_of_step (hthread : a.isThread = true) (h : ∃ s', s.step a = some s') : s.Live :=
  Or.inr ⟨a, hthread, Option.isSome_iff_exists.mpr h⟩

/-- The main thread goes on until it waits for a worker to exit. -/
theorem Invariant.main_progress (h : s.Invariant) (hstopping : s.stopping = true) : s.Returned ∨
    (∃ b s', isMain b = true ∧ s.step (.task b) = some s') ∨
      ∃ w : Fin 4, s.tasks.pool.clients () = .joining w ∧ s.tasks.pool.workers w ≠ .exited ∧
        s.script = [] := by
  cases h.main hstopping with
  | idle hcontrol hclient =>
    cases hscript : s.script with
    | nil => exact Or.inl ⟨hstopping, hscript, hcontrol, hclient⟩
    | cons c rest =>
      right
      left
      cases c with
      | start t => exact absurd (by rw [hscript]; rfl) (head?_ne_start (h.script hstopping) t)
      | stop t =>
        have hstep : (s.tasks.step (.stop t)).isSome = true := by
          rw [Periodic.step, if_pos ⟨hcontrol, hclient⟩]
          split_ifs <;> rfl
        obtain ⟨s', hs'⟩ := exists_step_task (by simp [allows, callOf, hscript]) hstep
        exact ⟨_, s', rfl, hs'⟩
      | stopPool =>
        have hstep : (s.tasks.pool.step (.stop ())).isSome = true := by simp [Pool.step, hclient]
        obtain ⟨s', hs'⟩ := exists_step_pool (by simp [allows, callOf, hscript])
          (by simp [Periodic.permits, hcontrol]) hstep
        exact ⟨_, s', rfl, hs'⟩
  | waiting t hcontrol =>
    right
    left
    have hstep : (s.tasks.step .timeout).isSome = true := by simp [Periodic.step, hcontrol]
    obtain ⟨s', hs'⟩ := exists_step_task rfl hstep
    exact ⟨_, s', rfl, hs'⟩
  | pool hcontrol hclient hscript =>
    right
    have hpool : ∀ b, isMain (.pool b) = true → (s.allows (.pool b) = true) →
        s.tasks.permits b = true → (s.tasks.pool.step b).isSome = true →
          ∃ b s', isMain b = true ∧ s.step (.task b) = some s' := by
      intro b hmain hallows hpermits hstep
      obtain ⟨s', hs'⟩ := exists_step_pool hallows hpermits hstep
      exact ⟨_, s', hmain, hs'⟩
    cases hphase : s.tasks.pool.clients () with
    | stopping =>
      exact Or.inl (hpool (.lower ()) rfl rfl (by simp [Periodic.permits, hcontrol])
        (by simp [Pool.step, hphase]))
    | lowered =>
      exact Or.inl (hpool (.notifyAll ()) rfl rfl (by simp [Periodic.permits, hcontrol])
        (by simp [Pool.step, hphase]))
    | joining i =>
      by_cases hi : i < 4
      · by_cases hexited : s.tasks.pool.workers ⟨i, hi⟩ = .exited
        · exact Or.inl (hpool (.join ()) rfl rfl (by simp [Periodic.permits, hcontrol])
            (by simp [Pool.step, hphase, hi, hexited]))
        · exact Or.inr ⟨⟨i, hi⟩, rfl, hexited, hscript⟩
      · exact Or.inl (hpool (.join ()) rfl rfl (by simp [Periodic.permits, hcontrol])
          (by simp [Pool.step, hphase, hi]))
    | _ =>
      rw [hphase] at hclient
      cases hclient

/-- A worker goes on unless it executes a callback that waits. -/
theorem Invariant.worker_progress (h : s.Invariant) {w : Fin 4} {i : Nat}
    (hjoining : s.tasks.pool.clients () = .joining i) (hw : s.tasks.pool.workers w ≠ .exited)
    (hfree : ¬ s.Blocked) : s.Live := by
  cases hphase : s.tasks.pool.workers w with
  | testing =>
    exact live_of_step rfl
      (exists_step_pool (b := .take w) rfl rfl (by simp [Pool.step, hphase]))
  | asleep => exact absurd hphase (h.sound.stopping.awake () i hjoining w)
  | executing k =>
    obtain ⟨t, hloop⟩ := h.sound.loopAt_of_executing hphase
    cases hk : s.tasks.loops k with
    | testing =>
      exact live_of_step rfl
        (exists_step_task (b := .test w) rfl (by simp [Periodic.step, hloop, hk]))
    | calling =>
      have hcall : (s.tasks.step (.call w none)).isSome = true := by
        simp [Periodic.step, hloop, hk]
      by_cases ht : t = .receiver
      · subst ht
        have hreceives : s.receivesAt w = true := by simp [receivesAt, hloop, hk]
        have hawaits : ¬ s.Awaits := fun hawaits =>
          hfree ⟨⟨k, (Periodic.loopAt_eq_some_iff.mp hloop).2, hk⟩, hawaits⟩
        unfold Awaits at hawaits
        cases hreceive : s.receive with
        | receiving =>
          simp only [hreceive, ne_eq, not_not, List.head?_eq_some_iff] at hawaits
          obtain ⟨pending, hpending⟩ := hawaits
          exact live_of_step (a := .recvfrom w) rfl
            ⟨_, by rw [step, if_pos ⟨hreceives, hreceive⟩, hpending]⟩
        | fetching =>
          simp only [hreceive, Bool.not_eq_false] at hawaits
          exact live_of_step (a := .fetched w) rfl
            ⟨_, by rw [step, if_pos ⟨hreceives, hreceive, hawaits⟩]⟩
        | handled =>
          exact live_of_step rfl
            (exists_step_task (b := .call w none) (by simp [allows, hreceive]) hcall)
      · exact live_of_step rfl
          (exists_step_task (b := .call w none) (by simp [allows, hloop, ht]) hcall)
    | sleeping =>
      exact live_of_step rfl
        (exists_step_task (b := .sleep w) rfl (by simp [Periodic.step, hloop, hk]))
    | signalling =>
      exact live_of_step rfl
        (exists_step_task (b := .signal w) rfl (by simp [Periodic.step, hloop, hk]))
    | returned =>
      exact live_of_step rfl (exists_step_pool (b := .execute w none) rfl
        (by simp [Periodic.permits, hloop, hk]) (by simp [Pool.step, hphase]))
  | executed k =>
    exact live_of_step rfl
      (exists_step_pool (b := .decrement w) rfl rfl (by simp [Pool.step, hphase]))
  | notifying =>
    have hnobody : s.tasks.pool.NotifiesClient none := fun c =>
      ClientPhase.isWaiting_of_pending (h.sound.nobodyWaits c)
    exact live_of_step rfl
      (exists_step_pool (b := .notifyDone w none) rfl rfl (by simp [Pool.step, hphase, hnobody]))
  | exited => exact absurd hphase hw

/-- A stopping node whose receive task is not blocked has a thread that can go on. -/
theorem Invariant.live (h : s.Invariant) (hstopping : s.stopping = true) (hfree : ¬ s.Blocked) :
    s.Live := by
  rcases h.main_progress hstopping with hreturned | ⟨b, s', hmain, hstep⟩ | ⟨w, hjoining, hw, _⟩
  · exact Or.inl hreturned
  · exact live_of_step (isThread_of_isMain hmain) ⟨s', hstep⟩
  · exact h.worker_progress hjoining hw hfree

/-- A flag that is down stays down. -/
theorem Lowered.moves (h : s.Lowered) (hmoves : Moves s a s') : s'.Lowered := by
  cases hmoves with
  | task => exact ⟨h.1, fun hmem => h.2 ((s.scriptAfter_suffix _).subset hmem)⟩
  | stop _ _ hrunning =>
    have hstopping := h.1
    rw [hrunning] at hstopping
    cases hstopping
  | _ => exact h

/-- The callback of the receiver is not entered any more. -/
theorem Invariant.receiveAfter (h : s.Invariant) (hlowered : s.Lowered)
    {b : PeriodicAct Loop 4} {tasks : Periodic Loop 4} (htasks : Periodic.Moves s.tasks b tasks) :
    s.receiveAfter tasks b = s.receive := by
  cases htasks with
  | @enter w k t hloop _ hup =>
    have hsame : (s.tasks.setLoop k .calling).loopAt w = some (k, t) := hloop
    have ht : t ≠ .receiver := by
      rintro rfl
      rw [h.lowered hlowered.1 .receiver hlowered.2] at hup
      cases hup
    simp only [Node.receiveAfter, hsame]
    cases t with
    | receiver => exact absurd rfl ht
    | _ => rfl
  | @leave w k t hloop =>
    have hsame : (s.tasks.setLoop k .signalling).loopAt w = some (k, t) := hloop
    simp only [Node.receiveAfter, hsame]
    cases t with
    | receiver => simp [Periodic.setLoop]
    | _ => rfl
  | _ => rfl

/-- A receiver in its callback has been there before. -/
theorem Invariant.inCallback_of_task (h : s.Invariant) (hlowered : s.Lowered)
    {b : PeriodicAct Loop 4} {tasks : Periodic Loop 4} (htasks : Periodic.Moves s.tasks b tasks)
    {k : Nat} (howner : tasks.owner k = some .receiver) (hcalling : tasks.loops k = .calling) :
    s.InCallback := by
  have hmove := htasks.loop k
  rw [hcalling] at hmove
  generalize hbefore : s.tasks.loops k = phase at hmove
  cases hmove with
  | stay =>
    obtain ⟨w, t, hloop⟩ := h.sound.called k hbefore
    rw [htasks.owner (h.sound.lt_of_loopAt hloop)] at howner
    exact ⟨k, howner, hbefore⟩
  | @enter w t hloop hup =>
    rw [htasks.owner (h.sound.lt_of_loopAt hloop), (Periodic.loopAt_eq_some_iff.mp hloop).2]
      at howner
    rw [Option.some.inj howner, h.lowered hlowered.1 .receiver hlowered.2] at hup
    cases hup

/-- A blocked receive task has been blocked before, once the flag is down. -/
theorem Invariant.blocked_moves (h : s.Invariant) (hlowered : s.Lowered) (hmoves : Moves s a s')
    (hblocked : s'.Blocked) : s.Blocked := by
  obtain ⟨⟨k, howner, hcalling⟩, hawaits⟩ := hblocked
  cases hmoves with
  | task _ htasks =>
    refine ⟨h.inCallback_of_task hlowered htasks howner hcalling, ?_⟩
    simpa only [Awaits, h.receiveAfter hlowered htasks] using hawaits
  | send _ htasks =>
    refine ⟨h.inCallback_of_task hlowered htasks howner hcalling, ?_⟩
    cases hreceive : s.receive with
    | receiving =>
      simp only [Awaits, hreceive] at hawaits ⊢
      intro hhead
      exact hawaits (by rw [List.head?_append, hhead]; rfl)
    | fetching => simpa only [Awaits, hreceive] using hawaits
    | handled => simp only [Awaits, hreceive] at hawaits
  | handle => cases hawaits
  | fetch _ hreceiving hpending =>
    refine ⟨⟨k, howner, hcalling⟩, ?_⟩
    simp [Awaits, hreceiving, hpending]
  | fetched => cases hawaits
  | stop _ _ hrunning =>
    rw [hlowered.1] at hrunning
    cases hrunning
  | arrive hrunning =>
    rw [hlowered.1] at hrunning
    cases hrunning
  | reply hfetching => simp [Awaits, hfetching] at hawaits

/-- Nothing that happens later blocks it. -/
theorem always_live (h : s.Invariant) (hlowered : s.Lowered) (hfree : ¬ s.Blocked)
    (acts : List Act) : Runs.Always next Live s acts := by
  refine Runs.always_of_invariant (I := fun s => s.Invariant ∧ s.Lowered ∧ ¬ s.Blocked) ?_ ?_
    ⟨h, hlowered, hfree⟩ acts
  · rintro s a ⟨h, hlowered, hfree⟩
    refine next_of_moves (P := fun s => s.Invariant ∧ s.Lowered ∧ ¬ s.Blocked)
      ⟨h, hlowered, hfree⟩ fun s' hmoves => ?_
    exact ⟨h.moves hmoves, hlowered.moves hmoves,
      fun hblocked => hfree (h.blocked_moves hlowered hmoves hblocked)⟩
  · rintro s ⟨h, hlowered, hfree⟩
    exact h.live hlowered.1 hfree

/-- The callback of the receiver waits for something that has not come. -/
def Starved (s : Node) : Prop :=
  (s.receive = .receiving ∧ s.pending = []) ∨ (s.receive = .fetching ∧ s.replied = false)

/-- A stopping node whose receive task waits for what is not there. -/
structure Hung (s : Node) : Prop where
  invariant : s.Invariant
  lowered : s.Lowered
  callback : s.InCallback
  starved : s.Starved

/-- The callback is not about to return. -/
theorem Hung.not_handled (h : s.Hung) : s.receive ≠ .handled := by
  rcases h.starved with ⟨hreceive, _⟩ | ⟨hreceive, _⟩ <;> simp [hreceive]

/-- Its worker never exits. -/
theorem Hung.not_returned (h : s.Hung) : ¬ s.Returned := by
  rintro ⟨hstopping, hscript, _, hidle⟩
  have hdown : s.tasks.pool.isRunning = false := by
    rcases h.invariant.closed hstopping (by simp [hscript]) with hdown | hclient
    · exact hdown
    · rw [hidle] at hclient
      cases hclient
  have hsettled : s.tasks.pool.Settled := by
    refine ⟨hdown, fun c => ?_⟩
    have hc : s.tasks.pool.clients c = .idle := hidle
    rw [hc]
    exact ⟨rfl, rfl⟩
  obtain ⟨k, _, hcalling⟩ := h.callback
  obtain ⟨w, t, hloop⟩ := h.invariant.sound.called k hcalling
  have hexited := h.invariant.sound.stopping.exited hsettled w
  rw [(Periodic.loopAt_eq_some_iff.mp hloop).1] at hexited
  cases hexited

/-- No step of the tasks gets it out of its callback. -/
theorem Hung.moves (h : s.Hung) {b : PeriodicAct Loop 4} (hmoves : Moves s (.task b) s') :
    s'.Hung := by
  refine ⟨h.invariant.moves hmoves, h.lowered.moves hmoves, ?_, ?_⟩
  · cases hmoves with
    | task hallows htasks =>
      obtain ⟨k, howner, hcalling⟩ := h.callback
      obtain ⟨w, t, hloop⟩ := h.invariant.sound.called k hcalling
      refine ⟨k, (htasks.owner (h.invariant.sound.lt_of_loopAt hloop)).trans howner, ?_⟩
      have hmove := htasks.loop k
      rw [hcalling] at hmove
      generalize Periodic.loops _ k = phase at hmove ⊢
      cases hmove with
      | stay => rfl
      | @call v u _ hb hcall =>
        subst hb
        rw [(Periodic.loopAt_eq_some_iff.mp hcall).2] at howner
        have hhandled : s.receive = .handled := by
          simpa [allows, hcall, Option.some.inj howner] using hallows
        exact absurd hhandled h.not_handled
  · cases hmoves with
    | task _ htasks =>
      simpa only [Starved, h.invariant.receiveAfter h.lowered htasks] using h.starved

/-- The main thread's steps of waiting for a loop. -/
def controlWork : ControlPhase Loop → Nat
  | .waiting _ => 1
  | _ => 0

/-- Its steps of stopping the pool. -/
def clientWork : ClientPhase → Nat
  | .stopping => 7
  | .lowered => 6
  | .joining i => 5 - i
  | _ => 0

/-- The steps of a loop whose flag is down. -/
def loopWork : LoopPhase → Nat
  | .calling => 4
  | .sleeping => 3
  | .testing => 2
  | .signalling => 1
  | .returned => 0

/-- The steps of a worker of a stopped pool, those of the loop it executes among them. -/
def workerWork (loops : Nat → LoopPhase) : WorkerPhase → Nat
  | .executing k => loopWork (loops k) + 4
  | .executed _ => 3
  | .notifying => 2
  | .testing => 1
  | .asleep => 1
  | .exited => 0

/-- The steps that the main thread can make before it has joined the workers. -/
def mainWork (s : Node) : Nat :=
  10 * s.script.length + controlWork s.tasks.control + clientWork (s.tasks.pool.clients ())

/-- A bound on the steps of the workers once all the flags are down. -/
def workersWork (s : Node) : Nat :=
  10 * s.tasks.pool.tasks.length +
    Pool.total (workerWork s.tasks.loops) s.tasks.pool.workers

/-- Waking a worker up does not change what it has before it. -/
theorem workerWork_woken (loops : Nat → LoopPhase) (phase : WorkerPhase) :
    workerWork loops phase.woken = workerWork loops phase := by
  cases phase <;> rfl

/-- A loop whose flag is down has four steps at most. -/
theorem loopWork_le (phase : LoopPhase) : loopWork phase ≤ 4 := by
  cases phase <;> decide

/-- Making a call takes it off the script. -/
theorem length_script {b : PeriodicAct Loop 4} {c : Call} (hallows : s.allows b = true)
    (hcall : callOf b = some c) : s.script.length = (s.scriptAfter b).length + 1 := by
  have hhead := head?_of_allows hallows hcall
  unfold scriptAfter
  rw [hcall]
  cases hscript : s.script with
  | nil =>
    rw [hscript] at hhead
    cases hhead
  | cons d rest => rfl

/-- The main thread comes nearer to its end. -/
theorem Hung.main_work (h : s.Hung) {b : PeriodicAct Loop 4} (hmain : isMain b = true)
    (hmoves : Moves s (.task b) s') :
    s'.mainWork < s.mainWork ∧ s'.workersWork = s.workersWork := by
  cases hmoves with
  | task hallows htasks =>
    cases htasks with
    | stop hidle =>
      refine ⟨?_, rfl⟩
      have hlength := length_script hallows rfl
      simp only [mainWork, controlWork, hidle.1]
      omega
    | stopAgain hidle =>
      refine ⟨?_, rfl⟩
      have hlength := length_script hallows rfl
      simp only [mainWork]
      omega
    | timeout hwaiting =>
      refine ⟨?_, rfl⟩
      simp [mainWork, controlWork, hwaiting, scriptAfter, callOf]
    | pool _ hpool =>
      cases hpool with
      | @stop c hidle =>
        refine ⟨?_, rfl⟩
        have hlength := length_script hallows rfl
        simp only [mainWork, Pool.setClient, Function.update_self, clientWork]
        omega
      | stopped =>
        refine ⟨?_, rfl⟩
        have hlength := length_script hallows rfl
        simp only [mainWork]
        omega
      | lower hstopping =>
        refine ⟨?_, rfl⟩
        simp only [mainWork, Function.update_self, clientWork, hstopping]
        simp [scriptAfter, callOf]
      | notifyAll hlowered =>
        refine ⟨?_, ?_⟩
        · simp only [mainWork, Function.update_self, clientWork, hlowered]
          simp [scriptAfter, callOf]
        · simp only [workersWork, Pool.total, workerWork_woken]
      | join hjoining hi =>
        refine ⟨?_, rfl⟩
        simp only [mainWork, Pool.setClient, Function.update_self, clientWork, hjoining]
        simp [scriptAfter, callOf]
        omega
      | clear hjoining hi =>
        obtain ⟨k, _, hcalling⟩ := h.callback
        obtain ⟨w, t, hloop⟩ := h.invariant.sound.called k hcalling
        have hexited := h.invariant.sound.stopping.joined _ _ hjoining w (w.isLt.trans_le hi)
        rw [(Periodic.loopAt_eq_some_iff.mp hloop).1] at hexited
        cases hexited
      | _ => cases hmain
    | _ => cases hmain

/-- A call of `runLoop` comes nearer to its end. -/
theorem total_setLoop_lt {tasks : Periodic Loop 4} {w : Fin 4} {k : Nat} {t : Loop}
    {phase : LoopPhase} (hloop : tasks.loopAt w = some (k, t))
    (hphase : loopWork phase < loopWork (tasks.loops k)) :
    Pool.total (workerWork (Function.update tasks.loops k phase)) tasks.pool.workers <
      Pool.total (workerWork tasks.loops) tasks.pool.workers := by
  have hle : ∀ j, loopWork (Function.update tasks.loops k phase j) ≤ loopWork (tasks.loops j) := by
    intro j
    by_cases hj : j = k
    · rw [hj, Function.update_self]
      exact hphase.le
    · rw [Function.update_of_ne hj]
  refine Finset.sum_lt_sum (fun v _ => ?_) ⟨w, Finset.mem_univ w, ?_⟩
  · cases tasks.pool.workers v with
    | executing j => exact Nat.add_le_add_right (hle j) 4
    | _ => exact le_rfl
  · rw [(Periodic.loopAt_eq_some_iff.mp hloop).1]
    simp only [workerWork, Function.update_self]
    omega

/-- Less work of one worker is less work of all. -/
theorem total_update_lt {f : WorkerPhase → Nat} {workers : Fin 4 → WorkerPhase} {w : Fin 4}
    {phase : WorkerPhase} (h : f phase < f (workers w)) :
    Pool.total f (Function.update workers w phase) < Pool.total f workers := by
  have hmoved := Pool.total_update f workers w phase
  omega

/-- With all the flags down, a worker that makes a step comes nearer to its exit. -/
theorem Hung.workers_work (h : s.Hung) {i : Nat} (hjoining : s.tasks.pool.clients () = .joining i)
    {b : PeriodicAct Loop 4} (hthread : (Act.task b).isThread = true) (hmain : isMain b = false)
    (hmoves : Moves s (.task b) s') :
    s'.mainWork = s.mainWork ∧ s'.workersWork < s.workersWork := by
  have hstopping := h.lowered.1
  have hdown : s.tasks.pool.isRunning = false :=
    h.invariant.sound.stopping.lowered () (by rw [hjoining]; rfl)
  obtain ⟨hcontrol, hscript⟩ : s.tasks.control = .idle ∧ s.script = [] := by
    cases h.invariant.main hstopping with
    | idle _ hclient => rw [hjoining] at hclient; cases hclient
    | waiting _ _ hclient => rw [hjoining] at hclient; cases hclient
    | pool hcontrol _ hscript => exact ⟨hcontrol, hscript⟩
  have hflags : ∀ t, s.tasks.isRunning t = false := fun t =>
    h.invariant.lowered hstopping t (by simp [hscript])
  cases hmoves with
  | task hallows htasks =>
    cases htasks with
    | start => exact absurd hallows fun ha => h.invariant.not_start hstopping ha
    | startAgain => exact absurd hallows fun ha => h.invariant.not_start hstopping ha
    | enqueue hstarting => rw [hcontrol] at hstarting; cases hstarting
    | push hstarting => rw [hcontrol] at hstarting; cases hstarting
    | notifyOne hstarted => rw [hcontrol] at hstarted; cases hstarted
    | ready hwaiting => rw [hcontrol] at hwaiting; cases hwaiting
    | enter _ _ hup => rw [hflags] at hup; cases hup
    | leave hloop htesting =>
      refine ⟨rfl, Nat.add_lt_add_left (total_setLoop_lt hloop ?_) _⟩
      rw [htesting]
      exact Nat.lt_succ_self _
    | call hloop hcalling =>
      refine ⟨rfl, Nat.add_lt_add_left (total_setLoop_lt hloop ?_) _⟩
      rw [hcalling]
      exact Nat.lt_succ_self _
    | sleep hloop hsleeping =>
      refine ⟨rfl, Nat.add_lt_add_left (total_setLoop_lt hloop ?_) _⟩
      rw [hsleeping]
      exact Nat.lt_succ_self _
    | signal hloop hsignalling =>
      refine ⟨rfl, Nat.add_lt_add_left (total_setLoop_lt hloop ?_) _⟩
      rw [hsignalling]
      exact Nat.lt_succ_self _
    | pool hpermits hpool =>
      cases hpool with
      | rest _ _ hrunning => rw [hdown] at hrunning; cases hrunning
      | exit htesting =>
        refine ⟨rfl, Nat.add_lt_add_left (total_update_lt ?_) _⟩
        rw [htesting]
        exact Nat.lt_succ_self _
      | @take w k rest htesting hqueue =>
        have hmoved := Pool.total_update (workerWork s.tasks.loops) s.tasks.pool.workers w
          (.executing k)
        have hle := loopWork_le (s.tasks.loops k)
        refine ⟨rfl, ?_⟩
        simp only [workersWork, hqueue, List.length_cons]
        simp only [htesting, workerWork] at hmoved
        omega
      | execute hexecuting =>
        refine ⟨rfl, Nat.add_lt_add_left (total_update_lt ?_) _⟩
        rw [hexecuting, workerWork, workerWork]
        omega
      | decrement hexecuted =>
        refine ⟨rfl, Nat.add_lt_add_left (total_update_lt ?_) _⟩
        rw [hexecuted]
        exact Nat.lt_succ_self _
      | @notifyDone _ woken hnotifying hwoken =>
        cases woken with
        | none =>
          refine ⟨rfl, Nat.add_lt_add_left (total_update_lt ?_) _⟩
          change workerWork _ _ < workerWork _ (s.tasks.pool.workers _)
          rw [hnotifying]
          exact Nat.lt_succ_self _
        | some c =>
          have hwaiting : (s.tasks.pool.clients c).isWaiting = true := hwoken
          rw [ClientPhase.isWaiting_of_pending (h.invariant.sound.nobodyWaits c)] at hwaiting
          cases hwaiting
      | wakeWorker => cases hthread
      | _ => first | cases hpermits | cases hmain
    | _ => cases hmain

/-- Such a node has no step, or one that leaves it hung with less to do. -/
theorem Hung.descends (h : s.Hung) : ¬ s.Live ∨
    ∃ a, (s.next a).Hung ∧ (s.next a).mainWork + (s.next a).workersWork <
      s.mainWork + s.workersWork := by
  by_cases hlive : s.Live
  swap
  · exact Or.inl hlive
  right
  have hstep : ∀ {b s'}, s.step (.task b) = some s' →
      s'.mainWork + s'.workersWork < s.mainWork + s.workersWork →
        ∃ a, (s.next a).Hung ∧ (s.next a).mainWork + (s.next a).workersWork <
          s.mainWork + s.workersWork := by
    intro b s' hs' hlt
    refine ⟨.task b, ?_⟩
    rw [next, hs', Option.getD_some]
    exact ⟨h.moves (step_cases hs'), hlt⟩
  have hmainStep : ∀ {b s'}, isMain b = true → s.step (.task b) = some s' →
      s'.mainWork + s'.workersWork < s.mainWork + s.workersWork := by
    intro b s' hmain hs'
    obtain ⟨hlt, heq⟩ := h.main_work hmain (step_cases hs')
    omega
  rcases h.invariant.main_progress h.lowered.1 with hreturned | ⟨b, s', hmain, hs'⟩ |
    ⟨w, hjoining, _⟩
  · exact absurd hreturned h.not_returned
  · exact hstep hs' (hmainStep hmain hs')
  · have hworker : ∀ {b s'}, (Act.task b).isThread = true → s.step (.task b) = some s' →
        s'.mainWork + s'.workersWork < s.mainWork + s.workersWork := by
      intro b s' hthread hs'
      cases hmain : isMain b with
      | true => exact hmainStep hmain hs'
      | false =>
        obtain ⟨heq, hlt⟩ := h.workers_work hjoining hthread hmain (step_cases hs')
        omega
    rcases hlive with hreturned | ⟨a, hthread, hsome⟩
    · exact absurd hreturned h.not_returned
    · obtain ⟨s', hs'⟩ := Option.isSome_iff_exists.mp hsome
      cases a with
      | task b => exact hstep hs' (hworker hthread hs')
      | send v =>
        -- the heartbeat is lost
        rw [step, Option.ite_none_right_eq_some] at hs'
        obtain ⟨hsender, hs'⟩ := hs'
        obtain ⟨tasks, htasks, _⟩ := Option.map_eq_some_iff.mp hs'
        have hallows : s.allows (.call v none) = true := by
          cases hp : s.tasks.loopAt v with
          | none => simp [hp] at hsender
          | some p =>
            simp only [hp, Option.any_some, decide_eq_true_eq] at hsender
            simp [allows, hp, hsender]
        obtain ⟨s'', hs''⟩ := exists_step_task hallows (by rw [htasks]; rfl)
        exact hstep hs'' (hworker rfl hs'')
      | recvfrom v =>
        cases step_cases hs' with
        | handle _ hreceiving hpending =>
          rcases h.starved with ⟨_, hempty⟩ | ⟨hfetching, _⟩ <;> simp_all
        | fetch _ hreceiving hpending =>
          rcases h.starved with ⟨_, hempty⟩ | ⟨hfetching, _⟩ <;> simp_all
      | fetched v =>
        cases step_cases hs' with
        | fetched _ hfetching hreplied =>
          rcases h.starved with ⟨hreceiving, _⟩ | ⟨_, hnone⟩ <;> simp_all
      | stop =>
        cases step_cases hs' with
        | stop _ _ hrunning =>
          rw [h.lowered.1] at hrunning
          cases hrunning
      | arrive => cases hthread
      | reply => cases hthread

/-- What waits for an answer behind a datagram waits for the answer next. -/
theorem exists_hung (h : s.Invariant) (hlowered : s.Lowered) (hblocked : s.Blocked) :
    ∃ acts, (Runs.run next s acts).Hung := by
  obtain ⟨hcallback, hawaits⟩ := hblocked
  unfold Awaits at hawaits
  cases hreceive : s.receive with
  | receiving =>
    cases hpending : s.pending with
    | nil => exact ⟨[], h, hlowered, hcallback, Or.inl ⟨hreceive, hpending⟩⟩
    | cons d pending =>
      cases d with
      | plain => simp [hreceive, hpending] at hawaits
      | fetching =>
        obtain ⟨k, howner, hcalling⟩ := hcallback
        obtain ⟨w, t, hloop⟩ := h.sound.called k hcalling
        have ht : t = .receiver := by
          rw [(Periodic.loopAt_eq_some_iff.mp hloop).2] at howner
          exact Option.some.inj howner
        have hreceives : s.receivesAt w = true := by simp [receivesAt, hloop, ht, hcalling]
        have hstep : s.step (.recvfrom w) = some
            { s with pending := pending, receive := .fetching, replied := false } := by
          rw [step, if_pos ⟨hreceives, hreceive⟩, hpending]
        have hmoves := step_cases hstep
        refine ⟨[.recvfrom w], ?_⟩
        rw [Runs.run_cons, Runs.run_nil, next, hstep, Option.getD_some]
        exact ⟨h.moves hmoves, hlowered.moves hmoves, ⟨k, howner, hcalling⟩, Or.inr ⟨rfl, rfl⟩⟩
  | fetching =>
    simp only [hreceive] at hawaits
    exact ⟨[], h, hlowered, hcallback, Or.inr ⟨hreceive, hawaits⟩⟩
  | handled => simp [hreceive] at hawaits

/-- The others run out of work, and then nobody can go on. -/
theorem exists_stuck (h : s.Invariant) (hlowered : s.Lowered) (hblocked : s.Blocked) :
    ∃ acts, ¬ Runs.Always next Live s acts := by
  obtain ⟨before, hhung⟩ := exists_hung h hlowered hblocked
  obtain ⟨acts, hstuck⟩ := Runs.exists_run_of_measure (Q := fun s => ¬ s.Live)
    (fun s => s.mainWork + s.workersWork) (fun _ h => h.descends) hhung
  refine ⟨before ++ acts, fun halways => hstuck ?_⟩
  have hend := Runs.run_of_always halways
  rwa [Runs.run, List.foldl_append] at hend

/-- Up to the call that lowers the flag of the receiver, some thread can always go on. From then on
no order of steps gets the shutdown stuck, exactly if the callback of the receiver does not wait at
that moment for what may never come. -/
theorem shutdown_unstuck_iff (acts : List Act)
    (hstopping : (Runs.run next started acts).stopping = true) :
    (Call.stop .receiver ∈ (Runs.run next started acts).script →
      (Runs.run next started acts).Live) ∧
    (Call.stop .receiver ∉ (Runs.run next started acts).script →
      ((∀ more, Runs.Always next Live (Runs.run next started acts) more) ↔
        ¬ (Runs.run next started acts).Blocked)) := by
  have h := invariant_run acts
  constructor
  · intro hscript
    rcases h.main_progress hstopping with hreturned | ⟨b, s', hmain, hstep⟩ | ⟨w, _, _, hempty⟩
    · exact Or.inl hreturned
    · exact live_of_step (isThread_of_isMain hmain) ⟨s', hstep⟩
    · rw [hempty] at hscript
      cases hscript
  · intro hscript
    constructor
    · intro hlive hblocked
      obtain ⟨more, hstuck⟩ := exists_stuck h ⟨hstopping, hscript⟩ hblocked
      exact hstuck (hlive more)
    · intro hfree more
      exact always_live h ⟨hstopping, hscript⟩ hfree more

/-- `PeriodicTask::start` to its end. -/
def starting (t : Loop) : List Act :=
  [.task (.start t), .task .enqueue, .task .push, .task (.notifyOne none)]

/-- The constructor is done, the sender has sent a heartbeat, and the receiver has heard it. -/
def running : List Act :=
  starting .sender ++ starting .receiver ++ starting .service ++ starting .subscriber ++
    [.task (.pool (.take 0)), .task (.pool (.take 1)), .task (.test 0), .send 0, .task (.test 1),
      .recvfrom 1, .task (.call 1 none)]

/-- `MulticastSender::stop` to its end, and `MulticastReceiver::stop` to its wait. -/
def stoppingReceiver : List Act :=
  [.stop, .task (.stop .sender), .task (.sleep 0), .task (.test 0), .task (.signal 0),
    .task .ready, .task (.stop .receiver)]

set_option maxRecDepth 4000 in
/-- The receiver sleeps between two callbacks when it is stopped. -/
theorem shutdown_unstuck_sleeping :
    (Runs.run next started (running ++ stoppingReceiver)).Lowered ∧
    ∀ more, Runs.Always next Live (Runs.run next started (running ++ stoppingReceiver)) more := by
  have hlowered : (Runs.run next started (running ++ stoppingReceiver)).Lowered := by
    exact ⟨by decide, by decide⟩
  have hfree : ¬ (Runs.run next started (running ++ stoppingReceiver)).Blocked := by
    rintro ⟨_, hawaits⟩
    have hreceive : (Runs.run next started (running ++ stoppingReceiver)).receive = .handled := by
      decide
    simp only [Awaits, hreceive] at hawaits
  exact ⟨hlowered, ((shutdown_unstuck_iff _ hlowered.1).2 hlowered.2).mpr hfree⟩

set_option maxRecDepth 4000 in
/-- The receiver is back in `recvfrom` when it is stopped, and nobody sends any more. -/
theorem shutdown_stuck_in_recvfrom : ∃ more, ¬ Runs.Always next Live
    (Runs.run next started
      (running ++ [.task (.sleep 1), .task (.test 1)] ++ stoppingReceiver)) more := by
  refine exists_stuck (invariant_run _) ⟨by decide, by decide⟩ ⟨⟨1, by decide, by decide⟩, ?_⟩
  have hreceive : (Runs.run next started
      (running ++ [.task (.sleep 1), .task (.test 1)] ++ stoppingReceiver)).receive =
        .receiving := by
    decide
  simp only [Awaits, hreceive]
  decide

end Node

end Threads

end ZeroLanCom
