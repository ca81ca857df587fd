import ZeroLanCom.Utils.PeriodicTask

/-!
# Starting and stopping a periodic task

`stop` lowers a flag that `start` raises again, and waits for a promise that is
kept once. A call of `runLoop` that has not signalled when the flag is raised runs
on beside the next one, and from the second cycle on the promise no longer says
anything about the call that is to end.
-/

namespace ZeroLanCom

namespace Periodic

variable {τ : Type*} {n : Nat} {s s' : Periodic τ n} {t : τ}

/-- A call of `runLoop` between its start and its completion signal. -/
def Active (s : Periodic τ n) (t : τ) (k : Nat) : Prop :=
  s.owner k = some t ∧ (∃ w, s.pool.workers w = .executing k) ∧ s.loops k ≠ .returned

/-- No callback of the task is in progress. -/
def NoneCalling (s : Periodic τ n) (t : τ) : Prop :=
  ∀ k, s.owner k = some t → s.loops k ≠ .calling

/-- No call of `runLoop` is queued or active. -/
def NoneLeft (s : Periodic τ n) (t : τ) : Prop :=
  ∀ k, s.owner k = some t → s.loops k = .returned

/-- What a caller of `start` and `stop` expects. -/
structure Protocol (t : τ) (s : Periodic τ n) : Prop where
  single : ∀ j k, s.Active t j → s.Active t k → j = k
  quiet : s.stopped t = true → s.NoneCalling t

/-- `start` finds no call of `runLoop` left when it raises the flag, and `stop` lowers it before
the promise is kept, or finds no callback in progress. -/
def InOrder (t : τ) (s : Periodic τ n) : PeriodicAct τ n → Prop
  | .start u => u = t → s.Idle → s.isRunning t = false → s.NoneLeft t
  | .stop u => u = t → s.Idle → (s.isRunning t = true ∧ s.promiseDone t = false) ∨ s.NoneCalling t
  | _ => True

/-- What keeps a task in order: one call of `runLoop` at a time, and a flag and a promise that go
with it. -/
structure Orderly (t : τ) (s : Periodic τ n) : Prop where
  alone : ∀ j k, s.owner j = some t → s.owner k = some t → s.loops j ≠ .returned →
    s.loops k ≠ .returned → j = k
  starting : s.control = .starting t → s.isRunning t = true ∧ s.NoneLeft t
  waiting : s.control = .waiting t →
    s.isRunning t = false ∧ (s.promiseDone t = true → s.NoneCalling t)
  quiet : s.stopped t = true → s.isRunning t = false ∧ s.NoneCalling t

/-- Whoever starts and stops it then gets what is expected. -/
theorem Orderly.protocol (h : s.Orderly t) : s.Protocol t :=
  ⟨fun j k hj hk => h.alone j k hj.1 hk.1 hj.2.2 hk.2.2, fun hstopped => (h.quiet hstopped).2⟩

/-- Tasks that nobody has started are in order. -/
theorem orderly_started : Orderly t (started : Periodic τ n) where
  alone _ _ hj := nomatch hj
  starting h := nomatch h
  waiting h := nomatch h
  quiet h := nomatch h

/-- A call of `runLoop` that has not signalled moves on. -/
theorem Orderly.setLoop (h : s.Orderly t) {k : Nat} {phase : LoopPhase}
    (hactive : s.loops k ≠ .returned)
    (hcalling : phase = .calling → s.owner k = some t → s.isRunning t = true) :
    (s.setLoop k phase).Orderly t := by
  have hreturned : ∀ j, Function.update s.loops k phase j ≠ .returned → s.loops j ≠ .returned := by
    intro j hj
    by_cases hjk : j = k
    · rwa [hjk]
    · rwa [Function.update_of_ne hjk] at hj
  have hquiet : s.isRunning t = false → s.NoneCalling t → (s.setLoop k phase).NoneCalling t := by
    intro hdown hnone j hj
    by_cases hjk : j = k
    · subst hjk
      change Function.update s.loops j phase j ≠ .calling
      rw [Function.update_self]
      intro hphase
      rw [hcalling hphase hj] at hdown
      cases hdown
    · change Function.update s.loops k phase j ≠ .calling
      rw [Function.update_of_ne hjk]
      exact hnone j hj
  refine ⟨?_, ?_, ?_, ?_⟩
  · intro i j hi hj hri hrj
    exact h.alone i j hi hj (hreturned i hri) (hreturned j hrj)
  · intro hstarting
    obtain ⟨hup, hleft⟩ := h.starting hstarting
    refine ⟨hup, fun j hj => ?_⟩
    by_contra hrj
    have hjk : j ≠ k := fun hjk => hactive (hjk ▸ hleft j hj)
    change Function.update s.loops k phase j ≠ .returned at hrj
    rw [Function.update_of_ne hjk] at hrj
    exact hrj (hleft j hj)
  · intro hwaiting
    obtain ⟨hdown, hnone⟩ := h.waiting hwaiting
    exact ⟨hdown, fun hdone => hquiet hdown (hnone hdone)⟩
  · intro hstopped
    obtain ⟨hdown, hnone⟩ := h.quiet hstopped
    exact ⟨hdown, hquiet hdown hnone⟩

/-- The controlling thread is in no call any more. -/
theorem Orderly.idle (h : s.Orderly t) (pool : Pool Unit n) :
    Orderly t { s with pool := pool, control := .idle } :=
  ⟨h.alone, (fun hcontrol => nomatch hcontrol), (fun hcontrol => nomatch hcontrol), h.quiet⟩

variable [DecidableEq τ] {a : PeriodicAct τ n}

/-- The promise is kept by the only call that was left. -/
theorem Orderly.signal (h : s.Orderly t) {k : Nat} {u : τ} (howner : s.owner k = some u)
    (hsignalling : s.loops k = .signalling) :
    Orderly t { s with
      loops := Function.update s.loops k .returned
      promiseDone := Function.update s.promiseDone u true } := by
  have hactive : s.loops k ≠ .returned := by simp [hsignalling]
  have hset : (s.setLoop k .returned).Orderly t :=
    h.setLoop hactive fun hphase => nomatch hphase
  refine ⟨hset.alone, hset.starting, fun hwaiting => ?_, hset.quiet⟩
  obtain ⟨hdown, hnone⟩ := hset.waiting hwaiting
  refine ⟨hdown, fun hdone => ?_⟩
  by_cases hu : u = t
  · subst hu
    intro j hj hcalling
    change Function.update s.loops k .returned j = .calling at hcalling
    by_cases hjk : j = k
    · rw [hjk, Function.update_self] at hcalling
      cases hcalling
    · rw [Function.update_of_ne hjk] at hcalling
      exact hjk (h.alone j k hj howner (by simp [hcalling]) hactive)
  · change Function.update s.promiseDone u true t = true at hdone
    rw [Function.update_of_ne (Ne.symm hu)] at hdone
    exact hnone hdone

/-- `start` raises the flag when no call is left. -/
theorem Orderly.start (h : s.Orderly t) {u : τ} (hleft : u = t → s.NoneLeft t) :
    Orderly t { s with
      isRunning := Function.update s.isRunning u true
      control := .starting u
      stopped := Function.update s.stopped u false } := by
  by_cases hu : u = t
  · subst hu
    refine ⟨h.alone, fun _ => ⟨Function.update_self .., hleft rfl⟩,
      (fun hwaiting => nomatch hwaiting), fun hstopped => ?_⟩
    change Function.update s.stopped u false u = true at hstopped
    rw [Function.update_self] at hstopped
    cases hstopped
  · refine ⟨h.alone, fun hstarting => absurd (ControlPhase.starting.inj hstarting) hu,
      (fun hwaiting => nomatch hwaiting), ?_⟩
    simp only [Function.update_of_ne (Ne.symm hu)]
    exact h.quiet

/-- Behind the push there is one call, or one more of another task. -/
theorem Orderly.push (h : s.Orderly t) {u : τ} (hstarting : s.control = .starting u)
    (pool : Pool Unit n) :
    Orderly t { s with
      pool := pool
      owner := Function.update s.owner s.pool.pushed (some u)
      control := .started } := by
  by_cases hu : u = t
  · subst hu
    obtain ⟨hup, hleft⟩ := h.starting hstarting
    have hlast : ∀ j, Function.update s.owner s.pool.pushed (some u) j = some u →
        s.loops j ≠ .returned → j = s.pool.pushed := by
      intro j hj hrj
      by_contra hne
      rw [Function.update_of_ne hne] at hj
      exact hrj (hleft j hj)
    refine ⟨fun i j hi hj hri hrj => ?_, (fun hcontrol => nomatch hcontrol),
      (fun hcontrol => nomatch hcontrol), fun hstopped => ?_⟩
    · rw [hlast i hi hri, hlast j hj hrj]
    · rw [(h.quiet hstopped).1] at hup
      cases hup
  · have howner : ∀ j, Function.update s.owner s.pool.pushed (some u) j = some t →
        s.owner j = some t := by
      intro j hj
      by_cases hjk : j = s.pool.pushed
      · rw [hjk, Function.update_self] at hj
        exact absurd (Option.some.inj hj) hu
      · rwa [Function.update_of_ne hjk] at hj
    refine ⟨fun i j hi hj => h.alone i j (howner i hi) (howner j hj),
      (fun hcontrol => nomatch hcontrol), (fun hcontrol => nomatch hcontrol), fun hstopped => ?_⟩
    obtain ⟨hdown, hnone⟩ := h.quiet hstopped
    exact ⟨hdown, fun j hj => hnone j (howner j hj)⟩

/-- `stop` lowers the flag, and waits for a promise that still says something. -/
theorem Orderly.lower (h : s.Orderly t) {u : τ}
    (hin : u = t → s.promiseDone t = true → s.NoneCalling t) :
    Orderly t { s with
      isRunning := Function.update s.isRunning u false
      control := .waiting u } := by
  by_cases hu : u = t
  · subst hu
    have hdown : Function.update s.isRunning u false u = false := Function.update_self ..
    exact ⟨h.alone, (fun hcontrol => nomatch hcontrol), fun _ => ⟨hdown, hin rfl⟩,
      fun hstopped => ⟨hdown, (h.quiet hstopped).2⟩⟩
  · refine ⟨h.alone, (fun hcontrol => nomatch hcontrol),
      fun hcontrol => absurd (ControlPhase.waiting.inj hcontrol) hu, ?_⟩
    simp only [Function.update_of_ne (Ne.symm hu)]
    exact h.quiet

/-- `stop` has returned without a timeout, and rightly so if it was this task's. -/
theorem Orderly.stopped (h : s.Orderly t) {u : τ}
    (hquiet : u = t → s.isRunning t = false ∧ s.NoneCalling t) :
    Orderly t { s with stopped := Function.update s.stopped u true } := by
  refine ⟨h.alone, h.starting, h.waiting, fun hstopped => ?_⟩
  change Function.update s.stopped u true t = true at hstopped
  by_cases hu : u = t
  · exact hquiet hu
  · rw [Function.update_of_ne (Ne.symm hu)] at hstopped
    exact h.quiet hstopped

/-- Every step keeps the order if the caller does. -/
theorem Orderly.moves (h : s.Orderly t) (hmoves : Moves s a s') (hin : s.InOrder t a) :
    s'.Orderly t := by
  cases hmoves with
  | start hidle hdown => exact h.start fun hu => hin hu hidle (hu ▸ hdown)
  | @startAgain u =>
    refine ⟨h.alone, h.starting, h.waiting, fun hstopped => h.quiet ?_⟩
    change Function.update s.stopped u false t = true at hstopped
    by_cases hu : t = u
    · rw [hu, Function.update_self] at hstopped
      cases hstopped
    · rwa [Function.update_of_ne hu] at hstopped
  | @enqueue u pool hstarting =>
    by_cases hreturned : pool.clients () = .idle
    · rw [if_pos hreturned]
      exact h.idle pool
    · rw [if_neg hreturned]
      exact ⟨h.alone, h.starting, h.waiting, h.quiet⟩
  | push hstarting => exact h.push hstarting _
  | notifyOne => exact h.idle _
  | stop hidle =>
    refine h.lower fun hu hdone => ?_
    rcases hin hu hidle with ⟨_, hopen⟩ | hnone
    · rw [hopen] at hdone
      cases hdone
    · exact hnone
  | stopAgain hidle hdown =>
    refine h.stopped fun hu => ?_
    subst hu
    rcases hin rfl hidle with ⟨hup, _⟩ | hnone
    · rw [hdown] at hup
      cases hup
    · exact ⟨hdown, hnone⟩
  | ready hwaiting hdone =>
    refine (h.idle s.pool).stopped fun hu => ?_
    subst hu
    obtain ⟨hdown, hnone⟩ := h.waiting hwaiting
    exact ⟨hdown, hnone hdone⟩
  | timeout => exact h.idle s.pool
  | @enter w k u hloop htesting hup =>
    refine h.setLoop (by simp [htesting]) fun _ howner => ?_
    rw [(loopAt_eq_some_iff.mp hloop).2] at howner
    rwa [← Option.some.inj howner]
  | leave _ htesting => exact h.setLoop (by simp [htesting]) fun hphase => nomatch hphase
  | call _ hcalling => exact h.setLoop (by simp [hcalling]) fun hphase => nomatch hphase
  | sleep _ hsleeping => exact h.setLoop (by simp [hsleeping]) fun hphase => nomatch hphase
  | signal hloop hsignalling => exact h.signal (loopAt_eq_some_iff.mp hloop).2 hsignalling
  | pool => exact ⟨h.alone, h.starting, h.waiting, h.quiet⟩

/-- And actions in order leave them so. -/
theorem orderly_next (h : s.Orderly t) (hin : s.InOrder t a) : (s.next a).Orderly t :=
  next_of_moves h fun _ hmoves => h.moves hmoves hin

/-- An orderly caller is served as the protocol says, whatever the other tasks of the pool do. -/
theorem protocol_of_inOrder (t : τ) {acts : List (PeriodicAct τ n)}
    (h : Runs.Each next (InOrder t) started acts) : Runs.Always next (Protocol t) started acts :=
  Runs.always_of_each (I := Orderly t) (fun _ _ horderly hin => orderly_next horderly hin)
    (fun _ horderly => horderly.protocol) orderly_started h

/-- The task is started and stopped in its sleep. -/
def oneCycle : List (PeriodicAct Unit 2) :=
  [.start (), .enqueue, .push, .notifyOne none, .pool (.take 0), .test 0, .call 0 none, .stop (),
    .sleep 0, .test 0, .signal 0, .ready]

/-- One cycle of `start` and `stop` ends with the task stopped. -/
theorem protocol_one_cycle : (Runs.run next started oneCycle).stopped () = true ∧
    Runs.Always next (Protocol ()) (started : Periodic Unit 2) oneCycle := by
  refine ⟨by decide, protocol_of_inOrder () ?_⟩
  have hstart : (started : Periodic Unit 2).InOrder () (.start ()) := fun _ _ _ _ h => nomatch h
  have hstop :
      (Runs.run next (started : Periodic Unit 2) (oneCycle.take 7)).InOrder () (.stop ()) :=
    fun _ _ => Or.inl ⟨by decide, by decide⟩
  exact ⟨hstart, trivial, trivial, trivial, trivial, trivial, trivial, hstop, trivial, trivial,
    trivial, trivial, trivial⟩

/-- It is started again, and stopped during its callback. -/
def secondCycle : List (PeriodicAct Unit 2) :=
  [.pool (.execute 0 none), .pool (.decrement 0), .pool (.notifyDone 0 none), .start (), .enqueue,
    .push, .notifyOne none, .pool (.take 0), .test 0, .stop (), .ready]

/-- The promise of the first cycle lets `stop` return during the callback. -/
theorem second_stop_returns_early :
    ¬ Runs.Always next (Protocol ()) (started : Periodic Unit 2) (oneCycle ++ secondCycle) := by
  intro halways
  have hend := Runs.always_iff_take.mp halways 23
  exact hend.quiet (by decide) 1 (by decide) (by decide)

end Periodic

end ZeroLanCom
