import ZeroLanCom.System.Initialisation

/-!
# Stopping and restarting a process

`ZeroLanComNode::stop` reaches the components through `instance()`, which throws
once there is none, and then destroys them all. The node itself stays, with
`running` cleared, until `zlc::shutdown` destroys it, and its destructor calls
`stop` once more.
-/

namespace ZeroLanCom

open Throwing Singletons

/-- The singletons, and `running` of the node while there is one. -/
structure Lifecycle where
  singletons : Singletons
  running : Bool := false
  deriving DecidableEq

namespace Lifecycle

/-- A process that has not called anything yet, and one between two runs of its node. -/
def start : Lifecycle := { singletons := uninitialised }

/-- With the node and all its components. -/
def started : Lifecycle :=
  ⟨⟨true, {.subscriberManager, .multicastSender, .multicastReceiver, .serviceManager,
    .nodeInfoManager, .zmqContext, .threadPool}⟩, true⟩

/-- With nothing left but the node. -/
def stopped : Lifecycle := ⟨⟨true, ∅⟩, false⟩

/-- `zlc::init` with constructors that all succeed; the node's sets `running` at its end. -/
def init (s : Lifecycle) : Outcome Exn Lifecycle :=
  match Singletons.init (fun _ => none) s.singletons with
  | .done singletons => .done ⟨singletons, true⟩
  | .threw e singletons => .threw e { s with singletons := singletons }

/-- `c::instance().stop()`. Stopping a component throws nothing itself. -/
def stopComponent (c : Component) (s : Lifecycle) : Outcome Exn Lifecycle :=
  if c ∈ s.singletons.components then .done s
  else .threw .stdException s -- "Singleton not initialized. Call init() first."

/-- `c::destroy()`, which does nothing when there is no instance. -/
def destroyComponent (c : Component) (s : Lifecycle) : Lifecycle :=
  { s with singletons := { s.singletons with components := s.singletons.components.erase c } }

/-- The components `ZeroLanComNode::stop` stops, in order. -/
def stopOrder : List Component :=
  [.multicastSender, .multicastReceiver, .serviceManager, .subscriberManager, .threadPool]

/-- And those it destroys. -/
def destroyOrder : List Component :=
  [.subscriberManager, .serviceManager, .multicastReceiver, .multicastSender, .nodeInfoManager,
    .zmqContext, .threadPool]

/-- `ZeroLanComNode::stop`. -/
def stop (s : Lifecycle) : Outcome Exn Lifecycle :=
  (forEach stopComponent stopOrder { s with running := false }).bind fun s =>
    .done (destroyOrder.foldl (fun s c => destroyComponent c s) s)

/-- `zlc::spin`. While the node runs it goes on sleeping, which is the `none` here. It leaves its
loop only when somebody has cleared `running`, and then stops the node itself. -/
def spin (s : Lifecycle) : Option (Outcome Exn Lifecycle) :=
  if s.singletons.node then
    if s.running then none else some (stop s)
  else some (.threw .stdException s)

/-- `zlc::shutdown`, by `Singleton::destroy`. The destructor of the node calls `stop`, and what it
throws terminates the process. -/
def shutdown (s : Lifecycle) : Outcome Exn Lifecycle :=
  if s.singletons.node then
    (stop s).bind fun s => .done { s with singletons := { s.singletons with node := false } }
  else .done s

/-- The calls of a process. -/
inductive Call where
  | init
  | stop
  | spin
  | shutdown
  deriving DecidableEq, Repr

/-- What a call does, and `none` for one that does not come back from this state. -/
def perform : Call → Lifecycle → Option (Outcome Exn Lifecycle)
  | .init, s => some (init s)
  | .stop, s => some (stop s)
  | .spin, s => spin s
  | .shutdown, s => some (shutdown s)

/-- The state behind a call. A spin that goes on sleeping changes nothing. -/
def step (s : Lifecycle) (call : Call) : Lifecycle :=
  match perform call s with
  | some out => out.state
  | none => s

/-- `stop` and `spin` need the node, and `init` needs that there is none. A spin stands in the
sequence where it ends, which it cannot do before another thread has stopped the node. -/
def Allowed (s : Lifecycle) : Call → Prop
  | .init => s.singletons.node = false
  | .stop => s.singletons.node = true
  | .spin => s.singletons.node = true ∧ (spin s).isSome = true
  | .shutdown => True

/-- The call throws nothing and no destructor does, a node that is stopped already stays as it is,
the components exist exactly while the node runs, and after a shutdown the process can start
again. -/
structure Clean (s : Lifecycle) (call : Call) : Prop where
  returns : ∃ s', perform call s = some (.done s')
  idempotent : call = .stop ∨ call = .spin → s.running = false → step s call = s
  components : ∀ c, c ∈ (step s call).singletons.components ↔
    (step s call).singletons.node = true ∧ (step s call).running = true
  restarts : call = .shutdown → ∃ s', init (step s call) = .done s'

/-- There is no node, or it runs. -/
def NotStopped (s : Lifecycle) (_ : Call) : Prop := s.singletons.node = true → s.running = true

/-- A node that runs has all its components. -/
theorem mem_started (c : Component) : c ∈ started.singletons.components := by
  cases c <;> decide

/-- Starting a process leads to a running node. -/
theorem perform_init_start : perform .init start = some (.done started) := rfl

/-- A shutdown without a node does nothing. -/
theorem perform_shutdown_start : perform .shutdown start = some (.done start) := by decide

/-- The first stop of a node destroys its components. -/
theorem perform_stop_started : perform .stop started = some (.done stopped) := by decide

/-- A shutdown of a running node leads back to where the process began. -/
theorem perform_shutdown_started : perform .shutdown started = some (.done start) := by decide

/-- No spin ends while the node runs. -/
theorem not_allowed_spin_started : ¬ Allowed started .spin := by
  rintro ⟨-, hends⟩
  cases hends

/-- Whatever stops the node a second time throws. -/
theorem perform_stopped {call : Call} (h : Allowed stopped call) :
    perform call stopped = some (.threw .stdException stopped) := by
  cases call with
  | init => cases h
  | stop => decide
  | spin => decide
  | shutdown => decide

/-- A call that returns and leads to this state. -/
theorem clean_of_perform {s s' : Lifecycle} {call : Call} (h : perform call s = some (.done s'))
    (hidempotent : call = .stop ∨ call = .spin → s.running = false → s' = s)
    (hcomponents : ∀ c, c ∈ s'.singletons.components ↔
      s'.singletons.node = true ∧ s'.running = true)
    (hrestarts : call = .shutdown → s' = start) : Clean s call := by
  have hstep : step s call = s' := by simp only [step, h, Outcome.state_done]
  refine ⟨⟨s', h⟩, ?_, ?_, fun hcall => ⟨started, ?_⟩⟩
  · rw [hstep]
    exact hidempotent
  · rw [hstep]
    exact hcomponents
  · rw [hstep, hrestarts hcall]
    exact Option.some.inj perform_init_start

/-- The states a process can be in. -/
def Known (s : Lifecycle) : Prop := s = start ∨ s = started ∨ s = stopped

/-- An allowed call is clean exactly if it does not meet a stopped node. -/
theorem clean_iff {s : Lifecycle} {call : Call} (hs : Known s) (hallowed : Allowed s call) :
    Clean s call ↔ NotStopped s call := by
  rcases hs with rfl | rfl | rfl
  · refine iff_of_true ?_ fun hnode => by cases hnode
    cases call with
    | init =>
      refine clean_of_perform perform_init_start (by simp) (fun c => ?_) (by simp)
      exact iff_of_true (mem_started c) ⟨rfl, rfl⟩
    | stop => cases hallowed
    | spin => cases hallowed.1
    | shutdown =>
      exact clean_of_perform perform_shutdown_start (by simp) (by simp [start, uninitialised])
        fun _ => rfl
  · refine iff_of_true ?_ fun _ => rfl
    cases call with
    | init => cases hallowed
    | stop =>
      exact clean_of_perform perform_stop_started (fun _ h => by cases h) (by simp [stopped])
        (by simp)
    | spin => exact absurd hallowed not_allowed_spin_started
    | shutdown =>
      exact clean_of_perform perform_shutdown_started (by simp) (by simp [start, uninitialised])
        fun _ => rfl
  · refine iff_of_false (fun hclean => ?_) fun h => by cases h rfl
    obtain ⟨s', hs'⟩ := hclean.returns
    rw [perform_stopped hallowed] at hs'
    cases hs'

/-- Allowed calls lead from one of the states to another. -/
theorem known_step {s : Lifecycle} {call : Call} (hs : Known s) (hallowed : Allowed s call) :
    Known (step s call) := by
  rcases hs with rfl | rfl | rfl
  · cases call with
    | init => exact Or.inr (Or.inl (by simp only [step, perform_init_start, Outcome.state_done]))
    | stop => cases hallowed
    | spin => cases hallowed.1
    | shutdown => exact Or.inl (by simp only [step, perform_shutdown_start, Outcome.state_done])
  · cases call with
    | init => cases hallowed
    | stop => exact Or.inr (Or.inr (by simp only [step, perform_stop_started, Outcome.state_done]))
    | spin => exact absurd hallowed not_allowed_spin_started
    | shutdown => exact Or.inl (by simp only [step, perform_shutdown_started, Outcome.state_done])
  · exact Or.inr (Or.inr (by simp only [step, perform_stopped hallowed, Outcome.state_threw]))

/-- Along every sequence of allowed calls each is clean exactly if none of them meets a node that
has been stopped. -/
theorem stop_idempotent_iff {calls : List Call} (hallowed : Runs.Each step Allowed start calls) :
    Runs.Each step Clean start calls ↔ Runs.Each step NotStopped start calls := by
  have hiff : Runs.Each step (fun s call => Allowed s call ∧ Clean s call) start calls ↔
      Runs.Each step (fun s call => Allowed s call ∧ NotStopped s call) start calls :=
    Runs.each_iff_each (I := Known) (fun _ _ hs h => known_step hs h.1)
      (fun _ _ hs => and_congr_right (clean_iff hs)) (Or.inl rfl) calls
  rw [Runs.each_and_iff, Runs.each_and_iff, and_iff_right hallowed, and_iff_right hallowed] at hiff
  exact hiff

/-- A node that is shut down while it runs, a second shutdown without a node, and another node
that is stopped once. -/
theorem stop_idempotent_restart :
    Runs.Each step Clean start [.init, .shutdown, .shutdown, .init, .stop] := by
  have hallowed : Runs.Each step Allowed start [.init, .shutdown, .shutdown, .init, .stop] :=
    ⟨rfl, trivial, trivial, rfl, rfl, trivial⟩
  refine (stop_idempotent_iff hallowed).mpr
    ⟨fun h => ?_, fun _ => rfl, fun h => ?_, fun h => ?_, fun _ => rfl, trivial⟩
  · cases h
  · cases h
  · cases h

/-- The destructor of a node that has been stopped throws, and the process ends there. -/
theorem shutdown_after_stop_terminates :
    Runs.Each step Allowed start [.init, .stop, .shutdown] ∧
      ¬ Runs.Each step Clean start [.init, .stop, .shutdown] := by
  refine ⟨⟨rfl, rfl, trivial, trivial⟩, ?_⟩
  rintro ⟨_, _, hclean, _⟩
  obtain ⟨s', hs'⟩ := hclean.returns
  cases hs'

end Lifecycle

end ZeroLanCom
