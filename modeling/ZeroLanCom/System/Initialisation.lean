import ZeroLanCom.Library.Runs
import ZeroLanCom.Utils.Event

/-!
# Initialising a process

`zlc::init` builds the node, whose constructor initialises one singleton after
the other. The instances are static, so they outlive a constructor that throws,
and a singleton that has an instance refuses another one.
-/

namespace ZeroLanCom

open Throwing

/-- The singletons that the constructor of `ZeroLanComNode` initialises. -/
inductive Component where
  | threadPool
  | zmqContext
  | nodeInfoManager
  | serviceManager
  | multicastReceiver
  | multicastSender
  | subscriberManager
  deriving DecidableEq, Repr

/-- In the order of the constructor. -/
def Component.initOrder : List Component :=
  [.threadPool, .zmqContext, .nodeInfoManager, .serviceManager, .multicastReceiver,
    .multicastSender, .subscriberManager]

/-- Every component is initialised. -/
theorem Component.mem_initOrder (c : Component) : c ∈ initOrder := by
  cases c <;> decide

/-- The singletons that have an instance. -/
structure Singletons where
  node : Bool
  components : Finset Component
  deriving DecidableEq

namespace Singletons

/-- Nothing is initialised. -/
def uninitialised : Singletons := ⟨false, ∅⟩

/-- What the constructors of one attempt throw, if they throw. -/
abbrev Attempt := Component → Option Exn

/-- `Singleton::initExternal`. -/
def initExternal (attempt : Attempt) (c : Component) (s : Singletons) : Outcome Exn Singletons :=
  if c ∈ s.components then .threw .stdException s -- "Singleton already initialized."
  else match attempt c with
    | some e => .threw e s
    | none => .done { s with components := insert c s.components }

/-- `ZeroLanComNode::ZeroLanComNode`. What comes between and behind the components does not
throw. -/
def construct (attempt : Attempt) (s : Singletons) : Outcome Exn Singletons :=
  forEach (initExternal attempt) Component.initOrder s

/-- `zlc::init`, by `Singleton::initManaged`. -/
def init (attempt : Attempt) (s : Singletons) : Outcome Exn Singletons :=
  if s.node then .threw .stdException s -- "Singleton already initialized."
  else (construct attempt s).bind fun s => .done { s with node := true }

/-- An attempt of a process; its exception ends with the caller. -/
def step (s : Singletons) (attempt : Attempt) : Singletons := (init attempt s).state

/-- An attempt that throws leaves every singleton as it was, and one that is made without a node
and whose constructors all succeed succeeds. -/
structure AllOrNothing (s : Singletons) (attempt : Attempt) : Prop where
  undone : ∀ e s', init attempt s = .threw e s' → s' = s
  succeeds : s.node = false → (∀ c, attempt c = none) → ∃ s', init attempt s = .done s'

/-- The node exists, or no constructor throws, or the first one does. -/
def FailsFirst (s : Singletons) (attempt : Attempt) : Prop :=
  s.node = true ∨ (∀ c, attempt c = none) ∨ attempt .threadPool ≠ none

/-- Without a node there is nothing. -/
def Clean (s : Singletons) : Prop := s.node = false → s.components = ∅

variable {s s' : Singletons} {attempt : Attempt}

/-- A component whose constructor returns is there from then on. -/
theorem initExternal_of_none {c : Component} (hc : c ∉ s.components) (h : attempt c = none) :
    initExternal attempt c s = .done { s with components := insert c s.components } := by
  rw [initExternal, if_neg hc, h]

/-- Constructors that do not throw initialise what is not there yet. -/
theorem initExternal_loop {cs : List Component} (hnodup : cs.Nodup)
    (hnew : ∀ c ∈ cs, c ∉ s.components) (h : ∀ c, attempt c = none) :
    ∃ s', forEach (initExternal attempt) cs s = .done s' := by
  induction cs generalizing s with
  | nil => exact ⟨s, rfl⟩
  | cons c cs ih =>
    obtain ⟨hc, hcs⟩ := List.nodup_cons.mp hnodup
    rw [forEach_cons, initExternal_of_none (hnew c (List.mem_cons_self ..)) (h c),
      Outcome.done_bind]
    refine ih hcs fun d hd hmem => ?_
    rcases Finset.mem_insert.mp hmem with rfl | hmem
    · exact hc hd
    · exact hnew d (List.mem_cons_of_mem c hd) hmem

/-- A loop that ends normally has met no constructor that throws. -/
theorem none_of_initExternal_loop {cs : List Component}
    (h : forEach (initExternal attempt) cs s = .done s') : ∀ c ∈ cs, attempt c = none := by
  induction cs generalizing s with
  | nil => exact fun _ h => absurd h List.not_mem_nil
  | cons c cs ih =>
    obtain ⟨next, hhead, htail⟩ := Outcome.bind_eq_done_iff.mp h
    refine List.forall_mem_cons.mpr ⟨?_, ih htail⟩
    unfold initExternal at hhead
    split_ifs at hhead
    cases hc : attempt c with
    | none => rfl
    | some e => simp [hc] at hhead

/-- What has an instance keeps it. -/
theorem mem_initExternal {c d : Component} (h : d ∈ s.components) :
    d ∈ (initExternal attempt c s).state.components := by
  unfold initExternal
  split_ifs
  · exact h
  · cases attempt c with
    | none => exact Finset.mem_insert_of_mem h
    | some e => exact h

/-- A first constructor that throws leaves nothing behind. -/
theorem construct_of_first (h : s.components = ∅) {e : Exn}
    (hfirst : attempt .threadPool = some e) : construct attempt s = .threw e s := by
  have hhead : initExternal attempt .threadPool s = .threw e s := by
    simp [initExternal, h, hfirst]
  rw [construct, Component.initOrder, forEach_cons, hhead, Outcome.threw_bind]

/-- A later one that throws leaves at least the thread pool behind. -/
theorem construct_of_later (h : s.components = ∅) (hfirst : attempt .threadPool = none)
    (hthrows : ∃ c, attempt c ≠ none) :
    ∃ e s', construct attempt s = .threw e s' ∧ .threadPool ∈ s'.components := by
  have hkept : .threadPool ∈ (construct attempt s).state.components := by
    have hhead := initExternal_of_none (s := s) (c := .threadPool) (by simp [h]) hfirst
    rw [construct, Component.initOrder, forEach_cons, hhead, Outcome.done_bind]
    exact forEach_invariant (P := fun s : Singletons => .threadPool ∈ s.components)
      (fun _ _ _ hmem => mem_initExternal hmem)
      (s := { s with components := insert .threadPool s.components }) (Finset.mem_insert_self ..)
  cases hconstruct : construct attempt s with
  | threw e s' =>
    rw [hconstruct] at hkept
    exact ⟨e, s', rfl, hkept⟩
  | done s' =>
    obtain ⟨c, hc⟩ := hthrows
    exact absurd (none_of_initExternal_loop hconstruct c c.mem_initOrder) hc

/-- Without failing constructors the node is built. -/
theorem construct_of_none (h : s.components = ∅) (hnone : ∀ c, attempt c = none) :
    ∃ s', construct attempt s = .done s' :=
  initExternal_loop (by decide) (by simp [h]) hnone

/-- One attempt is all or nothing exactly if it meets a node or does not get past the thread pool
with a constructor that throws. -/
theorem allOrNothing_iff (h : s.Clean) : s.AllOrNothing attempt ↔ s.FailsFirst attempt := by
  cases hnode : s.node with
  | true =>
    have hrefused : init attempt s = .threw .stdException s := by rw [init, if_pos hnode]
    refine iff_of_true ⟨fun e s' hthrew => ?_, fun hfree => ?_⟩ (Or.inl hnode)
    · rw [hrefused] at hthrew
      cases hthrew
      rfl
    · rw [hnode] at hfree
      cases hfree
  | false =>
    have hempty := h hnode
    have hinit : init attempt s =
        (construct attempt s).bind fun s => .done { s with node := true } := by
      rw [init, if_neg (by simp [hnode])]
    have hfails : s.FailsFirst attempt ↔
        (∀ c, attempt c = none) ∨ attempt .threadPool ≠ none := by simp [FailsFirst, hnode]
    rw [hfails]
    by_cases hnone : ∀ c, attempt c = none
    · obtain ⟨s', hs'⟩ := construct_of_none hempty hnone
      rw [hs', Outcome.done_bind] at hinit
      refine iff_of_true ⟨fun e s'' hthrew => ?_, fun _ _ => ⟨_, hinit⟩⟩ (Or.inl hnone)
      rw [hinit] at hthrew
      cases hthrew
    · cases hfirst : attempt .threadPool with
      | some e =>
        rw [construct_of_first hempty hfirst, Outcome.threw_bind] at hinit
        refine iff_of_true ⟨fun e' s' hthrew => ?_, fun _ hall => absurd hall hnone⟩ (by simp)
        rw [hinit] at hthrew
        cases hthrew
        rfl
      | none =>
        push Not at hnone
        obtain ⟨e, s', hs', hmem⟩ := construct_of_later hempty hfirst hnone
        rw [hs', Outcome.threw_bind] at hinit
        refine iff_of_false (fun hall => ?_) (by simpa using hnone)
        have hsame := hall.undone e s' hinit
        rw [hsame, hempty] at hmem
        exact absurd hmem (Finset.notMem_empty _)

/-- An attempt that succeeds leaves a node. -/
theorem node_of_init (h : init attempt s = .done s') : s'.node = true := by
  unfold init at h
  split_ifs at h
  obtain ⟨built, _, hbuilt⟩ := Outcome.bind_eq_done_iff.mp h
  cases hbuilt
  rfl

/-- Without a node there is still nothing after such an attempt. -/
theorem clean_step (h : s.Clean) (hfails : s.FailsFirst attempt) : (s.step attempt).Clean := by
  intro hafter
  have hall := (allOrNothing_iff h).mpr hfails
  cases hinit : init attempt s with
  | threw e s' =>
    have hsame := hall.undone e s' hinit
    rw [step, hinit, Outcome.state_threw, hsame] at hafter ⊢
    exact h hafter
  | done s' =>
    rw [step, hinit, Outcome.state_done, node_of_init hinit] at hafter
    cases hafter

/-- Along every sequence of attempts each is all or nothing exactly if each of those made without
a node has no constructor that throws, or the thread pool's throws. -/
theorem init_all_or_nothing_iff (attempts : List Attempt) :
    Runs.Each step AllOrNothing uninitialised attempts ↔
      Runs.Each step FailsFirst uninitialised attempts :=
  Runs.each_iff_each (I := Clean) (fun _ _ h hfails => clean_step h hfails)
    (fun _ _ h => allOrNothing_iff h) (fun _ => rfl) attempts

/-- Constructors that all succeed. -/
def succeeding : Attempt := fun _ => none

/-- An address that the reply socket cannot be bound to. -/
def badAddress : Attempt := fun c => if c = .serviceManager then some (.errorT .EINVAL) else none

/-- The attempt with the bad address leaves three singletons behind, and the correct one that
follows is refused. -/
theorem failed_init_blocks_retry :
    ¬ Runs.Each step AllOrNothing uninitialised [badAddress, succeeding] ∧
      init succeeding (step uninitialised badAddress) =
        .threw .stdException (step uninitialised badAddress) := by
  refine ⟨?_, rfl⟩
  rintro ⟨h, _⟩
  have hundone := h.undone (.errorT .EINVAL) _ rfl
  exact absurd hundone (by decide)

end Singletons

end ZeroLanCom
