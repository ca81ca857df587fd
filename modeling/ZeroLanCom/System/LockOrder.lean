import Mathlib.Data.Fintype.Option
import ZeroLanCom.Library.Locks
import ZeroLanCom.Nodes.NodeInfoManager

/-!
# The mutexes of registration and of the receive task

Registration reads the node table under the mutex of the subscriber manager.
Update events fire after the lock on the table is released, but removal events
fire under it, and their callback wants the mutex of the subscriber manager.
Each thread is its list of lock operations.
-/

namespace ZeroLanCom

open Locks

/-- `SubscriberManager::mutex_`, `data_mutex_` and the mutexes of the two events. -/
inductive Lock where
  | manager
  | data
  | updateEvent
  | removeEvent
  deriving DecidableEq, Repr

/-- The scope of a lock guard. -/
def guarded (m : Mode) (l : Lock) (body : List (LockOp Lock)) : List (LockOp Lock) :=
  .acquire m l :: (body ++ [.release m l])

/-- `Event::trigger` on an event the subscriber manager has subscribed to. The callbacks are
copied under the mutex of the event and run outside of it. -/
def triggerLocks (event : Lock) : List (LockOp Lock) :=
  guarded .exclusive event [] ++ guarded .exclusive .manager []

/-- `getPublisherInfo`, and so `findTopicURLs`. -/
def findTopicURLsLocks (_topicName : Str) : List (LockOp Lock) := guarded .shared .data []

/-- `_registerTopicSubscriber`. -/
def registerTopicSubscriberLocks (topicName : Str) : List (LockOp Lock) :=
  guarded .exclusive .manager (findTopicURLsLocks topicName)

/-- The two calls of the receive task, with the table they find. A fetch may fail, and the
callback for the node at `thrownAt` of `to_remove`, if there is one, throws. -/
inductive ReceiverCall where
  | processHeartbeat (t : NodeTable) (heartbeat : HeartbeatMessage) (fetched : Option NodeInfo)
  | checkHeartbeats (t : NodeTable) (order : MapOrder) (now : Nat) (thrownAt : Nat)

/-- The locks a call of the receiver thread takes and releases. A sweep triggers under
`data_mutex_`, a heartbeat after it has released it. -/
def ReceiverCall.locks : ReceiverCall → List (LockOp Lock)
  | .processHeartbeat t heartbeat fetched =>
    guarded .exclusive .data [] ++
      if t.needsFetch heartbeat && fetched.isSome then
        guarded .exclusive .data [] ++ triggerLocks .updateEvent
      else []
  | .checkHeartbeats t order now thrownAt =>
    guarded .exclusive .data
      (((t.toRemove order now).take (thrownAt + 1)).flatMap fun _ => triggerLocks .removeEvent)

/-- The receive task next to threads that each register subscribers for some topics. -/
def threads {n : Nat} (calls : List ReceiverCall) (topics : Fin n → List Str) :
    Option (Fin n) → List (LockOp Lock)
  | none => calls.flatMap ReceiverCall.locks
  | some i => (topics i).flatMap registerTopicSubscriberLocks

/-- The call is not a sweep that finds an expired node. -/
def ReceiverCall.FindsNoneExpired : ReceiverCall → Prop
  | .processHeartbeat _ _ _ => True
  | .checkHeartbeats t order now _ => t.toRemove order now = []

/-- The order registration takes its locks in. -/
def registrationRank : Lock → Nat
  | .manager => 0
  | _ => 1

/-- The order a sweep takes its locks in. -/
def sweepRank : Lock → Nat
  | .data => 0
  | _ => 1

/-- A registration takes the lock of the manager first. -/
theorem registerTopicSubscriberLocks_ordered (topicName : Str) :
    Ordered registrationRank [] (registerTopicSubscriberLocks topicName) [] := by
  simp [registerTopicSubscriberLocks, findTopicURLsLocks, guarded, Ordered, registrationRank]

/-- A heartbeat never holds two of the locks at once. -/
theorem processHeartbeat_ordered (rank : Lock → Nat) (t : NodeTable)
    (heartbeat : HeartbeatMessage) (fetched : Option NodeInfo) :
    Ordered rank [] (ReceiverCall.locks (.processHeartbeat t heartbeat fetched)) [] := by
  simp only [ReceiverCall.locks]
  split_ifs <;> simp [guarded, triggerLocks, Ordered]

/-- Neither does a sweep that finds nobody expired. -/
theorem locks_ordered_of_none_expired (rank : Lock → Nat) {call : ReceiverCall}
    (h : call.FindsNoneExpired) : Ordered rank [] call.locks [] := by
  cases call with
  | processHeartbeat t heartbeat fetched => exact processHeartbeat_ordered ..
  | checkHeartbeats t order now thrownAt =>
    have hnone : t.toRemove order now = [] := h
    simp [ReceiverCall.locks, hnone, guarded, Ordered]

/-- Every call follows the order of the sweep. -/
theorem locks_ordered (call : ReceiverCall) : Ordered sweepRank [] call.locks [] := by
  cases call with
  | processHeartbeat t heartbeat fetched => exact processHeartbeat_ordered ..
  | checkHeartbeats t order now thrownAt =>
    have hround : Ordered sweepRank [(.exclusive, .data)] (triggerLocks .removeEvent)
        [(.exclusive, .data)] := by
      simp [triggerLocks, guarded, Ordered, sweepRank]
    have hrounds : Ordered sweepRank [(.exclusive, .data)]
        (((t.toRemove order now).take (thrownAt + 1)).flatMap fun _ => triggerLocks .removeEvent)
        [(.exclusive, .data)] := Ordered.flatMap fun _ _ => hround
    exact ⟨by simp, hrounds.append (by simp [Ordered])⟩

/-- A sweep that finds an expired node asks for the manager while it holds the table. -/
theorem locks_of_expired {call : ReceiverCall} (h : ¬ call.FindsNoneExpired) :
    ∃ p, call.locks = [.acquire .exclusive .data, .acquire .exclusive .removeEvent,
      .release .exclusive .removeEvent] ++ .acquire .exclusive .manager :: p := by
  cases call with
  | processHeartbeat t heartbeat fetched => exact absurd trivial h
  | checkHeartbeats t order now thrownAt =>
    cases hremove : t.toRemove order now with
    | nil => exact absurd hremove h
    | cons id ids =>
      simp only [ReceiverCall.locks, hremove, List.take_succ_cons, List.flatMap_cons,
        triggerLocks, guarded, List.nil_append, List.cons_append]
      exact ⟨_, rfl⟩

/-- Every registration starts by asking for the manager. -/
theorem registrations_next (topics : List Str) :
    topics.flatMap registerTopicSubscriberLocks = [] ∨
      ∃ p, topics.flatMap registerTopicSubscriberLocks =
        .acquire .exclusive .manager :: .acquire .shared .data :: p := by
  cases topics with
  | nil => exact Or.inl rfl
  | cons topic topics => exact Or.inr ⟨_, rfl⟩

/-- The receive task can run by itself up to the callback of such a sweep. -/
theorem reaches_callback {n : Nat} {calls : List ReceiverCall} (topics : Fin n → List Str)
    {call : ReceiverCall} (hcall : call ∈ calls) (hexpired : ¬ call.FindsNoneExpired) :
    ∃ p, Relation.ReflTransGen Step (State.start (threads calls topics))
      ((State.start (threads calls topics)).set none (.acquire .exclusive .manager :: p)
        [(.exclusive, .data)]) := by
  obtain ⟨before, after, rfl⟩ := List.append_of_mem hcall
  obtain ⟨p, hp⟩ := locks_of_expired hexpired
  have hsweep : Ordered sweepRank [] (before.flatMap ReceiverCall.locks ++
      [.acquire .exclusive .data, .acquire .exclusive .removeEvent,
        .release .exclusive .removeEvent]) [(.exclusive, .data)] :=
    (Ordered.flatMap fun c _ => locks_ordered c).append (by simp [Ordered, sweepRank])
  refine ⟨p ++ after.flatMap ReceiverCall.locks, run_alone (fun _ _ => rfl) ?_ hsweep⟩
  simp [State.start, threads, hp]

/-- With the table locked by the sweep and the manager by a registration, everyone waits. -/
theorem sweep_and_registration_stuck {n : Nat} {s : State (Option (Fin n)) Lock}
    {topics : Fin n → List Str} {i : Fin n} {p q : List (LockOp Lock)}
    (hnone : s.rest none = .acquire .exclusive .manager :: p)
    (hdata : (.exclusive, .data) ∈ s.held none)
    (hi : s.rest (some i) = .acquire .shared .data :: q)
    (hmanager : (.exclusive, .manager) ∈ s.held (some i))
    (hothers : ∀ j, j ≠ i → s.rest (some j) = (topics j).flatMap registerTopicSubscriberLocks) :
    ¬ ∃ s', Step s s' := by
  apply stuck_of_waits
  intro j
  cases j with
  | none => exact Or.inr ⟨_, _, _, hnone, some i, _, hmanager, rfl, Or.inl rfl⟩
  | some j =>
    by_cases hj : j = i
    · subst hj
      exact Or.inr ⟨_, _, _, hi, none, _, hdata, rfl, Or.inr rfl⟩
    · rw [hothers j hj]
      refine (registrations_next (topics j)).imp_right fun ⟨r, hr⟩ => ?_
      exact ⟨_, _, _, (hothers j hj).trans hr, some i, _, hmanager, rfl, Or.inl rfl⟩

/-- One registration and one sweep with an expired node can block each other for good. -/
theorem deadlock_of_expired {n : Nat} {calls : List ReceiverCall} {topics : Fin n → List Str}
    {i : Fin n} (hi : topics i ≠ []) {call : ReceiverCall} (hcall : call ∈ calls)
    (hexpired : ¬ call.FindsNoneExpired) : ¬ DeadlockFree (threads calls topics) := by
  intro hfree
  obtain ⟨p, hreach⟩ := reaches_callback topics hcall hexpired
  obtain ⟨q, hq⟩ := (registrations_next (topics i)).resolve_left fun hnil => by
    obtain ⟨topic, more, hcons⟩ := List.exists_cons_of_ne_nil hi
    simp [hcons, registerTopicSubscriberLocks, guarded] at hnil
  let s := (State.start (threads calls topics)).set none (.acquire .exclusive .manager :: p)
    [(.exclusive, .data)]
  have hrest : ∀ j, s.rest (some j) = (topics j).flatMap registerTopicSubscriberLocks :=
    fun j => State.rest_set_of_ne _ (Option.some_ne_none j) _ _
  have hheld : ∀ j, s.held (some j) = [] :=
    fun j => State.held_set_of_ne _ (Option.some_ne_none j) _ _
  have hgrant : ∀ j, ∀ g ∈ s.held j, ¬ Conflicts (Mode.exclusive, Lock.manager) g := by
    intro j g hg
    cases j with
    | none =>
      have hdata : g = (.exclusive, .data) := by simpa [s] using hg
      simp [hdata, Conflicts]
    | some j => simp [hheld] at hg
  -- the registration takes the mutex of the manager in between
  have hstep := Step.acquire (some i) ((hrest i).trans hq) hgrant
  let s' := s.set (some i) (.acquire .shared .data :: q) ((.exclusive, .manager) :: s.held (some i))
  have hnone : s'.rest none = .acquire .exclusive .manager :: p := by
    simp [s', s, State.rest_set_of_ne]
  have hdata : (.exclusive, .data) ∈ s'.held none := by simp [s', s, State.held_set_of_ne]
  have hothers : ∀ j, j ≠ i → s'.rest (some j) = (topics j).flatMap registerTopicSubscriberLocks :=
    fun j hj => (s.rest_set_of_ne (fun h => hj (Option.some.inj h)) _ _).trans (hrest j)
  rcases hfree s' (hreach.tail hstep) with hfinished | hnext
  · simpa [hnone] using hfinished none
  · exact sweep_and_registration_stuck (q := q) hnone hdata (by simp [s']) (by simp [s']) hothers
      hnext

/-- The threads never wait for each other, whatever the schedule, exactly when nobody
registers or no sweep of the receive task finds an expired node. -/
theorem registration_deadlock_free_iff {n : Nat} (calls : List ReceiverCall)
    (topics : Fin n → List Str) :
    DeadlockFree (threads calls topics) ↔
      (∀ i, topics i = []) ∨ ∀ call ∈ calls, call.FindsNoneExpired := by
  constructor
  · intro hfree
    by_contra hcon
    push Not at hcon
    obtain ⟨⟨i, hi⟩, call, hcall, hexpired⟩ := hcon
    exact deadlock_of_expired hi hcall hexpired hfree
  · rintro (hnobody | hnone)
    · apply deadlockFree_of_ordered sweepRank
      intro j
      cases j with
      | none => exact Ordered.flatMap fun call _ => locks_ordered call
      | some i => simp [threads, hnobody i, Ordered]
    · apply deadlockFree_of_ordered registrationRank
      intro j
      cases j with
      | none =>
        exact Ordered.flatMap fun call hcall => locks_ordered_of_none_expired _ (hnone call hcall)
      | some i =>
        exact Ordered.flatMap fun topic _ => registerTopicSubscriberLocks_ordered topic

/-- A node heard at time zero is expired three seconds later. -/
def expiredCall : ReceiverCall :=
  .checkHeartbeats (NodeTable.empty.updateNodeUnlocked (ascii "a") {} 0) .stored 3000000000 0

/-- One thread that registers a subscriber while that node expires. -/
theorem registration_deadlocks_with_expiry :
    ¬ DeadlockFree (threads [expiredCall] (fun _ : Fin 1 => [ascii "imu"])) :=
  deadlock_of_expired (i := 0) (by decide) (List.mem_singleton.mpr rfl)
    (by simp only [expiredCall, ReceiverCall.FindsNoneExpired]; decide)

end ZeroLanCom
