import ZeroLanCom.Sockets.Events
import ZeroLanCom.System.ReceiveTask

/-!
# Registration next to the receive task

Any number of threads register subscribers and publish topics while the receive
task stores, announces and removes nodes. The mutex of the subscriber manager
serialises registrations and callbacks, and the lock on the table keeps
registrations from reading it during a sweep. Everything in between interleaves.
-/

namespace ZeroLanCom

open Throwing

variable {κ : Type}

/-- The call of `_registerTopicSubscriber` that holds the mutex of the subscriber manager,
before and after it has read the table. -/
inductive Registration (κ : Type) where
  | free
  | locked (topicName : Str) (callback : κ)
  | read (topicName : Str) (callback : κ) (urls : List Str)

/-- The receive task, the node's own adverts, and the subscribers with the registration that is
going on among them. -/
structure Discovery (κ : Type) where
  receiver : Receiver
  localNode : LocalNode
  subs : List (Subscriber κ)
  registration : Registration κ

/-- The step does not call into the subscriber manager. -/
def ReceiveLabel.Quiet : ReceiveLabel → Prop
  | .announced _ => False
  | .removing _ _ => False
  | _ => True

namespace Discovery

/-- A process without subscribers that knows no other node. -/
def start (localNode : LocalNode) : Discovery κ := ⟨⟨.empty, .idle⟩, localNode, [], .free⟩

/-- One step of any thread, and whether ZeroMQ accepted all it was asked for. -/
inductive Step (accepts : Str → Bool) : Discovery κ → Bool → Discovery κ → Prop
  | publish (s : Discovery κ) (name : Str) (port : UInt16) :
    Step accepts s true { s with localNode := s.localNode.registerLocalTopic name port }
  | lock (s : Discovery κ) (topicName : Str) (callback : κ) (hfree : s.registration = .free) :
    Step accepts s true { s with registration := .locked topicName callback }
  | read (s : Discovery κ) {topicName : Str} {callback : κ} (order : MapOrder)
      (hlocked : s.registration = .locked topicName callback)
      (hshared : ¬ s.receiver.task.InSweep) :
    Step accepts s true
      { s with
        registration := .read topicName callback
          (findTopicURLs s.receiver.table s.localNode.getLocalNodeInfo order topicName) }
  | connect (s : Discovery κ) {topicName : Str} {callback : κ} {urls : List Str}
      (hread : s.registration = .read topicName callback urls) :
    Step accepts s (registerTopicSubscriber accepts topicName callback urls s.subs).returned
      { s with
        subs := (registerTopicSubscriber accepts topicName callback urls s.subs).state
        registration := .free }
  | receive (s : Discovery κ) {l : ReceiveLabel} {r : Receiver} (hstep : ReceiveStep s.receiver l r)
      (hquiet : l.Quiet) :
    Step accepts s true { s with receiver := r }
  | announce (s : Discovery κ) {info : NodeInfo} {r : Receiver}
      (hstep : ReceiveStep s.receiver (.announced info) r) (hfree : s.registration = .free) :
    Step accepts s (updateTopicSubscriber accepts info s.subs).returned
      { s with receiver := r, subs := (updateTopicSubscriber accepts info s.subs).state }
  | remove (s : Discovery κ) {info : NodeInfo} {returns : Bool} {r : Receiver}
      (hstep : ReceiveStep s.receiver (.removing info returns) r)
      (hfree : s.registration = .free)
      (hreturns : (removeTopicSubscriber info s.subs).returned = returns) :
    Step accepts s returns
      { s with receiver := r, subs := (removeTopicSubscriber info s.subs).state }

/-- A registration that connects to all it has found. -/
theorem Step.connect_done {accepts : Str → Bool} {s : Discovery κ} {topicName : Str} {callback : κ}
    {urls : List Str} {subs : List (Subscriber κ)}
    (hread : s.registration = .read topicName callback urls)
    (hdone : registerTopicSubscriber accepts topicName callback urls s.subs = .done subs) :
    Step accepts s true { s with subs := subs, registration := .free } := by
  have hstep := @Step.connect _ accepts s _ _ _ hread
  rwa [hdone] at hstep

/-- An update event that connects everybody it is about. -/
theorem Step.announce_done {accepts : Str → Bool} {s : Discovery κ} {info : NodeInfo}
    {r : Receiver} {subs : List (Subscriber κ)}
    (hstep : ReceiveStep s.receiver (.announced info) r) (hfree : s.registration = .free)
    (hdone : updateTopicSubscriber accepts info s.subs = .done subs) :
    Step accepts s true { s with receiver := r, subs := subs } := by
  have h := @Step.announce _ accepts s _ _ hstep hfree
  rwa [hdone] at h

/-- A removal event that disconnects everybody it is about. -/
theorem Step.remove_done {accepts : Str → Bool} {s : Discovery κ} {info : NodeInfo}
    {r : Receiver} {subs : List (Subscriber κ)}
    (hstep : ReceiveStep s.receiver (.removing info true) r) (hfree : s.registration = .free)
    (hdone : removeTopicSubscriber info s.subs = .done subs) :
    Step accepts s true { s with receiver := r, subs := subs } := by
  have h := @Step.remove _ accepts s _ _ _ hstep hfree (by rw [hdone]; rfl)
  rwa [hdone] at h

/-- A removal event that throws, with what it has done up to there. -/
theorem Step.remove_threw {accepts : Str → Bool} {s : Discovery κ} {info : NodeInfo}
    {r : Receiver} {e : Exn} {subs : List (Subscriber κ)}
    (hstep : ReceiveStep s.receiver (.removing info false) r) (hfree : s.registration = .free)
    (hthrew : removeTopicSubscriber info s.subs = .threw e subs) :
    Step accepts s false { s with receiver := r, subs := subs } := by
  have h := @Step.remove _ accepts s _ _ _ hstep hfree (by rw [hthrew]; rfl)
  rwa [hthrew] at h

/-- Some number of steps later. -/
def Reach (accepts : Str → Bool) : Discovery κ → Discovery κ → Prop :=
  Relation.ReflTransGen fun s s' => ∃ ok, Step accepts s ok s'

/-- Nothing is ever connected without being listed. -/
theorem listed_step {accepts : Str → Bool} {s s' : Discovery κ} {ok : Bool}
    (h : ∀ sub ∈ s.subs, sub.Listed) (hstep : Step accepts s ok s') :
    ∀ sub ∈ s'.subs, sub.Listed := by
  cases hstep with
  | publish name port => exact h
  | lock topicName callback hfree => exact h
  | read order hlocked hshared => exact h
  | @connect topicName callback urls hread =>
    exact registerTopicSubscriber_mem (Subscriber.registered_listed topicName callback urls) h
  | receive hr hquiet => exact h
  | announce hr hfree =>
    exact updateTopicSubscriber_mem
      (fun topic _ sub hsub => Subscriber.updateTopic_listed accepts topic hsub) h
  | remove hr hfree hreturns =>
    exact removeTopicSubscriber_mem
      (fun topic _ sub hsub => Subscriber.removeTopic_listed topic hsub) h

/-- In every state whatever is connected is listed. -/
theorem listed_reachable {accepts : Str → Bool} {localNode : LocalNode} {s : Discovery κ}
    (hreach : Reach accepts (start localNode) s) : ∀ sub ∈ s.subs, sub.Listed :=
  Runs.reachable_invariant (I := fun s : Discovery κ => ∀ sub ∈ s.subs, sub.Listed)
    (fun _ _ h ⟨_, hstep⟩ => listed_step h hstep) hreach fun _ h => absurd h List.not_mem_nil

/-- Between two calls of the receive task, with nobody registering. -/
def resting (localNode : LocalNode) (p : NodeTable × List (Subscriber κ)) : Discovery κ :=
  ⟨⟨p.1, .idle⟩, localNode, p.2, .free⟩

/-- A quiet step of the receive task is a step of the process. -/
theorem reach_receive (accepts : Str → Bool) {s : Discovery κ} {l : ReceiveLabel} {r : Receiver}
    (hstep : ReceiveStep s.receiver l r) (hquiet : l.Quiet) :
    Reach accepts s { s with receiver := r } :=
  .single ⟨true, .receive s hstep hquiet⟩

/-- A heartbeat that is processed without interruption. -/
theorem reach_processHeartbeat (accepts : Str → Bool)
    (fetchNodeInfo : Str → Int32 → Option NodeInfo) (heartbeat : HeartbeatMessage) (nodeIP : Str)
    (noteTime storeTime : Nat) (localNode : LocalNode) (p : NodeTable × List (Subscriber κ)) :
    Reach accepts (resting localNode p) (resting localNode
      (processHeartbeat fetchNodeInfo (nodeUpdateEvent accepts) heartbeat nodeIP noteTime storeTime
        p).state) := by
  have hhear := reach_receive accepts (s := resting localNode p) (.hear p.1 heartbeat noteTime)
    trivial
  simp only [processHeartbeat, Outcome.state_catching]
  split_ifs at hhear ⊢ with hneeds
  · cases hfetch : fetchNodeInfo nodeIP heartbeat.servicePort with
    | none => exact hhear.trans (reach_receive accepts (.fetch _ heartbeat none) trivial)
    | some info =>
      have hfetch := hhear.trans (reach_receive accepts (.fetch _ heartbeat (some info)) trivial)
      have hstore := hfetch.trans (reach_receive accepts (.store _ _ info storeTime) trivial)
      have hannounce := hstore.tail ⟨_, .announce _ (.announce _ _ info) rfl⟩
      rw [trigger_nodeUpdateEvent, Outcome.state_map]
      exact hannounce
  · exact hhear

/-- In the middle of a sweep. -/
def sweeping (localNode : LocalNode) (ids : List Str) (p : NodeTable × List (Subscriber κ)) :
    Discovery κ := ⟨⟨p.1, .sweeping ids⟩, localNode, p.2, .free⟩

/-- A sweep that runs without interruption. -/
theorem reach_checkHeartbeats (accepts : Str → Bool) (order : MapOrder) (now : Nat)
    (localNode : LocalNode) (p : NodeTable × List (Subscriber κ)) :
    Reach accepts (resting localNode p)
      (resting localNode (checkHeartbeats nodeRemoveEvent order now p).state) := by
  have hloop : ∀ (ids : List Str) (p : NodeTable × List (Subscriber κ)),
      Reach accepts (sweeping localNode ids p)
        (resting localNode (forEach (removeExpired nodeRemoveEvent) ids p).state) := by
    intro ids
    induction ids with
    | nil => exact fun p => reach_receive accepts (.sweepEnds p.1) trivial
    | cons id ids ih =>
      intro p
      rw [forEach_cons, removeExpired, trigger_nodeRemoveEvent]
      cases hremove : removeTopicSubscriber (p.1.infoOf id) p.2 with
      | done subs =>
        have hstep : Step accepts (sweeping localNode (id :: ids) p) true
            ⟨⟨p.1, .erasing id ids⟩, localNode, subs, .free⟩ :=
          .remove_done (.remove p.1 id ids) rfl hremove
        have herase : Reach accepts ⟨⟨p.1, .erasing id ids⟩, localNode, subs, .free⟩
            (sweeping localNode ids (p.1.removeNode id, subs)) :=
          reach_receive accepts (.erase p.1 id ids) trivial
        rw [Outcome.done_bind, NodeTable.removeNode_touchInfo]
        exact (herase.trans (ih (p.1.removeNode id, subs))).head ⟨true, hstep⟩
      | threw e subs =>
        have hstep : Step accepts (sweeping localNode (id :: ids) p) false
            (resting localNode (p.1.touchInfo id, subs)) :=
          .remove_threw (.removeThrows p.1 id ids) rfl hremove
        exact .single ⟨false, hstep⟩
  have hsweep : Reach accepts (resting localNode p)
      (sweeping localNode (p.1.toRemove order now) p) :=
    reach_receive accepts (.sweep p.1 order now) trivial
  exact hsweep.trans (hloop _ p)

end Discovery

end ZeroLanCom
