import ZeroLanCom.Nodes.Multicast

/-!
# Live nodes

Every heartbeat that gets past the filters brings a sweep with it, and it may be
a heartbeat of somebody else. A node outlives the sweeps as long as each of them
comes soon enough after its own last sign of life, which is a heartbeat or the
end of the fetch that the heartbeat has led to.
-/

namespace ZeroLanCom

open Throwing

variable {σ : Type*}

/-- The call of `processHeartbeat` that a datagram leads to. -/
def Datagram.call (d : Datagram) (heartbeat : HeartbeatMessage) : HeartbeatCall :=
  ⟨heartbeat, d.nodeIP, d.fetchNodeInfo, d.noteTime, d.storeTime⟩

/-- When the node has last shown a sign of life, once the heartbeat has been processed. -/
def lastSign (t : NodeTable) (c : HeartbeatCall) (id : Str) : Option Nat :=
  if id = c.heartbeat.nodeId then
    if c.fetches t && c.fetched.isSome then some c.storeTime else some c.noteTime
  else t.nodesHeartbeat.lookup id

/-- The sweep that the datagram brings, if any, comes in time for the node. -/
def SweptInTime (r : MulticastReceiver) (ownID : UUID) (id : Str) (p : NodeTable × σ)
    (d : Datagram) : Prop :=
  ∀ heartbeat, r.accepted ownID d = some heartbeat →
    ∀ last ∈ lastSign p.1 (d.call heartbeat) id, NodeTable.isExpired d.sweepTime last = false

section Call

variable (nodeUpdateEvent : Event NodeInfo σ) (p : NodeTable × σ) (c : HeartbeatCall)

/-- A heartbeat is a sign of life of its node only. -/
theorem lookup_heartbeatStep (id : Str) :
    (heartbeatStep nodeUpdateEvent p c).1.nodesHeartbeat.lookup id = lastSign p.1 c id := by
  unfold lastSign
  rcases heartbeatStep_cases nodeUpdateEvent p c with ⟨hquiet, hstep⟩ | ⟨info, hf, hsome, hstep⟩
  · have hnone : (c.fetches p.1 && c.fetched.isSome) = false := by
      cases hf : c.fetches p.1 with
      | false => rfl
      | true => simp [hquiet hf]
    simp only [hstep, hnone, Bool.false_eq_true, if_false, NodeTable.noteHeartbeat]
    split_ifs with hid
    · rw [hid, AList.lookup_insert]
    · rw [AList.lookup_insert_ne hid]
  · simp only [hstep, hf, hsome, Option.isSome_some, Bool.and_self, if_true,
      NodeTable.updateNodeUnlocked, NodeTable.noteHeartbeat]
    split_ifs with hid
    · rw [hid, AList.lookup_insert]
    · rw [AList.lookup_insert_ne hid, AList.lookup_insert_ne hid]

/-- It takes nobody out of the table. -/
theorem mem_heartbeatStep {id : Str} (h : id ∈ p.1.nodesInfo) :
    id ∈ (heartbeatStep nodeUpdateEvent p c).1.nodesInfo := by
  rcases heartbeatStep_cases nodeUpdateEvent p c with ⟨_, hstep⟩ | ⟨info, _, _, hstep⟩
  · rw [hstep]
    exact h
  · rw [hstep]
    exact (AList.mem_insert _).mpr (Or.inr h)

end Call

section Runs

variable {r : MulticastReceiver} {ownID : UUID} {nodeUpdateEvent nodeRemoveEvent : Event NodeInfo σ}
  {p : NodeTable × σ} {d : Datagram} {heartbeat : HeartbeatMessage}

/-- With callbacks that return, an iteration processes the heartbeat and sweeps. -/
theorem receiveStep_table (hupdate : nodeUpdateEvent.Returns) (hremove : nodeRemoveEvent.Returns)
    (h : r.accepted ownID d = some heartbeat) :
    (receiveStep r ownID nodeUpdateEvent nodeRemoveEvent p d).1 =
      (heartbeatStep nodeUpdateEvent p (d.call heartbeat)).1.removeNodes
        ((heartbeatStep nodeUpdateEvent p (d.call heartbeat)).1.toRemove d.order d.sweepTime) := by
  obtain ⟨p', hp'⟩ := processHeartbeat_returns hupdate d.fetchNodeInfo heartbeat d.nodeIP
    d.noteTime d.storeTime p
  obtain ⟨s, hs⟩ := checkHeartbeats_returns hremove d.order d.sweepTime p'
  have hprocessed : heartbeatStep nodeUpdateEvent p (d.call heartbeat) = p' := by
    simp only [heartbeatStep, Datagram.call, hp', Outcome.state_done]
  rw [receiveStep_of_accepted h, hp', Outcome.done_bind, hs, hprocessed]
  rfl

/-- A node is still there if it was and is not among the removed. -/
theorem mem_removeNodes {t : NodeTable} {ids : List Str} {id : Str} :
    id ∈ (t.removeNodes ids).nodesInfo ↔ id ∉ ids ∧ id ∈ t.nodesInfo := by
  rw [← AList.lookup_isSome, NodeTable.lookup_removeNodes, ← AList.lookup_isSome]
  split_ifs with hid <;> simp [hid]

/-- A node of the table outlives an iteration exactly if the sweep comes in time. -/
theorem receiveStep_stays_iff (hupdate : nodeUpdateEvent.Returns)
    (hremove : nodeRemoveEvent.Returns) {id : Str} (hid : id ∈ p.1.nodesInfo) :
    id ∈ (receiveStep r ownID nodeUpdateEvent nodeRemoveEvent p d).1.nodesInfo ↔
      SweptInTime r ownID id p d := by
  unfold SweptInTime
  cases haccepted : r.accepted ownID d with
  | none =>
    rw [receiveStep_of_dropped haccepted]
    exact iff_of_true hid fun _ h => by cases h
  | some heartbeat =>
    have hstill := mem_heartbeatStep nodeUpdateEvent p (d.call heartbeat) hid
    rw [receiveStep_table hupdate hremove haccepted, mem_removeNodes, NodeTable.mem_toRemove,
      and_iff_left hstill, lookup_heartbeatStep]
    simp only [Option.some.injEq, forall_eq', Option.mem_def, not_exists, not_and,
      Bool.not_eq_true]

/-- In every run with callbacks that return, a node stays in the table from the first iteration to
the last exactly if every sweep on the way comes in time for it. -/
theorem live_node_stays_iff (hupdate : nodeUpdateEvent.Returns) (hremove : nodeRemoveEvent.Returns)
    {id : Str} (hid : id ∈ p.1.nodesInfo) (ds : List Datagram) :
    Runs.Always (receiveStep r ownID nodeUpdateEvent nodeRemoveEvent)
        (fun p => id ∈ p.1.nodesInfo) p ds ↔
      Runs.Each (receiveStep r ownID nodeUpdateEvent nodeRemoveEvent) (SweptInTime r ownID id)
        p ds :=
  Runs.always_iff_each (I := fun _ => True) (P := fun p : NodeTable × σ => id ∈ p.1.nodesInfo)
    (fun _ _ _ => trivial) (fun _ _ _ h => receiveStep_stays_iff hupdate hremove h) trivial hid ds

/-- A node that was stored at the start. -/
def examplePeer : NodeTable × Unit :=
  (NodeTable.empty.updateNodeUnlocked (generateUUID 1 1 1 1) {} 0, ())

/-- Its next heartbeat comes after two seconds, and the sweep after four is in time for that. -/
theorem live_node_stays_examplePeer :
    Runs.Always (receiveStep exampleReceiver exampleOwnID ⟨[]⟩ ⟨[]⟩)
      (fun p : NodeTable × Unit => generateUUID 1 1 1 1 ∈ p.1.nodesInfo) examplePeer
      [exampleDatagram (generateUUID 1 1 1 1) (ascii "10.0.0.2") 2000000000,
        exampleDatagram (generateUUID 2 2 2 2) (ascii "10.0.0.2") 4000000000] := by
  refine (live_node_stays_iff (fun _ s => ⟨s, rfl⟩) (fun _ s => ⟨s, rfl⟩)
    ((AList.mem_insert _).mpr (Or.inl rfl)) _).mpr ⟨?_, ?_, trivial⟩
  all_goals
    rintro _ ⟨⟩ last hlast
    obtain rfl : last = 2000000000 := Option.some.inj ((Option.mem_def.mp hlast).symm.trans rfl)
    decide

end Runs

end ZeroLanCom
