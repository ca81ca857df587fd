import ZeroLanCom.Library.Runs
import ZeroLanCom.Nodes.NodeInfoManager

/-!
# Multicast heartbeats

The callback of the receive task takes one datagram at a time through its
filters. Only a heartbeat of another node of the group and subnet reaches
`processHeartbeat`, and only then does the sweep for dead nodes run.
-/

namespace ZeroLanCom

open Throwing

/-- `DEFAULT_SUBNET_MASK`. -/
def defaultSubnetMask : UInt32 := 0xFFFFFF00

/-- `isInSameSubnet`; `inetAton` parses an address into host order. -/
def isInSameSubnet (inetAton : Str → Option UInt32) (ip1 ip2 : Str)
    (subnetMask : UInt32 := defaultSubnetMask) : Bool :=
  match inetAton ip1, inetAton ip2 with
  | some ip1Host, some ip2Host => (ip1Host &&& subnetMask) == (ip2Host &&& subnetMask)
  | _, _ => false

/-- `MulticastReceiver` with the address parser of its platform. -/
structure MulticastReceiver where
  localIP : Str
  groupName : Str
  inetAton : Str → Option UInt32

/-- One datagram, the answer a fetch would get, and what the clock shows on the way: when the
datagram is received, at the two writes of `processHeartbeat`, and when the sweep starts. -/
structure Datagram where
  nodeIP : Str
  data : Bytes
  fetchNodeInfo : Str → Int32 → Option NodeInfo
  recvTime : Nat
  noteTime : Nat
  storeTime : Nat
  sweepTime : Nat
  order : MapOrder
  recv_le_sweep : recvTime ≤ sweepTime

/-- The filters of the receive callback, on the first 1024 bytes of the datagram. What
`decode` throws is caught with everything else, and ends the callback like an early return. -/
def MulticastReceiver.accepted (r : MulticastReceiver) (ownID : UUID) (d : Datagram) :
    Option HeartbeatMessage :=
  let buf := d.data.take 1024
  if buf.length ≤ 0 then none
  else if !isInSameSubnet r.inetAton r.localIP d.nodeIP then none
  else match HeartbeatMessage.decode buf with
    | .error _ => none
    | .ok heartbeat =>
      if heartbeat.groupName ≠ r.groupName then none
      else if heartbeat.nodeId = ownID then none
      else some heartbeat

variable {σ : Type*}

/-- The callback of the receive task. -/
def receiveOnce (r : MulticastReceiver) (ownID : UUID)
    (nodeUpdateEvent nodeRemoveEvent : Event NodeInfo σ) (d : Datagram) (p : NodeTable × σ) :
    Outcome Exn (NodeTable × σ) :=
  match r.accepted ownID d with
  | none => .done p
  | some heartbeat =>
    ((processHeartbeat d.fetchNodeInfo nodeUpdateEvent heartbeat d.nodeIP d.noteTime d.storeTime
      p).bind (checkHeartbeats nodeRemoveEvent d.order d.sweepTime)).catching Exn.isStd

/-- One iteration of the receive task. `PeriodicTask::runLoop` stops what gets past it. -/
def receiveStep (r : MulticastReceiver) (ownID : UUID)
    (nodeUpdateEvent nodeRemoveEvent : Event NodeInfo σ) (p : NodeTable × σ) (d : Datagram) :
    NodeTable × σ :=
  (receiveOnce r ownID nodeUpdateEvent nodeRemoveEvent d p).state

variable {r : MulticastReceiver} {ownID : UUID} {nodeUpdateEvent nodeRemoveEvent : Event NodeInfo σ}
  {d : Datagram} {p : NodeTable × σ}

/-- A datagram that is dropped changes nothing. -/
theorem receiveStep_of_dropped (h : r.accepted ownID d = none) :
    receiveStep r ownID nodeUpdateEvent nodeRemoveEvent p d = p := by
  simp [receiveStep, receiveOnce, h]

/-- One that is accepted is processed, and a sweep follows. -/
theorem receiveStep_of_accepted {heartbeat : HeartbeatMessage}
    (h : r.accepted ownID d = some heartbeat) :
    receiveStep r ownID nodeUpdateEvent nodeRemoveEvent p d =
      ((processHeartbeat d.fetchNodeInfo nodeUpdateEvent heartbeat d.nodeIP d.noteTime d.storeTime
        p).bind (checkHeartbeats nodeRemoveEvent d.order d.sweepTime)).state := by
  simp [receiveStep, receiveOnce, h]

/-- With callbacks that return, so does `processHeartbeat`. -/
theorem processHeartbeat_returns (hupdate : nodeUpdateEvent.Returns)
    (fetchNodeInfo : Str → Int32 → Option NodeInfo) (heartbeat : HeartbeatMessage) (nodeIP : Str)
    (noteTime storeTime : Nat) (p : NodeTable × σ) :
    ∃ p', processHeartbeat fetchNodeInfo nodeUpdateEvent heartbeat nodeIP noteTime storeTime p =
      .done p' := by
  simp only [processHeartbeat]
  split_ifs
  · cases fetchNodeInfo nodeIP heartbeat.servicePort with
    | none => exact ⟨_, rfl⟩
    | some nodeInfo =>
      obtain ⟨s, hs⟩ := hupdate nodeInfo p.2
      simp only [hs, Outcome.map_done]
      exact ⟨_, rfl⟩
  · exact ⟨_, rfl⟩

/-- No node is left in `nodes_info_` that the expiry test calls dead at that time. -/
def NodeTable.NoneExpired (t : NodeTable) (now : Nat) : Prop :=
  ∀ id ∈ t.nodesInfo, ∀ last ∈ t.nodesHeartbeat.lookup id, isExpired now last = false

/-- A sweep leaves nobody behind who was expired when it started, or at any time before. -/
theorem NodeTable.noneExpired_removeNodes (t : NodeTable) (order : MapOrder) {before now : Nat}
    (hle : before ≤ now) : (t.removeNodes (t.toRemove order now)).NoneExpired before := by
  intro id hid last hlast
  rw [Option.mem_def, lookup_heartbeat_removeNodes] at hlast
  split_ifs at hlast with hmem
  -- the node was kept, so its age at the sweep is below the bound
  have hnot : ¬ isExpired now last = true := fun h => hmem (mem_toRemove.mpr ⟨last, hlast, h⟩)
  exact Bool.eq_false_iff.mpr fun h => hnot (isExpired_mono hle h)

/-- After one iteration nobody is overdue exactly when the datagram got past the filters, or
nobody was overdue before. -/
theorem receiveStep_noneExpired_iff (hupdate : nodeUpdateEvent.Returns)
    (hremove : nodeRemoveEvent.Returns) (p : NodeTable × σ) (d : Datagram) :
    (receiveStep r ownID nodeUpdateEvent nodeRemoveEvent p d).1.NoneExpired d.recvTime ↔
      (r.accepted ownID d).isSome ∨ p.1.NoneExpired d.recvTime := by
  cases h : r.accepted ownID d with
  | none => simp [receiveStep_of_dropped h]
  | some heartbeat =>
    obtain ⟨p', hp'⟩ := processHeartbeat_returns hupdate d.fetchNodeInfo heartbeat d.nodeIP
      d.noteTime d.storeTime p
    obtain ⟨s, hs⟩ := checkHeartbeats_returns hremove d.order d.sweepTime p'
    rw [receiveStep_of_accepted h, hp', Outcome.done_bind, hs]
    simpa using p'.1.noneExpired_removeNodes d.order d.recv_le_sweep

/-- Along every run of the receive task dead nodes have left the table after each iteration
exactly when each datagram that is dropped meets a table without dead nodes. -/
theorem dead_nodes_leave_iff (hupdate : nodeUpdateEvent.Returns)
    (hremove : nodeRemoveEvent.Returns) (p : NodeTable × σ) (ds : List Datagram) :
    Runs.Each (receiveStep r ownID nodeUpdateEvent nodeRemoveEvent)
        (fun p d => (receiveStep r ownID nodeUpdateEvent nodeRemoveEvent p d).1.NoneExpired
          d.recvTime) p ds ↔
      Runs.Each (receiveStep r ownID nodeUpdateEvent nodeRemoveEvent)
        (fun p d => (r.accepted ownID d).isSome ∨ p.1.NoneExpired d.recvTime) p ds :=
  Runs.each_congr fun p d => receiveStep_noneExpired_iff hupdate hremove p d

/-- `inet_aton` on the two addresses of the run below. -/
def exampleInetAton (ip : Str) : Option UInt32 :=
  if ip = ascii "10.0.0.1" then some 0x0A000001
  else if ip = ascii "10.0.0.2" then some 0x0A000002 else none

/-- A receiver at the first of them. -/
def exampleReceiver : MulticastReceiver := ⟨ascii "10.0.0.1", ascii "lab", exampleInetAton⟩

/-- The id of its own node. -/
def exampleOwnID : UUID := generateUUID 0 0 0 0

/-- The heartbeat of a node, received within a nanosecond and without a delay behind it. -/
def exampleDatagram (nodeID : UUID) (nodeIP : Str) (time : Nat) : Datagram where
  nodeIP := nodeIP
  data := ((HeartbeatMessage.encode ⟨(0, 1, 0), nodeID, 1, 6000, ascii "lab"⟩).toOption).getD []
  fetchNodeInfo := fun ip _ => some { nodeID := nodeID, infoID := 1, ip := ip }
  recvTime := time
  noteTime := time
  storeTime := time
  sweepTime := time
  order := .stored
  recv_le_sweep := le_rfl

/-- The only other node is heard once; ten seconds later the own heartbeat comes back. -/
def lonelyRun : List Datagram :=
  [exampleDatagram (generateUUID 1 1 1 1) (ascii "10.0.0.2") 0,
    exampleDatagram exampleOwnID (ascii "10.0.0.1") 10000000000]

/-- The node is still in the table, although the expiry test calls it dead. -/
theorem own_heartbeats_keep_dead_nodes :
    ¬ Runs.Each (receiveStep exampleReceiver exampleOwnID ⟨[]⟩ ⟨[]⟩)
      (fun p d => (receiveStep exampleReceiver exampleOwnID ⟨[]⟩ ⟨[]⟩ p d).1.NoneExpired
        d.recvTime) (NodeTable.empty, ()) lonelyRun := by
  rintro ⟨_, h, _⟩
  have hdead := h (generateUUID 1 1 1 1) (by decide) 0 (by decide)
  exact absurd hdead (by decide)

/-- A run that ends with a heartbeat of a live node meets the condition and is swept. -/
theorem dead_nodes_leave_live_peer :
    Runs.Each (receiveStep exampleReceiver exampleOwnID ⟨[]⟩ ⟨[]⟩)
      (fun p d => (receiveStep exampleReceiver exampleOwnID ⟨[]⟩ ⟨[]⟩ p d).1.NoneExpired
        d.recvTime) (NodeTable.empty, ())
      [exampleDatagram (generateUUID 1 1 1 1) (ascii "10.0.0.2") 0,
        exampleDatagram (generateUUID 2 2 2 2) (ascii "10.0.0.2") 10000000000] :=
  (dead_nodes_leave_iff (fun _ s => ⟨s, rfl⟩) (fun _ s => ⟨s, rfl⟩) (NodeTable.empty, ()) _).mpr
    ⟨Or.inl (by decide), Or.inl (by decide), trivial⟩

end ZeroLanCom
