import ZeroLanCom.Nodes.NodeInfoManager

/-!
# The receive task in atomic steps

Between its critical sections other threads see the receive task half-way
through `processHeartbeat` or `checkHeartbeats`. Its steps are the critical
sections, the fetch and the two calls into event callbacks. A label tells
whoever runs next to the task what it exchanged with them.
-/

namespace ZeroLanCom

/-- Where the task stands between two steps. -/
inductive ReceiveTask where
  | idle
  | fetching (heartbeat : HeartbeatMessage)
  | storing (nodeID : Str) (info : NodeInfo)
  | announcing (nodeID : Str) (info : NodeInfo)
  | sweeping (toRemove : List Str)
  | erasing (nodeID : Str) (toRemove : List Str)

/-- The critical section of `checkHeartbeats`, which callbacks run inside of. -/
def ReceiveTask.InSweep : ReceiveTask → Prop
  | .sweeping _ => True
  | .erasing _ _ => True
  | _ => False

/-- What a step exchanges with the rest of the system. A callback that does not return throws
a `std::exception`. -/
inductive ReceiveLabel where
  | heard (heartbeat : HeartbeatMessage)
  | fetched (heartbeat : HeartbeatMessage) (result : Option NodeInfo)
  | stored (nodeID : Str) (info : NodeInfo)
  | announced (info : NodeInfo)
  | removing (info : NodeInfo) (returns : Bool)
  | internal

/-- The table and the task that writes it. -/
structure Receiver where
  table : NodeTable
  task : ReceiveTask

/-- What the receive task does between two points where another thread can see the table. -/
inductive ReceiveStep : Receiver → ReceiveLabel → Receiver → Prop
  /-- The first critical section of `processHeartbeat`. -/
  | hear (t : NodeTable) (heartbeat : HeartbeatMessage) (now : Nat) :
    ReceiveStep ⟨t, .idle⟩ (.heard heartbeat)
      ⟨t.noteHeartbeat heartbeat.nodeId now,
        if (t.noteHeartbeat heartbeat.nodeId now).needsFetch heartbeat then .fetching heartbeat
        else .idle⟩
  /-- `fetchNodeInfo`, which takes no lock. -/
  | fetch (t : NodeTable) (heartbeat : HeartbeatMessage) (result : Option NodeInfo) :
    ReceiveStep ⟨t, .fetching heartbeat⟩ (.fetched heartbeat result)
      ⟨t, match result with
        | none => .idle
        | some info => .storing heartbeat.nodeId info⟩
  /-- The second critical section. -/
  | store (t : NodeTable) (nodeID : Str) (info : NodeInfo) (now : Nat) :
    ReceiveStep ⟨t, .storing nodeID info⟩ (.stored nodeID info)
      ⟨t.updateNodeUnlocked nodeID info now, .announcing nodeID info⟩
  /-- `node_update_event.trigger`; what it throws is caught in `processHeartbeat`. -/
  | announce (t : NodeTable) (nodeID : Str) (info : NodeInfo) :
    ReceiveStep ⟨t, .announcing nodeID info⟩ (.announced info) ⟨t, .idle⟩
  /-- `checkHeartbeats` takes the lock and collects the expired nodes. -/
  | sweep (t : NodeTable) (order : MapOrder) (now : Nat) :
    ReceiveStep ⟨t, .idle⟩ .internal ⟨t, .sweeping (t.toRemove order now)⟩
  /-- `node_remove_event.trigger(nodes_info_[nodeID])`. The entry that reading a missing node
  creates is erased before anyone else sees the table. -/
  | remove (t : NodeTable) (nodeID : Str) (ids : List Str) :
    ReceiveStep ⟨t, .sweeping (nodeID :: ids)⟩ (.removing (t.infoOf nodeID) true)
      ⟨t, .erasing nodeID ids⟩
  /-- An exception releases the lock and is caught in the receive callback. -/
  | removeThrows (t : NodeTable) (nodeID : Str) (ids : List Str) :
    ReceiveStep ⟨t, .sweeping (nodeID :: ids)⟩ (.removing (t.infoOf nodeID) false)
      ⟨t.touchInfo nodeID, .idle⟩
  /-- The three erasures. -/
  | erase (t : NodeTable) (nodeID : Str) (ids : List Str) :
    ReceiveStep ⟨t, .erasing nodeID ids⟩ .internal ⟨t.removeNode nodeID, .sweeping ids⟩
  | sweepEnds (t : NodeTable) : ReceiveStep ⟨t, .sweeping []⟩ .internal ⟨t, .idle⟩

namespace NodeTable

/-- The second critical section stores the info under its node, and nothing else. -/
theorem lookup_updateNodeUnlocked (t : NodeTable) (id k : Str) (info : NodeInfo) (now : Nat) :
    (t.updateNodeUnlocked id info now).nodesInfo.lookup k =
      if k = id then some info else t.nodesInfo.lookup k := by
  split_ifs with h
  · subst h
    exact AList.lookup_insert _
  · exact AList.lookup_insert_ne h

/-- It stores the version beside it. -/
theorem lookup_infoId_updateNodeUnlocked (t : NodeTable) (id k : Str) (info : NodeInfo)
    (now : Nat) : (t.updateNodeUnlocked id info now).nodesInfoId.lookup k =
      if k = id then some info.infoID else t.nodesInfoId.lookup k := by
  split_ifs with h
  · subst h
    exact AList.lookup_insert _
  · exact AList.lookup_insert_ne h

/-- An erasure takes one node out. -/
theorem lookup_removeNode (t : NodeTable) (id k : Str) :
    (t.removeNode id).nodesInfo.lookup k = if k = id then none else t.nodesInfo.lookup k := by
  split_ifs with h
  · subst h
    exact AList.lookup_erase _ _
  · exact AList.lookup_erase_ne h

/-- Its version goes with it. -/
theorem lookup_infoId_removeNode (t : NodeTable) (id k : Str) :
    (t.removeNode id).nodesInfoId.lookup k = if k = id then none else t.nodesInfoId.lookup k := by
  split_ifs with h
  · subst h
    exact AList.lookup_erase _ _
  · exact AList.lookup_erase_ne h

/-- A node that offers topics is there, and reading its entry does not change the table. -/
theorem touchInfo_of_topics {t : NodeTable} {id : Str} (h : (t.infoOf id).topics ≠ []) :
    t.touchInfo id = t := by
  unfold touchInfo
  split_ifs with hid
  · rfl
  · have hnone : t.nodesInfo.lookup id = none := by simpa [checkNodeIDUnlocked] using hid
    simp [hnone] at h

end NodeTable

end ZeroLanCom
