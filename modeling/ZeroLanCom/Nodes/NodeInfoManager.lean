import Mathlib.Data.List.AList
import Mathlib.Data.List.Perm.Lattice
import ZeroLanCom.Nodes.NodeInfo

/-!
# The table of remote nodes and the local node

The three maps keyed by node id, the helpers that need external locking, and
the two calls of the receive task, `processHeartbeat` and `checkHeartbeats`.
Event callbacks act on a state `σ` of their own. Times are nanoseconds of the
steady clock, read by the caller.
-/

namespace ZeroLanCom

open Throwing

/-- `std::unordered_map<std::string, T>`. -/
abbrev StrMap (α : Type) := AList fun _ : Str => α

/-- The order in which one range-for visits an unordered container: any order at all. -/
structure MapOrder where
  visit : {α : Type} → List α → List α
  perm : ∀ {α : Type} (l : List α), (visit l).Perm l

/-- The order the model stores entries in. -/
def MapOrder.stored : MapOrder := ⟨id, fun l => List.Perm.refl l⟩

/-- The maps guarded by `data_mutex_`. -/
@[ext]
structure NodeTable where
  nodesInfo : StrMap NodeInfo
  nodesInfoId : StrMap UInt32
  nodesHeartbeat : StrMap Nat

namespace NodeTable

/-- The maps of a node that has not heard anything. -/
def empty : NodeTable := ⟨∅, ∅, ∅⟩

/-- `updateNodeUnlocked`: the info, its version and the time, whatever was there. -/
def updateNodeUnlocked (t : NodeTable) (nodeID : Str) (info : NodeInfo) (now : Nat) : NodeTable :=
  { nodesInfo := t.nodesInfo.insert nodeID info
    nodesInfoId := t.nodesInfoId.insert nodeID info.infoID
    nodesHeartbeat := t.nodesHeartbeat.insert nodeID now }

/-- `checkNodeIDUnlocked`. -/
def checkNodeIDUnlocked (t : NodeTable) (nodeID : Str) : Bool :=
  (t.nodesInfo.lookup nodeID).isSome

/-- `checkNodeInfoIDUnlocked`. -/
def checkNodeInfoIDUnlocked (t : NodeTable) (nodeID : Str) (infoID : UInt32) : Bool :=
  match t.nodesInfoId.lookup nodeID with
  | none => false
  | some known => known == infoID

/-- `removeNode`, and the three erasures of an expired node. -/
def removeNode (t : NodeTable) (nodeID : Str) : NodeTable :=
  { nodesInfo := t.nodesInfo.erase nodeID
    nodesInfoId := t.nodesInfoId.erase nodeID
    nodesHeartbeat := t.nodesHeartbeat.erase nodeID }

/-- What `nodes_info_[nodeID]` evaluates to. -/
def infoOf (t : NodeTable) (nodeID : Str) : NodeInfo := (t.nodesInfo.lookup nodeID).getD default

/-- The entry that `nodes_info_[nodeID]` leaves behind. -/
def touchInfo (t : NodeTable) (nodeID : Str) : NodeTable :=
  if t.checkNodeIDUnlocked nodeID then t
  else { t with nodesInfo := t.nodesInfo.insert nodeID default }

/-- `getPublisherInfo`: other nodes first, and then the own one. -/
def getPublisherInfo (t : NodeTable) (localNodeInfo : NodeInfo) (order : MapOrder)
    (topicName : Str) : List SocketInfo :=
  ((order.visit t.nodesInfo.entries).flatMap fun e =>
      e.2.topics.filter fun s => s.name = topicName) ++
    localNodeInfo.topics.filter fun s => s.name = topicName

/-- `getServiceInfo`, in the same order. The first match is taken. -/
def getServiceInfo (t : NodeTable) (localNodeInfo : NodeInfo) (order : MapOrder)
    (serviceName : Str) : Option SocketInfo :=
  ((order.visit t.nodesInfo.entries).flatMap (fun e => e.2.services) ++
    localNodeInfo.services).find? fun s => s.name = serviceName

/-- Exactly the entries of that topic name, from the table and from the local node. -/
theorem mem_getPublisherInfo {t : NodeTable} {localNodeInfo : NodeInfo} {order : MapOrder}
    {topicName : Str} {s : SocketInfo} :
    s ∈ t.getPublisherInfo localNodeInfo order topicName ↔ s.name = topicName ∧
      ((∃ id info, t.nodesInfo.lookup id = some info ∧ s ∈ info.topics) ∨
        s ∈ localNodeInfo.topics) := by
  simp only [getPublisherInfo, List.mem_append, List.mem_flatMap, List.mem_filter,
    decide_eq_true_eq, (order.perm _).mem_iff]
  constructor
  · rintro (⟨⟨id, info⟩, he, hs, hname⟩ | ⟨hs, hname⟩)
    · exact ⟨hname, Or.inl ⟨id, info, AList.mem_lookup_iff.mpr he, hs⟩⟩
    · exact ⟨hname, Or.inr hs⟩
  · rintro ⟨hname, ⟨id, info, hlookup, hs⟩ | hs⟩
    · exact Or.inl ⟨⟨id, info⟩, AList.mem_lookup_iff.mp hlookup, hs, hname⟩
    · exact Or.inr ⟨hs, hname⟩

/-- `duration > 2`, the duration being cast to whole seconds. -/
def isExpired (now last : Nat) : Bool := 2 < (now - last) / 1000000000

/-- What is expired stays expired. -/
theorem isExpired_mono {now later last : Nat} (hle : now ≤ later) (h : isExpired now last = true) :
    isExpired later last = true := by
  simp only [isExpired, decide_eq_true_eq] at h ⊢
  exact h.trans_le (Nat.div_le_div_right (Nat.sub_le_sub_right hle last))

/-- `to_remove`. -/
def toRemove (t : NodeTable) (order : MapOrder) (now : Nat) : List Str :=
  ((order.visit t.nodesHeartbeat.entries).filter fun e => isExpired now e.2).map fun e => e.1

/-- The sweep takes whoever has a heartbeat that is too old. -/
theorem mem_toRemove {t : NodeTable} {order : MapOrder} {now : Nat} {id : Str} :
    id ∈ t.toRemove order now ↔
      ∃ last, t.nodesHeartbeat.lookup id = some last ∧ isExpired now last = true := by
  simp only [toRemove, List.mem_map, List.mem_filter, (order.perm _).mem_iff]
  constructor
  · rintro ⟨⟨id', last⟩, ⟨he, hexp⟩, rfl⟩
    exact ⟨last, AList.mem_lookup_iff.mpr he, hexp⟩
  · rintro ⟨last, hlast, hexp⟩
    exact ⟨⟨id, last⟩, ⟨AList.mem_lookup_iff.mp hlast, hexp⟩, rfl⟩

/-- Every expired node is listed once. -/
theorem nodup_toRemove (t : NodeTable) (order : MapOrder) (now : Nat) :
    (t.toRemove order now).Nodup := by
  have hkeys : ((order.visit t.nodesHeartbeat.entries).map fun e => e.1).Nodup :=
    ((order.perm _).map _).nodup_iff.mpr t.nodesHeartbeat.keys_nodup
  exact hkeys.sublist (List.filter_sublist.map _)

/-- The time of a heartbeat, whether its node is known or not. -/
def noteHeartbeat (t : NodeTable) (nodeID : Str) (now : Nat) : NodeTable :=
  { t with nodesHeartbeat := t.nodesHeartbeat.insert nodeID now }

/-- The node is new, or its info changed. -/
def needsFetch (t : NodeTable) (heartbeat : HeartbeatMessage) : Bool :=
  !t.checkNodeIDUnlocked heartbeat.nodeId ||
    !t.checkNodeInfoIDUnlocked heartbeat.nodeId heartbeat.infoId.toUInt32

end NodeTable

open NodeTable

variable {σ : Type*}

/-- `NodeInfoManager::processHeartbeat`. The clock is read once in each critical section. -/
def processHeartbeat (fetchNodeInfo : Str → Int32 → Option NodeInfo)
    (nodeUpdateEvent : Event NodeInfo σ) (heartbeat : HeartbeatMessage) (nodeIP : Str)
    (noteTime storeTime : Nat) (p : NodeTable × σ) : Outcome Exn (NodeTable × σ) :=
  let t := p.1.noteHeartbeat heartbeat.nodeId noteTime
  let body : Outcome Exn (NodeTable × σ) :=
    if t.needsFetch heartbeat then
      match fetchNodeInfo nodeIP heartbeat.servicePort with
      | none => .done (t, p.2)
      | some nodeInfo =>
        let t := t.updateNodeUnlocked heartbeat.nodeId nodeInfo storeTime
        (nodeUpdateEvent.trigger nodeInfo p.2).map fun s => (t, s)
    else .done (t, p.2)
  body.catching Exn.isStd

/-- One call of `processHeartbeat`, with what it reads from the network and the clock. -/
structure HeartbeatCall where
  heartbeat : HeartbeatMessage
  nodeIP : Str
  fetchNodeInfo : Str → Int32 → Option NodeInfo
  noteTime : Nat
  storeTime : Nat

/-- The call decides to fetch. -/
def HeartbeatCall.fetches (c : HeartbeatCall) (t : NodeTable) : Bool :=
  (t.noteHeartbeat c.heartbeat.nodeId c.noteTime).needsFetch c.heartbeat

/-- What its fetch brings. -/
def HeartbeatCall.fetched (c : HeartbeatCall) : Option NodeInfo :=
  c.fetchNodeInfo c.nodeIP c.heartbeat.servicePort

/-- One call of a run; its exception ends with the caller. -/
def heartbeatStep (nodeUpdateEvent : Event NodeInfo σ) (p : NodeTable × σ) (c : HeartbeatCall) :
    NodeTable × σ :=
  (processHeartbeat c.fetchNodeInfo nodeUpdateEvent c.heartbeat c.nodeIP c.noteTime c.storeTime
    p).state

section HeartbeatStep

variable {nodeUpdateEvent : Event NodeInfo σ} {p : NodeTable × σ} {c : HeartbeatCall}

/-- A call that does not fetch, or fetches nothing, only notes the time. -/
theorem heartbeatStep_of_noted (h : c.fetches p.1 = true → c.fetched = none) :
    heartbeatStep nodeUpdateEvent p c =
      (p.1.noteHeartbeat c.heartbeat.nodeId c.noteTime, p.2) := by
  simp only [heartbeatStep, processHeartbeat, Outcome.state_catching]
  split_ifs with hfetches
  · have hnone : c.fetchNodeInfo c.nodeIP c.heartbeat.servicePort = none := h hfetches
    rw [hnone]
    rfl
  · rfl

/-- A call that fetches an info stores it before the callbacks run. -/
theorem heartbeatStep_of_stored {info : NodeInfo} (hfetches : c.fetches p.1 = true)
    (hfetched : c.fetched = some info) :
    heartbeatStep nodeUpdateEvent p c =
      ((p.1.noteHeartbeat c.heartbeat.nodeId c.noteTime).updateNodeUnlocked c.heartbeat.nodeId
        info c.storeTime, (nodeUpdateEvent.trigger info p.2).state) := by
  have hneeds : (p.1.noteHeartbeat c.heartbeat.nodeId c.noteTime).needsFetch c.heartbeat = true :=
    hfetches
  have hsome : c.fetchNodeInfo c.nodeIP c.heartbeat.servicePort = some info := hfetched
  simp only [heartbeatStep, processHeartbeat, Outcome.state_catching, if_pos hneeds, hsome,
    Outcome.state_map]

/-- These are all the things a call can do. -/
theorem heartbeatStep_cases (nodeUpdateEvent : Event NodeInfo σ) (p : NodeTable × σ)
    (c : HeartbeatCall) :
    (c.fetches p.1 = true → c.fetched = none) ∧
        heartbeatStep nodeUpdateEvent p c =
          (p.1.noteHeartbeat c.heartbeat.nodeId c.noteTime, p.2) ∨
      ∃ info, c.fetches p.1 = true ∧ c.fetched = some info ∧
        heartbeatStep nodeUpdateEvent p c =
          ((p.1.noteHeartbeat c.heartbeat.nodeId c.noteTime).updateNodeUnlocked
            c.heartbeat.nodeId info c.storeTime, (nodeUpdateEvent.trigger info p.2).state) := by
  by_cases hquiet : c.fetches p.1 = true → c.fetched = none
  · exact Or.inl ⟨hquiet, heartbeatStep_of_noted hquiet⟩
  · push Not at hquiet
    obtain ⟨hfetches, hsome⟩ := hquiet
    obtain ⟨info, hfetched⟩ := Option.ne_none_iff_exists'.mp hsome
    exact Or.inr ⟨info, hfetches, hfetched, heartbeatStep_of_stored hfetches hfetched⟩

end HeartbeatStep

/-- One round of the second loop of `checkHeartbeats`. -/
def removeExpired (nodeRemoveEvent : Event NodeInfo σ) (nodeID : Str) (p : NodeTable × σ) :
    Outcome Exn (NodeTable × σ) :=
  match nodeRemoveEvent.trigger (p.1.infoOf nodeID) p.2 with
  | .done s => .done ((p.1.touchInfo nodeID).removeNode nodeID, s)
  | .threw e s => .threw e (p.1.touchInfo nodeID, s)

/-- `NodeInfoManager::checkHeartbeats`. -/
def checkHeartbeats (nodeRemoveEvent : Event NodeInfo σ) (order : MapOrder) (now : Nat)
    (p : NodeTable × σ) : Outcome Exn (NodeTable × σ) :=
  forEach (removeExpired nodeRemoveEvent) (p.1.toRemove order now) p

namespace NodeTable

@[simp] theorem infoOf_of_lookup {t : NodeTable} {id : Str} {info : NodeInfo}
    (h : t.nodesInfo.lookup id = some info) : t.infoOf id = info := by
  simp [infoOf, h]

@[simp] theorem infoOf_of_lookup_none {t : NodeTable} {id : Str}
    (h : t.nodesInfo.lookup id = none) : t.infoOf id = default := by
  simp [infoOf, h]

/-- The entry inserted on the way is erased with the others. -/
@[simp] theorem removeNode_touchInfo (t : NodeTable) (id : Str) :
    (t.touchInfo id).removeNode id = t.removeNode id := by
  unfold touchInfo
  split
  · rfl
  · have herase : (t.nodesInfo.insert id default).erase id = t.nodesInfo.erase id :=
      AList.ext (List.kerase_cons_eq rfl)
    rw [removeNode, removeNode, herase]

/-- The table after a whole sweep. -/
def removeNodes (t : NodeTable) (ids : List Str) : NodeTable := ids.foldl removeNode t

@[simp] theorem removeNodes_nil (t : NodeTable) : t.removeNodes [] = t := rfl

@[simp] theorem removeNodes_cons (t : NodeTable) (id : Str) (ids : List Str) :
    t.removeNodes (id :: ids) = (t.removeNode id).removeNodes ids := rfl

private theorem lookup_foldl_erase {α : Type} (m : StrMap α) (ids : List Str) (k : Str) :
    (ids.foldl (fun m id => m.erase id) m).lookup k = if k ∈ ids then none else m.lookup k := by
  induction ids generalizing m with
  | nil => simp
  | cons id ids ih =>
    rw [List.foldl_cons, ih]
    by_cases hk : k = id
    · subst hk
      simp
    · simp [hk, AList.lookup_erase_ne hk]

/-- Removals one after another go through each of the maps: that of the infos, -/
theorem nodesInfo_removeNodes (t : NodeTable) (ids : List Str) :
    (t.removeNodes ids).nodesInfo = ids.foldl (fun m id => m.erase id) t.nodesInfo := by
  induction ids generalizing t with
  | nil => rfl
  | cons id ids ih => exact ih (t.removeNode id)

/-- that of their versions, -/
theorem nodesInfoId_removeNodes (t : NodeTable) (ids : List Str) :
    (t.removeNodes ids).nodesInfoId = ids.foldl (fun m id => m.erase id) t.nodesInfoId := by
  induction ids generalizing t with
  | nil => rfl
  | cons id ids ih => exact ih (t.removeNode id)

/-- and that of the heartbeats. -/
theorem nodesHeartbeat_removeNodes (t : NodeTable) (ids : List Str) :
    (t.removeNodes ids).nodesHeartbeat = ids.foldl (fun m id => m.erase id) t.nodesHeartbeat := by
  induction ids generalizing t with
  | nil => rfl
  | cons id ids ih => exact ih (t.removeNode id)

/-- Exactly the listed nodes are gone from the table. -/
theorem lookup_removeNodes (t : NodeTable) (ids : List Str) (k : Str) :
    (t.removeNodes ids).nodesInfo.lookup k =
      if k ∈ ids then none else t.nodesInfo.lookup k := by
  rw [nodesInfo_removeNodes, lookup_foldl_erase]

/-- A removed node has no version any more, -/
theorem lookup_infoId_removeNodes (t : NodeTable) (ids : List Str) (k : Str) :
    (t.removeNodes ids).nodesInfoId.lookup k =
      if k ∈ ids then none else t.nodesInfoId.lookup k := by
  rw [nodesInfoId_removeNodes, lookup_foldl_erase]

/-- and no heartbeat. -/
theorem lookup_heartbeat_removeNodes (t : NodeTable) (ids : List Str) (k : Str) :
    (t.removeNodes ids).nodesHeartbeat.lookup k =
      if k ∈ ids then none else t.nodesHeartbeat.lookup k := by
  rw [nodesHeartbeat_removeNodes, lookup_foldl_erase]

/-- The others keep their infos. -/
theorem infoOf_removeNodes {t : NodeTable} {ids : List Str} {k : Str} (h : k ∉ ids) :
    (t.removeNodes ids).infoOf k = t.infoOf k := by
  rw [infoOf, lookup_removeNodes, if_neg h, infoOf]

/-- In particular when only one is removed. -/
theorem infoOf_removeNode {t : NodeTable} {id k : Str} (h : k ≠ id) :
    (t.removeNode id).infoOf k = t.infoOf k := by
  simp only [infoOf, removeNode, AList.lookup_erase_ne h]

end NodeTable

/-- One round ends normally when the callbacks do, and then the node is gone. -/
theorem removeExpired_eq_done_iff {nodeRemoveEvent : Event NodeInfo σ} {id : Str}
    {p p' : NodeTable × σ} :
    removeExpired nodeRemoveEvent id p = .done p' ↔
      ∃ s, nodeRemoveEvent.trigger (p.1.infoOf id) p.2 = .done s ∧
        p' = (p.1.removeNode id, s) := by
  unfold removeExpired
  cases nodeRemoveEvent.trigger (p.1.infoOf id) p.2 with
  | done s => simp [eq_comm]
  | threw e s => simp

/-- The sweep ends normally exactly when the callbacks do on the nodes it removes, in order.
They see each node as it stood before the sweep. -/
theorem removeExpired_loop_eq_done_iff {nodeRemoveEvent : Event NodeInfo σ} {ids : List Str}
    (hnodup : ids.Nodup) {p p' : NodeTable × σ} :
    forEach (removeExpired nodeRemoveEvent) ids p = .done p' ↔
      ∃ s, forEach nodeRemoveEvent.trigger (ids.map p.1.infoOf) p.2 = .done s ∧
        p' = (p.1.removeNodes ids, s) := by
  induction ids generalizing p with
  | nil => simp [Prod.ext_iff, eq_comm]
  | cons id ids ih =>
    obtain ⟨hid, hids⟩ := List.nodup_cons.mp hnodup
    have hsame : ids.map (p.1.removeNode id).infoOf = ids.map p.1.infoOf :=
      List.map_congr_left fun k hk => infoOf_removeNode fun he => hid (he ▸ hk)
    simp only [forEach_cons, Outcome.bind_eq_done_iff, removeExpired_eq_done_iff, List.map_cons,
      removeNodes_cons]
    constructor
    · rintro ⟨_, ⟨s, hs, rfl⟩, hrest⟩
      obtain ⟨s', hs', rfl⟩ := (ih hids).mp hrest
      rw [hsame] at hs'
      exact ⟨s', ⟨s, hs, hs'⟩, rfl⟩
    · rintro ⟨s', ⟨s, hs, hs'⟩, rfl⟩
      refine ⟨_, ⟨s, hs, rfl⟩, (ih hids).mpr ⟨s', ?_, rfl⟩⟩
      rw [hsame]
      exact hs'

/-- `checkHeartbeats` ends normally exactly when the callbacks do on the expired nodes. -/
theorem checkHeartbeats_eq_done_iff {nodeRemoveEvent : Event NodeInfo σ} {order : MapOrder}
    {now : Nat} {p p' : NodeTable × σ} :
    checkHeartbeats nodeRemoveEvent order now p = .done p' ↔
      ∃ s, forEach nodeRemoveEvent.trigger ((p.1.toRemove order now).map p.1.infoOf) p.2 =
          .done s ∧
        p' = (p.1.removeNodes (p.1.toRemove order now), s) :=
  removeExpired_loop_eq_done_iff (p.1.nodup_toRemove order now)

/-- A sweep that throws has removed the nodes before the one whose callback threw. -/
theorem checkHeartbeats_eq_threw_iff {nodeRemoveEvent : Event NodeInfo σ} {order : MapOrder}
    {now : Nat} {p p' : NodeTable × σ} {e : Exn} :
    checkHeartbeats nodeRemoveEvent order now p = .threw e p' ↔
      ∃ gone id later s s', p.1.toRemove order now = gone ++ id :: later ∧
        forEach nodeRemoveEvent.trigger (gone.map p.1.infoOf) p.2 = .done s ∧
        nodeRemoveEvent.trigger (p.1.infoOf id) s = .threw e s' ∧
        p' = ((p.1.removeNodes gone).touchInfo id, s') := by
  have hnodup := p.1.nodup_toRemove order now
  rw [checkHeartbeats, forEach_eq_threw_iff]
  constructor
  · rintro ⟨gone, id, later, p₁, hids, hdone, hthrew⟩
    rw [hids] at hnodup
    obtain ⟨s, hs, rfl⟩ := (removeExpired_loop_eq_done_iff hnodup.of_append_left).mp hdone
    have hinfo := infoOf_removeNodes (t := p.1) (k := id) fun h : id ∈ gone =>
      List.disjoint_of_nodup_append hnodup h (List.mem_cons_self ..)
    unfold removeExpired at hthrew
    rw [hinfo] at hthrew
    cases htrigger : nodeRemoveEvent.trigger (p.1.infoOf id) s with
    | done s' => simp [htrigger] at hthrew
    | threw e' s' =>
      rw [htrigger] at hthrew
      cases hthrew
      exact ⟨gone, id, later, s, s', hids, hs, htrigger, rfl⟩
  · rintro ⟨gone, id, later, s, s', hids, hs, hthrew, rfl⟩
    rw [hids] at hnodup
    have hinfo := infoOf_removeNodes (t := p.1) (k := id) fun h : id ∈ gone =>
      List.disjoint_of_nodup_append hnodup h (List.mem_cons_self ..)
    refine ⟨gone, id, later, _, hids,
      (removeExpired_loop_eq_done_iff hnodup.of_append_left).mpr ⟨s, hs, rfl⟩, ?_⟩
    rw [removeExpired, hinfo, hthrew]

/-- The callbacks of a sweep run one after the other on the expired nodes, until one throws. -/
theorem checkHeartbeats_callbacks {nodeRemoveEvent : Event NodeInfo σ} (order : MapOrder)
    (now : Nat) (p : NodeTable × σ) :
    (checkHeartbeats nodeRemoveEvent order now p).state.2 =
      (forEach nodeRemoveEvent.trigger ((p.1.toRemove order now).map p.1.infoOf) p.2).state := by
  cases h : checkHeartbeats nodeRemoveEvent order now p with
  | done p' =>
    obtain ⟨s, hs, rfl⟩ := checkHeartbeats_eq_done_iff.mp h
    rw [hs]
    rfl
  | threw e p' =>
    obtain ⟨gone, id, later, s, s', hids, hs, hthrew, rfl⟩ := checkHeartbeats_eq_threw_iff.mp h
    have hloop : forEach nodeRemoveEvent.trigger ((p.1.toRemove order now).map p.1.infoOf) p.2 =
        .threw e s' := by
      rw [forEach_eq_threw_iff, hids]
      exact ⟨_, _, _, s, by rw [List.map_append, List.map_cons], hs, hthrew⟩
    rw [hloop]
    rfl

/-- With callbacks that return, a sweep removes exactly the expired nodes. -/
theorem checkHeartbeats_returns {nodeRemoveEvent : Event NodeInfo σ} (h : nodeRemoveEvent.Returns)
    (order : MapOrder) (now : Nat) (p : NodeTable × σ) :
    ∃ s, checkHeartbeats nodeRemoveEvent order now p =
      .done (p.1.removeNodes (p.1.toRemove order now), s) := by
  have hbody : ∀ info ∈ (p.1.toRemove order now).map p.1.infoOf, ∀ s, True →
      ∃ s', nodeRemoveEvent.trigger info s = .done s' ∧ True :=
    fun info _ s _ => (h info s).imp fun _ hs => ⟨hs, trivial⟩
  obtain ⟨s, hs, _⟩ := forEach_returns hbody (s := p.2) trivial
  exact ⟨s, checkHeartbeats_eq_done_iff.mpr ⟨s, hs, rfl⟩⟩

/-- The fields guarded by `local_mutex_`. -/
structure LocalNode where
  localNodeInfo : NodeInfo
  groupName : Str := []
  servicePort : Int32 := 0

namespace LocalNode

/-- `NodeInfoManager::NodeInfoManager` with the draws of `generateUUID`. -/
def new (name ip : Str) (r₀ r₁ r₂ r₃ : UInt32) : LocalNode :=
  { localNodeInfo := { nodeID := generateUUID r₀ r₁ r₂ r₃, infoID := 0, name := name, ip := ip } }

/-- `nodeID`. -/
def nodeID (n : LocalNode) : UUID := n.localNodeInfo.nodeID

/-- `setGroupName`. -/
def setGroupName (n : LocalNode) (name : Str) : LocalNode := { n with groupName := name }

/-- `setServicePort`. -/
def setServicePort (n : LocalNode) (port : Int32) : LocalNode := { n with servicePort := port }

/-- `createHeartbeat`, with the version of the info at the moment. -/
def createHeartbeat (n : LocalNode) : HeartbeatMessage :=
  { zlcVersion := (ZLC_VERSION_MAJOR, ZLC_VERSION_MINOR, ZLC_VERSION_PATCH)
    nodeId := n.localNodeInfo.nodeID
    infoId := n.localNodeInfo.infoID.toInt32
    servicePort := n.servicePort
    groupName := n.groupName }

/-- `getLocalNodeInfo`. -/
def getLocalNodeInfo (n : LocalNode) : NodeInfo := n.localNodeInfo

/-- `registerLocalTopic`, which bumps the version. -/
def registerLocalTopic (n : LocalNode) (name : Str) (port : UInt16) : LocalNode :=
  { n with localNodeInfo := { n.localNodeInfo with
      topics := n.localNodeInfo.topics ++ [⟨name, n.localNodeInfo.ip, port⟩]
      infoID := n.localNodeInfo.infoID + 1 } }

/-- `registerLocalService`, which does as well. -/
def registerLocalService (n : LocalNode) (name : Str) (port : UInt16) : LocalNode :=
  { n with localNodeInfo := { n.localNodeInfo with
      services := n.localNodeInfo.services ++ [⟨name, n.localNodeInfo.ip, port⟩]
      infoID := n.localNodeInfo.infoID + 1 } }

end LocalNode

end ZeroLanCom
