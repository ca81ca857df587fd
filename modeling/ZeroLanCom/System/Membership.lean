import ZeroLanCom.System.ServiceLookup

/-!
# Members of a network

What discovery is for: every node offers topics and services, hears the others
now and then, asks for their offers when these have changed, and forgets those
that have been silent for too long. The version numbers, the three maps and the
events of the nodes do the same, where heartbeats are heard in the state they
are created in.
-/

namespace ZeroLanCom

open Throwing

variable {ν κ : Type}

/-- What each member offers, and what it knows of another: the last sign of life, and the offers it
was told last, if any. -/
@[ext]
structure Members (ν ω : Type) where
  own : ν → ω
  known : ν → ν → Option (Nat × Option ω)

namespace Members

variable {ω : Type}

/-- Members that have not heard anything yet. -/
def start (own : ν → ω) : Members ν ω := ⟨own, fun _ _ => none⟩

/-- What can happen to a network. A member that asks for offers may get no answer. -/
inductive Event (ν ω : Type) where
  | offer (n : ν) (more : ω → ω)
  | hear (sender receiver : ν) (noteTime : Nat) (answerTime : Option Nat)
  | sweep (n : ν) (now : Nat)

/-- The offers among what is known. -/
def told (known : Option (Nat × Option ω)) : Option ω := known.bind Prod.snd

/-- After a heartbeat, the sign of life is from when it was noted, or from when new offers were
told. -/
def heard [DecidableEq ω] (offers : ω) (noteTime : Nat) (answerTime : Option Nat)
    (known : Option (Nat × Option ω)) : Nat × Option ω :=
  match answerTime with
  | some time => if told known = some offers then (noteTime, told known) else (time, some offers)
  | none => (noteTime, told known)

/-- Who has been silent for too long is forgotten. -/
def remembered (now : Nat) (known : Option (Nat × Option ω)) : Option (Nat × Option ω) :=
  known.filter fun k => !NodeTable.isExpired now k.1

variable [DecidableEq ν] [DecidableEq ω]

/-- What each event changes of what the nodes have and know. -/
def step (s : Members ν ω) : Event ν ω → Members ν ω
  | .offer n more => { s with own := Function.update s.own n (more (s.own n)) }
  | .hear sender receiver noteTime answerTime =>
    if sender = receiver then s
    else { s with
      known := Function.update s.known receiver (Function.update (s.known receiver) sender
        (some (heard (s.own sender) noteTime answerTime (s.known receiver sender)))) }
  | .sweep n now =>
    { s with known := Function.update s.known n fun m => remembered now (s.known n m) }

end Members

/-- Calls of the program, each made when nobody is in the middle of another. -/
inductive LanOp (ν κ : Type) where
  | publisher (n : ν) (topicName : Str) (withLocalNamespace : Bool) (port : UInt16)
  | service (n : ν) (name : Str) (port : UInt16)
  | subscribe (n : ν) (topicName : Str) (callback : κ) (order : MapOrder)
  | heartbeat (e : Lan.Exchange ν)
  | unanswered (e : Lan.Exchange ν)
  | sweep (n : ν) (order : MapOrder) (now : Nat)

/-- What the call means to the abstract network. Subscribers are none of its business. -/
def LanOp.event (config : ν → NodeConfig) : LanOp ν κ → Option (Members.Event ν Offers)
  | .publisher n topicName withLocalNamespace port => some (.offer n fun o =>
      (o.1 ++ [⟨fullTopicName topicName withLocalNamespace, (config n).ip, port⟩], o.2))
  | .service n name port => some (.offer n fun o => (o.1, o.2 ++ [⟨name, (config n).ip, port⟩]))
  | .subscribe _ _ _ _ => none
  | .heartbeat e => some (.hear e.sender e.receiver e.noteTime (some e.storeTime))
  | .unanswered e => some (.hear e.sender e.receiver e.noteTime none)
  | .sweep n _ now => some (.sweep n now)

/-- What a table says about a node. -/
def NodeTable.view (t : NodeTable) (id : Str) : Option (Nat × Option Offers) :=
  (t.nodesHeartbeat.lookup id).map fun time =>
    (time, (t.nodesInfo.lookup id).map NodeInfo.offers)

/-- Nobody's info is there who has not been heard. -/
def NodeTable.Tracked (t : NodeTable) : Prop :=
  ∀ id, (t.nodesInfo.lookup id).isSome → (t.nodesHeartbeat.lookup id).isSome

namespace NodeTable

variable {t : NodeTable}

/-- Nobody is known. -/
theorem tracked_empty : empty.Tracked := fun _ h => h

/-- Whoever is heard has a time. -/
theorem Tracked.noteHeartbeat (h : Tracked t) (nodeID : Str) (now : Nat) :
    (t.noteHeartbeat nodeID now).Tracked := by
  intro id hid
  simp only [NodeTable.noteHeartbeat]
  by_cases hsame : id = nodeID
  · rw [hsame, AList.lookup_insert]
    rfl
  · rw [AList.lookup_insert_ne hsame]
    exact h id hid

/-- Whoever is stored has a time. -/
theorem Tracked.updateNodeUnlocked (h : Tracked t) (nodeID : Str) (info : NodeInfo) (now : Nat) :
    (t.updateNodeUnlocked nodeID info now).Tracked := by
  intro id hid
  rw [lookup_updateNodeUnlocked] at hid
  simp only [NodeTable.updateNodeUnlocked]
  split_ifs at hid with hsame
  · rw [hsame, AList.lookup_insert]
    rfl
  · rw [AList.lookup_insert_ne hsame]
    exact h id hid

/-- Whoever is removed loses the time with the info. -/
theorem Tracked.removeNodes (h : Tracked t) (ids : List Str) : (t.removeNodes ids).Tracked := by
  intro id hid
  rw [lookup_removeNodes] at hid
  rw [lookup_heartbeat_removeNodes]
  by_cases hgone : id ∈ ids
  · simp [hgone] at hid
  · rw [if_neg hgone] at hid ⊢
    exact h id hid

/-- The offers that have been told are those of the info. -/
theorem Tracked.told_view (h : Tracked t) (id : Str) :
    Members.told (t.view id) = (t.nodesInfo.lookup id).map NodeInfo.offers := by
  unfold Members.told view
  have htracked := h id
  cases hheard : t.nodesHeartbeat.lookup id with
  | some time => rfl
  | none =>
    cases hinfo : t.nodesInfo.lookup id with
    | none => rfl
    | some info => simp [hheard, hinfo] at htracked

/-- A heartbeat renews the time of its sender and forgets nothing. -/
theorem Tracked.view_noteHeartbeat (h : Tracked t) (nodeID : Str) (now : Nat) (id : Str) :
    (t.noteHeartbeat nodeID now).view id =
      if id = nodeID then some (now, Members.told (t.view id)) else t.view id := by
  rw [h.told_view]
  unfold view NodeTable.noteHeartbeat
  split_ifs with hid
  · rw [hid, AList.lookup_insert]
    rfl
  · rw [AList.lookup_insert_ne hid]

/-- An answered fetch renews the time and the offers of its sender. -/
theorem view_updateNodeUnlocked (t : NodeTable) (nodeID : Str) (info : NodeInfo) (now : Nat)
    (id : Str) :
    (t.updateNodeUnlocked nodeID info now).view id =
      if id = nodeID then some (now, some info.offers) else t.view id := by
  unfold view
  rw [lookup_updateNodeUnlocked]
  simp only [NodeTable.updateNodeUnlocked]
  split_ifs with hid
  · rw [hid, AList.lookup_insert]
    rfl
  · rw [AList.lookup_insert_ne hid]

/-- A sweep forgets exactly whoever has been silent for too long. -/
theorem view_sweep (t : NodeTable) (order : MapOrder) (now : Nat) (id : Str) :
    (t.removeNodes (t.toRemove order now)).view id = Members.remembered now (t.view id) := by
  unfold view
  rw [lookup_heartbeat_removeNodes, lookup_removeNodes]
  cases hlookup : t.nodesHeartbeat.lookup id with
  | none =>
    split_ifs <;> rfl
  | some last =>
    have hgone : id ∈ t.toRemove order now ↔ isExpired now last = true := by
      rw [mem_toRemove, hlookup]
      simp
    by_cases hexpired : isExpired now last = true
    · rw [if_pos (hgone.mpr hexpired), if_pos (hgone.mpr hexpired)]
      simp [Members.remembered, Option.filter, hexpired]
    · have hkept := mt hgone.mp hexpired
      rw [if_neg hkept, if_neg hkept]
      simp [Members.remembered, Option.filter, hexpired]

end NodeTable

namespace Lan

/-- The network as the abstract one sees it. -/
def members (s : Lan ν κ) : Members ν Offers where
  own n := (s.nodeInfo n).offers
  known n m := (s.nodes n).receiver.table.view (s.nodeID m)

variable [DecidableEq ν] {accepts : Str → Bool} {s s' : Lan ν κ} {config : ν → NodeConfig}

/-- A heartbeat that arrives, while the fetch, if there is one, brings nothing. -/
def unanswered (accepts : Str → Bool) (s : Lan ν κ) (e : Exchange ν) : Lan ν κ :=
  if e.sender = e.receiver then s
  else s.setNode e.receiver (Discovery.resting (s.nodes e.receiver).localNode
    (heartbeatStep (nodeUpdateEvent accepts)
      ((s.nodes e.receiver).receiver.table, (s.nodes e.receiver).subs)
      { e.call s with fetchNodeInfo := fun _ _ => none }))

/-- The call that an operation stands for. -/
def perform (accepts : Str → Bool) (s : Lan ν κ) : LanOp ν κ → Lan ν κ
  | .publisher n topicName withLocalNamespace port =>
    s.newPublisher n (fullTopicName topicName withLocalNamespace) port
  | .service n name port => s.setLocal n ((s.nodes n).localNode.registerLocalService name port)
  | .subscribe n topicName callback order => s.subscribe accepts n topicName callback order
  | .heartbeat e => s.exchange accepts e
  | .unanswered e => s.unanswered accepts e
  | .sweep n order now =>
    s.setNode n (.resting (s.nodes n).localNode (checkHeartbeats nodeRemoveEvent order now
      ((s.nodes n).receiver.table, (s.nodes n).subs)).state)

/-- A publisher is bound to an endpoint of its own, which ZeroMQ can connect to. No heartbeat that
is answered has an `infoID` that has wrapped around. -/
def Allowed (accepts : Str → Bool) (s : Lan ν κ) : LanOp ν κ → Prop
  | .publisher n _ _ port =>
    (∀ p ∈ s.sockets, p.advert.url ≠ tcpUrl (s.nodeInfo n).ip port) ∧
      accepts (tcpUrl (s.nodeInfo n).ip port) = true
  | .heartbeat e =>
    (s.nodeInfo e.sender).topics.length + (s.nodeInfo e.sender).services.length < 2 ^ 32
  | _ => True

/-- Nodes at rest after a clean run, with tables that have infos of nodes they have heard. -/
structure Quiet (accepts : Str → Bool) (config : ν → NodeConfig) (s : Lan ν κ) : Prop where
  settled : Settled accepts config s
  ip : ∀ n, (s.nodeInfo n).ip = (config n).ip
  tracked : ∀ n, (s.nodes n).receiver.table.Tracked

/-- A network in which nothing has happened. -/
theorem quiet_start (accepts : Str → Bool) (config : ν → NodeConfig) :
    Quiet accepts config (start config : Lan ν κ) where
  settled := ⟨.refl, fun _ => rfl, fun _ h => absurd h List.not_mem_nil⟩
  ip _ := rfl
  tracked _ := NodeTable.tracked_empty

/-- A registration changes what one node offers. -/
theorem members_setLocal (s : Lan ν κ) (n : ν) {localNode : LocalNode}
    (hid : localNode.nodeID = s.nodeID n) :
    (s.setLocal n localNode).members =
      { s.members with
        own := Function.update s.members.own n localNode.getLocalNodeInfo.offers } := by
  have hnodes : ∀ m, (s.setLocal n localNode).nodes m =
      if m = n then { s.nodes n with localNode := localNode } else s.nodes m :=
    fun m => nodes_setNode s n m _
  have hids : ∀ m, (s.setLocal n localNode).nodeID m = s.nodeID m := by
    intro m
    rw [nodeID, hnodes]
    split_ifs with hm
    · exact hm ▸ hid
    · rfl
  apply Members.ext
  · funext m
    simp only [members, nodeInfo, hnodes, Function.update_apply]
    split_ifs <;> rfl
  · funext n' m
    simp only [members, hids, hnodes]
    split_ifs with hn
    · rw [hn]
    · rfl

/-- A node that keeps its own info, with another table. -/
theorem members_setNode (s : Lan ν κ) (n : ν) {d : Discovery κ}
    (hlocal : d.localNode = (s.nodes n).localNode) :
    (s.setNode n d).members =
      { s.members with
        known := Function.update s.members.known n
          fun m => d.receiver.table.view (s.nodeID m) } := by
  apply Members.ext
  · funext m
    exact congrArg NodeInfo.offers (nodeInfo_setNode hlocal m)
  · funext n' m
    simp only [members, nodeID_setNode hlocal, nodes_setNode, Function.update_apply]
    split_ifs <;> rfl

/-- A heartbeat that is only noted is a sign of life of its sender. -/
theorem view_noted (h : s.Directory) {n m : ν} (htracked : (s.nodes n).receiver.table.Tracked)
    (noteTime : Nat) (m' : ν) :
    ((s.nodes n).receiver.table.noteHeartbeat (s.nodeID m) noteTime).view (s.nodeID m') =
      if m' = m then some (noteTime, Members.told (s.members.known n m))
      else s.members.known n m' := by
  simp only [htracked.view_noteHeartbeat, h.ids.eq_iff]
  split_ifs with hm
  · rw [hm]
    rfl
  · rfl

/-- A heartbeat that is answered brings the present offers of its sender. -/
theorem view_heartbeatStep (h : s.Directory) {n m : ν}
    (htracked : (s.nodes n).receiver.table.Tracked) {c : HeartbeatCall}
    (hid : c.heartbeat.nodeId = s.nodeID m)
    (hversion : c.heartbeat.infoId.toUInt32 = (s.nodeInfo m).infoID)
    (hfetched : c.fetched = some (s.nodeInfo m))
    (hreg : (s.nodeInfo m).topics.length + (s.nodeInfo m).services.length < 2 ^ 32)
    (subs : List (Subscriber κ)) :
    let t := (heartbeatStep (nodeUpdateEvent accepts) ((s.nodes n).receiver.table, subs) c).1
    t.Tracked ∧ ∀ m', t.view (s.nodeID m') =
      if m' = m then some (Members.heard (s.nodeInfo m).offers c.noteTime (some c.storeTime)
        (s.members.known n m))
      else s.members.known n m' := by
  have hiff : c.fetches (s.nodes n).receiver.table = true ↔
      Members.told (s.members.known n m) ≠ some (s.nodeInfo m).offers := by
    rw [members, htracked.told_view]
    exact fetches_iff h hid hversion hreg
  have hnoted := htracked.noteHeartbeat (s.nodeID m) c.noteTime
  by_cases hfetches : c.fetches (s.nodes n).receiver.table = true
  · rw [heartbeatStep_of_stored hfetches hfetched, hid]
    simp only [Members.heard, if_neg (hiff.mp hfetches)]
    refine ⟨hnoted.updateNodeUnlocked _ _ _, fun m' => ?_⟩
    simp only [NodeTable.view_updateNodeUnlocked, view_noted h htracked, h.ids.eq_iff]
    split_ifs <;> rfl
  · rw [heartbeatStep_of_noted fun hf => absurd hf hfetches, hid]
    simp only [Members.heard, if_pos (not_not.mp (mt hiff.mpr hfetches))]
    exact ⟨hnoted, view_noted h htracked c.noteTime⟩

/-- A node that has heard of another. -/
theorem members_setNode_hear (s : Lan ν κ) {n m : ν} {d : Discovery κ}
    (hlocal : d.localNode = (s.nodes n).localNode) {k : Nat × Option Offers}
    (hview : ∀ m', d.receiver.table.view (s.nodeID m') =
      if m' = m then some k else s.members.known n m') :
    (s.setNode n d).members =
      { s.members with
        known := Function.update s.members.known n
          (Function.update (s.members.known n) m (some k)) } := by
  rw [members_setNode s n hlocal]
  apply Members.ext
  · rfl
  · refine congrArg (Function.update s.members.known n) (funext fun m' => ?_)
    rw [Function.update_apply]
    exact hview m'

/-- An answered heartbeat tells the receiver what the sender has, unless it knows already. -/
theorem members_exchange (h : s.Directory) (htracked : ∀ n, (s.nodes n).receiver.table.Tracked)
    (e : Exchange ν) (hreg : (s.nodeInfo e.sender).topics.length +
      (s.nodeInfo e.sender).services.length < 2 ^ 32) :
    (s.exchange accepts e).members =
        s.members.step (.hear e.sender e.receiver e.noteTime (some e.storeTime)) ∧
      ∀ n, ((s.exchange accepts e).nodes n).receiver.table.Tracked := by
  rw [exchange, Members.step]
  split_ifs with hself
  · exact ⟨rfl, htracked⟩
  · obtain ⟨hkept, hview⟩ := view_heartbeatStep h (htracked e.receiver)
      (c := e.call s) rfl (UInt32.toUInt32_toInt32 _) rfl hreg (s.nodes e.receiver).subs
    exact ⟨members_setNode_hear s (by rfl) hview,
      forall_setNode (P := fun _ d => d.receiver.table.Tracked) hkept htracked⟩

/-- One whose fetch brings nothing is a sign of life alone. -/
theorem members_unanswered (h : s.Directory)
    (htracked : ∀ n, (s.nodes n).receiver.table.Tracked) (e : Exchange ν) :
    (s.unanswered accepts e).members =
      s.members.step (.hear e.sender e.receiver e.noteTime none) := by
  rw [unanswered, Members.step]
  split_ifs with hself
  · rfl
  · rw [heartbeatStep_of_noted fun _ => rfl]
    exact members_setNode_hear s (by rfl) (view_noted h (htracked e.receiver) e.noteTime)

/-- A sweep meets no subscriber that cannot let go of its endpoints. -/
theorem sweep_returns (h : s.Wiring) (n : ν) (order : MapOrder) (now : Nat) :
    ∃ subs, checkHeartbeats nodeRemoveEvent order now
        ((s.nodes n).receiver.table, (s.nodes n).subs) =
      .done ((s.nodes n).receiver.table.removeNodes
        ((s.nodes n).receiver.table.toRemove order now), subs) := by
  have hbody : ∀ info ∈ ((s.nodes n).receiver.table.toRemove order now).map
      (s.nodes n).receiver.table.infoOf, ∀ subs : List (Subscriber κ), AllConsistent subs →
        ∃ subs', nodeRemoveEvent.trigger info subs = .done subs' ∧ AllConsistent subs' := by
    intro info _ subs hsubs
    rw [trigger_nodeRemoveEvent]
    exact removeTopicSubscriber_returns info hsubs
  obtain ⟨subs, hsubs, _⟩ := forEach_returns hbody (h.wired n).consistent
  exact ⟨subs, checkHeartbeats_eq_done_iff.mpr ⟨subs, hsubs, rfl⟩⟩

/-- So it is a clean run of the receive task. -/
theorem reach_sweep (accepts : Str → Bool) {n : ν} {p : NodeTable × List (Subscriber κ)}
    (hrest : s.nodes n = .resting (s.nodes n).localNode p) (hconsistent : AllConsistent p.2)
    (order : MapOrder) (now : Nat) :
    Reach accepts Clean s (s.setNode n (.resting (s.nodes n).localNode
      (checkHeartbeats nodeRemoveEvent order now p).state)) := by
  have hloop : ∀ (ids : List Str) (p : NodeTable × List (Subscriber κ)), AllConsistent p.2 →
      Reach accepts Clean s (s.setNode n (.sweeping (s.nodes n).localNode ids p)) →
      Reach accepts Clean s (s.setNode n (.resting (s.nodes n).localNode
        (forEach (removeExpired nodeRemoveEvent) ids p).state)) := by
    intro ids
    induction ids with
    | nil =>
      intro p _ hreach
      exact hreach.node (.receive _ (.sweepEnds p.1) trivial) rfl ⟨rfl, fun _ _ ht => by cases ht⟩
    | cons id ids ih =>
      intro p hp hreach
      obtain ⟨subs, hdone, hsubs⟩ := removeTopicSubscriber_returns (p.1.infoOf id) hp
      have hremove := hreach.node (.remove_done (.remove p.1 id ids) rfl hdone) rfl
        ⟨rfl, fun _ _ ht => by cases ht⟩
      have herase := hremove.node (.receive _ (.erase p.1 id ids) trivial) rfl
        ⟨rfl, fun _ _ ht => by cases ht⟩
      rw [forEach_cons, removeExpired, trigger_nodeRemoveEvent, hdone, Outcome.done_bind,
        NodeTable.removeNode_touchInfo]
      exact ih (p.1.removeNode id, subs) hsubs herase
  have hstart := reach_self accepts Clean hrest
  have hsweep := hstart.node (.receive _ (.sweep p.1 order now) trivial) rfl
    ⟨rfl, fun _ _ ht => by cases ht⟩
  exact hloop _ p hconsistent hsweep

/-- A sweep forgets whoever has been silent for too long. -/
theorem members_sweep (h : s.Wiring) (n : ν) (order : MapOrder) (now : Nat) :
    (s.perform accepts (.sweep n order now)).members = s.members.step (.sweep n now) := by
  obtain ⟨subs, hdone⟩ := sweep_returns h n order now
  rw [perform, hdone]
  refine (members_setNode s n (by rfl)).trans ?_
  apply Members.ext
  · rfl
  · refine congrArg (Function.update s.members.known n) (funext fun m => ?_)
    exact NodeTable.view_sweep _ order now (s.nodeID m)

/-- Every call is one event of the memberships, or none. -/
theorem members_perform (hids : Function.Injective fun n => (config n).localNode.nodeID)
    (h : Quiet accepts config s) {op : LanOp ν κ} (hallowed : s.Allowed accepts op) :
    (s.perform accepts op).members = (op.event config).elim s.members s.members.step := by
  have hwiring := wiring_reachable hids h.settled.reach
  cases op with
  | publisher n topicName withLocalNamespace port =>
    refine (members_setLocal s n (by rfl)).trans ?_
    rw [LanOp.event, Option.elim_some, Members.step, ← h.ip n]
    rfl
  | service n name port =>
    refine (members_setLocal s n (by rfl)).trans ?_
    rw [LanOp.event, Option.elim_some, Members.step, ← h.ip n]
    rfl
  | subscribe n topicName callback order =>
    refine (members_setNode s n (by rfl)).trans ?_
    apply Members.ext
    · rfl
    · exact Function.update_eq_self n s.members.known
  | heartbeat e => exact (members_exchange hwiring.directory h.tracked e hallowed).1
  | unanswered e => exact members_unanswered hwiring.directory h.tracked e
  | sweep n order now => exact members_sweep hwiring n order now

/-- After a clean run in which one node has changed, and is at rest again. -/
theorem Quiet.of_setNode (h : Quiet accepts config s) {n : ν} {d : Discovery κ}
    (hreach : Reach accepts Clean s s') (hnodes : s'.nodes = (s.setNode n d).nodes)
    (haccepted : ∀ p ∈ s'.sockets, accepts p.advert.url = true)
    (hrest : d = .resting d.localNode (d.receiver.table, d.subs))
    (hip : d.localNode.getLocalNodeInfo.ip = (s.nodeInfo n).ip)
    (htracked : d.receiver.table.Tracked) : Quiet accepts config s' := by
  refine ⟨⟨h.settled.reach.trans hreach, fun m => ?_, haccepted⟩, fun m => ?_, fun m => ?_⟩
  · rw [hnodes]
    exact forall_setNode (P := fun _ d => d = .resting d.localNode (d.receiver.table, d.subs))
      hrest h.settled.rest m
  · rw [nodeInfo, hnodes]
    exact forall_setNode (P := fun m d => d.localNode.getLocalNodeInfo.ip = (config m).ip)
      (hip.trans (h.ip n)) h.ip m
  · rw [hnodes]
    exact forall_setNode (P := fun _ d => d.receiver.table.Tracked) htracked h.tracked m

/-- Every call leaves the network at rest. -/
theorem Quiet.perform (hids : Function.Injective fun n => (config n).localNode.nodeID)
    (h : Quiet accepts config s) {op : LanOp ν κ} (hallowed : s.Allowed accepts op) :
    Quiet accepts config (s.perform accepts op) := by
  have hwiring := wiring_reachable hids h.settled.reach
  have hrest := h.settled.rest
  have haccepted := h.settled.accepted
  cases op with
  | publisher n topicName withLocalNamespace port =>
    obtain ⟨hfree, haccepts⟩ := hallowed
    refine h.of_setNode (.single (.publisher s n topicName withLocalNamespace port hfree)) rfl
      (fun p hp => ?_) (by rw [hrest n]; rfl) rfl (h.tracked n)
    rcases List.mem_append.mp hp with hold | hnew
    · exact haccepted p hold
    · rw [List.mem_singleton.mp hnew]
      exact haccepts
  | service n name port =>
    exact h.of_setNode (.single (.service s n name port)) rfl haccepted (by rw [hrest n]; rfl) rfl
      (h.tracked n)
  | subscribe n topicName callback order =>
    have hfound : ∀ url ∈ findTopicURLs (s.nodes n).receiver.table
        (s.nodes n).localNode.getLocalNodeInfo order topicName, accepts url = true := by
      intro url hurl
      obtain ⟨p, hp, _, rfl⟩ := (hwiring.inv.holds n).findTopicURLs order topicName url hurl
      exact haccepted p hp
    have hclean : ∀ d d' : Discovery κ, d'.receiver = d.receiver →
        Clean (s.setNode n d) n true d' := by
      intro d d' hd
      refine ⟨rfl, fun id info ht => Or.inl ?_⟩
      rw [nodes_setNode, if_pos rfl, ← hd, ht]
    have hreach : Reach accepts Clean s (s.subscribe accepts n topicName callback order) :=
      reach_subscribe (by rw [hrest n]; rfl) (by rw [hrest n]; exact id) topicName callback order
        hfound hclean
    exact h.of_setNode hreach rfl haccepted (by rw [hrest n]; rfl) rfl (h.tracked n)
  | heartbeat e =>
    refine ⟨h.settled.exchange hids e, fun n => ?_,
      (members_exchange hwiring.directory h.tracked e hallowed).2⟩
    exact (congrArg NodeInfo.ip (nodeInfo_exchange s e n)).trans (h.ip n)
  | unanswered e =>
    rw [Lan.perform, unanswered]
    split_ifs with hself
    · exact h
    · rw [heartbeatStep_of_noted fun _ => rfl]
      exact h.of_setNode (reach_noted accepts (hrest e.receiver) _ _) rfl haccepted rfl rfl
        ((h.tracked e.receiver).noteHeartbeat _ _)
  | sweep n order now =>
    obtain ⟨subs, hdone⟩ := sweep_returns hwiring n order now
    have hreach := reach_sweep accepts (hrest n) (hwiring.wired n).consistent order now
    refine h.of_setNode hreach rfl haccepted rfl rfl ?_
    rw [hdone]
    exact (h.tracked n).removeNodes _

/-- The abstract network knows about an advert if the table lists it. -/
theorem Quiet.topics_iff (h : Quiet accepts config s) {n m : ν} {t : SocketInfo} :
    t ∈ ((s.nodes n).receiver.table.infoOf (s.nodeID m)).topics ↔
      ∃ offers, Members.told (s.members.known n m) = some offers ∧ t ∈ offers.1 := by
  rw [members, (h.tracked n).told_view]
  cases hlookup : (s.nodes n).receiver.table.nodesInfo.lookup (s.nodeID m) with
  | none => simp [NodeTable.infoOf_of_lookup_none hlookup, NodeInfo.default_topics]
  | some info => simp [NodeTable.infoOf_of_lookup hlookup, NodeInfo.offers]

/-- It offers or knows a service if a lookup finds one of the name. -/
theorem Quiet.service_iff (hids : Function.Injective fun n => (config n).localNode.nodeID)
    (h : Quiet accepts config s) (n : ν) (order : MapOrder) (serviceName : Str) :
    (∃ found, s.getServiceInfo n order serviceName = some found) ↔
      ∃ service : SocketInfo, service.name = serviceName ∧
        (service ∈ (s.members.own n).2 ∨ ∃ m offers,
          Members.told (s.members.known n m) = some offers ∧ service ∈ offers.2) := by
  have htold : ∀ m, Members.told (s.members.known n m) =
      ((s.nodes n).receiver.table.nodesInfo.lookup (s.nodeID m)).map NodeInfo.offers :=
    fun m => (h.tracked n).told_view (s.nodeID m)
  simp only [htold]
  constructor
  · rintro ⟨service, hfound⟩
    obtain ⟨hname, ⟨id, info, hlookup, hservice⟩ | hown⟩ := NodeTable.mem_of_getServiceInfo hfound
    · have hknowledge := (wiring_reachable hids h.settled.reach).directory.knowledge n
      obtain ⟨m, _, rfl, _⟩ := hknowledge.stored id info hlookup
      exact ⟨service, hname, Or.inr ⟨m, info.offers, by rw [hlookup]; rfl, hservice⟩⟩
    · exact ⟨service, hname, Or.inl hown⟩
  · rintro ⟨service, rfl, hown | ⟨m, offers, hinfo, hservice⟩⟩
    · exact NodeTable.exists_getServiceInfo order (Or.inr hown)
    · obtain ⟨info, hlookup, rfl⟩ := Option.map_eq_some_iff.mp hinfo
      exact NodeTable.exists_getServiceInfo order (Or.inl ⟨_, info, hlookup, hservice⟩)

/-- In whole runs as well. -/
theorem Quiet.run (hids : Function.Injective fun n => (config n).localNode.nodeID)
    (h : Quiet accepts config s) {ops : List (LanOp ν κ)}
    (hops : Runs.Each (Lan.perform accepts) (Allowed accepts) s ops) :
    Quiet accepts config (Runs.run (Lan.perform accepts) s ops) ∧
      (Runs.run (Lan.perform accepts) s ops).members =
        Runs.run Members.step s.members (ops.filterMap (LanOp.event config)) := by
  have hstep : ∀ (s : Lan ν κ) op, Quiet accepts config s → Allowed accepts s op →
      Quiet accepts config (Lan.perform accepts s op) := fun _ _ h => h.perform hids
  have hview : ∀ (s : Lan ν κ) op, Quiet accepts config s → Allowed accepts s op →
      (Lan.perform accepts s op).members =
        (LanOp.event config op).elim s.members s.members.step := fun _ _ h => members_perform hids h
  exact Runs.simulation_of_each hstep hview h hops

/-- Whoever has been told of an advert is connected to it. -/
theorem Quiet.connected_of_told (hids : Function.Injective fun n => (config n).localNode.nodeID)
    (h : Quiet accepts config s) {n m : ν} {sub : Subscriber κ} (hsub : sub ∈ (s.nodes n).subs)
    {t : SocketInfo} (hname : t.name = sub.topicName) {offers : Offers}
    (htold : Members.told (s.members.known n m) = some offers) (ht : t ∈ offers.1) :
    t.url ∈ sub.socket.endpoints := by
  have hwiring := wiring_reachable hids h.settled.reach
  refine hwiring.connected_of_stored hsub hname ?_ (h.topics_iff.mpr ⟨offers, htold, ht⟩)
  rw [h.settled.rest n]
  exact id

/-- A subscriber is connected to the publishers of its topic that have been told. -/
theorem Quiet.connected_iff (hids : Function.Injective fun n => (config n).localNode.nodeID)
    (h : Quiet accepts config s) {n : ν} {sub : Subscriber κ} (hsub : sub ∈ (s.nodes n).subs)
    {p : PubSocket ν} (hp : p ∈ s.sockets) (hne : p.owner ≠ n)
    (hname : p.advert.name = sub.topicName) :
    p.advert.url ∈ sub.socket.endpoints ↔
      ∃ offers, Members.told (s.members.known n p.owner) = some offers ∧ p.advert ∈ offers.1 := by
  have hwiring := wiring_reachable hids h.settled.reach
  constructor
  · intro hconnected
    exact h.topics_iff.mp (hwiring.stored_of_connected hsub hp hne hname hconnected)
  · rintro ⟨offers, htold, ht⟩
    exact h.connected_of_told hids hsub hname htold ht

/-- Nodes that publish, register services, subscribe, hear heartbeats, fetch infos or fail to, and
sweep, in any order, do what abstract members do. Those determine which publishers of other nodes a
subscriber is connected to, and for which names a lookup finds a service. -/
theorem discovery_refines_members
    (hids : Function.Injective fun n => (config n).localNode.nodeID) (ops : List (LanOp ν κ))
    (hops : Runs.Each (perform accepts) (Allowed accepts) (start config) ops) :
    let s : Lan ν κ := Runs.run (perform accepts) (start config) ops
    let a := Runs.run Members.step (.start fun _ => ([], []))
      (ops.filterMap (LanOp.event config))
    s.members = a ∧
      (∀ n, ∀ sub ∈ (s.nodes n).subs, ∀ p ∈ s.sockets, p.owner ≠ n →
        p.advert.name = sub.topicName →
          (p.advert.url ∈ sub.socket.endpoints ↔
            ∃ offers, Members.told (a.known n p.owner) = some offers ∧ p.advert ∈ offers.1)) ∧
      ∀ n order serviceName, (∃ found, s.getServiceInfo n order serviceName = some found) ↔
        ∃ service : SocketInfo, service.name = serviceName ∧
          (service ∈ (a.own n).2 ∨
            ∃ m offers, Members.told (a.known n m) = some offers ∧ service ∈ offers.2) := by
  intro s a
  obtain ⟨hquiet, hmembers⟩ : Quiet accepts config s ∧ s.members = a :=
    (quiet_start accepts config).run hids hops
  rw [← hmembers]
  exact ⟨rfl, fun n sub hsub p hp hne => hquiet.connected_iff hids hsub hp hne,
    hquiet.service_iff hids⟩

/-- A node with a publisher and a service, and another that subscribes, hears of both at the second
heartbeat, and sweeps. -/
def exampleOps : List (LanOp Bool Unit) :=
  [.publisher true (ascii "chat") false 5555, .service true (ascii "echo") 6000,
    .subscribe false (ascii "chat") () .stored, .unanswered ⟨true, false, 0, 0⟩,
    .heartbeat ⟨true, false, 1, 2⟩, .sweep false .stored 3]

/-- Every call of the example is one that can be made. -/
theorem allowed_exampleOps :
    Runs.Each (perform fun _ => true) (Allowed fun _ => true) (start pairConfig) exampleOps := by
  refine ⟨⟨fun _ hp => absurd hp List.not_mem_nil, rfl⟩, trivial, trivial, trivial, ?_, trivial,
    trivial⟩
  change List.length _ + List.length _ < 2 ^ 32
  decide

/-- What the example leaves in the tables is what its events say. -/
theorem discovery_refines_members_exampleOps :
    (Runs.run (perform fun _ => true) (start pairConfig) exampleOps).members =
      Runs.run Members.step (.start fun _ => ([], []))
        (exampleOps.filterMap (LanOp.event pairConfig)) :=
  (discovery_refines_members pairConfig_ids exampleOps allowed_exampleOps).1

end Lan

end ZeroLanCom
