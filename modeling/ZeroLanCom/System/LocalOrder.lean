import ZeroLanCom.Nodes.Multicast
import ZeroLanCom.Sockets.Adverts
import ZeroLanCom.Sockets.Events

/-!
# Subscribers and publishers of one process

A subscriber learns of local publishers when it registers, and of remote ones
through heartbeats. The receiver drops the heartbeats of its own process, so a
publisher that comes later is never announced to it. The order of the calls
matters then, and so does a remote node that leaves with a local endpoint.
-/

namespace ZeroLanCom

open Throwing

variable {κ : Type}

/-- Every subscriber is connected to every local publisher of its topic. -/
def LocallyConnected (localNodeInfo : NodeInfo) (subs : List (Subscriber κ)) : Prop :=
  ∀ sub ∈ subs, ∀ url ∈ urlsUnder sub.topicName localNodeInfo.topics, url ∈ sub.socket.endpoints

/-- No removal that goes through, with all before it, is of an endpoint that a local publisher
has under the same topic, if anybody subscribed to that. -/
def SparesLocal (localNodeInfo : NodeInfo) (subs : List (Subscriber κ))
    (topics : List SocketInfo) : Prop :=
  ∀ before topic later, topics = before ++ topic :: later →
    (∀ sub ∈ subs, sub.CanLose (urlsUnder sub.topicName (before ++ [topic]))) →
    ∀ sub ∈ subs, sub.topicName = topic.name →
      topic.url ∉ urlsUnder topic.name localNodeInfo.topics

section Removals

variable {localNodeInfo : NodeInfo} {subs subs' : List (Subscriber κ)} {topics : List SocketInfo}

/-- What connects more and renames nobody keeps the local connections. -/
theorem locallyConnected_of_grown (hgrown : List.Forall₂ (fun sub sub' : Subscriber κ =>
      sub'.topicName = sub.topicName ∧ sub.socket.endpoints ⊆ sub'.socket.endpoints) subs subs')
    (h : LocallyConnected localNodeInfo subs) : LocallyConnected localNodeInfo subs' := by
  intro sub' hsub' url hurl
  obtain ⟨sub, hsub, hname, hmore⟩ := forall₂_mem_right hgrown hsub'
  rw [hname] at hurl
  exact hmore (h sub hsub url hurl)

/-- A refused removal comes from a subscriber that lists the endpoint without being connected. -/
theorem notMem_of_removeTopic_threw {topic : SocketInfo} {sub sub' : Subscriber κ} {e : Exn}
    (h : sub.removeTopic topic = .threw e sub') :
    sub.topicName = topic.name ∧ topic.url ∉ sub.socket.endpoints := by
  unfold Subscriber.removeTopic at h
  split_ifs at h with hname hmem
  refine ⟨not_not.mp hname, fun hconn => ?_⟩
  rw [Subscriber.disconnect_of_mem hconn] at h
  cases h

/-- Removals that all go through and spare the local publishers keep their connections. -/
theorem locallyConnected_of_done (hlisted : ∀ sub ∈ subs, sub.Listed)
    (h : LocallyConnected localNodeInfo subs) {before later : List SocketInfo}
    (hspares : SparesLocal localNodeInfo subs (before ++ later))
    (hdone : forEach (fun topic => eachElem (Subscriber.removeTopic topic)) before subs =
      .done subs') : LocallyConnected localNodeInfo subs' := by
  obtain ⟨_, rfl⟩ := (removeTopic_rounds_eq_done_iff hlisted).mp hdone
  intro sub' hsub' url hurl
  obtain ⟨sub, hsub, rfl⟩ := List.mem_map.mp hsub'
  refine Finset.mem_sdiff.mpr ⟨h sub hsub url hurl, fun hcut => ?_⟩
  obtain ⟨topic, htopic, hname, rfl⟩ := mem_urlsUnder.mp (List.mem_toFinset.mp hcut)
  -- the round of that topic went through
  obtain ⟨earlier, rest, rfl⟩ := List.append_of_mem htopic
  rw [List.append_cons, forEach_append, Outcome.bind_eq_done_iff] at hdone
  obtain ⟨_, hthrough, _⟩ := hdone
  obtain ⟨hlose, _⟩ := (removeTopic_rounds_eq_done_iff hlisted).mp hthrough
  apply hspares earlier topic (rest ++ later) (by simp) hlose sub hsub hname.symm
  rwa [hname]

/-- So does a removal that is refused after them: whoever is refused is not connected, and so the
endpoint is not a local one. -/
theorem locallyConnected_of_refused {topic : SocketInfo} {e : Exn}
    (h : LocallyConnected localNodeInfo subs)
    (hthrew : eachElem (Subscriber.removeTopic topic) subs = .threw e subs') :
    LocallyConnected localNodeInfo subs' := by
  obtain ⟨x, hx, _, hrefused⟩ := body_threw_of_eachElem hthrew
  obtain ⟨hname, hnot⟩ := notMem_of_removeTopic_threw hrefused
  have hremote : topic.url ∉ urlsUnder topic.name localNodeInfo.topics :=
    fun hlocal => hnot (h x hx topic.url (hname ▸ hlocal))
  have hround := eachElem_state_forall₂ (Subscriber.Reduced.refl [topic])
    (fun x => x.removeTopic_reduced (List.mem_singleton.mpr (rfl : topic = topic))) subs
  rw [hthrew] at hround
  intro sub' hsub' url hurl
  obtain ⟨sub, hsub, hreduced⟩ := forall₂_mem_right hround hsub'
  rw [hreduced.name] at hurl
  apply hreduced.connected url (h sub hsub url hurl)
  intro hcut
  obtain ⟨τ, hτ, hsame, rfl⟩ := mem_urlsUnder.mp hcut
  obtain rfl := List.mem_singleton.mp hτ
  exact hremote (hsame ▸ hurl)

/-- What the removals have cut stays cut, so they had to spare the local publishers. -/
theorem sparesLocal_of_locallyConnected (hlisted : ∀ sub ∈ subs, sub.Listed)
    (h : LocallyConnected localNodeInfo
      (forEach (fun topic => eachElem (Subscriber.removeTopic topic)) topics subs).state) :
    SparesLocal localNodeInfo subs topics := by
  rintro before topic later rfl hlose sub hsub hname hlocal
  have hthrough := (removeTopic_rounds_eq_done_iff hlisted).mpr ⟨hlose, rfl⟩
  rw [List.append_cons, forEach_append, hthrough, Outcome.done_bind] at h
  have hlater := forEach_eachElem_forall₂ (Subscriber.Reduced.refl later)
    (fun _ _ _ hxy hyz => hxy.trans hyz) (fun _ hτ x => x.removeTopic_reduced hτ)
    (subs.map fun sub => sub.without (urlsUnder sub.topicName (before ++ [topic])))
  obtain ⟨sub', hsub', hreduced⟩ := forall₂_mem_left hlater (List.mem_map_of_mem hsub)
  have hname' : sub'.topicName = topic.name := hreduced.name.trans hname
  have hconn := hreduced.cut (h sub' hsub' topic.url (hname' ▸ hlocal))
  apply (Finset.mem_sdiff.mp hconn).2
  apply List.mem_toFinset.mpr
  exact mem_urlsUnder.mpr ⟨topic, by simp, hname.symm, rfl⟩

/-- The removals keep all local connections exactly when they spare the local publishers, also
when one of them is refused. -/
theorem removals_locallyConnected_iff (hlisted : ∀ sub ∈ subs, sub.Listed)
    (h : LocallyConnected localNodeInfo subs) :
    LocallyConnected localNodeInfo
        (forEach (fun topic => eachElem (Subscriber.removeTopic topic)) topics subs).state ↔
      SparesLocal localNodeInfo subs topics := by
  refine ⟨sparesLocal_of_locallyConnected hlisted, fun hspares => ?_⟩
  cases hloop : forEach (fun topic => eachElem (Subscriber.removeTopic topic)) topics subs with
  | done subs' =>
    have hwhole : SparesLocal localNodeInfo subs (topics ++ []) := by rwa [List.append_nil]
    exact locallyConnected_of_done hlisted h hwhole hloop
  | threw e subs' =>
    obtain ⟨before, topic, later, mid, rfl, hdone, hthrew⟩ := forEach_eq_threw_iff.mp hloop
    exact locallyConnected_of_refused (locallyConnected_of_done hlisted h hspares hdone) hthrew

end Removals

/-- The tables and sockets of one process. -/
structure Process (κ : Type) where
  table : NodeTable
  subs : List (Subscriber κ)
  localNode : LocalNode

/-- The calls that change them. The receive task follows up each heartbeat it processes with a
sweep. -/
inductive ProcessOp (κ : Type) where
  | subscribe (topicName : Str) (callback : κ) (order : MapOrder)
  | publish (topicName : Str) (withLocalNamespace : Bool) (port : UInt16)
  | receive (d : Datagram)
  | sweep (order : MapOrder) (now : Nat)

/-- The name under which `Publisher` registers its topic. -/
def fullTopicName (topicName : Str) (withLocalNamespace : Bool) : Str :=
  if withLocalNamespace then ascii "lc.local." ++ topicName else topicName

namespace Process

/-- A node right after its construction, for any draws of its identifier. -/
def start (name ip : Str) (r₀ r₁ r₂ r₃ : UInt32) (groupName : Str) (servicePort : Int32) :
    Process κ :=
  ⟨.empty, [], ((LocalNode.new name ip r₀ r₁ r₂ r₃).setServicePort servicePort).setGroupName
    groupName⟩

/-- One call; exceptions end with the caller. -/
def step (accepts : Str → Bool) (r : MulticastReceiver) (s : Process κ) :
    ProcessOp κ → Process κ
  | .subscribe topicName callback order =>
    { s with subs := (registerTopicSubscriber accepts topicName callback
        (findTopicURLs s.table s.localNode.getLocalNodeInfo order topicName) s.subs).state }
  | .publish topicName withLocalNamespace port =>
    { s with localNode :=
        s.localNode.registerLocalTopic (fullTopicName topicName withLocalNamespace) port }
  | .receive d =>
    match r.accepted s.localNode.nodeID d with
    | none => s
    | some heartbeat =>
      let p := (processHeartbeat d.fetchNodeInfo (nodeUpdateEvent accepts) heartbeat d.nodeIP
        d.noteTime d.storeTime (s.table, s.subs)).state
      { s with table := p.1, subs := p.2 }
  | .sweep order now =>
    let p := (checkHeartbeats nodeRemoveEvent order now (s.table, s.subs)).state
    { s with table := p.1, subs := p.2 }

/-- Every subscriber is connected to every local publisher of its topic. -/
def Connected (s : Process κ) : Prop := LocallyConnected s.localNode.getLocalNodeInfo s.subs

/-- The datagram is what the node multicasts about itself in this state. -/
def OwnHeartbeat (s : Process κ) (d : Datagram) : Prop :=
  d.nodeIP = s.localNode.getLocalNodeInfo.ip ∧ s.localNode.createHeartbeat.encode = .ok d.data

/-- A new publisher finds every subscriber of its topic connected to it already, and a sweep
spares the local publishers. -/
def KeepsLocal (s : Process κ) : ProcessOp κ → Prop
  | .publish topicName withLocalNamespace port =>
    ∀ sub ∈ s.subs, sub.topicName = fullTopicName topicName withLocalNamespace →
      tcpUrl s.localNode.getLocalNodeInfo.ip port ∈ sub.socket.endpoints
  | .sweep order now =>
    SparesLocal s.localNode.getLocalNodeInfo s.subs
      (((s.table.toRemove order now).map s.table.infoOf).flatMap NodeInfo.topics)
  | _ => True

variable {accepts : Str → Bool} {r : MulticastReceiver} {s : Process κ}

/-- The receiver drops it. -/
theorem accepted_of_own {d : Datagram} (h : s.OwnHeartbeat d) :
    r.accepted s.localNode.nodeID d = none := by
  have hid : (d.data.drop 12).take 36 = s.localNode.nodeID :=
    HeartbeatMessage.nodeId_of_encode h.2
  have hbuf : ((d.data.take 1024).drop 12).take 36 = (d.data.drop 12).take 36 := by
    rw [List.drop_take, List.take_take]
    rfl
  unfold MulticastReceiver.accepted
  simp only
  split_ifs with hempty hsubnet
  · rfl
  · rfl
  · cases hdecode : HeartbeatMessage.decode (d.data.take 1024) with
    | error e => rfl
    | ok heartbeat =>
      have hown : heartbeat.nodeId = s.localNode.nodeID :=
        (HeartbeatMessage.nodeId_of_decode hdecode).trans (hbuf.trans hid)
      simp [hown]

/-- Hearing itself changes nothing about a process. -/
theorem step_own {d : Datagram} (h : s.OwnHeartbeat d) : s.step accepts r (.receive d) = s := by
  simp only [step, accepted_of_own h]

/-- A node whose identifier has the right length can announce itself. -/
theorem exists_own (hid : s.localNode.nodeID.length = 36) : ∃ d, s.OwnHeartbeat d := by
  have hlength : s.localNode.createHeartbeat.nodeId.length = 36 := hid
  obtain ⟨data, hdata⟩ := HeartbeatMessage.exists_encode hlength
  exact ⟨⟨s.localNode.getLocalNodeInfo.ip, data, fun _ _ => none, 0, 0, 0, 0, .stored, le_rfl⟩,
    rfl, hdata⟩

/-- ZeroMQ is the only source of exceptions in an update. -/
theorem updateTopicSubscriber_threw {accepts : Str → Bool} {info : NodeInfo}
    {subs subs' : List (Subscriber κ)} {e : Exn}
    (h : updateTopicSubscriber accepts info subs = .threw e subs') : e.isStd = true := by
  obtain ⟨_, topic, _, mid, _, _, hround⟩ := forEach_eq_threw_iff.mp h
  obtain ⟨sub, _, sub', hthrew⟩ := body_threw_of_eachElem hround
  rcases Subscriber.updateTopic_cases accepts topic sub with
    ⟨_, hround⟩ | ⟨_, _, ⟨_, hround⟩ | ⟨_, hround⟩⟩
  · rw [hround] at hthrew
    cases hthrew
  · rw [hround] at hthrew
    cases hthrew
    rfl
  · rw [hround] at hthrew
    cases hthrew

/-- So `processHeartbeat` catches all of them. -/
theorem processHeartbeat_done (accepts : Str → Bool) (fetchNodeInfo : Str → Int32 → Option NodeInfo)
    (heartbeat : HeartbeatMessage) (nodeIP : Str) (noteTime storeTime : Nat)
    (p : NodeTable × List (Subscriber κ)) :
    ∃ p', processHeartbeat fetchNodeInfo (nodeUpdateEvent accepts) heartbeat nodeIP noteTime
      storeTime p = .done p' := by
  refine ⟨_, Outcome.catching_eq_done fun e p' h => ?_⟩
  split_ifs at h
  cases hfetch : fetchNodeInfo nodeIP heartbeat.servicePort with
  | none => simp [hfetch] at h
  | some info =>
    simp only [hfetch, trigger_nodeUpdateEvent] at h
    cases hupdate : updateTopicSubscriber accepts info p.2 with
    | done subs => simp [hupdate] at h
    | threw e' subs =>
      rw [hupdate, Outcome.map_threw] at h
      cases h
      exact updateTopicSubscriber_threw hupdate

/-- An iteration of the receive task is nothing, or these two calls in a row. -/
theorem receiveStep_eq_run (d : Datagram) :
    receiveStep r s.localNode.nodeID (nodeUpdateEvent accepts) nodeRemoveEvent (s.table, s.subs) d =
      let s' := if (r.accepted s.localNode.nodeID d).isSome then
          Runs.run (step accepts r) s [.receive d, .sweep d.order d.sweepTime]
        else s
      (s'.table, s'.subs) := by
  cases haccepted : r.accepted s.localNode.nodeID d with
  | none => exact receiveStep_of_dropped haccepted
  | some heartbeat =>
    obtain ⟨p, hp⟩ := processHeartbeat_done accepts d.fetchNodeInfo heartbeat d.nodeIP
      d.noteTime d.storeTime (s.table, s.subs)
    rw [receiveStep_of_accepted haccepted, hp, Outcome.done_bind]
    simp only [Option.isSome_some, if_true, Runs.run_cons, Runs.run_nil, step, haccepted, hp,
      Outcome.state_done]

/-- What every run keeps: identifiers of 36 bytes, and lists that name every connection. -/
structure Inv (s : Process κ) : Prop where
  nodeID : s.localNode.nodeID.length = 36
  listed : ∀ sub ∈ s.subs, sub.Listed

/-- A fresh process. -/
theorem inv_start (name ip : Str) (r₀ r₁ r₂ r₃ : UInt32) (groupName : Str) (servicePort : Int32) :
    Inv (start name ip r₀ r₁ r₂ r₃ groupName servicePort : Process κ) :=
  ⟨length_generateUUID r₀ r₁ r₂ r₃, fun _ h => absurd h List.not_mem_nil⟩

/-- A heartbeat leaves the subscribers alone or updates them for one node. -/
theorem processHeartbeat_subs (accepts : Str → Bool) (fetchNodeInfo : Str → Int32 → Option NodeInfo)
    (heartbeat : HeartbeatMessage) (nodeIP : Str) (noteTime storeTime : Nat)
    (p : NodeTable × List (Subscriber κ)) :
    (processHeartbeat fetchNodeInfo (nodeUpdateEvent accepts) heartbeat nodeIP noteTime storeTime
        p).state.2 = p.2 ∨
      ∃ info, (processHeartbeat fetchNodeInfo (nodeUpdateEvent accepts) heartbeat nodeIP noteTime
        storeTime p).state.2 = (updateTopicSubscriber accepts info p.2).state := by
  rcases heartbeatStep_cases (nodeUpdateEvent accepts) p
    ⟨heartbeat, nodeIP, fetchNodeInfo, noteTime, storeTime⟩ with ⟨_, hstep⟩ | ⟨info, _, _, hstep⟩
  · rw [heartbeatStep] at hstep
    exact Or.inl (by rw [hstep])
  · rw [heartbeatStep, trigger_nodeUpdateEvent] at hstep
    exact Or.inr ⟨info, by rw [hstep]⟩

/-- A sweep removes the topics of the expired nodes, one after the other. -/
theorem checkHeartbeats_subs (order : MapOrder) (now : Nat) (p : NodeTable × List (Subscriber κ)) :
    (checkHeartbeats nodeRemoveEvent order now p).state.2 =
      (forEach (fun topic => eachElem (Subscriber.removeTopic topic))
        (((p.1.toRemove order now).map p.1.infoOf).flatMap NodeInfo.topics) p.2).state := by
  rw [checkHeartbeats_callbacks, trigger_nodeRemoveEvent, removeTopicSubscriber_loop]

/-- A datagram leaves the local node alone, and updates the subscribers for one node at most. -/
theorem step_receive (accepts : Str → Bool) (r : MulticastReceiver) (s : Process κ)
    (d : Datagram) :
    (s.step accepts r (.receive d)).localNode = s.localNode ∧
      ((s.step accepts r (.receive d)).subs = s.subs ∨ ∃ info,
        (s.step accepts r (.receive d)).subs =
          (updateTopicSubscriber accepts info s.subs).state) := by
  rw [step]
  cases r.accepted s.localNode.nodeID d with
  | none => exact ⟨rfl, Or.inl rfl⟩
  | some heartbeat =>
    exact ⟨rfl, processHeartbeat_subs accepts d.fetchNodeInfo heartbeat d.nodeIP d.noteTime
      d.storeTime (s.table, s.subs)⟩

/-- No call connects a subscriber without listing the connection. -/
theorem step_listed (h : ∀ sub ∈ s.subs, sub.Listed) (op : ProcessOp κ) :
    ∀ sub ∈ (s.step accepts r op).subs, sub.Listed := by
  cases op with
  | subscribe topicName callback order =>
    exact registerTopicSubscriber_mem (Subscriber.registered_listed topicName callback _) h
  | publish topicName withLocalNamespace port => exact h
  | receive d =>
    rcases (step_receive accepts r s d).2 with hsame | ⟨info, hupdate⟩
    · rw [hsame]
      exact h
    · rw [hupdate]
      exact updateTopicSubscriber_mem
        (fun topic _ sub hsub => Subscriber.updateTopic_listed accepts topic hsub) h
  | sweep order now =>
    rw [step]
    simp only [checkHeartbeats_subs]
    exact forEach_eachElem_mem
      (fun topic _ sub hsub => Subscriber.removeTopic_listed topic hsub) h

/-- The identifier of a node never changes. -/
theorem step_nodeID (op : ProcessOp κ) :
    (s.step accepts r op).localNode.nodeID = s.localNode.nodeID := by
  cases op with
  | receive d => rw [(step_receive accepts r s d).1]
  | _ => rfl

/-- Every call keeps the invariant. -/
theorem step_inv (h : s.Inv) (op : ProcessOp κ) : (s.step accepts r op).Inv :=
  ⟨(congrArg List.length (step_nodeID op)).trans h.nodeID, step_listed h.listed op⟩

/-- A new subscriber is connected to the local publishers from the start. -/
theorem subscribe_connected (h : s.Connected) (topicName : Str) (callback : κ) (order : MapOrder) :
    (s.step accepts r (.subscribe topicName callback order)).Connected := by
  refine registerTopicSubscriber_mem (fun url hurl => ?_) h
  have hadvertised : url ∈ advertised s.table s.localNode.getLocalNodeInfo topicName :=
    mem_advertised.mpr (Or.inr hurl)
  exact List.mem_toFinset.mpr ((findTopicURLs_perm ..).mem_iff.mpr hadvertised)

/-- A new publisher is connected to by nobody who was not connected before. -/
theorem publish_connected_iff (h : s.Connected) (topicName : Str) (withLocalNamespace : Bool)
    (port : UInt16) :
    (s.step accepts r (.publish topicName withLocalNamespace port)).Connected ↔
      s.KeepsLocal (.publish topicName withLocalNamespace port) := by
  have hurls : ∀ name,
      urlsUnder name (s.step accepts r
          (.publish topicName withLocalNamespace port)).localNode.localNodeInfo.topics =
        urlsUnder name s.localNode.localNodeInfo.topics ++
          urlsUnder name [⟨fullTopicName topicName withLocalNamespace,
            s.localNode.localNodeInfo.ip, port⟩] := by
    intro name
    simp only [step, LocalNode.registerLocalTopic, urlsUnder, List.filter_append, List.map_append]
  constructor
  · intro hafter sub hsub hname
    apply hafter sub hsub
    rw [LocalNode.getLocalNodeInfo, hurls]
    apply List.mem_append_right
    exact mem_urlsUnder.mpr ⟨_, List.mem_singleton.mpr rfl, hname.symm, rfl⟩
  · intro hkeeps sub hsub url hurl
    rw [LocalNode.getLocalNodeInfo, hurls] at hurl
    rcases List.mem_append.mp hurl with hold | hnew
    · exact h sub hsub url hold
    · obtain ⟨topic, htopic, hname, rfl⟩ := mem_urlsUnder.mp hnew
      obtain rfl := List.mem_singleton.mp htopic
      exact hkeeps sub hsub hname.symm

/-- A heartbeat cuts no connection. -/
theorem receive_connected (h : s.Connected) (d : Datagram) :
    (s.step accepts r (.receive d)).Connected := by
  obtain ⟨hlocal, hsubs⟩ := step_receive accepts r s d
  rw [Connected, hlocal]
  rcases hsubs with hsame | ⟨info, hupdate⟩
  · rw [hsame]
    exact h
  · rw [hupdate]
    have hgrown := updateTopicSubscriber_updated accepts info s.subs
    exact locallyConnected_of_grown (hgrown.imp fun _ _ h => ⟨h.name, h.connected⟩) h

/-- One call keeps the connections to local publishers exactly under its condition. -/
theorem step_connected_iff (hinv : s.Inv) (h : s.Connected) (op : ProcessOp κ) :
    (s.step accepts r op).Connected ↔ s.KeepsLocal op := by
  cases op with
  | subscribe topicName callback order =>
    exact iff_of_true (subscribe_connected h topicName callback order) trivial
  | publish topicName withLocalNamespace port =>
    exact publish_connected_iff h topicName withLocalNamespace port
  | receive d => exact iff_of_true (receive_connected h d) trivial
  | sweep order now =>
    rw [step, Connected]
    simp only [checkHeartbeats_subs]
    exact removals_locallyConnected_iff hinv.listed h

/-- Wherever in the run the node's own next heartbeat is received, every subscriber is connected
to every local publisher of its topic afterwards. -/
def ConnectedOnceHeard (accepts : Str → Bool) (r : MulticastReceiver) (s : Process κ)
    (ops : List (ProcessOp κ)) : Prop :=
  ∀ k d, OwnHeartbeat (Runs.run (step accepts r) s (ops.take k)) d →
    Connected (step accepts r (Runs.run (step accepts r) s (ops.take k)) (.receive d))

/-- The order of the calls of a run does not matter to the local connections exactly when each
publisher found the subscribers of its topic connected to it already, so that in general it came
first, and every sweep spared the local publishers. -/
theorem connected_once_heard_iff (accepts : Str → Bool) (r : MulticastReceiver) (name ip : Str)
    (r₀ r₁ r₂ r₃ : UInt32) (groupName : Str) (servicePort : Int32) (ops : List (ProcessOp κ)) :
    ConnectedOnceHeard accepts r (start name ip r₀ r₁ r₂ r₃ groupName servicePort) ops ↔
      Runs.Each (step accepts r) KeepsLocal (start name ip r₀ r₁ r₂ r₃ groupName servicePort)
        ops := by
  have hinv := inv_start (κ := κ) name ip r₀ r₁ r₂ r₃ groupName servicePort
  have hstart : Connected (start name ip r₀ r₁ r₂ r₃ groupName servicePort : Process κ) :=
    fun _ h => absurd h List.not_mem_nil
  rw [← Runs.always_iff_each (I := Inv) (fun s op h => step_inv h op)
    (fun s op hinv h => step_connected_iff hinv h op) hinv hstart ops, Runs.always_iff_take]
  have halways : Runs.Always (step accepts r) Inv
      (start name ip r₀ r₁ r₂ r₃ groupName servicePort) ops :=
    Runs.always_of_step (I := Inv) (fun _ op h => step_inv h op) hinv ops
  have hids := Runs.always_iff_take.mp halways
  apply forall_congr'
  intro k
  constructor
  · intro h
    obtain ⟨d, hd⟩ := exists_own (hids k).nodeID
    have hafter := h d hd
    rwa [step_own hd] at hafter
  · intro h d hd
    rwa [step_own hd]

/-- A process with one subscriber, and the publisher that comes after it. -/
def exampleProcess : Process Unit :=
  start (ascii "node") (ascii "10.0.0.1") 0 0 0 0 (ascii "lab") 6000

/-- The order that misses the publisher. -/
def subscribeFirst : List (ProcessOp Unit) :=
  [.subscribe (ascii "chat") () .stored, .publish (ascii "chat") false 5555]

/-- The own heartbeat has come, and the subscriber has no connection to the publisher. -/
theorem subscribe_first_stays_unconnected :
    ¬ ConnectedOnceHeard (fun _ => true) exampleReceiver exampleProcess subscribeFirst := by
  intro h
  obtain ⟨d, hd⟩ := exists_own (s := Runs.run (step (fun _ => true) exampleReceiver)
    exampleProcess (subscribeFirst.take 2)) (length_generateUUID 0 0 0 0)
  have hafter := h 2 d hd
  rw [step_own hd] at hafter
  -- the subscriber found nothing to connect to when it registered
  have hconn := hafter ⟨ascii "chat", [], (), ⟨∅⟩⟩ (List.mem_singleton.mpr rfl)
    (tcpUrl (ascii "10.0.0.1") 5555) (by decide)
  exact absurd hconn (Finset.notMem_empty _)

end Process

end ZeroLanCom
