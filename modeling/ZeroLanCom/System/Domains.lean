import ZeroLanCom.Nodes.GroupIsolation
import ZeroLanCom.System.Lan

/-!
# Groups and subnets of a network

Whether a node hears another is decided by two filters of its receiver, one for
the subnet and one for the group. A node asks only those it has heard, and its
subscribers are connected only to what it has been told of, so that no message
comes from anywhere else.
-/

namespace ZeroLanCom

open Throwing Pipes

namespace NodeConfig

variable {inetAton : Str → Option UInt32} {c c' : NodeConfig}

/-- The receiver that the node is constructed with. -/
def multicastReceiver (inetAton : Str → Option UInt32) (c : NodeConfig) : MulticastReceiver :=
  ⟨c.ip, c.groupName, inetAton⟩

/-- The addresses are of one subnet, and the name of the other group is the own one as far as it
gets through. -/
def Hears (inetAton : Str → Option UInt32) (c c' : NodeConfig) : Prop :=
  isInSameSubnet inetAton c.ip c'.ip = true ∧ c'.groupName.take groupNameRoom = c.groupName

/-- The datagram is a heartbeat of the node from its own address, whatever it had registered when
it was sent. -/
def Multicasts (c : NodeConfig) (d : Datagram) : Prop :=
  d.nodeIP = c.ip ∧ ∃ sender : LocalNode, sender.nodeID = c.localNode.nodeID ∧
    sender.groupName = c.groupName ∧ sender.createHeartbeat.encode = .ok d.data

/-- Such a datagram gets past the filters only to a node that hears its sender. -/
theorem hears_of_accepted {ownID : UUID} {d : Datagram} {heartbeat : HeartbeatMessage}
    (hsent : c'.Multicasts d)
    (h : (c.multicastReceiver inetAton).accepted ownID d = some heartbeat) :
    c.Hears inetAton c' ∧ heartbeat.nodeId = c'.localNode.nodeID := by
  obtain ⟨hip, sender, hid, hgroup, hdata⟩ := hsent
  have hdecode :=
    HeartbeatMessage.decode_of_encode (HeartbeatMessage.encode_take hdata groupNameRoom)
  have hsize : heartbeatFixedSize + groupNameRoom = 1024 := rfl
  rw [hsize] at hdecode
  unfold MulticastReceiver.accepted at h
  simp only [hdecode] at h
  split_ifs at h with hempty hsubnet hname hown
  cases h
  have hsame : sender.groupName.take groupNameRoom = c.groupName := not_not.mp hname
  have hin : isInSameSubnet inetAton c.ip d.nodeIP = true :=
    (Bool.not_eq_false _).mp fun hout => hsubnet (congrArg Bool.not hout)
  exact ⟨⟨hip ▸ hin, hgroup ▸ hsame⟩, hid⟩

end NodeConfig

variable {ν κ : Type}

/-- A fetch that is under way was one before, or begins with this step. -/
theorem Discovery.Step.storing {accepts : Str → Bool} {d d' : Discovery κ} {ok : Bool}
    (hstep : Discovery.Step accepts d ok d') {id : Str} {info : NodeInfo}
    (ht : d'.receiver.task = .storing id info) :
    d.receiver.task = .storing id info ∨
      ∃ heartbeat, d.receiver.task = .fetching heartbeat ∧ heartbeat.nodeId = id := by
  have hreceive : ∀ {l : ReceiveLabel} {r : Receiver}, ReceiveStep d.receiver l r →
      r.task = .storing id info → ∃ heartbeat, d.receiver.task = .fetching heartbeat ∧
        heartbeat.nodeId = id := by
    intro l r hr ht
    generalize d.receiver = r₀ at hr
    cases hr with
    | hear t heartbeat now => split_ifs at ht
    | fetch t heartbeat result =>
      cases result with
      | none => cases ht
      | some info =>
        cases ht
        exact ⟨heartbeat, rfl, rfl⟩
    | _ => cases ht
  cases hstep with
  | receive hr hquiet => exact Or.inr (hreceive hr ht)
  | announce hr hfree => exact Or.inr (hreceive hr ht)
  | remove hr hfree hreturns => exact Or.inr (hreceive hr ht)
  | _ => exact Or.inl ht

namespace Lan

variable {s s' : Lan ν κ}

/-- Some PUB socket of the node itself is advertised under the topic and reached at the URL. -/
def ServedBy (s : Lan ν κ) (n : ν) (topicName url : Str) : Prop :=
  ∃ p ∈ s.sockets, p.owner = n ∧ p.advert.name = topicName ∧ p.advert.url = url

/-- Some PUB socket of the node or of one it hears. -/
def ServedWithin (s : Lan ν κ) (hears : ν → ν → Prop) (n : ν) (topicName url : Str) : Prop :=
  ∃ p ∈ s.sockets, (p.owner = n ∨ hears n p.owner) ∧ p.advert.name = topicName ∧
    p.advert.url = url

/-- A node fetches from nodes whose heartbeat got past its filters, and those answer for
themselves, or with an info without topics. -/
def Overheard (inetAton : Str → Option UInt32) (config : ν → NodeConfig) : Conduct ν κ :=
  fun s n _ d =>
    (∀ heartbeat, d.receiver.task = .fetching heartbeat →
      (s.nodes n).receiver.task = .fetching heartbeat ∨
        ∃ m datagram, (config m).Multicasts datagram ∧
          ((config n).multicastReceiver inetAton).accepted (s.nodes n).localNode.nodeID datagram =
            some heartbeat) ∧
      ∀ id info, d.receiver.task = .storing id info →
        (s.nodes n).receiver.task = .storing id info ∨ info.topics = [] ∨
          ∃ m, id = (config m).localNode.nodeID ∧ info = (s.nodes m).localNode.getLocalNodeInfo

/-- Nodes know, fetch from and receive from themselves and those they hear only. -/
structure Bordered (config : ν → NodeConfig) (hears : ν → ν → Prop) (s : Lan ν κ) : Prop where
  own : ∀ n, (s.nodes n).localNode.localNodeInfo.OffersOnly (s.ServedBy n)
  holds : ∀ n, (s.nodes n).HoldsOnly (s.ServedWithin hears n)
  fetching : ∀ n heartbeat, (s.nodes n).receiver.task = .fetching heartbeat →
    ∃ m, hears n m ∧ heartbeat.nodeId = (config m).localNode.nodeID
  arrived : ∀ n i, ∀ item ∈ (s.inboxes (n, i)).arrived,
    ∃ p, s.sockets[item.1]? = some p ∧ (p.owner = n ∨ hears n p.owner)

/-- Nobody has anything from anybody. -/
theorem bordered_start (config : ν → NodeConfig) (hears : ν → ν → Prop) :
    Bordered config hears (start config : Lan ν κ) where
  own _ _ ht := absurd ht List.not_mem_nil
  holds _ := Discovery.holdsOnly_start fun _ ht => absurd ht List.not_mem_nil
  fetching _ _ ht := by cases ht
  arrived _ _ _ h := absurd h List.not_mem_nil

/-- What a node publishes itself is within its border. -/
theorem servedWithin_of_servedBy {hears : ν → ν → Prop} {n m : ν} (h : m = n ∨ hears n m)
    {topicName url : Str} (hserved : s.ServedBy m topicName url) :
    s.ServedWithin hears n topicName url := by
  obtain ⟨p, hp, rfl, hname, hurl⟩ := hserved
  exact ⟨p, hp, h, hname, hurl⟩

/-- More sockets, or more messages from them. -/
theorem Bordered.setSockets {config : ν → NodeConfig} {hears : ν → ν → Prop}
    (h : s.Bordered config hears) {sockets : List (PubSocket ν)}
    (hkeep : ∀ (k : Nat) (p : PubSocket ν), s.sockets[k]? = some p → ∃ p', sockets[k]? = some p' ∧
      p'.owner = p.owner ∧ p'.advert = p.advert) :
    Bordered config hears { s with sockets := sockets } := by
  have hmem : ∀ p ∈ s.sockets, ∃ p' ∈ sockets, p'.owner = p.owner ∧ p'.advert = p.advert := by
    intro p hp
    obtain ⟨k, hk⟩ := List.mem_iff_getElem?.mp hp
    obtain ⟨p', hp', hsame⟩ := hkeep k p hk
    exact ⟨p', List.mem_of_getElem? hp', hsame⟩
  refine ⟨fun n => (h.own n).mono ?_, fun n => (h.holds n).mono ?_, h.fetching,
    fun n i item hitem => ?_⟩
  · rintro topicName url ⟨p, hp, howner, hname, hurl⟩
    obtain ⟨p', hp', howner', hadvert⟩ := hmem p hp
    exact ⟨p', hp', howner'.trans howner, hadvert ▸ hname, hadvert ▸ hurl⟩
  · rintro topicName url ⟨p, hp, hwithin, hname, hurl⟩
    obtain ⟨p', hp', howner', hadvert⟩ := hmem p hp
    exact ⟨p', hp', howner'.symm ▸ hwithin, hadvert ▸ hname, hadvert ▸ hurl⟩
  · obtain ⟨p, hp, hwithin⟩ := h.arrived n i item hitem
    obtain ⟨p', hp', howner', _⟩ := hkeep item.1 p hp
    exact ⟨p', hp', howner'.symm ▸ hwithin⟩

variable [DecidableEq ν] {accepts : Str → Bool} {inetAton : Str → Option UInt32}
  {config : ν → NodeConfig} {hears : ν → ν → Prop}

/-- A node is replaced. -/
theorem Bordered.setNode (h : s.Bordered config hears) {n : ν} {d : Discovery κ}
    (hown : d.localNode.localNodeInfo.OffersOnly (s.ServedBy n))
    (hholds : d.HoldsOnly (s.ServedWithin hears n))
    (hfetching : ∀ heartbeat, d.receiver.task = .fetching heartbeat →
      ∃ m, hears n m ∧ heartbeat.nodeId = (config m).localNode.nodeID) :
    (s.setNode n d).Bordered config hears where
  own := forall_setNode (P := fun n d => d.localNode.localNodeInfo.OffersOnly (s.ServedBy n))
    hown h.own
  holds := forall_setNode (P := fun n d => d.HoldsOnly (s.ServedWithin hears n)) hholds h.holds
  fetching := forall_setNode (P := fun n d => ∀ heartbeat, d.receiver.task = .fetching heartbeat →
    ∃ m, hears n m ∧ heartbeat.nodeId = (config m).localNode.nodeID) hfetching h.fetching
  arrived := h.arrived

/-- A registration of a node that offers no more than it serves. -/
theorem Bordered.setLocal (h : s.Bordered config hears) {n : ν} {localNode : LocalNode}
    (hown : localNode.localNodeInfo.OffersOnly (s.ServedBy n)) :
    (s.setLocal n localNode).Bordered config hears :=
  h.setNode hown ((h.holds n).setLocal (hown.mono fun _ _ => servedWithin_of_servedBy (Or.inl rfl)))
    (h.fetching n)

/-- A step of a node that goes by its filters. -/
theorem Bordered.node (hids : Function.Injective fun n => (config n).localNode.nodeID)
    (h : s.Bordered config fun n m => (config n).Hears inetAton (config m)) {n : ν} {ok : Bool}
    {d : Discovery κ} (hstep : Discovery.Step accepts (s.nodes n) ok d)
    (hlocal : d.localNode = (s.nodes n).localNode) (hconduct : Overheard inetAton config s n ok d) :
    (s.setNode n d).Bordered config fun n m => (config n).Hears inetAton (config m) := by
  have hown : d.localNode.localNodeInfo.OffersOnly (s.ServedBy n) := hlocal ▸ h.own n
  refine h.setNode hown ((h.holds n).step hstep (hlocal ▸ (h.holds n).published) ?_)
    fun heartbeat ht => ?_
  · intro id info ht
    rcases hconduct.2 id info ht with hbefore | hnil | ⟨m, hid, rfl⟩
    · exact Or.inl hbefore
    · refine Or.inr fun t ht => ?_
      rw [hnil] at ht
      exact absurd ht List.not_mem_nil
    · -- who answers is who was heard
      rcases hstep.storing ht with hbefore | ⟨heartbeat, hfetching, hheard⟩
      · exact Or.inl hbefore
      · obtain ⟨m', hhears, hid'⟩ := h.fetching n heartbeat hfetching
        obtain rfl : m' = m := hids (hid'.symm.trans (hheard.trans hid))
        have hwithin : ∀ topicName url, s.ServedBy m' topicName url → s.ServedWithin
            (fun n m => (config n).Hears inetAton (config m)) n topicName url :=
          fun _ _ => servedWithin_of_servedBy (by exact Or.inr hhears)
        exact Or.inr ((h.own m').mono hwithin)
  · rcases hconduct.1 heartbeat ht with hbefore | ⟨m, datagram, hsent, haccepted⟩
    · exact h.fetching n heartbeat hbefore
    · obtain ⟨hhears, hid⟩ := NodeConfig.hears_of_accepted hsent haccepted
      exact ⟨m, hhears, hid⟩

/-- A message comes through a connection, and that leads to a node within the border. -/
theorem Bordered.arrive (hinv : s.Inv) (h : s.Bordered config hears) {n : ν} {i k j : Nat}
    {sub : Subscriber κ} {p : PubSocket ν} {msg : Bytes} (hsub : (s.nodes n).subs[i]? = some sub)
    (hp : s.sockets[k]? = some p) (hconnected : p.advert.url ∈ sub.socket.endpoints) :
    (s.arrive (n, i) k j msg).Bordered config hears where
  own := h.own
  holds := h.holds
  fetching := h.fetching
  arrived m l item hitem := by
    by_cases hq : (m, l) = (n, i)
    · obtain ⟨rfl, rfl⟩ := Prod.mk.inj hq
      simp only [Lan.arrive, Function.update_self, Inbox.arrive] at hitem
      rcases List.mem_append.mp hitem with hold | hnew
      · exact h.arrived m l item hold
      · rw [List.mem_singleton.mp hnew]
        have hmem := List.mem_of_getElem? hsub
        have hlisted := (h.holds m).connected sub hmem _ hconnected
        obtain ⟨p', hp', hwithin, _, hurl⟩ := (h.holds m).listed sub hmem _ hlisted
        rw [eq_of_url hinv.distinct hp' (List.mem_of_getElem? hp) hurl] at hwithin
        exact ⟨p, hp, hwithin⟩
    · simp only [Lan.arrive, Function.update_of_ne hq] at hitem
      exact h.arrived m l item hitem

omit [DecidableEq ν] in
/-- What is overheard is what some node says about itself. -/
theorem honest_of_overheard {n : ν} {ok : Bool} {d : Discovery κ}
    (h : Overheard inetAton config s n ok d) : Honest s n ok d := fun id info ht =>
  (h.2 id info ht).imp_right fun hanswer => hanswer.imp_right fun ⟨m, _, hinfo⟩ => ⟨m, hinfo⟩

/-- No step gives a node anything of a node it does not hear. -/
theorem bordered_step (hids : Function.Injective fun n => (config n).localNode.nodeID)
    (hinv : s.Inv) (h : s.Bordered config fun n m => (config n).Hears inetAton (config m))
    (hstep : Step accepts (Overheard inetAton config) s s') :
    s'.Bordered config fun n m => (config n).Hears inetAton (config m) := by
  cases hstep with
  | publisher n topicName withLocalNamespace port hfree =>
    have hmore : Bordered config (fun n m => (config n).Hears inetAton (config m))
        { s with sockets := s.sockets ++ [⟨n, ⟨fullTopicName topicName withLocalNamespace,
          (s.nodes n).localNode.localNodeInfo.ip, port⟩, []⟩] } := h.setSockets fun k p hk => by
      obtain ⟨hlt, _⟩ := List.getElem?_eq_some_iff.mp hk
      exact ⟨p, by rw [List.getElem?_append_left hlt, hk], rfl, rfl⟩
    refine hmore.setLocal fun t ht => ?_
    rcases List.mem_append.mp ht with hold | hnew
    · exact hmore.own n t hold
    · rw [List.mem_singleton.mp hnew]
      exact ⟨_, List.mem_append_right _ (List.mem_singleton_self _), rfl, rfl, rfl⟩
  | service n name port => exact h.setLocal (h.own n)
  | publish k msg =>
    refine h.setSockets fun i p hi => ?_
    rw [List.getElem?_modify, hi]
    split_ifs
    · exact ⟨_, rfl, rfl, rfl⟩
    · exact ⟨p, rfl, rfl, rfl⟩
  | node n hstep hlocal hconduct => exact h.node hids hstep hlocal hconduct
  | arrive n i k j hsub hp hconnected hnext hmsg => exact h.arrive hinv hsub hp hconnected
  | poll n hpoll => exact ⟨h.own, h.holds, h.fetching, h.arrived⟩

/-- Three nodes of one subnet. -/
inductive GroupNode where
  | listener
  | talker
  | neighbour
  deriving DecidableEq

/-- The first two are of one group, and the neighbour shares its host with the talker. -/
def groupConfig : GroupNode → NodeConfig
  | .listener => ⟨ascii "node", ascii "10.0.0.2", ascii "lab", (0, 0, 0, 0), 6000⟩
  | .talker => ⟨ascii "node", ascii "10.0.0.1", ascii "lab", (1, 0, 0, 0), 6000⟩
  | .neighbour => ⟨ascii "node", ascii "10.0.0.1", ascii "office", (2, 0, 0, 0), 6000⟩

/-- The nodes have different identifiers. -/
theorem groupConfig_ids : Function.Injective fun n => (groupConfig n).localNode.nodeID := by
  intro n m
  cases n <;> cases m <;> decide

/-- Two of them publish under one name, and the listener subscribes to it. -/
def subscribedGroups : Lan GroupNode Unit :=
  subscribe (fun _ => true)
    (newPublisher (newPublisher (start groupConfig) .talker (ascii "chat") 5555) .neighbour
      (ascii "chat") 5556)
    .listener (ascii "chat") () .stored

/-- What the talker multicasts then. -/
def labHeartbeat : HeartbeatMessage := (subscribedGroups.nodes .talker).localNode.createHeartbeat

/-- What it answers to a fetch. -/
def labInfo : NodeInfo := (subscribedGroups.nodes .talker).localNode.getLocalNodeInfo

/-- Its heartbeat on the wire. -/
def labDatagram : Datagram :=
  { exampleDatagram labHeartbeat.nodeId (ascii "10.0.0.1") 0 with
    data := (labHeartbeat.encode.toOption).getD [] }

/-- The talker is the one who sends it. -/
theorem multicasts_labDatagram : (groupConfig .talker).Multicasts labDatagram :=
  ⟨rfl, (subscribedGroups.nodes .talker).localNode, rfl, rfl, rfl⟩

/-- It gets past the filters of the listener. -/
theorem accepted_labDatagram :
    ((groupConfig .listener).multicastReceiver exampleInetAton).accepted
      (groupConfig .listener).localNode.nodeID labDatagram = some labHeartbeat := by
  have hsent : (subscribedGroups.nodes .talker).localNode.createHeartbeat.encode =
      .ok labDatagram.data := rfl
  refine (accepted_of_sent hsent ?_ ?_).trans ?_
  · decide
  · decide
  · decide

/-- The subscriber that is connected to it. -/
def labSubscriber : Subscriber Unit :=
  .registered (ascii "chat") () [tcpUrl (ascii "10.0.0.1") 5555]

/-- The listener has heard the talker, fetched its info and connected to its publisher. -/
def overheardGroups : Lan GroupNode Unit :=
  subscribedGroups.setNode .listener (.resting (subscribedGroups.nodes .listener).localNode
    ((NodeTable.empty.noteHeartbeat labHeartbeat.nodeId 0).updateNodeUnlocked labHeartbeat.nodeId
      labInfo 1, [labSubscriber]))

/-- Both publishers send a message, and the one of the own group arrives. -/
def twoGroups : Lan GroupNode Unit :=
  (arrive
    { overheardGroups with
      sockets := (overheardGroups.sockets.modify 0 (PubSocket.send [7])).modify 1
        (PubSocket.send [8]) }
    (.listener, 0) 0 0 [7]).poll .listener fun _ => none

/-- Two publishers, one in each group, and one subscriber. -/
theorem reach_subscribedGroups :
    Reach (fun _ => true) (Overheard exampleInetAton groupConfig) (start groupConfig)
      subscribedGroups := by
  have hfirst : Reach (fun _ => true) (Overheard exampleInetAton groupConfig) (start groupConfig)
      (newPublisher (start groupConfig : Lan GroupNode Unit) .talker (ascii "chat") 5555) :=
    .single (.publisher _ GroupNode.talker (ascii "chat") false 5555
      fun _ hp => absurd hp List.not_mem_nil)
  have hsecond := hfirst.tail (.publisher _ .neighbour (ascii "chat") false 5556 fun p hp => by
    rw [List.mem_singleton.mp hp]
    decide)
  refine hsecond.trans (reach_subscribe rfl id (ascii "chat") () .stored (fun _ _ => rfl) ?_)
  intro d d' h
  exact ⟨fun heartbeat ht => Or.inl (h ▸ ht), fun id info ht => Or.inl (h ▸ ht)⟩

/-- Both send, and the subscriber is given the message of its own group. -/
theorem reach_twoGroups :
    Reach (fun _ => true) (Overheard exampleInetAton groupConfig) (start groupConfig)
      twoGroups := by
  have hconduct : ∀ d d' : Discovery Unit,
      d.localNode = (subscribedGroups.nodes .listener).localNode →
      (∀ heard, d'.receiver.task = .fetching heard → heard = labHeartbeat) →
      (∀ id stored, d'.receiver.task = .storing id stored →
        id = labHeartbeat.nodeId ∧ stored = labInfo) →
      Overheard exampleInetAton groupConfig (subscribedGroups.setNode .listener d) .listener true
        d' := by
    intro d d' hlocal hheard hstoring
    refine ⟨fun heartbeat ht => Or.inr ⟨.talker, labDatagram, multicasts_labDatagram, ?_⟩,
      fun id info ht => Or.inr (Or.inr ⟨.talker, hstoring id info ht⟩)⟩
    rw [nodes_setNode, if_pos rfl, hlocal, hheard heartbeat ht]
    exact accepted_labDatagram
  have htold : Reach (fun _ => true) (Overheard exampleInetAton groupConfig) (start groupConfig)
      overheardGroups := reach_subscribedGroups.trans
    (reach_answered (p := (.empty, [.registered (ascii "chat") () []])) rfl 1 rfl rfl hconduct)
  have hconnected : tcpUrl (ascii "10.0.0.1") 5555 ∈ labSubscriber.socket.endpoints :=
    List.mem_toFinset.mpr (List.mem_singleton_self _)
  have harrived := ((htold.tail (.publish _ 0 [7])).tail (.publish _ 1 [8])).tail
    (.arrive _ .listener 0 0 0 rfl rfl hconnected le_rfl rfl)
  exact harrived.trans (reach_poll rfl rfl fun _ => none)

/-- In every run in which nodes fetch only from those whose heartbeats get past their filters, a
subscriber is connected only to PUB sockets of its own node and of nodes of its subnet and group,
and its callback is passed only what these have published. -/
theorem messages_within_domain (hids : Function.Injective fun n => (config n).localNode.nodeID)
    (h : Reach accepts (Overheard inetAton config) (start config) s) {n : ν} {i : Nat}
    {sub : Subscriber κ} (hsub : (s.nodes n).subs[i]? = some sub) :
    (∀ url ∈ sub.socket.endpoints, ∃ p ∈ s.sockets, p.advert.url = url ∧
      (p.owner = n ∨ (config n).Hears inetAton (config p.owner))) ∧
      ∀ msg ∈ (s.boxes (n, i)).seen, ∃ p ∈ s.sockets, msg ∈ p.sent ∧
        (p.owner = n ∨ (config n).Hears inetAton (config p.owner)) := by
  obtain ⟨hinv, hborder⟩ := Runs.reachable_invariant
    (I := fun s : Lan ν κ => s.Inv ∧
      s.Bordered config fun n m => (config n).Hears inetAton (config m))
    (fun s s' h hstep => ⟨inv_step h.1 (hstep.mono fun _ _ _ => honest_of_overheard),
      bordered_step hids h.1 h.2 hstep⟩) h ⟨inv_start config, bordered_start config _⟩
  refine ⟨fun url hurl => ?_, fun msg hmsg => ?_⟩
  · have hmem := List.mem_of_getElem? hsub
    have hlisted := (hborder.holds n).connected sub hmem url hurl
    obtain ⟨p, hp, hwithin, _, hsame⟩ := (hborder.holds n).listed sub hmem url hlisted
    exact ⟨p, hp, hsame, hwithin⟩
  · have hmail := hinv.mail (n, i)
    have hmessage : msg ∈ (s.inboxes (n, i)).arrived.map Prod.snd := by
      rw [← hmail, Mailbox.messages]
      exact List.mem_append_left _ hmsg
    obtain ⟨⟨k, msg⟩, hitem, rfl⟩ := List.mem_map.mp hmessage
    obtain ⟨p, hp, hwithin⟩ := hborder.arrived n i _ hitem
    refine ⟨p, List.mem_of_getElem? hp, ?_, hwithin⟩
    have hsent := (hinv.inOrder (n, i)).sublist (List.Sublist.refl _) k
    have hcame : msg ∈ cameThrough k (s.inboxes (n, i)).arrived :=
      List.mem_map.mpr ⟨(k, msg), List.mem_filter.mpr ⟨hitem, by simp⟩, rfl⟩
    simpa [sentBy, hp] using hsent.subset hcame

/-- The subscriber is connected to the publisher of its group, whose message it has been passed. -/
theorem messages_within_domain_twoGroups :
    (∃ p ∈ twoGroups.sockets, p.advert.url = tcpUrl (ascii "10.0.0.1") 5555 ∧
      (p.owner = .listener ∨
        (groupConfig .listener).Hears exampleInetAton (groupConfig p.owner))) ∧
      ∃ p ∈ twoGroups.sockets, [7] ∈ p.sent ∧
        (p.owner = .listener ∨
          (groupConfig .listener).Hears exampleInetAton (groupConfig p.owner)) := by
  have hdomain := messages_within_domain groupConfig_ids reach_twoGroups (n := .listener) (i := 0)
    rfl
  exact ⟨hdomain.1 _ (List.mem_toFinset.mpr (List.mem_singleton_self _)),
    hdomain.2 _ (List.mem_singleton_self _)⟩

end Lan

end ZeroLanCom
