import Mathlib.Logic.Function.Basic
import ZeroLanCom.Library.Pipes
import ZeroLanCom.Sockets.PollRound
import ZeroLanCom.System.LocalOrder
import ZeroLanCom.System.Provenance

/-!
# Publishers and subscribers of a network

Every node publishes, discovers and subscribes on its own. A message goes from a
PUB socket through the connections that subscribers have to its endpoint, and
waits in their sockets for a poll round, whose steps come between those of all
other threads. ZeroMQ may lose messages on the way, and neither repeats nor
reorders those of one connection.
-/

namespace ZeroLanCom

open Throwing Pipes

/-- The arguments and draws a node is constructed with, and the port of its reply socket. -/
structure NodeConfig where
  name : Str
  ip : Str
  groupName : Str
  draws : UInt32 × UInt32 × UInt32 × UInt32
  servicePort : Int32

/-- The local node of `ZeroLanComNode` after its construction. -/
def NodeConfig.localNode (c : NodeConfig) : LocalNode :=
  ((LocalNode.new c.name c.ip c.draws.1 c.draws.2.1 c.draws.2.2.1 c.draws.2.2.2).setServicePort
    c.servicePort).setGroupName c.groupName

/-- A PUB socket with its owner, the advert it goes by, and the messages it has been given. It
stays open as long as the process of its owner. -/
structure PubSocket (ν : Type) where
  owner : ν
  advert : SocketInfo
  sent : List Bytes := []

/-- `Publisher::publish`, of a message that has been encoded. -/
def PubSocket.send {ν : Type} (msg : Bytes) (p : PubSocket ν) : PubSocket ν :=
  { p with sent := p.sent ++ [msg] }

/-- The processes, the PUB sockets in the order they were bound, the poll round of each process, and
for each subscriber, given by its node and its position there, its socket's mailbox. What arrived
there and from which PUB socket is only recorded. -/
structure Lan (ν κ : Type) where
  nodes : ν → Discovery κ
  sockets : List (PubSocket ν)
  rounds : ν → PollRound
  boxes : ν × Nat → Mailbox
  inboxes : ν × Nat → Inbox Nat Bytes

variable {ν κ : Type}

namespace Lan

/-- Nodes that know nobody yet. -/
def start (config : ν → NodeConfig) : Lan ν κ where
  nodes n := .start (config n).localNode
  sockets := []
  rounds _ := .idle
  boxes _ := ⟨[], []⟩
  inboxes _ := .empty

variable [DecidableEq ν]

/-- Replace the state of one node. -/
def setNode (s : Lan ν κ) (n : ν) (d : Discovery κ) : Lan ν κ :=
  { s with nodes := Function.update s.nodes n d }

/-- Replace its local node. -/
def setLocal (s : Lan ν κ) (n : ν) (localNode : LocalNode) : Lan ν κ :=
  s.setNode n { s.nodes n with localNode := localNode }

/-- `Publisher::Publisher`, with its socket bound to the port. -/
def newPublisher (s : Lan ν κ) (n : ν) (topicName : Str) (port : UInt16) : Lan ν κ :=
  { s.setLocal n ((s.nodes n).localNode.registerLocalTopic topicName port) with
    sockets := s.sockets ++ [⟨n, ⟨topicName, (s.nodes n).localNode.localNodeInfo.ip, port⟩, []⟩] }

/-- Message number `j` of PUB socket `k` reaches a subscriber. -/
def arrive (s : Lan ν κ) (q : ν × Nat) (k j : Nat) (msg : Bytes) : Lan ν κ :=
  { s with
    boxes := Function.update s.boxes q ((s.boxes q).arrive msg)
    inboxes := Function.update s.inboxes q ((s.inboxes q).arrive k j msg) }

omit [DecidableEq ν] in
/-- The poll task of one node. -/
def poller (s : Lan ν κ) (n : ν) : Poller := ⟨s.rounds n, fun i => s.boxes (n, i)⟩

/-- Replace its state. -/
def setPoller (s : Lan ν κ) (n : ν) (p : Poller) : Lan ν κ :=
  { s with
    rounds := Function.update s.rounds n p.round
    boxes := fun q => if q.1 = n then p.boxes q.2 else s.boxes q }

/-- `SubscriberManager::pollOnce` of one node, if nobody interrupts it. -/
def poll (s : Lan ν κ) (n : ν) (results : CallbackResults) : Lan ν κ :=
  s.setPoller n ⟨.idle, pollBoxes results (s.nodes n).subs.length fun i => s.boxes (n, i)⟩

/-- Which steps of a node the network allows in a state. -/
abbrev Conduct (ν κ : Type) := Lan ν κ → ν → Bool → Discovery κ → Prop

/-- A fetch brings what some node says about itself, or an info without topics. -/
def Honest : Conduct ν κ := fun s n _ d =>
  ∀ id info, d.receiver.task = .storing id info →
    (s.nodes n).receiver.task = .storing id info ∨ info.topics = [] ∨
      ∃ m, info = (s.nodes m).localNode.getLocalNodeInfo

/-- The steps of the threads of all nodes, and of the network between them. -/
inductive Step (accepts : Str → Bool) (conduct : Conduct ν κ) : Lan ν κ → Lan ν κ → Prop
  /-- The endpoint that a publisher binds is nobody else's. -/
  | publisher (s : Lan ν κ) (n : ν) (topicName : Str) (withLocalNamespace : Bool) (port : UInt16)
      (hfree : ∀ p ∈ s.sockets,
        p.advert.url ≠ tcpUrl (s.nodes n).localNode.localNodeInfo.ip port) :
    Step accepts conduct s (s.newPublisher n (fullTopicName topicName withLocalNamespace) port)
  /-- `zlc::registerServiceHandler`. -/
  | service (s : Lan ν κ) (n : ν) (name : Str) (port : UInt16) :
    Step accepts conduct s (s.setLocal n ((s.nodes n).localNode.registerLocalService name port))
  /-- `Publisher::publish`. -/
  | publish (s : Lan ν κ) (k : Nat) (msg : Bytes) :
    Step accepts conduct s { s with sockets := s.sockets.modify k (PubSocket.send msg) }
  /-- A step of the receive task or of a registration. -/
  | node (s : Lan ν κ) (n : ν) {ok : Bool} {d : Discovery κ}
      (hstep : Discovery.Step accepts (s.nodes n) ok d)
      (hlocal : d.localNode = (s.nodes n).localNode) (hconduct : conduct s n ok d) :
    Step accepts conduct s (s.setNode n d)
  /-- A message comes through the connection of a subscriber to the endpoint. -/
  | arrive (s : Lan ν κ) (n : ν) (i k j : Nat) {sub : Subscriber κ} {p : PubSocket ν}
      {msg : Bytes} (hsub : (s.nodes n).subs[i]? = some sub) (hp : s.sockets[k]? = some p)
      (hconnected : p.advert.url ∈ sub.socket.endpoints)
      (hnext : (s.inboxes (n, i)).cursor k ≤ j) (hmsg : p.sent[j]? = some msg) :
    Step accepts conduct s (s.arrive (n, i) k j msg)
  /-- A step of a poll round, which starts when no registration holds `mutex_`. -/
  | poll (s : Lan ν κ) (n : ν) {p : Poller}
      (hpoll : PollStep ((s.nodes n).registration = .free) (s.nodes n).subs.length (s.poller n) p) :
    Step accepts conduct s (s.setPoller n p)

/-- What one network allows, a more lenient one allows as well. -/
theorem Step.mono {accepts : Str → Bool} {conduct conduct' : Conduct ν κ} {s s' : Lan ν κ}
    (hstep : Step accepts conduct s s')
    (h : ∀ n ok d, conduct s n ok d → conduct' s n ok d) : Step accepts conduct' s s' := by
  cases hstep with
  | publisher n topicName withLocalNamespace port hfree => exact .publisher s n _ _ port hfree
  | service n name port => exact .service s n name port
  | publish k msg => exact .publish s k msg
  | node n hstep hlocal hconduct => exact .node s n hstep hlocal (h n _ _ hconduct)
  | arrive n i k j hsub hp hconnected hnext hmsg =>
    exact .arrive s n i k j hsub hp hconnected hnext hmsg
  | poll n hpoll => exact .poll s n hpoll

/-- Some number of steps later. -/
def Reach (accepts : Str → Bool) (conduct : Conduct ν κ) : Lan ν κ → Lan ν κ → Prop :=
  Relation.ReflTransGen (Step accepts conduct)

section Sockets

omit [DecidableEq ν]

/-- Some PUB socket is advertised under the topic and reached at the URL. -/
def Serves (s : Lan ν κ) (topicName url : Str) : Prop :=
  ∃ p ∈ s.sockets, p.advert.name = topicName ∧ p.advert.url = url

/-- What a PUB socket has sent. -/
def sentBy (s : Lan ν κ) (k : Nat) : List Bytes := (s.sockets[k]?.map PubSocket.sent).getD []

/-- What it has sent, if it is one of the topic. -/
def sentOn (s : Lan ν κ) (topicName : Str) (k : Nat) : List Bytes :=
  match s.sockets[k]? with
  | some p => if p.advert.name = topicName then p.sent else []
  | none => []

/-- The endpoint tells which PUB socket it is. -/
theorem eq_of_url {s : Lan ν κ} (h : (s.sockets.map fun p => p.advert.url).Nodup)
    {p p' : PubSocket ν} (hp : p ∈ s.sockets) (hp' : p' ∈ s.sockets)
    (hurl : p.advert.url = p'.advert.url) : p = p' :=
  List.inj_on_of_nodup_map h hp hp' hurl

end Sockets

omit [DecidableEq ν] in
/-- Endpoints are distinct, nobody has a URL that no PUB socket of the topic is reached at, each
mailbox holds, in order, messages of PUB sockets of its topic, and none is empty that a round has
found ready. -/
structure Inv (s : Lan ν κ) : Prop where
  distinct : (s.sockets.map fun p => p.advert.url).Nodup
  holds : ∀ n, (s.nodes n).HoldsOnly s.Serves
  mail : ∀ q, (s.boxes q).messages = (s.inboxes q).arrived.map Prod.snd
  inOrder : ∀ q, (s.inboxes q).InOrder s.sentBy
  topics : ∀ n i, ∀ item ∈ (s.inboxes (n, i)).arrived, ∃ sub p,
    (s.nodes n).subs[i]? = some sub ∧ s.sockets[item.1]? = some p ∧
      p.advert.name = sub.topicName
  rounds : ∀ n, (s.poller n).Sound

omit [DecidableEq ν] in
/-- No node has anything, and no socket has sent. -/
theorem inv_start (config : ν → NodeConfig) : Inv (start config : Lan ν κ) where
  distinct := List.nodup_nil
  holds _ := Discovery.holdsOnly_start fun _ ht => absurd ht List.not_mem_nil
  mail _ := rfl
  inOrder _ := inOrder_empty _
  topics _ _ _ h := absurd h List.not_mem_nil
  rounds _ := Poller.sound_idle _

end Lan

/-- The position of a subscriber, and its topic, stay the same. -/
theorem Discovery.Step.subscriber {accepts : Str → Bool} {s s' : Discovery κ} {ok : Bool}
    (hstep : Discovery.Step accepts s ok s') {i : Nat} {sub : Subscriber κ}
    (hsub : s.subs[i]? = some sub) :
    ∃ sub', s'.subs[i]? = some sub' ∧ sub'.topicName = sub.topicName := by
  cases hstep with
  | publish name port => exact ⟨sub, hsub, rfl⟩
  | lock topicName callback hfree => exact ⟨sub, hsub, rfl⟩
  | read order hlocked hshared => exact ⟨sub, hsub, rfl⟩
  | connect hread =>
    refine ⟨sub, ?_, rfl⟩
    simp only [registerTopicSubscriber_state]
    split_ifs
    · obtain ⟨hlt, _⟩ := List.getElem?_eq_some_iff.mp hsub
      rw [List.getElem?_append_left hlt, hsub]
    · exact hsub
  | receive hr hquiet => exact ⟨sub, hsub, rfl⟩
  | announce hr hfree =>
    obtain ⟨sub', hsub', hu⟩ := forall₂_getElem? (updateTopicSubscriber_updated accepts _ s.subs)
      hsub
    exact ⟨sub', hsub', hu.name⟩
  | remove hr hfree hreturns =>
    obtain ⟨sub', hsub', hr⟩ := forall₂_getElem? (removeTopicSubscriber_reduced _ s.subs) hsub
    exact ⟨sub', hsub', hr.name⟩

/-- A step of a process is one of its receive task, or leaves that alone, and where ZeroMQ throws
nothing no removal fails. -/
theorem Discovery.Step.receiver {accepts : Str → Bool} {d d' : Discovery κ} {ok : Bool}
    (hstep : Discovery.Step accepts d ok d') :
    d'.receiver = d.receiver ∨ ∃ l, ReceiveStep d.receiver l d'.receiver ∧
      (ok = true → ∀ info, l ≠ .removing info false) := by
  cases hstep with
  | publish name port => exact Or.inl rfl
  | lock topicName callback hfree => exact Or.inl rfl
  | read order hlocked hshared => exact Or.inl rfl
  | connect hread => exact Or.inl rfl
  | receive hr hquiet =>
    refine Or.inr ⟨_, hr, fun _ info hl => ?_⟩
    rw [hl] at hquiet
    exact hquiet
  | announce hr hfree => exact Or.inr ⟨_, hr, fun _ info hl => by cases hl⟩
  | remove hr hfree hreturns => exact Or.inr ⟨_, hr, fun hok info hl => by cases hok; cases hl⟩

/-- A process whose local node is replaced. -/
theorem Discovery.HoldsOnly.setLocal {Q : Str → Str → Prop} {d : Discovery κ} (h : d.HoldsOnly Q)
    {localNode : LocalNode} (hpublished : localNode.localNodeInfo.OffersOnly Q) :
    HoldsOnly Q { d with localNode := localNode } :=
  ⟨hpublished, h.receiver, h.found, h.listed, h.connected⟩

namespace Lan

variable [DecidableEq ν] {accepts : Str → Bool} {s s' : Lan ν κ}

/-- A step of one node leaves the others alone. -/
theorem nodes_setNode (s : Lan ν κ) (n m : ν) (d : Discovery κ) :
    (s.setNode n d).nodes m = if m = n then d else s.nodes m :=
  Function.update_apply ..

/-- What holds of the new state of a node, and still of the others, holds of all. -/
theorem forall_setNode {P : ν → Discovery κ → Prop} {n : ν} {d : Discovery κ} (hd : P n d)
    (h : ∀ m, P m (s.nodes m)) (m : ν) : P m ((s.setNode n d).nodes m) := by
  rw [nodes_setNode]
  split_ifs with hm
  · exact hm ▸ hd
  · exact h m

/-- With a step of one node that keeps the subscribers in their places. -/
theorem Inv.setNode (h : s.Inv) {n : ν} {d : Discovery κ} (hd : d.HoldsOnly s.Serves)
    (hsubs : ∀ (i : Nat) (sub : Subscriber κ), (s.nodes n).subs[i]? = some sub →
      ∃ sub', d.subs[i]? = some sub' ∧ sub'.topicName = sub.topicName) :
    (s.setNode n d).Inv where
  distinct := h.distinct
  holds m := forall_setNode (P := fun _ d => d.HoldsOnly s.Serves) hd h.holds m
  mail := h.mail
  inOrder := h.inOrder
  topics m i item hitem := by
    obtain ⟨sub, p, hsub, hp, hname⟩ := h.topics m i item hitem
    rw [nodes_setNode]
    split_ifs with hm
    · subst hm
      obtain ⟨sub', hsub', htopic⟩ := hsubs i sub hsub
      exact ⟨sub', p, hsub', hp, hname.trans htopic.symm⟩
    · exact ⟨sub, p, hsub, hp, hname⟩
  rounds := h.rounds

omit [DecidableEq ν] in
/-- With more sockets, or more messages from them. -/
theorem Inv.setSockets (h : s.Inv) (sockets : List (PubSocket ν))
    (hdistinct : (sockets.map fun p => p.advert.url).Nodup)
    (hkeep : ∀ (k : Nat) (p : PubSocket ν), s.sockets[k]? = some p → ∃ p', sockets[k]? = some p' ∧
      p'.advert = p.advert ∧ p.sent <+: p'.sent) :
    Inv { s with sockets := sockets } where
  distinct := hdistinct
  holds n := by
    refine (h.holds n).mono fun topicName url => ?_
    rintro ⟨p, hp, hname, hurl⟩
    obtain ⟨k, hk⟩ := List.mem_iff_getElem?.mp hp
    obtain ⟨p', hp', hadvert, _⟩ := hkeep k p hk
    exact ⟨p', List.mem_of_getElem? hp', hadvert ▸ hname, hadvert ▸ hurl⟩
  mail := h.mail
  inOrder q := by
    refine (h.inOrder q).send fun k => ?_
    unfold sentBy
    cases hk : s.sockets[k]? with
    | none => exact List.nil_prefix
    | some p =>
      obtain ⟨p', hp', _, hsent⟩ := hkeep k p hk
      simpa [hp'] using hsent
  topics n i item hitem := by
    obtain ⟨sub, p, hsub, hp, hname⟩ := h.topics n i item hitem
    obtain ⟨p', hp', hadvert, _⟩ := hkeep item.1 p hp
    exact ⟨sub, p', hsub, hp', hadvert ▸ hname⟩
  rounds := h.rounds

/-- A new publisher serves its topic from then on. -/
theorem inv_newPublisher (h : s.Inv) (n : ν) (topicName : Str) (port : UInt16)
    (hfree : ∀ p ∈ s.sockets, p.advert.url ≠ tcpUrl (s.nodes n).localNode.localNodeInfo.ip port) :
    (s.newPublisher n topicName port).Inv := by
  have hsockets := h.setSockets
    (s.sockets ++ [⟨n, ⟨topicName, (s.nodes n).localNode.localNodeInfo.ip, port⟩, []⟩])
    (by
      rw [List.map_append, List.map_singleton, List.nodup_append_comm, List.singleton_append,
        List.nodup_cons]
      refine ⟨fun hmem => ?_, h.distinct⟩
      obtain ⟨p, hp, hurl⟩ := List.mem_map.mp hmem
      exact hfree p hp hurl)
    (fun k p hk => by
      obtain ⟨hlt, _⟩ := List.getElem?_eq_some_iff.mp hk
      exact ⟨p, by rw [List.getElem?_append_left hlt, hk], rfl, List.prefix_refl _⟩)
  refine hsockets.setNode ((hsockets.holds n).setLocal fun t ht => ?_)
    fun i sub hsub => ⟨sub, hsub, rfl⟩
  rcases List.mem_append.mp ht with hold | hnew
  · exact (hsockets.holds n).published t hold
  · rw [List.mem_singleton.mp hnew]
    exact ⟨_, List.mem_append_right _ (List.mem_singleton_self _), rfl, rfl⟩

omit [DecidableEq ν] in
/-- What is sent goes to every socket at the endpoint, also to those of its queue. -/
theorem inv_publish (h : s.Inv) (k : Nat) (msg : Bytes) :
    Inv { s with sockets := s.sockets.modify k (PubSocket.send msg) } := by
  refine h.setSockets _ ?_ fun i p hi => ?_
  · have hsame : (s.sockets.modify k (PubSocket.send msg)).map (fun p => p.advert.url) =
        s.sockets.map fun p => p.advert.url := by
      apply List.ext_getElem?
      intro i
      rw [List.getElem?_map, List.getElem?_map, List.getElem?_modify]
      split_ifs <;> cases s.sockets[i]? <;> rfl
    rw [hsame]
    exact h.distinct
  · rw [List.getElem?_modify, hi]
    split_ifs
    · exact ⟨_, rfl, rfl, List.prefix_append _ _⟩
    · exact ⟨p, rfl, rfl, List.prefix_refl _⟩

/-- No thread of a node connects it to what nobody has bound. -/
theorem inv_node (h : s.Inv) {n : ν} {ok : Bool} {d : Discovery κ}
    (hstep : Discovery.Step accepts (s.nodes n) ok d)
    (hlocal : d.localNode = (s.nodes n).localNode) (hconduct : Honest s n ok d) :
    (s.setNode n d).Inv := by
  refine h.setNode ((h.holds n).step hstep ?_ fun id info ht => ?_) fun i sub => hstep.subscriber
  · rw [hlocal]
    exact (h.holds n).published
  · refine (hconduct id info ht).imp_right ?_
    rintro (hnil | ⟨m, rfl⟩)
    · intro t ht
      rw [hnil] at ht
      exact absurd ht List.not_mem_nil
    · exact (h.holds m).published

/-- A subscriber is connected to endpoints of its topic only, so what arrives is of that topic. -/
theorem inv_arrive (h : s.Inv) {n : ν} {i k j : Nat} {sub : Subscriber κ} {p : PubSocket ν}
    {msg : Bytes} (hsub : (s.nodes n).subs[i]? = some sub) (hp : s.sockets[k]? = some p)
    (hconnected : p.advert.url ∈ sub.socket.endpoints)
    (hnext : (s.inboxes (n, i)).cursor k ≤ j) (hmsg : p.sent[j]? = some msg) :
    (s.arrive (n, i) k j msg).Inv where
  distinct := h.distinct
  holds := h.holds
  mail q := by
    by_cases hq : q = (n, i)
    · subst hq
      simp only [arrive, Function.update_self, Mailbox.messages_arrive, h.mail, Inbox.arrive,
        List.map_append]
      rfl
    · simp only [arrive, Function.update_of_ne hq]
      exact h.mail q
  inOrder q := by
    by_cases hq : q = (n, i)
    · subst hq
      simp only [arrive, Function.update_self]
      exact (h.inOrder (n, i)).arrive hnext (by simpa [sentBy, hp] using hmsg)
    · simp only [arrive, Function.update_of_ne hq]
      exact h.inOrder q
  topics m l item hitem := by
    by_cases hq : (m, l) = (n, i)
    · obtain ⟨rfl, rfl⟩ := Prod.mk.inj hq
      simp only [arrive, Function.update_self, Inbox.arrive] at hitem
      rcases List.mem_append.mp hitem with hold | hnew
      · exact h.topics m l item hold
      · rw [List.mem_singleton.mp hnew]
        have hmem := List.mem_of_getElem? hsub
        have hlisted := (h.holds m).connected sub hmem _ hconnected
        obtain ⟨p', hp', hname, hurl⟩ := (h.holds m).listed sub hmem _ hlisted
        rw [eq_of_url h.distinct hp' (List.mem_of_getElem? hp) hurl] at hname
        exact ⟨sub, p, hsub, hp, hname⟩
    · simp only [arrive, Function.update_of_ne hq] at hitem
      exact h.topics m l item hitem
  rounds m := by
    by_cases hm : m = n
    · subst hm
      have hbox : (s.arrive (m, i) k j msg).poller m = ⟨(s.poller m).round,
          Function.update (s.poller m).boxes i (((s.poller m).boxes i).arrive msg)⟩ := by
        refine congrArg (Poller.mk _) (funext fun l => ?_)
        simp only [arrive, poller, Function.update_apply, Prod.mk.injEq, true_and]
      rw [hbox]
      exact (h.rounds m).arrive i msg
    · have hother : (s.arrive (n, i) k j msg).poller m = s.poller m := by
        refine congrArg (Poller.mk _) (funext fun l => ?_)
        exact Function.update_of_ne (fun hq => hm (congrArg Prod.fst hq)) _ _
      rw [hother]
      exact h.rounds m

/-- A round of one node leaves the others alone. -/
theorem poller_setPoller (s : Lan ν κ) (n m : ν) (p : Poller) :
    (s.setPoller n p).poller m = if m = n then p else s.poller m := by
  simp only [poller, setPoller, Function.update_apply]
  split_ifs <;> rfl

/-- A step of a round loses no message and makes none up. -/
theorem inv_poll (h : s.Inv) {n : ν} {p : Poller} {unlocked : Prop} {count : Nat}
    (hpoll : PollStep unlocked count (s.poller n) p) : (s.setPoller n p).Inv where
  distinct := h.distinct
  holds := h.holds
  mail q := by
    obtain ⟨m, i⟩ := q
    simp only [setPoller]
    split_ifs with hm
    · subst hm
      rw [hpoll.messages i]
      exact h.mail (m, i)
    · exact h.mail (m, i)
  inOrder := h.inOrder
  topics := h.topics
  rounds m := by
    rw [poller_setPoller]
    split_ifs with hm
    · subst hm
      exact (h.rounds m).step hpoll
    · exact h.rounds m

/-- No step of any node breaks the invariant. -/
theorem inv_step (h : s.Inv) (hstep : Step accepts Honest s s') : s'.Inv := by
  cases hstep with
  | publisher n topicName withLocalNamespace port hfree => exact inv_newPublisher h n _ port hfree
  | service n name port =>
    exact h.setNode ((h.holds n).setLocal (h.holds n).published) fun _ sub hsub => ⟨sub, hsub, rfl⟩
  | publish k msg => exact inv_publish h k msg
  | node n hstep hlocal hconduct => exact inv_node h hstep hlocal hconduct
  | arrive n i k j hsub hp hconnected hnext hmsg =>
    exact inv_arrive h hsub hp hconnected hnext hmsg
  | poll n hpoll => exact inv_poll h hpoll

/-- Every reachable network keeps it. -/
theorem inv_reachable {config : ν → NodeConfig} (h : Reach accepts Honest (start config) s) :
    s.Inv :=
  Runs.reachable_invariant (I := Inv) (fun _ _ => inv_step) h (inv_start config)

/-- When the loop of a round comes to an item that the poll has found ready, there is a message to
receive, so that it never waits there. -/
theorem recv_finds_message {config : ν → NodeConfig} (h : Reach accepts Honest (start config) s)
    {n : ν} {i : Nat} {ready : List Bool} (hround : s.rounds n = .walking i (true :: ready)) :
    (s.boxes (n, i)).ready = true :=
  (inv_reachable h).rounds n i (true :: ready) hround 0 rfl

omit [DecidableEq ν] in
/-- A registration whose URLs ZeroMQ all takes returns with one more subscriber. -/
theorem registerTopicSubscriber_done {urls : List Str} (h : ∀ url ∈ urls, accepts url = true)
    (topicName : Str) (callback : κ) (subs : List (Subscriber κ)) :
    registerTopicSubscriber accepts topicName callback urls subs =
      .done (subs ++ [.registered topicName callback urls]) := by
  rw [registerTopicSubscriber, Subscriber.connect_loop h]
  simp [Subscriber.registered, ZeroMq.SubSocket.fresh]

/-- One more step of a node. -/
theorem Reach.node {conduct : Conduct ν κ} {n : ν} {ok : Bool} {d d' : Discovery κ}
    (h : Reach accepts conduct s (s.setNode n d)) (hstep : Discovery.Step accepts d ok d')
    (hlocal : d'.localNode = d.localNode) (hconduct : conduct (s.setNode n d) n ok d') :
    Reach accepts conduct s (s.setNode n d') := by
  have hself : (s.setNode n d).nodes n = d := Function.update_self ..
  have hnext : Step accepts conduct (s.setNode n d) ((s.setNode n d).setNode n d') :=
    .node _ n (hself.symm ▸ hstep) (hself.symm ▸ hlocal) hconduct
  have hidem : (s.setNode n d).setNode n d' = s.setNode n d' := by
    simp only [setNode, Function.update_idem]
  exact h.tail (hidem ▸ hnext)

/-- No step yet, from a node whose state is known. -/
theorem reach_self (accepts : Str → Bool) (conduct : Conduct ν κ) {n : ν} {d : Discovery κ}
    (h : s.nodes n = d) : Reach accepts conduct s (s.setNode n d) := by
  have hself : s.setNode n d = s := by rw [← h, setNode, Function.update_eq_self]
  exact hself.symm ▸ .refl

/-- `zlc::registerSubscriberHandler` from its lock to its release. -/
def subscribe (accepts : Str → Bool) (s : Lan ν κ) (n : ν) (topicName : Str) (callback : κ)
    (order : MapOrder) : Lan ν κ :=
  s.setNode n { s.nodes n with
    registration := .free
    subs := (registerTopicSubscriber accepts topicName callback
      (findTopicURLs (s.nodes n).receiver.table (s.nodes n).localNode.getLocalNodeInfo order
        topicName) (s.nodes n).subs).state }

/-- A subscription is a sequence of steps of the node's threads. -/
theorem reach_subscribe {conduct : Conduct ν κ} {n : ν} (hfree : (s.nodes n).registration = .free)
    (hshared : ¬ (s.nodes n).receiver.task.InSweep) (topicName : Str) (callback : κ)
    (order : MapOrder)
    (haccepts : ∀ url ∈ findTopicURLs (s.nodes n).receiver.table
      (s.nodes n).localNode.getLocalNodeInfo order topicName, accepts url = true)
    (hconduct : ∀ d d' : Discovery κ, d'.receiver = d.receiver →
      conduct (s.setNode n d) n true d') :
    Reach accepts conduct s (s.subscribe accepts n topicName callback order) := by
  have hstart := reach_self accepts conduct (rfl : s.nodes n = s.nodes n)
  have hlocked := hstart.node (.lock _ topicName callback hfree) rfl (hconduct _ _ rfl)
  have hread := hlocked.node (.read _ order rfl hshared) rfl (hconduct _ _ rfl)
  have hdone := registerTopicSubscriber_done haccepts topicName callback (s.nodes n).subs
  rw [subscribe, hdone]
  exact hread.node (.connect_done rfl hdone) rfl (hconduct _ _ rfl)

/-- A heartbeat whose fetch is answered: its receiver notes it, fetches, stores and announces, when
nothing comes between. -/
theorem reach_answered {conduct : Conduct ν κ} {n : ν} {p : NodeTable × List (Subscriber κ)}
    (hrest : s.nodes n = .resting (s.nodes n).localNode p) {heartbeat : HeartbeatMessage}
    {info : NodeInfo} {subs : List (Subscriber κ)} {noteTime : Nat} (storeTime : Nat)
    (hneeds : (p.1.noteHeartbeat heartbeat.nodeId noteTime).needsFetch heartbeat = true)
    (hdone : updateTopicSubscriber accepts info p.2 = .done subs)
    (hconduct : ∀ d d' : Discovery κ, d.localNode = (s.nodes n).localNode →
      (∀ heard, d'.receiver.task = .fetching heard → heard = heartbeat) →
      (∀ id stored, d'.receiver.task = .storing id stored →
        id = heartbeat.nodeId ∧ stored = info) → conduct (s.setNode n d) n true d') :
    Reach accepts conduct s (s.setNode n (.resting (s.nodes n).localNode
      ((p.1.noteHeartbeat heartbeat.nodeId noteTime).updateNodeUnlocked heartbeat.nodeId info
        storeTime, subs))) := by
  have hstart := reach_self accepts conduct hrest
  have hhear := hstart.node (.receive _ (.hear p.1 heartbeat noteTime) trivial) rfl
    (hconduct _ _ rfl (fun heard ht => by
      rw [if_pos hneeds] at ht
      exact (ReceiveTask.fetching.inj ht).symm) fun _ _ ht => by split_ifs at ht)
  rw [if_pos hneeds] at hhear
  have hfetch := hhear.node (.receive _ (.fetch _ heartbeat (some info)) trivial) rfl
    (hconduct _ _ rfl (fun _ ht => by cases ht) fun id stored ht => by
      cases ht
      exact ⟨rfl, rfl⟩)
  have hstore := hfetch.node (.receive _ (.store _ _ info storeTime) trivial) rfl
    (hconduct _ _ rfl (fun _ ht => by cases ht) fun _ _ ht => by cases ht)
  exact hstore.node (.announce_done (.announce _ _ info) rfl hdone) rfl
    (hconduct _ _ rfl (fun _ ht => by cases ht) fun _ _ ht => by cases ht)

/-- The steps of a poll task that nothing comes between. -/
theorem reach_setPoller {conduct : Conduct ν κ} {n : ν} {p : Poller}
    (h : Relation.ReflTransGen
      (PollStep ((s.nodes n).registration = .free) (s.nodes n).subs.length) (s.poller n) p) :
    Reach accepts conduct s (s.setPoller n p) := by
  induction h with
  | refl =>
    have hself : s.setPoller n (s.poller n) = s := by
      have hboxes : (fun q : ν × Nat => if q.1 = n then s.boxes (n, q.2) else s.boxes q) =
          s.boxes := by
        funext q
        split_ifs with hq
        · rw [← hq]
        · rfl
      simp only [setPoller, poller, Function.update_eq_self, hboxes]
    exact hself.symm ▸ .refl
  | @tail p p' _ hstep ih =>
    have hpoller : (s.setPoller n p).poller n = p := (poller_setPoller s n n p).trans (if_pos rfl)
    have hidem : (s.setPoller n p).setPoller n p' = s.setPoller n p' := by
      simp only [setPoller, Function.update_idem]
      congr 1
      funext q
      split_ifs <;> rfl
    exact hidem ▸ ih.tail (.poll _ n (hpoller.symm ▸ hstep))

/-- A whole round without interruption is `pollSubscribers` on the mailboxes of the node. -/
theorem reach_poll {conduct : Conduct ν κ} {n : ν} (hround : s.rounds n = .idle)
    (hfree : (s.nodes n).registration = .free) (results : CallbackResults) :
    Reach accepts conduct s (s.poll n results) := by
  apply reach_setPoller
  rw [poller, hround]
  exact reach_pollBoxes results _ hfree

/-- Two nodes on one host. -/
def pairConfig (n : Bool) : NodeConfig :=
  ⟨ascii "node", ascii "10.0.0.1", ascii "lab", (if n then 1 else 0, 0, 0, 0), 6000⟩

/-- One of them publishes, the other subscribes. -/
def examplePair : Lan Bool Unit :=
  subscribe (fun _ => true) (newPublisher (start pairConfig) true (ascii "chat") 5555)
    false (ascii "chat") () .stored

/-- In whatever network nodes may register subscribers. -/
theorem reach_examplePair {conduct : Conduct Bool Unit}
    (hconduct : ∀ (s : Lan Bool Unit) (d d' : Discovery Unit), d'.receiver = d.receiver →
      conduct (s.setNode false d) false true d') :
    Reach (fun _ => true) conduct (start pairConfig) examplePair := by
  have hpublisher : Reach (fun _ => true) conduct (start pairConfig)
      (newPublisher (start pairConfig : Lan Bool Unit) true (ascii "chat") 5555) :=
    .single (.publisher _ true (ascii "chat") false 5555 fun _ hp => absurd hp List.not_mem_nil)
  exact hpublisher.trans
    (reach_subscribe rfl id (ascii "chat") () .stored (fun _ _ => rfl) (hconduct _))

/-- What the publisher says about itself, and its heartbeat. -/
def chatInfo : NodeInfo := (examplePair.nodes true).localNode.getLocalNodeInfo

/-- How the publisher announces itself. -/
def chatHeartbeat : HeartbeatMessage := (examplePair.nodes true).localNode.createHeartbeat

/-- The subscriber of the other node, once it is connected. -/
def exampleSubscriber : Subscriber Unit :=
  .registered (ascii "chat") () [tcpUrl (ascii "10.0.0.1") 5555]

/-- The subscriber has heard the publisher, fetched its info and connected to it. -/
def exampleTold : Lan Bool Unit :=
  examplePair.setNode false (.resting (examplePair.nodes false).localNode
    ((NodeTable.empty.noteHeartbeat chatHeartbeat.nodeId 0).updateNodeUnlocked chatHeartbeat.nodeId
      chatInfo 1, [exampleSubscriber]))

/-- The heartbeat of the publisher is heard, fetched, stored and announced. -/
theorem reach_exampleTold :
    Reach (fun _ => true) Honest (start pairConfig) exampleTold := by
  have hpair : Reach (fun _ => true) Honest (start pairConfig) examplePair :=
    reach_examplePair fun s d d' hd id info ht => Or.inl <| by
      rw [nodes_setNode, if_pos rfl, ← hd, ht]
  have hconduct : ∀ d d' : Discovery Unit, d.localNode = (examplePair.nodes false).localNode →
      (∀ heard, d'.receiver.task = .fetching heard → heard = chatHeartbeat) →
      (∀ id stored, d'.receiver.task = .storing id stored →
        id = chatHeartbeat.nodeId ∧ stored = chatInfo) →
      Honest (examplePair.setNode false d) false true d' :=
    fun _ _ _ _ hstoring id info ht => Or.inr (Or.inr ⟨true, (hstoring id info ht).2⟩)
  exact hpair.trans (reach_answered (p := (.empty, [.registered (ascii "chat") () []])) rfl 1 rfl
    rfl hconduct)

/-- The publisher sends a message, and a poll round of the subscriber passes it on. -/
def exampleRound : Lan Bool Unit :=
  (arrive { exampleTold with sockets := exampleTold.sockets.modify 0 (PubSocket.send [7]) }
    (false, 0) 0 0 [7]).poll false fun _ => none

/-- The publisher sends, and the poll task of the other node goes through one round. -/
theorem reach_exampleRound :
    Reach (fun _ => true) Honest (start pairConfig) exampleRound := by
  have hconnected : tcpUrl (ascii "10.0.0.1") 5555 ∈ exampleSubscriber.socket.endpoints :=
    List.mem_toFinset.mpr (List.mem_singleton_self _)
  have harrived := (reach_exampleTold.tail (.publish _ 0 [7])).tail
    (.arrive _ false 0 0 0 rfl rfl hconnected le_rfl rfl)
  exact harrived.trans (reach_poll rfl rfl fun _ => none)

/-- In every run of the network, what the callback of a subscriber has been passed is merged from
messages that PUB sockets of its topic have sent, those of each socket in the order they were sent
and none of them twice. -/
theorem delivered_as_published {config : ν → NodeConfig} (h : Reach accepts Honest (start config) s)
    {n : ν} {i : Nat} {sub : Subscriber κ} (hsub : (s.nodes n).subs[i]? = some sub) :
    ∃ items : List (Nat × Bytes), items.map Prod.snd = (s.boxes (n, i)).seen ∧
      ∀ k, (cameThrough k items).Sublist (s.sentOn sub.topicName k) := by
  have hinv := inv_reachable h
  have hmail := hinv.mail (n, i)
  rw [Mailbox.messages] at hmail
  refine ⟨(s.inboxes (n, i)).arrived.take (s.boxes (n, i)).seen.length, ?_, fun k => ?_⟩
  · rw [List.map_take, ← hmail, List.take_left]
  · have hitems := List.take_sublist (s.boxes (n, i)).seen.length (s.inboxes (n, i)).arrived
    have hsent := (hinv.inOrder (n, i)).sublist hitems k
    cases hk : cameThrough k ((s.inboxes (n, i)).arrived.take (s.boxes (n, i)).seen.length) with
    | nil => exact List.nil_sublist _
    | cons msg rest =>
      -- one item from the socket is enough to know its topic
      have hmem : msg ∈ cameThrough k
          ((s.inboxes (n, i)).arrived.take (s.boxes (n, i)).seen.length) := by
        rw [hk]
        exact List.mem_cons_self ..
      obtain ⟨item, hitem, _⟩ := List.mem_map.mp hmem
      obtain ⟨hitem, hsource⟩ := List.mem_filter.mp hitem
      obtain ⟨sub', p, hsub', hp, hname⟩ := hinv.topics n i item (hitems.subset hitem)
      obtain rfl := of_decide_eq_true hsource
      obtain rfl : sub = sub' := Option.some.inj (hsub.symm.trans hsub')
      rw [← hk]
      simpa [sentOn, sentBy, hp, hname] using hsent

/-- The message is the one the publisher has sent. -/
theorem delivered_as_published_exampleRound :
    ∃ items : List (Nat × Bytes), items.map Prod.snd = [[7]] ∧
      ∀ k, (cameThrough k items).Sublist (exampleRound.sentOn (ascii "chat") k) :=
  delivered_as_published reach_exampleRound (n := false) (i := 0) rfl

end Lan

end ZeroLanCom
