import ZeroLanCom.System.Lan
import ZeroLanCom.System.Staleness

/-!
# Who is connected to whom

While ZeroMQ refuses nothing and nodes answer for themselves, the tables of the
nodes hold versions of what the others publish, and the sockets follow the
tables: a subscriber is connected to those publishers of another node that its
own node has stored, and to no others of it.
-/

namespace ZeroLanCom

open Throwing

/-- The info is what a node has said about itself when it had made these registrations only.
Every registration bumps `infoID`, which wraps around. -/
structure NodeInfo.IsVersionOf (info current : NodeInfo) : Prop where
  topics : info.topics <+: current.topics
  services : info.services <+: current.services
  infoID : info.infoID = UInt32.ofNat (info.topics.length + info.services.length)

/-- It stays one when the node registers more. -/
theorem NodeInfo.IsVersionOf.of_more {info current later : NodeInfo}
    (h : info.IsVersionOf current) (htopics : current.topics <+: later.topics)
    (hservices : current.services <+: later.services) : info.IsVersionOf later :=
  ⟨h.topics.trans htopics, h.services.trans hservices, h.infoID⟩

/-- The topics and the services of a node. -/
abbrev Offers := List SocketInfo × List SocketInfo

/-- What a node says it has. -/
def NodeInfo.offers (info : NodeInfo) : Offers := (info.topics, info.services)

/-- Before `infoID` wraps around, it tells the version. -/
theorem NodeInfo.IsVersionOf.offers_eq {info current : NodeInfo} (h : info.IsVersionOf current)
    (hcurrent : current.IsVersionOf current) (hid : info.infoID = current.infoID)
    (hreg : current.topics.length + current.services.length < 2 ^ 32) :
    info.offers = current.offers := by
  have htopics := h.topics.length_le
  have hservices := h.services.length_le
  have hsame : info.topics.length + info.services.length =
      current.topics.length + current.services.length := by
    have hnat := congrArg UInt32.toNat ((h.infoID.symm.trans hid).trans hcurrent.infoID)
    rwa [UInt32.toNat_ofNat_of_lt' (by rw [UInt32.size]; omega),
      UInt32.toNat_ofNat_of_lt' hreg] at hnat
  exact Prod.ext (h.topics.eq_of_length (by omega)) (h.services.eq_of_length (by omega))

/-- A registration counts. -/
theorem NodeInfo.IsVersionOf.infoID_add_one {info : NodeInfo} (h : info.IsVersionOf info) :
    info.infoID + 1 = UInt32.ofNat (info.topics.length + info.services.length + 1) := by
  rw [h.infoID]
  exact (UInt32.ofNat_add _ 1).symm

variable {ν κ : Type}

namespace Lan

variable [DecidableEq ν] {accepts : Str → Bool} {s s' : Lan ν κ}

section Names

omit [DecidableEq ν]

/-- The identifier of a node. -/
def nodeID (s : Lan ν κ) (n : ν) : UUID := (s.nodes n).localNode.nodeID

/-- What the node says about itself. -/
def nodeInfo (s : Lan ν κ) (n : ν) : NodeInfo := (s.nodes n).localNode.getLocalNodeInfo

/-- ZeroMQ refuses nothing, and a fetch under the id of another node brings what that says about
itself. -/
def Clean : Conduct ν κ := fun s n ok d =>
  ok = true ∧ ∀ id info, d.receiver.task = .storing id info →
    (s.nodes n).receiver.task = .storing id info ∨
      ∃ m, m ≠ n ∧ id = s.nodeID m ∧ info = s.nodeInfo m

/-- What is said about a node by that node is said by some node. -/
theorem Clean.honest {n : ν} {ok : Bool} {d : Discovery κ} (h : Clean s n ok d) :
    Honest s n ok d := fun id info ht =>
  (h.2 id info ht).imp_right fun ⟨m, _, _, hinfo⟩ => Or.inr ⟨m, hinfo⟩

/-- The info is a version of another node that has the id. -/
def Describes (s : Lan ν κ) (n : ν) (id : Str) (info : NodeInfo) : Prop :=
  ∃ m, m ≠ n ∧ id = s.nodeID m ∧ info.IsVersionOf (s.nodeInfo m)

end Names

/-- The adverts of the PUB sockets of one node. -/
def adverts (sockets : List (PubSocket ν)) (n : ν) : List SocketInfo :=
  (sockets.filter fun p => p.owner = n).map PubSocket.advert

/-- The adverts of a node are those of its sockets. -/
theorem mem_adverts {sockets : List (PubSocket ν)} {n : ν} {t : SocketInfo} :
    t ∈ adverts sockets n ↔ ∃ p ∈ sockets, p.owner = n ∧ p.advert = t := by
  simp [adverts, and_assoc]

/-- Sending changes no advert. -/
theorem adverts_send (sockets : List (PubSocket ν)) (n : ν) (k : Nat) (msg : Bytes) :
    adverts (sockets.modify k (PubSocket.send msg)) n = adverts sockets n := by
  induction sockets generalizing k with
  | nil => rw [List.modify_nil]
  | cons p sockets ih =>
    cases k with
    | zero =>
      simp only [adverts, List.modify_zero_cons, List.filter_cons, PubSocket.send]
      split_ifs <;> rfl
    | succ k =>
      have htail := ih k
      simp only [adverts, List.modify_succ_cons, List.filter_cons] at htail ⊢
      split_ifs
      · rw [List.map_cons, List.map_cons, htail]
      · exact htail

section Knowledge

omit [DecidableEq ν]

/-- The receiver of a node has versions of other nodes, each with its `infoID`. What it is about
to store has all topics of the entry it replaces. -/
structure Knowledge (s : Lan ν κ) (n : ν) (r : Receiver) : Prop where
  stored : ∀ id info, r.table.nodesInfo.lookup id = some info → s.Describes n id info
  storing : ∀ id info, r.task = .storing id info →
    s.Describes n id info ∧ (r.table.infoOf id).topics <+: info.topics
  infoIds : ∀ id, r.table.nodesInfoId.lookup id =
    (r.table.nodesInfo.lookup id).map NodeInfo.infoID

/-- Nodes that register more keep it true. -/
theorem Knowledge.of_more {n : ν} {r : Receiver} (h : s.Knowledge n r)
    (hids : ∀ m, s'.nodeID m = s.nodeID m)
    (htopics : ∀ m, (s.nodeInfo m).topics <+: (s'.nodeInfo m).topics)
    (hservices : ∀ m, (s.nodeInfo m).services <+: (s'.nodeInfo m).services) :
    s'.Knowledge n r := by
  have hmore : ∀ id info, s.Describes n id info → s'.Describes n id info := by
    rintro id info ⟨m, hne, hid, hversion⟩
    exact ⟨m, hne, hid.trans (hids m).symm, hversion.of_more (htopics m) (hservices m)⟩
  exact ⟨fun id info hid => hmore id info (h.stored id info hid),
    fun id info ht => (h.storing id info ht).imp_left (hmore id info), h.infoIds⟩

/-- What a fetch brings is the newest version of the node, so the stored one has fewer topics. -/
theorem Knowledge.prefix_of_fetch {n m : ν} {r : Receiver} (h : s.Knowledge n r)
    (hids : Function.Injective s.nodeID) :
    (r.table.infoOf (s.nodeID m)).topics <+: (s.nodeInfo m).topics := by
  cases hold : r.table.nodesInfo.lookup (s.nodeID m) with
  | none =>
    rw [NodeTable.infoOf_of_lookup_none hold, NodeInfo.default_topics]
    exact List.nil_prefix
  | some old =>
    obtain ⟨m', _, hid, hversion⟩ := h.stored _ old hold
    obtain rfl := hids hid
    rw [NodeTable.infoOf_of_lookup hold]
    exact hversion.topics

/-- Everything the receive task does keeps it, but for a removal that throws. -/
theorem Knowledge.step {n : ν} {r r' : Receiver} {l : ReceiveLabel} (h : s.Knowledge n r)
    (hids : Function.Injective s.nodeID)
    (hnumbered : ∀ m, (s.nodeInfo m).IsVersionOf (s.nodeInfo m)) (hstep : ReceiveStep r l r')
    (hreturns : ∀ info, l ≠ .removing info false)
    (hfetch : ∀ id info, r'.task = .storing id info →
      r.task = .storing id info ∨ ∃ m, m ≠ n ∧ id = s.nodeID m ∧ info = s.nodeInfo m) :
    s.Knowledge n r' := by
  cases hstep with
  | hear t heartbeat now =>
    refine ⟨h.stored, fun id info ht => ?_, h.infoIds⟩
    split_ifs at ht
  | fetch t heartbeat result =>
    refine ⟨h.stored, fun id info ht => ?_, h.infoIds⟩
    obtain hbefore | ⟨m, hne, rfl, rfl⟩ := hfetch id info ht
    · cases hbefore
    · exact ⟨⟨m, hne, rfl, hnumbered m⟩, h.prefix_of_fetch hids⟩
  | store t nodeID stored now =>
    refine ⟨fun id info hid => ?_, fun _ _ ht => (by cases ht), fun id => ?_⟩
    · rw [NodeTable.lookup_updateNodeUnlocked] at hid
      split_ifs at hid with hsame
      · cases hid
        exact hsame ▸ (h.storing nodeID stored rfl).1
      · exact h.stored id info hid
    · rw [NodeTable.lookup_infoId_updateNodeUnlocked, NodeTable.lookup_updateNodeUnlocked]
      split_ifs
      · rfl
      · exact h.infoIds id
  | announce t nodeID stored => exact ⟨h.stored, fun _ _ ht => (by cases ht), h.infoIds⟩
  | sweep t order now => exact ⟨h.stored, fun _ _ ht => (by cases ht), h.infoIds⟩
  | remove t nodeID ids => exact ⟨h.stored, fun _ _ ht => (by cases ht), h.infoIds⟩
  | removeThrows t nodeID ids => exact absurd rfl (hreturns _)
  | erase t nodeID ids =>
    refine ⟨fun id info hid => ?_, fun _ _ ht => (by cases ht), fun id => ?_⟩
    · rw [NodeTable.lookup_removeNode] at hid
      split_ifs at hid
      exact h.stored id info hid
    · rw [NodeTable.lookup_infoId_removeNode, NodeTable.lookup_removeNode]
      split_ifs
      · rfl
      · exact h.infoIds id
  | sweepEnds t => exact ⟨h.stored, fun _ _ ht => (by cases ht), h.infoIds⟩

end Knowledge

/-- The ids tell the nodes apart, each node offers exactly the adverts of its PUB sockets, and the
tables hold versions of what the others offer. -/
structure Directory (s : Lan ν κ) : Prop where
  ids : Function.Injective s.nodeID
  published : ∀ n, (s.nodeInfo n).topics = adverts s.sockets n
  numbered : ∀ n, (s.nodeInfo n).IsVersionOf (s.nodeInfo n)
  knowledge : ∀ n, s.Knowledge n (s.nodes n).receiver

/-- Draws that give every node an id of its own. -/
theorem directory_start {config : ν → NodeConfig}
    (hids : Function.Injective fun n => (config n).localNode.nodeID) :
    Directory (start config : Lan ν κ) where
  ids := hids
  published _ := rfl
  numbered _ := ⟨List.prefix_refl _, List.prefix_refl _, rfl⟩
  knowledge _ := ⟨fun _ _ hid => (by cases hid), fun _ _ ht => (by cases ht), fun _ => rfl⟩

/-- A registration: the local node offers more, and its `infoID` counts it. -/
theorem Directory.setLocal (h : s.Directory) {n : ν} {localNode : LocalNode}
    {sockets : List (PubSocket ν)} (hid : localNode.nodeID = s.nodeID n)
    (htopics : (s.nodeInfo n).topics <+: localNode.getLocalNodeInfo.topics)
    (hservices : (s.nodeInfo n).services <+: localNode.getLocalNodeInfo.services)
    (hnumbered : localNode.getLocalNodeInfo.IsVersionOf localNode.getLocalNodeInfo)
    (hpublished : localNode.getLocalNodeInfo.topics = adverts sockets n)
    (hothers : ∀ m, m ≠ n → adverts sockets m = adverts s.sockets m) :
    Directory { s.setLocal n localNode with sockets := sockets } := by
  have hnode : ∀ m, (s.setLocal n localNode).nodes m =
      if m = n then { s.nodes n with localNode := localNode } else s.nodes m :=
    fun m => nodes_setNode s n m _
  have hsame : ∀ m, (s.setLocal n localNode).nodeID m = s.nodeID m := by
    intro m
    rw [nodeID, hnode]
    split_ifs with hm
    · exact hm ▸ hid
    · rfl
  have hinfo : ∀ m, (s.setLocal n localNode).nodeInfo m =
      if m = n then localNode.getLocalNodeInfo else s.nodeInfo m := by
    intro m
    rw [nodeInfo, hnode]
    split_ifs <;> rfl
  constructor
  case ids => exact fun m m' hm => h.ids ((hsame m).symm.trans (hm.trans (hsame m')))
  case published =>
    intro m
    refine (congrArg NodeInfo.topics (hinfo m)).trans ?_
    split_ifs with hm
    · exact hm ▸ hpublished
    · exact (h.published m).trans (hothers m hm).symm
  case numbered =>
    intro m
    refine (hinfo m).symm ▸ ?_
    split_ifs
    · exact hnumbered
    · exact h.numbered m
  case knowledge =>
    intro m
    have hold : s.Knowledge m ((s.setLocal n localNode).nodes m).receiver := by
      rw [hnode]
      split_ifs with hm
      · exact hm ▸ h.knowledge n
      · exact h.knowledge m
    refine hold.of_more hsame (fun m => ?_) fun m => ?_
    all_goals
      refine (hinfo m).symm ▸ ?_
      split_ifs with hm
    · exact hm ▸ htopics
    · exact List.prefix_refl _
    · exact hm ▸ hservices
    · exact List.prefix_refl _

/-- Steps that leave the local nodes alone. -/
theorem Directory.of_locals (h : s.Directory)
    (hlocals : ∀ m, (s'.nodes m).localNode = (s.nodes m).localNode)
    (hadverts : ∀ m, adverts s'.sockets m = adverts s.sockets m)
    (hknowledge : ∀ m, s.Knowledge m (s'.nodes m).receiver) : s'.Directory := by
  have hids : ∀ m, s'.nodeID m = s.nodeID m := fun m => congrArg LocalNode.nodeID (hlocals m)
  have hinfos : ∀ m, s'.nodeInfo m = s.nodeInfo m :=
    fun m => congrArg LocalNode.getLocalNodeInfo (hlocals m)
  constructor
  case ids => exact fun m m' hm => h.ids ((hids m).symm.trans (hm.trans (hids m')))
  case published =>
    intro m
    rw [hinfos, hadverts]
    exact h.published m
  case numbered =>
    intro m
    rw [hinfos]
    exact h.numbered m
  case knowledge =>
    intro m
    exact (hknowledge m).of_more hids (fun m => by rw [hinfos]) fun m => by rw [hinfos]

/-- A step of one node. -/
theorem Directory.setNode (h : s.Directory) {n : ν} {d : Discovery κ}
    (hlocal : d.localNode = (s.nodes n).localNode) (hreceiver : s.Knowledge n d.receiver) :
    (s.setNode n d).Directory :=
  h.of_locals
    (forall_setNode (P := fun m d => d.localNode = (s.nodes m).localNode) hlocal fun _ => rfl)
    (fun _ => rfl)
    (forall_setNode (P := fun m d => s.Knowledge m d.receiver) hreceiver h.knowledge)

/-- What the receive task of a node exchanges in a clean step. -/
theorem knowledge_of_clean (h : s.Directory) {n : ν} {ok : Bool} {d : Discovery κ}
    (hstep : Discovery.Step accepts (s.nodes n) ok d) (hclean : Clean s n ok d) :
    s.Knowledge n d.receiver := by
  obtain ⟨rfl, hfetch⟩ := hclean
  rcases hstep.receiver with hsame | ⟨l, hr, hreturns⟩
  · rw [hsame]
    exact h.knowledge n
  · exact (h.knowledge n).step h.ids h.numbered hr (hreturns rfl) hfetch

/-- A new socket adds its advert to those of its owner. -/
theorem adverts_append_self (sockets : List (PubSocket ν)) (n : ν) (t : SocketInfo) :
    adverts (sockets ++ [⟨n, t, []⟩]) n = adverts sockets n ++ [t] := by
  simp [adverts]

/-- To those of the others it adds nothing. -/
theorem adverts_append_of_ne (sockets : List (PubSocket ν)) {n m : ν} (h : m ≠ n)
    (t : SocketInfo) : adverts (sockets ++ [⟨n, t, []⟩]) m = adverts sockets m := by
  simp [adverts, h.symm]

/-- No clean step makes a node and the entries about it disagree. -/
theorem directory_step (h : s.Directory) (hstep : Step accepts Clean s s') : s'.Directory := by
  cases hstep with
  | publisher n topicName withLocalNamespace port hfree =>
    refine h.setLocal rfl (List.prefix_append _ _) (List.prefix_refl _)
      ⟨List.prefix_refl _, List.prefix_refl _, ?_⟩ ?_ fun m hm => adverts_append_of_ne _ hm _
    · rw [LocalNode.getLocalNodeInfo, LocalNode.registerLocalTopic, List.length_append,
        List.length_singleton, Nat.add_right_comm]
      exact (h.numbered n).infoID_add_one
    · rw [adverts_append_self, ← h.published n]
      rfl
  | service n name port =>
    refine h.setLocal rfl (List.prefix_refl _) (List.prefix_append _ _)
      ⟨List.prefix_refl _, List.prefix_refl _, ?_⟩ (h.published n) fun _ _ => rfl
    rw [LocalNode.getLocalNodeInfo, LocalNode.registerLocalService, List.length_append,
      List.length_singleton, ← Nat.add_assoc]
    exact (h.numbered n).infoID_add_one
  | publish k msg => exact h.of_locals (fun _ => rfl) (fun n => adverts_send _ n k msg) h.knowledge
  | node n hstep hlocal hclean => exact h.setNode hlocal (knowledge_of_clean h hstep hclean)
  | arrive n i k j hsub hp hconnected hnext hmsg =>
    exact h.of_locals (fun _ => rfl) (fun _ => rfl) h.knowledge
  | poll n hpoll => exact h.of_locals (fun _ => rfl) (fun _ => rfl) h.knowledge

section Distinct

variable (hdistinct : (s.sockets.map fun p => p.advert.url).Nodup)
include hdistinct

/-- No node announces the same twice. -/
theorem nodup_adverts (n : ν) : (adverts s.sockets n).Nodup := by
  refine List.Nodup.of_map SocketInfo.url ?_
  rw [adverts, List.map_map]
  exact hdistinct.sublist (List.filter_sublist.map _)

/-- An advert tells its node. -/
theorem owner_unique {n m : ν} {t : SocketInfo} (hn : t ∈ adverts s.sockets n)
    (hm : t ∈ adverts s.sockets m) : n = m := by
  obtain ⟨p, hp, rfl, rfl⟩ := mem_adverts.mp hn
  obtain ⟨p', hp', rfl, hsame⟩ := mem_adverts.mp hm
  rw [eq_of_url hdistinct hp hp' (congrArg SocketInfo.url hsame.symm)]

/-- What a table of versions and the local node offer together has no advert twice. -/
theorem Directory.nodup_offered (h : s.Directory) {n : ν} {t : NodeTable}
    (hstored : ∀ id info, t.nodesInfo.lookup id = some info → s.Describes n id info) :
    ((t.nodesInfo.entries.flatMap fun e => e.2.topics) ++ (s.nodeInfo n).topics).Nodup := by
  have hentry : ∀ e ∈ t.nodesInfo.entries, ∃ m, m ≠ n ∧ e.1 = s.nodeID m ∧
      e.2.topics <+: adverts s.sockets m := by
    intro e he
    obtain ⟨m, hne, hid, hversion⟩ := hstored e.1 e.2 (AList.mem_lookup_iff.mpr he)
    exact ⟨m, hne, hid, h.published m ▸ hversion.topics⟩
  refine List.nodup_append.mpr ⟨List.nodup_flatMap.mpr ⟨fun e he => ?_, ?_⟩, ?_, ?_⟩
  · obtain ⟨m, _, _, htopics⟩ := hentry e he
    exact (nodup_adverts hdistinct m).sublist htopics.sublist
  · refine (List.nodupKeys_iff_pairwise.mp t.nodesInfo.nodupKeys).imp_of_mem ?_
    intro e e' he he' hkeys x hx hx'
    obtain ⟨m, _, hid, htopics⟩ := hentry e he
    obtain ⟨m', _, hid', htopics'⟩ := hentry e' he'
    apply hkeys
    rw [hid, hid', owner_unique hdistinct (htopics.subset hx) (htopics'.subset hx')]
  · rw [h.published]
    exact nodup_adverts hdistinct n
  · rintro x hx _ hlocal rfl
    obtain ⟨e, he, hx⟩ := List.mem_flatMap.mp hx
    obtain ⟨m, hne, _, htopics⟩ := hentry e he
    rw [h.published] at hlocal
    exact hne (owner_unique hdistinct (htopics.subset hx) hlocal)

/-- No table lists two nodes with one advert. -/
theorem Directory.noTwin (h : s.Directory) (n : ν) : (s.nodes n).receiver.table.NoTwin :=
  (List.nodup_append.mp (h.nodup_offered hdistinct (h.knowledge n).stored)).1

/-- So no URL is advertised twice under a topic. -/
theorem Directory.nodup_advertised (h : s.Directory) {n : ν} {t : NodeTable}
    (hstored : ∀ id info, t.nodesInfo.lookup id = some info → s.Describes n id info)
    (topicName : Str) : (advertised t (s.nodeInfo n) topicName).Nodup := by
  have hall : advertised t (s.nodeInfo n) topicName =
      (((t.nodesInfo.entries.flatMap fun e => e.2.topics) ++ (s.nodeInfo n).topics).filter
        fun t => t.name = topicName).map SocketInfo.url := by
    simp only [advertised, remoteURLs, urlsUnder, List.filter_append, List.map_append,
      List.filter_flatMap, List.map_flatMap]
  rw [hall]
  refine List.Nodup.map_on (fun x hx y hy hurl => ?_)
    ((h.nodup_offered hdistinct hstored).filter _)
  have hname := of_decide_eq_true (List.mem_filter.mp hx).2
  have hname' := of_decide_eq_true (List.mem_filter.mp hy).2
  exact SocketInfo.eq_of_url (hname.trans hname'.symm) hurl

end Distinct

end Lan

namespace Discovery

variable {accepts : Str → Bool} {d d' : Discovery κ}

/-- The lists of the subscribers cover the table, go by it alone, and name each endpoint once. -/
structure Wired (d : Discovery κ) : Prop where
  cover : d.CoverInv
  fresh : d.FreshInv
  consistent : AllConsistent d.subs

/-- There are no subscribers yet. -/
theorem wired_start (localNode : LocalNode) : Wired (start localNode : Discovery κ) :=
  ⟨coverInv_start localNode, freshInv_start localNode, fun _ h => absurd h List.not_mem_nil⟩

/-- Only a registration that has read a URL twice could spoil the lists. -/
theorem consistent_step {ok : Bool} (h : AllConsistent d.subs) (hstep : Step accepts d ok d')
    (hfound : ∀ topicName callback urls, d.registration = .read topicName callback urls →
      urls.Nodup) : AllConsistent d'.subs := by
  cases hstep with
  | publish name port => exact h
  | lock topicName callback hfree => exact h
  | read order hlocked hshared => exact h
  | @connect topicName callback urls hread =>
    have hnew : (Subscriber.registered topicName callback urls).Consistent :=
      Subscriber.registered_consistent_iff.mpr (hfound topicName callback urls hread)
    exact registerTopicSubscriber_mem hnew h
  | receive hr hquiet => exact h
  | announce hr hfree =>
    exact updateTopicSubscriber_mem
      (fun topic _ sub hsub => Subscriber.updateTopic_consistent accepts topic hsub) h
  | @remove info returns r hr hfree hreturns =>
    obtain ⟨subs', hdone, hsubs'⟩ := removeTopicSubscriber_returns info h
    rw [hdone]
    exact hsubs'

/-- A clean step of one process, in a table without twins and while nodes keep their topics. -/
theorem Wired.step (h : d.Wired) (hstep : Step accepts d true d')
    (htwin : d'.receiver.table.NoTwin) (hkeeps : KeepsTopics d'.receiver)
    (hfound : ∀ topicName callback urls, d.registration = .read topicName callback urls →
      urls.Nodup) : d'.Wired :=
  ⟨coverInv_step h.cover ⟨hstep, htwin⟩, freshInv_step h.fresh ⟨⟨true, hstep⟩, hkeeps⟩,
    consistent_step h.consistent hstep hfound⟩

/-- A service is no topic. -/
theorem Wired.setLocal (h : d.Wired) {localNode : LocalNode}
    (htopics : localNode.localNodeInfo.topics = d.localNode.localNodeInfo.topics) :
    Wired { d with localNode := localNode } := by
  have hsame : ∀ t topicName, advertised t localNode.getLocalNodeInfo topicName =
      advertised t d.localNode.getLocalNodeInfo topicName := by
    intro t topicName
    simp only [advertised, LocalNode.getLocalNodeInfo, htopics]
  refine ⟨⟨h.cover.noTwin, h.cover.subs, h.cover.found, h.cover.exclusive, h.cover.announcing⟩,
    ⟨h.fresh.keeps, h.fresh.listed, fun sub hsub url => ?_,
      fun topicName callback urls hr url => ?_, h.fresh.announcing⟩, h.consistent⟩
  · rw [hsame]
    exact h.fresh.subs sub hsub url
  · rw [hsame]
    exact h.fresh.found topicName callback urls hr url

end Discovery

namespace Lan

variable [DecidableEq ν] {accepts : Str → Bool} {s s' : Lan ν κ}

/-- What every clean run keeps. -/
structure Wiring (s : Lan ν κ) : Prop where
  inv : s.Inv
  directory : s.Directory
  wired : ∀ n, (s.nodes n).Wired

/-- Nobody knows anybody. -/
theorem wiring_start {config : ν → NodeConfig}
    (hids : Function.Injective fun n => (config n).localNode.nodeID) :
    Wiring (start config : Lan ν κ) :=
  ⟨inv_start config, directory_start hids, fun _ => Discovery.wired_start _⟩

/-- A registration reads no URL twice. -/
theorem Wiring.nodup_found (h : s.Wiring) {n : ν} {topicName : Str} {callback : κ}
    {urls : List Str} (hread : (s.nodes n).registration = .read topicName callback urls) :
    urls.Nodup := by
  have hbounded := (h.wired n).fresh.found topicName callback urls hread
  have hstored : ∀ id info, (Discovery.settled (s.nodes n).receiver).nodesInfo.lookup id =
      some info → s.Describes n id info := fun id info hid =>
    (h.directory.knowledge n).stored id info (Discovery.lookup_of_settled hid)
  have honce := List.nodup_iff_count_le_one.mp
    (h.directory.nodup_advertised h.inv.distinct hstored topicName)
  exact List.nodup_iff_count_le_one.mpr fun url => (hbounded url).trans (honce url)

/-- What is about to be stored keeps the topics of the entry it replaces. -/
theorem Directory.keepsTopics (h : s.Directory) (n : ν) :
    Discovery.KeepsTopics (s.nodes n).receiver :=
  fun id info ht => ((h.knowledge n).storing id info ht).2.sublist.subperm

/-- Every clean step of the network keeps tables and sockets together. -/
theorem wiring_step (h : s.Wiring) (hstep : Step accepts Clean s s') : s'.Wiring := by
  have hdirectory := directory_step h.directory hstep
  have hinv : s'.Inv := inv_step h.inv (hstep.mono fun _ _ _ hclean => hclean.honest)
  refine ⟨hinv, hdirectory, ?_⟩
  have hnext : ∀ {n : ν} {d : Discovery κ}, Discovery.Step accepts (s.nodes n) true d →
      (s'.nodes n) = d → d.Wired := by
    rintro n d hd rfl
    exact (h.wired n).step hd (hdirectory.noTwin hinv.distinct n) (hdirectory.keepsTopics n)
      fun topicName callback urls => h.nodup_found
  cases hstep with
  | publisher n topicName withLocalNamespace port hfree =>
    refine forall_setNode (P := fun _ d => d.Wired) ?_ h.wired
    exact hnext (.publish _ _ _) (Function.update_self ..)
  | service n name port =>
    exact forall_setNode (P := fun _ d => d.Wired) ((h.wired n).setLocal rfl) h.wired
  | publish k msg => exact h.wired
  | node n hstep hlocal hclean =>
    obtain ⟨rfl, _⟩ := hclean
    exact forall_setNode (P := fun _ d => d.Wired) (hnext hstep (Function.update_self ..)) h.wired
  | arrive n i k j hsub hp hconnected hnext hmsg => exact h.wired
  | poll n hpoll => exact h.wired

/-- So does every clean run. -/
theorem wiring_reachable {config : ν → NodeConfig}
    (hids : Function.Injective fun n => (config n).localNode.nodeID)
    (h : Reach accepts Clean (start config) s) : s.Wiring :=
  Runs.reachable_invariant (I := Wiring) (fun _ _ => wiring_step) h (wiring_start hids)

/-- Whoever is connected to a publisher has its advert in the table. -/
theorem Wiring.stored_of_connected (h : s.Wiring) {n : ν} {sub : Subscriber κ}
    (hsub : sub ∈ (s.nodes n).subs) {p : PubSocket ν} (hp : p ∈ s.sockets) (hne : p.owner ≠ n)
    (hname : p.advert.name = sub.topicName) (hconnected : p.advert.url ∈ sub.socket.endpoints) :
    p.advert ∈ ((s.nodes n).receiver.table.infoOf (s.nodeID p.owner)).topics := by
  have hmine : p.advert ∈ adverts s.sockets p.owner := mem_adverts.mpr ⟨p, hp, rfl, rfl⟩
  have hwired := h.wired n
  have hlisted := (hwired.consistent sub hsub).mem_iff.mp hconnected
  have hcount := (List.count_pos_iff.mpr hlisted).trans_le (hwired.fresh.subs sub hsub p.advert.url)
  rcases mem_advertised.mp (List.count_pos_iff.mp hcount) with ⟨id, info, hid, hurl⟩ | hurl
  · obtain ⟨t, ht, htname, hturl⟩ := mem_urlsUnder.mp hurl
    obtain rfl := SocketInfo.eq_of_url (htname.trans hname.symm) hturl
    have hstored := Discovery.lookup_of_settled hid
    obtain ⟨m, _, rfl, hversion⟩ := (h.directory.knowledge n).stored id info hstored
    have htheirs : p.advert ∈ adverts s.sockets m :=
      h.directory.published m ▸ hversion.topics.subset ht
    obtain rfl := owner_unique h.inv.distinct hmine htheirs
    rwa [NodeTable.infoOf_of_lookup hstored]
  · obtain ⟨t, ht, htname, hturl⟩ := mem_urlsUnder.mp hurl
    obtain rfl := SocketInfo.eq_of_url (htname.trans hname.symm) hturl
    have hlocal : p.advert ∈ adverts s.sockets n := h.directory.published n ▸ ht
    exact absurd (owner_unique h.inv.distinct hmine hlocal) hne

/-- Whoever has the advert in the table is connected, unless the event about its node is still to
come. -/
theorem Wiring.connected_of_stored (h : s.Wiring) {n m : ν} {sub : Subscriber κ}
    (hsub : sub ∈ (s.nodes n).subs) {t : SocketInfo} (hname : t.name = sub.topicName)
    (hpending : ¬ Discovery.Pending (s.nodes n).receiver.task (s.nodeID m))
    (hlisted : t ∈ ((s.nodes n).receiver.table.infoOf (s.nodeID m)).topics) :
    t.url ∈ sub.socket.endpoints := by
  rw [((h.wired n).consistent sub hsub).mem_iff]
  cases hstored : (s.nodes n).receiver.table.nodesInfo.lookup (s.nodeID m) with
  | none =>
    rw [NodeTable.infoOf_of_lookup_none hstored] at hlisted
    exact absurd hlisted List.not_mem_nil
  | some info =>
    rw [NodeTable.infoOf_of_lookup hstored] at hlisted
    exact (h.wired n).cover.subs sub hsub _ info hstored hpending
      (mem_urlsUnder.mpr ⟨t, hlisted, hname, rfl⟩)

/-- A heartbeat from one node to another, which is heard in the state it is created in, and the
times at which that handles it. -/
structure Exchange (ν : Type) where
  sender : ν
  receiver : ν
  noteTime : Nat
  storeTime : Nat

/-- The call of `processHeartbeat` for it, whose fetch succeeds. -/
def Exchange.call (e : Exchange ν) (s : Lan ν κ) : HeartbeatCall where
  heartbeat := (s.nodes e.sender).localNode.createHeartbeat
  nodeIP := (s.nodeInfo e.sender).ip
  fetchNodeInfo _ _ := some (s.nodeInfo e.sender)
  noteTime := e.noteTime
  storeTime := e.storeTime

/-- The receiver drops its own, and processes that of another without interruption. The sweep which
the receive callback makes after `processHeartbeat` is left to come as a step of its own. -/
def exchange (accepts : Str → Bool) (s : Lan ν κ) (e : Exchange ν) : Lan ν κ :=
  if e.sender = e.receiver then s
  else s.setNode e.receiver (Discovery.resting (s.nodes e.receiver).localNode
    (heartbeatStep (nodeUpdateEvent accepts)
      ((s.nodes e.receiver).receiver.table, (s.nodes e.receiver).subs) (e.call s)))

/-- No node is in the middle of anything. -/
def AtRest (s : Lan ν κ) : Prop :=
  ∀ n, s.nodes n =
    .resting (s.nodes n).localNode ((s.nodes n).receiver.table, (s.nodes n).subs)

/-- What the nodes say about themselves depends on their local part alone. -/
theorem nodeInfo_setNode {n : ν} {d : Discovery κ} (hlocal : d.localNode = (s.nodes n).localNode)
    (m : ν) : (s.setNode n d).nodeInfo m = s.nodeInfo m := by
  rw [nodeInfo, nodes_setNode]
  split_ifs with hm
  · rw [hlocal, hm, nodeInfo]
  · rfl

/-- So do their identifiers. -/
theorem nodeID_setNode {n : ν} {d : Discovery κ} (hlocal : d.localNode = (s.nodes n).localNode)
    (m : ν) : (s.setNode n d).nodeID m = s.nodeID m :=
  congrArg NodeInfo.nodeID (nodeInfo_setNode hlocal m)

omit [DecidableEq ν] in
/-- Updates end normally when ZeroMQ accepts the endpoints. -/
theorem updateTopicSubscriber_returns {info : NodeInfo}
    (haccepts : ∀ t ∈ info.topics, accepts t.url = true) (subs : List (Subscriber κ)) :
    ∃ subs', updateTopicSubscriber accepts info subs = .done subs' := by
  have hsub : ∀ t ∈ info.topics, ∀ sub : Subscriber κ, True →
      ∃ sub', sub.updateTopic accepts t = .done sub' ∧ True := by
    intro t ht sub _
    rcases Subscriber.updateTopic_cases accepts t sub with
      ⟨_, hdone⟩ | ⟨_, _, ⟨hrejects, _⟩ | ⟨_, hdone⟩⟩
    · exact ⟨_, hdone, trivial⟩
    · exact absurd (haccepts t ht) (by simp [hrejects])
    · exact ⟨_, hdone, trivial⟩
  have hround : ∀ t ∈ info.topics, ∀ subs : List (Subscriber κ), True →
      ∃ subs', eachElem (Subscriber.updateTopic accepts t) subs = .done subs' ∧ True :=
    fun t ht subs _ => (eachElem_returns (hsub t ht) fun _ _ => trivial).imp
      fun _ hdone => ⟨hdone.1, trivial⟩
  obtain ⟨subs', hdone, _⟩ := forEach_returns hround (s := subs) trivial
  exact ⟨subs', hdone⟩

/-- A heartbeat that is only noted, whatever the reason, is a clean run of the receive task. -/
theorem reach_noted (accepts : Str → Bool) {n : ν} {p : NodeTable × List (Subscriber κ)}
    (hrest : s.nodes n = .resting (s.nodes n).localNode p) (heartbeat : HeartbeatMessage)
    (noteTime : Nat) :
    Reach accepts Clean s (s.setNode n (.resting (s.nodes n).localNode
      (p.1.noteHeartbeat heartbeat.nodeId noteTime, p.2))) := by
  have hstart := reach_self accepts Clean hrest
  have hhear := hstart.node (.receive _ (.hear p.1 heartbeat noteTime) trivial) rfl
    ⟨rfl, fun _ _ ht => by split_ifs at ht⟩
  split_ifs at hhear
  · exact hhear.node (.receive _ (.fetch _ heartbeat none) trivial) rfl
      ⟨rfl, fun _ _ ht => by cases ht⟩
  · exact hhear

/-- So is one whose fetch is answered. -/
theorem reach_heartbeat {n m : ν} (hne : m ≠ n) {p : NodeTable × List (Subscriber κ)}
    (hrest : s.nodes n = .resting (s.nodes n).localNode p) {c : HeartbeatCall}
    (hid : c.heartbeat.nodeId = s.nodeID m) (hfetched : c.fetched = some (s.nodeInfo m))
    (haccepts : ∀ t ∈ (s.nodeInfo m).topics, accepts t.url = true) :
    Reach accepts Clean s (s.setNode n (.resting (s.nodes n).localNode
      (heartbeatStep (nodeUpdateEvent accepts) p c))) := by
  by_cases hfetches : c.fetches p.1 = true
  · rw [heartbeatStep_of_stored hfetches hfetched, trigger_nodeUpdateEvent]
    obtain ⟨subs', hdone⟩ := updateTopicSubscriber_returns haccepts p.2
    rw [hdone]
    refine reach_answered hrest c.storeTime hfetches hdone fun d d' hlocal _ hstoring => ?_
    refine ⟨rfl, fun id info ht => Or.inr ⟨m, hne, ?_, ?_⟩⟩
    · rw [(hstoring id info ht).1, hid, nodeID_setNode hlocal]
    · rw [(hstoring id info ht).2, nodeInfo_setNode hlocal]
  · rw [heartbeatStep_of_noted fun h => absurd h hfetches]
    exact reach_noted accepts hrest c.heartbeat c.noteTime

/-- A fetch is made exactly if the table does not have the present offers. -/
theorem fetches_iff (h : s.Directory) {n m : ν} {c : HeartbeatCall}
    (hid : c.heartbeat.nodeId = s.nodeID m)
    (hversion : c.heartbeat.infoId.toUInt32 = (s.nodeInfo m).infoID)
    (hreg : (s.nodeInfo m).topics.length + (s.nodeInfo m).services.length < 2 ^ 32) :
    c.fetches (s.nodes n).receiver.table = true ↔
      ((s.nodes n).receiver.table.nodesInfo.lookup (s.nodeID m)).map NodeInfo.offers ≠
        some (s.nodeInfo m).offers := by
  have hinfoId := (h.knowledge n).infoIds (s.nodeID m)
  rw [HeartbeatCall.fetches, NodeTable.needsFetch, hid, hversion]
  simp only [NodeTable.checkNodeIDUnlocked, NodeTable.checkNodeInfoIDUnlocked,
    NodeTable.noteHeartbeat, hinfoId]
  cases hstored : (s.nodes n).receiver.table.nodesInfo.lookup (s.nodeID m) with
  | none => simp
  | some info =>
    obtain ⟨m', _, hsame, hinfo⟩ := (h.knowledge n).stored _ info hstored
    obtain rfl := h.ids hsame
    have hoffers : info.infoID = (s.nodeInfo m).infoID ↔ info.offers = (s.nodeInfo m).offers := by
      refine ⟨fun he => hinfo.offers_eq (h.numbered m) he hreg, fun he => ?_⟩
      obtain ⟨htopics, hservices⟩ := Prod.mk.inj he
      rw [hinfo.infoID, (h.numbered m).infoID, htopics, hservices]
    simp [hoffers]

/-- The processing of a heartbeat ends where it began, outside of everything. -/
theorem atRest_exchange (h : s.AtRest) (e : Exchange ν) : (s.exchange accepts e).AtRest := by
  unfold exchange
  split_ifs
  · exact h
  · exact forall_setNode (P := fun _ d => d = .resting d.localNode (d.receiver.table, d.subs)) rfl h

/-- Listening binds no socket. -/
theorem sockets_exchange (s : Lan ν κ) (e : Exchange ν) :
    (s.exchange accepts e).sockets = s.sockets := by
  unfold exchange
  split_ifs <;> rfl

/-- Listening changes nothing a node says about itself. -/
theorem nodeInfo_exchange (s : Lan ν κ) (e : Exchange ν) (m : ν) :
    (s.exchange accepts e).nodeInfo m = s.nodeInfo m := by
  unfold exchange
  split_ifs
  · rfl
  · exact nodeInfo_setNode (by rfl) m

/-- Nodes at rest after a clean run, the endpoints of whose sockets can be connected to. -/
structure Settled (accepts : Str → Bool) (config : ν → NodeConfig) (s : Lan ν κ) : Prop where
  reach : Reach accepts Clean (start config) s
  rest : s.AtRest
  accepted : ∀ p ∈ s.sockets, accepts p.advert.url = true

/-- A network at rest is at rest again after a heartbeat. -/
theorem Settled.exchange {config : ν → NodeConfig}
    (hids : Function.Injective fun n => (config n).localNode.nodeID)
    (h : Settled accepts config s) (e : Exchange ν) :
    Settled accepts config (s.exchange accepts e) := by
  refine ⟨?_, atRest_exchange h.rest e, by rw [sockets_exchange]; exact h.accepted⟩
  unfold Lan.exchange
  split_ifs with hself
  · exact h.reach
  · refine h.reach.trans (reach_heartbeat hself (h.rest e.receiver) rfl rfl fun t ht => ?_)
    rw [(wiring_reachable hids h.reach).directory.published] at ht
    obtain ⟨p, hp, _, rfl⟩ := mem_adverts.mp ht
    exact h.accepted p hp

/-- It is after any number of them. -/
theorem Settled.run {config : ν → NodeConfig}
    (hids : Function.Injective fun n => (config n).localNode.nodeID)
    (h : Settled accepts config s) (exchanges : List (Exchange ν)) :
    Settled accepts config (Runs.run (Lan.exchange accepts) s exchanges) :=
  Runs.run_of_step (I := Settled accepts config) (fun _ e h => h.exchange hids e) h exchanges

/-- The two nodes have different identifiers. -/
theorem pairConfig_ids : Function.Injective fun n => (pairConfig n).localNode.nodeID := by
  have hne : generateUUID 0 0 0 0 ≠ generateUUID 1 0 0 0 := by decide
  exact Bool.injective_iff.mpr hne

/-- The two nodes before they have heard of each other. -/
theorem settled_examplePair : Settled (fun _ => true) pairConfig examplePair where
  reach := reach_examplePair fun s d d' hd => ⟨rfl, fun id info ht => Or.inl <| by
    rw [nodes_setNode, if_pos rfl, ← hd, ht]⟩
  rest n := by cases n <;> rfl
  accepted _ _ := rfl

/-- The heartbeat of the first has arrived at the second. -/
def exampleExchange : List (Exchange Bool) := [⟨true, false, 0, 1⟩]

/-- The subscriber has got its connection. -/
theorem exampleSubscriber_mem :
    exampleSubscriber ∈
      ((Runs.run (exchange fun _ => true) examplePair exampleExchange).nodes false).subs :=
  List.mem_singleton.mpr rfl

/-- In a clean run, outside of a sweep and with no update event to come, a subscriber is connected
to the PUB sockets of other nodes which the table lists under its topic, to nothing else of
theirs, and in any case to PUB sockets of its topic only. -/
theorem connections_exact {config : ν → NodeConfig}
    (hids : Function.Injective fun n => (config n).localNode.nodeID)
    (hreach : Reach accepts Clean (start config) s) {n : ν}
    (hsweep : ¬ (s.nodes n).receiver.task.InSweep)
    (hevent : ∀ id info, (s.nodes n).receiver.task ≠ .announcing id info)
    {sub : Subscriber κ} (hsub : sub ∈ (s.nodes n).subs) :
    (∀ p ∈ s.sockets, p.owner ≠ n → p.advert.name = sub.topicName →
      (p.advert.url ∈ sub.socket.endpoints ↔
        p.advert ∈ ((s.nodes n).receiver.table.infoOf (s.nodeID p.owner)).topics)) ∧
      ∀ url ∈ sub.socket.endpoints, s.Serves sub.topicName url := by
  have h := wiring_reachable hids hreach
  refine ⟨fun p hp hne hname => ⟨fun hconnected => ?_, fun hlisted => ?_⟩, fun url hurl => ?_⟩
  · exact h.stored_of_connected hsub hp hne hname hconnected
  · have hpending : ¬ Discovery.Pending (s.nodes n).receiver.task (s.nodeID p.owner) := by
      cases htask : (s.nodes n).receiver.task with
      | announcing id info => exact absurd htask (hevent id info)
      | erasing id ids => exact absurd (by rw [htask]; trivial) hsweep
      | _ => exact not_false
    exact h.connected_of_stored hsub hname hpending hlisted
  · have hholds := h.inv.holds n
    exact hholds.listed sub hsub url (hholds.connected sub hsub url hurl)

/-- The subscriber is connected, and its node has the advert in the table. -/
theorem connections_exact_pair :
    tcpUrl (ascii "10.0.0.1") 5555 ∈ exampleSubscriber.socket.endpoints ↔
      (⟨ascii "chat", ascii "10.0.0.1", 5555⟩ : SocketInfo) ∈
        (((Runs.run (exchange fun _ => true) examplePair exampleExchange).nodes
          false).receiver.table.infoOf (generateUUID 1 0 0 0)).topics :=
  (connections_exact pairConfig_ids (settled_examplePair.run pairConfig_ids exampleExchange).reach
    (n := false) id (fun _ _ => ReceiveTask.noConfusion) exampleSubscriber_mem).1
    ⟨true, ⟨ascii "chat", ascii "10.0.0.1", 5555⟩, []⟩ (List.mem_singleton_self _)
    Bool.noConfusion rfl

end Lan

end ZeroLanCom
