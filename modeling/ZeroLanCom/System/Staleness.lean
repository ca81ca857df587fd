import Mathlib.Data.List.Count
import ZeroLanCom.System.Coverage

/-!
# No stale connection

Updates only add URLs and removals go by the last stored info of a node, so a
URL that a node drops between two versions stays listed for good. As long as
nodes keep their topics, as `registerLocalTopic` makes them, no subscriber
lists a URL more often than it is advertised.
-/

namespace ZeroLanCom

open Throwing

variable {κ : Type}

namespace Discovery

/-- The table without the node whose removal callback has already run. -/
def settled (r : Receiver) : NodeTable :=
  match r.task with
  | .erasing id _ => r.table.removeNode id
  | _ => r.table

/-- No URL is in the list more often than it is advertised under the topic. -/
def Bounded (r : Receiver) (localNode : LocalNode) (topicName : Str) (urls : List Str) : Prop :=
  ∀ url, urls.count url ≤
    (advertised (settled r) localNode.getLocalNodeInfo topicName).count url

/-- The info about to be stored keeps the topics of the entry it replaces, each as often. -/
def KeepsTopics (r : Receiver) : Prop :=
  ∀ id info, r.task = .storing id info → (r.table.infoOf id).topics.Subperm info.topics

/-- What bounds every list, and what a registration has found. -/
structure FreshInv (s : Discovery κ) : Prop where
  keeps : KeepsTopics s.receiver
  listed : ∀ sub ∈ s.subs, sub.Listed
  subs : ∀ sub ∈ s.subs, Bounded s.receiver s.localNode sub.topicName sub.publisherURLs
  found : ∀ topicName callback urls, s.registration = .read topicName callback urls →
    Bounded s.receiver s.localNode topicName urls
  announcing : ∀ id info, s.receiver.task = .announcing id info →
    s.receiver.table.nodesInfo.lookup id = some info

/-- With more adverts of each URL, a list stays bounded. -/
theorem Bounded.of_adverts {r r' : Receiver} {localNode localNode' : LocalNode} {topicName : Str}
    {urls : List Str} (h : Bounded r localNode topicName urls)
    (hmore : ∀ url, (advertised (settled r) localNode.getLocalNodeInfo topicName).count url ≤
      (advertised (settled r') localNode'.getLocalNodeInfo topicName).count url) :
    Bounded r' localNode' topicName urls :=
  fun url => (h url).trans (hmore url)

/-- More adverts in the table are more adverts. -/
theorem count_advertised_mono {t t' : NodeTable} (localNodeInfo : NodeInfo) {topicName url : Str}
    (h : (remoteURLs t topicName).count url ≤ (remoteURLs t' topicName).count url) :
    (advertised t localNodeInfo topicName).count url ≤
      (advertised t' localNodeInfo topicName).count url := by
  simp only [advertised, List.count_append]
  exact Nat.add_le_add_right h _

/-- A topic that is published adds an advert. -/
theorem count_advertised_publish (t : NodeTable) (localNode : LocalNode) (name : Str)
    (port : UInt16) (topicName url : Str) :
    (advertised t localNode.getLocalNodeInfo topicName).count url ≤
      (advertised t (localNode.registerLocalTopic name port).getLocalNodeInfo topicName).count
        url := by
  have hlocal : (localNode.getLocalNodeInfo.topics).Sublist
      ((localNode.registerLocalTopic name port).getLocalNodeInfo.topics) :=
    List.sublist_append_left _ _
  simp only [advertised, List.count_append]
  exact Nat.add_le_add_left (((hlocal.filter _).map SocketInfo.url).count_le url) _

/-- Outside of callbacks the receive task only adds adverts, while nodes keep their topics. -/
theorem adverts_of_quiet {r r' : Receiver} {l : ReceiveLabel} (hstep : ReceiveStep r l r')
    (hquiet : l.Quiet) (hkeeps : KeepsTopics r) (topicName url : Str) :
    (remoteURLs (settled r) topicName).count url ≤
      (remoteURLs (settled r') topicName).count url := by
  cases hstep with
  | hear t heartbeat now => split_ifs <;> exact le_rfl
  | fetch t heartbeat result => cases result <;> exact le_rfl
  | store t id info now => exact count_remoteURLs_mono (hkeeps id info rfl) topicName url now
  | announce t id info => exact absurd hquiet not_false
  | sweep t order now => exact le_rfl
  | remove t id ids => exact absurd hquiet not_false
  | removeThrows t id ids => exact absurd hquiet not_false
  | erase t id ids => exact le_rfl
  | sweepEnds t => exact le_rfl

/-- An update adds only what the announced node advertises, and only once. -/
theorem bounded_of_announce (accepts : Str → Bool) {r r' : Receiver} {info : NodeInfo}
    {localNode : LocalNode} {subs : List (Subscriber κ)}
    (hstep : ReceiveStep r (.announced info) r')
    (hstored : ∀ id info, r.task = .announcing id info → r.table.nodesInfo.lookup id = some info)
    (hsubs : ∀ sub ∈ subs, Bounded r localNode sub.topicName sub.publisherURLs) :
    ∀ sub' ∈ (updateTopicSubscriber accepts info subs).state,
      Bounded r' localNode sub'.topicName sub'.publisherURLs := by
  intro sub' hsub' url
  obtain ⟨sub, hsub, hu⟩ := forall₂_mem_right (updateTopicSubscriber_updated accepts info subs)
    hsub'
  rw [hu.name]
  cases hstep with
  | announce t id =>
    rcases hu.adds url with hold | ⟨honce, hurl⟩
    · exact hold.trans (hsubs sub hsub url)
    · have hmem : url ∈ advertised t localNode.getLocalNodeInfo sub.topicName :=
        mem_advertised.mpr (Or.inl ⟨id, info, hstored id info rfl, hurl⟩)
      exact honce.trans (List.count_pos_iff.mpr hmem)

/-- A removal that returns takes every URL out as often as the node advertises it. -/
theorem bounded_of_remove {r r' : Receiver} {info : NodeInfo} {returns : Bool}
    {localNode : LocalNode} {subs : List (Subscriber κ)}
    (hstep : ReceiveStep r (.removing info returns) r')
    (hreturns : (removeTopicSubscriber info subs).returned = returns)
    (hlisted : ∀ sub ∈ subs, sub.Listed)
    (hsubs : ∀ sub ∈ subs, Bounded r localNode sub.topicName sub.publisherURLs) :
    ∀ sub' ∈ (removeTopicSubscriber info subs).state,
      Bounded r' localNode sub'.topicName sub'.publisherURLs := by
  intro sub' hsub' url
  cases hstep with
  | remove t id ids =>
    have hdone := Outcome.returned_iff.mp hreturns
    rw [((removeTopicSubscriber_eq_done_iff hlisted).mp hdone).2] at hsub'
    obtain ⟨sub, hsub, rfl⟩ := List.mem_map.mp hsub'
    have hold := hsubs sub hsub url
    simp only [settled, advertised, List.count_append] at hold ⊢
    rw [count_remoteURLs_removeNode t id] at hold
    simp only [Subscriber.without, List.count_diff]
    omega
  | removeThrows t id ids =>
    obtain ⟨sub, hsub, hr⟩ := forall₂_mem_right
      (removeTopicSubscriber_reduced (t.infoOf id) subs) hsub'
    rw [hr.name]
    refine (hr.fewer.count_le url).trans ((hsubs sub hsub url).trans ?_)
    exact count_advertised_mono _ (by simp only [settled, remoteURLs_touchInfo, le_refl])

/-- A step of any thread, while the nodes keep their topics. -/
def GrowStep (accepts : Str → Bool) (s s' : Discovery κ) : Prop :=
  (∃ ok, Step accepts s ok s') ∧ KeepsTopics s'.receiver

/-- There is nobody to list anything. -/
theorem freshInv_start (localNode : LocalNode) : FreshInv (start localNode : Discovery κ) where
  keeps _ _ h := by cases h
  listed _ h := absurd h List.not_mem_nil
  subs _ h := absurd h List.not_mem_nil
  found _ _ _ h := by cases h
  announcing _ _ h := by cases h

/-- No step of any thread lists what nobody advertises, while the nodes keep their topics. -/
theorem freshInv_step {accepts : Str → Bool} {s s' : Discovery κ} (h : s.FreshInv)
    (hgrow : GrowStep accepts s s') : s'.FreshInv := by
  obtain ⟨⟨ok, hstep⟩, hkeeps⟩ := hgrow
  have hlisted := listed_step h.listed hstep
  cases hstep with
  | publish name port =>
    have hmore := count_advertised_publish (settled s.receiver) s.localNode name port
    exact ⟨hkeeps, hlisted, fun sub hsub => (h.subs sub hsub).of_adverts (hmore _),
      fun topicName callback urls hr => (h.found _ _ _ hr).of_adverts (hmore _), h.announcing⟩
  | lock topicName callback hfree =>
    exact ⟨hkeeps, hlisted, h.subs, fun _ _ _ hr => (by cases hr), h.announcing⟩
  | read order hlocked hshared =>
    refine ⟨hkeeps, hlisted, h.subs, fun topicName callback urls hr url => ?_, h.announcing⟩
    cases hr
    rw [(findTopicURLs_perm s.receiver.table _ order _).count_eq]
    cases htask : s.receiver.task with
    | erasing id ids => exact absurd (by rw [htask]; trivial) hshared
    | _ => simp only [settled, htask, le_refl]
  | @connect topicName callback urls hread =>
    have hnew := h.found topicName callback urls hread
    exact ⟨hkeeps, hlisted, registerTopicSubscriber_mem hnew h.subs,
      fun _ _ _ hr => (by cases hr), h.announcing⟩
  | receive hr hquiet =>
    have hmore := fun topicName url => count_advertised_mono s.localNode.getLocalNodeInfo
      (adverts_of_quiet hr hquiet h.keeps topicName url)
    exact ⟨hkeeps, hlisted, fun sub hsub => (h.subs sub hsub).of_adverts (hmore _),
      fun topicName callback urls hread => (h.found _ _ _ hread).of_adverts (hmore _),
      (task_of_quiet hr hquiet).2⟩
  | announce hr hfree =>
    refine ⟨hkeeps, hlisted, bounded_of_announce accepts hr h.announcing h.subs,
      fun _ _ _ hread => ?_, fun id info ht => ?_⟩
    · exact absurd (hfree.symm.trans hread) (by simp)
    · exact absurd (ht.symm.trans (task_of_announced hr)) (by simp)
  | remove hr hfree hreturns =>
    refine ⟨hkeeps, hlisted, bounded_of_remove hr hreturns h.listed h.subs,
      fun _ _ _ hread => ?_, fun id info ht => ?_⟩
    · exact absurd (hfree.symm.trans hread) (by simp)
    · exact absurd ht (task_of_removed hr id info)

/-- What has not been erased yet may still be in the table, but not the other way round. -/
theorem lookup_of_settled {r : Receiver} {id : Str} {info : NodeInfo}
    (h : (settled r).nodesInfo.lookup id = some info) :
    r.table.nodesInfo.lookup id = some info := by
  obtain ⟨t, task⟩ := r
  cases task with
  | erasing nodeID ids =>
    simp only [settled, NodeTable.lookup_removeNode] at h
    split_ifs at h
    exact h
  | _ => exact h

/-- While no node drops a topic between two versions, every URL a subscriber lists is
advertised under its topic by a node in the table or by the local node, in every state. -/
theorem no_stale_connection {accepts : Str → Bool} {localNode : LocalNode} {s : Discovery κ}
    (hreach : Relation.ReflTransGen (GrowStep accepts) (start localNode) s)
    {sub : Subscriber κ} (hsub : sub ∈ s.subs) {url : Str} (hurl : url ∈ sub.publisherURLs) :
    (∃ id info, s.receiver.table.nodesInfo.lookup id = some info ∧
        ∃ topic ∈ info.topics, topic.name = sub.topicName ∧ topic.url = url) ∨
      ∃ topic ∈ s.localNode.getLocalNodeInfo.topics,
        topic.name = sub.topicName ∧ topic.url = url := by
  have hinv : s.FreshInv := Runs.reachable_invariant (I := FreshInv) (fun _ _ => freshInv_step)
    hreach (freshInv_start localNode)
  have hcount := (List.count_pos_iff.mpr hurl).trans_le (hinv.subs sub hsub url)
  rcases mem_advertised.mp (List.count_pos_iff.mp hcount) with ⟨id, info, hid, hu⟩ | hu
  · exact Or.inl ⟨id, info, lookup_of_settled hid, mem_urlsUnder.mp hu⟩
  · exact Or.inr (mem_urlsUnder.mp hu)

/-- Another publisher of the topic, at the same node. -/
def movedTopic : SocketInfo := ⟨ascii "imu", ascii "10.0.0.2", 5556⟩

/-- The second version of the node, which keeps its first topic and has gained another. -/
def grownInfo : NodeInfo := { imuInfo with infoID := 2, topics := [movedTopic, imuTopic] }

/-- The heartbeat that announces a second version. -/
def movedHeartbeat : HeartbeatMessage := { imuHeartbeat with infoId := 2 }

/-- The subscriber after the update for the second version. -/
def staleSubscriber : Subscriber Unit :=
  ⟨ascii "imu", [imuTopic.url, movedTopic.url], (), ⟨{movedTopic.url, imuTopic.url}⟩⟩

/-- The process after it has stored and announced that version. -/
def grown : Discovery Unit :=
  { connected with
    receiver :=
      ⟨(connected.receiver.table.noteHeartbeat movedHeartbeat.nodeId 1).updateNodeUnlocked
        movedHeartbeat.nodeId grownInfo 1, .idle⟩
    subs := [staleSubscriber] }

/-- Nothing is about to be stored. -/
theorem keepsTopics_of_task {r : Receiver} (h : ∀ id info, r.task ≠ .storing id info) :
    KeepsTopics r := fun id info ht => absurd ht (h id info)

/-- Both versions are heard of, fetched, stored and announced. -/
theorem grow_grown : Relation.ReflTransGen (GrowStep fun _ => true) started grown := by
  have hidle : ∀ t, KeepsTopics ⟨t, .idle⟩ := fun _ => keepsTopics_of_task fun _ _ => by simp
  have hother : ∀ t id info, KeepsTopics ⟨t, .announcing id info⟩ :=
    fun _ _ _ => keepsTopics_of_task fun _ _ => by simp
  have hfetching : ∀ t heartbeat, KeepsTopics ⟨t, .fetching heartbeat⟩ :=
    fun _ _ => keepsTopics_of_task fun _ _ => by simp
  have hlock := Relation.ReflTransGen.refl.tail (r := GrowStep fun _ => true)
    ⟨⟨true, .lock started (ascii "imu") () rfl⟩, hidle _⟩
  have hread := hlock.tail ⟨⟨true, .read _ .stored rfl not_false⟩, hidle _⟩
  have hlistening := hread.tail ⟨⟨true, .connect_done rfl rfl⟩, hidle _⟩
  -- the first version, over no topics at all
  have hhear := hlistening.tail
    ⟨⟨true, .receive _ (.hear _ imuHeartbeat 0) trivial⟩, hfetching _ _⟩
  have hfetch := hhear.tail
    ⟨⟨true, .receive _ (.fetch _ imuHeartbeat (some imuInfo)) trivial⟩, fun id info ht => by
      cases ht
      exact List.nil_subperm⟩
  have hstore := hfetch.tail
    ⟨⟨true, .receive _ (.store _ imuHeartbeat.nodeId imuInfo 0) trivial⟩, hother _ _ _⟩
  have hconnected := hstore.tail
    ⟨⟨true, .announce_done (.announce _ imuHeartbeat.nodeId imuInfo) rfl rfl⟩, hidle _⟩
  -- the second one, which keeps the topic of the first
  have hagain := hconnected.tail
    ⟨⟨true, .receive _ (.hear _ movedHeartbeat 1) trivial⟩, hfetching _ _⟩
  have hrefetch := hagain.tail
    ⟨⟨true, .receive _ (.fetch _ movedHeartbeat (some grownInfo)) trivial⟩, fun id info ht => by
      cases ht
      exact List.Sublist.subperm (List.sublist_cons_self movedTopic [imuTopic])⟩
  have hrestore := hrefetch.tail
    ⟨⟨true, .receive _ (.store _ movedHeartbeat.nodeId grownInfo 1) trivial⟩, hother _ _ _⟩
  exact hrestore.tail
    ⟨⟨true, .announce_done (.announce _ movedHeartbeat.nodeId grownInfo) rfl rfl⟩, hidle _⟩

/-- The subscriber lists the URLs of both versions, and each is advertised in the table. -/
theorem no_stale_connection_grown :
    ∃ sub ∈ grown.subs, sub.publisherURLs = [imuTopic.url, movedTopic.url] ∧
      ∀ url ∈ sub.publisherURLs,
        (∃ id info, grown.receiver.table.nodesInfo.lookup id = some info ∧
            ∃ topic ∈ info.topics, topic.name = sub.topicName ∧ topic.url = url) ∨
          ∃ topic ∈ grown.localNode.getLocalNodeInfo.topics,
            topic.name = sub.topicName ∧ topic.url = url :=
  have hsub : staleSubscriber ∈ grown.subs := List.mem_singleton.mpr rfl
  ⟨staleSubscriber, hsub, rfl, fun _ hurl => no_stale_connection grow_grown hsub hurl⟩

/-- A version in which the topic has moved to the other port instead. -/
def movedInfo : NodeInfo := { imuInfo with infoID := 2, topics := [movedTopic] }

/-- The process after it has stored and announced that one. -/
def moved : Discovery Unit :=
  { connected with
    receiver :=
      ⟨(connected.receiver.table.noteHeartbeat movedHeartbeat.nodeId 1).updateNodeUnlocked
        movedHeartbeat.nodeId movedInfo 1, .idle⟩
    subs := [staleSubscriber] }

/-- The heartbeat of the new version has been heard, and the version stored and announced. -/
theorem reach_moved : Reach (fun _ => true) started moved := by
  have hhear := (reach_of_clean clean_connected).tail
    ⟨true, .receive _ (.hear _ movedHeartbeat 1) trivial⟩
  have hfetch := hhear.tail
    ⟨true, .receive _ (.fetch _ movedHeartbeat (some movedInfo)) trivial⟩
  have hstore := hfetch.tail
    ⟨true, .receive _ (.store _ movedHeartbeat.nodeId movedInfo 1) trivial⟩
  exact hstore.tail
    ⟨true, .announce_done (.announce _ movedHeartbeat.nodeId movedInfo) rfl rfl⟩

/-- The URL of the first version stays listed, although nobody advertises it any more. -/
theorem moved_topic_stays_listed :
    ¬ ∀ s : Discovery Unit, Reach (fun _ => true) started s →
      s.receiver.task = .idle → ∀ sub ∈ s.subs, ∀ url ∈ sub.publisherURLs,
        url ∈ advertised s.receiver.table s.localNode.getLocalNodeInfo sub.topicName := by
  intro h
  have hlisted := h moved reach_moved rfl staleSubscriber (List.mem_singleton.mpr rfl)
    imuTopic.url (List.mem_cons_self ..)
  exact absurd hlisted (by decide)

end Discovery

end ZeroLanCom
