import ZeroLanCom.Sockets.Events

/-!
# Adverts that ZeroMQ rejects

The update loop visits the topics of a node in order, and the first rejected
connect leaves it. The table has the node by then, and the exception ends in
`processHeartbeat`, so nothing repeats the topics behind the rejected one.
-/

namespace ZeroLanCom

open Throwing ZeroMq

variable {κ : Type} {accepts : Str → Bool}

/-- Every subscriber is connected to every URL of its topic that `connect` accepts. -/
def ConnectedToAccepted (accepts : Str → Bool) (topics : List SocketInfo)
    (subs : List (Subscriber κ)) : Prop :=
  ∀ sub ∈ subs, ∀ url ∈ urlsUnder sub.topicName topics, accepts url = true →
    url ∈ sub.socket.endpoints

/-- The URL of the topic is rejected, and some subscriber of it does not list it yet. -/
def SocketInfo.blocks (accepts : Str → Bool) (subs : List (Subscriber κ)) (topic : SocketInfo) :
    Bool :=
  !accepts topic.url && subs.any fun sub =>
    sub.topicName == topic.name && !sub.publisherURLs.contains topic.url

/-- The topics before the first one that blocks. -/
def unblockedTopics (accepts : Str → Bool) (subs : List (Subscriber κ))
    (topics : List SocketInfo) : List SocketInfo :=
  topics.takeWhile fun topic => !topic.blocks accepts subs

/-- A topic is in the way if it is refused and somebody subscribes to it who does not list it yet.
-/
theorem SocketInfo.blocks_eq_true_iff {subs : List (Subscriber κ)} {topic : SocketInfo} :
    topic.blocks accepts subs = true ↔ accepts topic.url = false ∧
      ∃ sub ∈ subs, sub.topicName = topic.name ∧ topic.url ∉ sub.publisherURLs := by
  simp [blocks]

namespace Subscriber

/-- The round of a topic throws exactly if it has to connect to a URL that is rejected. -/
theorem updateTopic_returns_iff {topic : SocketInfo} {sub : Subscriber κ} :
    (∃ sub', sub.updateTopic accepts topic = .done sub') ↔
      (accepts topic.url = false → sub.topicName = topic.name →
        topic.url ∈ sub.publisherURLs) := by
  rcases updateTopic_cases accepts topic sub with
    ⟨hlisted, hround⟩ | ⟨hname, hmem, ⟨hacc, hround⟩ | ⟨hacc, hround⟩⟩
  · exact iff_of_true ⟨sub, hround⟩ fun _ => hlisted
  · refine iff_of_false (fun h => ?_) fun h => hmem (h hacc hname)
    obtain ⟨_, h⟩ := h
    rw [hround] at h
    cases h
  · exact iff_of_true ⟨_, hround⟩ fun hrejected => absurd hacc (by simp [hrejected])

/-- The round of a rejected URL changes nothing. -/
theorem updateTopic_of_rejects {topic : SocketInfo} (h : accepts topic.url = false)
    (sub : Subscriber κ) : (sub.updateTopic accepts topic).state = sub := by
  rcases updateTopic_cases accepts topic sub with
    ⟨_, hround⟩ | ⟨_, _, ⟨_, hround⟩ | ⟨hacc, _⟩⟩
  · rw [hround, Outcome.state_done]
  · rw [hround, Outcome.state_threw]
  · rw [h] at hacc
    cases hacc

/-- What decides about blocking does not change along the loop. -/
structure SameRejected (accepts : Str → Bool) (sub sub' : Subscriber κ) : Prop where
  name : sub'.topicName = sub.topicName
  listed : ∀ url, accepts url = false → (url ∈ sub'.publisherURLs ↔ url ∈ sub.publisherURLs)

/-- An update lists no refused URL, so the topics that are in the way stay in it. -/
theorem updateTopic_sameRejected (accepts : Str → Bool) (topic : SocketInfo)
    (sub : Subscriber κ) :
    sub.SameRejected accepts (sub.updateTopic accepts topic).state := by
  rcases updateTopic_cases accepts topic sub with
    ⟨_, hround⟩ | ⟨_, _, ⟨_, hround⟩ | ⟨hacc, hround⟩⟩
  · rw [hround]
    exact ⟨rfl, fun _ _ => Iff.rfl⟩
  · rw [hround]
    exact ⟨rfl, fun _ _ => Iff.rfl⟩
  · rw [hround]
    refine ⟨rfl, fun url hurl => ?_⟩
    have hne : url ≠ topic.url := by
      rintro rfl
      rw [hacc] at hurl
      cases hurl
    simp [hne]

/-- A round that returns connects the URL of the topic if it was not listed before. -/
theorem mem_endpoints_of_round {topic : SocketInfo} {sub sub' : Subscriber κ}
    (h : sub.updateTopic accepts topic = .done sub') (url : Str) :
    (url ∈ sub'.socket.endpoints ↔ url ∈ sub.socket.endpoints ∨
      url ∉ sub.publisherURLs ∧ topic.name = sub.topicName ∧ topic.url = url) ∧
    (url ∈ sub'.publisherURLs ↔ url ∈ sub.publisherURLs ∨
      topic.name = sub.topicName ∧ topic.url = url) := by
  rcases updateTopic_cases accepts topic sub with
    ⟨hlisted, hround⟩ | ⟨hname, hmem, ⟨_, hround⟩ | ⟨_, hround⟩⟩
  · rw [hround] at h
    cases h
    constructor
    · refine ⟨Or.inl, fun hor => hor.resolve_right ?_⟩
      rintro ⟨hnot, heq, rfl⟩
      exact hnot (hlisted heq.symm)
    · refine ⟨Or.inl, fun hor => hor.elim id ?_⟩
      rintro ⟨heq, rfl⟩
      exact hlisted heq.symm
  · rw [hround] at h
    cases h
  · rw [hround] at h
    cases h
    constructor
    · rw [Finset.mem_insert, or_comm]
      refine or_congr_right ⟨?_, fun hor => hor.2.2.symm⟩
      rintro rfl
      exact ⟨hmem, hname.symm, rfl⟩
    · simp [hname, eq_comm]

/-- So a loop that returns connects the URLs of its topics that were not listed before. -/
theorem mem_endpoints_of_loop {topics : List SocketInfo} {sub sub' : Subscriber κ}
    (h : forEach (updateTopic accepts) topics sub = .done sub') {url : Str} :
    url ∈ sub'.socket.endpoints ↔ url ∈ sub.socket.endpoints ∨
      url ∉ sub.publisherURLs ∧ url ∈ urlsUnder sub.topicName topics := by
  induction topics generalizing sub with
  | nil =>
    cases h
    simp [urlsUnder]
  | cons topic topics ih =>
    obtain ⟨next, hhead, htail⟩ := Outcome.bind_eq_done_iff.mp h
    obtain ⟨hends, hlist⟩ := mem_endpoints_of_round hhead url
    have hname : next.topicName = sub.topicName := by
      have hround := (updateTopic_sameRejected accepts topic sub).name
      rwa [hhead] at hround
    rw [ih htail, hends, hlist, hname, urlsUnder_cons]
    by_cases htopic : topic.name = sub.topicName
    · rw [if_pos htopic, List.mem_cons]
      by_cases hurl : topic.url = url
      · simp [htopic, hurl]
      · simp [hurl, Ne.symm hurl]
    · rw [if_neg htopic]
      simp [htopic]

end Subscriber

/-- Subscribers that agree on the rejected URLs are blocked by the same topics. -/
theorem blocks_congr {subs subs' : List (Subscriber κ)}
    (h : List.Forall₂ (Subscriber.SameRejected accepts) subs subs') (topic : SocketInfo) :
    topic.blocks accepts subs' = topic.blocks accepts subs := by
  rw [Bool.eq_iff_iff, SocketInfo.blocks_eq_true_iff, SocketInfo.blocks_eq_true_iff]
  refine and_congr_right fun hrej => ⟨?_, ?_⟩
  · rintro ⟨sub', hsub', hname, hnot⟩
    obtain ⟨sub, hsub, hsame⟩ := forall₂_mem_right h hsub'
    exact ⟨sub, hsub, hsame.name ▸ hname, fun hl => hnot ((hsame.listed _ hrej).mpr hl)⟩
  · rintro ⟨sub, hsub, hname, hnot⟩
    obtain ⟨sub', hsub', hsame⟩ := forall₂_mem_left h hsub
    exact ⟨sub', hsub', hsame.name.trans hname, fun hl => hnot ((hsame.listed _ hrej).mp hl)⟩

/-- The round of a topic that does not block returns. -/
theorem round_returns {subs : List (Subscriber κ)} {topic : SocketInfo}
    (h : topic.blocks accepts subs = false) :
    ∃ subs', eachElem (Subscriber.updateTopic accepts topic) subs = .done subs' ∧
      List.Forall₂ (Subscriber.SameRejected accepts) subs subs' := by
  have hreturns : ∀ sub ∈ subs, ∃ sub', sub.updateTopic accepts topic = .done sub' := by
    intro sub hsub
    refine Subscriber.updateTopic_returns_iff.mpr fun hrej hname => ?_
    by_contra hnot
    have hblocks := SocketInfo.blocks_eq_true_iff.mpr ⟨hrej, sub, hsub, hname, hnot⟩
    rw [h] at hblocks
    cases hblocks
  obtain ⟨subs', hdone, _⟩ := eachElem_returns (Q := fun _ => True)
    (P := fun sub => ∃ sub', Subscriber.updateTopic accepts topic sub = .done sub')
    (fun _ hsub => hsub.imp fun _ h => ⟨h, trivial⟩) hreturns
  refine ⟨subs', hdone, ?_⟩
  have hsame := eachElem_state_forall₂ (fun _ => ⟨rfl, fun _ _ => Iff.rfl⟩)
    (Subscriber.updateTopic_sameRejected accepts topic) subs
  rwa [hdone] at hsame

/-- The round of a topic that blocks throws, and no subscriber has changed. -/
theorem round_threw {subs : List (Subscriber κ)} {topic : SocketInfo}
    (h : topic.blocks accepts subs = true) :
    ∃ e, eachElem (Subscriber.updateTopic accepts topic) subs = .threw e subs := by
  obtain ⟨hrej, sub, hsub, hname, hnot⟩ := SocketInfo.blocks_eq_true_iff.mp h
  have hsame : subs = (eachElem (Subscriber.updateTopic accepts topic) subs).state :=
    List.forall₂_eq_eq_eq ▸ eachElem_state_forall₂ (R := Eq) (fun _ => rfl)
      (fun sub => (sub.updateTopic_of_rejects hrej).symm) subs
  cases hround : eachElem (Subscriber.updateTopic accepts topic) subs with
  | threw e subs' =>
    rw [hround] at hsame
    exact ⟨e, by rw [hsame, Outcome.state_threw]⟩
  | done subs' =>
    obtain ⟨sub', _, hdone⟩ := forall₂_mem_left (eachElem_eq_done_iff.mp hround) hsub
    exact absurd (Subscriber.updateTopic_returns_iff.mp ⟨sub', hdone⟩ hrej hname) hnot

/-- The update gets through the topics before the first one that blocks, and stops there. -/
theorem updateTopicSubscriber_state (accepts : Str → Bool) (nodeInfo : NodeInfo)
    (subs : List (Subscriber κ)) :
    forEach (fun topic => eachElem (Subscriber.updateTopic accepts topic))
        (unblockedTopics accepts subs nodeInfo.topics) subs =
      .done (updateTopicSubscriber accepts nodeInfo subs).state := by
  unfold updateTopicSubscriber
  induction nodeInfo.topics generalizing subs with
  | nil => rfl
  | cons topic topics ih =>
    rw [unblockedTopics, List.takeWhile_cons, forEach_cons]
    cases hblocks : topic.blocks accepts subs with
    | true =>
      obtain ⟨e, hround⟩ := round_threw hblocks
      rw [hround]
      rfl
    | false =>
      obtain ⟨subs', hround, hsame⟩ := round_returns hblocks
      have hrest := ih subs'
      simp only [unblockedTopics, blocks_congr hsame] at hrest
      rw [hround, Bool.not_false, if_pos rfl, forEach_cons, hround, Outcome.done_bind,
        Outcome.done_bind]
      exact hrest

/-- What an update connects, exactly. -/
theorem updateTopicSubscriber_connected_iff {nodeInfo : NodeInfo} {subs : List (Subscriber κ)} :
    ConnectedToAccepted accepts nodeInfo.topics
        (updateTopicSubscriber accepts nodeInfo subs).state ↔
      ∀ sub ∈ subs, ∀ url ∈ urlsUnder sub.topicName nodeInfo.topics, accepts url = true →
        url ∈ sub.socket.endpoints ∨ url ∉ sub.publisherURLs ∧
          url ∈ urlsUnder sub.topicName (unblockedTopics accepts subs nodeInfo.topics) := by
  have hloops := forEach_eachElem_eq_done_iff.mp
    (updateTopicSubscriber_state accepts nodeInfo subs)
  have hname : ∀ {sub sub' : Subscriber κ}, forEach (Subscriber.updateTopic accepts)
      (unblockedTopics accepts subs nodeInfo.topics) sub = .done sub' →
      sub'.topicName = sub.topicName := by
    intro sub sub' hloop
    have hupdated := Subscriber.updateTopic_loop_updated accepts
      (unblockedTopics accepts subs nodeInfo.topics) sub
    rw [hloop] at hupdated
    exact hupdated.name
  constructor
  · intro h sub hsub url hurl hacc
    obtain ⟨sub', hsub', hloop⟩ := forall₂_mem_left hloops hsub
    rw [← hname hloop] at hurl
    exact (Subscriber.mem_endpoints_of_loop hloop).mp (h sub' hsub' url hurl hacc)
  · intro h sub' hsub' url hurl hacc
    obtain ⟨sub, hsub, hloop⟩ := forall₂_mem_right hloops hsub'
    rw [hname hloop] at hurl
    exact (Subscriber.mem_endpoints_of_loop hloop).mpr (h sub hsub url hurl hacc)

/-- What an update can connect: the accepted URLs that are connected already, or that nobody had
listed and no blocking topic comes before. -/
def Connectable (accepts : Str → Bool) (topics : List SocketInfo) (subs : List (Subscriber κ)) :
    Prop :=
  ∀ sub ∈ subs, ∀ url ∈ urlsUnder sub.topicName topics, accepts url = true →
    url ∈ sub.socket.endpoints ∨ url ∉ sub.publisherURLs ∧
      url ∈ urlsUnder sub.topicName (unblockedTopics accepts subs topics)

namespace NodeTable

/-- The node is in the table with that version of its info. -/
def HasVersion (t : NodeTable) (nodeID : Str) (infoID : UInt32) : Prop :=
  t.checkNodeIDUnlocked nodeID = true ∧ t.checkNodeInfoIDUnlocked nodeID infoID = true

/-- The version that is written is the version that is there. -/
theorem hasVersion_updateNodeUnlocked (t : NodeTable) (nodeID : Str) (info : NodeInfo)
    (now : Nat) : (t.updateNodeUnlocked nodeID info now).HasVersion nodeID info.infoID := by
  simp [HasVersion, checkNodeIDUnlocked, checkNodeInfoIDUnlocked, updateNodeUnlocked]

/-- Noting a heartbeat leaves the infos alone. -/
theorem hasVersion_noteHeartbeat {t : NodeTable} {nodeID : Str} {infoID : UInt32}
    (h : t.HasVersion nodeID infoID) (noted : Str) (now : Nat) :
    (t.noteHeartbeat noted now).HasVersion nodeID infoID := h

/-- A heartbeat of that version does not fetch. -/
theorem not_fetches_of_hasVersion {t : NodeTable} {c : HeartbeatCall}
    (h : t.HasVersion c.heartbeat.nodeId c.heartbeat.infoId.toUInt32) :
    c.fetches t = false := by
  obtain ⟨hid, hversion⟩ := hasVersion_noteHeartbeat h c.heartbeat.nodeId c.noteTime
  simp [HeartbeatCall.fetches, needsFetch, hid, hversion]

end NodeTable

section Heartbeats

variable {σ : Type*} {nodeUpdateEvent : Event NodeInfo σ}

/-- Heartbeats with the version the table has run no callbacks. -/
theorem run_of_hasVersion {nodeID : Str} {infoID : UInt32} {later : List HeartbeatCall}
    (hlater : ∀ c ∈ later, c.heartbeat.nodeId = nodeID ∧ c.heartbeat.infoId.toUInt32 = infoID)
    {p : NodeTable × σ} (h : p.1.HasVersion nodeID infoID) :
    (Runs.run (heartbeatStep nodeUpdateEvent) p later).2 = p.2 := by
  induction later generalizing p with
  | nil => rfl
  | cons c later ih =>
    obtain ⟨⟨hid, hversion⟩, hrest⟩ := List.forall_mem_cons.mp hlater
    have hquiet : c.fetches p.1 = false := by
      apply NodeTable.not_fetches_of_hasVersion
      rwa [hid, hversion]
    have hstep : heartbeatStep nodeUpdateEvent p c =
        (p.1.noteHeartbeat c.heartbeat.nodeId c.noteTime, p.2) :=
      heartbeatStep_of_noted fun hfetches => absurd hfetches (by simp [hquiet])
    rw [Runs.run_cons, hstep]
    exact ih hrest (NodeTable.hasVersion_noteHeartbeat h _ _)

end Heartbeats

/-- After a node has been stored, and after any number of heartbeats with the version stored, the
subscribers are connected to all of its accepted adverts exactly when these were connectable. -/
theorem bad_adverts_iff (accepts : Str → Bool) {t : NodeTable} {subs : List (Subscriber κ)}
    {first : HeartbeatCall} {info : NodeInfo} (hfetches : first.fetches t = true)
    (hfetched : first.fetched = some info) {later : List HeartbeatCall}
    (hlater : ∀ c ∈ later, c.heartbeat.nodeId = first.heartbeat.nodeId ∧
      c.heartbeat.infoId.toUInt32 = info.infoID) :
    ConnectedToAccepted accepts info.topics
        (Runs.run (heartbeatStep (nodeUpdateEvent accepts)) (t, subs) (first :: later)).2 ↔
      Connectable accepts info.topics subs := by
  have hstored : heartbeatStep (nodeUpdateEvent accepts) (t, subs) first = _ :=
    heartbeatStep_of_stored hfetches hfetched
  have hversion := NodeTable.hasVersion_updateNodeUnlocked
    (t.noteHeartbeat first.heartbeat.nodeId first.noteTime) first.heartbeat.nodeId info
    first.storeTime
  rw [Runs.run_cons, hstored, run_of_hasVersion hlater hversion, trigger_nodeUpdateEvent,
    updateTopicSubscriber_connected_iff]
  exact Iff.rfl

/-- An advert without an address. -/
def badTopic : SocketInfo := ⟨ascii "camera", [], 0⟩

/-- One that anybody can connect to. -/
def goodTopic : SocketInfo := ⟨ascii "imu", ascii "10.0.0.2", 5555⟩

/-- `connect` takes everything but the advert without an address. -/
def acceptsAddress (url : Str) : Bool := url != badTopic.url

/-- Somebody subscribed to each of the topics, and nobody is connected. -/
def waitingSubs : List (Subscriber Unit) :=
  [⟨ascii "camera", [], (), .fresh⟩, ⟨ascii "imu", [], (), .fresh⟩]

/-- The heartbeat of a node with these topics. -/
def advertCall (topics : List SocketInfo) : HeartbeatCall where
  heartbeat := ⟨(0, 1, 0), ascii "a", 7, 6000, ascii "lab"⟩
  nodeIP := ascii "10.0.0.2"
  fetchNodeInfo := fun _ _ => some { nodeID := ascii "a", infoID := 7, topics := topics }
  noteTime := 0
  storeTime := 0

/-- The rejected advert keeps the good one unconnected, also after two more heartbeats. -/
theorem bad_advert_blocks_good :
    ¬ ConnectedToAccepted acceptsAddress [badTopic, goodTopic]
      (Runs.run (heartbeatStep (nodeUpdateEvent acceptsAddress)) (NodeTable.empty, waitingSubs)
        (List.replicate 3 (advertCall [badTopic, goodTopic]))).2 := by
  intro h
  have hsubs : (Runs.run (heartbeatStep (nodeUpdateEvent acceptsAddress))
      (NodeTable.empty, waitingSubs)
      (List.replicate 3 (advertCall [badTopic, goodTopic]))).2 = waitingSubs := rfl
  rw [hsubs] at h
  have hconnected := h ⟨ascii "imu", [], (), .fresh⟩ (by simp [waitingSubs]) goodTopic.url
    (by decide) (by decide)
  exact absurd hconnected (Finset.notMem_empty _)

/-- Behind a good advert nothing is lost. -/
theorem good_advert_connects :
    ConnectedToAccepted acceptsAddress [goodTopic, badTopic]
      (Runs.run (heartbeatStep (nodeUpdateEvent acceptsAddress)) (NodeTable.empty, waitingSubs)
        [advertCall [goodTopic, badTopic], advertCall [goodTopic, badTopic]]).2 := by
  have hfetched : (advertCall [goodTopic, badTopic]).fetched =
      some { nodeID := ascii "a", infoID := 7, topics := [goodTopic, badTopic] } := rfl
  have hconnectable : Connectable acceptsAddress [goodTopic, badTopic] waitingSubs := by
    unfold Connectable
    decide
  exact (bad_adverts_iff acceptsAddress rfl hfetched (by decide)).mpr hconnectable

end ZeroLanCom
