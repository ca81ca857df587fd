import ZeroLanCom.System.Coverage

/-!
# What a sweep cuts

Subscribers share connections between nodes by URL, and a removal drops them
node by node. A sweep keeps the connections that are still wanted exactly when
no node that goes shares one of them with a node that stays, up to the first
node whose removal ZeroMQ refuses. The node that is refused stays itself, so
nothing of it may have been cut before.
-/

namespace ZeroLanCom

open Throwing

variable {κ : Type}

/-- The removal of the topic disconnects the subscriber from its URL. -/
def Subscriber.lists (topic : SocketInfo) (sub : Subscriber κ) : Bool :=
  sub.topicName = topic.name && sub.publisherURLs.contains topic.url

/-- The first topic that a subscriber lists, in the order of the loops, and that subscriber. -/
def firstListed (topics : List SocketInfo) (subs : List (Subscriber κ)) :
    Option (SocketInfo × Subscriber κ) :=
  topics.findSome? fun topic =>
    (subs.find? (Subscriber.lists topic)).map fun sub => (topic, sub)

/-- If the first subscriber was connected to the URL under the topic, so is the second. -/
def KeepsUrl (topicName url : Str) (sub sub' : Subscriber κ) : Prop :=
  sub.topicName = topicName → url ∈ sub.socket.endpoints → url ∈ sub'.socket.endpoints

/-- Who does not list the topic is left alone. -/
theorem removeTopic_of_not_lists {topic : SocketInfo} {sub : Subscriber κ}
    (h : sub.lists topic = false) : sub.removeTopic topic = .done sub := by
  unfold Subscriber.removeTopic
  split_ifs with hname hmem
  · rfl
  · simp [Subscriber.lists, not_not.mp hname, hmem] at h
  · rfl

/-- Who lists it is disconnected from its URL. -/
theorem removeTopic_of_lists {topic : SocketInfo} {sub : Subscriber κ}
    (h : sub.lists topic = true) : sub.removeTopic topic = sub.disconnect topic.url := by
  simp only [Subscriber.lists, Bool.and_eq_true, decide_eq_true_eq, List.contains_iff_mem] at h
  rw [Subscriber.removeTopic, if_neg (not_not.mpr h.1), if_neg (not_not.mpr h.2)]

section OneTopic

variable {topic : SocketInfo} {subs : List (Subscriber κ)} {sub : Subscriber κ}

/-- A topic that nobody lists is removed without a change. -/
theorem eachElem_of_nobody (h : subs.find? (Subscriber.lists topic) = none) :
    eachElem (Subscriber.removeTopic topic) subs = .done subs := by
  rw [eachElem_eq_done_iff, List.forall₂_same]
  intro sub hsub
  exact removeTopic_of_not_lists (by simpa using List.find?_eq_none.mp h sub hsub)

/-- If the first who lists the topic is not connected to it, the removal throws there and has
changed nothing. -/
theorem eachElem_of_refused (h : subs.find? (Subscriber.lists topic) = some sub)
    (hnot : topic.url ∉ sub.socket.endpoints) :
    eachElem (Subscriber.removeTopic topic) subs = .threw (.errorT .ENOENT) subs := by
  induction subs with
  | nil => cases h
  | cons x xs ih =>
    rw [eachElem]
    cases hx : x.lists topic with
    | true =>
      obtain rfl : x = sub := by simpa [List.find?_cons, hx] using h
      rw [removeTopic_of_lists hx, Subscriber.disconnect_of_notMem hnot]
    | false =>
      rw [removeTopic_of_not_lists hx, ih (by simpa [List.find?_cons, hx] using h)]
      rfl

/-- If the first who lists it is connected, it is cut off. -/
theorem eachElem_cuts (h : subs.find? (Subscriber.lists topic) = some sub)
    (hmem : topic.url ∈ sub.socket.endpoints) :
    ¬ List.Forall₂ (KeepsUrl topic.name topic.url) subs
      (eachElem (Subscriber.removeTopic topic) subs).state := by
  induction subs with
  | nil => cases h
  | cons x xs ih =>
    rw [eachElem]
    cases hx : x.lists topic with
    | true =>
      obtain rfl : x = sub := by simpa [List.find?_cons, hx] using h
      have hname : x.topicName = topic.name := by
        simp only [Subscriber.lists, Bool.and_eq_true, decide_eq_true_eq,
          List.contains_iff_mem] at hx
        exact hx.1
      rw [removeTopic_of_lists hx, Subscriber.disconnect_of_mem hmem, Outcome.state_map,
        List.forall₂_cons]
      rintro ⟨hkeeps, _⟩
      exact Finset.notMem_erase _ _ (hkeeps hname hmem)
    | false =>
      rw [removeTopic_of_not_lists hx, Outcome.state_map, List.forall₂_cons]
      rintro ⟨_, hrest⟩
      exact ih (by simpa [List.find?_cons, hx] using h) hrest

end OneTopic

section OneNode

variable {info : NodeInfo} {subs : List (Subscriber κ)} {topic : SocketInfo} {sub : Subscriber κ}

/-- The loop over the topics up to the first that somebody lists. -/
theorem removal_reaches (topics : List SocketInfo) (subs : List (Subscriber κ)) :
    (firstListed topics subs = none ∧
        forEach (fun topic => eachElem (Subscriber.removeTopic topic)) topics subs = .done subs) ∨
      ∃ topic sub later, firstListed topics subs = some (topic, sub) ∧
        subs.find? (Subscriber.lists topic) = some sub ∧
        forEach (fun topic => eachElem (Subscriber.removeTopic topic)) topics subs =
          (eachElem (Subscriber.removeTopic topic) subs).bind
            (forEach (fun topic => eachElem (Subscriber.removeTopic topic)) later) := by
  induction topics with
  | nil => exact Or.inl ⟨rfl, rfl⟩
  | cons topic topics ih =>
    cases hfind : subs.find? (Subscriber.lists topic) with
    | some sub =>
      exact Or.inr ⟨topic, sub, topics, by simp [firstListed, hfind], hfind, rfl⟩
    | none =>
      have hskip : firstListed (topic :: topics) subs = firstListed topics subs := by
        simp [firstListed, hfind]
      rw [hskip, forEach_cons, eachElem_of_nobody hfind, Outcome.done_bind]
      exact ih

/-- Nothing of the node is listed: nothing happens. -/
theorem removal_of_none (h : firstListed info.topics subs = none) :
    removeTopicSubscriber info subs = .done subs := by
  rcases removal_reaches info.topics subs with ⟨_, hdone⟩ | ⟨_, _, _, hsome, _⟩
  · exact hdone
  · rw [h] at hsome
    cases hsome

/-- Otherwise everything happens from the first listed topic on. -/
theorem removal_of_some (h : firstListed info.topics subs = some (topic, sub)) :
    subs.find? (Subscriber.lists topic) = some sub ∧ ∃ later,
      removeTopicSubscriber info subs = (eachElem (Subscriber.removeTopic topic) subs).bind
        (forEach (fun topic => eachElem (Subscriber.removeTopic topic)) later) := by
  rcases removal_reaches info.topics subs with ⟨hnone, _⟩ | ⟨τ, x, later, hsome, hfind, hloop⟩
  · rw [h] at hnone
    cases hnone
  · rw [h] at hsome
    cases hsome
    exact ⟨hfind, later, hloop⟩

/-- The first disconnect is refused: the removal throws and has changed nothing. -/
theorem removal_of_refused (h : firstListed info.topics subs = some (topic, sub))
    (hnot : topic.url ∉ sub.socket.endpoints) :
    removeTopicSubscriber info subs = .threw (.errorT .ENOENT) subs := by
  obtain ⟨hfind, later, hremoval⟩ := removal_of_some h
  rw [hremoval, eachElem_of_refused hfind hnot, Outcome.threw_bind]

/-- The first disconnect succeeds: the connection is gone, whatever comes after it. -/
theorem removal_cuts (h : firstListed info.topics subs = some (topic, sub))
    (hmem : topic.url ∈ sub.socket.endpoints) :
    ¬ List.Forall₂ (KeepsUrl topic.name topic.url) subs
      (removeTopicSubscriber info subs).state := by
  obtain ⟨hfind, later, hremoval⟩ := removal_of_some h
  have hcut := eachElem_cuts hfind hmem
  rw [hremoval]
  intro hkeeps
  cases hfirst : eachElem (Subscriber.removeTopic topic) subs with
  | threw e mid =>
    rw [hfirst] at hcut hkeeps
    exact hcut hkeeps
  | done mid =>
    rw [hfirst] at hcut hkeeps
    -- the rest of the loop connects nothing
    have hrest := forEach_eachElem_forall₂ (Subscriber.Reduced.refl later)
      (fun _ _ _ hxy hyz => hxy.trans hyz)
      (fun _ hτ y => y.removeTopic_reduced hτ) mid
    refine hcut ((forall₂_comp_iff.mpr ⟨_, hkeeps, hrest.flip⟩).imp ?_)
    rintro x y ⟨z, hxz, hyz⟩ hname hurl
    exact hyz.cut (hxz hname hurl)

/-- The topic and the subscriber that are found belong together. -/
theorem mem_of_firstListed (h : firstListed info.topics subs = some (topic, sub)) :
    topic ∈ info.topics ∧ sub ∈ subs ∧ sub.topicName = topic.name := by
  obtain ⟨τ, hτ, hmap⟩ := List.exists_of_findSome?_eq_some h
  obtain ⟨x, hfind, heq⟩ := Option.map_eq_some_iff.mp hmap
  cases heq
  have hlists := List.find?_some hfind
  simp only [Subscriber.lists, Bool.and_eq_true, decide_eq_true_eq, List.contains_iff_mem] at hlists
  exact ⟨hτ, List.mem_of_find?_eq_some hfind, hlists.1⟩

end OneNode

/-- Every subscriber that was connected to a URL advertised under its topic after the sweep is
still connected to it. -/
def KeepsWanted (localNodeInfo : NodeInfo) (subs : List (Subscriber κ))
    (p : NodeTable × List (Subscriber κ)) : Prop :=
  List.Forall₂ (fun sub sub' => ∀ url ∈ sub.socket.endpoints,
    url ∈ advertised p.1 localNodeInfo sub.topicName → url ∈ sub'.socket.endpoints) subs p.2

/-- What the nodes offer under a topic, one after the other. -/
def offered (t : NodeTable) (ids : List Str) (topicName : Str) : List Str :=
  urlsUnder topicName ((ids.map t.infoOf).flatMap NodeInfo.topics)

/-- The subscribers after the nodes have been removed. -/
def withoutNodes (t : NodeTable) (ids : List Str) (subs : List (Subscriber κ)) :
    List (Subscriber κ) :=
  subs.map fun sub => sub.without (offered t ids sub.topicName)

/-- No connection of the subscriber is shared between a node that goes and one that stays. -/
def Unshared (t : NodeTable) (localNodeInfo : NodeInfo) (gone : List Str) (sub : Subscriber κ) :
    Prop :=
  ∀ url ∈ sub.socket.endpoints, url ∈ offered t gone sub.topicName →
    url ∉ advertised (t.removeNodes gone) localNodeInfo sub.topicName

/-- The nodes up to the first whose removal is refused go without an error and share nothing
with those that stay, and the first URL of the refused node that somebody lists is one that its
subscriber is not connected to any more. -/
def Spares (t : NodeTable) (localNodeInfo : NodeInfo) (subs : List (Subscriber κ))
    (ids : List Str) : Prop :=
  ∃ gone later, ids = gone ++ later ∧
    (∀ sub ∈ subs, sub.CanLose (offered t gone sub.topicName) ∧
      Unshared t localNodeInfo gone sub) ∧
    ∀ id ∈ later.head?, ∃ topic sub,
      firstListed (t.infoOf id).topics (withoutNodes t gone subs) = some (topic, sub) ∧
        topic.url ∉ sub.socket.endpoints

section Sweep

variable {t : NodeTable} {localNodeInfo : NodeInfo} {subs subs' : List (Subscriber κ)}
  {gone : List Str}

/-- The removals of the nodes, in closed form. -/
theorem removals_of_nodes (hlisted : ∀ sub ∈ subs, sub.Listed) :
    forEach removeTopicSubscriber (gone.map t.infoOf) subs = .done subs' ↔
      (∀ sub ∈ subs, sub.CanLose (offered t gone sub.topicName)) ∧
        subs' = withoutNodes t gone subs :=
  removals_eq_done_iff hlisted

/-- When these nodes go and nothing else is cut, what is wanted is kept exactly when nothing is
shared. -/
theorem keepsWanted_withoutNodes_iff :
    KeepsWanted localNodeInfo subs (t.removeNodes gone, withoutNodes t gone subs) ↔
      ∀ sub ∈ subs, Unshared t localNodeInfo gone sub := by
  rw [KeepsWanted, withoutNodes, List.forall₂_map_right_iff, List.forall₂_same]
  apply forall₂_congr
  intro sub _
  constructor
  · intro h url hurl hoffered hadv
    exact (Finset.mem_sdiff.mp (h url hurl hadv)).2 (List.mem_toFinset.mpr hoffered)
  · intro h url hurl hadv
    exact Finset.mem_sdiff.mpr ⟨hurl, fun hoffered =>
      h url hurl (List.mem_toFinset.mp hoffered) hadv⟩

/-- An entry without topics that a refused removal leaves behind advertises nothing. -/
theorem keepsWanted_touchInfo (id : Str) :
    KeepsWanted localNodeInfo subs (t.touchInfo id, subs') ↔
      KeepsWanted localNodeInfo subs (t, subs') := by
  simp only [KeepsWanted, advertised, remoteURLs_touchInfo]

/-- What is kept at the end of a removal was there at its start. -/
theorem keepsWanted_before_removal {info : NodeInfo} {mid : List (Subscriber κ)}
    (h : KeepsWanted localNodeInfo subs (t, (removeTopicSubscriber info mid).state)) :
    KeepsWanted localNodeInfo subs (t, mid) := by
  have hreduced := (removeTopicSubscriber_reduced info mid).flip
  refine (forall₂_comp_iff.mpr ⟨_, h, hreduced⟩).imp ?_
  rintro sub sub' ⟨z, hkeeps, hr⟩ url hurl hadv
  exact hr.cut (hkeeps url hurl hadv)

/-- A node that offers a topic and does not go still advertises it. -/
theorem advertised_of_stays {id : Str} (hid : id ∉ gone) {topic : SocketInfo}
    (htopic : topic ∈ (t.infoOf id).topics) :
    topic.url ∈ advertised (t.removeNodes gone) localNodeInfo topic.name := by
  cases hnode : t.nodesInfo.lookup id with
  | none => simp [hnode] at htopic
  | some info =>
    rw [NodeTable.infoOf_of_lookup hnode] at htopic
    refine mem_advertised.mpr (Or.inl ⟨id, info, ?_, mem_urlsUnder.mpr ⟨topic, htopic, rfl, rfl⟩⟩)
    rw [NodeTable.lookup_removeNodes, if_neg hid, hnode]

/-- A removal that throws although what is wanted is kept was refused at once. -/
theorem refused_at_once {id : Str} (hid : id ∉ gone) {e : Exn}
    (hthrew : removeTopicSubscriber (t.infoOf id) (withoutNodes t gone subs) = .threw e subs')
    (hkeeps : KeepsWanted localNodeInfo subs (t.removeNodes gone, subs')) :
    ∃ topic sub, firstListed (t.infoOf id).topics (withoutNodes t gone subs) = some (topic, sub) ∧
      topic.url ∉ sub.socket.endpoints := by
  cases hfirst : firstListed (t.infoOf id).topics (withoutNodes t gone subs) with
  | none => simp [removal_of_none hfirst] at hthrew
  | some p =>
    obtain ⟨topic, sub⟩ := p
    refine ⟨topic, sub, rfl, fun hmem => ?_⟩
    -- the refused node stays, so the connection that was cut is still wanted
    obtain ⟨htopic, _, _⟩ := mem_of_firstListed hfirst
    have hadv : topic.url ∈ advertised (t.removeNodes gone) localNodeInfo topic.name :=
      advertised_of_stays hid htopic
    apply removal_cuts hfirst hmem
    rw [hthrew, withoutNodes, List.forall₂_map_left_iff]
    apply hkeeps.imp
    intro x y hxy hname hurl
    have hname : x.topicName = topic.name := hname
    exact hxy topic.url (Finset.mem_sdiff.mp hurl).1 (hname ▸ hadv)

end Sweep

section Iff

variable {t : NodeTable} {localNodeInfo : NodeInfo} {subs : List (Subscriber κ)}
  {order : MapOrder} {now : Nat}

/-- If the removals spare what is still wanted, the sweep does. -/
theorem keepsWanted_of_spares (hlisted : ∀ sub ∈ subs, sub.Listed)
    (h : Spares t localNodeInfo subs (t.toRemove order now)) :
    KeepsWanted localNodeInfo subs (checkHeartbeats nodeRemoveEvent order now (t, subs)).state := by
  obtain ⟨gone, later, hids, hgone, hrefused⟩ := h
  have hdone : forEach (nodeRemoveEvent (κ := κ)).trigger (gone.map t.infoOf) subs =
      .done (withoutNodes t gone subs) := by
    rw [trigger_nodeRemoveEvent]
    exact (removals_of_nodes hlisted).mpr ⟨fun sub hsub => (hgone sub hsub).1, rfl⟩
  have hkeeps : KeepsWanted localNodeInfo subs (t.removeNodes gone, withoutNodes t gone subs) :=
    keepsWanted_withoutNodes_iff.mpr fun sub hsub => (hgone sub hsub).2
  cases later with
  | nil =>
    rw [List.append_nil] at hids
    have hsweep : checkHeartbeats nodeRemoveEvent order now (t, subs) =
        .done (t.removeNodes gone, withoutNodes t gone subs) := by
      rw [checkHeartbeats_eq_done_iff, hids]
      exact ⟨_, hdone, rfl⟩
    rw [hsweep]
    exact hkeeps
  | cons id later =>
    obtain ⟨topic, sub, hfirst, hnot⟩ := hrefused id rfl
    have hsweep : checkHeartbeats nodeRemoveEvent order now (t, subs) = .threw (.errorT .ENOENT)
        ((t.removeNodes gone).touchInfo id, withoutNodes t gone subs) := by
      rw [checkHeartbeats_eq_threw_iff]
      refine ⟨gone, id, later, _, _, hids, hdone, ?_, rfl⟩
      rw [trigger_nodeRemoveEvent]
      exact removal_of_refused hfirst hnot
    rw [hsweep]
    exact (keepsWanted_touchInfo id).mpr hkeeps

/-- If the sweep leaves what is still wanted, the removals have spared it. -/
theorem spares_of_keepsWanted (hlisted : ∀ sub ∈ subs, sub.Listed)
    (h : KeepsWanted localNodeInfo subs
      (checkHeartbeats nodeRemoveEvent order now (t, subs)).state) :
    Spares t localNodeInfo subs (t.toRemove order now) := by
  cases hsweep : checkHeartbeats nodeRemoveEvent order now (t, subs) with
  | done p =>
    obtain ⟨s, hs, rfl⟩ := checkHeartbeats_eq_done_iff.mp hsweep
    rw [trigger_nodeRemoveEvent] at hs
    obtain ⟨hlose, rfl⟩ := (removals_of_nodes hlisted).mp hs
    rw [hsweep] at h
    have hunshared := keepsWanted_withoutNodes_iff.mp h
    exact ⟨_, [], (List.append_nil _).symm,
      fun sub hsub => ⟨hlose sub hsub, hunshared sub hsub⟩, fun _ hid => by cases hid⟩
  | threw e p =>
    obtain ⟨gone, id, later, s, s', hids, hs, hthrew, rfl⟩ :=
      checkHeartbeats_eq_threw_iff.mp hsweep
    rw [trigger_nodeRemoveEvent] at hs hthrew
    obtain ⟨hlose, rfl⟩ := (removals_of_nodes hlisted).mp hs
    rw [hsweep] at h
    have hkeeps := (keepsWanted_touchInfo id).mp h
    have hid : id ∉ gone := by
      have hnodup := t.nodup_toRemove order now
      rw [hids] at hnodup
      exact fun hmem => List.disjoint_of_nodup_append hnodup hmem (List.mem_cons_self ..)
    have hremoval : KeepsWanted localNodeInfo subs (t.removeNodes gone,
        (removeTopicSubscriber (t.infoOf id) (withoutNodes t gone subs)).state) := by
      rw [hthrew]
      exact hkeeps
    have hunshared := keepsWanted_withoutNodes_iff.mp (keepsWanted_before_removal hremoval)
    refine ⟨gone, id :: later, hids,
      fun sub hsub => ⟨hlose sub hsub, hunshared sub hsub⟩, fun k hk => ?_⟩
    obtain rfl : id = k := by simpa using hk
    exact refused_at_once hid hthrew hkeeps

end Iff

/-- From every reachable state a sweep keeps every connection that is still wanted exactly when
it spares the shared ones. -/
theorem sweep_keeps_wanted_iff {accepts : Str → Bool} {localNode : LocalNode} {s : Discovery κ}
    (hreach : Discovery.Reach accepts (.start localNode) s) (order : MapOrder) (now : Nat) :
    KeepsWanted s.localNode.getLocalNodeInfo s.subs
        (checkHeartbeats nodeRemoveEvent order now (s.receiver.table, s.subs)).state ↔
      Spares s.receiver.table s.localNode.getLocalNodeInfo s.subs
        (s.receiver.table.toRemove order now) :=
  ⟨spares_of_keepsWanted (Discovery.listed_reachable hreach),
    keepsWanted_of_spares (Discovery.listed_reachable hreach)⟩

namespace Discovery

/-- When its only publisher expires, the subscriber loses nothing it still wants. -/
theorem sweep_keeps_wanted_connected :
    KeepsWanted connected.localNode.getLocalNodeInfo connected.subs
      (checkHeartbeats nodeRemoveEvent .stored 4000000000
        (connected.receiver.table, connected.subs)).state := by
  refine (sweep_keeps_wanted_iff (reach_of_clean clean_connected) .stored 4000000000).mpr
    ⟨[imuHeartbeat.nodeId], [], rfl, fun sub hsub => ?_, fun _ h => by cases h⟩
  obtain rfl := List.mem_singleton.mp hsub
  refine ⟨fun url hurl _ => ?_, fun url _ _ hadv => absurd hadv List.not_mem_nil⟩
  obtain rfl : url = imuTopic.url := List.mem_singleton.mp hurl
  exact ⟨by decide, Or.inl (by decide)⟩

/-- The publisher restarts under a new id and announces the same topic again. -/
def restartedHeartbeat : HeartbeatMessage :=
  { imuHeartbeat with nodeId := generateUUID 2 2 2 2 }

/-- Its info has the new id and the old topics. -/
def restartedInfo : NodeInfo := { imuInfo with nodeID := restartedHeartbeat.nodeId }

/-- Four seconds after the first heartbeat of its predecessor. -/
def restarted : Discovery Unit :=
  let heard := connected.receiver.table.noteHeartbeat restartedHeartbeat.nodeId 4000000000
  { connected with receiver :=
      ⟨heard.updateNodeUnlocked restartedHeartbeat.nodeId restartedInfo 4000000000, .idle⟩ }

/-- The successor is heard, fetched and stored, and nobody has swept since. -/
theorem reach_restarted : Reach (fun _ => true) started restarted := by
  have hhear := (reach_of_clean clean_connected).tail
    ⟨true, .receive _ (.hear _ restartedHeartbeat 4000000000) trivial⟩
  have hfetch := hhear.tail
    ⟨true, .receive _ (.fetch _ restartedHeartbeat (some restartedInfo)) trivial⟩
  have hstore := hfetch.tail
    ⟨true, .receive _ (.store _ restartedHeartbeat.nodeId restartedInfo 4000000000) trivial⟩
  exact hstore.tail
    ⟨true, .announce_done (.announce _ restartedHeartbeat.nodeId restartedInfo) rfl rfl⟩

/-- The sweep removes the predecessor, and with it the connection to the restarted node. -/
theorem restart_cuts_wanted_connection :
    ¬ ∀ (s : Discovery Unit) (order : MapOrder) (now : Nat),
      Reach (fun _ => true) started s → s.receiver.task = .idle →
      KeepsWanted s.localNode.getLocalNodeInfo s.subs
        (checkHeartbeats nodeRemoveEvent order now (s.receiver.table, s.subs)).state := by
  intro h
  have hkeeps := h restarted .stored 4000000000 reach_restarted rfl
  have hsweep : checkHeartbeats nodeRemoveEvent .stored 4000000000
      (restarted.receiver.table, restarted.subs) =
        .done (restarted.receiver.table.removeNode imuHeartbeat.nodeId,
          [⟨ascii "imu", [], (), ⟨∅⟩⟩]) := rfl
  rw [hsweep] at hkeeps
  cases hkeeps with
  | cons hsub _ => exact absurd (hsub imuTopic.url (by decide) (by decide)) (by decide)

end Discovery

end ZeroLanCom
