import ZeroLanCom.Sockets.Adverts
import ZeroLanCom.System.Discovery

/-!
# No publisher is missed

A subscriber that registers while a node is being stored or announced sees it
on one of the two paths. The invariant follows both: what every subscriber and
the registration under way have covered so far, up to the node whose event is
the next one to come.
-/

namespace ZeroLanCom

open Throwing

variable {κ : Type}

/-- No topic is advertised twice in the table with one name, address and port. -/
def NodeTable.NoTwin (t : NodeTable) : Prop :=
  (t.nodesInfo.entries.flatMap fun e => e.2.topics).Nodup

/-- Different nodes then never share a URL under a topic. -/
theorem NodeTable.NoTwin.disjoint {t : NodeTable} (h : t.NoTwin) {id id' : Str}
    {info info' : NodeInfo} (hid : t.nodesInfo.lookup id = some info)
    (hid' : t.nodesInfo.lookup id' = some info') (hne : id ≠ id') {topicName url : Str}
    (hurl : url ∈ urlsUnder topicName info.topics) : url ∉ urlsUnder topicName info'.topics := by
  intro hurl'
  obtain ⟨topic, htopic, hname, hu⟩ := mem_urlsUnder.mp hurl
  obtain ⟨topic', htopic', hname', hu'⟩ := mem_urlsUnder.mp hurl'
  obtain rfl := SocketInfo.eq_of_url (hname.trans hname'.symm) (hu.trans hu'.symm)
  unfold NodeTable.NoTwin at h
  -- the first node drawn to the front, the second is among the others
  have hfront := ((entries_perm_of_lookup hid).flatMap_right fun e => e.2.topics).nodup_iff.mp h
  rw [List.flatMap_cons] at hfront
  have hrest : (t.nodesInfo.erase id).lookup id' = some info' := by
    rw [AList.lookup_erase_ne (Ne.symm hne), hid']
  exact List.disjoint_of_nodup_append hfront htopic
    (List.mem_flatMap.mpr ⟨_, AList.mem_lookup_iff.mp hrest, htopic'⟩)

namespace Discovery

/-- The event of the node comes next, or has just been processed ahead of its erasure. -/
def Pending : ReceiveTask → Str → Prop
  | .announcing id _, k => k = id
  | .erasing id _, k => k = id
  | _, _ => False

/-- The URLs include all that any node but the pending one advertises under the topic. -/
def Covers (r : Receiver) (topicName : Str) (urls : List Str) : Prop :=
  ∀ id info, r.table.nodesInfo.lookup id = some info → ¬ Pending r.task id →
    urlsUnder topicName info.topics ⊆ urls

/-- What every list covers, and what a registration has found, with what the sweep and the
registration exclude of each other. -/
structure CoverInv (s : Discovery κ) : Prop where
  noTwin : s.receiver.table.NoTwin
  subs : ∀ sub ∈ s.subs, Covers s.receiver sub.topicName sub.publisherURLs
  found : ∀ topicName callback urls, s.registration = .read topicName callback urls →
    Covers s.receiver topicName urls
  exclusive : ∀ topicName callback urls, s.registration = .read topicName callback urls →
    ∀ id ids, s.receiver.task ≠ .erasing id ids
  announcing : ∀ id info, s.receiver.task = .announcing id info →
    s.receiver.table.nodesInfo.lookup id = some info

/-- Fewer nodes to cover, or more of them pending, is easier. -/
theorem Covers.of_entries {r r' : Receiver} {topicName : Str} {urls : List Str}
    (h : Covers r topicName urls)
    (hentries : ∀ id info, r'.table.nodesInfo.lookup id = some info → ¬ Pending r'.task id →
      r.table.nodesInfo.lookup id = some info ∧ ¬ Pending r.task id) :
    Covers r' topicName urls := by
  intro id info hid hpending
  obtain ⟨hold, hwas⟩ := hentries id info hid hpending
  exact h id info hold hwas

/-- A step of the receive task outside of callbacks brings nothing new to cover, except for the
node it stores, which is pending. -/
theorem entries_of_quiet {r r' : Receiver} {l : ReceiveLabel} (hstep : ReceiveStep r l r')
    (hquiet : l.Quiet) (id : Str) (info : NodeInfo)
    (hid : r'.table.nodesInfo.lookup id = some info) (hpending : ¬ Pending r'.task id) :
    r.table.nodesInfo.lookup id = some info ∧ ¬ Pending r.task id := by
  cases hstep with
  | hear t heartbeat now => exact ⟨hid, not_false⟩
  | fetch t heartbeat result => exact ⟨hid, not_false⟩
  | store t nodeID stored now =>
    have hne : id ≠ nodeID := hpending
    rw [NodeTable.lookup_updateNodeUnlocked, if_neg hne] at hid
    exact ⟨hid, not_false⟩
  | announce t nodeID stored => exact absurd hquiet not_false
  | sweep t order now => exact ⟨hid, not_false⟩
  | remove t nodeID ids => exact absurd hquiet not_false
  | removeThrows t nodeID ids => exact absurd hquiet not_false
  | erase t nodeID ids =>
    rw [NodeTable.lookup_removeNode] at hid
    split_ifs at hid with hne
    exact ⟨hid, hne⟩
  | sweepEnds t => exact ⟨hid, not_false⟩

/-- Such a step neither enters an erasure nor announces what is not stored. -/
theorem task_of_quiet {r r' : Receiver} {l : ReceiveLabel} (hstep : ReceiveStep r l r')
    (hquiet : l.Quiet) :
    (∀ id ids, r'.task ≠ .erasing id ids) ∧
      ∀ id info, r'.task = .announcing id info → r'.table.nodesInfo.lookup id = some info := by
  cases hstep with
  | hear t heartbeat now =>
    refine ⟨fun id ids => ?_, fun id info h => ?_⟩
    · split_ifs <;> simp
    · split_ifs at h
  | fetch t heartbeat result =>
    cases result <;> exact ⟨fun _ _ => by simp, fun _ _ h => by cases h⟩
  | store t nodeID stored now =>
    refine ⟨fun _ _ => by simp, fun id info h => ?_⟩
    cases h
    rw [NodeTable.lookup_updateNodeUnlocked, if_pos rfl]
  | announce t nodeID stored => exact absurd hquiet not_false
  | remove t nodeID ids => exact absurd hquiet not_false
  | removeThrows t nodeID ids => exact absurd hquiet not_false
  | sweep t order now => exact ⟨fun _ _ => by simp, fun _ _ h => by cases h⟩
  | erase t nodeID ids => exact ⟨fun _ _ => by simp, fun _ _ h => by cases h⟩
  | sweepEnds t => exact ⟨fun _ _ => by simp, fun _ _ h => by cases h⟩

/-- After the update event the task is done with the heartbeat. -/
theorem task_of_announced {r r' : Receiver} {info : NodeInfo}
    (hstep : ReceiveStep r (.announced info) r') : r'.task = .idle := by
  cases hstep
  rfl

/-- After a removal event nothing is announced. -/
theorem task_of_removed {r r' : Receiver} {info : NodeInfo} {returns : Bool}
    (hstep : ReceiveStep r (.removing info returns) r') (id : Str) (other : NodeInfo) :
    r'.task ≠ .announcing id other := by
  cases hstep <;> simp

/-- What registration reads covers all nodes in the table. -/
theorem covers_findTopicURLs (r : Receiver) (localNodeInfo : NodeInfo) (order : MapOrder)
    (topicName : Str) :
    Covers r topicName (findTopicURLs r.table localNodeInfo order topicName) := by
  intro id info hid _ url hurl
  rw [(findTopicURLs_perm r.table localNodeInfo order topicName).mem_iff, mem_advertised]
  exact Or.inl ⟨id, info, hid, hurl⟩

/-- A processed update covers the announced node for every subscriber. -/
theorem covers_of_announce {accepts : Str → Bool} {r r' : Receiver} {info : NodeInfo}
    {subs subs' : List (Subscriber κ)} (hstep : ReceiveStep r (.announced info) r')
    (hstored : ∀ id info, r.task = .announcing id info → r.table.nodesInfo.lookup id = some info)
    (hdone : updateTopicSubscriber accepts info subs = .done subs')
    (hsubs : ∀ sub ∈ subs, Covers r sub.topicName sub.publisherURLs) :
    ∀ sub' ∈ subs', Covers r' sub'.topicName sub'.publisherURLs := by
  intro sub' hsub' id other hid _
  have hupdated := updateTopicSubscriber_updated accepts info subs
  rw [hdone] at hupdated
  obtain ⟨sub, hsub, hu⟩ := forall₂_mem_right hupdated hsub'
  cases hstep with
  | announce t nodeID =>
    by_cases hne : id = nodeID
    · subst hne
      obtain rfl : info = other := Option.some.inj ((hstored id info rfl).symm.trans hid)
      exact updateTopicSubscriber_covers hdone hsub'
    · rw [hu.name]
      exact List.Subset.trans (hsubs sub hsub id other hid hne) hu.keeps

/-- A processed removal uncovers no node but the one it removes. -/
theorem covers_of_remove {r r' : Receiver} {info : NodeInfo} {subs : List (Subscriber κ)}
    (hstep : ReceiveStep r (.removing info true) r') (htwin : r.table.NoTwin)
    (hsubs : ∀ sub ∈ subs, Covers r sub.topicName sub.publisherURLs) :
    ∀ sub' ∈ (removeTopicSubscriber info subs).state,
      Covers r' sub'.topicName sub'.publisherURLs := by
  intro sub' hsub' id other hid hpending url hurl
  obtain ⟨sub, hsub, hr⟩ := forall₂_mem_right (removeTopicSubscriber_reduced info subs) hsub'
  rw [hr.name] at hurl
  cases hstep with
  | remove t nodeID ids =>
    have hne : id ≠ nodeID := hpending
    apply hr.keeps url (hsubs sub hsub id other hid not_false hurl)
    cases hnode : t.nodesInfo.lookup nodeID with
    | none => simp [hnode, urlsUnder]
    | some removed =>
      rw [NodeTable.infoOf_of_lookup hnode]
      exact htwin.disjoint hid hnode hne hurl

/-- A step in which ZeroMQ accepts everything, to a table without twins. -/
def CleanStep (accepts : Str → Bool) (s s' : Discovery κ) : Prop :=
  Step accepts s true s' ∧ s'.receiver.table.NoTwin

/-- A clean run is a run. -/
theorem reach_of_clean {accepts : Str → Bool} {s s' : Discovery κ}
    (h : Relation.ReflTransGen (CleanStep accepts) s s') : Reach accepts s s' :=
  Runs.reachable_invariant (I := Reach accepts s) (fun _ _ hreach hstep =>
    hreach.tail ⟨true, hstep.1⟩) h .refl

/-- There are no nodes to cover. -/
theorem coverInv_start (localNode : LocalNode) : CoverInv (start localNode : Discovery κ) where
  noTwin := List.nodup_nil
  subs _ h := absurd h List.not_mem_nil
  found _ _ _ h := by cases h
  exclusive _ _ _ h := by cases h
  announcing _ _ h := by cases h

/-- No clean step of any thread uncovers a node. -/
theorem coverInv_step {accepts : Str → Bool} {s s' : Discovery κ} (h : s.CoverInv)
    (hclean : CleanStep accepts s s') : s'.CoverInv := by
  obtain ⟨hstep, htwin⟩ := hclean
  generalize hok : true = ok at hstep
  cases hstep with
  | publish name port => exact ⟨htwin, h.subs, h.found, h.exclusive, h.announcing⟩
  | lock topicName callback hfree =>
    exact ⟨htwin, h.subs, fun _ _ _ hr => (by cases hr), fun _ _ _ hr => (by cases hr),
      h.announcing⟩
  | read order hlocked hshared =>
    refine ⟨htwin, h.subs, fun topicName callback urls hr => ?_, fun _ _ _ _ id ids ht => ?_,
      h.announcing⟩
    · cases hr
      exact covers_findTopicURLs s.receiver _ order _
    · exact hshared (by rw [ht]; trivial)
  | @connect topicName callback urls hread =>
    have hnew := h.found topicName callback urls hread
    exact ⟨htwin, registerTopicSubscriber_mem hnew h.subs, fun _ _ _ hr => (by cases hr),
      fun _ _ _ hr => (by cases hr), h.announcing⟩
  | receive hr hquiet =>
    have hentries := entries_of_quiet hr hquiet
    obtain ⟨herasing, hannouncing⟩ := task_of_quiet hr hquiet
    exact ⟨htwin, fun sub hsub => (h.subs sub hsub).of_entries hentries,
      fun topicName callback urls hread => (h.found _ _ _ hread).of_entries hentries,
      fun _ _ _ _ => herasing, hannouncing⟩
  | announce hr hfree =>
    refine ⟨htwin, ?_, fun _ _ _ hread => ?_, fun _ _ _ hread => ?_, fun id info ht => ?_⟩
    · exact covers_of_announce hr h.announcing (Outcome.returned_iff.mp hok.symm) h.subs
    · exact absurd (hfree.symm.trans hread) (by simp)
    · exact absurd (hfree.symm.trans hread) (by simp)
    · exact absurd (ht.symm.trans (task_of_announced hr)) (by simp)
  | remove hr hfree hreturns =>
    subst hok
    refine ⟨htwin, covers_of_remove hr h.noTwin h.subs, fun _ _ _ hread => ?_,
      fun _ _ _ hread => ?_, fun id info ht => ?_⟩
    · exact absurd (hfree.symm.trans hread) (by simp)
    · exact absurd (hfree.symm.trans hread) (by simp)
    · exact absurd ht (task_of_removed hr id info)

/-- While ZeroMQ accepts everything and the table has no twins, in every state outside of a
sweep every subscriber lists every URL that a node in the table advertises under its topic, but
for a node whose update event is still to be processed. -/
theorem no_publisher_missed {accepts : Str → Bool} {localNode : LocalNode} {s : Discovery κ}
    (hreach : Relation.ReflTransGen (CleanStep accepts) (start localNode) s)
    (hsweep : ¬ s.receiver.task.InSweep) {sub : Subscriber κ} (hsub : sub ∈ s.subs) {id : Str}
    {info : NodeInfo} (hid : s.receiver.table.nodesInfo.lookup id = some info)
    (hevent : s.receiver.task ≠ .announcing id info) {topic : SocketInfo}
    (htopic : topic ∈ info.topics) (hname : topic.name = sub.topicName) :
    topic.url ∈ sub.publisherURLs := by
  have hinv : s.CoverInv := Runs.reachable_invariant (I := CoverInv) (fun _ _ => coverInv_step)
    hreach (coverInv_start localNode)
  refine hinv.subs sub hsub id info hid ?_ (mem_urlsUnder.mpr ⟨topic, htopic, hname, rfl⟩)
  intro hpending
  cases htask : s.receiver.task with
  | announcing nodeID pending =>
    rw [htask] at hpending
    obtain rfl : id = nodeID := hpending
    have hsame := hinv.announcing id pending htask
    exact hevent (htask.trans (by rw [Option.some.inj (hsame.symm.trans hid)]))
  | erasing nodeID ids => exact hsweep (by rw [htask]; trivial)
  | _ => simp [htask, Pending] at hpending

/-- A process that has just started. -/
def exampleNode : LocalNode := .new (ascii "n") (ascii "10.0.0.1") 0 0 0 0

/-- Its state before anybody subscribes. -/
abbrev started : Discovery Unit := start exampleNode

/-- The process with one subscriber. -/
def listening : Discovery Unit where
  receiver := ⟨.empty, .idle⟩
  localNode := exampleNode
  subs := [.registered (ascii "imu") () []]
  registration := .free

/-- The announcement of a node that publishes its topic. -/
def imuHeartbeat : HeartbeatMessage := ⟨(0, 1, 0), generateUUID 1 1 1 1, 1, 6000, ascii "lab"⟩

/-- What that node publishes. -/
def imuTopic : SocketInfo := ⟨ascii "imu", ascii "10.0.0.2", 5555⟩

/-- What it answers to the fetch. -/
def imuInfo : NodeInfo := { nodeID := imuHeartbeat.nodeId, infoID := 1, topics := [imuTopic] }

/-- The subscriber that has connected to it. -/
def imuSubscriber : Subscriber Unit := .registered (ascii "imu") () [imuTopic.url]

/-- The process after the update event of that node. -/
def connected : Discovery Unit :=
  { listening with
    receiver :=
      ⟨(NodeTable.empty.noteHeartbeat imuHeartbeat.nodeId 0).updateNodeUnlocked imuHeartbeat.nodeId
        imuInfo 0, .idle⟩
    subs := [imuSubscriber] }

/-- A registration in an empty network. -/
theorem clean_listening :
    Relation.ReflTransGen (CleanStep fun _ => true) started listening := by
  have hlock := Relation.ReflTransGen.refl.tail (r := CleanStep fun _ => true)
    ⟨.lock started (ascii "imu") () rfl, List.nodup_nil⟩
  have hread := hlock.tail ⟨.read _ .stored rfl not_false, List.nodup_nil⟩
  exact hread.tail ⟨.connect_done rfl rfl, List.nodup_nil⟩

/-- The heartbeat is heard, its sender fetched, stored and announced. -/
theorem clean_connected :
    Relation.ReflTransGen (CleanStep fun _ => true) started connected := by
  have hhear := clean_listening.tail ⟨.receive _ (.hear _ imuHeartbeat 0) trivial, List.nodup_nil⟩
  have hfetch := hhear.tail
    ⟨.receive _ (.fetch _ imuHeartbeat (some imuInfo)) trivial, List.nodup_nil⟩
  have hstore := hfetch.tail
    ⟨.receive _ (.store _ imuHeartbeat.nodeId imuInfo 0) trivial, List.nodup_singleton imuTopic⟩
  exact hstore.tail
    ⟨.announce_done (.announce _ imuHeartbeat.nodeId imuInfo) rfl rfl,
      List.nodup_singleton imuTopic⟩

/-- After the heartbeat, the fetch and the update the subscriber that registered first lists the
URL of the node that came later. -/
theorem no_publisher_missed_imu :
    ∃ sub ∈ connected.subs, sub.topicName = ascii "imu" ∧ imuTopic.url ∈ sub.publisherURLs := by
  have hsub : imuSubscriber ∈ connected.subs := List.mem_singleton.mpr rfl
  have hid : connected.receiver.table.nodesInfo.lookup imuHeartbeat.nodeId = some imuInfo := rfl
  refine ⟨imuSubscriber, hsub, rfl, ?_⟩
  exact no_publisher_missed clean_connected not_false hsub hid (by simp [connected])
    (List.mem_singleton.mpr rfl) rfl

end Discovery

end ZeroLanCom
