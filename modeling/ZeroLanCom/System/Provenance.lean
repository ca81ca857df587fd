import ZeroLanCom.System.Coverage

/-!
# Where the URLs come from

A URL reaches a socket through a fetch, the table, the list that a registration
reads, or the event that announces it. None of these makes a URL up: whatever
holds of all that is published in the process and of all that is fetched holds
of all that its sockets are connected to.
-/

namespace ZeroLanCom

open Throwing

variable {κ : Type}

/-- The property holds of every topic name and URL that the node offers. -/
def NodeInfo.OffersOnly (Q : Str → Str → Prop) (info : NodeInfo) : Prop :=
  ∀ t ∈ info.topics, Q t.name t.url

/-- A default info offers nothing. -/
theorem NodeInfo.offersOnly_default (Q : Str → Str → Prop) : (default : NodeInfo).OffersOnly Q :=
  fun _ ht => absurd ht List.not_mem_nil

/-- A weaker property holds of as much. -/
theorem NodeInfo.OffersOnly.mono {Q Q' : Str → Str → Prop} {info : NodeInfo}
    (h : info.OffersOnly Q) (hQ : ∀ topicName url, Q topicName url → Q' topicName url) :
    info.OffersOnly Q' := fun t ht => hQ _ _ (h t ht)

/-- The property for a URL that is looked up under a topic. -/
theorem NodeInfo.OffersOnly.of_mem_urlsUnder {Q : Str → Str → Prop} {info : NodeInfo}
    (h : info.OffersOnly Q) {topicName url : Str} (hurl : url ∈ urlsUnder topicName info.topics) :
    Q topicName url := by
  obtain ⟨t, ht, rfl, rfl⟩ := mem_urlsUnder.mp hurl
  exact h t ht

/-- The property holds of all entries of the table, and of the info on its way there. -/
structure Receiver.HoldsOnly (P : NodeInfo → Prop) (r : Receiver) : Prop where
  stored : ∀ id info, r.table.nodesInfo.lookup id = some info → P info
  storing : ∀ id info, r.task = .storing id info → P info
  announcing : ∀ id info, r.task = .announcing id info → P info

namespace Receiver

variable {P P' : NodeInfo → Prop} {r r' : Receiver} {l : ReceiveLabel}

/-- A weaker property holds of as many infos. -/
theorem HoldsOnly.mono (h : r.HoldsOnly P) (hP : ∀ info, P info → P' info) : r.HoldsOnly P' :=
  ⟨fun id info hid => hP info (h.stored id info hid),
    fun id info ht => hP info (h.storing id info ht),
    fun id info ht => hP info (h.announcing id info ht)⟩

/-- A step brings nothing new but what it fetches, or an info with nothing in it. -/
theorem HoldsOnly.step (h : r.HoldsOnly P) (hdefault : P default) (hstep : ReceiveStep r l r')
    (hfetch : ∀ id info, r'.task = .storing id info →
      r.task = .storing id info ∨ P info) : r'.HoldsOnly P := by
  have hstoring : ∀ id info, r'.task = .storing id info → P info := fun id info ht =>
    (hfetch id info ht).elim (h.storing id info) fun ho => ho
  cases hstep with
  | hear t heartbeat now =>
    refine ⟨h.stored, hstoring, fun id info ht => ?_⟩
    split_ifs at ht
  | fetch t heartbeat result =>
    refine ⟨h.stored, hstoring, fun id info ht => ?_⟩
    cases result <;> cases ht
  | store t nodeID stored now =>
    have hnew := h.storing nodeID stored rfl
    refine ⟨fun id info hid => ?_, hstoring, fun id info ht => ?_⟩
    · rw [NodeTable.lookup_updateNodeUnlocked] at hid
      split_ifs at hid
      · cases hid
        exact hnew
      · exact h.stored id info hid
    · cases ht
      exact hnew
  | announce t nodeID stored => exact ⟨h.stored, hstoring, fun _ _ ht => by cases ht⟩
  | sweep t order now => exact ⟨h.stored, hstoring, fun _ _ ht => by cases ht⟩
  | remove t nodeID ids => exact ⟨h.stored, hstoring, fun _ _ ht => by cases ht⟩
  | removeThrows t nodeID ids =>
    refine ⟨fun id info hid => ?_, hstoring, fun _ _ ht => by cases ht⟩
    unfold NodeTable.touchInfo at hid
    split_ifs at hid
    · exact h.stored id info hid
    · by_cases hne : id = nodeID
      · subst hne
        rw [AList.lookup_insert, Option.some.injEq] at hid
        exact hid ▸ hdefault
      · rw [AList.lookup_insert_ne hne] at hid
        exact h.stored id info hid
  | erase t nodeID ids =>
    refine ⟨fun id info hid => ?_, hstoring, fun _ _ ht => by cases ht⟩
    rw [NodeTable.lookup_removeNode] at hid
    split_ifs at hid
    exact h.stored id info hid
  | sweepEnds t => exact ⟨h.stored, hstoring, fun _ _ ht => by cases ht⟩

/-- What is announced is what was stored. -/
theorem HoldsOnly.announced (h : r.HoldsOnly P) {info : NodeInfo}
    (hstep : ReceiveStep r (.announced info) r') : P info := by
  cases hstep with
  | announce t nodeID => exact h.announcing nodeID info rfl

end Receiver

namespace Discovery

/-- The property holds of every URL the process has under a topic, wherever it has it. -/
structure HoldsOnly (Q : Str → Str → Prop) (s : Discovery κ) : Prop where
  published : s.localNode.localNodeInfo.OffersOnly Q
  receiver : s.receiver.HoldsOnly (NodeInfo.OffersOnly Q)
  found : ∀ topicName callback urls, s.registration = .read topicName callback urls →
    ∀ url ∈ urls, Q topicName url
  listed : ∀ sub ∈ s.subs, ∀ url ∈ sub.publisherURLs, Q sub.topicName url
  connected : ∀ sub ∈ s.subs, sub.Listed

variable {Q Q' : Str → Str → Prop} {s s' : Discovery κ} {accepts : Str → Bool} {ok : Bool}

/-- A weaker property holds of as much. -/
theorem HoldsOnly.mono (h : s.HoldsOnly Q)
    (hQ : ∀ topicName url, Q topicName url → Q' topicName url) : s.HoldsOnly Q' where
  published := h.published.mono hQ
  receiver := h.receiver.mono fun _ ho => ho.mono hQ
  found topicName callback urls hread url hurl := hQ _ _ (h.found topicName callback urls hread url
    hurl)
  listed sub hsub url hurl := hQ _ _ (h.listed sub hsub url hurl)
  connected := h.connected

/-- A process that has heard of nobody has only what it publishes itself. -/
theorem holdsOnly_start {localNode : LocalNode} (h : localNode.localNodeInfo.OffersOnly Q) :
    (start localNode : Discovery κ).HoldsOnly Q where
  published := h
  receiver :=
    ⟨fun _ _ hid => (by cases hid), fun _ _ ht => (by cases ht), fun _ _ ht => (by cases ht)⟩
  found _ _ _ hread := by cases hread
  listed _ hsub := absurd hsub List.not_mem_nil
  connected _ hsub := absurd hsub List.not_mem_nil

/-- What a registration reads is published in the process or stands in the table. -/
theorem HoldsOnly.findTopicURLs (h : s.HoldsOnly Q) (order : MapOrder) (topicName : Str) :
    ∀ url ∈ findTopicURLs s.receiver.table s.localNode.getLocalNodeInfo order topicName,
      Q topicName url := by
  intro url hurl
  rw [(findTopicURLs_perm ..).mem_iff, mem_advertised] at hurl
  rcases hurl with ⟨id, info, hid, hurl⟩ | hurl
  · exact (h.receiver.stored id info hid).of_mem_urlsUnder hurl
  · exact h.published.of_mem_urlsUnder hurl

/-- An update lists what was listed, or what it announces. -/
theorem HoldsOnly.update (h : s.HoldsOnly Q) {info : NodeInfo} (hinfo : info.OffersOnly Q) :
    ∀ sub ∈ (updateTopicSubscriber accepts info s.subs).state,
      ∀ url ∈ sub.publisherURLs, Q sub.topicName url := by
  intro sub' hsub' url hurl
  obtain ⟨sub, hsub, hu⟩ := forall₂_mem_right (updateTopicSubscriber_updated accepts info s.subs)
    hsub'
  rw [hu.name]
  rcases hu.adds url with hold | ⟨_, hnew⟩
  · have hpos : 0 < sub.publisherURLs.count url := (List.count_pos_iff.mpr hurl).trans_le hold
    exact h.listed sub hsub url (List.count_pos_iff.mp hpos)
  · exact hinfo.of_mem_urlsUnder hnew

/-- A removal lists nothing new. -/
theorem HoldsOnly.removal (h : s.HoldsOnly Q) (info : NodeInfo) :
    ∀ sub ∈ (removeTopicSubscriber info s.subs).state,
      ∀ url ∈ sub.publisherURLs, Q sub.topicName url := by
  intro sub' hsub' url hurl
  obtain ⟨sub, hsub, hr⟩ := forall₂_mem_right (removeTopicSubscriber_reduced info s.subs) hsub'
  rw [hr.name]
  exact h.listed sub hsub url (hr.fewer.subset hurl)

/-- The receive task brings in nothing but what it fetches. -/
theorem HoldsOnly.receive (h : s.HoldsOnly Q) {l : ReceiveLabel} {r : Receiver}
    (hr : ReceiveStep s.receiver l r) (hfetch : ∀ id info, r.task = .storing id info →
      s.receiver.task = .storing id info ∨ info.OffersOnly Q) :
    r.HoldsOnly (NodeInfo.OffersOnly Q) :=
  h.receiver.step (NodeInfo.offersOnly_default Q) hr hfetch

/-- No step of any thread makes a URL up. -/
theorem HoldsOnly.step (h : s.HoldsOnly Q) (hstep : Step accepts s ok s')
    (hpublished : s'.localNode.localNodeInfo.OffersOnly Q)
    (hfetch : ∀ id info, s'.receiver.task = .storing id info →
      s.receiver.task = .storing id info ∨ info.OffersOnly Q) : s'.HoldsOnly Q := by
  have hlisted := listed_step h.connected hstep
  cases hstep with
  | publish name port => exact ⟨hpublished, h.receiver, h.found, h.listed, hlisted⟩
  | lock topicName callback hfree =>
    exact ⟨h.published, h.receiver, fun _ _ _ hread => (by cases hread), h.listed, hlisted⟩
  | read order hlocked hshared =>
    refine ⟨h.published, h.receiver, fun topicName callback urls hread => ?_, h.listed, hlisted⟩
    cases hread
    exact h.findTopicURLs order _
  | @connect topicName callback urls hread =>
    refine ⟨h.published, h.receiver, fun _ _ _ hread' => (by cases hread'), ?_, hlisted⟩
    exact registerTopicSubscriber_mem (P := fun sub => ∀ url ∈ sub.publisherURLs,
      Q sub.topicName url) (h.found topicName callback urls hread) h.listed
  | receive hr hquiet =>
    exact ⟨h.published, h.receive hr hfetch, h.found, h.listed, hlisted⟩
  | announce hr hfree =>
    exact ⟨h.published, h.receive hr hfetch, h.found, h.update (h.receiver.announced hr),
      hlisted⟩
  | @remove info returns r hr hfree hreturns =>
    exact ⟨h.published, h.receive hr hfetch, h.found, h.removal info, hlisted⟩

end Discovery

end ZeroLanCom
