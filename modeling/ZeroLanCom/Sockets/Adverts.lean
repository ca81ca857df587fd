import ZeroLanCom.Sockets.Connections

/-!
# What the table and the local node advertise

The URLs a registration finds, and how often, as the entries of the table come
and go. The order in which the table is visited does not matter for that.
-/

namespace ZeroLanCom

/-- The URLs the remote nodes advertise under a topic, with repetitions. -/
def remoteURLs (t : NodeTable) (topicName : Str) : List Str :=
  t.nodesInfo.entries.flatMap fun e => urlsUnder topicName e.2.topics

/-- All URLs advertised under a topic, with repetitions. -/
def advertised (t : NodeTable) (localNodeInfo : NodeInfo) (topicName : Str) : List Str :=
  remoteURLs t topicName ++ urlsUnder topicName localNodeInfo.topics

/-- A lookup gives the URLs that some stored info announces for the topic. -/
theorem mem_remoteURLs {t : NodeTable} {topicName url : Str} :
    url ∈ remoteURLs t topicName ↔
      ∃ id info, t.nodesInfo.lookup id = some info ∧ url ∈ urlsUnder topicName info.topics := by
  simp only [remoteURLs, List.mem_flatMap]
  constructor
  · rintro ⟨⟨id, info⟩, he, hurl⟩
    exact ⟨id, info, AList.mem_lookup_iff.mpr he, hurl⟩
  · rintro ⟨id, info, hlookup, hurl⟩
    exact ⟨⟨id, info⟩, AList.mem_lookup_iff.mp hlookup, hurl⟩

/-- What is announced for a topic comes from the table or from the node itself. -/
theorem mem_advertised {t : NodeTable} {localNodeInfo : NodeInfo} {topicName url : Str} :
    url ∈ advertised t localNodeInfo topicName ↔
      (∃ id info, t.nodesInfo.lookup id = some info ∧ url ∈ urlsUnder topicName info.topics) ∨
        url ∈ urlsUnder topicName localNodeInfo.topics := by
  rw [advertised, List.mem_append, mem_remoteURLs]

/-- A registration finds each advertised URL as often as it is advertised. -/
theorem findTopicURLs_perm (t : NodeTable) (localNodeInfo : NodeInfo) (order : MapOrder)
    (topicName : Str) :
    (findTopicURLs t localNodeInfo order topicName).Perm
      (advertised t localNodeInfo topicName) := by
  have heq : findTopicURLs t localNodeInfo order topicName =
      ((order.visit t.nodesInfo.entries).flatMap fun e => urlsUnder topicName e.2.topics) ++
        urlsUnder topicName localNodeInfo.topics := by
    simp only [findTopicURLs, NodeTable.getPublisherInfo, urlsUnder, List.map_append,
      List.map_flatMap]
  rw [heq]
  exact ((order.perm _).flatMap_right _).append_right _

/-- An entry can be drawn to the front. -/
theorem entries_perm_of_lookup {α : Type} {m : StrMap α} {id : Str} {a : α}
    (h : m.lookup id = some a) : m.entries.Perm (⟨id, a⟩ :: (m.erase id).entries) := by
  have hkey : id ∈ m.entries.keys := AList.mem_keys.mp (AList.lookup_isSome.mp (by rw [h]; rfl))
  obtain ⟨b, l₁, l₂, _, hentries, hrest⟩ := List.exists_of_kerase hkey
  have hb : b = a := by
    have hmem : (⟨id, b⟩ : Sigma fun _ : Str => α) ∈ m.entries := by simp [hentries]
    exact Option.some.inj ((AList.mem_lookup_iff.mpr hmem).symm.trans h)
  subst hb
  have herase : (m.erase id).entries = l₁ ++ l₂ := hrest
  rw [herase, hentries]
  exact List.perm_middle

/-- A node that leaves takes its own adverts with it. -/
theorem count_remoteURLs_removeNode (t : NodeTable) (id topicName url : Str) :
    (remoteURLs t topicName).count url = (remoteURLs (t.removeNode id) topicName).count url +
      (urlsUnder topicName (t.infoOf id).topics).count url := by
  cases h : t.nodesInfo.lookup id with
  | some info =>
    have hperm := (entries_perm_of_lookup h).flatMap_right fun e => urlsUnder topicName e.2.topics
    rw [remoteURLs, hperm.count_eq, List.flatMap_cons, List.count_append, Nat.add_comm,
      NodeTable.infoOf_of_lookup h]
    rfl
  | none =>
    have hkey : id ∉ t.nodesInfo.entries.keys := AList.lookup_eq_none.mp h
    have hsame : t.nodesInfo.erase id = t.nodesInfo :=
      AList.ext (List.kerase_of_notMem_keys hkey)
    simp [remoteURLs, NodeTable.removeNode, hsame, h, urlsUnder]

/-- A node that is stored has exactly its new adverts. -/
theorem count_remoteURLs_updateNode (t : NodeTable) (id topicName url : Str) (info : NodeInfo)
    (now : Nat) :
    (remoteURLs (t.updateNodeUnlocked id info now) topicName).count url =
      (remoteURLs (t.removeNode id) topicName).count url +
        (urlsUnder topicName info.topics).count url := by
  have hentries : (t.updateNodeUnlocked id info now).nodesInfo.entries =
      ⟨id, info⟩ :: (t.removeNode id).nodesInfo.entries := AList.entries_insert
  rw [remoteURLs, hentries, List.flatMap_cons, List.count_append, Nat.add_comm]
  rfl

/-- Adverts only increase when a node is stored with a superset of its topics. -/
theorem count_remoteURLs_mono {t : NodeTable} {id : Str} {info : NodeInfo}
    (h : (t.infoOf id).topics.Subperm info.topics) (topicName url : Str) (now : Nat) :
    (remoteURLs t topicName).count url ≤
      (remoteURLs (t.updateNodeUnlocked id info now) topicName).count url := by
  obtain ⟨kept, hperm, hsub⟩ := h.filter fun t => t.name = topicName
  have hurls : (urlsUnder topicName (t.infoOf id).topics).Subperm
      (urlsUnder topicName info.topics) := ⟨kept.map SocketInfo.url, hperm.map _, hsub.map _⟩
  rw [count_remoteURLs_removeNode t id, count_remoteURLs_updateNode]
  exact Nat.add_le_add_left (hurls.count_le url) _

/-- An inserted default info announces nothing. -/
theorem remoteURLs_touchInfo (t : NodeTable) (id topicName : Str) :
    remoteURLs (t.touchInfo id) topicName = remoteURLs t topicName := by
  unfold NodeTable.touchInfo
  split_ifs with hid
  · rfl
  · have hnone : id ∉ t.nodesInfo := by
      simpa [NodeTable.checkNodeIDUnlocked, AList.lookup_eq_none] using hid
    rw [remoteURLs, AList.entries_insert_of_notMem hnone, List.flatMap_cons]
    rfl

end ZeroLanCom
