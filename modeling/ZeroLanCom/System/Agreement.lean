import ZeroLanCom.Sockets.SubscriberManager
import ZeroLanCom.System.ReceiveTask

/-!
# A sender and a receiver agree on versions

The sender registers topics and services and creates heartbeats. The receiver
runs its receive task on them, in any order and any number of times, and on
heartbeats of other nodes. Every registration bumps `infoID`, so it numbers the
versions of the sender's info, and a heartbeat that passes the version check
finds the version it was created with.
-/

namespace ZeroLanCom

/-- The two nodes and the network between them. The sender's versions so far, and the version
each heartbeat was created with, are only recorded. -/
structure Agreement where
  sender : LocalNode
  history : List NodeInfo
  network : List (HeartbeatMessage × NodeInfo)
  receiver : Receiver

namespace Agreement

/-- A fresh sender and a receiver that knows nobody. -/
def start (name ip : Str) (r₀ r₁ r₂ r₃ : UInt32) : Agreement where
  sender := .new name ip r₀ r₁ r₂ r₃
  history := [(LocalNode.new name ip r₀ r₁ r₂ r₃).getLocalNodeInfo]
  network := []
  receiver := ⟨.empty, .idle⟩

/-- The registrations the sender has made. -/
def registrations (s : Agreement) : Nat := s.history.length - 1

/-- What the receiver stores for the sender. -/
def stored (s : Agreement) : Option NodeInfo :=
  s.receiver.table.nodesInfo.lookup s.sender.nodeID

/-- What the network lets the receiver see. Heartbeats under the sender's id are its own, and a
fetch for it fails or returns its info. The removal callback is the one of the subscriber
manager. -/
def Possible (s : Agreement) : ReceiveLabel → Prop
  | .heard heartbeat =>
    heartbeat.nodeId = s.sender.nodeID → ∃ info, (heartbeat, info) ∈ s.network
  | .fetched heartbeat result =>
    heartbeat.nodeId = s.sender.nodeID →
      result = none ∨ result = some s.sender.getLocalNodeInfo
  | .removing info returns =>
    ∃ subs : List (Subscriber Unit),
      (∃ subs', removeTopicSubscriber info subs = .done subs') ↔ returns = true
  | _ => True

/-- The sender registers and announces, and the receive task goes one step further. -/
inductive Step : Agreement → Agreement → Prop
  | registerLocalTopic (s : Agreement) (name : Str) (port : UInt16) :
    Step s { s with
      sender := s.sender.registerLocalTopic name port
      history := s.history ++ [(s.sender.registerLocalTopic name port).getLocalNodeInfo] }
  | registerLocalService (s : Agreement) (name : Str) (port : UInt16) :
    Step s { s with
      sender := s.sender.registerLocalService name port
      history := s.history ++ [(s.sender.registerLocalService name port).getLocalNodeInfo] }
  | createHeartbeat (s : Agreement) :
    Step s { s with
      network := (s.sender.createHeartbeat, s.sender.getLocalNodeInfo) :: s.network }
  | receive (s : Agreement) {l : ReceiveLabel} {r : Receiver} (h : ReceiveStep s.receiver l r)
      (hl : s.Possible l) : Step s { s with receiver := r }

/-- A version of the sender, by its number. -/
def Version (s : Agreement) (k : Nat) (info : NodeInfo) : Prop := s.history[k]? = some info

/-- Versions are numbered by `infoID`, and whatever the receiver has or is about to store is
a version with at least the number `b`. -/
structure Inv (b : Nat) (s : Agreement) : Prop where
  numbered : ∀ k info, s.Version k info → info.infoID = UInt32.ofNat k
  current : s.Version s.registrations s.sender.localNodeInfo
  reached : b ≤ s.registrations
  sent : ∀ heartbeat info, (heartbeat, info) ∈ s.network →
    info ∈ s.history ∧ heartbeat.infoId.toUInt32 = info.infoID
  known : ∀ info, s.stored = some info → ∃ k, b ≤ k ∧ s.Version k info
  infoIds : s.receiver.table.nodesInfoId.lookup s.sender.nodeID = s.stored.map NodeInfo.infoID
  pending : ∀ info, s.receiver.task = .storing s.sender.nodeID info →
    ∃ k, b ≤ k ∧ s.Version k info ∧ ∀ old, s.stored = some old → ∃ j ≤ k, s.Version j old

/-- Versions are numbered from zero. -/
theorem Version.lt {s : Agreement} {k : Nat} {info : NodeInfo} (h : s.Version k info) :
    k < s.history.length := by
  obtain ⟨hk, _⟩ := List.getElem?_eq_some_iff.mp h
  exact hk

/-- A version is in the history. -/
theorem Version.mem {s : Agreement} {k : Nat} {info : NodeInfo} (h : s.Version k info) :
    info ∈ s.history := List.mem_of_getElem? h

/-- Whatever is in the history has a number. -/
theorem version_of_mem {s : Agreement} {info : NodeInfo} (h : info ∈ s.history) :
    ∃ k, s.Version k info := List.mem_iff_getElem?.mp h

/-- The last registration made the last version. -/
theorem Version.le {s : Agreement} {k : Nat} {info : NodeInfo} (h : s.Version k info) :
    k ≤ s.registrations := Nat.le_sub_one_of_lt h.lt

variable {b : Nat}

/-- The first version is the only one, and the receiver knows none. -/
theorem inv_start (name ip : Str) (r₀ r₁ r₂ r₃ : UInt32) : Inv 0 (start name ip r₀ r₁ r₂ r₃) where
  numbered k info h := by
    obtain ⟨hk, rfl⟩ := List.getElem?_eq_some_iff.mp h
    obtain rfl : k = 0 := by simpa [start] using hk
    rfl
  current := rfl
  reached := Nat.zero_le _
  sent _ _ h := absurd h List.not_mem_nil
  known _ h := by cases h
  infoIds := rfl
  pending _ h := by cases h

/-- A registration adds one version, numbered by the bumped `infoID`. -/
theorem version_register {s : Agreement} {sender : LocalNode} {k : Nat} {info : NodeInfo} :
    Version { s with sender := sender, history := s.history ++ [sender.localNodeInfo] } k info ↔
      s.Version k info ∨ k = s.history.length ∧ info = sender.localNodeInfo := by
  simp only [Version, List.getElem?_append]
  split_ifs with hk
  · simp [hk.ne]
  · rw [List.getElem?_eq_none (Nat.le_of_not_lt hk), List.getElem?_singleton]
    by_cases he : k = s.history.length
    · simp [he, eq_comm]
    · have hpos : k - s.history.length ≠ 0 := by omega
      simp [he, hpos]

/-- A registration leaves the receiver with a version, though with no longer the last one. -/
theorem inv_register {s : Agreement} (h : s.Inv b) {sender : LocalNode}
    (hid : sender.nodeID = s.sender.nodeID)
    (hinfo : sender.localNodeInfo.infoID = s.sender.localNodeInfo.infoID + 1) :
    Inv b { s with sender := sender, history := s.history ++ [sender.localNodeInfo] } := by
  have hlen : s.registrations + 1 = s.history.length := Nat.sub_add_cancel h.current.lt.pos
  have hbump : sender.localNodeInfo.infoID = UInt32.ofNat s.history.length := by
    rw [hinfo, h.numbered _ _ h.current, ← hlen, UInt32.ofNat_add]
    rfl
  have hstored :
      stored { s with sender := sender, history := s.history ++ [sender.localNodeInfo] } =
        s.stored := by
    unfold stored
    rw [hid]
  have hold : ∀ {k info}, s.Version k info →
      Version { s with sender := sender, history := s.history ++ [sender.localNodeInfo] } k info :=
    fun hk => version_register.mpr (Or.inl hk)
  constructor
  case numbered =>
    intro k info hk
    rcases version_register.mp hk with hk | ⟨rfl, rfl⟩
    · exact h.numbered k info hk
    · exact hbump
  case current => exact version_register.mpr (Or.inr ⟨by simp [registrations], rfl⟩)
  case reached =>
    have hreached := h.reached
    simp only [registrations, List.length_append, List.length_singleton] at hreached ⊢
    omega
  case sent => exact fun hb info hmem => (h.sent hb info hmem).imp_left (List.mem_append_left _)
  case known =>
    intro info hs
    obtain ⟨k, hbk, hk⟩ := h.known info (hstored ▸ hs)
    exact ⟨k, hbk, hold hk⟩
  case infoIds =>
    rw [hstored, hid]
    exact h.infoIds
  case pending =>
    intro info ht
    obtain ⟨k, hbk, hk, hnewest⟩ := h.pending info (by simpa only [hid] using ht)
    refine ⟨k, hbk, hold hk, fun old hs => ?_⟩
    obtain ⟨j, hjk, hj⟩ := hnewest old (hstored ▸ hs)
    exact ⟨j, hjk, hold hj⟩

/-- A step of the receiver that fetches nothing, by what it leaves stored for the sender. -/
theorem inv_of_stored {s : Agreement} (h : s.Inv b) {r : Receiver}
    (hknown : ∀ info, stored { s with receiver := r } = some info →
      ∃ k, b ≤ k ∧ s.Version k info)
    (hids : r.table.nodesInfoId.lookup s.sender.nodeID =
      (stored { s with receiver := r }).map NodeInfo.infoID)
    (htask : ∀ id info, r.task ≠ .storing id info) : Inv b { s with receiver := r } where
  numbered := h.numbered
  current := h.current
  reached := h.reached
  sent := h.sent
  known := hknown
  infoIds := hids
  pending info ht := absurd ht (htask _ info)

/-- It may leave the entries alone. -/
theorem inv_same_entries {s : Agreement} (h : s.Inv b) {r : Receiver}
    (hinfo : r.table.nodesInfo = s.receiver.table.nodesInfo)
    (hids : r.table.nodesInfoId = s.receiver.table.nodesInfoId)
    (htask : ∀ id info, r.task ≠ .storing id info) : Inv b { s with receiver := r } := by
  have hstored : stored { s with receiver := r } = s.stored := by simp only [stored, hinfo]
  refine inv_of_stored h (fun info hs => h.known info (hstored ▸ hs)) ?_ htask
  rw [hstored, hids]
  exact h.infoIds

/-- What a fetch for the sender returns is its newest version, so nothing stored is newer. -/
theorem inv_fetch {s : Agreement} (h : s.Inv b) {id : Str} {fetched : NodeInfo}
    (hl : id = s.sender.nodeID → fetched = s.sender.getLocalNodeInfo) :
    Inv b { s with receiver := ⟨s.receiver.table, .storing id fetched⟩ } where
  numbered := h.numbered
  current := h.current
  reached := h.reached
  sent := h.sent
  known := h.known
  infoIds := h.infoIds
  pending info ht := by
    simp only [ReceiveTask.storing.injEq] at ht
    obtain ⟨hid, rfl⟩ := ht
    obtain rfl := hl hid
    refine ⟨_, h.reached, h.current, fun old hs => ?_⟩
    obtain ⟨j, _, hj⟩ := h.known old hs
    exact ⟨j, hj.le, hj⟩

/-- The version that is stored is the pending one. -/
theorem inv_store {s : Agreement} (h : s.Inv b) {id : Str} {info : NodeInfo}
    (htask : s.receiver.task = .storing id info) (now : Nat) :
    Inv b { s with
      receiver := ⟨s.receiver.table.updateNodeUnlocked id info now, .announcing id info⟩ } := by
  have hstored : stored { s with receiver :=
      ⟨s.receiver.table.updateNodeUnlocked id info now, .announcing id info⟩ } =
        if s.sender.nodeID = id then some info else s.stored :=
    s.receiver.table.lookup_updateNodeUnlocked id _ info now
  refine inv_of_stored h (fun new hs => ?_) ?_ (by simp)
  · rw [hstored] at hs
    split_ifs at hs with hid
    · subst hid
      obtain ⟨k, hbk, hk, _⟩ := h.pending info htask
      cases hs
      exact ⟨k, hbk, hk⟩
    · exact h.known new hs
  · rw [hstored]
    have hids := s.receiver.table.lookup_infoId_updateNodeUnlocked id s.sender.nodeID info now
    split_ifs at hids ⊢
    · exact hids
    · exact hids.trans h.infoIds

/-- An erasure takes the entry out of both maps. -/
theorem inv_erase {s : Agreement} (h : s.Inv b) (id : Str) (ids : List Str) :
    Inv b { s with receiver := ⟨s.receiver.table.removeNode id, .sweeping ids⟩ } := by
  have hstored : stored { s with
      receiver := ⟨s.receiver.table.removeNode id, .sweeping ids⟩ } =
        if s.sender.nodeID = id then none else s.stored :=
    s.receiver.table.lookup_removeNode id _
  refine inv_of_stored h (fun new hs => ?_) ?_ (by simp)
  · rw [hstored] at hs
    split_ifs at hs
    exact h.known new hs
  · rw [hstored]
    have hids := s.receiver.table.lookup_infoId_removeNode id s.sender.nodeID
    split_ifs at hids ⊢
    · exact hids
    · exact hids.trans h.infoIds

/-- Only a callback that was given topics can throw. -/
theorem topics_of_removal_throws {s : Agreement} {info : NodeInfo}
    (h : s.Possible (.removing info false)) : info.topics ≠ [] := by
  obtain ⟨subs, hsubs⟩ := h
  intro hnil
  have hdone : removeTopicSubscriber info subs = .done subs := by
    simp [removeTopicSubscriber, hnil]
  exact absurd (hsubs.mp ⟨subs, hdone⟩) Bool.false_ne_true

/-- Each step of the receive task stores a version that is not older than the stored one. -/
theorem inv_receive {s : Agreement} (h : s.Inv b) {l : ReceiveLabel} {r : Receiver}
    (hstep : ReceiveStep s.receiver l r) (hl : s.Possible l) :
    Inv b { s with receiver := r } := by
  obtain ⟨sender, history, network, receiver⟩ := s
  cases hstep with
  | hear t heartbeat now =>
    refine inv_same_entries h rfl rfl fun id info => ?_
    split_ifs <;> simp
  | fetch t heartbeat result =>
    cases result with
    | none => exact inv_same_entries h rfl rfl (by simp)
    | some fetched => exact inv_fetch h fun hid => by simpa using hl hid
  | store t id info now => exact inv_store h rfl now
  | announce t id info => exact inv_same_entries h rfl rfl (by simp)
  | sweep t order now => exact inv_same_entries h rfl rfl (by simp)
  | remove t id ids => exact inv_same_entries h rfl rfl (by simp)
  | removeThrows t id ids =>
    rw [NodeTable.touchInfo_of_topics (topics_of_removal_throws hl)]
    exact inv_same_entries h rfl rfl (by simp)
  | erase t id ids => exact inv_erase h id ids
  | sweepEnds t => exact inv_same_entries h rfl rfl (by simp)

/-- No step of either party breaks the numbering. -/
theorem inv_step {s s' : Agreement} (h : s.Inv b) (hstep : Step s s') : s'.Inv b := by
  cases hstep with
  | registerLocalTopic name port => exact inv_register h rfl rfl
  | registerLocalService name port => exact inv_register h rfl rfl
  | createHeartbeat =>
    refine ⟨h.numbered, h.current, h.reached, fun hb info hmem => ?_, h.known, h.infoIds,
      h.pending⟩
    rcases List.mem_cons.mp hmem with hnew | hold
    · cases hnew
      exact ⟨h.current.mem, UInt32.toUInt32_toInt32 _⟩
    · exact h.sent hb info hold
  | receive hr hl => exact inv_receive h hr hl

/-- From any state on, the receiver never goes back behind version `b`. -/
theorem inv_reachable {s s' : Agreement} (h : s.Inv b)
    (hreach : Relation.ReflTransGen Step s s') : s'.Inv b :=
  Runs.reachable_invariant (I := Inv b) (fun _ _ => inv_step) hreach h

/-- Before it wraps around, `infoID` is the number of the version. -/
theorem Inv.toNat_infoID {s : Agreement} (h : s.Inv b) (hreg : s.registrations < 2 ^ 32)
    {k : Nat} {info : NodeInfo} (hk : s.Version k info) : info.infoID.toNat = k := by
  rw [h.numbered k info hk]
  exact UInt32.toNat_ofNat_of_lt' (hk.le.trans_lt hreg)

/-- The stored version is a lower bound for whatever is stored later. -/
theorem Inv.raise {s : Agreement} (h : s.Inv 0) (hreg : s.registrations < 2 ^ 32) {j : Nat}
    {info : NodeInfo} (hs : s.stored = some info) (hj : s.Version j info) : s.Inv j where
  numbered := h.numbered
  current := h.current
  reached := hj.le
  sent := h.sent
  known info' hs' := by
    obtain rfl : info = info' := Option.some.inj (hs.symm.trans hs')
    exact ⟨j, le_rfl, hj⟩
  infoIds := h.infoIds
  pending info' ht := by
    obtain ⟨k, _, hk, hnewest⟩ := h.pending info' ht
    obtain ⟨i, hik, hi⟩ := hnewest info hs
    obtain rfl : i = j := (h.toNat_infoID hreg hi).symm.trans (h.toNat_infoID hreg hj)
    exact ⟨k, hik, hk, hnewest⟩

/-- What is stored for the sender is one of its versions, the versions stored one after the
other never go back, and a heartbeat that passes the version check was created with the stored
version. -/
theorem versions_agree (name ip : Str) (r₀ r₁ r₂ r₃ : UInt32) {s : Agreement}
    (hreach : Relation.ReflTransGen Step (start name ip r₀ r₁ r₂ r₃) s)
    (hreg : s.registrations < 2 ^ 32) :
    (∀ info, s.stored = some info → info ∈ s.history) ∧
      (∀ s' info info', Relation.ReflTransGen Step s s' → s'.registrations < 2 ^ 32 →
        s.stored = some info → s'.stored = some info' → info.infoID ≤ info'.infoID) ∧
      ∀ heartbeat info, (heartbeat, info) ∈ s.network →
        s.receiver.table.checkNodeInfoIDUnlocked s.sender.nodeID heartbeat.infoId.toUInt32 →
        s.stored = some info := by
  have hinv := inv_reachable (inv_start name ip r₀ r₁ r₂ r₃) hreach
  refine ⟨fun info hs => ?_, fun s' info info' hreach' hreg' hs hs' => ?_,
    fun heartbeat info hsent hcheck => ?_⟩
  · obtain ⟨k, _, hk⟩ := hinv.known info hs
    exact hk.mem
  · obtain ⟨j, _, hj⟩ := hinv.known info hs
    have hraised := inv_reachable (hinv.raise hreg hs hj) hreach'
    obtain ⟨k, hjk, hk⟩ := hraised.known info' hs'
    rw [UInt32.le_iff_toNat_le, hinv.toNat_infoID hreg hj, hraised.toNat_infoID hreg' hk]
    exact hjk
  · obtain ⟨hmem, hid⟩ := hinv.sent heartbeat info hsent
    have hids := hinv.infoIds
    unfold NodeTable.checkNodeInfoIDUnlocked at hcheck
    cases hstored : s.stored with
    | none => simp [hids, hstored] at hcheck
    | some old =>
      have hsame : old.infoID = info.infoID := by simpa [hids, hstored, hid] using hcheck
      obtain ⟨j, _, hj⟩ := hinv.known old hstored
      obtain ⟨k, hk⟩ := version_of_mem hmem
      have hjk : j = k := by
        rw [← hinv.toNat_infoID hreg hj, ← hinv.toNat_infoID hreg hk, hsame]
      subst hjk
      exact congrArg some (Option.some.inj (hj.symm.trans hk))

/-- A sender with one topic, announced once. -/
def announced : Agreement :=
  let sender := (LocalNode.new (ascii "s") (ascii "10.0.0.2") 1 2 3 4).registerLocalTopic
    (ascii "imu") 5555
  { sender := sender
    history := [(LocalNode.new (ascii "s") (ascii "10.0.0.2") 1 2 3 4).getLocalNodeInfo,
      sender.getLocalNodeInfo]
    network := [(sender.createHeartbeat, sender.getLocalNodeInfo)]
    receiver := ⟨.empty, .idle⟩ }

/-- The receiver has heard the heartbeat and stored the answer to its fetch. -/
def agreed : Agreement :=
  let id := announced.sender.nodeID
  let info := announced.sender.getLocalNodeInfo
  { announced with receiver :=
      ⟨(NodeTable.empty.noteHeartbeat id 0).updateNodeUnlocked id info 1, .announcing id info⟩ }

/-- The sender has registered and announced, and the receiver has followed. -/
theorem agreed_reachable :
    Relation.ReflTransGen Step (start (ascii "s") (ascii "10.0.0.2") 1 2 3 4) agreed := by
  have hsend : Relation.ReflTransGen Step (start (ascii "s") (ascii "10.0.0.2") 1 2 3 4)
      announced := (Relation.ReflTransGen.refl.tail (.registerLocalTopic _ (ascii "imu") 5555)).tail
      (.createHeartbeat _)
  have hhear := hsend.tail (.receive announced (.hear _ announced.sender.createHeartbeat 0)
    fun _ => ⟨_, List.mem_singleton.mpr rfl⟩)
  have hfetch := hhear.tail (.receive _
    (.fetch _ announced.sender.createHeartbeat (some announced.sender.getLocalNodeInfo))
    fun _ => Or.inr rfl)
  exact hfetch.tail (.receive _ (.store _ _ _ 1) trivial)

/-- On this run the heartbeat passes the check and finds its version. -/
theorem versions_agree_announced :
    agreed.receiver.table.checkNodeInfoIDUnlocked agreed.sender.nodeID
        announced.sender.createHeartbeat.infoId.toUInt32 = true ∧
      agreed.stored = some announced.sender.getLocalNodeInfo :=
  have hcheck : agreed.receiver.table.checkNodeInfoIDUnlocked agreed.sender.nodeID
      announced.sender.createHeartbeat.infoId.toUInt32 = true := by decide
  ⟨hcheck, (versions_agree (ascii "s") (ascii "10.0.0.2") 1 2 3 4 agreed_reachable
    (by decide)).2.2 _ _ (List.mem_singleton.mpr rfl) hcheck⟩

end Agreement

end ZeroLanCom
