import Mathlib.Data.List.Basic
import ZeroLanCom.Sockets.SubscriberManager

/-!
# Connection lists and sockets

What the loops of the subscriber manager do to one subscriber: which URLs are
listed afterwards, which endpoints the socket keeps, and when ZeroMQ refuses.
A list with every URL once, naming exactly the endpoints of the socket, is
what removal relies on; registration is the one operation that can break it.
-/

namespace ZeroLanCom

open Throwing ZeroMq

variable {κ : Type}

/-- The endpoints a list of entries advertises under a topic name. -/
def urlsUnder (topicName : Str) (topics : List SocketInfo) : List Str :=
  (topics.filter fun t => t.name = topicName).map SocketInfo.url

/-- The URLs a subscriber looks for are those announced under its topic's name. -/
theorem mem_urlsUnder {topicName url : Str} {topics : List SocketInfo} :
    url ∈ urlsUnder topicName topics ↔ ∃ t ∈ topics, t.name = topicName ∧ t.url = url := by
  simp [urlsUnder, and_assoc]

namespace Subscriber

/-- A connection that ZeroMQ takes is listed and made. -/
theorem connect_of_accepts {accepts : Str → Bool} {url : Str} (h : accepts url = true)
    (sub : Subscriber κ) :
    sub.connect accepts url = .done { sub with
      publisherURLs := sub.publisherURLs ++ [url]
      socket := ⟨insert url sub.socket.endpoints⟩ } := by
  simp [connect, SubSocket.connect, h]

/-- One that it refuses changes nothing and throws. -/
theorem connect_of_rejects {accepts : Str → Bool} {url : Str} (h : accepts url = false)
    (sub : Subscriber κ) : sub.connect accepts url = .threw (.errorT .EINVAL) sub := by
  simp [connect, SubSocket.connect, h]

/-- These are all the things one round of an update can do. -/
theorem updateTopic_cases (accepts : Str → Bool) (topic : SocketInfo) (sub : Subscriber κ) :
    ((sub.topicName = topic.name → topic.url ∈ sub.publisherURLs) ∧
      sub.updateTopic accepts topic = .done sub) ∨
    sub.topicName = topic.name ∧ topic.url ∉ sub.publisherURLs ∧
      (accepts topic.url = false ∧
          sub.updateTopic accepts topic = .threw (.errorT .EINVAL) sub ∨
        accepts topic.url = true ∧ sub.updateTopic accepts topic = .done { sub with
          publisherURLs := sub.publisherURLs ++ [topic.url]
          socket := ⟨insert topic.url sub.socket.endpoints⟩ }) := by
  unfold updateTopic
  split_ifs with hname hmem
  · exact Or.inl ⟨fun heq => absurd heq hname, rfl⟩
  · exact Or.inl ⟨fun _ => hmem, rfl⟩
  · cases hacc : accepts topic.url with
    | false =>
      exact Or.inr ⟨not_not.mp hname, hmem, Or.inl ⟨rfl, connect_of_rejects hacc sub⟩⟩
    | true =>
      exact Or.inr ⟨not_not.mp hname, hmem, Or.inr ⟨rfl, connect_of_accepts hacc sub⟩⟩

/-- Disconnecting a connected endpoint takes it out of the list and out of the socket. -/
theorem disconnect_of_mem {url : Str} {sub : Subscriber κ} (h : url ∈ sub.socket.endpoints) :
    sub.disconnect url = .done { sub with
      publisherURLs := sub.publisherURLs.erase url
      socket := ⟨sub.socket.endpoints.erase url⟩ } := by
  simp [disconnect, SubSocket.disconnect, h]

/-- An endpoint that is not connected cannot be disconnected, and nothing changes. -/
theorem disconnect_of_notMem {url : Str} {sub : Subscriber κ} (h : url ∉ sub.socket.endpoints) :
    sub.disconnect url = .threw (.errorT .ENOENT) sub := by
  simp [disconnect, SubSocket.disconnect, h]

/-- A subscriber whose URLs have all been connected. -/
def registered (topicName : Str) (callback : κ) (urls : List Str) : Subscriber κ :=
  ⟨topicName, urls, callback, ⟨urls.toFinset⟩⟩

/-- The loop of registration appends every URL, unless ZeroMQ rejects one of them. -/
theorem connect_loop {accepts : Str → Bool} {urls : List Str}
    (h : ∀ url ∈ urls, accepts url = true) (sub : Subscriber κ) :
    forEach (connect accepts) urls sub = .done { sub with
      publisherURLs := sub.publisherURLs ++ urls
      socket := ⟨urls.toFinset ∪ sub.socket.endpoints⟩ } := by
  induction urls generalizing sub with
  | nil => simp
  | cons url urls ih =>
    rw [forEach_cons, connect_of_accepts (h url (List.mem_cons_self ..)), Outcome.done_bind,
      ih fun u hu => h u (List.mem_cons_of_mem url hu)]
    simp [Finset.union_insert]

/-- The connections of a subscription end with an exception if ZeroMQ refuses one of them. -/
theorem connect_loop_rejects {accepts : Str → Bool} {urls : List Str}
    (h : ∃ url ∈ urls, accepts url = false) (sub : Subscriber κ) :
    ∃ e sub', forEach (connect accepts) urls sub = .threw e sub' := by
  induction urls generalizing sub with
  | nil => simp at h
  | cons url urls ih =>
    rw [forEach_cons]
    cases hurl : accepts url with
    | false => exact ⟨_, _, by rw [connect_of_rejects hurl, Outcome.threw_bind]⟩
    | true =>
      rw [connect_of_accepts hurl, Outcome.done_bind]
      apply ih
      obtain ⟨u, hu, hrej⟩ := h
      rcases List.mem_cons.mp hu with rfl | hu
      · simp [hurl] at hrej
      · exact ⟨u, hu, hrej⟩

end Subscriber

/-- Registration adds the connected subscriber, or nothing when a URL is rejected. -/
theorem registerTopicSubscriber_state (accepts : Str → Bool) (topicName : Str) (callback : κ)
    (urls : List Str) (subs : List (Subscriber κ)) :
    (registerTopicSubscriber accepts topicName callback urls subs).state =
      if ∀ url ∈ urls, accepts url = true then
        subs ++ [Subscriber.registered topicName callback urls] else subs := by
  unfold registerTopicSubscriber
  split_ifs with h
  · rw [Subscriber.connect_loop h]
    simp [Subscriber.registered, SubSocket.fresh]
  · push Not at h
    have hrej : ∃ url ∈ urls, accepts url = false := by simpa using h
    obtain ⟨e, sub', he⟩ := Subscriber.connect_loop_rejects hrej
      (⟨topicName, [], callback, .fresh⟩ : Subscriber κ)
    rw [he]
    rfl

namespace Subscriber

/-- Every endpoint of the socket is listed. This much holds in every run. -/
def Listed (sub : Subscriber κ) : Prop :=
  ∀ url ∈ sub.socket.endpoints, url ∈ sub.publisherURLs

/-- The list names each endpoint of the socket exactly once. -/
structure Consistent (sub : Subscriber κ) : Prop where
  nodup : sub.publisherURLs.Nodup
  endpoints : sub.socket.endpoints = sub.publisherURLs.toFinset

/-- What the list says is what the socket has. -/
theorem Consistent.mem_iff {sub : Subscriber κ} (h : sub.Consistent) {url : Str} :
    url ∈ sub.socket.endpoints ↔ url ∈ sub.publisherURLs := by
  rw [h.endpoints, List.mem_toFinset]

/-- A new subscriber lists all it is connected to. -/
theorem registered_listed (topicName : Str) (callback : κ) (urls : List Str) :
    (registered topicName callback urls).Listed := by
  simp [Listed, registered]

/-- A fresh subscriber is consistent exactly when it was given no URL twice. -/
theorem registered_consistent_iff {topicName : Str} {callback : κ} {urls : List Str} :
    (registered topicName callback urls).Consistent ↔ urls.Nodup :=
  ⟨fun h => h.nodup, fun h => ⟨h, rfl⟩⟩

/-- No update connects an endpoint without listing it, whether it returns or throws. -/
theorem updateTopic_listed (accepts : Str → Bool) (topic : SocketInfo) {sub : Subscriber κ}
    (h : sub.Listed) : (sub.updateTopic accepts topic).state.Listed := by
  rcases updateTopic_cases accepts topic sub with
    ⟨_, hround⟩ | ⟨_, _, ⟨_, hround⟩ | ⟨_, hround⟩⟩
  · rwa [hround]
  · rwa [hround]
  · rw [hround]
    intro url hurl
    rcases Finset.mem_insert.mp hurl with rfl | hurl
    · simp
    · exact List.mem_append_left _ (h url hurl)

/-- No removal leaves an endpoint connected that it has taken off the list. -/
theorem removeTopic_listed (topic : SocketInfo) {sub : Subscriber κ} (h : sub.Listed) :
    (sub.removeTopic topic).state.Listed := by
  unfold removeTopic
  split_ifs with hname hmem
  · exact h
  · by_cases hconn : topic.url ∈ sub.socket.endpoints
    · rw [disconnect_of_mem hconn]
      intro url hurl
      obtain ⟨hne, hurl⟩ := Finset.mem_erase.mp hurl
      exact (List.mem_erase_of_ne hne).mpr (h url hurl)
    · simpa [disconnect_of_notMem hconn] using h
  · exact h

/-- An update keeps the list and the socket alike: it adds only what the list lacks. -/
theorem updateTopic_consistent (accepts : Str → Bool) (topic : SocketInfo) {sub : Subscriber κ}
    (h : sub.Consistent) : (sub.updateTopic accepts topic).state.Consistent := by
  rcases updateTopic_cases accepts topic sub with
    ⟨_, hround⟩ | ⟨_, hmem, ⟨_, hround⟩ | ⟨_, hround⟩⟩
  · rwa [hround]
  · rwa [hround]
  · rw [hround]
    refine ⟨?_, ?_⟩
    · exact List.nodup_append.mpr ⟨h.nodup, List.nodup_singleton _, by
        intro a ha b hb
        rw [List.mem_singleton.mp hb]
        exact fun he => hmem (he ▸ ha)⟩
    · ext url
      simp [h.mem_iff, or_comm]

/-- A consistent subscriber is never asked to disconnect an endpoint it does not have. -/
theorem removeTopic_returns (topic : SocketInfo) {sub : Subscriber κ} (h : sub.Consistent) :
    ∃ sub', sub.removeTopic topic = .done sub' ∧ sub'.Consistent := by
  unfold removeTopic
  split_ifs with hname hmem
  · exact ⟨sub, rfl, h⟩
  · refine ⟨_, disconnect_of_mem (h.mem_iff.mpr hmem), h.nodup.erase _, ?_⟩
    ext url
    simp [h.mem_iff, h.nodup.mem_erase_iff]
  · exact ⟨sub, rfl, h⟩

end Subscriber

/-- Registration keeps what holds of the subscribers and of the one it adds. -/
theorem registerTopicSubscriber_mem {P : Subscriber κ → Prop} {accepts : Str → Bool}
    {topicName : Str} {callback : κ} {urls : List Str}
    (hnew : P (.registered topicName callback urls)) {subs : List (Subscriber κ)}
    (h : ∀ sub ∈ subs, P sub) :
    ∀ sub ∈ (registerTopicSubscriber accepts topicName callback urls subs).state, P sub := by
  intro sub hsub
  rw [registerTopicSubscriber_state] at hsub
  split_ifs at hsub
  · rcases List.mem_append.mp hsub with hold | hadded
    · exact h sub hold
    · rw [List.mem_singleton.mp hadded]
      exact hnew
  · exact h sub hsub

/-- Updates keep what each single round keeps of a subscriber, also when one throws. -/
theorem updateTopicSubscriber_mem {P : Subscriber κ → Prop} {accepts : Str → Bool}
    {nodeInfo : NodeInfo} (hround : ∀ topic ∈ nodeInfo.topics, ∀ sub, P sub →
      P (Subscriber.updateTopic accepts topic sub).state)
    {subs : List (Subscriber κ)} (h : ∀ sub ∈ subs, P sub) :
    ∀ sub ∈ (updateTopicSubscriber accepts nodeInfo subs).state, P sub :=
  forEach_eachElem_mem hround h

/-- So do removals. -/
theorem removeTopicSubscriber_mem {P : Subscriber κ → Prop} {nodeInfo : NodeInfo}
    (hround : ∀ topic ∈ nodeInfo.topics, ∀ sub, P sub →
      P (Subscriber.removeTopic topic sub).state)
    {subs : List (Subscriber κ)} (h : ∀ sub ∈ subs, P sub) :
    ∀ sub ∈ (removeTopicSubscriber nodeInfo subs).state, P sub :=
  forEach_eachElem_mem hround h

/-- On consistent subscribers a removal ends normally. -/
theorem removeTopicSubscriber_returns (nodeInfo : NodeInfo) {subs : List (Subscriber κ)}
    (h : ∀ sub ∈ subs, sub.Consistent) :
    ∃ subs', removeTopicSubscriber nodeInfo subs = .done subs' ∧
      ∀ sub ∈ subs', sub.Consistent := by
  refine forEach_returns (P := fun subs => ∀ sub ∈ subs, Subscriber.Consistent sub) ?_ h
  intro topic _ subs hsubs
  exact eachElem_returns (fun sub hsub => sub.removeTopic_returns topic hsub) hsubs

/-- The calls that change the list of subscribers. A registration comes with the table and
the local node it finds. -/
inductive ManagerOp (κ : Type) where
  | register (topicName : Str) (callback : κ) (t : NodeTable) (localNodeInfo : NodeInfo)
      (order : MapOrder)
  | update (nodeInfo : NodeInfo)
  | remove (nodeInfo : NodeInfo)

/-- The call that an operation stands for. -/
def ManagerOp.exec (accepts : Str → Bool) (subs : List (Subscriber κ)) :
    ManagerOp κ → Outcome Exn (List (Subscriber κ))
  | .register topicName callback t localNodeInfo order =>
    registerTopicSubscriber accepts topicName callback
      (findTopicURLs t localNodeInfo order topicName) subs
  | .update nodeInfo => updateTopicSubscriber accepts nodeInfo subs
  | .remove nodeInfo => removeTopicSubscriber nodeInfo subs

/-- One call of a run; its exception ends with the caller. -/
def managerStep (accepts : Str → Bool) (subs : List (Subscriber κ)) (op : ManagerOp κ) :
    List (Subscriber κ) := (op.exec accepts subs).state

/-- The list and the socket agree for every subscriber. -/
def AllConsistent (subs : List (Subscriber κ)) : Prop := ∀ sub ∈ subs, sub.Consistent

/-- The call is not a removal that throws. -/
def RemovalReturns (accepts : Str → Bool) (subs : List (Subscriber κ)) (op : ManagerOp κ) :
    Prop :=
  match op with
  | .remove _ => ∃ subs', op.exec accepts subs = .done subs'
  | _ => True

/-- A registration that goes through finds no URL twice. -/
def FindsNoUrlTwice (accepts : Str → Bool) (_ : List (Subscriber κ)) : ManagerOp κ → Prop
  | .register topicName _ t localNodeInfo order =>
    (∀ url ∈ findTopicURLs t localNodeInfo order topicName, accepts url = true) →
      (findTopicURLs t localNodeInfo order topicName).Nodup
  | _ => True

/-- Only a registration can spoil consistent lists, and only by a URL it finds twice. -/
theorem managerStep_consistent_iff (accepts : Str → Bool) {subs : List (Subscriber κ)}
    (h : AllConsistent subs) (op : ManagerOp κ) :
    AllConsistent (managerStep accepts subs op) ↔ FindsNoUrlTwice accepts subs op := by
  cases op with
  | register topicName callback t localNodeInfo order =>
    simp only [managerStep, ManagerOp.exec, registerTopicSubscriber_state, FindsNoUrlTwice]
    split_ifs with hacc
    · simp only [AllConsistent, List.mem_append, List.mem_singleton]
      constructor
      · intro hall _
        exact Subscriber.registered_consistent_iff.mp (hall _ (Or.inr rfl))
      · rintro hnodup sub (hsub | rfl)
        · exact h sub hsub
        · exact Subscriber.registered_consistent_iff.mpr (hnodup hacc)
    · exact ⟨fun _ hall => absurd hall hacc, fun _ => h⟩
  | update nodeInfo =>
    refine ⟨fun _ => trivial, fun _ => ?_⟩
    exact updateTopicSubscriber_mem
      (fun topic _ sub hsub => Subscriber.updateTopic_consistent accepts topic hsub) h
  | remove nodeInfo =>
    obtain ⟨subs', hdone, hall⟩ := removeTopicSubscriber_returns nodeInfo h
    refine ⟨fun _ => trivial, fun _ => ?_⟩
    rw [managerStep, ManagerOp.exec, hdone]
    exact hall

/-- Along a run the lists always name each endpoint once, and no removal throws, exactly when
no registration finds a URL twice. -/
theorem lists_match_sockets_iff (accepts : Str → Bool) (ops : List (ManagerOp κ)) :
    (Runs.Always (managerStep accepts) AllConsistent [] ops ∧
      Runs.Each (managerStep accepts) (RemovalReturns accepts) [] ops) ↔
      Runs.Each (managerStep accepts) (FindsNoUrlTwice accepts) [] ops := by
  have hstart : AllConsistent ([] : List (Subscriber κ)) := fun _ h => absurd h List.not_mem_nil
  have hiff := Runs.always_iff_each (I := fun _ => True) (P := AllConsistent) (fun _ _ _ => trivial)
    (fun _ op _ h => managerStep_consistent_iff accepts h op)
    trivial hstart ops
  refine ⟨fun h => hiff.mp h.1, fun h => ⟨hiff.mpr h, ?_⟩⟩
  -- a removal meets consistent lists only
  refine Runs.each_of_always (fun subs op hsubs => ?_) (hiff.mpr h)
  cases op with
  | remove nodeInfo =>
    obtain ⟨subs', hdone, _⟩ := removeTopicSubscriber_returns nodeInfo hsubs
    exact ⟨subs', hdone⟩
  | _ => trivial

/-- Two nodes announce one endpoint, as a restarted node does until its old entry expires. -/
def twinTopic : SocketInfo := ⟨ascii "imu", ascii "10.0.0.2", 5555⟩

/-- Both nodes are in the table. -/
def twinTable : NodeTable :=
  (NodeTable.empty.updateNodeUnlocked (ascii "a") { topics := [twinTopic] } 0).updateNodeUnlocked
    (ascii "b") { topics := [twinTopic] } 0

/-- Registering between the two announcements' removals. -/
def twinRun : List (ManagerOp Unit) :=
  [.register (ascii "imu") () twinTable {} .stored, .remove { topics := [twinTopic] },
    .remove { topics := [twinTopic] }]

/-- The subscriber lists the endpoint twice, and the second removal throws. -/
theorem twin_adverts_break_lists :
    ¬ Runs.Always (managerStep fun _ => true) AllConsistent [] twinRun ∧
      ¬ Runs.Each (managerStep fun _ => true) (RemovalReturns fun _ => true) [] twinRun := by
  constructor
  · rintro ⟨_, h⟩
    have hsecond := (managerStep_consistent_iff _ (fun _ h => absurd h List.not_mem_nil) _).mp
      (by exact h.1)
    have htwice : ¬ (findTopicURLs twinTable {} .stored (ascii "imu")).Nodup := by decide
    exact htwice (hsecond fun _ _ => rfl)
  · rintro ⟨_, _, ⟨subs', h⟩, _⟩
    obtain ⟨subs, hthrows⟩ : ∃ subs, twinRun[2].exec (fun _ => true)
        (Runs.run (managerStep fun _ => true) [] (twinRun.take 2)) =
          .threw (.errorT .ENOENT) subs := ⟨_, rfl⟩
    cases hthrows.symm.trans h

end ZeroLanCom
