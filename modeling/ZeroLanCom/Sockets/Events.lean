import Mathlib.Data.Finset.SDiff
import ZeroLanCom.Sockets.Connections

/-!
# What update and removal events do to a subscriber

An update only adds URLs, each once, and none that the node does not offer. A
removal takes one occurrence of each URL out of the list and disconnects it. On
a subscriber whose endpoints are all listed it has a closed form: the loop ends
normally when every URL it finds listed is still connected and is not found a
second time, and then list and socket lose exactly the URLs.
-/

namespace ZeroLanCom

open Throwing ZeroMq

variable {κ : Type}

/-- The URLs of a topic list, topic by topic. -/
theorem urlsUnder_cons (topicName : Str) (topic : SocketInfo) (topics : List SocketInfo) :
    urlsUnder topicName (topic :: topics) =
      if topic.name = topicName then topic.url :: urlsUnder topicName topics
      else urlsUnder topicName topics := by
  unfold urlsUnder
  split_ifs with h <;> simp [h]

namespace Subscriber

/-- What an update with these topics can do to a subscriber, also when it throws. -/
structure Updated (topics : List SocketInfo) (sub sub' : Subscriber κ) : Prop where
  name : sub'.topicName = sub.topicName
  keeps : sub.publisherURLs ⊆ sub'.publisherURLs
  connected : sub.socket.endpoints ⊆ sub'.socket.endpoints
  adds : ∀ url, sub'.publisherURLs.count url ≤ sub.publisherURLs.count url ∨
    sub'.publisherURLs.count url ≤ 1 ∧ url ∈ urlsUnder sub.topicName topics

/-- No update at all is one. -/
theorem Updated.refl (topics : List SocketInfo) (sub : Subscriber κ) : sub.Updated topics sub :=
  ⟨rfl, List.Subset.refl _, Finset.Subset.refl _, fun _ => Or.inl le_rfl⟩

/-- Two updates with topics of one list are an update with that list. -/
theorem Updated.trans {topics : List SocketInfo} {x y z : Subscriber κ} (hxy : x.Updated topics y)
    (hyz : y.Updated topics z) : x.Updated topics z where
  name := hyz.name.trans hxy.name
  keeps := List.Subset.trans hxy.keeps hyz.keeps
  connected := Finset.Subset.trans hxy.connected hyz.connected
  adds url := by
    rcases hyz.adds url with hz | ⟨hz, hurl⟩
    · rcases hxy.adds url with hy | ⟨hy, hurl⟩
      · exact Or.inl (hz.trans hy)
      · exact Or.inr ⟨hz.trans hy, hurl⟩
    · exact Or.inr ⟨hz, hxy.name ▸ hurl⟩

/-- The update with one of the topics, whether it returns or throws. -/
theorem updateTopic_updated (accepts : Str → Bool) {topics : List SocketInfo} {topic : SocketInfo}
    (htopic : topic ∈ topics) (sub : Subscriber κ) :
    sub.Updated topics (sub.updateTopic accepts topic).state := by
  rcases updateTopic_cases accepts topic sub with
    ⟨_, hround⟩ | ⟨hname, hmem, ⟨_, hround⟩ | ⟨_, hround⟩⟩
  · rw [hround]
    exact .refl topics sub
  · rw [hround]
    exact .refl topics sub
  · rw [hround]
    refine ⟨rfl, List.subset_append_left _ _, Finset.subset_insert _ _, fun url => ?_⟩
    rw [Outcome.state_done, List.count_append]
    by_cases hurl : url = topic.url
    · subst hurl
      refine Or.inr ⟨?_, mem_urlsUnder.mpr ⟨topic, htopic, hname.symm, rfl⟩⟩
      simp [List.count_eq_zero_of_not_mem hmem]
    · exact Or.inl (by simp [List.count_eq_zero_of_not_mem, hurl])

/-- The update with all of them, broken off anywhere. -/
theorem updateTopic_loop_updated (accepts : Str → Bool) (topics : List SocketInfo)
    (sub : Subscriber κ) : sub.Updated topics (forEach (updateTopic accepts) topics sub).state :=
  forEach_invariant (fun _ htopic _ h => h.trans (updateTopic_updated accepts htopic _))
    (Updated.refl topics sub)

/-- A round that ends normally leaves the URL listed. -/
theorem updateTopic_lists {accepts : Str → Bool} {topic : SocketInfo} {sub sub' : Subscriber κ}
    (h : sub.updateTopic accepts topic = .done sub') (hname : topic.name = sub.topicName) :
    topic.url ∈ sub'.publisherURLs := by
  rcases updateTopic_cases accepts topic sub with
    ⟨hlisted, hround⟩ | ⟨_, _, ⟨_, hround⟩ | ⟨_, hround⟩⟩
  · rw [hround] at h
    cases h
    exact hlisted hname.symm
  · rw [hround] at h
    cases h
  · rw [hround] at h
    cases h
    simp

/-- A loop that ends normally leaves everything listed that the node offers. -/
theorem updateTopic_loop_covers {accepts : Str → Bool} {topics : List SocketInfo}
    {sub sub' : Subscriber κ} (h : forEach (updateTopic accepts) topics sub = .done sub') :
    urlsUnder sub.topicName topics ⊆ sub'.publisherURLs := by
  induction topics generalizing sub with
  | nil => simp [urlsUnder]
  | cons topic topics ih =>
    obtain ⟨next, hhead, htail⟩ := Outcome.bind_eq_done_iff.mp h
    have hname : next.topicName = sub.topicName := by
      have hround := (updateTopic_updated accepts (List.mem_singleton.mpr (rfl : topic = topic))
        sub).name
      rwa [hhead] at hround
    have hrest := ih htail
    rw [hname] at hrest
    rw [urlsUnder_cons]
    split_ifs with htopic
    · refine List.cons_subset.mpr ⟨?_, hrest⟩
      have hkeeps := (updateTopic_loop_updated accepts topics next).keeps
      rw [htail] at hkeeps
      exact hkeeps (updateTopic_lists hhead htopic)
    · exact hrest

end Subscriber

/-- An update does no more than that to each subscriber. -/
theorem updateTopicSubscriber_updated (accepts : Str → Bool) (nodeInfo : NodeInfo)
    (subs : List (Subscriber κ)) :
    List.Forall₂ (Subscriber.Updated nodeInfo.topics) subs
      (updateTopicSubscriber accepts nodeInfo subs).state :=
  forEach_eachElem_forall₂ (Subscriber.Updated.refl _) (fun _ _ _ hxy hyz => hxy.trans hyz)
    (fun _ htopic sub => Subscriber.updateTopic_updated accepts htopic sub) subs

/-- After an update that ends normally every subscriber of a topic lists what the node offers
under it. -/
theorem updateTopicSubscriber_covers {accepts : Str → Bool} {nodeInfo : NodeInfo}
    {subs subs' : List (Subscriber κ)}
    (h : updateTopicSubscriber accepts nodeInfo subs = .done subs') {sub' : Subscriber κ}
    (hsub' : sub' ∈ subs') :
    urlsUnder sub'.topicName nodeInfo.topics ⊆ sub'.publisherURLs := by
  obtain ⟨sub, _, hloop⟩ := forall₂_mem_right (forEach_eachElem_eq_done_iff.mp h) hsub'
  have hname := (Subscriber.updateTopic_loop_updated accepts nodeInfo.topics sub).name
  rw [hloop] at hname
  rw [show sub'.topicName = sub.topicName from hname]
  exact Subscriber.updateTopic_loop_covers hloop

/-- Every URL that is listed is connected, and nowhere found twice on both sides. -/
def Removable (urls listed : List Str) (endpoints : Finset Str) : Prop :=
  ∀ url ∈ urls, url ∈ listed →
    url ∈ endpoints ∧ (urls.count url = 1 ∨ listed.count url = 1)

/-- Nothing to remove is no obstacle. -/
theorem removable_nil (listed : List Str) (endpoints : Finset Str) :
    Removable [] listed endpoints := fun _ h => absurd h List.not_mem_nil

/-- The condition can be checked URL by URL, dropping each from the list and the socket. -/
theorem removable_cons_iff {url : Str} {urls listed : List Str} {endpoints : Finset Str} :
    Removable (url :: urls) listed endpoints ↔
      (url ∈ listed → url ∈ endpoints) ∧
        Removable urls (listed.erase url) (endpoints.erase url) := by
  constructor
  · refine fun h => ⟨fun hl => (h url (List.mem_cons_self ..) hl).1, fun u hu hl => ?_⟩
    obtain ⟨he, hcount⟩ := h u (List.mem_cons_of_mem url hu) (List.mem_of_mem_erase hl)
    by_cases huu : u = url
    · -- listed twice and found twice
      subst huu
      have htwice : 0 < urls.count u := List.count_pos_iff.mpr hu
      have hlisted : 0 < (listed.erase u).count u := List.count_pos_iff.mpr hl
      rw [List.count_erase_self] at hlisted
      rw [List.count_cons_self] at hcount
      omega
    · refine ⟨Finset.mem_erase.mpr ⟨huu, he⟩, ?_⟩
      rwa [List.count_cons_of_ne (Ne.symm huu), ← List.count_erase_of_ne huu (l := listed)]
        at hcount
  · rintro ⟨hhead, htail⟩ u hu hl
    by_cases huu : u = url
    · subst huu
      refine ⟨hhead hl, ?_⟩
      by_cases hmore : u ∈ urls ∧ u ∈ listed.erase u
      · exact absurd (htail u hmore.1 hmore.2).1 (Finset.notMem_erase u endpoints)
      · rw [List.count_cons_self]
        have hpos : 0 < listed.count u := List.count_pos_iff.mpr hl
        rcases not_and_or.mp hmore with hno | hno
        · exact Or.inl (by rw [List.count_eq_zero_of_not_mem hno])
        · have hzero := List.count_eq_zero_of_not_mem hno
          rw [List.count_erase_self] at hzero
          exact Or.inr (by omega)
    · have hu' : u ∈ urls := (List.mem_cons.mp hu).resolve_left huu
      obtain ⟨he, hcount⟩ := htail u hu' ((List.mem_erase_of_ne huu).mpr hl)
      refine ⟨Finset.mem_of_mem_erase he, ?_⟩
      rwa [List.count_cons_of_ne (Ne.symm huu), ← List.count_erase_of_ne huu (l := listed)]

namespace Subscriber

/-- The subscriber after the URLs have been taken out and disconnected. -/
def without (urls : List Str) (sub : Subscriber κ) : Subscriber κ :=
  { sub with
    publisherURLs := sub.publisherURLs.diff urls
    socket := ⟨sub.socket.endpoints \ urls.toFinset⟩ }

@[simp] theorem without_nil (sub : Subscriber κ) : sub.without [] = sub := by
  simp [without]

/-- The URLs can be taken out one after the other. -/
theorem without_cons (url : Str) (urls : List Str) (sub : Subscriber κ) :
    sub.without (url :: urls) = (sub.without [url]).without urls := by
  simp only [without, List.diff_cons, List.diff_nil, List.toFinset_cons, List.toFinset_nil,
    insert_empty_eq, sdiff_sdiff_left, Finset.sup_eq_union, Finset.insert_eq]

/-- What remains connected remains listed. -/
theorem without_listed (urls : List Str) {sub : Subscriber κ} (h : sub.Listed) :
    (sub.without urls).Listed := by
  intro url hurl
  obtain ⟨hmem, hnot⟩ := Finset.mem_sdiff.mp hurl
  exact List.mem_diff_of_mem (h url hmem) fun hu => hnot (List.mem_toFinset.mpr hu)

/-- The subscriber can lose these URLs without an error. -/
def CanLose (urls : List Str) (sub : Subscriber κ) : Prop :=
  Removable urls sub.publisherURLs sub.socket.endpoints

/-- The URLs can be lost if the first can, and after it the others. -/
theorem canLose_cons_iff {url : Str} {urls : List Str} {sub : Subscriber κ} :
    sub.CanLose (url :: urls) ↔
      (url ∈ sub.publisherURLs → url ∈ sub.socket.endpoints) ∧
        (sub.without [url]).CanLose urls := by
  rw [CanLose, removable_cons_iff, CanLose, without, List.diff_cons, List.diff_nil,
    List.toFinset_cons, List.toFinset_nil, insert_empty_eq, Finset.sdiff_singleton_eq_erase]

/-- One round, on a subscriber of that topic. -/
theorem removeTopic_eq_done_iff {topic : SocketInfo} {sub sub' : Subscriber κ} (h : sub.Listed)
    (hname : topic.name = sub.topicName) :
    sub.removeTopic topic = .done sub' ↔
      (topic.url ∈ sub.publisherURLs → topic.url ∈ sub.socket.endpoints) ∧
        sub' = sub.without [topic.url] := by
  simp only [removeTopic, hname, ne_eq, not_true_eq_false, if_false]
  by_cases hl : topic.url ∈ sub.publisherURLs
  · by_cases he : topic.url ∈ sub.socket.endpoints
    · rw [if_neg (not_not.mpr hl), disconnect_of_mem he]
      simp [without, he, eq_comm, Finset.sdiff_singleton_eq_erase]
    · rw [if_neg (not_not.mpr hl), disconnect_of_notMem he]
      simp [hl, he]
  · -- what is not listed is not connected either
    have he : topic.url ∉ sub.socket.endpoints := fun he => hl (h _ he)
    have hsame : sub.without [topic.url] = sub := by
      simp [without, List.erase_of_not_mem hl, Finset.sdiff_singleton_eq_erase,
        Finset.erase_eq_of_notMem he]
    rw [if_pos hl, hsame]
    simp [hl, eq_comm]

/-- The whole loop. -/
theorem removeTopic_loop_eq_done_iff {topics : List SocketInfo} {sub sub' : Subscriber κ}
    (h : sub.Listed) :
    forEach removeTopic topics sub = .done sub' ↔
      sub.CanLose (urlsUnder sub.topicName topics) ∧
        sub' = sub.without (urlsUnder sub.topicName topics) := by
  induction topics generalizing sub with
  | nil => simp [urlsUnder, CanLose, removable_nil, eq_comm]
  | cons topic topics ih =>
    rw [forEach_cons, Outcome.bind_eq_done_iff, urlsUnder_cons]
    split_ifs with hname
    · rw [canLose_cons_iff, without_cons topic.url (urlsUnder sub.topicName topics)]
      simp only [removeTopic_eq_done_iff h hname]
      constructor
      · rintro ⟨_, ⟨hhead, rfl⟩, htail⟩
        obtain ⟨hlose, rfl⟩ := (ih (without_listed _ h)).mp htail
        exact ⟨⟨hhead, hlose⟩, rfl⟩
      · rintro ⟨⟨hhead, hlose⟩, rfl⟩
        exact ⟨_, ⟨hhead, rfl⟩, (ih (without_listed _ h)).mpr ⟨hlose, rfl⟩⟩
    · have hskip : sub.removeTopic topic = .done sub := by
        simp [removeTopic, Ne.symm hname]
      simp only [hskip, Outcome.done.injEq, exists_eq_left']
      exact ih h

end Subscriber

/-- Removing topic after topic ends normally exactly when every subscriber can lose the URLs
under its topic, and then that is what it loses. -/
theorem removeTopic_rounds_eq_done_iff {topics : List SocketInfo} {subs subs' : List (Subscriber κ)}
    (h : ∀ sub ∈ subs, sub.Listed) :
    forEach (fun topic => eachElem (Subscriber.removeTopic topic)) topics subs = .done subs' ↔
      (∀ sub ∈ subs, sub.CanLose (urlsUnder sub.topicName topics)) ∧
        subs' = subs.map fun sub => sub.without (urlsUnder sub.topicName topics) := by
  rw [forEach_eachElem_eq_done_iff]
  induction subs generalizing subs' with
  | nil => simp
  | cons sub subs ih =>
    obtain ⟨hsub, hsubs⟩ := List.forall_mem_cons.mp h
    simp only [List.forall₂_cons_left_iff, Subscriber.removeTopic_loop_eq_done_iff hsub, ih hsubs,
      List.forall_mem_cons, List.map_cons]
    constructor
    · rintro ⟨_, _, ⟨hlose, rfl⟩, ⟨hall, rfl⟩, rfl⟩
      exact ⟨⟨hlose, hall⟩, rfl⟩
    · rintro ⟨⟨hlose, hall⟩, rfl⟩
      exact ⟨_, _, ⟨hlose, rfl⟩, ⟨hall, rfl⟩, rfl⟩

/-- Removing one node after the other is one loop over all of their topics. -/
theorem removeTopicSubscriber_loop (infos : List NodeInfo) (subs : List (Subscriber κ)) :
    forEach removeTopicSubscriber infos subs =
      forEach (fun topic => eachElem (Subscriber.removeTopic topic))
        (infos.flatMap NodeInfo.topics) subs :=
  forEach_flatMap _ _ infos subs

/-- The removals of a sweep return exactly if every subscriber can lose what the removed nodes
announced, and then each has lost it. -/
theorem removals_eq_done_iff {infos : List NodeInfo} {subs subs' : List (Subscriber κ)}
    (h : ∀ sub ∈ subs, sub.Listed) :
    forEach removeTopicSubscriber infos subs = .done subs' ↔
      (∀ sub ∈ subs, sub.CanLose (urlsUnder sub.topicName (infos.flatMap NodeInfo.topics))) ∧
        subs' = subs.map fun sub =>
          sub.without (urlsUnder sub.topicName (infos.flatMap NodeInfo.topics)) := by
  rw [removeTopicSubscriber_loop]
  exact removeTopic_rounds_eq_done_iff h

/-- What a removal of one node does when it ends normally. -/
theorem removeTopicSubscriber_eq_done_iff {info : NodeInfo} {subs subs' : List (Subscriber κ)}
    (h : ∀ sub ∈ subs, sub.Listed) :
    removeTopicSubscriber info subs = .done subs' ↔
      (∀ sub ∈ subs, sub.CanLose (urlsUnder sub.topicName info.topics)) ∧
        subs' = subs.map fun sub => sub.without (urlsUnder sub.topicName info.topics) :=
  removeTopic_rounds_eq_done_iff h

/-- What a removal with these topics can do to a subscriber, also when it throws. -/
structure Subscriber.Reduced (topics : List SocketInfo) (sub sub' : Subscriber κ) : Prop where
  name : sub'.topicName = sub.topicName
  fewer : sub'.publisherURLs.Sublist sub.publisherURLs
  keeps : ∀ url ∈ sub.publisherURLs, url ∉ urlsUnder sub.topicName topics →
    url ∈ sub'.publisherURLs
  cut : sub'.socket.endpoints ⊆ sub.socket.endpoints
  connected : ∀ url ∈ sub.socket.endpoints, url ∉ urlsUnder sub.topicName topics →
    url ∈ sub'.socket.endpoints

/-- No removal at all is one. -/
theorem Subscriber.Reduced.refl (topics : List SocketInfo) (sub : Subscriber κ) :
    sub.Reduced topics sub :=
  ⟨rfl, List.Sublist.refl _, fun _ h _ => h, Finset.Subset.refl _, fun _ h _ => h⟩

/-- Two removals with topics of one list are a removal with that list. -/
theorem Subscriber.Reduced.trans {topics : List SocketInfo} {x y z : Subscriber κ}
    (hxy : x.Reduced topics y) (hyz : y.Reduced topics z) : x.Reduced topics z where
  name := hyz.name.trans hxy.name
  fewer := hyz.fewer.trans hxy.fewer
  keeps url h hnot := hyz.keeps url (hxy.keeps url h hnot) (hxy.name ▸ hnot)
  cut := Finset.Subset.trans hyz.cut hxy.cut
  connected url h hnot := hyz.connected url (hxy.connected url h hnot) (hxy.name ▸ hnot)

/-- The removal of one of the topics, whether it returns or throws. -/
theorem Subscriber.removeTopic_reduced {topics : List SocketInfo} {topic : SocketInfo}
    (htopic : topic ∈ topics) (sub : Subscriber κ) :
    sub.Reduced topics (sub.removeTopic topic).state := by
  unfold removeTopic
  split_ifs with hname hmem
  · exact .refl topics sub
  · have hurl : topic.url ∈ urlsUnder sub.topicName topics :=
      mem_urlsUnder.mpr ⟨topic, htopic, (not_not.mp hname).symm, rfl⟩
    have hne : ∀ url, url ∉ urlsUnder sub.topicName topics → url ≠ topic.url :=
      fun url hnot he => hnot (he ▸ hurl)
    by_cases he : topic.url ∈ sub.socket.endpoints
    · rw [disconnect_of_mem he]
      exact ⟨rfl, List.erase_sublist,
        fun url h hnot => (List.mem_erase_of_ne (hne url hnot)).mpr h, Finset.erase_subset _ _,
        fun url h hnot => Finset.mem_erase.mpr ⟨hne url hnot, h⟩⟩
    · rw [disconnect_of_notMem he]
      exact .refl topics sub
  · exact .refl topics sub

/-- The removal of a node only takes from each subscriber what that node announced. -/
theorem removeTopicSubscriber_reduced (info : NodeInfo) (subs : List (Subscriber κ)) :
    List.Forall₂ (Subscriber.Reduced info.topics) subs (removeTopicSubscriber info subs).state :=
  forEach_eachElem_forall₂ (Subscriber.Reduced.refl _) (fun _ _ _ hxy hyz => hxy.trans hyz)
    (fun _ htopic sub => sub.removeTopic_reduced htopic) subs

end ZeroLanCom
