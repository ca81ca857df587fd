import Mathlib.Data.List.Nodup
import Mathlib.Data.Finset.Dedup
import ZeroLanCom.Library.Runs
import ZeroLanCom.Nodes.NodeInfoManager

/-!
# Subscribers and their connections

Each subscriber keeps a list of publisher URLs next to a SUB socket. Registration
connects to what the node table advertises, update events add connections, and
removal events drop them. A connect or disconnect that ZeroMQ refuses throws out of
the loops with the work done so far in place.
-/

namespace ZeroLanCom

open Throwing ZeroMq

/-- `SubscriberManager::Subscriber`; `κ` is the type of its callback. -/
structure Subscriber (κ : Type) where
  topicName : Str
  publisherURLs : List Str
  callback : κ
  socket : SubSocket Str

variable {κ : Type}

namespace Subscriber

/-- `socket->connect(url)`, then `publisherURLs.push_back(url)`. -/
def connect (accepts : Str → Bool) (url : Str) (sub : Subscriber κ) :
    Outcome Exn (Subscriber κ) :=
  match sub.socket.connect accepts url with
  | .error e => .threw (.errorT e) sub
  | .ok socket =>
    .done { sub with publisherURLs := sub.publisherURLs ++ [url], socket := socket }

/-- `socket->disconnect(url)`, then `publisherURLs.erase(it)`. -/
def disconnect (url : Str) (sub : Subscriber κ) : Outcome Exn (Subscriber κ) :=
  match sub.socket.disconnect url with
  | .error e => .threw (.errorT e) sub
  | .ok socket =>
    .done { sub with publisherURLs := sub.publisherURLs.erase url, socket := socket }

/-- One round of the loops in `updateTopicSubscriber`. -/
def updateTopic (accepts : Str → Bool) (topic : SocketInfo) (sub : Subscriber κ) :
    Outcome Exn (Subscriber κ) :=
  if sub.topicName ≠ topic.name then .done sub
  else if topic.url ∈ sub.publisherURLs then .done sub
  else sub.connect accepts topic.url

/-- One round of the loops in `removeTopicSubscriber`. -/
def removeTopic (topic : SocketInfo) (sub : Subscriber κ) : Outcome Exn (Subscriber κ) :=
  if sub.topicName ≠ topic.name then .done sub
  else if topic.url ∉ sub.publisherURLs then .done sub
  else sub.disconnect topic.url

end Subscriber

/-- `SubscriberManager::findTopicURLs`. -/
def findTopicURLs (t : NodeTable) (localNodeInfo : NodeInfo) (order : MapOrder)
    (topicName : Str) : List Str :=
  (t.getPublisherInfo localNodeInfo order topicName).map SocketInfo.url

/-- `SubscriberManager::_registerTopicSubscriber`, given the URLs `findTopicURLs` read. An
exception from `connect` leaves the list of subscribers as it was. -/
def registerTopicSubscriber (accepts : Str → Bool) (topicName : Str) (callback : κ)
    (urls : List Str) (subs : List (Subscriber κ)) : Outcome Exn (List (Subscriber κ)) :=
  match forEach (Subscriber.connect accepts) urls ⟨topicName, [], callback, .fresh⟩ with
  | .done sub => .done (subs ++ [sub])
  | .threw e _ => .threw e subs

/-- `SubscriberManager::updateTopicSubscriber`. -/
def updateTopicSubscriber (accepts : Str → Bool) (nodeInfo : NodeInfo)
    (subs : List (Subscriber κ)) : Outcome Exn (List (Subscriber κ)) :=
  forEach (fun topic => eachElem (Subscriber.updateTopic accepts topic)) nodeInfo.topics subs

/-- `SubscriberManager::removeTopicSubscriber`. -/
def removeTopicSubscriber (nodeInfo : NodeInfo) (subs : List (Subscriber κ)) :
    Outcome Exn (List (Subscriber κ)) :=
  forEach (fun topic => eachElem (Subscriber.removeTopic topic)) nodeInfo.topics subs

/-- The subscriptions the constructor of `SubscriberManager` makes. -/
def nodeUpdateEvent (accepts : Str → Bool) : Event NodeInfo (List (Subscriber κ)) :=
  ⟨[updateTopicSubscriber accepts]⟩

/-- The one that is told of a node when it is removed. -/
def nodeRemoveEvent : Event NodeInfo (List (Subscriber κ)) := ⟨[removeTopicSubscriber]⟩

@[simp] theorem trigger_nodeUpdateEvent (accepts : Str → Bool) :
    (nodeUpdateEvent (κ := κ) accepts).trigger = updateTopicSubscriber accepts := by
  funext info subs
  exact Event.trigger_single ..

@[simp] theorem trigger_nodeRemoveEvent :
    (nodeRemoveEvent (κ := κ)).trigger = removeTopicSubscriber := by
  funext info subs
  exact Event.trigger_single ..

end ZeroLanCom
