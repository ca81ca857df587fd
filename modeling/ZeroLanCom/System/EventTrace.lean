import ZeroLanCom.Library.Runs
import ZeroLanCom.System.ReceiveTask

/-!
# The history of events

Updates are announced when an info is stored, removals when a time has expired,
and the times know nodes whose info never came. `removeNode` erases a node
without an event.
-/

namespace ZeroLanCom

open Throwing

/-- An event with the key of the node it is about. -/
inductive Occurrence where
  | update (nodeID : Str) (info : NodeInfo)
  | remove (nodeID : Str) (info : NodeInfo)

namespace Occurrence

/-- The node a removal event is about. -/
def removed : Occurrence → Option Str
  | .update _ _ => none
  | .remove nodeID _ => some nodeID

/-- What is known of each node after the event. -/
def apply (known : Str → Option NodeInfo) : Occurrence → Str → Option NodeInfo
  | .update nodeID info => Function.update known nodeID (some info)
  | .remove nodeID _ => Function.update known nodeID none

/-- The callbacks run. -/
def trigger {σ : Type*} (nodeUpdateEvent nodeRemoveEvent : Event NodeInfo σ) :
    Occurrence → σ → Outcome Exn σ
  | .update _ info => nodeUpdateEvent.trigger info
  | .remove _ info => nodeRemoveEvent.trigger info

end Occurrence

/-- The info of the latest update event about each node since its previous removal event. -/
def latestUpdate (trace : List Occurrence) : Str → Option NodeInfo :=
  trace.foldl Occurrence.apply fun _ => none

/-- Every removal event comes after an update event about the node, with no removal event in
between, and carries the info of the latest one. -/
def Orderly (trace : List Occurrence) : Prop :=
  ∀ before nodeID info later, trace = before ++ .remove nodeID info :: later →
    latestUpdate before nodeID = some info

/-- What is known after a history goes on from what was known before. -/
theorem latestUpdate_append (trace more : List Occurrence) :
    latestUpdate (trace ++ more) = more.foldl Occurrence.apply (latestUpdate trace) :=
  List.foldl_append

/-- A history goes on orderly if each further removal event fits what came before it. -/
theorem orderly_append_iff {trace more : List Occurrence} :
    Orderly (trace ++ more) ↔ Orderly trace ∧ ∀ before nodeID info later,
      more = before ++ .remove nodeID info :: later →
        latestUpdate (trace ++ before) nodeID = some info := by
  constructor
  · intro h
    constructor
    · rintro before nodeID info later rfl
      exact h before nodeID info (later ++ more) (by simp)
    · rintro before nodeID info later rfl
      exact h (trace ++ before) nodeID info later (by simp)
  · rintro ⟨htrace, hmore⟩ before nodeID info later heq
    rcases List.append_eq_append_iff.mp heq with ⟨c, rfl, hc⟩ | ⟨c, rfl, hc⟩
    · exact hmore c nodeID info later hc
    · cases c with
      | nil =>
        have hfirst := hmore [] nodeID info later hc.symm
        rwa [List.append_nil, List.append_nil] at hfirst
      | cons o c =>
        obtain ⟨rfl, _⟩ := List.cons.inj hc
        exact htrace before nodeID info c rfl

/-- The removal events of a sweep. -/
def removals (infoOf : Str → NodeInfo) (ids : List Str) : List Occurrence :=
  ids.map fun id => .remove id (infoOf id)

/-- The removals of a sweep name its nodes, in order. -/
theorem removed_removals (infoOf : Str → NodeInfo) (ids : List Str) :
    (removals infoOf ids).filterMap Occurrence.removed = ids := by
  rw [removals, List.filterMap_map]
  exact List.filterMap_some

/-- After them nothing is known of the nodes removed. -/
theorem latestUpdate_removals (trace : List Occurrence) (infoOf : Str → NodeInfo)
    (ids : List Str) (k : Str) :
    latestUpdate (trace ++ removals infoOf ids) k =
      if k ∈ ids then none else latestUpdate trace k := by
  induction ids generalizing trace with
  | nil => simp [removals]
  | cons id ids ih =>
    have hone : latestUpdate (trace ++ [.remove id (infoOf id)]) =
        Function.update (latestUpdate trace) id none := latestUpdate_append ..
    have hsplit : trace ++ removals infoOf (id :: ids) =
        trace ++ [.remove id (infoOf id)] ++ removals infoOf ids := by simp [removals]
    rw [hsplit, ih, hone]
    by_cases hk : k = id
    · simp [hk]
    · simp [hk]

/-- They are orderly exactly if each carries the latest info of its node. -/
theorem orderly_removals_iff {trace : List Occurrence} {infoOf : Str → NodeInfo} {ids : List Str}
    (hnodup : ids.Nodup) :
    Orderly (trace ++ removals infoOf ids) ↔
      Orderly trace ∧ ∀ id ∈ ids, latestUpdate trace id = some (infoOf id) := by
  rw [orderly_append_iff]
  refine and_congr_right fun _ => ⟨?_, ?_⟩
  · intro h id hid
    obtain ⟨front, back, rfl⟩ := List.append_of_mem hid
    have hlatest := h (removals infoOf front) id (infoOf id) (removals infoOf back)
      (by simp [removals])
    have hfront : id ∉ front := fun hmem =>
      List.disjoint_of_nodup_append hnodup hmem (List.mem_cons_self ..)
    rwa [latestUpdate_removals, if_neg hfront] at hlatest
  · intro h before nodeID info later heq
    obtain ⟨front, back, rfl, rfl, hback⟩ := List.map_eq_append_iff.mp heq
    obtain ⟨id, rest, rfl, hid, rfl⟩ := List.map_eq_cons_iff.mp hback
    obtain ⟨rfl, rfl⟩ := Occurrence.remove.inj hid
    have hfront : id ∉ front := fun hmem =>
      List.disjoint_of_nodup_append hnodup hmem (List.mem_cons_self ..)
    have hlatest := latestUpdate_removals trace infoOf front id
    rw [if_neg hfront] at hlatest
    exact hlatest.trans (h id (by simp))

/-- The calls that change the table. -/
inductive TableOp where
  | processHeartbeat (c : HeartbeatCall)
  | checkHeartbeats (order : MapOrder) (now : Nat)
  | removeNode (nodeID : Str)

namespace TableOp

variable {σ : Type*}

/-- One call of a run; its exception ends with the caller. -/
def exec (nodeUpdateEvent nodeRemoveEvent : Event NodeInfo σ) (p : NodeTable × σ) :
    TableOp → NodeTable × σ
  | .processHeartbeat c => heartbeatStep nodeUpdateEvent p c
  | .checkHeartbeats order now =>
    (ZeroLanCom.checkHeartbeats nodeRemoveEvent order now p).state
  | .removeNode nodeID => (p.1.removeNode nodeID, p.2)

/-- The events of the call, in order. -/
def occurrences (t : NodeTable) : TableOp → List Occurrence
  | .processHeartbeat c =>
    if c.fetches t then
      match c.fetched with
      | none => []
      | some info => [.update c.heartbeat.nodeId info]
    else []
  | .checkHeartbeats order now => removals t.infoOf (t.toRemove order now)
  | .removeNode _ => []

/-- A heartbeat that fetches nothing fires no event. -/
theorem occurrences_of_noted {t : NodeTable} {c : HeartbeatCall}
    (h : c.fetches t = true → c.fetched = none) : (processHeartbeat c).occurrences t = [] := by
  rw [occurrences]
  split_ifs with hfetches
  · rw [h hfetches]
  · rfl

/-- One that stores an info fires one update event with it. -/
theorem occurrences_of_stored {t : NodeTable} {c : HeartbeatCall} {info : NodeInfo}
    (hfetches : c.fetches t = true) (hfetched : c.fetched = some info) :
    (processHeartbeat c).occurrences t = [.update c.heartbeat.nodeId info] := by
  rw [occurrences, if_pos hfetches, hfetched]

variable (nodeUpdateEvent nodeRemoveEvent : Event NodeInfo σ)

/-- The callbacks of these events are all that a call does besides writing the table. -/
theorem exec_callbacks (p : NodeTable × σ) (op : TableOp) :
    (op.exec nodeUpdateEvent nodeRemoveEvent p).2 =
      (forEach (Occurrence.trigger nodeUpdateEvent nodeRemoveEvent) (op.occurrences p.1)
        p.2).state := by
  cases op with
  | removeNode nodeID => rfl
  | checkHeartbeats order now =>
    rw [exec, checkHeartbeats_callbacks, occurrences, removals, forEach_map, forEach_map]
    rfl
  | processHeartbeat c =>
    rw [exec]
    rcases heartbeatStep_cases nodeUpdateEvent p c with
      ⟨hquiet, hstep⟩ | ⟨info, hfetches, hfetched, hstep⟩
    · rw [hstep, occurrences_of_noted hquiet]
      rfl
    · have hone : Occurrence.trigger nodeUpdateEvent nodeRemoveEvent
          (.update c.heartbeat.nodeId info) p.2 = nodeUpdateEvent.trigger info p.2 := rfl
      rw [hstep, occurrences_of_stored hfetches hfetched, forEach_cons, hone]
      cases nodeUpdateEvent.trigger info p.2 <;> rfl

end TableOp

section Runs

variable {σ : Type*} (nodeUpdateEvent nodeRemoveEvent : Event NodeInfo σ)

/-- One call, with the history so far. -/
def tracedStep (p : (NodeTable × σ) × List Occurrence) (op : TableOp) :
    (NodeTable × σ) × List Occurrence :=
  (op.exec nodeUpdateEvent nodeRemoveEvent p.1, p.2 ++ op.occurrences p.1.1)

/-- Nobody has been heard, and nothing has happened. -/
def untraced (s : σ) : (NodeTable × σ) × List Occurrence := ((.empty, s), [])

/-- A node that leaves the table in this call has one removal event in it. -/
def RemovedOnce (p : (NodeTable × σ) × List Occurrence) (op : TableOp) : Prop :=
  ∀ id ∈ p.1.1.nodesInfo, id ∉ (op.exec nodeUpdateEvent nodeRemoveEvent p.1).1.nodesInfo →
    ((op.occurrences p.1.1).filterMap Occurrence.removed).count id = 1

/-- A sweep expires only nodes that are in `nodes_info_`, and `removeNode` only erases nodes that
are not. -/
def LeavesInOrder (p : (NodeTable × σ) × List Occurrence) : TableOp → Prop
  | .processHeartbeat _ => True
  | .checkHeartbeats order now => ∀ id ∈ p.1.1.toRemove order now, id ∈ p.1.1.nodesInfo
  | .removeNode nodeID => nodeID ∉ p.1.1.nodesInfo

/-- The history knows the infos of the table. -/
def TraceMatches (p : (NodeTable × σ) × List Occurrence) : Prop :=
  ∀ id, latestUpdate p.2 id = p.1.1.nodesInfo.lookup id

variable {nodeUpdateEvent nodeRemoveEvent}

/-- A call that lets its nodes leave in order keeps history and table together. -/
theorem traceMatches_step (hremove : nodeRemoveEvent.Returns)
    {p : (NodeTable × σ) × List Occurrence} {op : TableOp} (h : TraceMatches p)
    (hop : LeavesInOrder p op) :
    TraceMatches (tracedStep nodeUpdateEvent nodeRemoveEvent p op) := by
  intro id
  cases op with
  | removeNode nodeID =>
    have hsame : latestUpdate (p.2 ++ []) id = latestUpdate p.2 id := by rw [List.append_nil]
    change latestUpdate (p.2 ++ []) id = (p.1.1.removeNode nodeID).nodesInfo.lookup id
    rw [hsame, h, NodeTable.lookup_removeNode]
    split_ifs with hid
    · rw [hid]
      exact AList.lookup_eq_none.mpr hop
    · rfl
  | checkHeartbeats order now =>
    obtain ⟨s, hs⟩ := checkHeartbeats_returns hremove order now p.1
    simp only [tracedStep, TableOp.exec, TableOp.occurrences, hs, Outcome.state_done,
      latestUpdate_removals, NodeTable.lookup_removeNodes, h id]
  | processHeartbeat c =>
    rw [tracedStep, TableOp.exec]
    rcases heartbeatStep_cases nodeUpdateEvent p.1 c with
      ⟨hquiet, hstep⟩ | ⟨info, hfetches, hfetched, hstep⟩
    · rw [hstep, TableOp.occurrences_of_noted hquiet, List.append_nil]
      exact h id
    · rw [hstep, TableOp.occurrences_of_stored hfetches hfetched,
        NodeTable.lookup_updateNodeUnlocked, latestUpdate_append]
      change Function.update (latestUpdate p.2) c.heartbeat.nodeId (some info) id = _
      rw [Function.update_apply]
      split_ifs
      · rfl
      · exact h id

/-- A heartbeat has no removal events. -/
theorem removed_of_heartbeat {t : NodeTable} {c : HeartbeatCall} {o : Occurrence}
    (h : o ∈ (TableOp.processHeartbeat c).occurrences t) : o.removed = none := by
  by_cases hquiet : c.fetches t = true → c.fetched = none
  · rw [TableOp.occurrences_of_noted hquiet] at h
    cases h
  · push Not at hquiet
    obtain ⟨hfetches, hsome⟩ := hquiet
    obtain ⟨info, hfetched⟩ := Option.ne_none_iff_exists'.mp hsome
    rw [TableOp.occurrences_of_stored hfetches hfetched] at h
    rw [List.mem_singleton.mp h, Occurrence.removed]

/-- It does not make anybody leave either. -/
theorem mem_nodesInfo_heartbeatStep {p : NodeTable × σ} {c : HeartbeatCall} {id : Str}
    (h : id ∈ p.1.nodesInfo) : id ∈ (heartbeatStep nodeUpdateEvent p c).1.nodesInfo := by
  rcases heartbeatStep_cases nodeUpdateEvent p c with ⟨_, hstep⟩ | ⟨info, _, _, hstep⟩
  · rw [hstep]
    exact h
  · rw [hstep]
    exact (AList.mem_insert _).mpr (Or.inr h)

/-- An entry is what reading it yields. -/
theorem lookup_eq_some_infoOf_iff {t : NodeTable} {id : Str} :
    t.nodesInfo.lookup id = some (t.infoOf id) ↔ id ∈ t.nodesInfo := by
  rw [← AList.lookup_isSome, NodeTable.infoOf]
  cases t.nodesInfo.lookup id <;> simp

/-- A sweep fires the removal event once for everybody it takes out. -/
theorem removedOnce_checkHeartbeats (hremove : nodeRemoveEvent.Returns)
    (p : (NodeTable × σ) × List Occurrence) (order : MapOrder) (now : Nat) :
    RemovedOnce nodeUpdateEvent nodeRemoveEvent p (.checkHeartbeats order now) := by
  intro id hid hgone
  obtain ⟨s, hs⟩ := checkHeartbeats_returns hremove order now p.1
  rw [TableOp.exec, hs, Outcome.state_done, ← AList.lookup_eq_none,
    NodeTable.lookup_removeNodes] at hgone
  rw [TableOp.occurrences, removed_removals]
  apply List.count_eq_one_of_mem (p.1.1.nodup_toRemove order now)
  by_contra hkept
  rw [if_neg hkept, AList.lookup_eq_none] at hgone
  exact hgone hid

/-- `removeNode` fires nothing, so it must not take anybody out. -/
theorem removedOnce_removeNode_iff (p : (NodeTable × σ) × List Occurrence) (nodeID : Str) :
    RemovedOnce nodeUpdateEvent nodeRemoveEvent p (.removeNode nodeID) ↔
      nodeID ∉ p.1.1.nodesInfo := by
  constructor
  · intro honce hid
    have hgone : nodeID ∉ (p.1.1.removeNode nodeID).nodesInfo :=
      fun hmem => (AList.mem_erase.mp hmem).1 rfl
    exact absurd (honce nodeID hid hgone) (by simp [TableOp.occurrences])
  · intro hnot id hid hgone
    have hne : id ≠ nodeID := fun he => hnot (he ▸ hid)
    exact absurd (AList.mem_erase.mpr ⟨hne, hid⟩) hgone

/-- A heartbeat fires no removal event, so the history stays orderly. -/
theorem orderly_heartbeat {p : (NodeTable × σ) × List Occurrence} (h : Orderly p.2)
    (c : HeartbeatCall) :
    Orderly (tracedStep nodeUpdateEvent nodeRemoveEvent p (.processHeartbeat c)).2 := by
  refine orderly_append_iff.mpr ⟨h, fun before nodeID info later heq => ?_⟩
  have hmem : Occurrence.remove nodeID info ∈ (TableOp.processHeartbeat c).occurrences p.1.1 :=
    heq ▸ List.mem_append_right before (List.mem_cons_self ..)
  exact absurd (removed_of_heartbeat hmem) (Option.some_ne_none nodeID)

/-- The history stays orderly, and whoever leaves has a removal event, exactly if the call lets
the nodes leave in order. -/
theorem orderly_step_iff (hremove : nodeRemoveEvent.Returns)
    {p : (NodeTable × σ) × List Occurrence} {op : TableOp} (hmatch : TraceMatches p)
    (h : Orderly p.2) :
    Orderly (tracedStep nodeUpdateEvent nodeRemoveEvent p op).2 ∧
        RemovedOnce nodeUpdateEvent nodeRemoveEvent p op ↔ LeavesInOrder p op := by
  cases op with
  | removeNode nodeID =>
    have hsame : (tracedStep nodeUpdateEvent nodeRemoveEvent p (.removeNode nodeID)).2 = p.2 :=
      List.append_nil _
    rw [hsame, and_iff_right h]
    exact removedOnce_removeNode_iff p nodeID
  | checkHeartbeats order now =>
    rw [and_iff_left (removedOnce_checkHeartbeats hremove p order now), tracedStep,
      TableOp.occurrences, orderly_removals_iff (p.1.1.nodup_toRemove order now),
      and_iff_right h, LeavesInOrder]
    exact forall₂_congr fun id _ => by rw [hmatch, lookup_eq_some_infoOf_iff]
  | processHeartbeat c =>
    refine iff_of_true ⟨orderly_heartbeat h c, ?_⟩ trivial
    exact fun id hid hgone => absurd (mem_nodesInfo_heartbeatStep hid) hgone

/-- Along every run in which callbacks return, from an empty table, the history is orderly and
whoever leaves has one removal event, exactly if the nodes always leave in order. -/
theorem event_trace_iff (nodeUpdateEvent : Event NodeInfo σ) (hremove : nodeRemoveEvent.Returns)
    (s : σ) (ops : List TableOp) :
    (Runs.Always (tracedStep nodeUpdateEvent nodeRemoveEvent) (fun p => Orderly p.2)
        (untraced s) ops ∧
      Runs.Each (tracedStep nodeUpdateEvent nodeRemoveEvent)
        (RemovedOnce nodeUpdateEvent nodeRemoveEvent) (untraced s) ops) ↔
      Runs.Each (tracedStep nodeUpdateEvent nodeRemoveEvent) LeavesInOrder (untraced s) ops := by
  have hstart : TraceMatches (untraced s) := fun _ => rfl
  have horderly : Orderly (untraced s).2 := by
    intro before nodeID info later heq
    have hnil : before ++ .remove nodeID info :: later = [] := heq.symm
    simp at hnil
  exact Runs.always_and_each_iff (fun _ _ hmatch hop => traceMatches_step hremove hmatch hop)
    (fun _ _ hmatch h => orderly_step_iff hremove hmatch h) hstart horderly ops

/-- A heartbeat whose fetch ends in this way. -/
def heardOnce (fetched : Option NodeInfo) : TableOp :=
  .processHeartbeat ⟨⟨(0, 1, 0), ascii "a", 7, 6000, ascii "lab"⟩, ascii "10.0.0.2",
    fun _ _ => fetched, 0, 0⟩

/-- The removal event fires with an info nobody was told of. -/
theorem failed_fetch_announces_removal :
    ¬ (Runs.Always (tracedStep (⟨[]⟩ : Event NodeInfo Unit) ⟨[]⟩) (fun p => Orderly p.2)
        (untraced ()) [heardOnce none, .checkHeartbeats .stored 4000000000] ∧
      Runs.Each (tracedStep (⟨[]⟩ : Event NodeInfo Unit) ⟨[]⟩) (RemovedOnce ⟨[]⟩ ⟨[]⟩)
        (untraced ()) [heardOnce none, .checkHeartbeats .stored 4000000000]) := by
  rintro ⟨⟨_, _, horderly⟩, _⟩
  have hlatest := horderly [] (ascii "a") default [] rfl
  cases hlatest

/-- A node whose info came leaves with its removal event. -/
theorem event_trace_expired :
    Runs.Always (tracedStep (⟨[]⟩ : Event NodeInfo Unit) ⟨[]⟩) (fun p => Orderly p.2)
        (untraced ()) [heardOnce (some {}), .checkHeartbeats .stored 4000000000] ∧
      Runs.Each (tracedStep (⟨[]⟩ : Event NodeInfo Unit) ⟨[]⟩) (RemovedOnce ⟨[]⟩ ⟨[]⟩)
        (untraced ()) [heardOnce (some {}), .checkHeartbeats .stored 4000000000] := by
  have hsweep : LeavesInOrder (tracedStep (⟨[]⟩ : Event NodeInfo Unit) ⟨[]⟩ (untraced ())
      (heardOnce (some {}))) (.checkHeartbeats .stored 4000000000) := by
    unfold LeavesInOrder
    decide
  exact (event_trace_iff ⟨[]⟩ (fun _ s => ⟨s, rfl⟩) () _).mpr ⟨trivial, hsweep, trivial⟩

end Runs

end ZeroLanCom
