import ZeroLanCom.Nodes.NodeInfoManager

/-!
# Sweeps whose callbacks fail

`checkHeartbeats` fires the removal event of a node before it erases the node,
inside the loop over all expired nodes, and nothing in the loop catches an
exception. The first one therefore ends the sweep at its node.
-/

namespace ZeroLanCom

open Throwing

namespace NodeTable

/-- The node was heard, and too long ago. -/
def Expired (t : NodeTable) (now : Nat) (id : Str) : Prop :=
  ∃ last, t.nodesHeartbeat.lookup id = some last ∧ isExpired now last = true

/-- A sweep takes the expired nodes out of the three maps, leaves everybody else alone, and lets no
info stand without its version. -/
structure Swept (now : Nat) (t t' : NodeTable) : Prop where
  erased : ∀ id, t.Expired now id →
    id ∉ t'.nodesInfo ∧ id ∉ t'.nodesInfoId ∧ id ∉ t'.nodesHeartbeat
  kept : ∀ id, ¬ t.Expired now id →
    t'.nodesInfo.lookup id = t.nodesInfo.lookup id ∧
      t'.nodesInfoId.lookup id = t.nodesInfoId.lookup id ∧
      t'.nodesHeartbeat.lookup id = t.nodesHeartbeat.lookup id
  versioned : ∀ id ∈ t'.nodesInfo, id ∈ t'.nodesInfoId

/-- Every info that is not expired has its version. -/
def KeptVersioned (t : NodeTable) (now : Nat) : Prop :=
  ∀ id ∈ t.nodesInfo, ¬ t.Expired now id → id ∈ t.nodesInfoId

/-- Erasing the expired nodes one by one is a sweep, up to what was missing before. -/
theorem swept_removeNodes_iff (t : NodeTable) (order : MapOrder) (now : Nat) :
    Swept now t (t.removeNodes (t.toRemove order now)) ↔ t.KeptVersioned now := by
  have hlisted : ∀ id, id ∈ t.toRemove order now ↔ t.Expired now id := fun id => mem_toRemove
  have hkept : ∀ id, ¬ t.Expired now id → id ∉ t.toRemove order now :=
    fun id h => mt (hlisted id).mp h
  constructor
  · intro h id hid hfresh
    obtain ⟨hinfo, hinfoId, _⟩ := h.kept id hfresh
    have hafter : id ∈ (t.removeNodes (t.toRemove order now)).nodesInfo := by
      rwa [← AList.lookup_isSome, hinfo, AList.lookup_isSome]
    rw [← AList.lookup_isSome, ← hinfoId, AList.lookup_isSome]
    exact h.versioned id hafter
  · intro h
    refine ⟨fun id hid => ?_, fun id hid => ?_, fun id hid => ?_⟩
    · have hmem := (hlisted id).mpr hid
      refine ⟨?_, ?_, ?_⟩ <;> rw [← AList.lookup_eq_none]
      · rw [lookup_removeNodes, if_pos hmem]
      · rw [lookup_infoId_removeNodes, if_pos hmem]
      · rw [lookup_heartbeat_removeNodes, if_pos hmem]
    · rw [lookup_removeNodes, lookup_infoId_removeNodes, lookup_heartbeat_removeNodes,
        if_neg (hkept id hid), if_neg (hkept id hid), if_neg (hkept id hid)]
      exact ⟨rfl, rfl, rfl⟩
    · rw [← AList.lookup_isSome, lookup_removeNodes] at hid
      rw [← AList.lookup_isSome, lookup_infoId_removeNodes]
      split_ifs at hid ⊢ with hmem
      · cases hid
      · rw [AList.lookup_isSome] at hid ⊢
        exact h id hid (mt (hlisted id).mpr hmem)

/-- A node that the loop has reached but not erased is still known by its heartbeat. -/
theorem lookup_heartbeat_touchInfo (t : NodeTable) (id k : Str) :
    (t.touchInfo id).nodesHeartbeat.lookup k = t.nodesHeartbeat.lookup k := by
  unfold touchInfo
  split <;> rfl

end NodeTable

open NodeTable

variable {σ : Type*}

/-- The callbacks return on every expired node, in the order of the sweep. -/
def CallbacksReturn (nodeRemoveEvent : Event NodeInfo σ) (order : MapOrder) (now : Nat)
    (p : NodeTable × σ) : Prop :=
  ∃ s, forEach nodeRemoveEvent.trigger ((p.1.toRemove order now).map p.1.infoOf) p.2 = .done s

/-- An exception keeps the node in the table for which it was thrown. -/
theorem not_swept_of_threw {nodeRemoveEvent : Event NodeInfo σ} {order : MapOrder} {now : Nat}
    {p p' : NodeTable × σ} {e : Exn}
    (h : checkHeartbeats nodeRemoveEvent order now p = .threw e p') : ¬ Swept now p.1 p'.1 := by
  obtain ⟨gone, id, later, _, s', hids, _, _, rfl⟩ := checkHeartbeats_eq_threw_iff.mp h
  have hnodup := p.1.nodup_toRemove order now
  rw [hids] at hnodup
  have hnot : id ∉ gone := fun hmem =>
    List.disjoint_of_nodup_append hnodup hmem (List.mem_cons_self ..)
  have hexpired : p.1.Expired now id := by
    refine mem_toRemove.mp (?_ : id ∈ p.1.toRemove order now)
    rw [hids]
    exact List.mem_append_right gone (List.mem_cons_self ..)
  intro hswept
  obtain ⟨last, hlast, _⟩ := hexpired
  refine (hswept.erased id ⟨last, hlast, ‹_›⟩).2.2 ?_
  rw [← AList.lookup_isSome, lookup_heartbeat_touchInfo, lookup_heartbeat_removeNodes,
    if_neg hnot, hlast, Option.isSome_some]

/-- Returning or throwing, `checkHeartbeats` sweeps the table exactly when no callback throws on an
expired node and nobody else lacked a version before. -/
theorem sweep_robust_iff (nodeRemoveEvent : Event NodeInfo σ) (order : MapOrder) (now : Nat)
    (p : NodeTable × σ) :
    Swept now p.1 (checkHeartbeats nodeRemoveEvent order now p).state.1 ↔
      CallbacksReturn nodeRemoveEvent order now p ∧ p.1.KeptVersioned now := by
  cases h : checkHeartbeats nodeRemoveEvent order now p with
  | done p' =>
    obtain ⟨s, hs, rfl⟩ := checkHeartbeats_eq_done_iff.mp h
    have hreturn : CallbacksReturn nodeRemoveEvent order now p := ⟨s, hs⟩
    rw [and_iff_right hreturn]
    exact swept_removeNodes_iff p.1 order now
  | threw e p' =>
    refine iff_of_false (not_swept_of_threw h) ?_
    rintro ⟨⟨s, hs⟩, _⟩
    rw [checkHeartbeats_eq_done_iff.mpr ⟨s, hs, rfl⟩] at h
    cases h

/-- A callback that throws. -/
def failingEvent : Event NodeInfo Unit := ⟨[fun _ s => .threw .stdException s]⟩

/-- Two nodes that were heard at time zero, but whose infos never came. -/
def heardTable : NodeTable :=
  (NodeTable.empty.noteHeartbeat (ascii "a") 0).noteHeartbeat (ascii "b") 0

/-- Three seconds later both are expired. The sweep stops at the first of them and erases neither,
and the first is left with an info that has no version. -/
theorem failing_callback_stops_sweep :
    ¬ Swept 3000000000 heardTable
        (checkHeartbeats failingEvent .stored 3000000000 (heardTable, ())).state.1 ∧
      ascii "b" ∈ (checkHeartbeats failingEvent .stored 3000000000
        (heardTable, ())).state.1.nodesInfo ∧
      ascii "b" ∉ (checkHeartbeats failingEvent .stored 3000000000
        (heardTable, ())).state.1.nodesInfoId := by
  refine ⟨fun hswept => ?_, by decide, by decide⟩
  have hgone := (hswept.erased (ascii "a") ⟨0, by decide, by decide⟩).2.2
  exact absurd (by decide) hgone

end ZeroLanCom
