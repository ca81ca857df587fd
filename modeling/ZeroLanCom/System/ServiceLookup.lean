import ZeroLanCom.System.Connectivity

/-!
# Finding services

A lookup of a service goes through the infos in the table and the one of the
node itself. It finds what is listed in one of them, and what it finds some node
has registered.
-/

namespace ZeroLanCom

variable {ν κ : Type}

/-- What a lookup finds is in the table or of the node itself. -/
theorem NodeTable.mem_of_getServiceInfo {t : NodeTable} {localNodeInfo : NodeInfo}
    {order : MapOrder} {serviceName : Str} {service : SocketInfo}
    (h : t.getServiceInfo localNodeInfo order serviceName = some service) :
    service.name = serviceName ∧
      ((∃ id info, t.nodesInfo.lookup id = some info ∧ service ∈ info.services) ∨
        service ∈ localNodeInfo.services) := by
  unfold getServiceInfo at h
  refine ⟨by simpa using List.find?_some h, ?_⟩
  rcases List.mem_append.mp (List.mem_of_find?_eq_some h) with hremote | hown
  · obtain ⟨⟨id, info⟩, he, hservice⟩ := List.mem_flatMap.mp hremote
    exact Or.inl ⟨id, info, AList.mem_lookup_iff.mpr ((order.perm _).mem_iff.mp he), hservice⟩
  · exact Or.inr hown

/-- It finds something if there is anything to find. -/
theorem NodeTable.exists_getServiceInfo {t : NodeTable} {localNodeInfo : NodeInfo}
    (order : MapOrder) {service : SocketInfo}
    (h : (∃ id info, t.nodesInfo.lookup id = some info ∧ service ∈ info.services) ∨
      service ∈ localNodeInfo.services) :
    ∃ found, t.getServiceInfo localNodeInfo order service.name = some found := by
  rw [← Option.isSome_iff_exists, getServiceInfo, List.find?_isSome]
  refine ⟨service, ?_, decide_eq_true rfl⟩
  rcases h with ⟨id, info, hlookup, hservice⟩ | hservice
  · have he := (order.perm t.nodesInfo.entries).mem_iff.mpr (AList.mem_lookup_iff.mp hlookup)
    exact List.mem_append_left _ (List.mem_flatMap.mpr ⟨⟨id, info⟩, he, hservice⟩)
  · exact List.mem_append_right _ hservice

namespace Lan

variable [DecidableEq ν] {accepts : Str → Bool} {s : Lan ν κ}

/-- `NodeInfoManager::getServiceInfo` of one node. -/
def getServiceInfo (s : Lan ν κ) (n : ν) (order : MapOrder) (serviceName : Str) :
    Option SocketInfo :=
  (s.nodes n).receiver.table.getServiceInfo (s.nodeInfo n) order serviceName

/-- Whatever a lookup finds has been registered by some node. -/
theorem Directory.registered (h : s.Directory) {n : ν} {order : MapOrder} {serviceName : Str}
    {service : SocketInfo} (hfound : s.getServiceInfo n order serviceName = some service) :
    service.name = serviceName ∧ ∃ m, service ∈ (s.nodeInfo m).services := by
  obtain ⟨hname, ⟨id, info, hlookup, hservice⟩ | hown⟩ := NodeTable.mem_of_getServiceInfo hfound
  · obtain ⟨m, _, _, hversion⟩ := (h.knowledge n).stored id info hlookup
    exact ⟨hname, m, hversion.services.subset hservice⟩
  · exact ⟨hname, n, hown⟩

end Lan

end ZeroLanCom
