import ZeroLanCom.Library.Runs
import ZeroLanCom.Nodes.NodeInfoManager
import ZeroLanCom.Utils.UuidFormat

/-!
# The identity of a node

The node info manager draws its identifier when it is constructed. Heartbeats
can be encoded as long as the identifier keeps its 36 bytes, and no operation
of the manager writes it again.
-/

namespace ZeroLanCom

/-- `NodeInfoManager`, with the state that the callbacks of its events act on. -/
structure NodeInfoManager (σ : Type*) where
  nodes : NodeTable := .empty
  localNode : LocalNode
  nodeUpdateEvent : Event NodeInfo σ := ⟨[]⟩
  nodeRemoveEvent : Event NodeInfo σ := ⟨[]⟩
  callbackState : σ

namespace NodeInfoManager

variable {σ : Type*}

/-- The constructor, with the draws of `generateUUID`. -/
def new (name ip : Str) (r₀ r₁ r₂ r₃ : UInt32) (callbackState : σ) : NodeInfoManager σ :=
  { localNode := .new name ip r₀ r₁ r₂ r₃, callbackState := callbackState }

/-- The public operations. The const members only read; a callback that calls the manager back
makes a call of its own. -/
inductive Call (σ : Type*) where
  | query
  | removeNode (nodeID : Str)
  | checkHeartbeats (order : MapOrder) (now : Nat)
  | processHeartbeat (c : HeartbeatCall)
  | setGroupName (name : Str)
  | setServicePort (port : Int32)
  | registerLocalTopic (name : Str) (port : UInt16)
  | registerLocalService (name : Str) (port : UInt16)
  | subscribeUpdate (callback : NodeInfo → σ → Throwing.Outcome Exn σ)
  | subscribeRemove (callback : NodeInfo → σ → Throwing.Outcome Exn σ)

/-- One operation; its exception ends with the caller. -/
def step (m : NodeInfoManager σ) : Call σ → NodeInfoManager σ
  | .query => m
  | .removeNode nodeID => { m with nodes := m.nodes.removeNode nodeID }
  | .checkHeartbeats order now =>
    let p := (ZeroLanCom.checkHeartbeats m.nodeRemoveEvent order now
      (m.nodes, m.callbackState)).state
    { m with nodes := p.1, callbackState := p.2 }
  | .processHeartbeat c =>
    let p := heartbeatStep m.nodeUpdateEvent (m.nodes, m.callbackState) c
    { m with nodes := p.1, callbackState := p.2 }
  | .setGroupName name => { m with localNode := m.localNode.setGroupName name }
  | .setServicePort port => { m with localNode := m.localNode.setServicePort port }
  | .registerLocalTopic name port =>
    { m with localNode := m.localNode.registerLocalTopic name port }
  | .registerLocalService name port =>
    { m with localNode := m.localNode.registerLocalService name port }
  | .subscribeUpdate callback =>
    { m with nodeUpdateEvent := m.nodeUpdateEvent.subscribe callback }
  | .subscribeRemove callback =>
    { m with nodeRemoveEvent := m.nodeRemoveEvent.subscribe callback }

/-- `nodeID()`. -/
def nodeID (m : NodeInfoManager σ) : UUID := m.localNode.nodeID

/-- No operation writes the identifier. -/
theorem nodeID_step (m : NodeInfoManager σ) (call : Call σ) : (m.step call).nodeID = m.nodeID := by
  cases call <;> rfl

/-- A manager with a drawn identifier can announce itself. -/
theorem exists_encode_createHeartbeat {m : NodeInfoManager σ} {r₀ r₁ r₂ r₃ : UInt32}
    (h : m.nodeID = generateUUID r₀ r₁ r₂ r₃) :
    ∃ data, m.localNode.createHeartbeat.encode = .ok data := by
  apply HeartbeatMessage.exists_encode
  have hid : m.localNode.createHeartbeat.nodeId = generateUUID r₀ r₁ r₂ r₃ := h
  rw [hid, length_generateUUID]

/-- Every identifier is a version 4 UUID that shows all bits of its draws but the six fixed ones.
A manager keeps it in all its runs, and can always encode its heartbeat. -/
theorem generated_identity (σ : Type*) :
    (∀ r₀ r₁ r₂ r₃, IsUuidV4 (generateUUID r₀ r₁ r₂ r₃)) ∧
    (∀ r₀ r₁ r₂ r₃ s₀ s₁ s₂ s₃, generateUUID r₀ r₁ r₂ r₃ = generateUUID s₀ s₁ s₂ s₃ ↔
      r₀ = s₀ ∧ r₁ &&& versionMask = s₁ &&& versionMask ∧
        r₂ &&& variantMask = s₂ &&& variantMask ∧ r₃ = s₃) ∧
    ∀ name ip r₀ r₁ r₂ r₃ (callbackState : σ) (calls : List (Call σ)),
      Runs.Always step
        (fun m => m.nodeID = generateUUID r₀ r₁ r₂ r₃ ∧
          ∃ data, m.localNode.createHeartbeat.encode = .ok data)
        (new name ip r₀ r₁ r₂ r₃ callbackState) calls := by
  refine ⟨isUuidV4_generateUUID, fun _ _ _ _ _ _ _ _ => generateUUID_eq_iff, ?_⟩
  intro name ip r₀ r₁ r₂ r₃ callbackState calls
  apply Runs.always_of_invariant (I := fun m => m.nodeID = generateUUID r₀ r₁ r₂ r₃)
  · intro m call h
    exact (nodeID_step m call).trans h
  · intro m h
    exact ⟨h, exists_encode_createHeartbeat h⟩
  · rfl

end NodeInfoManager

end ZeroLanCom
