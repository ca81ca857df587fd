import ZeroLanCom.Sockets.ServiceManager

/-!
# Services that are advertised and services that are served

The handlers are a map in the service manager, the adverts a list in the node
info. Registration writes both; the map replaces the handler of a known name,
while the list gets a second entry. Removing and clearing write the map alone,
and the map also holds the handler that serves the node info itself.
-/

namespace ZeroLanCom

/-- The service that no node advertises. -/
def getNodeInfoName : Str := ascii "get_node_info"

/-- `ZeroLanComNode::registerGetNodeInfoService`, with the info that its handler reads when it is
called. -/
def registerGetNodeInfoService (infoType : MsgPack NodeInfo) (localNodeInfo : NodeInfo)
    (handlers : Handlers) : Handlers :=
  registerHandler emptyCodec infoType getNodeInfoName (fun _ => .ok localNodeInfo) handlers

/-- The two singletons that know of services, and the port the reply socket is bound to. -/
structure ServiceNode where
  handlers : Handlers
  localNode : LocalNode
  servicePort : Int32

namespace ServiceNode

/-- A node that has just been started. -/
def running (infoType : MsgPack NodeInfo) (name ip groupName : Str) (r₀ r₁ r₂ r₃ : UInt32)
    (servicePort : Int32) : ServiceNode :=
  let localNode :=
    ((LocalNode.new name ip r₀ r₁ r₂ r₃).setServicePort servicePort).setGroupName groupName
  ⟨registerGetNodeInfoService infoType localNode.getLocalNodeInfo ∅, localNode, servicePort⟩

/-- `zlc::registerServiceHandler`, with a function or with a bound member function. -/
def registerServiceHandler {ρ₁ ρ₂ : Type} (request : MsgPack ρ₁) (response : MsgPack ρ₂)
    (serviceName : Str) (func : ρ₁ → Except Exn ρ₂) (n : ServiceNode) : ServiceNode :=
  { n with
    handlers := registerHandler request response serviceName func n.handlers
    localNode := n.localNode.registerLocalService serviceName n.servicePort.toUInt32.toUInt16 }

/-- The names of `localNodeInfo_.services`. -/
def advertisedServices (n : ServiceNode) : List Str :=
  n.localNode.localNodeInfo.services.map SocketInfo.name

/-- The calls that change the services of a running node. -/
inductive Op where
  | registerServiceHandler {ρ₁ ρ₂ : Type} (request : MsgPack ρ₁) (response : MsgPack ρ₂)
    (serviceName : Str) (func : ρ₁ → Except Exn ρ₂)
  | removeHandler (name : Str)
  | clearHandlers

/-- The effect of one call. -/
def step (n : ServiceNode) : Op → ServiceNode
  | .registerServiceHandler request response serviceName func =>
    n.registerServiceHandler request response serviceName func
  | .removeHandler name => { n with handlers := ZeroLanCom.removeHandler name n.handlers }
  | .clearHandlers => { n with handlers := ZeroLanCom.clearHandlers n.handlers }

/-- The services advertised are the ones served, each advertised once, and the node info has the
handler it had at the start. -/
structure AdvertisesServed (start n : ServiceNode) : Prop where
  served : ∀ name, name ∈ n.advertisedServices ↔ name ∈ n.handlers ∧ name ≠ getNodeInfoName
  once : n.advertisedServices.Nodup
  nodeInfo : getNodeInfoName ∈ n.handlers
  kept : n.handlers.lookup getNodeInfoName = start.handlers.lookup getNodeInfoName

/-- The call registers a name without a handler, or removes a name without a handler. -/
def LeavesHandlers (n : ServiceNode) : Op → Prop
  | .registerServiceHandler _ _ serviceName _ => serviceName ∉ n.handlers
  | .removeHandler name => name ∉ n.handlers
  | .clearHandlers => False

section Steps

variable {start n : ServiceNode}

/-- Every registration adds one advert, whoever had the name before. -/
theorem advertisedServices_registerServiceHandler {ρ₁ ρ₂ : Type} (request : MsgPack ρ₁)
    (response : MsgPack ρ₂) (serviceName : Str) (func : ρ₁ → Except Exn ρ₂) (n : ServiceNode) :
    (n.registerServiceHandler request response serviceName func).advertisedServices =
      n.advertisedServices ++ [serviceName] :=
  List.map_append

/-- A name that has a handler is advertised, or is the one of the node info. -/
theorem AdvertisesServed.mem_or_eq (h : start.AdvertisesServed n) {name : Str}
    (hname : name ∈ n.handlers) : name ∈ n.advertisedServices ∨ name = getNodeInfoName := by
  by_cases heq : name = getNodeInfoName
  · exact Or.inr heq
  · exact Or.inl ((h.served name).mpr ⟨hname, heq⟩)

/-- Registering keeps adverts and handlers alike exactly if the name is new. -/
theorem register_advertisesServed_iff (h : start.AdvertisesServed n) {ρ₁ ρ₂ : Type}
    (request : MsgPack ρ₁) (response : MsgPack ρ₂) (serviceName : Str)
    (func : ρ₁ → Except Exn ρ₂) :
    start.AdvertisesServed (n.registerServiceHandler request response serviceName func) ↔
      serviceName ∉ n.handlers := by
  have hadvertised := advertisedServices_registerServiceHandler request response serviceName func n
  constructor
  · intro hafter hknown
    rcases h.mem_or_eq hknown with htwice | hinternal
    · -- advertised a second time
      have honce := hafter.once
      rw [hadvertised] at honce
      exact List.disjoint_of_nodup_append honce htwice (List.mem_singleton_self _)
    · have hserved := (hafter.served serviceName).mp (by rw [hadvertised]; simp)
      exact hserved.2 hinternal
  · intro hnew
    have hother : getNodeInfoName ≠ serviceName := fun he => hnew (he ▸ h.nodeInfo)
    refine ⟨fun name => ?_, ?_, ?_, ?_⟩
    · rw [hadvertised, List.mem_append, List.mem_singleton, h.served]
      change _ ↔ name ∈ AList.insert serviceName _ n.handlers ∧ _
      rw [AList.mem_insert]
      constructor
      · rintro (⟨hmem, hne⟩ | rfl)
        · exact ⟨Or.inr hmem, hne⟩
        · exact ⟨Or.inl rfl, hother.symm⟩
      · rintro ⟨rfl | hmem, hne⟩
        · exact Or.inr rfl
        · exact Or.inl ⟨hmem, hne⟩
    · rw [hadvertised, List.nodup_append_comm, List.singleton_append, List.nodup_cons]
      exact ⟨fun hmem => hnew ((h.served serviceName).mp hmem).1, h.once⟩
    · exact (AList.mem_insert _).mpr (Or.inr h.nodeInfo)
    · exact (AList.lookup_insert_ne hother).trans h.kept

/-- Removing keeps them alike exactly if there was nothing to remove. -/
theorem remove_advertisesServed_iff (h : start.AdvertisesServed n) (name : Str) :
    start.AdvertisesServed (n.step (.removeHandler name)) ↔ name ∉ n.handlers := by
  constructor
  · intro hafter hknown
    have hgone : name ∉ n.handlers.erase name := fun hmem => (AList.mem_erase.mp hmem).1 rfl
    rcases h.mem_or_eq hknown with hlisted | rfl
    · exact hgone ((hafter.served name).mp hlisted).1
    · exact hgone hafter.nodeInfo
  · intro hnone
    have hsame : n.handlers.erase name = n.handlers :=
      AList.ext (List.kerase_of_notMem_keys hnone)
    change start.AdvertisesServed { n with handlers := n.handlers.erase name }
    rw [hsame]
    exact h

/-- One call keeps adverts and handlers together exactly if it leaves the handlers there are. -/
theorem step_advertisesServed_iff (h : start.AdvertisesServed n) (op : Op) :
    start.AdvertisesServed (n.step op) ↔ n.LeavesHandlers op := by
  cases op with
  | registerServiceHandler request response serviceName func =>
    exact register_advertisesServed_iff h request response serviceName func
  | removeHandler name => exact remove_advertisesServed_iff h name
  | clearHandlers =>
    refine iff_of_false (fun hafter => ?_) id
    exact absurd hafter.nodeInfo (AList.notMem_empty _)

end Steps

/-- A node that has just been started serves its info, and advertises nothing. -/
theorem running_advertisesServed (infoType : MsgPack NodeInfo) (name ip groupName : Str)
    (r₀ r₁ r₂ r₃ : UInt32) (servicePort : Int32) :
    (running infoType name ip groupName r₀ r₁ r₂ r₃ servicePort).AdvertisesServed
      (running infoType name ip groupName r₀ r₁ r₂ r₃ servicePort) := by
  have hhandlers : ∀ service, service ∈ (running infoType name ip groupName r₀ r₁ r₂ r₃
      servicePort).handlers ↔ service = getNodeInfoName := by
    intro service
    refine (AList.mem_insert _).trans ⟨fun h => ?_, Or.inl⟩
    exact h.resolve_right (AList.notMem_empty _)
  refine ⟨fun service => iff_of_false List.not_mem_nil ?_, List.nodup_nil, ?_, rfl⟩
  · rw [hhandlers]
    exact and_not_self
  · rw [hhandlers]

/-- Along every run of a node that has just been started, what is advertised is what is served
exactly if no call registers or removes a name that has a handler, and the handlers are never
cleared. -/
theorem advertised_served_iff (infoType : MsgPack NodeInfo) (name ip groupName : Str)
    (r₀ r₁ r₂ r₃ : UInt32) (servicePort : Int32) (ops : List Op) :
    Runs.Always step
        (running infoType name ip groupName r₀ r₁ r₂ r₃ servicePort).AdvertisesServed
        (running infoType name ip groupName r₀ r₁ r₂ r₃ servicePort) ops ↔
      Runs.Each step LeavesHandlers
        (running infoType name ip groupName r₀ r₁ r₂ r₃ servicePort) ops := by
  have hstart := running_advertisesServed infoType name ip groupName r₀ r₁ r₂ r₃ servicePort
  generalize running infoType name ip groupName r₀ r₁ r₂ r₃ servicePort = start at hstart ⊢
  exact Runs.always_iff_each (I := fun _ => True) (P := start.AdvertisesServed)
    (fun _ _ _ => trivial) (fun _ op _ h => step_advertisesServed_iff h op) trivial hstart ops

/-- An info without content travels as an empty map. -/
def emptyInfoCodec : MsgPack NodeInfo where
  pack _ := some [0x80]
  unpack b := if b.head? = some 0x80 then some {} else none
  unpack_nil := rfl

/-- A node that has just been started. -/
def exampleNode : ServiceNode :=
  running emptyInfoCodec (ascii "a") (ascii "10.0.0.2") (ascii "lab") 1 1 1 1 6000

/-- The same service, registered by two calls. -/
def echoTwice : List Op :=
  [.registerServiceHandler emptyCodec emptyCodec (ascii "echo") .ok,
    .registerServiceHandler emptyCodec emptyCodec (ascii "echo") .ok]

/-- It has one handler and two adverts. -/
theorem registered_twice_advertised_twice :
    ¬ Runs.Always step exampleNode.AdvertisesServed exampleNode echoTwice := by
  rintro ⟨_, _, h⟩
  exact absurd h.once (by decide)

end ServiceNode

end ZeroLanCom
