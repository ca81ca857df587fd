import ZeroLanCom.Nodes.HeartbeatFormat
import ZeroLanCom.Sockets.Fetch
import ZeroLanCom.Sockets.Services
import ZeroLanCom.System.LocalOrder
import ZeroLanCom.Utils.BoundPort

/-!
# Ports that are bound and ports that are advertised

Sockets are bound to port 0, and the port the platform picks is read back from
the text of the endpoint. From there it travels on as an `int`, as an `uint16_t`
in the node info, and as an `int32_t` in the heartbeat, until a peer prints it
into the URL it connects to.
-/

namespace ZeroLanCom

/-- What a bind to port 0 comes to: an error, or the address and port of the endpoint. -/
abbrev BindResult := Except ZeroMq.Errno (Str × UInt16)

/-- `socket->bind("tcp://" + ip + ":0")`, and `getBoundPort` behind it. -/
def bindEphemeral : BindResult → Except Exn Int32
  | .error num => .error (.errorT num)
  | .ok (address, port) => getBoundPort (tcpUrl address port)

/-- The port is read from the endpoint that the socket reports. -/
theorem bindEphemeral_ok (address : Str) (port : UInt16) :
    bindEphemeral (.ok (address, port)) = .ok port.toUInt32.toInt32 :=
  getBoundPort_tcpUrl address port

/-- `Publisher::Publisher`. -/
def newPublisher (bound : BindResult) (topicName : Str) (withLocalNamespace : Bool)
    (n : LocalNode) : Except Exn LocalNode :=
  match bindEphemeral bound with
  | .error e => .error e
  | .ok port => .ok (n.registerLocalTopic (fullTopicName topicName withLocalNamespace)
      port.toUInt32.toUInt16)

/-- The constructors of `ServiceManager` and of the node, up to the registration of the service
that every node has. -/
def ServiceNode.startBound (bound : BindResult) (infoType : MsgPack NodeInfo)
    (name ip groupName : Str) (r₀ r₁ r₂ r₃ : UInt32) : Except Exn ServiceNode :=
  match bindEphemeral bound with
  | .error e => .error e
  | .ok port => .ok (running infoType name ip groupName r₀ r₁ r₂ r₃ port)

namespace ServiceNode

/-- The calls that bind sockets, and those that change the services. -/
inductive PortOp where
  | publisher (bound : BindResult) (topicName : Str) (withLocalNamespace : Bool)
  | service (op : Op)

/-- One call; its exception ends with the caller. -/
def portStep (n : ServiceNode) : PortOp → ServiceNode
  | .publisher bound topicName withLocalNamespace =>
    match newPublisher bound topicName withLocalNamespace n.localNode with
    | .error _ => n
    | .ok localNode => { n with localNode := localNode }
  | .service op => n.step op

/-- The names and ports of the PUB sockets that the calls bind, in order. -/
def boundTopics (ops : List PortOp) : List (Str × UInt16) :=
  ops.filterMap fun op =>
    match op with
    | .publisher (.ok (_, port)) topicName withLocalNamespace =>
      some (fullTopicName topicName withLocalNamespace, port)
    | _ => none

/-- The topics a node advertises are those bound so far, in order, and its services are all at
the port of the reply socket. -/
structure PortsBound (ip : Str) (replyPort : UInt16) (bound : List (Str × UInt16))
    (n : ServiceNode) : Prop where
  address : n.localNode.localNodeInfo.ip = ip
  servicePort : n.servicePort = replyPort.toUInt32.toInt32
  heartbeat : n.localNode.servicePort = replyPort.toUInt32.toInt32
  topics : n.localNode.localNodeInfo.topics = bound.map fun b => ⟨b.1, ip, b.2⟩
  services : ∀ s ∈ n.localNode.localNodeInfo.services, s.ip = ip ∧ s.port = replyPort

/-- A port that has been widened is narrowed to itself. -/
theorem toUInt16_of_port (port : UInt16) : port.toUInt32.toInt32.toUInt32.toUInt16 = port := by
  rw [UInt32.toUInt32_toInt32, UInt16.toUInt16_toUInt32]

/-- A publisher announces the port it has bound. -/
theorem newPublisher_ok (address : Str) (port : UInt16) (topicName : Str)
    (withLocalNamespace : Bool) (n : LocalNode) :
    newPublisher (.ok (address, port)) topicName withLocalNamespace n =
      .ok (n.registerLocalTopic (fullTopicName topicName withLocalNamespace) port) := by
  simp only [newPublisher, bindEphemeral_ok, toUInt16_of_port]

variable {ip : Str} {replyPort : UInt16} {bound : List (Str × UInt16)} {n : ServiceNode}

/-- A registration of a service advertises it at the reply socket, whatever the handler is. -/
theorem portsBound_service (h : n.PortsBound ip replyPort bound) (op : Op) :
    (n.step op).PortsBound ip replyPort bound := by
  cases op with
  | registerServiceHandler request response serviceName func =>
    refine ⟨h.address, h.servicePort, h.heartbeat, h.topics, fun s hs => ?_⟩
    rcases List.mem_append.mp hs with hold | hnew
    · exact h.services s hold
    · rw [List.mem_singleton.mp hnew]
      exact ⟨h.address, by rw [h.servicePort, toUInt16_of_port]⟩
  | removeHandler name => exact ⟨h.address, h.servicePort, h.heartbeat, h.topics, h.services⟩
  | clearHandlers => exact ⟨h.address, h.servicePort, h.heartbeat, h.topics, h.services⟩

/-- A call announces only what it has bound. -/
theorem portsBound_step (h : n.PortsBound ip replyPort bound) (op : PortOp) :
    (n.portStep op).PortsBound ip replyPort (bound ++ boundTopics [op]) := by
  cases op with
  | service op =>
    rw [show boundTopics [.service op] = [] from rfl, List.append_nil]
    exact portsBound_service h op
  | publisher result topicName withLocalNamespace =>
    cases result with
    | error num =>
      rw [show boundTopics [.publisher (.error num) topicName withLocalNamespace] = [] from rfl,
        List.append_nil]
      exact h
    | ok endpoint =>
      obtain ⟨address, port⟩ := endpoint
      simp only [portStep, newPublisher_ok]
      refine ⟨h.address, h.servicePort, h.heartbeat, ?_, h.services⟩
      simp only [LocalNode.registerLocalTopic, h.topics, h.address, List.map_append]
      rfl

/-- So do any calls. -/
theorem portsBound_run (h : n.PortsBound ip replyPort bound) (ops : List PortOp) :
    (Runs.run portStep n ops).PortsBound ip replyPort (bound ++ boundTopics ops) := by
  induction ops generalizing n bound with
  | nil => simpa [boundTopics] using h
  | cons op ops ih =>
    have hrest := ih (portsBound_step h op)
    rw [List.append_assoc, boundTopics, boundTopics, ← List.filterMap_append,
      List.singleton_append] at hrest
    exact hrest

/-- No call writes the identifier. -/
theorem nodeID_portStep (n : ServiceNode) (op : PortOp) :
    (n.portStep op).localNode.nodeID = n.localNode.nodeID := by
  cases op with
  | publisher result topicName withLocalNamespace =>
    simp only [portStep, newPublisher]
    cases bindEphemeral result <;> rfl
  | service op => cases op <;> rfl

/-- The URL a peer prints for the port of a heartbeat. -/
theorem serviceUrl_of_port (nodeIP : Str) (port : UInt16) :
    FetchEnv.serviceUrl nodeIP port.toUInt32.toInt32 = tcpUrl nodeIP port := by
  have hnonneg : ¬ ((port.toNat : Int) < 0) := by omega
  rw [FetchEnv.serviceUrl, tcpUrl, toInt_of_port, decimalInt, if_neg hnonneg, Int.natAbs_natCast]

/-- In every run of a node its topics are advertised at the ports their sockets are bound to, its
services at the port of the reply socket, and every peer that decodes its heartbeat connects to
that port for its info. -/
theorem advertised_ports_bound (address : Str) (port : UInt16) (infoType : MsgPack NodeInfo)
    (name ip groupName : Str) (r₀ r₁ r₂ r₃ : UInt32) :
    ∃ start, startBound (.ok (address, port)) infoType name ip groupName r₀ r₁ r₂ r₃ = .ok start ∧
      ∀ ops, let n := Runs.run portStep start ops
        n.localNode.getLocalNodeInfo.topics = (boundTopics ops).map (fun b => ⟨b.1, ip, b.2⟩) ∧
        (∀ s ∈ n.localNode.getLocalNodeInfo.services, s.url = tcpUrl ip port) ∧
        ∃ data heartbeat, n.localNode.createHeartbeat.encode = .ok data ∧
          HeartbeatMessage.decode data = .ok heartbeat ∧
          ∀ nodeIP, FetchEnv.serviceUrl nodeIP heartbeat.servicePort = tcpUrl nodeIP port := by
  refine ⟨running infoType name ip groupName r₀ r₁ r₂ r₃ port.toUInt32.toInt32,
    by rw [startBound, bindEphemeral_ok], fun ops => ?_⟩
  have hstart : (running infoType name ip groupName r₀ r₁ r₂ r₃
      port.toUInt32.toInt32).PortsBound ip port [] :=
    ⟨rfl, rfl, rfl, rfl, fun _ h => absurd h List.not_mem_nil⟩
  have hbound := portsBound_run hstart ops
  have hid : (Runs.run portStep (running infoType name ip groupName r₀ r₁ r₂ r₃
      port.toUInt32.toInt32) ops).localNode.nodeID = generateUUID r₀ r₁ r₂ r₃ :=
    Runs.run_of_step (I := fun n => n.localNode.nodeID = generateUUID r₀ r₁ r₂ r₃)
      (fun n op h => (nodeID_portStep n op).trans h) rfl ops
  obtain ⟨data, hdata⟩ := HeartbeatMessage.exists_encode
    (m := (Runs.run portStep (running infoType name ip groupName r₀ r₁ r₂ r₃
      port.toUInt32.toInt32) ops).localNode.createHeartbeat)
    ((congrArg List.length hid).trans (length_generateUUID r₀ r₁ r₂ r₃))
  refine ⟨hbound.topics, fun s hs => ?_, data, _, hdata, HeartbeatMessage.decode_of_encode hdata,
    fun nodeIP => ?_⟩
  · obtain ⟨hip, hport⟩ := hbound.services s hs
    rw [SocketInfo.url, hip, hport]
  · rw [← serviceUrl_of_port]
    exact congrArg _ hbound.heartbeat

end ServiceNode

end ZeroLanCom
