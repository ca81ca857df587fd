import ZeroLanCom.Sockets.Fetch
import ZeroLanCom.Sockets.Services
import ZeroLanCom.System.Lan
import ZeroLanCom.System.RemoteCall

/-!
# Services of a network

The reply socket of a node serves its info to whoever fetches it, and the
services of its users to whoever calls them. Adverts of services travel in the
infos that are fetched, so that both ends of a call hang on the same handlers.
-/

namespace ZeroLanCom

variable {ν κ : Type}

/-- The endpoint of the reply socket, as the adverts of services give it. -/
def NodeConfig.servicePort16 (c : NodeConfig) : UInt16 := c.servicePort.toUInt32.toUInt16

/-- Where the node answers requests. -/
def NodeConfig.serviceUrl (c : NodeConfig) : Str := tcpUrl c.ip c.servicePort16

/-- What comes back from a URL is the reply of a node whose reply socket is bound there, or no frame
at all. -/
def Network.Carries (net : Network) (boundAt : ν → Str) (handlers : ν → Handlers) : Prop :=
  ∀ url name payload frames, net.exchange url [name, payload] = .ok frames →
    frames = [] ∨ ∃ m, boundAt m = url ∧ serviceReply (handlers m) name payload = some frames

section Calls

variable {ρ₁ ρ₂ : Type} {request : MsgPack ρ₁} {response : MsgPack ρ₂}
  {func : ν → ρ₁ → Except Exn ρ₂} {net : Network} {boundAt : ν → Str} {handlers : ν → Handlers}
  {name url : Str} {req : ρ₁} {before value : ρ₂}

/-- A call that returns has the value of a function of the node that has answered, or what it had
before: nothing has come back, or that node has no handler. -/
theorem value_of_carries (hcarries : net.Carries boundAt handlers)
    (hrequest : request.RoundTrips) (hresponse : response.RoundTrips)
    (hprovides : ∀ m, Provides request response (func m) name (handlers m))
    (hname : decodeServiceHeader name = name)
    (h : zlcRequestUrl net request response name url req before = .ok value) :
    ∃ out, request.pack req = some out ∧
      ((net.exchange url [name, out] = .ok [] ∧ value = before) ∨
        ∃ m, boundAt m = url ∧ value =
          if name ∈ handlers m then localCall response (func m) req before else before) := by
  unfold zlcRequestUrl at h
  split_ifs at h
  cases hout : request.pack req with
  | none => simp [MsgPack.encode, hout] at h
  | some out =>
    simp only [MsgPack.encode, hout] at h
    refine ⟨out, rfl, ?_⟩
    cases hexchange : net.exchange url [name, out] with
    | error num => simp [hexchange] at h
    | ok frames =>
      simp only [hexchange] at h
      rcases hcarries url name out frames hexchange with rfl | ⟨m, hbound, hreply⟩
      · left
        exact ⟨rfl, (Except.ok.inj h).symm⟩
      · right
        refine ⟨m, hbound, ?_⟩
        unfold serviceReply at hreply
        rw [hname] at hreply
        cases hhandle : handleRequest (handlers m) name out with
        | error e => simp [hhandle] at hreply
        | ok reply =>
          rw [hhandle, Option.some.injEq] at hreply
          subst hreply
          have hvalue := decode_of_provides hrequest hresponse (hprovides m) hout hhandle before
          exact Except.ok.inj (h.symm.trans hvalue)

end Calls

/-- A fetch that is answered by the nodes brings what one of them says about itself, or the info as
it was declared. -/
theorem FetchEnv.info_of_carries {env : FetchEnv} {boundAt : ν → Str} {handlers : ν → Handlers}
    {infoOf : ν → NodeInfo} (hinfo : env.infoType.RoundTrips)
    (hcarries : env.net.Carries boundAt handlers)
    (hprovides : ∀ m, Provides emptyCodec env.infoType (fun _ => .ok (infoOf m)) getNodeInfoName
      (handlers m)) {ip : Str} {servicePort : Int32} {info : NodeInfo}
    (h : env.fetchNodeInfo ip servicePort = some info) :
    info = env.declared ∨ ∃ m, info = infoOf m := by
  have hempty : emptyCodec.RoundTrips := by
    rintro ⟨⟩ out ⟨⟩
    rfl
  have hname : decodeServiceHeader getNodeInfoName = getNodeInfoName := by decide
  unfold fetchNodeInfo at h
  cases hcall : zlcRequestUrl env.net emptyCodec env.infoType (ascii "get_node_info")
      (serviceUrl ip servicePort) () env.declared with
  | error e => simp [hcall, Except.toOption] at h
  | ok value =>
    rw [hcall, Except.toOption, Option.some.injEq] at h
    subst h
    obtain ⟨out, _, ⟨_, hsame⟩ | ⟨m, _, hvalue⟩⟩ :=
      value_of_carries hcarries hempty hinfo hprovides hname hcall
    · exact Or.inl hsame
    · simp only [hvalue, localCall]
      split_ifs
      · exact Or.inr ⟨m, rfl⟩
      · exact Or.inl rfl
      · exact Or.inl rfl

/-- The network, the handlers of each node, given the info that `get_node_info` reads when it is
called, and the services that have a handler and wait to be advertised. -/
structure ServiceLan (ν κ : Type) where
  lan : Lan ν κ
  handlers : ν → NodeInfo → Handlers
  registering : ν → List Str

/-- The handlers that the users of each node may register, remove or clear. -/
structure ServiceUse (ν : Type) where
  registers : ν → Str → (Bytes → Except Exn Bytes) → Prop
  removes : ν → Str → Prop
  clears : ν → Prop

/-- `get_node_info` is left to the node. -/
def ServiceUse.LeavesNodeInfo (use : ServiceUse ν) : Prop :=
  ∀ n handler, ¬ use.registers n getNodeInfoName handler

namespace ServiceLan

/-- Nodes that have just been constructed. -/
def start (config : ν → NodeConfig) (infoType : MsgPack NodeInfo) : ServiceLan ν κ where
  lan := .start config
  handlers _ info := registerGetNodeInfoService infoType info ∅
  registering _ := []

/-- What the node says about itself. -/
def nodeInfo (s : ServiceLan ν κ) (n : ν) : NodeInfo := (s.lan.nodes n).localNode.getLocalNodeInfo

/-- What the handlers of each node are when a request comes. -/
def served (s : ServiceLan ν κ) (n : ν) : Handlers := s.handlers n (s.nodeInfo n)

/-- `fetchNodeInfo` after a heartbeat, as the nodes answer it. -/
def Fetches (config : ν → NodeConfig) (infoType : MsgPack NodeInfo) (s : ServiceLan ν κ) :
    Lan.Conduct ν κ := fun l n _ d =>
  ∀ id info, d.receiver.task = .storing id info → (l.nodes n).receiver.task = .storing id info ∨
    ∃ (env : FetchEnv) (heartbeat : HeartbeatMessage) (nodeIP : Str), env.infoType = infoType ∧
      env.net.Carries (fun m => (config m).serviceUrl) s.served ∧
        (l.nodes n).receiver.task = .fetching heartbeat ∧
          env.fetchNodeInfo nodeIP heartbeat.servicePort = some info

variable [DecidableEq ν]

/-- The steps of the network and of the users of services. -/
inductive Step (accepts : Str → Bool) (config : ν → NodeConfig) (infoType : MsgPack NodeInfo)
    (use : ServiceUse ν) : ServiceLan ν κ → ServiceLan ν κ → Prop
  /-- Whatever advertises no service. -/
  | lan (s : ServiceLan ν κ) {l : Lan ν κ}
      (hstep : Lan.Step accepts (s.Fetches config infoType) s.lan l)
      (hservices : ∀ n, (l.nodes n).localNode.localNodeInfo.services =
        (s.lan.nodes n).localNode.localNodeInfo.services) :
    Step accepts config infoType use s { s with lan := l }
  /-- The first call of `zlc::registerServiceHandler`. -/
  | registerHandler (s : ServiceLan ν κ) (n : ν) {ρ₁ ρ₂ : Type} (request : MsgPack ρ₁)
      (response : MsgPack ρ₂) (name : Str) (func : ρ₁ → Except Exn ρ₂)
      (huse : use.registers n name (serviceHandler request response func)) :
    Step accepts config infoType use s
      { s with
        handlers := Function.update s.handlers n fun info =>
          ZeroLanCom.registerHandler request response name func (s.handlers n info)
        registering := Function.update s.registering n (name :: s.registering n) }
  /-- The second. -/
  | registerLocalService (s : ServiceLan ν κ) (n : ν) (name : Str)
      (hhandler : name ∈ s.registering n) :
    Step accepts config infoType use s
      { s with
        lan := s.lan.setLocal n
          ((s.lan.nodes n).localNode.registerLocalService name (config n).servicePort16)
        registering := Function.update s.registering n ((s.registering n).erase name) }
  | removeHandler (s : ServiceLan ν κ) (n : ν) (name : Str) (huse : use.removes n name) :
    Step accepts config infoType use s
      { s with
        handlers := Function.update s.handlers n fun info =>
          ZeroLanCom.removeHandler name (s.handlers n info) }
  | clearHandlers (s : ServiceLan ν κ) (n : ν) (huse : use.clears n) :
    Step accepts config infoType use s
      { s with
        handlers := Function.update s.handlers n fun info =>
          ZeroLanCom.clearHandlers (s.handlers n info) }

/-- Some number of steps later. -/
def Reach (accepts : Str → Bool) (config : ν → NodeConfig) (infoType : MsgPack NodeInfo)
    (use : ServiceUse ν) : ServiceLan ν κ → ServiceLan ν κ → Prop :=
  Relation.ReflTransGen (Step accepts config infoType use)

end ServiceLan

section Names

variable {ρ₁ ρ₂ : Type} {request : MsgPack ρ₁} {response : MsgPack ρ₂} {func : ρ₁ → Except Exn ρ₂}
  {name : Str} {handlers : Handlers}

/-- A registration of that service, or under another name. -/
theorem Provides.registerHandler (h : Provides request response func name handlers) {τ₁ τ₂ : Type}
    (request' : MsgPack τ₁) (response' : MsgPack τ₂) (name' : Str) (func' : τ₁ → Except Exn τ₂)
    (hown : name' = name →
      serviceHandler request' response' func' = serviceHandler request response func) :
    Provides request response func name
      (ZeroLanCom.registerHandler request' response' name' func' handlers) := by
  intro handler hlookup
  rw [registerHandler_eq_insert] at hlookup
  by_cases hname : name = name'
  · rw [hname, AList.lookup_insert, Option.some.injEq] at hlookup
    rw [← hlookup, hown hname.symm]
  · rw [AList.lookup_insert_ne hname] at hlookup
    exact h handler hlookup

/-- Removing any service leaves the name to its function, or without a handler. -/
theorem Provides.removeHandler (h : Provides request response func name handlers) (name' : Str) :
    Provides request response func name (ZeroLanCom.removeHandler name' handlers) := by
  intro handler hlookup
  by_cases hname : name = name'
  · rw [hname, ZeroLanCom.removeHandler, AList.lookup_erase] at hlookup
    cases hlookup
  · rw [ZeroLanCom.removeHandler, AList.lookup_erase_ne hname] at hlookup
    exact h handler hlookup

/-- So does removing all. -/
theorem Provides.clearHandlers (handlers : Handlers) :
    Provides request response func name (ZeroLanCom.clearHandlers handlers) := by
  intro handler hlookup
  cases hlookup

end Names

namespace ServiceLan

variable [DecidableEq ν] {accepts : Str → Bool} {config : ν → NodeConfig}
  {infoType : MsgPack NodeInfo} {use : ServiceUse ν} {s s' : ServiceLan ν κ} {name : Str}

section Handlers

variable {ρ₁ ρ₂ : Type} {request : MsgPack ρ₁} {response : MsgPack ρ₂}
  {func : ν → NodeInfo → ρ₁ → Except Exn ρ₂}

/-- A name that nobody may register for anything else. -/
theorem provides_step
    (hown : ∀ n info handler, use.registers n name handler →
      handler = serviceHandler request response (func n info))
    (h : ∀ n info, Provides request response (func n info) name (s.handlers n info))
    (hstep : Step accepts config infoType use s s') (n : ν) (info : NodeInfo) :
    Provides request response (func n info) name (s'.handlers n info) := by
  cases hstep with
  | lan hstep hservices => exact h n info
  | registerHandler m request' response' name' func' huse =>
    simp only [Function.update_apply]
    split_ifs with hm
    · subst hm
      refine (h n info).registerHandler request' response' name' func' fun hname => ?_
      subst hname
      exact hown n info _ huse
    · exact h n info
  | registerLocalService m name' hhandler => exact h n info
  | removeHandler m name' huse =>
    simp only [Function.update_apply]
    split_ifs with hm
    · subst hm
      exact (h n info).removeHandler name'
    · exact h n info
  | clearHandlers m huse =>
    simp only [Function.update_apply]
    split_ifs with hm
    · exact .clearHandlers _
    · exact h n info

end Handlers

/-- Every node answers a fetch with what it says about itself, or not at all. -/
def AnswersForItself (infoType : MsgPack NodeInfo) (s : ServiceLan ν κ) : Prop :=
  ∀ n info, Provides emptyCodec infoType (fun _ => .ok info) getNodeInfoName (s.handlers n info)

omit [DecidableEq ν] in
/-- Every node starts with `get_node_info` registered. -/
theorem answersForItself_start (config : ν → NodeConfig) (infoType : MsgPack NodeInfo) :
    AnswersForItself infoType (start config infoType : ServiceLan ν κ) := by
  intro n info handler hlookup
  simp only [start, registerGetNodeInfoService, registerHandler_eq_insert, AList.lookup_insert,
    Option.some.injEq] at hlookup
  exact hlookup.symm

/-- A user who leaves that service alone leaves the answer as it is. -/
theorem answersForItself_step (huse : use.LeavesNodeInfo) (h : s.AnswersForItself infoType)
    (hstep : Step accepts config infoType use s s') : s'.AnswersForItself infoType :=
  provides_step (fun n _ handler hregisters => absurd hregisters (huse n handler)) h hstep

omit [DecidableEq ν] in
/-- What a fetch brings. -/
theorem AnswersForItself.fetched (h : s.AnswersForItself infoType) (hinfo : infoType.RoundTrips)
    {n : ν} {ok : Bool} {d : Discovery κ} (hfetches : s.Fetches config infoType s.lan n ok d)
    (id : Str) (info : NodeInfo) (ht : d.receiver.task = .storing id info) :
    (s.lan.nodes n).receiver.task = .storing id info ∨
      (info.topics = [] ∧ info.services = []) ∨ ∃ m, info = s.nodeInfo m := by
  refine (hfetches id info ht).imp_right ?_
  rintro ⟨env, heartbeat, nodeIP, rfl, hcarries, _, hfetched⟩
  have hanswer := FetchEnv.info_of_carries hinfo hcarries (fun m => h m (s.nodeInfo m)) hfetched
  refine hanswer.imp_left ?_
  rintro rfl
  exact ⟨rfl, rfl⟩

/-- One step is a step of the network whose fetches are honest, or leaves it alone. -/
theorem step_honest (hinfo : infoType.RoundTrips) (h : s.AnswersForItself infoType)
    (hstep : Step accepts config infoType use s s') :
    Lan.Reach accepts Lan.Honest s.lan s'.lan := by
  cases hstep with
  | lan hstep hservices =>
    refine .single (hstep.mono fun n ok d hfetches id info ht => ?_)
    exact (h.fetched hinfo hfetches id info ht).imp_right fun hnew =>
      hnew.imp_left And.left
  | registerHandler n request response name func huse => exact .refl
  | registerLocalService n name hhandler => exact .single (.service s.lan n name _)
  | removeHandler n name huse => exact .refl
  | clearHandlers n huse => exact .refl

/-- Replace the state of the receive task of one node. -/
def setReceiver (s : ServiceLan ν κ) (n : ν) (r : Receiver) : ServiceLan ν κ :=
  { s with lan := s.lan.setNode n { s.lan.nodes n with receiver := r } }

/-- The receive task of a node is no part of what it says about itself. -/
theorem nodeInfo_setReceiver (s : ServiceLan ν κ) (n : ν) (r : Receiver) :
    (s.setReceiver n r).nodeInfo = s.nodeInfo := by
  funext m
  simp only [nodeInfo, setReceiver, Lan.nodes_setNode]
  split_ifs with hm
  · rw [hm]
  · rfl

/-- It is no part of what it serves either. -/
theorem served_setReceiver (s : ServiceLan ν κ) (n : ν) (r : Receiver) :
    (s.setReceiver n r).served = s.served := by
  funext m
  rw [served, served, nodeInfo_setReceiver]
  rfl

/-- One more step of a receive task, which brings what a fetch from the nodes brings. -/
theorem Reach.receive {n : ν} {r r' : Receiver} {l : ReceiveLabel}
    (h : Reach accepts config infoType use s (s.setReceiver n r)) (hr : ReceiveStep r l r')
    (hquiet : l.Quiet)
    (hfetched : ∀ id info, r'.task = .storing id info → r.task = .storing id info ∨
      ∃ (env : FetchEnv) (heartbeat : HeartbeatMessage) (nodeIP : Str), env.infoType = infoType ∧
        env.net.Carries (fun m => (config m).serviceUrl) s.served ∧ r.task = .fetching heartbeat ∧
          env.fetchNodeInfo nodeIP heartbeat.servicePort = some info) :
    Reach accepts config infoType use s (s.setReceiver n r') := by
  have hself : (s.setReceiver n r).lan.nodes n = { s.lan.nodes n with receiver := r } :=
    Function.update_self ..
  have hnext : (s.setReceiver n r).lan.setNode n { s.lan.nodes n with receiver := r' } =
      (s.setReceiver n r').lan := by
    simp only [setReceiver, Lan.setNode, Function.update_idem]
  have hstep : Discovery.Step accepts ((s.setReceiver n r).lan.nodes n) true
      { s.lan.nodes n with receiver := r' } := by
    rw [hself]
    exact .receive { s.lan.nodes n with receiver := r } hr hquiet
  have hlan : Lan.Step accepts ((s.setReceiver n r).Fetches config infoType)
      (s.setReceiver n r).lan (s.setReceiver n r').lan := by
    rw [← hnext]
    refine .node _ n hstep (by rw [hself]) fun id info ht => ?_
    rw [hself, served_setReceiver]
    exact hfetched id info ht
  refine h.tail (.lan _ hlan fun m => congrArg NodeInfo.services ?_)
  exact congrFun ((nodeInfo_setReceiver s n r').trans (nodeInfo_setReceiver s n r).symm) m

/-- The first node registers the service, and the second calls it. -/
def calleeConfig (n : Bool) : NodeConfig :=
  ⟨ascii "node", if n then ascii "10.0.0.1" else ascii "10.0.0.2", ascii "lab",
    (if n then 1 else 0, 0, 0, 0), 6000⟩

/-- The callee registers the service, and nothing is removed. -/
def incrementUse : ServiceUse Bool where
  registers n name handler := n = true ∧ name = ascii "increment" ∧
    handler = serviceHandler Rpc.byteCodec Rpc.byteCodec Rpc.increment
  removes _ _ := False
  clears _ := False

/-- What the callee says about itself when the service has been advertised. -/
def calleeInfo : NodeInfo :=
  ((calleeConfig true).localNode.registerLocalService (ascii "increment") 6000).getLocalNodeInfo

/-- The bytes that stand for it. -/
def calleeCodec : MsgPack NodeInfo where
  pack info := if info = calleeInfo then some [0x86] else none
  unpack b := if b = [0x86] then some calleeInfo else none
  unpack_nil := rfl

/-- What the caller reads is what the callee has written. -/
theorem calleeCodec_roundTrips : calleeCodec.RoundTrips := by
  intro info out hout
  simp only [calleeCodec] at hout ⊢
  split_ifs at hout with hinfo
  rw [Option.some.injEq] at hout
  rw [if_pos hout.symm, hinfo]

/-- The service has been registered. -/
def registered : ServiceLan Bool Unit where
  lan := (Lan.start calleeConfig).setLocal true
    ((calleeConfig true).localNode.registerLocalService (ascii "increment") 6000)
  handlers := Function.update (fun _ info => registerGetNodeInfoService calleeCodec info ∅) true
    fun info => ZeroLanCom.registerHandler Rpc.byteCodec Rpc.byteCodec (ascii "increment")
      Rpc.increment (registerGetNodeInfoService calleeCodec info ∅)
  registering := Function.update (Function.update (fun _ => []) true [ascii "increment"]) true []

/-- The caller has heard of the callee and stored what it has fetched. -/
def introduced : ServiceLan Bool Unit :=
  registered.setReceiver false
    ⟨(NodeTable.empty.noteHeartbeat calleeInfo.nodeID 0).updateNodeUnlocked calleeInfo.nodeID
      calleeInfo 1, .announcing calleeInfo.nodeID calleeInfo⟩

/-- The reply socket of the callee. -/
def calleeNetwork : Network where
  accepts _ := true
  exchange url frames :=
    if url = (calleeConfig true).serviceUrl then
      match frames with
      | [name, payload] => .ok ((serviceReply (registered.served true) name payload).getD [])
      | _ => .ok []
    else .ok []

/-- It carries requests to the handlers of the callee, and none to anybody else. -/
theorem calleeNetwork_carries :
    calleeNetwork.Carries (fun m => (calleeConfig m).serviceUrl) registered.served := by
  intro url name payload frames hexchange
  simp only [calleeNetwork] at hexchange
  split_ifs at hexchange with hurl
  · rw [Except.ok.injEq] at hexchange
    cases hreply : serviceReply (registered.served true) name payload with
    | none =>
      rw [hreply] at hexchange
      exact Or.inl hexchange.symm
    | some reply =>
      rw [hreply] at hexchange
      exact Or.inr ⟨true, hurl.symm, hreply.trans (congrArg some hexchange)⟩
  · exact Or.inl (Except.ok.inj hexchange).symm

/-- The callee registers its service. -/
theorem reach_registered : Reach (fun _ => true) calleeConfig calleeCodec incrementUse
    (start calleeConfig calleeCodec) registered := by
  have hhandler : Reach (fun _ => true) calleeConfig calleeCodec incrementUse
      (start calleeConfig calleeCodec : ServiceLan Bool Unit) _ :=
    .single (.registerHandler _ true Rpc.byteCodec Rpc.byteCodec (ascii "increment") Rpc.increment
      ⟨rfl, rfl, rfl⟩)
  have hadvert := hhandler.tail
    (.registerLocalService _ true (ascii "increment") (List.mem_singleton_self _))
  exact hadvert

/-- The caller hears the callee, fetches its info and stores it. -/
theorem reach_introduced : Reach (fun _ => true) calleeConfig calleeCodec incrementUse
    registered introduced := by
  have hidle : registered.setReceiver false ⟨.empty, .idle⟩ = registered := by
    have hself : { registered.lan.nodes false with receiver := ⟨.empty, .idle⟩ } =
        registered.lan.nodes false := rfl
    rw [setReceiver, hself, Lan.setNode, Function.update_eq_self]
  have hstart : Reach (fun _ => true) calleeConfig calleeCodec incrementUse registered
      (registered.setReceiver false ⟨.empty, .idle⟩) := hidle.symm ▸ .refl
  have hheard : Reach (fun _ => true) calleeConfig calleeCodec incrementUse registered
      (registered.setReceiver false ⟨NodeTable.empty.noteHeartbeat calleeInfo.nodeID 0,
        .fetching (calleeConfig true).localNode.createHeartbeat⟩) :=
    hstart.receive (.hear .empty (calleeConfig true).localNode.createHeartbeat 0) trivial
      fun id info ht => by cases ht
  have hfetched := hheard.receive (.fetch _ _ (some calleeInfo)) trivial fun id info ht =>
    Or.inr ⟨⟨calleeNetwork, calleeCodec, 0⟩, _, ascii "10.0.0.1", rfl, calleeNetwork_carries, rfl,
      by
        cases ht
        decide⟩
  exact hfetched.receive (.store _ _ calleeInfo 1) trivial fun id info ht => by cases ht

/-- The service has another name. -/
theorem incrementUse_leavesNodeInfo : incrementUse.LeavesNodeInfo := fun _ _ h =>
  absurd h.2.1 (by decide)

/-- The network whose fetches are requests to the service managers of its nodes is one whose fetches
are honest, as long as `get_node_info` is left to the nodes: whatever services are registered,
removed and cleared. -/
theorem fetches_refine_honest (hinfo : infoType.RoundTrips) (huse : use.LeavesNodeInfo)
    (hreach : Reach accepts config infoType use (start config infoType) s) :
    Lan.Reach accepts Lan.Honest (.start config) s.lan := by
  have hboth : s.AnswersForItself infoType ∧ Lan.Reach accepts Lan.Honest (.start config) s.lan :=
    Runs.reachable_invariant
      (I := fun s : ServiceLan ν κ => s.AnswersForItself infoType ∧
        Lan.Reach accepts Lan.Honest (.start config) s.lan)
      (fun _ _ h hstep => ⟨answersForItself_step huse h.1 hstep,
        h.2.trans (step_honest hinfo h.1 hstep)⟩)
      hreach ⟨answersForItself_start config infoType, .refl⟩
  exact hboth.2

/-- The fetch of the example brings what the callee says about itself. -/
theorem fetches_refine_honest_introduced :
    Lan.Reach (fun _ => true) Lan.Honest (.start calleeConfig) introduced.lan :=
  fetches_refine_honest calleeCodec_roundTrips incrementUse_leavesNodeInfo
    (reach_registered.trans reach_introduced)

end ServiceLan

end ZeroLanCom
