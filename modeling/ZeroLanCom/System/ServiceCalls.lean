import ZeroLanCom.System.ServiceLan
import ZeroLanCom.System.ServiceLookup

/-!
# Calls of discovered services

A service gets its handler before it is advertised, and its advert spreads by
fetches. While nobody takes the handler away, every advert of the service leads
to a node that has it, and a call to what a lookup has found is answered there.
-/

namespace ZeroLanCom

variable {ν κ : Type}

/-- Each node registers its own function under the name, and keeps it. -/
structure ServiceUse.Keeps (use : ServiceUse ν) {ρ₁ ρ₂ : Type} (request : MsgPack ρ₁)
    (response : MsgPack ρ₂) (func : ν → ρ₁ → Except Exn ρ₂) (name : Str) : Prop where
  own : ∀ n handler, use.registers n name handler →
    handler = serviceHandler request response (func n)
  kept : ∀ n, ¬ use.removes n name
  uncleared : ∀ n, ¬ use.clears n

namespace ServiceLan

variable [DecidableEq ν] {accepts : Str → Bool} {config : ν → NodeConfig}
  {infoType : MsgPack NodeInfo} {use : ServiceUse ν} {s s' : ServiceLan ν κ} {name : Str}

/-- Every advert of the service leads to a node that has a handler for it. -/
def LeadsToHandlers (config : ν → NodeConfig) (name : Str) (s : ServiceLan ν κ)
    (info : NodeInfo) : Prop :=
  ∀ t ∈ info.services, t.name = name →
    ∃ m, t.url = (config m).serviceUrl ∧ ∀ reading, name ∈ s.handlers m reading

/-- Wherever the service is advertised, its handler is there already. -/
structure Backed (config : ν → NodeConfig) (name : Str) (s : ServiceLan ν κ) : Prop where
  ip : ∀ n, (s.nodeInfo n).ip = (config n).ip
  waiting : ∀ n, name ∈ s.registering n → ∀ reading, name ∈ s.handlers n reading
  advertised : ∀ n, s.LeadsToHandlers config name (s.nodeInfo n)
  known : ∀ n, (s.lan.nodes n).receiver.HoldsOnly (s.LeadsToHandlers config name)

omit [DecidableEq ν] in
/-- An info without services leads nowhere. -/
theorem leadsToHandlers_of_nil {info : NodeInfo} (h : info.services = []) :
    s.LeadsToHandlers config name info := fun t ht => by
  rw [h] at ht
  exact absurd ht List.not_mem_nil

omit [DecidableEq ν] in
/-- Nobody advertises the service. -/
theorem backed_start (config : ν → NodeConfig) (infoType : MsgPack NodeInfo) (name : Str) :
    Backed config name (start config infoType : ServiceLan ν κ) where
  ip _ := rfl
  waiting _ h := absurd h List.not_mem_nil
  advertised _ := leadsToHandlers_of_nil rfl
  known _ :=
    ⟨fun _ _ hid => (by cases hid), fun _ _ ht => (by cases ht), fun _ _ ht => (by cases ht)⟩

omit [DecidableEq ν] in
/-- More handlers for the name, and more services that wait. -/
theorem Backed.more (h : s.Backed config name) {handlers : ν → NodeInfo → Handlers}
    {registering : ν → List Str}
    (hkeep : ∀ n, (∀ reading, name ∈ s.handlers n reading) → ∀ reading, name ∈ handlers n reading)
    (hwaiting : ∀ n, name ∈ registering n → ∀ reading, name ∈ handlers n reading) :
    Backed config name ⟨s.lan, handlers, registering⟩ := by
  have hleads : ∀ info, s.LeadsToHandlers config name info →
      LeadsToHandlers config name ⟨s.lan, handlers, registering⟩ info := by
    intro info hinfo t ht hname
    obtain ⟨m, hurl, hhandler⟩ := hinfo t ht hname
    exact ⟨m, hurl, hkeep m hhandler⟩
  exact ⟨h.ip, hwaiting, fun n => hleads _ (h.advertised n), fun n => (h.known n).mono hleads⟩

/-- A step of the network that advertises no service. -/
theorem Backed.lan (h : s.Backed config name) {conduct : Lan.Conduct ν κ} {l : Lan ν κ}
    (hstep : Lan.Step accepts conduct s.lan l)
    (hservices : ∀ n, (l.nodes n).localNode.localNodeInfo.services =
      (s.lan.nodes n).localNode.localNodeInfo.services)
    (hfetch : ∀ n ok d, conduct s.lan n ok d → ∀ id info, d.receiver.task = .storing id info →
      (s.lan.nodes n).receiver.task = .storing id info ∨ s.LeadsToHandlers config name info) :
    Backed config name { s with lan := l } := by
  have hadvertised : ∀ n, s.LeadsToHandlers config name (l.nodes n).localNode.getLocalNodeInfo := by
    intro n t ht
    rw [LocalNode.getLocalNodeInfo, hservices n] at ht
    exact h.advertised n t ht
  cases hstep with
  | publisher n topicName withLocalNamespace port hfree =>
    refine ⟨?_, h.waiting, hadvertised, ?_⟩
    · exact Lan.forall_setNode
        (P := fun m d => d.localNode.localNodeInfo.ip = (config m).ip) (h.ip n) h.ip
    · exact Lan.forall_setNode
        (P := fun _ d => d.receiver.HoldsOnly (s.LeadsToHandlers config name)) (h.known n) h.known
  | service n service port =>
    refine ⟨?_, h.waiting, hadvertised, ?_⟩
    · exact Lan.forall_setNode
        (P := fun m d => d.localNode.localNodeInfo.ip = (config m).ip) (h.ip n) h.ip
    · exact Lan.forall_setNode
        (P := fun _ d => d.receiver.HoldsOnly (s.LeadsToHandlers config name)) (h.known n) h.known
  | publish k msg => exact ⟨h.ip, h.waiting, hadvertised, h.known⟩
  | node n hstep hlocal hconduct =>
    refine ⟨?_, h.waiting, hadvertised, ?_⟩
    · exact Lan.forall_setNode (P := fun m d => d.localNode.localNodeInfo.ip = (config m).ip)
        (hlocal ▸ h.ip n) h.ip
    · refine Lan.forall_setNode
        (P := fun _ d => d.receiver.HoldsOnly (s.LeadsToHandlers config name)) ?_ h.known
      rcases hstep.receiver with hsame | ⟨l, hr, _⟩
      · rw [hsame]
        exact h.known n
      · exact (h.known n).step (leadsToHandlers_of_nil rfl) hr (hfetch n _ _ hconduct)
  | arrive n i k j hsub hp hconnected hnext hmsg => exact ⟨h.ip, h.waiting, hadvertised, h.known⟩
  | poll n hpoll => exact ⟨h.ip, h.waiting, hadvertised, h.known⟩

/-- A service that waits is advertised. -/
theorem Backed.registerLocalService (h : s.Backed config name) {n : ν} {service : Str}
    (hhandler : service ∈ s.registering n) :
    Backed config name
      { s with
        lan := s.lan.setLocal n
          ((s.lan.nodes n).localNode.registerLocalService service (config n).servicePort16)
        registering := Function.update s.registering n ((s.registering n).erase service) } := by
  refine ⟨?_, fun m hm => ?_, ?_, ?_⟩
  · exact Lan.forall_setNode (P := fun m d => d.localNode.localNodeInfo.ip = (config m).ip)
      (h.ip n) h.ip
  · apply h.waiting m
    simp only [Function.update_apply] at hm
    split_ifs at hm with hself
    · exact hself ▸ List.mem_of_mem_erase hm
    · exact hm
  · refine Lan.forall_setNode
      (P := fun _ d => s.LeadsToHandlers config name d.localNode.getLocalNodeInfo) ?_ h.advertised
    intro t ht hname
    rcases List.mem_append.mp ht with hold | hnew
    · exact h.advertised n t hold hname
    · rw [List.mem_singleton.mp hnew] at hname ⊢
      refine ⟨n, ?_, h.waiting n (hname ▸ hhandler)⟩
      rw [SocketInfo.url, NodeConfig.serviceUrl, ← h.ip n]
      rfl
  · exact Lan.forall_setNode
      (P := fun _ d => d.receiver.HoldsOnly (s.LeadsToHandlers config name)) (h.known n) h.known

section Keeping

variable {ρ₁ ρ₂ : Type} {request : MsgPack ρ₁} {response : MsgPack ρ₂}
  {func : ν → ρ₁ → Except Exn ρ₂}

/-- A handler that is kept. -/
theorem mem_step (hkeeps : use.Keeps request response func name) {n : ν}
    (h : ∀ reading, name ∈ s.handlers n reading) (hstep : Step accepts config infoType use s s')
    (reading : NodeInfo) : name ∈ s'.handlers n reading := by
  cases hstep with
  | lan hstep hservices => exact h reading
  | registerHandler m request' response' service func' huse =>
    simp only [Function.update_apply]
    split_ifs with hself
    · exact (AList.mem_insert _).mpr (Or.inr (hself ▸ h reading))
    · exact h reading
  | registerLocalService m service hhandler => exact h reading
  | removeHandler m service huse =>
    simp only [Function.update_apply]
    split_ifs with hself
    · refine AList.mem_erase.mpr ⟨?_, hself ▸ h reading⟩
      rintro rfl
      exact hkeeps.kept m huse
    · exact h reading
  | clearHandlers m huse => exact absurd huse (hkeeps.uncleared m)

/-- No step leaves an advert of the service whose node does not serve it. -/
theorem backed_step (hkeeps : use.Keeps request response func name) (hinfo : infoType.RoundTrips)
    (hanswers : s.AnswersForItself infoType) (h : s.Backed config name)
    (hstep : Step accepts config infoType use s s') : s'.Backed config name := by
  have hkeep : ∀ n, (∀ reading, name ∈ s.handlers n reading) →
      ∀ reading, name ∈ s'.handlers n reading := fun n hn => mem_step hkeeps hn hstep
  cases hstep with
  | lan hstep hservices =>
    refine h.lan hstep hservices fun n ok d hfetches id info ht => ?_
    refine (hanswers.fetched hinfo hfetches id info ht).imp_right ?_
    rintro (⟨_, hnil⟩ | ⟨m, rfl⟩)
    · exact leadsToHandlers_of_nil hnil
    · exact h.advertised m
  | registerHandler n request' response' service func' huse =>
    refine h.more hkeep fun m hm => ?_
    simp only [Function.update_apply] at hm
    split_ifs at hm with hself
    · subst hself
      rcases List.mem_cons.mp hm with rfl | hold
      · intro reading
        rw [Function.update_self]
        exact (AList.mem_insert _).mpr (Or.inl rfl)
      · exact hkeep m (h.waiting m hold)
    · exact hkeep m (h.waiting m hm)
  | registerLocalService n service hhandler => exact h.registerLocalService hhandler
  | removeHandler n service huse =>
    exact h.more hkeep fun m hm => hkeep m (h.waiting m hm)
  | clearHandlers n huse => exact absurd huse (hkeeps.uncleared n)

/-- The invariant of runs in which a service is kept. -/
structure Keeping (config : ν → NodeConfig) (infoType : MsgPack NodeInfo) (request : MsgPack ρ₁)
    (response : MsgPack ρ₂) (func : ν → ρ₁ → Except Exn ρ₂) (name : Str)
    (s : ServiceLan ν κ) : Prop where
  answers : s.AnswersForItself infoType
  provides : ∀ n info, Provides request response (func n) name (s.handlers n info)
  backed : s.Backed config name

omit [DecidableEq ν] in
/-- The service belongs to nobody yet. -/
theorem keeping_start (hname : name ≠ getNodeInfoName) :
    Keeping config infoType request response func name
      (start config infoType : ServiceLan ν κ) where
  answers := answersForItself_start config infoType
  provides n info handler hlookup := by
    simp only [start, registerGetNodeInfoService, registerHandler_eq_insert,
      AList.lookup_insert_ne hname] at hlookup
    cases hlookup
  backed := backed_start config infoType name

/-- While the name is left to its function, all of this is kept. -/
theorem keeping_step (huse : use.LeavesNodeInfo) (hkeeps : use.Keeps request response func name)
    (hinfo : infoType.RoundTrips) (h : s.Keeping config infoType request response func name)
    (hstep : Step accepts config infoType use s s') :
    s'.Keeping config infoType request response func name where
  answers := answersForItself_step huse h.answers hstep
  provides := provides_step (fun n _ => hkeeps.own n) h.provides hstep
  backed := backed_step hkeeps hinfo h.answers h.backed hstep

omit [DecidableEq ν] in
/-- Whatever node finds the service finds one of a node that has its handler. -/
theorem Backed.of_getServiceInfo (h : s.Backed config name) {n : ν} {order : MapOrder}
    {serviceInfo : SocketInfo}
    (hfound : (s.lan.nodes n).receiver.table.getServiceInfo (s.nodeInfo n) order name =
      some serviceInfo) :
    ∃ m, serviceInfo.url = (config m).serviceUrl ∧ ∀ reading, name ∈ s.handlers m reading := by
  obtain ⟨hname, ⟨id, info, hstored, ht⟩ | hown⟩ := NodeTable.mem_of_getServiceInfo hfound
  · exact (h.known n).stored id info hstored serviceInfo ht hname
  · exact h.advertised n serviceInfo hown hname

end Keeping

/-- No two nodes answer at one URL. -/
theorem calleeConfig_serviceUrl : Function.Injective fun n => (calleeConfig n).serviceUrl := by
  have hne : (calleeConfig false).serviceUrl ≠ (calleeConfig true).serviceUrl := by decide
  exact Bool.injective_iff.mpr hne

/-- Every registration of the service is the one with its function. -/
theorem incrementUse_keeps : incrementUse.Keeps Rpc.byteCodec Rpc.byteCodec
    (fun _ => Rpc.increment) (ascii "increment") :=
  ⟨fun _ _ h => h.2.2, fun _ h => h, fun _ h => h⟩

/-- A service that nodes register as functions of their own, and keep: whoever finds it finds a node
that has the handler, at any later time. A call that returns then has the value of that node's
function on its own argument, or what it had before if no frame has come back. -/
theorem found_services_answer {ρ₁ ρ₂ : Type} {request : MsgPack ρ₁} {response : MsgPack ρ₂}
    {func : ν → ρ₁ → Except Exn ρ₂} (hinfo : infoType.RoundTrips) (hrequest : request.RoundTrips)
    (hresponse : response.RoundTrips) (hname : name ≠ getNodeInfoName)
    (hheader : decodeServiceHeader name = name)
    (hbound : Function.Injective fun m => (config m).serviceUrl) (huse : use.LeavesNodeInfo)
    (hkeeps : use.Keeps request response func name)
    (hreach : Reach accepts config infoType use (start config infoType) s)
    (hlater : Reach accepts config infoType use s s') {n : ν} {order : MapOrder}
    {serviceInfo : SocketInfo}
    (hfound : (s.lan.nodes n).receiver.table.getServiceInfo (s.nodeInfo n) order name =
      some serviceInfo) {net : Network}
    (hcarries : net.Carries (fun m => (config m).serviceUrl) s'.served) :
    ∃ m, serviceInfo.url = (config m).serviceUrl ∧ name ∈ s'.served m ∧ ∀ req before value,
      zlcRequest net request response (s.lan.nodes n).receiver.table (s.nodeInfo n) order name req
          before = .ok value →
        value = localCall response (func m) req before ∨
          (value = before ∧ ∃ out, net.exchange serviceInfo.url [name, out] = .ok []) := by
  have hkeeping : s.Keeping config infoType request response func name :=
    Runs.reachable_invariant
      (I := fun s : ServiceLan ν κ => s.Keeping config infoType request response func name)
      (fun _ _ => keeping_step huse hkeeps hinfo) hreach (keeping_start hname)
  obtain ⟨m, hurl, hhandler⟩ := hkeeping.backed.of_getServiceInfo hfound
  have hend : s'.Keeping config infoType request response func name ∧
      ∀ reading, name ∈ s'.handlers m reading :=
    Runs.reachable_invariant
      (I := fun s : ServiceLan ν κ => s.Keeping config infoType request response func name ∧
        ∀ reading, name ∈ s.handlers m reading)
      (fun _ _ h hstep => ⟨keeping_step huse hkeeps hinfo h.1 hstep, mem_step hkeeps h.2 hstep⟩)
      hlater ⟨hkeeping, hhandler⟩
  have hserved : name ∈ s'.served m := hend.2 _
  refine ⟨m, hurl, hserved, fun req before value hcall => ?_⟩
  rw [zlcRequest, hfound] at hcall
  obtain ⟨out, _, ⟨hnothing, hsame⟩ | ⟨m', hanswered, hvalue⟩⟩ := value_of_carries hcarries
    hrequest hresponse (fun m => hend.1.provides m _) hheader hcall
  · exact Or.inr ⟨hsame, out, hnothing⟩
  · obtain rfl : m' = m := hbound (hanswered.trans hurl)
    rw [if_pos hserved] at hvalue
    exact Or.inl hvalue

/-- The callee is found, and a call that succeeds returns what its function does. -/
theorem found_services_answer_increment :
    ∃ m, tcpUrl (ascii "10.0.0.1") 6000 = (calleeConfig m).serviceUrl ∧
      ascii "increment" ∈ introduced.served m ∧ ∀ req before value,
        zlcRequest calleeNetwork Rpc.byteCodec Rpc.byteCodec
            (introduced.lan.nodes false).receiver.table (introduced.nodeInfo false) .stored
            (ascii "increment") req before = .ok value →
          value = localCall Rpc.byteCodec Rpc.increment req before ∨ (value = before ∧
            ∃ out, calleeNetwork.exchange (tcpUrl (ascii "10.0.0.1") 6000)
              [ascii "increment", out] = .ok []) := by
  have hfound : (introduced.lan.nodes false).receiver.table.getServiceInfo
      (introduced.nodeInfo false) .stored (ascii "increment") =
        some ⟨ascii "increment", ascii "10.0.0.1", 6000⟩ := rfl
  have hcarries : calleeNetwork.Carries (fun m => (calleeConfig m).serviceUrl)
      introduced.served := by
    rw [introduced, served_setReceiver]
    exact calleeNetwork_carries
  exact found_services_answer calleeCodec_roundTrips Rpc.byteCodec_roundTrips
    Rpc.byteCodec_roundTrips (by decide) (by decide) calleeConfig_serviceUrl
    incrementUse_leavesNodeInfo incrementUse_keeps (reach_registered.trans reach_introduced) .refl
    hfound hcarries

end ServiceLan

end ZeroLanCom
