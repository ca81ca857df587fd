import ZeroLanCom.Library.Runs
import ZeroLanCom.Sockets.Client

/-!
# Fetching the info of a node

The key of an entry comes from the heartbeat, its value from whoever answers at
the address and port. The client does not look at the status of the reply, and
an empty payload leaves the local variable of the fetch as it was declared.
-/

namespace ZeroLanCom

/-- What one fetch meets: the network, the decoder into the local variable `info`, and the
`infoID` that variable holds before anything is written to it. -/
structure FetchEnv where
  net : Network
  infoType : MsgPack NodeInfo
  uninitialised : UInt32

namespace FetchEnv

/-- `NodeInfo info;`. -/
def declared (env : FetchEnv) : NodeInfo := { infoID := env.uninitialised }

/-- Where the heartbeat says the sender answers requests. -/
def serviceUrl (ip : Str) (servicePort : Int32) : Str :=
  ascii "tcp://" ++ ip ++ ascii ":" ++ decimalInt servicePort.toInt

/-- `NodeInfoManager::fetchNodeInfo`. Whatever the request throws is a `std::exception`. -/
def fetchNodeInfo (env : FetchEnv) (ip : Str) (servicePort : Int32) : Option NodeInfo :=
  (zlcRequestUrl env.net emptyCodec env.infoType (ascii "get_node_info")
    (serviceUrl ip servicePort) () env.declared).toOption

/-- The frames that come back for the request. -/
def Replied (env : FetchEnv) (ip : Str) (servicePort : Int32) (frames : List Bytes) : Prop :=
  env.net.accepts (serviceUrl ip servicePort) = true ∧
    env.net.exchange (serviceUrl ip servicePort) [ascii "get_node_info", [0xC0]] = .ok frames

/-- The reply says success, and its payload stands for the info. -/
def AnsweredWith (env : FetchEnv) (ip : Str) (servicePort : Int32) (info : NodeInfo) : Prop :=
  ∃ payload rest,
    env.Replied ip servicePort (ResponseStatus.SUCCESS.text :: payload :: rest) ∧
      env.infoType.unpack payload = some info

/-- A fetch has a result exactly if a reply came whose payload is empty or can be read. -/
theorem fetchNodeInfo_eq_some_iff {env : FetchEnv} {ip : Str} {servicePort : Int32}
    {info : NodeInfo} :
    env.fetchNodeInfo ip servicePort = some info ↔ ∃ frames, env.Replied ip servicePort frames ∧
      if receiveResponse frames = [] then info = env.declared
      else env.infoType.unpack (receiveResponse frames) = some info := by
  unfold fetchNodeInfo Replied zlcRequestUrl
  have hencode : emptyCodec.encode () = .ok [0xC0] := rfl
  cases env.net.accepts (serviceUrl ip servicePort) with
  | false => simp [Except.toOption]
  | true =>
    simp only [hencode, Bool.not_true, Bool.false_eq_true, if_false, true_and]
    cases env.net.exchange (serviceUrl ip servicePort) [ascii "get_node_info", [0xC0]] with
    | error num => simp [Except.toOption]
    | ok frames =>
      simp only [Except.ok.injEq, exists_eq_left']
      by_cases hempty : receiveResponse frames = []
      · simp [hempty, Except.toOption, eq_comm]
      · rw [if_neg hempty, if_pos (by simpa using hempty)]
        cases hunpack : env.infoType.unpack (receiveResponse frames) with
        | none => simp [MsgPack.decode, hunpack, Except.toOption]
        | some value => simp [MsgPack.decode, hunpack, Except.toOption]

/-- Whether the reply that comes back says success. -/
theorem answeredWith_iff {env : FetchEnv} {ip : Str} {servicePort : Int32} {frames : List Bytes}
    (h : env.Replied ip servicePort frames) {info : NodeInfo} :
    env.AnsweredWith ip servicePort info ↔ receiveResponse frames ≠ [] ∧
      frames.head? = some ResponseStatus.SUCCESS.text ∧
        env.infoType.unpack (receiveResponse frames) = some info := by
  constructor
  · rintro ⟨payload, rest, hreplied, hread⟩
    obtain rfl := Except.ok.inj (h.2.symm.trans hreplied.2)
    refine ⟨?_, rfl, hread⟩
    rintro (rfl : payload = [])
    rw [env.infoType.unpack_nil] at hread
    cases hread
  · rintro ⟨hne, hstatus, hread⟩
    match frames with
    | [] => exact absurd rfl hne
    | [_] => exact absurd rfl hne
    | status :: payload :: rest =>
      obtain rfl : status = ResponseStatus.SUCCESS.text := Option.some.inj hstatus
      exact ⟨payload, rest, h, hread⟩

end FetchEnv

/-- A heartbeat, what the fetch it may lead to meets, and the clock at the two writes. -/
structure FetchingCall where
  heartbeat : HeartbeatMessage
  nodeIP : Str
  env : FetchEnv
  noteTime : Nat
  storeTime : Nat

/-- The same heartbeat with the result of the fetch in place of the network. -/
def FetchingCall.call (c : FetchingCall) : HeartbeatCall where
  heartbeat := c.heartbeat
  nodeIP := c.nodeIP
  fetchNodeInfo := c.env.fetchNodeInfo
  noteTime := c.noteTime
  storeTime := c.storeTime

variable {σ : Type*}

/-- One call of a run. -/
def fetchingStep (nodeUpdateEvent : Event NodeInfo σ) (p : NodeTable × σ) (c : FetchingCall) :
    NodeTable × σ := heartbeatStep nodeUpdateEvent p c.call

/-- Every entry is the info of the node whose key it has. -/
def KeyIdentity (p : NodeTable × σ) : Prop :=
  ∀ id info, p.1.nodesInfo.lookup id = some info → info.nodeID = id

/-- What the call puts into the table was decoded from the payload of a success. -/
def StoresFromSuccess (nodeUpdateEvent : Event NodeInfo σ) (p : NodeTable × σ)
    (c : FetchingCall) : Prop :=
  ∀ id info, (fetchingStep nodeUpdateEvent p c).1.nodesInfo.lookup id = some info →
    p.1.nodesInfo.lookup id ≠ some info →
      c.env.AnsweredWith c.nodeIP c.heartbeat.servicePort info

/-- The reply to a fetch is fine if it does not decode, or decodes to the info of the node that
was heard and says success unless that is stored already. Without a payload it is fine only if it
leaves the table as it is. -/
def FineReply (p : NodeTable × σ) (c : FetchingCall) : Prop :=
  c.call.fetches p.1 = true →
    ∀ frames, c.env.Replied c.nodeIP c.heartbeat.servicePort frames →
      if receiveResponse frames = [] then
        c.heartbeat.nodeId = [] ∧
          p.1.nodesInfo.lookup c.heartbeat.nodeId = some c.env.declared
      else ∀ info, c.env.infoType.unpack (receiveResponse frames) = some info →
        info.nodeID = c.heartbeat.nodeId ∧
          (frames.head? = some ResponseStatus.SUCCESS.text ∨
            p.1.nodesInfo.lookup c.heartbeat.nodeId = some info)

variable {nodeUpdateEvent : Event NodeInfo σ} {p : NodeTable × σ} {c : FetchingCall}

/-- What the call fetches is fine if it has the right identifier, and if it comes from a success
unless it is stored already. -/
theorem fineReply_iff :
    FineReply p c ↔ (c.call.fetches p.1 = true → ∀ info, c.call.fetched = some info →
      info.nodeID = c.heartbeat.nodeId ∧
        (p.1.nodesInfo.lookup c.heartbeat.nodeId ≠ some info →
          c.env.AnsweredWith c.nodeIP c.heartbeat.servicePort info)) := by
  have hfetched : ∀ info, c.call.fetched = some info ↔
      ∃ frames, c.env.Replied c.nodeIP c.heartbeat.servicePort frames ∧
        if receiveResponse frames = [] then info = c.env.declared
        else c.env.infoType.unpack (receiveResponse frames) = some info :=
    fun _ => FetchEnv.fetchNodeInfo_eq_some_iff
  refine imp_congr_right fun _ => ⟨?_, ?_⟩
  · intro h info hinfo
    obtain ⟨frames, hreplied, hread⟩ := (hfetched info).mp hinfo
    have hfine := h frames hreplied
    split_ifs at hread hfine with hempty
    · subst hread
      exact ⟨hfine.1.symm, fun hne => absurd hfine.2 hne⟩
    · obtain ⟨hid, hstatus⟩ := hfine info hread
      refine ⟨hid, fun hne => (FetchEnv.answeredWith_iff hreplied).mpr ?_⟩
      exact ⟨hempty, hstatus.resolve_right hne, hread⟩
  · intro h frames hreplied
    have hanswered : ∀ info, c.env.AnsweredWith c.nodeIP c.heartbeat.servicePort info → _ :=
      fun _ => (FetchEnv.answeredWith_iff hreplied).mp
    split_ifs with hempty
    · obtain ⟨hid, hnew⟩ := h _ ((hfetched c.env.declared).mpr
        ⟨frames, hreplied, by rw [if_pos hempty]⟩)
      refine ⟨hid.symm, not_not.mp fun hne => ?_⟩
      exact (hanswered _ (hnew hne)).1 hempty
    · intro info hread
      obtain ⟨hid, hnew⟩ := h info ((hfetched info).mpr
        ⟨frames, hreplied, by rw [if_neg hempty]; exact hread⟩)
      refine ⟨hid, ?_⟩
      by_cases hstored : p.1.nodesInfo.lookup c.heartbeat.nodeId = some info
      · exact Or.inr hstored
      · exact Or.inl (hanswered info (hnew hstored)).2.1

/-- What the call leaves under a key. -/
theorem lookup_fetchingStep_of_stored (nodeUpdateEvent : Event NodeInfo σ) {info : NodeInfo}
    (hfetches : c.call.fetches p.1 = true) (hfetched : c.call.fetched = some info) (id : Str) :
    (fetchingStep nodeUpdateEvent p c).1.nodesInfo.lookup id =
      if id = c.heartbeat.nodeId then some info else p.1.nodesInfo.lookup id := by
  rw [fetchingStep, heartbeatStep_of_stored hfetches hfetched]
  change AList.lookup id (AList.insert c.heartbeat.nodeId info p.1.nodesInfo) = _
  split_ifs with hid
  · rw [hid, AList.lookup_insert]
  · rw [AList.lookup_insert_ne hid]

/-- One call keeps the keys right and stores nothing but successes exactly when its reply is
fine. -/
theorem fetchingStep_identity_iff (h : KeyIdentity p) :
    KeyIdentity (fetchingStep nodeUpdateEvent p c) ∧ StoresFromSuccess nodeUpdateEvent p c ↔
      FineReply p c := by
  rw [fineReply_iff]
  rcases heartbeatStep_cases nodeUpdateEvent p c.call with
    ⟨hquiet, hstep⟩ | ⟨fetched, hfetches, hfetched, _⟩
  · have hsame : fetchingStep nodeUpdateEvent p c = _ := hstep
    rw [StoresFromSuccess, hsame]
    refine iff_of_true ⟨h, fun id info hlookup hne => absurd hlookup hne⟩ ?_
    intro hfetches info hinfo
    rw [hquiet hfetches] at hinfo
    cases hinfo
  · have hafter := lookup_fetchingStep_of_stored nodeUpdateEvent hfetches hfetched
    simp only [KeyIdentity, StoresFromSuccess, hafter, hfetched, Option.some.injEq, forall_eq',
      hfetches, true_implies]
    constructor
    · rintro ⟨hkeys, hstores⟩
      exact ⟨hkeys _ fetched (if_pos rfl), hstores _ fetched (if_pos rfl)⟩
    · rintro ⟨hid, hstores⟩
      constructor
      · intro id info hlookup
        split_ifs at hlookup with hkey
        · cases hlookup
          exact hid.trans hkey.symm
        · exact h id info hlookup
      · intro id info hlookup hne
        split_ifs at hlookup with hkey
        · cases hlookup
          exact hstores (hkey ▸ hne)
        · exact absurd hlookup hne

/-- Along a run that starts with an empty table every entry belongs to its key, and was decoded
from a success, exactly when the reply to each fetch is fine. -/
theorem key_identity_iff (nodeUpdateEvent : Event NodeInfo σ) (s : σ)
    (calls : List FetchingCall) :
    (Runs.Always (fetchingStep nodeUpdateEvent) KeyIdentity (NodeTable.empty, s) calls ∧
      Runs.Each (fetchingStep nodeUpdateEvent) (StoresFromSuccess nodeUpdateEvent)
        (NodeTable.empty, s) calls) ↔
      Runs.Each (fetchingStep nodeUpdateEvent) FineReply (NodeTable.empty, s) calls := by
  have hempty : KeyIdentity (NodeTable.empty, s) := by
    intro id info hlookup
    cases hlookup
  exact Runs.always_and_each_iff (I := fun _ => True) (fun _ _ _ _ => trivial)
    (fun _ _ _ h => fetchingStep_identity_iff h) trivial hempty calls

/-- A node that has dropped its handlers, `get_node_info` among them, answers the fetch. -/
def handlerlessEnv : FetchEnv where
  net := goneNetwork
  infoType := ⟨fun _ => none, fun _ => none, rfl⟩
  uninitialised := 0

/-- Its heartbeat. -/
def handlerlessCall : FetchingCall :=
  ⟨⟨(0, 1, 0), ascii "a", 1, 6000, ascii "lab"⟩, ascii "10.0.0.2", handlerlessEnv, 0, 0⟩

/-- The reply says NOSERVICE, and an info without an identifier is stored. -/
theorem noservice_reply_stored :
    ¬ (Runs.Always (fetchingStep (⟨[]⟩ : Event NodeInfo Unit)) KeyIdentity (NodeTable.empty, ())
        [handlerlessCall] ∧
      Runs.Each (fetchingStep ⟨[]⟩) (StoresFromSuccess ⟨[]⟩) (NodeTable.empty, ())
        [handlerlessCall]) := by
  rintro ⟨⟨_, hkeys⟩, _⟩
  have hid := hkeys (ascii "a") handlerlessEnv.declared (by decide)
  exact absurd hid (by decide)

end ZeroLanCom
