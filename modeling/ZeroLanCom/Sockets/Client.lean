import ZeroLanCom.Sockets.ServiceManager

/-!
# Service requests

The client sends the service name and the encoded request, and takes the second
frame of the reply for the payload. It looks at neither the status frame nor at
what is missing: a reply without a payload leaves the response as it was.
-/

namespace ZeroLanCom

/-- `recv` on the unread frames of a reply, with the more flag, or its error path where there is
none. -/
def recvFrame : List Bytes → Option ((Bytes × Bool) × List Bytes)
  | [] => none
  | frame :: frames => some ((frame, !frames.isEmpty), frames)

/-- `Client::receiveResponse`; the payload stays empty on its error paths. -/
def receiveResponse (frames : List Bytes) : Bytes :=
  match recvFrame frames with
  | none => []
  | some ((_, more), frames) =>
    if !more then []
    else match recvFrame frames with
      | none => []
      | some ((payloadMsg, _), _) => payloadMsg

/-- What the client can see of the network: which URLs `connect` takes, and the reply frames
that the peer at a URL sends back for the two frames of a request. It is about exchanges that come
back: a REQ socket has no timeout, and blocks its caller where no reply ever comes. -/
structure Network where
  accepts : Str → Bool
  exchange : Str → List Bytes → Except ZeroMq.Errno (List Bytes)

variable {ρ₁ ρ₂ : Type}

/-- `Client::zlcRequest` to a URL, with the value of `response` before the call. -/
def zlcRequestUrl (net : Network) (requestType : MsgPack ρ₁) (responseType : MsgPack ρ₂)
    (serviceName serviceUrl : Str) (request : ρ₁) (response : ρ₂) : Except Exn ρ₂ :=
  if !net.accepts serviceUrl then .error (.errorT .EINVAL)
  else match requestType.encode request with
    | .error e => .error e
    | .ok out =>
      match net.exchange serviceUrl [serviceName, out] with
      | .error num => .error (.errorT num)
      | .ok frames =>
        let payload := receiveResponse frames
        if payload.length ≠ 0 then responseType.decode payload else .ok response

/-- `Client::zlcRequest`. A service nobody offers is only logged. -/
def zlcRequest (net : Network) (requestType : MsgPack ρ₁) (responseType : MsgPack ρ₂)
    (t : NodeTable) (localNodeInfo : NodeInfo) (order : MapOrder) (serviceName : Str)
    (request : ρ₁) (response : ρ₂) : Except Exn ρ₂ :=
  match t.getServiceInfo localNodeInfo order serviceName with
  | none => .ok response
  | some serviceInfo =>
    zlcRequestUrl net requestType responseType serviceName serviceInfo.url request response

/-- The reply frames of a service manager to a request of two frames. -/
def serviceReply (handlers : Handlers) (name payload : Bytes) : Option (List Bytes) :=
  match handleRequest handlers (decodeServiceHeader name) payload with
  | .ok response => some [response.code.text, response.payload]
  | .error _ => none

/-- A poll round sends these frames, or leaves the request unanswered. -/
theorem pollOnce_serviceReply {ι : Type*} (handlers : Handlers) (peer : ι) (name payload : Bytes)
    (later : List (ι × ZeroMq.Multipart Bytes)) (replies : List (ι × List Bytes)) :
    (pollOnce handlers ⟨.receiving peer name [payload], later, replies⟩).state.replies =
      replies ++ (serviceReply handlers name payload).toList.map fun frames => (peer, frames) := by
  rw [pollOnce_pair, serviceReply]
  cases handleRequest handlers (decodeServiceHeader name) payload <;> simp

/-- Every reply that is not a success has an empty payload. -/
theorem handleRequest_payload_of_failure {handlers : Handlers} {name : Str} {payload : Bytes}
    {response : Response} (h : handleRequest handlers name payload = .ok response)
    (hfail : response.code ≠ .SUCCESS) : response.payload = [] := by
  unfold handleRequest at h
  split at h
  · cases h
    rfl
  · split at h
    · cases h
      exact absurd rfl hfail
    · cases h
      rfl
    · cases h
      rfl
    · split_ifs at h
      cases h
      rfl

/-- A failure of a served request reaches the caller as a normal return with the old value. -/
theorem zlcRequestUrl_of_failure {net : Network} {requestType : MsgPack ρ₁}
    {responseType : MsgPack ρ₂} {handlers : Handlers} {serviceName serviceUrl : Str}
    {request : ρ₁} {response : ρ₂} {out : Bytes} {reply : Response}
    (hconnect : net.accepts serviceUrl = true) (hout : requestType.pack request = some out)
    (hserver : handleRequest handlers (decodeServiceHeader serviceName) out = .ok reply)
    (hnet : net.exchange serviceUrl [serviceName, out] = .ok [reply.code.text, reply.payload])
    (hfail : reply.code ≠ .SUCCESS) :
    zlcRequestUrl net requestType responseType serviceName serviceUrl request response =
      .ok response := by
  have hempty := handleRequest_payload_of_failure hserver hfail
  simp [zlcRequestUrl, hconnect, MsgPack.encode, hout, hnet, receiveResponse, recvFrame, hempty]

/-- The server answered the request with status SUCCESS, and the payload stands for the
value. -/
def AnsweredWith (net : Network) (requestType : MsgPack ρ₁) (responseType : MsgPack ρ₂)
    (t : NodeTable) (localNodeInfo : NodeInfo) (order : MapOrder) (serviceName : Str)
    (request : ρ₁) (value : ρ₂) : Prop :=
  ∃ serviceInfo out payload rest,
    t.getServiceInfo localNodeInfo order serviceName = some serviceInfo ∧
    requestType.pack request = some out ∧
    net.exchange serviceInfo.url [serviceName, out] =
      .ok (ResponseStatus.SUCCESS.text :: payload :: rest) ∧
    responseType.unpack payload = some value

/-- A reply whose payload is there, and decodes only under the status SUCCESS. -/
def TellingReply (responseType : MsgPack ρ₂) : List Bytes → Prop
  | status :: payload :: _ => payload ≠ [] ∧
      (status = ResponseStatus.SUCCESS.text ∨ responseType.unpack payload = none)
  | _ => False

/-- What the payload test and the decoder make of a reply. -/
private theorem reply_tells_iff (responseType : MsgPack ρ₂) (response : ρ₂)
    (frames : List Bytes) :
    (∀ value, (if (receiveResponse frames).length ≠ 0 then
          responseType.decode (receiveResponse frames) else .ok response) = .ok value →
        ∃ payload rest, frames = ResponseStatus.SUCCESS.text :: payload :: rest ∧
          responseType.unpack payload = some value) ↔
      TellingReply responseType frames := by
  match frames with
  | [] => simp [receiveResponse, recvFrame, TellingReply]
  | [status] => simp [receiveResponse, recvFrame, TellingReply]
  | status :: payload :: rest =>
    have hreceive : receiveResponse (status :: payload :: rest) = payload := rfl
    rw [hreceive, TellingReply]
    by_cases hpayload : payload = []
    · -- the old value is returned, which no empty payload stands for
      subst hpayload
      simp [responseType.unpack_nil]
    · cases hunpack : responseType.unpack payload with
      | none => simp [hpayload, MsgPack.decode, hunpack]
      | some value => simp [hpayload, MsgPack.decode, hunpack]

/-- A normal return means success exactly when the service is known, and the exchange, if it
comes to one, fails or ends with a reply that has a payload, one that decodes only under the
status SUCCESS. -/
theorem request_tells_success_iff (net : Network) (requestType : MsgPack ρ₁)
    (responseType : MsgPack ρ₂) (t : NodeTable) (localNodeInfo : NodeInfo) (order : MapOrder)
    (serviceName : Str) (request : ρ₁) (response : ρ₂) :
    (∀ value, zlcRequest net requestType responseType t localNodeInfo order serviceName request
          response = .ok value →
        AnsweredWith net requestType responseType t localNodeInfo order serviceName request
          value) ↔
      ∃ serviceInfo, t.getServiceInfo localNodeInfo order serviceName = some serviceInfo ∧
        (net.accepts serviceInfo.url = true → ∀ out, requestType.pack request = some out →
          ∀ frames, net.exchange serviceInfo.url [serviceName, out] = .ok frames →
            TellingReply responseType frames) := by
  unfold zlcRequest AnsweredWith
  cases hservice : t.getServiceInfo localNodeInfo order serviceName with
  | none => simp
  | some serviceInfo =>
    simp only [Option.some.injEq, exists_eq_left', zlcRequestUrl, MsgPack.encode]
    cases net.accepts serviceInfo.url with
    | false => simp
    | true =>
      cases requestType.pack request with
      | none => simp
      | some out =>
        cases hframes : net.exchange serviceInfo.url [serviceName, out] with
        | error num => simp [hframes]
        | ok frames =>
          have hreply := reply_tells_iff responseType response frames
          simp only [Bool.not_true, Bool.false_eq_true, if_false, Option.some.injEq,
            Except.ok.injEq, forall_eq', true_implies, hframes, ← hreply]
          simp only [exists_and_left, exists_eq_left', hframes, Except.ok.injEq]

/-- A node still announces a service whose handler it has removed. -/
def goneTable : NodeTable :=
  NodeTable.empty.updateNodeUnlocked (ascii "a")
    { services := [⟨ascii "echo", ascii "10.0.0.2", 6000⟩] } 0

/-- Its service manager answers, without a handler. -/
def goneNetwork : Network where
  accepts _ := true
  exchange _ frames :=
    match frames with
    | [name, payload] => .ok ((serviceReply ∅ name payload).getD [])
    | _ => .ok []

/-- The reply says NOSERVICE, and the call returns as if it had succeeded. -/
theorem noservice_reply_returns :
    ¬ ∀ value, zlcRequest goneNetwork emptyCodec emptyCodec goneTable {} .stored (ascii "echo")
        () () = .ok value →
      AnsweredWith goneNetwork emptyCodec emptyCodec goneTable {} .stored (ascii "echo") ()
        value := by
  intro h
  obtain ⟨serviceInfo, out, payload, rest, hservice, hout, hreply, _⟩ := h () rfl
  obtain rfl : out = [0xC0] := (Option.some.inj hout).symm
  have hnoservice : goneNetwork.exchange serviceInfo.url [ascii "echo", [0xC0]] =
      .ok [ascii "NOSERVICE", []] := rfl
  rw [hnoservice, Except.ok.injEq, List.cons.injEq] at hreply
  exact absurd hreply.1 (by decide)

end ZeroLanCom
