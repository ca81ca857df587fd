import ZeroLanCom.System.Rpc

/-!
# Calling a function through the network

A function that is registered as a service decodes its argument and encodes its
value, the client does the opposite, and between them lie two sockets and other
people's requests. What the caller gets is what the function would have given it,
or what it had before.
-/

namespace ZeroLanCom

/-- What has been packed unpacks to the value it was packed from. -/
def MsgPack.RoundTrips {ρ : Type*} (c : MsgPack ρ) : Prop :=
  ∀ value out, c.pack value = some out → c.unpack out = some value

section Service

variable {ρ₁ ρ₂ : Type} (request : MsgPack ρ₁) (response : MsgPack ρ₂) (func : ρ₁ → Except Exn ρ₂)

/-- What the service of a function makes of a payload. -/
def serviceHandler (payload : Bytes) : Except Exn Bytes := do
  let req ← request.decode payload
  let resp ← func req
  response.encode resp

/-- What registration stores under the name. -/
theorem registerHandler_eq_insert (name : Str) (handlers : Handlers) :
    registerHandler request response name func handlers =
      handlers.insert name (serviceHandler request response func) := rfl

/-- The name stands for that service, if it stands for one. -/
def Provides (name : Str) (handlers : Handlers) : Prop :=
  ∀ handler, handlers.lookup name = some handler → handler = serviceHandler request response func

/-- The value of the function, if it has one that can be sent. -/
def localCall (req : ρ₁) (before : ρ₂) : ρ₂ :=
  match func req with
  | .ok value => if (response.pack value).isSome then value else before
  | .error _ => before

/-- The payload that goes back for an argument. -/
def replyPayload (req : ρ₁) : Bytes :=
  match func req with
  | .ok value => (response.pack value).getD []
  | .error _ => []

variable {request response func}

/-- The service unpacks the argument, and packs the value. -/
theorem serviceHandler_of_pack (hrequest : request.RoundTrips) {req : ρ₁} {out : Bytes}
    (hout : request.pack req = some out) :
    serviceHandler request response func out = (func req).bind response.encode := by
  have hdecode : request.decode out = .ok req := by rw [MsgPack.decode, hrequest req out hout]
  rw [serviceHandler, hdecode]
  rfl

/-- Every reply but a success goes without a payload. -/
theorem payload_of_provides {name : Str} {handlers : Handlers} {reply : Response}
    (hrequest : request.RoundTrips) (hprovides : Provides request response func name handlers)
    {req : ρ₁} {out : Bytes} (hout : request.pack req = some out)
    (hreply : handleRequest handlers name out = .ok reply) :
    reply.payload = if name ∈ handlers then replyPayload response func req else [] := by
  cases hlookup : handlers.lookup name with
  | none =>
    rw [handleRequest, hlookup] at hreply
    cases hreply
    rw [if_neg (AList.lookup_eq_none.mp hlookup)]
  | some handler =>
    obtain rfl := hprovides handler hlookup
    rw [if_pos (AList.lookup_isSome.mp (by rw [hlookup]; rfl)), replyPayload]
    simp only [handleRequest, hlookup, serviceHandler_of_pack hrequest hout] at hreply
    cases hfunc : func req with
    | error e =>
      rw [hfunc] at hreply
      cases e <;> cases hreply <;> rfl
    | ok value =>
      rw [hfunc, Except.bind, MsgPack.encode] at hreply
      cases hpack : response.pack value with
      | none =>
        rw [hpack] at hreply
        cases hreply
        simp [hpack]
      | some payload =>
        rw [hpack] at hreply
        cases hreply
        simp [hpack]

/-- The client makes the value of the function out of the payload, or leaves what it had. -/
theorem decode_replyPayload (hresponse : response.RoundTrips) (req : ρ₁) (before : ρ₂) :
    (if (replyPayload response func req).length ≠ 0 then
        response.decode (replyPayload response func req) else .ok before) =
      .ok (localCall response func req before) := by
  unfold replyPayload localCall
  cases func req with
  | error e => rfl
  | ok value =>
    cases hpack : response.pack value with
    | none => simp [hpack]
    | some payload =>
      have hunpack := hresponse value payload hpack
      have hne : payload ≠ [] := by
        rintro rfl
        rw [response.unpack_nil] at hunpack
        cases hunpack
      simp [hpack, hne, MsgPack.decode, hunpack]

/-- What the client makes of a reply. -/
theorem decode_of_provides (hrequest : request.RoundTrips) (hresponse : response.RoundTrips)
    {name : Str} {handlers : Handlers} {reply : Response}
    (hprovides : Provides request response func name handlers) {req : ρ₁} {out : Bytes}
    (hout : request.pack req = some out) (hreply : handleRequest handlers name out = .ok reply)
    (before : ρ₂) :
    (if reply.payload.length ≠ 0 then response.decode reply.payload else .ok before) =
      .ok (if name ∈ handlers then localCall response func req before else before) := by
  rw [payload_of_provides hrequest hprovides hout hreply]
  by_cases hknown : name ∈ handlers
  · rw [if_pos hknown, if_pos hknown]
    exact decode_replyPayload hresponse req before
  · rw [if_neg hknown, if_neg hknown]
    rfl

end Service

namespace Rpc

variable {κ : Type*} [DecidableEq κ] {ρ₁ ρ₂ : Type}

/-- A step after which the name still stands for nothing but the service. -/
def StepProviding (request : MsgPack ρ₁) (response : MsgPack ρ₂) (func : ρ₁ → Except Exn ρ₂)
    (name : Str) (s s' : Rpc κ) : Prop :=
  Step s s' ∧ Provides request response func name s'.handlers

/-- It has stood for nothing else at any request that has been handled. -/
structure ProvidedAlong (request : MsgPack ρ₁) (response : MsgPack ρ₂)
    (func : ρ₁ → Except Exn ρ₂) (name : Str) (s : Rpc κ) : Prop where
  invariant : s.Invariant
  now : Provides request response func name s.handlers
  before : ∀ h ∈ s.handled, Provides request response func name h.handlers

variable {request : MsgPack ρ₁} {response : MsgPack ρ₂} {func : ρ₁ → Except Exn ρ₂} {name : Str}
  {s s' : Rpc κ}

/-- What a step adds to the requests that have been handled. -/
theorem Step.handled (hstep : Step s s') :
    ∀ h ∈ s'.handled, h ∈ s.handled ∨ h.handlers = s.handlers := by
  cases hstep with
  | poll =>
    intro h hmem
    rcases List.mem_append.mp hmem with hold | hnew
    · exact Or.inl hold
    · obtain ⟨r, _, rfl⟩ := List.mem_map.mp hnew
      exact Or.inr rfl
  | _ => exact fun h hmem => Or.inl hmem

/-- A step that leaves the service to its function leaves the record of the rounds so. -/
theorem ProvidedAlong.step (h : s.ProvidedAlong request response func name)
    (hstep : StepProviding request response func name s s') :
    s'.ProvidedAlong request response func name where
  invariant := invariant_step h.invariant hstep.1
  now := hstep.2
  before e he := by
    rcases hstep.1.handled e he with hold | hnew
    · exact h.before e hold
    · rw [hnew]
      exact h.now

omit [DecidableEq κ] in
/-- No round has run. -/
theorem providedAlong_start : (start : Rpc κ).ProvidedAlong request response func name :=
  ⟨invariant_start, (fun _ h => nomatch h), fun _ h => absurd h List.not_mem_nil⟩

/-- In every run in which a name stands for one function, as often as it may be registered and
removed, a call that has come back has the value of the function on its own argument, or leaves the
response as it was if nothing was registered when its turn came, or the function has no value to
send. -/
theorem remote_call_exact (hrequest : request.RoundTrips) (hresponse : response.RoundTrips)
    (hrun : Relation.ReflTransGen (StepProviding request response func name) start s) {c : κ}
    {n : Nat} {frame out : Bytes} {req : ρ₁} (hname : decodeServiceHeader frame = name)
    (hout : request.pack req = some out) (hcall : s.requestOf (c, n) = some (frame, out))
    {net : Network} {serviceUrl : Str} {frames : List Bytes}
    (hconnect : net.accepts serviceUrl = true)
    (hexchange : net.exchange serviceUrl [frame, out] = .ok frames)
    (hdelivered : (s.clients c).received[n]? = some (receiveResponse frames)) (before : ρ₂) :
    ∃ h ∈ s.handled, h.peer = (c, n) ∧
      zlcRequestUrl net request response frame serviceUrl req before =
        .ok (if name ∈ h.handlers then localCall response func req before else before) := by
  have hprovided := Runs.reachable_invariant
    (I := fun s : Rpc κ => s.ProvidedAlong request response func name)
    (fun _ _ h hstep => h.step hstep) hrun providedAlong_start
  obtain ⟨h, hh, hpeer, reply, hyields, hpayload⟩ :=
    hprovided.invariant.paired.received c n _ hdelivered
  have hmade := hprovided.invariant.paired.made h hh
  rw [hpeer, hcall, Option.some.injEq, Prod.mk.injEq] at hmade
  obtain ⟨rfl, rfl⟩ := hmade
  refine ⟨h, hh, hpeer, ?_⟩
  rw [Handled.Yields, hname] at hyields
  have hresult : zlcRequestUrl net request response h.name serviceUrl req before =
      if (receiveResponse frames).length ≠ 0 then response.decode (receiveResponse frames)
      else .ok before := by
    simp [zlcRequestUrl, hconnect, MsgPack.encode, hout, hexchange]
  rw [hresult, ← hpayload]
  exact decode_of_provides hrequest hresponse (hprovided.before h hh) hout hyields before

/-- A byte is read as it was written. -/
theorem byteCodec_roundTrips : byteCodec.RoundTrips := by
  rintro value out ⟨⟩
  by_cases hsmall : value < 128 <;> simp [byteCodec, hsmall]

/-- The function that the example serves. -/
def increment (value : UInt8) : Except Exn UInt8 := .ok (value + 1)

/-- What the service manager has once it is registered. -/
def incrementHandlers : Handlers :=
  registerHandler byteCodec byteCodec (ascii "increment") increment ∅

/-- The function has been registered, called with five, and its value has come back. -/
def incremented : Rpc Unit where
  clients := Function.update
    (Function.update (fun _ => ⟨[], []⟩) () ⟨[(ascii "increment", [5])], []⟩) ()
    ⟨[(ascii "increment", [5])], [[6]]⟩
  inFlight := []
  socket := ⟨.idle, [], [(((), 0), [ascii "SUCCESS", [6]])]⟩
  handlers := incrementHandlers
  handled := [⟨((), 0), ascii "increment", [5], incrementHandlers⟩]

/-- The service is there, and it is that function. -/
theorem provides_increment :
    Provides byteCodec byteCodec increment (ascii "increment") incrementHandlers := by
  intro handler hlookup
  rw [incrementHandlers, registerHandler_eq_insert, AList.lookup_insert, Option.some.injEq]
    at hlookup
  exact hlookup.symm

/-- The call, the round that answers it, and the delivery. -/
theorem run_incremented : Relation.ReflTransGen
    (StepProviding byteCodec byteCodec increment (ascii "increment")) start incremented := by
  have hregistered : Relation.ReflTransGen
      (StepProviding byteCodec byteCodec increment (ascii "increment")) (start : Rpc Unit) _ :=
    .single ⟨.registerHandler _ byteCodec byteCodec (ascii "increment") increment
      (fun _ _ h => nomatch h), provides_increment⟩
  have hcalled := hregistered.tail ⟨.call _ () (ascii "increment") [5] rfl, provides_increment⟩
  have harrived := hcalled.tail ⟨.arrive _ [] [] ((), 0) ⟨ascii "increment", [[5]]⟩ rfl,
    provides_increment⟩
  have hpolled := harrived.tail ⟨.poll _, provides_increment⟩
  exact hpolled.tail ⟨.deliver _ () [ascii "SUCCESS", [6]] (by decide)
    (List.mem_singleton.mpr rfl), provides_increment⟩

/-- A service manager with these handlers, reached at any URL. -/
def incrementNetwork : Network where
  accepts _ := true
  exchange _ frames :=
    match frames with
    | [name, payload] => .ok ((serviceReply incrementHandlers name payload).getD [])
    | _ => .ok []

/-- The client gets six for its five. -/
theorem remote_call_exact_incremented : ∃ h ∈ incremented.handled, h.peer = ((), 0) ∧
    zlcRequestUrl incrementNetwork byteCodec byteCodec (ascii "increment")
        (ascii "tcp://10.0.0.2:6000") 5 0 =
      .ok (if ascii "increment" ∈ h.handlers then localCall byteCodec increment 5 0 else 0) :=
  remote_call_exact byteCodec_roundTrips byteCodec_roundTrips run_incremented (by decide) rfl rfl
    rfl rfl rfl 0

end Rpc

end ZeroLanCom
