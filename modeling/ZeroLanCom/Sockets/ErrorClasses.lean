import ZeroLanCom.Sockets.ServiceManager

/-!
# Which status a failed request gets

The closure that `registerHandler` stores decodes the request, calls the user's
function and encodes its result. `handleRequest` sees only the class of the
exception that comes out of it, not the phase in which it was thrown.
-/

namespace ZeroLanCom

/-- What one call of `registerHandler` is given. -/
structure Service where
  RequestType : Type
  ResponseType : Type
  request : MsgPack RequestType
  response : MsgPack ResponseType
  func : RequestType → Except Exn ResponseType

/-- `handlers_` after these calls of `registerHandler`. -/
def handlersOf (services : List (Str × Service)) : Handlers :=
  services.foldl
    (fun handlers s => registerHandler s.2.request s.2.response s.1 s.2.func handlers) ∅

/-- The service registered last under the name. -/
def registeredService (services : List (Str × Service)) (name : Str) : Option Service :=
  services.foldl (fun found s => if s.1 = name then some s.2 else found) none

/-- The closure that `registerHandler` stores. -/
def Service.handler (s : Service) (payload : Bytes) : Except Exn Bytes := do
  let req ← s.request.decode payload
  let resp ← s.func req
  s.response.encode resp

/-- The status by the phase that failed, with an empty payload unless nothing did. -/
def statusByPhase (service : Option Service) (payload : Bytes) : Response :=
  match service with
  | none => { code := .NOSERVICE }
  | some s =>
    match s.request.unpack payload with
    | none => { code := .INVALID_REQUEST }
    | some req =>
      match s.func req with
      | .error _ => { code := .SERVICE_FAIL }
      | .ok resp =>
        match s.response.pack resp with
        | none => { code := .INVALID_RESPONSE }
        | some out => { code := .SUCCESS, payload := out }

/-- Nobody has the name, or the payload decodes, and then the function throws a `std::exception`
that is neither a `DecodeException` nor an `EncodeException`, or its result encodes. -/
def PhaseTold (service : Option Service) (payload : Bytes) : Prop :=
  ∀ s, service = some s → ∃ req, s.request.unpack payload = some req ∧
    ((∃ e, s.func req = .error e ∧ e.isStd = true ∧ e ≠ .decodeException ∧ e ≠ .encodeException) ∨
      ∃ resp out, s.func req = .ok resp ∧ s.response.pack resp = some out)

/-- The table holds the closure of the service registered last. -/
theorem lookup_handlersOf (services : List (Str × Service)) (name : Str) :
    (handlersOf services).lookup name = (registeredService services name).map Service.handler := by
  have hfold : ∀ (handlers : Handlers) (found : Option Service),
      handlers.lookup name = found.map Service.handler →
      (services.foldl (fun handlers s =>
          registerHandler s.2.request s.2.response s.1 s.2.func handlers) handlers).lookup name =
        (services.foldl (fun found s => if s.1 = name then some s.2 else found) found).map
          Service.handler := by
    induction services with
    | nil => exact fun _ _ h => h
    | cons s services ih =>
      intro handlers found h
      refine ih _ _ ?_
      by_cases hname : s.1 = name
      · subst hname
        simp only [registerHandler, AList.lookup_insert, if_true]
        rfl
      · simp only [registerHandler, AList.lookup_insert_ne (Ne.symm hname), if_neg hname, h]
  exact hfold ∅ none rfl

/-- What `handleRequest` makes of the closure, phase by phase. -/
theorem handleRequest_of_service {handlers : Handlers} {name : Str} {s : Service}
    (h : handlers.lookup name = some s.handler) (payload : Bytes) :
    handleRequest handlers name payload =
      match s.request.unpack payload with
      | none => .ok { code := .INVALID_RESPONSE }
      | some req =>
        match s.func req with
        | .error .decodeException => .ok { code := .INVALID_RESPONSE }
        | .error .encodeException => .ok { code := .INVALID_REQUEST }
        | .error e => if e.isStd then .ok { code := .SERVICE_FAIL } else .error e
        | .ok resp =>
          match s.response.pack resp with
          | none => .ok { code := .INVALID_REQUEST }
          | some out => .ok { code := .SUCCESS, payload := out } := by
  rw [handleRequest, h]
  simp only [Service.handler, MsgPack.decode, MsgPack.encode]
  cases s.request.unpack payload with
  | none => rfl
  | some req =>
    simp only [bind, Except.bind]
    cases s.func req with
    | error e => cases e <;> rfl
    | ok resp =>
      simp only
      cases s.response.pack resp <;> rfl

/-- A request gets the status of the phase that failed exactly when nobody has the name, or it
decodes and neither a codec exception of the function nor an unencodable result ends it. -/
theorem error_classification_iff (services : List (Str × Service)) (name : Str) (payload : Bytes) :
    handleRequest (handlersOf services) name payload =
        .ok (statusByPhase (registeredService services name) payload) ↔
      PhaseTold (registeredService services name) payload := by
  have hlookup := lookup_handlersOf services name
  cases hservice : registeredService services name with
  | none =>
    rw [hservice] at hlookup
    have hnone : handleRequest (handlersOf services) name payload = .ok { code := .NOSERVICE } := by
      rw [handleRequest, hlookup]
      rfl
    exact iff_of_true hnone fun s hs => by cases hs
  | some s =>
    rw [hservice] at hlookup
    rw [handleRequest_of_service hlookup]
    simp only [statusByPhase, PhaseTold, Option.some.injEq, forall_eq']
    cases s.request.unpack payload with
    | none => simp
    | some req =>
      simp only [Option.some.injEq, exists_eq_left']
      cases s.func req with
      | error e => cases e <;> simp [Exn.isStd]
      | ok resp =>
        simp only [reduceCtorEq, false_and, exists_false, false_or, Except.ok.injEq,
          exists_and_left, exists_eq_left']
        cases s.response.pack resp <;> simp

/-- A service that answers nothing with nothing. -/
def pingService : Service := ⟨Unit, Unit, emptyCodec, emptyCodec, fun _ => .ok ()⟩

/-- Its request does not decode, and the caller is told that the response was invalid. -/
theorem undecodable_request_blamed_on_response :
    handleRequest (handlersOf [(ascii "ping", pingService)]) (ascii "ping") [0x01] =
        .ok { code := .INVALID_RESPONSE } ∧
      handleRequest (handlersOf [(ascii "ping", pingService)]) (ascii "ping") [0x01] ≠
        .ok (statusByPhase (registeredService [(ascii "ping", pingService)] (ascii "ping"))
          [0x01]) := by
  decide

end ZeroLanCom
