import Mathlib.Data.List.AList
import ZeroLanCom.Library.Runs
import ZeroLanCom.Nodes.NodeInfoManager
import ZeroLanCom.Serialization.Codec

/-!
# The service manager and its reply socket

One REP socket serves all requests. A poll round reads two frames, runs the
handler and sends two frames. The socket insists on alternating whole requests
with whole replies, so a round that returns or throws between the two leaves a
reply owed, and no later request can be read.
-/

namespace ZeroLanCom

open Throwing ZeroMq

/-- The status strings of `ResponseStatus`. -/
inductive ResponseStatus where
  | SUCCESS
  | NOSERVICE
  | INVALID_RESPONSE
  | SERVICE_FAIL
  | SERVICE_TIMEOUT
  | INVALID_REQUEST
  | UNKNOWN_ERROR
  deriving DecidableEq, Repr

/-- The word that goes on the wire. -/
def ResponseStatus.text : ResponseStatus → Str
  | .SUCCESS => ascii "SUCCESS"
  | .NOSERVICE => ascii "NOSERVICE"
  | .INVALID_RESPONSE => ascii "INVALID_RESPONSE"
  | .SERVICE_FAIL => ascii "SERVICE_FAIL"
  | .SERVICE_TIMEOUT => ascii "SERVICE_TIMEOUT"
  | .INVALID_REQUEST => ascii "INVALID_REQUEST"
  | .UNKNOWN_ERROR => ascii "UNKNOWN_ERROR"

/-- The two frames of a reply. -/
structure Response where
  code : ResponseStatus := .SUCCESS
  payload : Bytes := []
  deriving DecidableEq, Repr

/-- `handlers_`. -/
abbrev Handlers := StrMap (Bytes → Except Exn Bytes)

/-- `ServiceManager::registerHandler`, for a function and for a bound member function. -/
def registerHandler {ρ₁ ρ₂ : Type} (request : MsgPack ρ₁) (response : MsgPack ρ₂) (name : Str)
    (func : ρ₁ → Except Exn ρ₂) (handlers : Handlers) : Handlers :=
  handlers.insert name fun payload => do
    let req ← request.decode payload
    let resp ← func req
    response.encode resp

/-- `ServiceManager::removeHandler`. -/
def removeHandler (name : Str) (handlers : Handlers) : Handlers := handlers.erase name

/-- `ServiceManager::clearHandlers`. -/
def clearHandlers (_ : Handlers) : Handlers := ∅

/-- `ServiceManager::handleRequest`; only what is no `std::exception` gets past it. -/
def handleRequest (handlers : Handlers) (serviceName : Str) (payload : Bytes) :
    Except Exn Response :=
  match handlers.lookup serviceName with
  | none => .ok { code := .NOSERVICE }
  | some handler =>
    match handler payload with
    | .ok out => .ok { code := .SUCCESS, payload := out }
    | .error .decodeException => .ok { code := .INVALID_RESPONSE }
    | .error .encodeException => .ok { code := .INVALID_REQUEST }
    | .error e => if e.isStd then .ok { code := .SERVICE_FAIL } else .error e

/-- The handler of that name, called on the payload, throws past `std::exception`. -/
def ThrowsForeign (handlers : Handlers) (serviceName : Str) (payload : Bytes) : Prop :=
  ∃ handler, handlers.lookup serviceName = some handler ∧ handler payload = .error .foreign

/-- An exception leaves `handleRequest` exactly if its handler throws something foreign. -/
theorem handleRequest_error_iff {handlers : Handlers} {serviceName : Str} {payload : Bytes} :
    (∃ e, handleRequest handlers serviceName payload = .error e) ↔
      ThrowsForeign handlers serviceName payload := by
  unfold handleRequest ThrowsForeign
  cases handlers.lookup serviceName with
  | none => simp
  | some handler =>
    simp only [Option.some.injEq, exists_eq_left']
    cases handler payload with
    | ok out => simp
    | error e => cases e <;> simp [Exn.isStd]

/-- Every other request has a response. -/
theorem exists_response {handlers : Handlers} {serviceName : Str} {payload : Bytes}
    (h : ¬ ThrowsForeign handlers serviceName payload) :
    ∃ response, handleRequest handlers serviceName payload = .ok response := by
  cases hhandle : handleRequest handlers serviceName payload with
  | ok response => exact ⟨response, rfl⟩
  | error e => exact absurd (handleRequest_error_iff.mp ⟨e, hhandle⟩) h

variable {ι : Type*}

/-- `ServiceManager::pollOnce`. Errors of ZeroMQ are logged and end the round. -/
def pollOnce (handlers : Handlers) (s : RepSocket ι Bytes) : Outcome Exn (RepSocket ι Bytes) :=
  match s.recv with
  | .error _ => .done s
  | .ok (none, s) => .done s
  | .ok (some (nameMsg, more), s) =>
    let serviceName := decodeServiceHeader nameMsg
    if !more then .done s -- "Missing payload frame"
    else match s.recv with
      | .error _ => .done s
      | .ok (none, s) => .done s
      | .ok (some (payload, _), s) => -- "Extra frames received" is only logged
        match handleRequest handlers serviceName payload with
        | .error e => if e.isZmqError then .done s else .threw e s
        | .ok response =>
          match s.send response.code.text true with
          | .error _ => .done s
          | .ok s =>
            match s.send response.payload false with
            | .error _ => .done s
            | .ok s => .done s

/-- A request waiting in the queue is read as one whose first frame is next. -/
theorem pollOnce_queued (handlers : Handlers) (peer : ι) (m : Multipart Bytes)
    (later : List (ι × Multipart Bytes)) (replies : List (ι × List Bytes)) :
    pollOnce handlers ⟨.idle, (peer, m) :: later, replies⟩ =
      pollOnce handlers ⟨.receiving peer m.first m.rest, later, replies⟩ := rfl

/-- A last frame without a payload behind it is read, and never answered. -/
theorem pollOnce_single (handlers : Handlers) (peer : ι) (name : Bytes)
    (later : List (ι × Multipart Bytes)) (replies : List (ι × List Bytes)) :
    pollOnce handlers ⟨.receiving peer name [], later, replies⟩ =
      .done ⟨.replying peer [], later, replies⟩ := rfl

/-- The last two frames are answered if the handler lets a response through. -/
theorem pollOnce_pair (handlers : Handlers) (peer : ι) (name payload : Bytes)
    (later : List (ι × Multipart Bytes)) (replies : List (ι × List Bytes)) :
    (pollOnce handlers ⟨.receiving peer name [payload], later, replies⟩).state =
      match handleRequest handlers (decodeServiceHeader name) payload with
      | .ok response =>
        ⟨.idle, later, replies ++ [(peer, [response.code.text, response.payload])]⟩
      | .error _ => ⟨.replying peer [], later, replies⟩ := by
  cases h : handleRequest handlers (decodeServiceHeader name) payload with
  | ok response => simp [pollOnce, RepSocket.recv, RepSocket.afterFrame, RepSocket.send, h]
  | error e =>
    cases he : e.isZmqError <;>
      simp [pollOnce, RepSocket.recv, RepSocket.afterFrame, h, he]

/-- With more than two frames left, the reply comes too early and is refused. -/
theorem pollOnce_long (handlers : Handlers) (peer : ι) (name payload next : Bytes)
    (rest : List Bytes) (later : List (ι × Multipart Bytes)) (replies : List (ι × List Bytes)) :
    (pollOnce handlers ⟨.receiving peer name (payload :: next :: rest), later, replies⟩).state =
      ⟨.receiving peer next rest, later, replies⟩ := by
  cases h : handleRequest handlers (decodeServiceHeader name) payload with
  | ok response => simp [pollOnce, RepSocket.recv, RepSocket.afterFrame, RepSocket.send, h]
  | error e =>
    cases he : e.isZmqError <;>
      simp [pollOnce, RepSocket.recv, RepSocket.afterFrame, h, he]

/-- While a reply is owed, nothing is read any more. -/
theorem pollOnce_replying (handlers : Handlers) (peer : ι) (sent : List Bytes)
    (later : List (ι × Multipart Bytes)) (replies : List (ι × List Bytes)) :
    pollOnce handlers ⟨.replying peer sent, later, replies⟩ =
      .done ⟨.replying peer sent, later, replies⟩ := rfl

/-- The reply socket with the peers whose requests have arrived, in order. -/
structure ServiceRun (ι : Type*) where
  socket : RepSocket ι Bytes
  arrived : List ι

/-- A request arrives, or the poll task runs a round. The handlers of each round are its own,
so that they may be stateful and may be registered and removed between rounds. -/
inductive ServiceOp (ι : Type*) where
  | arrive (peer : ι) (request : Multipart Bytes)
  | poll (handlers : Handlers)

/-- Nobody has asked yet. -/
def ServiceRun.start : ServiceRun ι := ⟨.fresh, []⟩

/-- `PeriodicTask::runLoop` stops every exception of a round and goes on. -/
def serviceStep (r : ServiceRun ι) : ServiceOp ι → ServiceRun ι
  | .arrive peer request => ⟨r.socket.arrive peer request, r.arrived ++ [peer]⟩
  | .poll handlers => { r with socket := (pollOnce handlers r.socket).state }

/-- Every request read to its end has been answered once, with two frames, and the socket
owes nobody a reply, so that it can read the next request. -/
structure Served (r : ServiceRun ι) : Prop where
  ready : ∀ peer sent, r.socket.phase ≠ .replying peer sent
  once : r.socket.answered ++ r.socket.waiting = r.arrived
  twoFrames : ∀ reply ∈ r.socket.replies,
    ∃ response : Response, reply.2 = [response.code.text, response.payload]

/-- The frames the round is about to read are not a single last one, and if they are the last
two, their handler does not throw past `std::exception`. -/
def Answerable (r : ServiceRun ι) : ServiceOp ι → Prop
  | .arrive _ _ => True
  | .poll handlers =>
    match r.socket.unread with
    | [_] => False
    | [name, payload] => ¬ ThrowsForeign handlers (decodeServiceHeader name) payload
    | _ => True

private theorem poll_served_iff (handlers : Handlers) (peer : ι) (f : Bytes) (rest : List Bytes)
    (later : List (ι × Multipart Bytes)) (replies : List (ι × List Bytes)) (arrived : List ι)
    (h : Served ⟨⟨.receiving peer f rest, later, replies⟩, arrived⟩) :
    Served (serviceStep ⟨⟨.receiving peer f rest, later, replies⟩, arrived⟩ (.poll handlers)) ↔
      Answerable ⟨⟨.receiving peer f rest, later, replies⟩, arrived⟩ (.poll handlers) := by
  cases rest with
  | nil =>
    simp only [serviceStep, pollOnce_single, Outcome.state_done, Answerable, RepSocket.unread,
      iff_false]
    exact fun hserved => hserved.ready peer [] rfl
  | cons payload rest =>
    cases rest with
    | cons next rest =>
      simp only [serviceStep, pollOnce_long, Answerable, RepSocket.unread, iff_true]
      exact ⟨fun _ _ he => by simp at he, h.once, h.twoFrames⟩
    | nil =>
      simp only [serviceStep, pollOnce_pair, Answerable, RepSocket.unread,
        ← handleRequest_error_iff]
      cases hreq : handleRequest handlers (decodeServiceHeader f) payload with
      | error e =>
        simp only [Except.error.injEq, exists_eq', not_true_eq_false, iff_false]
        exact fun hserved => hserved.ready peer [] rfl
      | ok response =>
        simp only [reduceCtorEq, exists_false, not_false_eq_true, iff_true]
        refine ⟨fun _ _ he => by simp at he, ?_, ?_⟩
        · have honce := h.once
          simp only [RepSocket.answered, RepSocket.waiting, List.map_append, List.map_cons,
            List.map_nil, List.nil_append, List.append_assoc] at honce ⊢
          exact honce
        · intro reply hreply
          rcases List.mem_append.mp hreply with hold | hnew
          · exact h.twoFrames reply hold
          · exact ⟨response, by rw [List.mem_singleton.mp hnew]⟩

/-- A round from a served state leads to a served state exactly when it can answer. -/
theorem serviceStep_served_iff {r : ServiceRun ι} (h : Served r) (op : ServiceOp ι) :
    Served (serviceStep r op) ↔ Answerable r op := by
  obtain ⟨⟨phase, incoming, replies⟩, arrived⟩ := r
  cases op with
  | arrive peer request =>
    refine ⟨fun _ => trivial, fun _ => ⟨h.ready, ?_, h.twoFrames⟩⟩
    have honce := h.once
    simp only [serviceStep, RepSocket.arrive, RepSocket.answered, RepSocket.waiting,
      List.map_append, List.map_cons, List.map_nil] at honce ⊢
    rw [← honce, List.append_assoc, List.append_assoc]
  | poll handlers =>
    cases phase with
    | replying peer sent => exact absurd rfl (h.ready peer sent)
    | receiving peer f rest => exact poll_served_iff handlers peer f rest incoming replies arrived h
    | idle =>
      cases incoming with
      | nil => exact ⟨fun _ => trivial, fun _ => h⟩
      | cons m later =>
        obtain ⟨peer, m⟩ := m
        have hopen : Served ⟨⟨.receiving peer m.first m.rest, later, replies⟩, arrived⟩ :=
          ⟨fun _ _ he => by simp at he, h.once, h.twoFrames⟩
        have hiff := poll_served_iff handlers peer m.first m.rest later replies arrived hopen
        simp only [serviceStep, pollOnce_queued] at hiff ⊢
        exact hiff

/-- A round that can answer reads two frames, so every message is consumed by the rounds its
frames take. -/
theorem poll_reads_two {r : ServiceRun ι} {handlers : Handlers}
    (hans : Answerable r (.poll handlers)) (hunread : r.socket.unread ≠ []) :
    ∃ a b, r.socket.unread = a :: b ::
      (if r.socket.unread.length = 2 then []
        else (serviceStep r (.poll handlers)).socket.unread) := by
  obtain ⟨⟨phase, incoming, replies⟩, arrived⟩ := r
  have hreceiving : ∀ (peer : ι) (f : Bytes) (rest : List Bytes)
      (later : List (ι × Multipart Bytes)), rest ≠ [] →
      ∃ a b, f :: rest = a :: b :: (if (f :: rest).length = 2 then []
        else (pollOnce handlers ⟨.receiving peer f rest, later, replies⟩).state.unread) := by
    intro peer f rest later hrest
    cases rest with
    | nil => exact absurd rfl hrest
    | cons payload rest =>
      refine ⟨f, payload, ?_⟩
      cases rest with
      | nil => simp
      | cons next rest => simp [pollOnce_long, RepSocket.unread]
  cases phase with
  | replying peer sent => simp [RepSocket.unread] at hunread
  | receiving peer f rest =>
    apply hreceiving peer f rest incoming
    rintro rfl
    exact hans
  | idle =>
    cases incoming with
    | nil => simp [RepSocket.unread] at hunread
    | cons m later =>
      obtain ⟨peer, m⟩ := m
      have hrest : m.rest ≠ [] := by
        intro hnil
        simp [Answerable, RepSocket.unread, Multipart.frames, hnil] at hans
      exact hreceiving peer m.first m.rest later hrest

/-- Along a run every message is answered as it is consumed exactly when every round can
answer what it reads. -/
theorem requests_served_iff (ops : List (ServiceOp ι)) :
    Runs.Always serviceStep Served .start ops ↔ Runs.Each serviceStep Answerable .start ops := by
  have hstart : Served (.start : ServiceRun ι) :=
    ⟨fun _ _ he => by simp [ServiceRun.start, RepSocket.fresh] at he, rfl,
      fun _ h => absurd h List.not_mem_nil⟩
  exact Runs.always_iff_each (I := fun _ => True) (P := Served) (C := Answerable)
    (fun _ _ _ => trivial) (fun r op _ h => serviceStep_served_iff (r := r) h op) trivial
    hstart ops

/-- A request without a payload frame, then a well-formed one. -/
def headerOnlyRun : List (ServiceOp Nat) :=
  [.arrive 0 ⟨ascii "get_node_info", []⟩, .poll ∅,
    .arrive 1 ⟨ascii "get_node_info", [[0xC0]]⟩, .poll ∅]

/-- The first request is never answered, and the second is never even read. -/
theorem header_only_blocks_socket :
    ¬ Runs.Always serviceStep Served .start headerOnlyRun ∧
      (Runs.run serviceStep .start headerOnlyRun).socket.answered = [] := by
  refine ⟨?_, rfl⟩
  rintro ⟨_, _, h, _⟩
  exact h.ready 0 [] rfl

end ZeroLanCom
