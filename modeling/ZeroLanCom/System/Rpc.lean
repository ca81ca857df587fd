import ZeroLanCom.Sockets.Client

/-!
# Any number of clients and one service manager

Each call of a client has a REQ socket of its own, which sends one request and
waits for one reply. Requests travel in any order, poll rounds take them up one
by one, and the handlers change between the rounds.
-/

namespace ZeroLanCom

open Throwing ZeroMq

variable {ι κ : Type*}

/-- The request that a poll round hands to `handleRequest`: the peer it comes from, its name
frame and its payload frame. -/
def handedOver (s : RepSocket ι Bytes) : Option (ι × Bytes × Bytes) :=
  match s.recv with
  | .ok (some (nameMsg, true), s) =>
    match s.phase, s.recv with
    | .receiving peer _ _, .ok (some (payload, _), _) => some (peer, nameMsg, payload)
    | _, _ => none
  | _ => none

/-- A request in its last frame is handed over if it has one. -/
theorem handedOver_receiving (peer : ι) (f : Bytes) (rest : List Bytes)
    (later : List (ι × Multipart Bytes)) (replies : List (ι × List Bytes)) :
    handedOver ⟨.receiving peer f rest, later, replies⟩ =
      rest.head?.map fun payload => (peer, f, payload) := by
  cases rest with
  | nil => rfl
  | cons payload rest => rfl

/-- Between two messages, a round starts on the one that arrived first. -/
theorem handedOver_queued (peer : ι) (m : Multipart Bytes) (later : List (ι × Multipart Bytes))
    (replies : List (ι × List Bytes)) :
    handedOver ⟨.idle, (peer, m) :: later, replies⟩ =
      handedOver ⟨.receiving peer m.first m.rest, later, replies⟩ := rfl

/-- A round depends on the handlers only through the answer to the request that is read. -/
theorem pollOnce_receiving_congr {handlers handlers' : Handlers} {f : Bytes} {rest : List Bytes}
    (h : ∀ payload, rest.head? = some payload →
      handleRequest handlers (decodeServiceHeader f) payload =
        handleRequest handlers' (decodeServiceHeader f) payload)
    (peer : ι) (later : List (ι × Multipart Bytes)) (replies : List (ι × List Bytes)) :
    pollOnce handlers ⟨.receiving peer f rest, later, replies⟩ =
      pollOnce handlers' ⟨.receiving peer f rest, later, replies⟩ := by
  cases rest with
  | nil => rfl
  | cons payload rest =>
    have heq := h payload rfl
    simp [pollOnce, RepSocket.recv, RepSocket.afterFrame, heq]

/-- A round uses the handlers for nothing but the request handed over. -/
theorem pollOnce_congr {s : RepSocket ι Bytes} {handlers handlers' : Handlers}
    (h : ∀ request, handedOver s = some request →
      handleRequest handlers (decodeServiceHeader request.2.1) request.2.2 =
        handleRequest handlers' (decodeServiceHeader request.2.1) request.2.2) :
    pollOnce handlers s = pollOnce handlers' s := by
  obtain ⟨phase, incoming, replies⟩ := s
  cases phase with
  | replying peer sent => rfl
  | receiving peer f rest =>
    apply pollOnce_receiving_congr
    intro payload hpayload
    exact h (peer, f, payload) (by rw [handedOver_receiving, hpayload]; rfl)
  | idle =>
    cases incoming with
    | nil => rfl
    | cons m later =>
      obtain ⟨peer, m⟩ := m
      rw [pollOnce_queued, pollOnce_queued]
      apply pollOnce_receiving_congr
      intro payload hpayload
      exact h (peer, m.first, payload)
        (by rw [handedOver_queued, handedOver_receiving, hpayload]; rfl)

/-- MessagePack failures have one exception class each. -/
theorem MsgPack.eq_of_decode_error {ρ : Type*} (codec : MsgPack ρ) {bv : Bytes} {e : Exn}
    (h : codec.decode bv = .error e) : e = .decodeException := by
  unfold decode at h
  cases hunpack : codec.unpack bv <;> simp [hunpack, eq_comm] at h
  exact h

/-- Encoding fails in one way only. -/
theorem MsgPack.eq_of_encode_error {ρ : Type*} (codec : MsgPack ρ) {obj : ρ} {e : Exn}
    (h : codec.encode obj = .error e) : e = .encodeException := by
  unfold encode at h
  cases hpack : codec.pack obj <;> simp [hpack, eq_comm] at h
  exact h

/-- A client with the name and payload frames of the calls it has made, and the payloads that came
back, in order. -/
structure RpcClient where
  requests : List (Bytes × Bytes)
  received : List Bytes

/-- A request as it was handed to `handleRequest`, with the handlers of that moment. A peer is the
socket of one call: the client and the number of its call. -/
structure Handled (κ : Type*) where
  peer : κ × Nat
  name : Bytes
  payload : Bytes
  handlers : Handlers

/-- What `handleRequest` makes of it. -/
def Handled.Yields (h : Handled κ) (response : Response) : Prop :=
  handleRequest h.handlers (decodeServiceHeader h.name) h.payload = .ok response

/-- The clients, the requests on their way, and the service manager with what it has handled. -/
structure Rpc (κ : Type*) where
  clients : κ → RpcClient
  inFlight : List ((κ × Nat) × Multipart Bytes)
  socket : RepSocket (κ × Nat) Bytes
  handlers : Handlers
  handled : List (Handled κ)

namespace Rpc

/-- Nobody has called, and nothing is registered. -/
def start : Rpc κ := ⟨fun _ => ⟨[], []⟩, [], .fresh, ∅, []⟩

/-- The two frames of a call. -/
def requestOf (s : Rpc κ) (peer : κ × Nat) : Option (Bytes × Bytes) :=
  (s.clients peer.1).requests[peer.2]?

/-- The steps of clients, network and service manager. A handler with a state of its own is
registered anew between the rounds. -/
inductive Step [DecidableEq κ] : Rpc κ → Rpc κ → Prop
  /-- `zlcRequest` up to `sendRequest`, once the call before has returned. -/
  | call (s : Rpc κ) (c : κ) (name payload : Bytes)
    (hready : (s.clients c).received.length = (s.clients c).requests.length) :
    Step s { s with
      clients := Function.update s.clients c
        { s.clients c with requests := (s.clients c).requests ++ [(name, payload)] }
      inFlight := s.inFlight ++ [((c, (s.clients c).requests.length), ⟨name, [payload]⟩)] }
  /-- A request reaches the socket of the service manager. -/
  | arrive (s : Rpc κ) (before after : List ((κ × Nat) × Multipart Bytes)) (peer : κ × Nat)
    (m : Multipart Bytes) (hsent : s.inFlight = before ++ (peer, m) :: after) :
    Step s { s with inFlight := before ++ after, socket := s.socket.arrive peer m }
  /-- `pollOnce`. -/
  | poll (s : Rpc κ) :
    Step s { s with
      socket := (pollOnce s.handlers s.socket).state
      handled := s.handled ++ (handedOver s.socket).toList.map fun r =>
        ⟨r.1, r.2.1, r.2.2, s.handlers⟩ }
  /-- `registerHandler`, with a function that throws nothing but a `std::exception`. -/
  | registerHandler (s : Rpc κ) {ρ₁ ρ₂ : Type} (request : MsgPack ρ₁) (response : MsgPack ρ₂)
    (name : Str) (func : ρ₁ → Except Exn ρ₂)
    (hstd : ∀ req e, func req = .error e → e.isStd = true) :
    Step s { s with handlers := ZeroLanCom.registerHandler request response name func s.handlers }
  | removeHandler (s : Rpc κ) (name : Str) :
    Step s { s with handlers := ZeroLanCom.removeHandler name s.handlers }
  | clearHandlers (s : Rpc κ) :
    Step s { s with handlers := ZeroLanCom.clearHandlers s.handlers }
  /-- The reply to the call a client waits for comes back, and `receiveResponse` takes its
  payload. -/
  | deliver (s : Rpc κ) (c : κ) (frames : List Bytes)
    (hwaits : (s.clients c).received.length < (s.clients c).requests.length)
    (hreply : ((c, (s.clients c).received.length), frames) ∈ s.socket.replies) :
    Step s { s with
      clients := Function.update s.clients c
        { s.clients c with received := (s.clients c).received ++ [receiveResponse frames] } }

/-- The reply that goes out for a request. -/
structure Answers (h : Handled κ) (reply : (κ × Nat) × List Bytes) : Prop where
  peer : reply.1 = h.peer
  frames : ∃ response, h.Yields response ∧ reply.2 = [response.code.text, response.payload]

/-- Requests, replies and what the clients receive belong together. -/
structure Paired (s : Rpc κ) : Prop where
  once : (s.handled.map Handled.peer).Nodup
  made : ∀ h ∈ s.handled, s.requestOf h.peer = some (h.name, h.payload)
  replies : List.Forall₂ Answers s.handled s.socket.replies
  received : ∀ c n payload, (s.clients c).received[n]? = some payload →
    ∃ h ∈ s.handled, h.peer = (c, n) ∧ ∃ response, h.Yields response ∧ response.payload = payload

/-- The requests that are not handled yet. -/
def pending (s : Rpc κ) : List ((κ × Nat) × Multipart Bytes) := s.inFlight ++ s.socket.incoming

/-- Between two rounds the socket is ready, every request is either pending or handled, and no
handler throws past `std::exception`. -/
structure Invariant (s : Rpc κ) : Prop where
  paired : s.Paired
  ready : s.socket.phase = .idle
  std : ∀ name payload, ¬ ThrowsForeign s.handlers name payload
  fresh : (s.pending.map Prod.fst ++ s.handled.map Handled.peer).Nodup
  sent : ∀ e ∈ s.pending, ∃ payload, e.2.rest = [payload] ∧
    s.requestOf e.1 = some (e.2.first, payload)

/-- Nobody has called, and nothing is under way. -/
theorem invariant_start : (start : Rpc κ).Invariant := by
  refine ⟨⟨List.nodup_nil, fun _ h => absurd h List.not_mem_nil, .nil, fun _ _ _ h => ?_⟩, rfl,
    ?_, List.nodup_nil, fun _ h => absurd h List.not_mem_nil⟩
  · cases h
  · rintro name payload ⟨handler, hlookup, _⟩
    cases hlookup

section Steps

variable {s : Rpc κ}

/-- Every peer that is pending or handled has made its call. -/
theorem Invariant.requestOf_isSome (h : s.Invariant) {peer : κ × Nat}
    (hpeer : peer ∈ s.pending.map Prod.fst ++ s.handled.map Handled.peer) :
    (s.requestOf peer).isSome := by
  rcases List.mem_append.mp hpeer with hpending | hhandled
  · obtain ⟨e, he, rfl⟩ := List.mem_map.mp hpending
    obtain ⟨payload, _, hrequest⟩ := h.sent e he
    rw [hrequest, Option.isSome_some]
  · obtain ⟨e, he, rfl⟩ := List.mem_map.mp hhandled
    rw [h.paired.made e he, Option.isSome_some]

/-- Registering and removing handlers changes nothing that has happened. -/
theorem Invariant.of_handlers (h : s.Invariant) {handlers : Handlers}
    (hstd : ∀ name payload, ¬ ThrowsForeign handlers name payload) :
    Invariant { s with handlers := handlers } :=
  ⟨⟨h.paired.once, h.paired.made, h.paired.replies, h.paired.received⟩, h.ready, hstd, h.fresh,
    h.sent⟩

/-- A request that arrives is one that has been sent. -/
theorem Invariant.arrive (h : s.Invariant) {before after : List ((κ × Nat) × Multipart Bytes)}
    {peer : κ × Nat} {m : Multipart Bytes} (hsent : s.inFlight = before ++ (peer, m) :: after) :
    Invariant { s with inFlight := before ++ after, socket := s.socket.arrive peer m } := by
  have hperm : (before ++ after ++ (s.socket.incoming ++ [(peer, m)])).Perm s.pending := by
    rw [pending, hsent, ← List.append_assoc (before ++ after), List.append_assoc before after,
      List.append_assoc before (_ :: after), List.cons_append]
    exact (List.perm_append_singleton _ _).trans List.perm_middle.symm
  refine ⟨⟨h.paired.once, h.paired.made, h.paired.replies, h.paired.received⟩, h.ready, h.std,
    ?_, fun e he => h.sent e (hperm.mem_iff.mp he)⟩
  exact (((hperm.map Prod.fst).append_right _).nodup_iff).mpr h.fresh

/-- The handlers that are registered here throw nothing else. -/
theorem not_throwsForeign_registerHandler {handlers : Handlers} {ρ₁ ρ₂ : Type}
    {request : MsgPack ρ₁} {response : MsgPack ρ₂} {func : ρ₁ → Except Exn ρ₂}
    (hstd : ∀ req e, func req = .error e → e.isStd = true)
    (h : ∀ name payload, ¬ ThrowsForeign handlers name payload) (registered name : Str)
    (payload : Bytes) :
    ¬ ThrowsForeign (registerHandler request response registered func handlers) name payload := by
  rintro ⟨handler, hlookup, hthrows⟩
  by_cases hname : name = registered
  · subst hname
    rw [registerHandler, AList.lookup_insert] at hlookup
    obtain rfl := Option.some.inj hlookup
    cases hreq : request.decode payload with
    | error e =>
      have hdecode : e = .decodeException := request.eq_of_decode_error hreq
      simp [hreq, hdecode, bind, Except.bind] at hthrows
    | ok req =>
      cases hresp : func req with
      | error e =>
        have he := hstd req e hresp
        simp only [hreq, hresp, bind, Except.bind, Except.error.injEq] at hthrows
        rw [hthrows] at he
        cases he
      | ok resp =>
        simp only [hreq, hresp, bind, Except.bind] at hthrows
        cases response.eq_of_encode_error hthrows
  · rw [registerHandler, AList.lookup_insert_ne hname] at hlookup
    exact h name payload ⟨handler, hlookup, hthrows⟩

/-- A round answers the request that arrived first. -/
theorem Invariant.poll_next (h : s.Invariant) {peer : κ × Nat} {m : Multipart Bytes}
    {later : List ((κ × Nat) × Multipart Bytes)} (hnext : s.socket.incoming = (peer, m) :: later) :
    ∃ payload response, s.requestOf peer = some (m.first, payload) ∧
      handedOver s.socket = some (peer, m.first, payload) ∧
      handleRequest s.handlers (decodeServiceHeader m.first) payload = .ok response ∧
      (pollOnce s.handlers s.socket).state = ⟨.idle, later,
        s.socket.replies ++ [(peer, [response.code.text, response.payload])]⟩ := by
  have hsocket : s.socket = ⟨.idle, (peer, m) :: later, s.socket.replies⟩ := by
    rw [← h.ready, ← hnext]
  have hmem : (peer, m) ∈ s.pending := by
    rw [pending, hnext]
    exact List.mem_append_right _ (List.mem_cons_self ..)
  obtain ⟨payload, hrest, hrequest⟩ := h.sent (peer, m) hmem
  obtain ⟨response, hresponse⟩ := exists_response (h.std (decodeServiceHeader m.first) payload)
  refine ⟨payload, response, hrequest, ?_, hresponse, ?_⟩
  · rw [hsocket, handedOver_queued, handedOver_receiving, hrest]
    rfl
  · rw [hsocket, pollOnce_queued, hrest, pollOnce_pair, hresponse]

/-- The peer moves from the pending ones to the handled ones. -/
theorem Invariant.fresh_next (h : s.Invariant) {peer : κ × Nat} {m : Multipart Bytes}
    {later : List ((κ × Nat) × Multipart Bytes)} (hnext : s.socket.incoming = (peer, m) :: later)
    {e : Handled κ} (hpeer : e.peer = peer) :
    ((s.inFlight ++ later).map Prod.fst ++ (s.handled ++ [e]).map Handled.peer).Nodup := by
  refine (List.Perm.nodup_iff ?_).mpr h.fresh
  simp only [pending, hnext, hpeer, List.map_append, List.map_cons, List.map_nil,
    List.append_assoc, List.cons_append]
  rw [← List.append_assoc (later.map Prod.fst)]
  exact (List.perm_append_singleton _ _).append_left _

/-- A round hands over the request that came first, and the handlers of the moment answer it. -/
theorem Invariant.poll (h : s.Invariant) :
    Invariant { s with
      socket := (pollOnce s.handlers s.socket).state
      handled := s.handled ++ (handedOver s.socket).toList.map fun r =>
        ⟨r.1, r.2.1, r.2.2, s.handlers⟩ } := by
  cases hincoming : s.socket.incoming with
  | nil =>
    have hsocket : s.socket = ⟨.idle, [], s.socket.replies⟩ := by rw [← h.ready, ← hincoming]
    have hnone : handedOver s.socket = none := by rw [hsocket]; rfl
    have hquiet : (pollOnce s.handlers s.socket).state = s.socket := by rw [hsocket]; rfl
    simp only [hnone, hquiet, Option.toList_none, List.map_nil, List.append_nil]
    exact h
  | cons next later =>
    obtain ⟨peer, m⟩ := next
    obtain ⟨payload, response, hrequest, hhanded, hresponse, hsocket⟩ := h.poll_next hincoming
    simp only [hhanded, hsocket, Option.toList_some, List.map_cons, List.map_nil]
    have hfresh := h.fresh_next hincoming (e := ⟨peer, m.first, payload, s.handlers⟩) rfl
    have hsub : ∀ e ∈ s.inFlight ++ later, e ∈ s.pending := by
      intro e he
      rw [pending, hincoming]
      exact List.mem_append.mpr ((List.mem_append.mp he).imp_right (List.mem_cons_of_mem _))
    refine ⟨⟨(List.nodup_append.mp hfresh).2.1, ?_, ?_, ?_⟩, rfl, h.std, hfresh,
      fun e he => h.sent e (hsub e he)⟩
    · intro e he
      rcases List.mem_append.mp he with hold | hnew
      · exact h.paired.made e hold
      · rw [List.mem_singleton.mp hnew]
        exact hrequest
    · exact List.rel_append h.paired.replies (.cons ⟨rfl, response, hresponse, rfl⟩ .nil)
    · intro c n p hp
      obtain ⟨e, he, hrest⟩ := h.paired.received c n p hp
      exact ⟨e, List.mem_append_left _ he, hrest⟩

variable [DecidableEq κ]

/-- A call adds its request to those made before. -/
theorem requestOf_call (s : Rpc κ) (c : κ) (name payload : Bytes) (peer : κ × Nat) :
    let s' : Rpc κ := { s with
      clients := Function.update s.clients c
        { s.clients c with requests := (s.clients c).requests ++ [(name, payload)] } }
    (∀ request, s.requestOf peer = some request → s'.requestOf peer = some request) ∧
      (peer = (c, (s.clients c).requests.length) → s'.requestOf peer = some (name, payload)) := by
  obtain ⟨c', n⟩ := peer
  by_cases hc : c' = c
  · subst hc
    constructor
    · intro request hrequest
      have hlt := (List.getElem?_eq_some_iff.mp hrequest).1
      simpa [requestOf, List.getElem?_append_left hlt] using hrequest
    · rintro ⟨⟩
      simp [requestOf]
  · constructor
    · intro request hrequest
      simpa [requestOf, Function.update_of_ne hc] using hrequest
    · intro he
      exact absurd (congrArg Prod.fst he) hc

/-- A client that calls has no other call under way. -/
theorem Invariant.call (h : s.Invariant) (c : κ) (name payload : Bytes) :
    Invariant { s with
      clients := Function.update s.clients c
        { s.clients c with requests := (s.clients c).requests ++ [(name, payload)] }
      inFlight := s.inFlight ++ [((c, (s.clients c).requests.length), ⟨name, [payload]⟩)] } := by
  have hnone : s.requestOf (c, (s.clients c).requests.length) = none :=
    List.getElem?_eq_none le_rfl
  have hnew : ∀ p ∈ s.pending.map Prod.fst ++ s.handled.map Handled.peer,
      (c, (s.clients c).requests.length) ≠ p := by
    rintro p hp rfl
    have hsome := h.requestOf_isSome hp
    rw [hnone] at hsome
    cases hsome
  have hrequests := requestOf_call s c name payload
  have hpending : ∀ e : (κ × Nat) × Multipart Bytes,
      ((s.inFlight ++ [e]) ++ s.socket.incoming).Perm (e :: s.pending) := by
    intro e
    rw [List.append_assoc]
    exact List.perm_middle
  refine ⟨⟨h.paired.once, fun e he => ?_, h.paired.replies, fun c' n p hp => ?_⟩, h.ready, h.std,
    ?_, fun e he => ?_⟩
  · exact (hrequests _).1 _ (h.paired.made e he)
  · have hsame : ((Function.update s.clients c { s.clients c with
        requests := (s.clients c).requests ++ [(name, payload)] }) c').received =
          (s.clients c').received := by
      by_cases hc : c' = c
      · subst hc
        rw [Function.update_self]
      · rw [Function.update_of_ne hc]
    exact h.paired.received c' n p (hsame ▸ hp)
  · refine ((((hpending _).map Prod.fst).append_right _).nodup_iff).mpr ?_
    rw [List.map_cons, List.cons_append, List.nodup_cons]
    exact ⟨fun hmem => hnew _ hmem rfl, h.fresh⟩
  · rcases List.mem_cons.mp ((hpending _).mem_iff.mp he) with rfl | hold
    · exact ⟨payload, rfl, (hrequests _).2 rfl⟩
    · obtain ⟨p, hp, hrequest⟩ := h.sent e hold
      exact ⟨p, hp, (hrequests _).1 _ hrequest⟩

/-- A client has what it had, and at the end what it was given. -/
theorem received_deliver {clients : κ → RpcClient} {c c' : κ} {n : Nat} {given p : Bytes}
    (h : (Function.update clients c { clients c with
      received := (clients c).received ++ [given] } c').received[n]? = some p) :
    (clients c').received[n]? = some p ∨
      c' = c ∧ n = (clients c).received.length ∧ p = given := by
  by_cases hc : c' = c
  · subst hc
    rw [Function.update_self, List.getElem?_append] at h
    split_ifs at h with hn
    · exact Or.inl h
    · obtain ⟨hlast, hgiven⟩ := List.getElem?_eq_some_iff.mp h
      have hzero : n - (clients c').received.length = 0 := by simpa using hlast
      refine Or.inr ⟨rfl, by omega, ?_⟩
      simpa [hzero] using hgiven.symm
  · rw [Function.update_of_ne hc] at h
    exact Or.inl h

/-- What is delivered to a client is the reply to the call it waits for. -/
theorem Invariant.deliver (h : s.Invariant) {c : κ} {frames : List Bytes}
    (hreply : ((c, (s.clients c).received.length), frames) ∈ s.socket.replies) :
    Invariant { s with
      clients := Function.update s.clients c
        { s.clients c with received := (s.clients c).received ++ [receiveResponse frames] } } := by
  have hrequests : ∀ peer, requestOf { s with
      clients := Function.update s.clients c { s.clients c with
        received := (s.clients c).received ++ [receiveResponse frames] } } peer =
          s.requestOf peer := by
    rintro ⟨c', n⟩
    by_cases hc : c' = c
    · subst hc
      simp [requestOf]
    · simp [requestOf, Function.update_of_ne hc]
  refine ⟨⟨h.paired.once, fun e he => ?_, h.paired.replies, fun c' n p hp => ?_⟩, h.ready, h.std,
    h.fresh, fun e he => ?_⟩
  · rw [hrequests]
    exact h.paired.made e he
  · rcases received_deliver hp with hold | ⟨rfl, rfl, rfl⟩
    · exact h.paired.received c' n p hold
    · -- the reply belongs to the request of that call
      obtain ⟨e, he, hpeer, response, hyields, hframes⟩ :=
        forall₂_mem_right h.paired.replies hreply
      refine ⟨e, he, hpeer.symm, response, hyields, ?_⟩
      obtain rfl : frames = [response.code.text, response.payload] := hframes
      rfl
  · rw [hrequests]
    exact h.sent e he

/-- No step of any client or of the server breaks the pairing. -/
theorem invariant_step {s' : Rpc κ} (h : s.Invariant) (hstep : Step s s') : s'.Invariant := by
  cases hstep with
  | call c name payload hready => exact h.call c name payload
  | arrive before after peer m hsent => exact h.arrive hsent
  | poll => exact h.poll
  | registerHandler request response name func hstd =>
    exact h.of_handlers (not_throwsForeign_registerHandler hstd h.std name)
  | removeHandler name =>
    refine h.of_handlers ?_
    rintro called payload ⟨handler, hlookup, hthrows⟩
    by_cases hname : called = name
    · rw [hname, ZeroLanCom.removeHandler, AList.lookup_erase] at hlookup
      cases hlookup
    · rw [ZeroLanCom.removeHandler, AList.lookup_erase_ne hname] at hlookup
      exact h.std called payload ⟨handler, hlookup, hthrows⟩
  | clearHandlers =>
    refine h.of_handlers ?_
    rintro name payload ⟨handler, hlookup, _⟩
    cases hlookup
  | deliver c frames hwaits hreply => exact h.deliver hreply

/-- Any number of steps. -/
def Reach : Rpc κ → Rpc κ → Prop := Relation.ReflTransGen Step

/-- In every run each request is handled at most once, its reply is what `handleRequest` yields on
the handlers of that moment, and every payload that a client receives is the reply to its own
call. -/
theorem rpc_paired (hreach : Reach start s) : s.Paired :=
  (Runs.reachable_invariant (I := Invariant) (fun _ _ h hstep => invariant_step h hstep) hreach
    invariant_start).paired

end Steps

/-- Small numbers travel as themselves, and others behind a marker. -/
def byteCodec : MsgPack UInt8 where
  pack value := some (if value < 128 then [value] else [0xCC, value])
  unpack
    | [] => none
    | b :: rest => if b < 128 then some b else if b = 0xCC then rest.head? else none
  unpack_nil := rfl

/-- A service that gives back what it gets. -/
def echoHandlers : Handlers :=
  registerHandler byteCodec byteCodec (ascii "echo") (fun value => .ok value) ∅

/-- It has been registered, both clients have called it, and nothing has arrived. -/
def bothCalled : Rpc Bool where
  clients := Function.update
    (Function.update (fun _ => ⟨[], []⟩) true ⟨[(ascii "echo", [5])], []⟩)
    false ⟨[(ascii "echo", [6])], []⟩
  inFlight := [((true, 0), ⟨ascii "echo", [[5]]⟩), ((false, 0), ⟨ascii "echo", [[6]]⟩)]
  socket := .fresh
  handlers := echoHandlers
  handled := []

/-- The later call has overtaken the earlier one, and its client has the reply. -/
def oneAnswered : Rpc Bool where
  clients := Function.update bothCalled.clients false ⟨[(ascii "echo", [6])], [[6]]⟩
  inFlight := [((true, 0), ⟨ascii "echo", [[5]]⟩)]
  socket := ⟨.idle, [], [((false, 0), [ascii "SUCCESS", [6]])]⟩
  handlers := echoHandlers
  handled := [⟨(false, 0), ascii "echo", [6], echoHandlers⟩]

/-- Then the earlier one has been answered as well. -/
def bothAnswered : Rpc Bool where
  clients := Function.update oneAnswered.clients true ⟨[(ascii "echo", [5])], [[5]]⟩
  inFlight := []
  socket := ⟨.idle, [], [((false, 0), [ascii "SUCCESS", [6]]), ((true, 0), [ascii "SUCCESS", [5]])]⟩
  handlers := echoHandlers
  handled := [⟨(false, 0), ascii "echo", [6], echoHandlers⟩,
    ⟨(true, 0), ascii "echo", [5], echoHandlers⟩]

/-- Both clients call, and the request of the second arrives first. -/
theorem reach_oneAnswered : Reach start oneAnswered := by
  have hregistered : Reach (start : Rpc Bool) _ :=
    .single (.registerHandler start byteCodec byteCodec (ascii "echo") (fun value => .ok value)
      fun _ _ h => nomatch h)
  have hfirst := hregistered.tail (.call _ true (ascii "echo") [5] rfl)
  have hboth : Reach start bothCalled := hfirst.tail (.call _ false (ascii "echo") [6] rfl)
  have harrived := hboth.tail (.arrive bothCalled [((true, 0), ⟨ascii "echo", [[5]]⟩)] []
    (false, 0) ⟨ascii "echo", [[6]]⟩ rfl)
  have hpolled := harrived.tail (.poll _)
  exact hpolled.tail (.deliver _ false [ascii "SUCCESS", [6]] (by decide)
    (List.mem_singleton.mpr rfl))

/-- Then that of the first arrives and is answered too. -/
theorem reach_bothAnswered : Reach start bothAnswered := by
  have harrived := reach_oneAnswered.tail
    (.arrive oneAnswered [] [] (true, 0) ⟨ascii "echo", [[5]]⟩ rfl)
  have hpolled := harrived.tail (.poll _)
  exact hpolled.tail (.deliver _ true [ascii "SUCCESS", [5]] (by decide)
    (List.mem_cons_of_mem _ (List.mem_singleton.mpr rfl)))

/-- Each client has the echo of its own call. -/
theorem rpc_paired_two_clients : (bothAnswered.clients true).received = [[5]] ∧
    (bothAnswered.clients false).received = [[6]] ∧ bothAnswered.Paired :=
  ⟨rfl, rfl, rpc_paired reach_bothAnswered⟩

end Rpc

end ZeroLanCom
