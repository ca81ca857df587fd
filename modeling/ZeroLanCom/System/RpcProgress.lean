import ZeroLanCom.System.Rpc

/-!
# Every call comes back

A call of a client is on its way to the service manager, waits there, or has its
reply on the way back. The network and the poll task bring it further, whichever
of the calls they take first, until nobody waits any more.
-/

namespace ZeroLanCom

open ZeroMq

namespace Rpc

variable {κ : Type*} {s s' : Rpc κ}

/-- The client is in a call. -/
def Waits (s : Rpc κ) (c : κ) : Prop :=
  (s.clients c).received.length < (s.clients c).requests.length

/-- A client makes one call at a time, and the one it is in is known somewhere. -/
structure Accounted (s : Rpc κ) : Prop where
  invariant : s.Invariant
  single : ∀ c, (s.clients c).received.length ≤ (s.clients c).requests.length ∧
    (s.clients c).requests.length ≤ (s.clients c).received.length + 1
  known : ∀ c, s.Waits c → (c, (s.clients c).received.length) ∈
    s.pending.map Prod.fst ++ s.handled.map Handled.peer

/-- There is nothing to account for. -/
theorem accounted_start : (start : Rpc κ).Accounted :=
  ⟨invariant_start, fun _ => ⟨le_rfl, Nat.zero_le _⟩, fun _ h => absurd h (Nat.lt_irrefl 0)⟩

/-- The requests that are known somewhere stay known. -/
theorem Accounted.of_known (h : s.Accounted) (hinv : s'.Invariant)
    (hclients : s'.clients = s.clients)
    (hknown : ∀ peer, peer ∈ s.pending.map Prod.fst ++ s.handled.map Handled.peer →
      peer ∈ s'.pending.map Prod.fst ++ s'.handled.map Handled.peer) : s'.Accounted := by
  refine ⟨hinv, fun c => ?_, fun c hc => ?_⟩
  · rw [hclients]
    exact h.single c
  · rw [Waits, hclients] at hc
    rw [hclients]
    exact hknown _ (h.known c hc)

section Steps

variable [DecidableEq κ]

/-- The steps that bring a call further. A round of the poll task counts if a request waits. -/
inductive Work : Rpc κ → Rpc κ → Prop
  | arrive (s : Rpc κ) (before after : List ((κ × Nat) × Multipart Bytes)) (peer : κ × Nat)
    (m : Multipart Bytes) (hsent : s.inFlight = before ++ (peer, m) :: after) :
    Work s { s with inFlight := before ++ after, socket := s.socket.arrive peer m }
  | poll (s : Rpc κ) (hwaiting : s.socket.incoming ≠ []) :
    Work s { s with
      socket := (pollOnce s.handlers s.socket).state
      handled := s.handled ++ (handedOver s.socket).toList.map fun r =>
        ⟨r.1, r.2.1, r.2.2, s.handlers⟩ }
  | deliver (s : Rpc κ) (c : κ) (frames : List Bytes) (hwaits : s.Waits c)
    (hreply : ((c, (s.clients c).received.length), frames) ∈ s.socket.replies) :
    Work s { s with
      clients := Function.update s.clients c
        { s.clients c with received := (s.clients c).received ++ [receiveResponse frames] } }

/-- The work of the network and the server consists of steps. -/
theorem Work.step (h : Work s s') : Step s s' := by
  cases h with
  | arrive before after peer m hsent => exact .arrive s before after peer m hsent
  | poll hwaiting => exact .poll s
  | deliver c frames hwaits hreply => exact .deliver s c frames hwaits hreply

/-- No step loses track of a call. -/
theorem accounted_step (h : s.Accounted) (hstep : Step s s') : s'.Accounted := by
  have hinv := invariant_step h.invariant hstep
  cases hstep with
  | registerHandler request response name func hstd => exact h.of_known hinv rfl fun _ hp => hp
  | removeHandler name => exact h.of_known hinv rfl fun _ hp => hp
  | clearHandlers => exact h.of_known hinv rfl fun _ hp => hp
  | arrive before after peer m hsent =>
    refine h.of_known hinv rfl fun p hp => ?_
    simp only [pending, hsent, RepSocket.arrive, List.map_append, List.map_cons, List.mem_append,
      List.mem_cons, List.map_nil, List.not_mem_nil, or_false] at hp ⊢
    tauto
  | poll =>
    refine h.of_known hinv rfl fun p hp => ?_
    cases hincoming : s.socket.incoming with
    | nil =>
      simp only [pending, hincoming, List.append_nil, List.map_append, List.mem_append] at hp ⊢
      exact hp.imp Or.inl Or.inl
    | cons next later =>
      obtain ⟨peer, m⟩ := next
      obtain ⟨payload, response, _, hhanded, _, hsocket⟩ := h.invariant.poll_next hincoming
      simp only [pending, hincoming, hhanded, hsocket, Option.toList_some, List.map_append,
        List.map_cons, List.map_nil, List.mem_append, List.mem_cons, List.not_mem_nil,
        or_false] at hp ⊢
      tauto
  | call c name payload hready =>
    refine ⟨hinv, fun c' => ?_, fun c' hc' => ?_⟩
    · by_cases hc : c' = c
      · subst hc
        simp only [Function.update_self, List.length_append, List.length_singleton]
        omega
      · simp only [Function.update_of_ne hc]
        exact h.single c'
    · simp only [pending, List.map_append, List.map_cons, List.map_nil, List.mem_append,
        List.mem_singleton]
      by_cases hc : c' = c
      · subst hc
        simp only [Function.update_self]
        rw [hready]
        tauto
      · simp only [Waits, Function.update_of_ne hc] at hc' ⊢
        have hold := h.known c' hc'
        simp only [pending, List.map_append, List.mem_append] at hold
        tauto
  | deliver c frames hwaits hreply =>
    refine ⟨hinv, fun c' => ?_, fun c' hc' => ?_⟩
    · by_cases hc : c' = c
      · subst hc
        have hsingle := h.single c'
        simp only [Function.update_self, List.length_append, List.length_singleton]
        omega
      · simp only [Function.update_of_ne hc]
        exact h.single c'
    · by_cases hc : c' = c
      · subst hc
        have hsingle := h.single c'
        simp only [Waits, Function.update_self, List.length_append, List.length_singleton] at hc'
        omega
      · simp only [Waits, Function.update_of_ne hc] at hc' ⊢
        exact h.known c' hc'

end Steps

/-- The call that was handled has not returned. -/
def Undelivered (clients : κ → RpcClient) (h : Handled κ) : Bool :=
  (clients h.peer.1).received.length ≤ h.peer.2

/-- The steps it takes to bring every call back: a request travels, is handled and is answered. -/
def workLeft (s : Rpc κ) : Nat :=
  3 * s.inFlight.length + 2 * s.socket.incoming.length + s.handled.countP (Undelivered s.clients)

/-- A count goes down when one more element drops out. -/
theorem countP_lt_of_mem {α : Type*} {p q : α → Bool} {l : List α} (h : ∀ a ∈ l, p a → q a)
    {a : α} (ha : a ∈ l) (hq : q a) (hp : ¬ p a) : l.countP p < l.countP q := by
  obtain ⟨before, after, rfl⟩ := List.append_of_mem ha
  have hbefore : before.countP p ≤ before.countP q :=
    List.countP_mono_left fun b hb => h b (List.mem_append_left _ hb)
  have hafter : after.countP p ≤ after.countP q :=
    List.countP_mono_left fun b hb => h b (List.mem_append_right _ (List.mem_cons_of_mem _ hb))
  rw [List.countP_append, List.countP_append, List.countP_cons_of_neg hp,
    List.countP_cons_of_pos hq]
  omega

/-- The reply that is delivered belongs to a call that has been handled. -/
theorem Accounted.exists_handled (h : s.Accounted) {peer : κ × Nat} {frames : List Bytes}
    (hreply : (peer, frames) ∈ s.socket.replies) : ∃ e ∈ s.handled, e.peer = peer := by
  obtain ⟨e, he, hanswers⟩ := Throwing.forall₂_mem_right h.invariant.paired.replies hreply
  exact ⟨e, he, hanswers.peer.symm⟩

variable [DecidableEq κ]

/-- A call that returns is delivered, and no other one is. -/
theorem undelivered_deliver (clients : κ → RpcClient) (c : κ) (given : Bytes) (e : Handled κ) :
    Undelivered (Function.update clients c
        ⟨(clients c).requests, (clients c).received ++ [given]⟩) e =
      (Undelivered clients e && decide (e.peer ≠ (c, (clients c).received.length))) := by
  obtain ⟨⟨c', n⟩, name, payload, handlers⟩ := e
  by_cases hc : c' = c
  · subst hc
    simp only [Undelivered, Function.update_self, List.length_append, List.length_singleton,
      ne_eq, Prod.mk.injEq, true_and, ← Bool.decide_and, decide_eq_decide]
    omega
  · simp [Undelivered, hc]

/-- Every step of the work leaves less of it. -/
theorem workLeft_lt (h : s.Accounted) (hwork : Work s s') : s'.workLeft < s.workLeft := by
  cases hwork with
  | arrive before after peer m hsent =>
    simp only [workLeft, hsent, RepSocket.arrive, List.length_append, List.length_cons,
      List.length_nil]
    omega
  | poll hwaiting =>
    cases hincoming : s.socket.incoming with
    | nil => exact absurd hincoming hwaiting
    | cons next later =>
      obtain ⟨peer, m⟩ := next
      obtain ⟨payload, response, _, hhanded, _, hsocket⟩ := h.invariant.poll_next hincoming
      simp only [workLeft, hincoming, hhanded, hsocket, Option.toList_some, List.map_cons,
        List.map_nil, List.countP_append, List.length_cons]
      have hone : List.countP (Undelivered s.clients) [⟨peer, m.first, payload, s.handlers⟩] ≤ 1 :=
        List.countP_le_length
      omega
  | deliver c frames hwaits hreply =>
    obtain ⟨e, he, hpeer⟩ := h.exists_handled hreply
    have hfewer : s.handled.countP (Undelivered (Function.update s.clients c
        ⟨(s.clients c).requests, (s.clients c).received ++ [receiveResponse frames]⟩)) <
          s.handled.countP (Undelivered s.clients) := by
      refine countP_lt_of_mem (fun a _ ha => ?_) he ?_ ?_
      · rw [undelivered_deliver, Bool.and_eq_true] at ha
        exact ha.1
      · simp [Undelivered, hpeer]
      · simp [undelivered_deliver, hpeer]
    simp only [workLeft]
    omega

/-- As long as somebody waits, something can be done. -/
theorem exists_work (h : s.Accounted) {c : κ} (hwaits : s.Waits c) : ∃ s', Work s s' := by
  have hknown := h.known c hwaits
  rw [pending, List.map_append, List.append_assoc, List.mem_append, List.mem_append] at hknown
  rcases hknown with hsent | harrived | hhandled
  · obtain ⟨⟨peer, m⟩, he, _⟩ := List.mem_map.mp hsent
    obtain ⟨before, after, hsplit⟩ := List.append_of_mem he
    exact ⟨_, .arrive s before after peer m hsplit⟩
  · exact ⟨_, .poll s fun hnil => by simp [hnil] at harrived⟩
  · obtain ⟨e, he, hpeer⟩ := List.mem_map.mp hhandled
    obtain ⟨⟨peer, frames⟩, hreply, hanswers⟩ :=
      Throwing.forall₂_mem_left h.invariant.paired.replies he
    obtain rfl : peer = e.peer := hanswers.peer
    rw [hpeer] at hreply
    exact ⟨_, .deliver s c frames hwaits hreply⟩

/-- From every reachable state the calls under way come back, whatever the network and the poll task
take up first: only so many steps are possible before new calls are made, and when there are none
left nobody waits any more. -/
theorem every_call_returns (hreach : Reach start s) :
    (∀ (f : Nat → Rpc κ) (n : Nat), f 0 = s → (∀ i < n, Work (f i) (f (i + 1))) →
      n ≤ s.workLeft) ∧
      ∀ s', Relation.ReflTransGen Work s s' → (∀ s'', ¬ Work s' s'') → ∀ c, ¬ s'.Waits c := by
  have hstart : s.Accounted := Runs.reachable_invariant (I := Accounted)
    (fun _ _ => accounted_step) hreach accounted_start
  have hwork : ∀ s s' : Rpc κ, s.Accounted → Work s s' → s'.Accounted :=
    fun _ _ h hw => accounted_step h hw.step
  refine ⟨fun f n h0 hf => ?_, fun s' hrun hstuck c hwaits => ?_⟩
  · subst h0
    have hle := (Runs.add_le_measure (I := Accounted) workLeft
      (fun s s' h hw => ⟨hwork s s' h hw, workLeft_lt h hw⟩) hf hstart).2
    omega
  · have hend := Runs.reachable_invariant (I := Accounted) hwork hrun hstart
    obtain ⟨s'', hw⟩ := exists_work hend hwaits
    exact hstuck s'' hw

/-- One of the two clients has its reply, and the other one is three steps from its own. -/
theorem every_call_returns_two_clients : oneAnswered.workLeft = 3 ∧
    ∀ s', Relation.ReflTransGen Work oneAnswered s' → (∀ s'', ¬ Work s' s'') →
      ∀ c, ¬ s'.Waits c :=
  ⟨rfl, (every_call_returns reach_oneAnswered).2⟩

end Rpc

end ZeroLanCom
