import ZeroLanCom.System.KeepAlive

/-!
# Receive callbacks of a network

A node that receives a heartbeat sweeps right after it has processed it, and so
forgets whoever has been silent. In whatever clean state the nodes are at rest,
what a heartbeat has announced stays there through all receive callbacks to
come, as long as none of the sweeps comes too late for it.
-/

namespace ZeroLanCom

open NodeTable

variable {ν κ : Type}

/-- Nothing that the receive task does leaves an info whose node has not been heard, but for a
removal that throws. -/
theorem NodeTable.Tracked.step {r r' : Receiver} {l : ReceiveLabel} (h : r.table.Tracked)
    (hstep : ReceiveStep r l r') (hreturns : ∀ info, l ≠ .removing info false) :
    r'.table.Tracked := by
  cases hstep with
  | hear t heartbeat now => exact h.noteHeartbeat heartbeat.nodeId now
  | store t nodeID stored now => exact h.updateNodeUnlocked nodeID stored now
  | removeThrows t nodeID ids => exact absurd rfl (hreturns _)
  | erase t nodeID ids => exact h.removeNodes [nodeID]
  | _ => exact h

/-- A heartbeat that arrives, with a fetch that is answered or brings nothing, and the sweep that
its receiver makes after it. -/
structure Reception (ν : Type) extends Lan.Exchange ν where
  answered : Bool
  order : MapOrder
  sweepTime : Nat

/-- The call of `processHeartbeat`. -/
def Reception.heartbeat {ν κ : Type} (r : Reception ν) : LanOp ν κ :=
  if r.answered then .heartbeat r.toExchange else .unanswered r.toExchange

namespace Lan

variable [DecidableEq ν] {accepts : Str → Bool} {s s' : Lan ν κ} {config : ν → NodeConfig}

/-- Whatever its threads do, a node keeps its address and a table of nodes it has heard. -/
theorem tracked_step (hip : ∀ n, (s.nodeInfo n).ip = (config n).ip)
    (h : ∀ n, (s.nodes n).receiver.table.Tracked) (hstep : Step accepts Clean s s') :
    (∀ n, (s'.nodeInfo n).ip = (config n).ip) ∧ ∀ n, (s'.nodes n).receiver.table.Tracked := by
  have hset : ∀ {n : ν} {d : Discovery κ}, d.localNode.getLocalNodeInfo.ip = (config n).ip →
      d.receiver.table.Tracked → (∀ m, ((s.setNode n d).nodeInfo m).ip = (config m).ip) ∧
        ∀ m, ((s.setNode n d).nodes m).receiver.table.Tracked := fun hd ht =>
    ⟨forall_setNode (P := fun m d => d.localNode.getLocalNodeInfo.ip = (config m).ip) hd hip,
      forall_setNode (P := fun _ d => d.receiver.table.Tracked) ht h⟩
  cases hstep with
  | publisher n topicName withLocalNamespace port hfree => exact hset (hip n) (h n)
  | service n name port => exact hset (hip n) (h n)
  | publish k msg => exact ⟨hip, h⟩
  | node n hstep hlocal hclean =>
    refine hset (hlocal ▸ hip n) ?_
    obtain ⟨rfl, _⟩ := hclean
    rcases hstep.receiver with hsame | ⟨l, hr, hreturns⟩
    · rw [hsame]
      exact h n
    · exact (h n).step hr (hreturns rfl)
  | arrive n i k j hsub hp hconnected hnext hmsg => exact ⟨hip, h⟩
  | poll n hpoll => exact ⟨hip, h⟩

/-- So the calls to come find what they need, in whatever order the threads have come there. -/
theorem Settled.quiet (h : Settled accepts config s) : Quiet accepts config s := by
  obtain ⟨hip, htracked⟩ := Runs.reachable_invariant
    (I := fun s : Lan ν κ => (∀ n, (s.nodeInfo n).ip = (config n).ip) ∧
      ∀ n, (s.nodes n).receiver.table.Tracked)
    (fun _ _ h hstep => tracked_step h.1 h.2 hstep) h.reach
    ⟨fun _ => rfl, fun _ => NodeTable.tracked_empty⟩
  exact ⟨h, hip, htracked⟩

/-- The receive callback of `MulticastReceiver`, for a heartbeat of the group and subnet: nothing
for one of its own, and otherwise `processHeartbeat` and the sweep. -/
def receive (accepts : Str → Bool) (s : Lan ν κ) (r : Reception ν) : Lan ν κ :=
  if r.sender = r.receiver then s
  else (s.perform accepts r.heartbeat).perform accepts (.sweep r.receiver r.order r.sweepTime)

/-- The calls that it makes. -/
def receptionOps (r : Reception ν) : List (LanOp ν κ) :=
  if r.sender = r.receiver then []
  else [r.heartbeat, .sweep r.receiver r.order r.sweepTime]

/-- Receive callbacks one after another are their calls one after another. -/
theorem run_receive (s : Lan ν κ) (receptions : List (Reception ν)) :
    Runs.run (receive accepts) s receptions =
      Runs.run (perform accepts) s (receptions.flatMap receptionOps) := by
  induction receptions generalizing s with
  | nil => rfl
  | cons r receptions ih =>
    rw [Runs.run_cons, ih, List.flatMap_cons, Runs.run, Runs.run, List.foldl_append]
    congr 1
    rw [receive, receptionOps]
    split_ifs <;> rfl

/-- They change nothing about what nodes offer. -/
theorem nodeInfo_receive (s : Lan ν κ) (r : Reception ν) (m : ν) :
    (s.receive accepts r).nodeInfo m = s.nodeInfo m := by
  have hheard : (s.perform accepts r.heartbeat).nodeInfo m = s.nodeInfo m := by
    unfold Reception.heartbeat
    split_ifs
    · exact nodeInfo_exchange s r.toExchange m
    · rw [perform, unanswered]
      split_ifs
      · rfl
      · exact nodeInfo_setNode (by rfl) m
  unfold receive
  split_ifs
  · rfl
  · exact (nodeInfo_setNode (by rfl) m).trans hheard

/-- No callback changes what a node says about itself. -/
theorem nodeInfo_run_receive (s : Lan ν κ) (receptions : List (Reception ν)) (m : ν) :
    (Runs.run (receive accepts) s receptions).nodeInfo m = s.nodeInfo m :=
  Runs.run_of_step (I := fun s' : Lan ν κ => s'.nodeInfo m = s.nodeInfo m)
    (fun s' r h => (nodeInfo_receive s' r m).trans h) rfl receptions

/-- Before `infoID` wraps around all of these calls are allowed. -/
theorem allowed_receptions
    (hreg : ∀ m, (s.nodeInfo m).topics.length + (s.nodeInfo m).services.length < 2 ^ 32)
    (receptions : List (Reception ν)) :
    Runs.Each (perform accepts) (Allowed accepts) s (receptions.flatMap receptionOps) := by
  induction receptions generalizing s with
  | nil => trivial
  | cons r receptions ih =>
    have hrest := ih (s := s.receive accepts r) fun m => by
      rw [nodeInfo_receive]
      exact hreg m
    rw [List.flatMap_cons, receptionOps]
    rw [receive] at hrest
    split_ifs at hrest ⊢
    · exact hrest
    · refine ⟨?_, trivial, hrest⟩
      unfold Reception.heartbeat
      split_ifs
      · exact hreg r.sender
      · trivial

/-- What they mean to the abstract network. -/
theorem event_of_receptions {receptions : List (Reception ν)} {event : Members.Event ν Offers}
    (h : event ∈ (receptions.flatMap (receptionOps (κ := κ))).filterMap (LanOp.event config)) :
    ∃ r ∈ receptions, r.sender ≠ r.receiver ∧
      (event = .hear r.sender r.receiver r.noteTime
          (if r.answered then some r.storeTime else none) ∨
        event = .sweep r.receiver r.sweepTime) := by
  obtain ⟨op, hop, hevent⟩ := List.mem_filterMap.mp h
  obtain ⟨r, hr, hop⟩ := List.mem_flatMap.mp hop
  rw [receptionOps] at hop
  split_ifs at hop with hself
  · cases hop
  · refine ⟨r, hr, hself, ?_⟩
    rcases List.mem_cons.mp hop with rfl | hop
    · refine Or.inl ?_
      unfold Reception.heartbeat at hevent
      split_ifs at hevent ⊢ <;> exact (Option.some.inj hevent).symm
    · rw [List.mem_singleton.mp hop] at hevent
      exact Or.inr (Option.some.inj hevent).symm

/-- The first heartbeat is answered and in time for the sweeps of its receiver in all receive
callbacks from its own one on, and no clock goes back behind it. -/
structure InTime (r : Reception ν) (later : List (Reception ν)) : Prop where
  answered : r.answered = true
  clock : r.noteTime ≤ r.storeTime
  signs : ∀ r' ∈ later, r'.sender = r.sender → r'.receiver = r.receiver →
    r.noteTime ≤ r'.noteTime ∧ r.noteTime ≤ r'.storeTime
  sweeps : ∀ r' ∈ r :: later, r'.receiver = r.receiver → r'.sender ≠ r'.receiver →
    isExpired r'.sweepTime r.noteTime = false

/-- Its receiver knows what its sender has offered, at the end of them all. -/
theorem Settled.while_in_time (hids : Function.Injective fun n => (config n).localNode.nodeID)
    (h : Settled accepts config s)
    (hreg : ∀ m, (s.nodeInfo m).topics.length + (s.nodeInfo m).services.length < 2 ^ 32)
    {r : Reception ν} {later : List (Reception ν)} (hne : r.sender ≠ r.receiver)
    (htime : InTime r later) :
    let s' := Runs.run (receive accepts) s (r :: later)
    (∀ sub ∈ (s'.nodes r.receiver).subs, ∀ p ∈ s.sockets, p.owner = r.sender →
        p.advert.name = sub.topicName → p.advert.url ∈ sub.socket.endpoints) ∧
      ∀ order, ∀ service ∈ (s.nodeInfo r.sender).services,
        ∃ found, s'.getServiceInfo r.receiver order service.name = some found := by
  have hops : Runs.Each (perform accepts) (Allowed accepts) s _ :=
    allowed_receptions hreg (r :: later)
  rw [run_receive, List.flatMap_cons]
  rw [List.flatMap_cons] at hops
  have hfirst : receptionOps (κ := κ) r =
      [.heartbeat r.toExchange, .sweep r.receiver r.order r.sweepTime] := by
    rw [receptionOps, if_neg hne, Reception.heartbeat, if_pos htime.answered]
  rw [hfirst] at hops ⊢
  refine h.quiet.while_alive hids hops hne htime.clock ?_ ?_
  · intro event hevent
    rcases List.mem_cons.mp hevent with rfl | hlater
    · trivial
    · obtain ⟨r', hr', _, rfl | rfl⟩ := event_of_receptions hlater
      · intro hsender hreceiver
        obtain ⟨hnote, hstore⟩ := htime.signs r' hr' hsender hreceiver
        refine ⟨hnote, fun time ht => ?_⟩
        rw [Option.mem_def] at ht
        split_ifs at ht
        exact Option.some.inj ht ▸ hstore
      · trivial
  · intro event hevent
    rcases List.mem_cons.mp hevent with rfl | hlater
    · exact fun hreceiver => htime.sweeps r (List.mem_cons_self ..) hreceiver hne
    · obtain ⟨r', hr', hother, rfl | rfl⟩ := event_of_receptions hlater
      · trivial
      · exact fun hreceiver => htime.sweeps r' (List.mem_cons_of_mem r hr') hreceiver hother

/-- From whatever state a clean run has come to rest in: once a heartbeat of a node has been
received by another, all subscribers of that are connected to all PUB sockets of the node under
their topics, whichever heartbeats are received by whom after it, as long as it is in time for every
sweep of its receiver meanwhile. -/
theorem connected_after_receptions
    (hids : Function.Injective fun n => (config n).localNode.nodeID)
    (h : Settled accepts config s)
    (hreg : ∀ m, (s.nodeInfo m).topics.length + (s.nodeInfo m).services.length < 2 ^ 32)
    {r : Reception ν} {later : List (Reception ν)} (hne : r.sender ≠ r.receiver)
    (htime : InTime r later) {sub : Subscriber κ}
    (hsub : sub ∈ ((Runs.run (receive accepts) s (r :: later)).nodes r.receiver).subs)
    {p : PubSocket ν} (hp : p ∈ s.sockets) (howner : p.owner = r.sender)
    (hname : p.advert.name = sub.topicName) : p.advert.url ∈ sub.socket.endpoints :=
  (h.while_in_time hids hreg hne htime).1 sub hsub p hp howner hname

/-- The heartbeat of one node of a pair, a later one that is not answered, and one of the receiver's
own that comes back. -/
def exampleReception : Reception Bool := ⟨⟨true, false, 0, 1⟩, true, .stored, 2⟩

/-- The two that come after it. -/
def laterReceptions : List (Reception Bool) :=
  [⟨⟨true, false, 3, 4⟩, false, .stored, 5⟩, ⟨⟨false, false, 6, 6⟩, true, .stored, 4000000000⟩]

/-- The last of them comes too late for it, but does not sweep. -/
theorem inTime_exampleReception : InTime exampleReception laterReceptions where
  answered := rfl
  clock := by decide
  signs := by decide
  sweeps := by decide

/-- The subscriber has the connection at the end. -/
theorem connected_after_receptions_pair :
    ∃ sub ∈ ((Runs.run (receive fun _ => true) examplePair
        (exampleReception :: laterReceptions)).nodes false).subs,
      tcpUrl (ascii "10.0.0.1") 5555 ∈ sub.socket.endpoints := by
  refine ⟨exampleSubscriber, List.mem_singleton.mpr rfl, ?_⟩
  exact connected_after_receptions pairConfig_ids settled_examplePair (by decide) Bool.noConfusion
    inTime_exampleReception (List.mem_singleton.mpr rfl)
    (p := ⟨true, ⟨ascii "chat", ascii "10.0.0.1", 5555⟩, []⟩) (List.mem_singleton_self _) rfl rfl

/-- A lookup then finds a service of a name if the sender has registered one, or the receiver
itself. Whatever any node finds has been registered by some node, under that name. -/
theorem services_found_after_receptions
    (hids : Function.Injective fun n => (config n).localNode.nodeID)
    (h : Settled accepts config s)
    (hreg : ∀ m, (s.nodeInfo m).topics.length + (s.nodeInfo m).services.length < 2 ^ 32)
    {r : Reception ν} {later : List (Reception ν)} (hne : r.sender ≠ r.receiver)
    (htime : InTime r later) (order : MapOrder) (serviceName : Str) :
    let s' := Runs.run (receive accepts) s (r :: later)
    (∀ m, m = r.receiver ∨ m = r.sender → ∀ service ∈ (s.nodeInfo m).services,
        service.name = serviceName →
          ∃ found, s'.getServiceInfo r.receiver order serviceName = some found) ∧
      ∀ n found, s'.getServiceInfo n order serviceName = some found →
        found.name = serviceName ∧ ∃ m, found ∈ (s.nodeInfo m).services := by
  intro s'
  have hsame : ∀ m, s'.nodeInfo m = s.nodeInfo m := nodeInfo_run_receive s (r :: later)
  refine ⟨?_, fun n found hfound => ?_⟩
  · rintro m (rfl | rfl) service hservice rfl
    · rw [← hsame] at hservice
      exact NodeTable.exists_getServiceInfo order (Or.inr hservice)
    · exact (h.while_in_time hids hreg hne htime).2 order service hservice
  · obtain ⟨hend, _⟩ := h.quiet.run hids (allowed_receptions hreg (r :: later))
    rw [← run_receive] at hend
    obtain ⟨hname, m, hm⟩ :=
      (wiring_reachable hids hend.settled.reach).directory.registered hfound
    exact ⟨hname, m, hsame m ▸ hm⟩

/-- One of two nodes has registered a service. -/
def echoPair : Lan Bool Unit :=
  (start pairConfig).setLocal true
    ((pairConfig true).localNode.registerLocalService (ascii "echo") 6000)

/-- The network with the service, before anybody has heard of it. -/
theorem settled_echoPair : Settled (fun _ => true) pairConfig echoPair where
  reach := .single (.service (start pairConfig) true (ascii "echo") 6000)
  rest n := by cases n <;> rfl
  accepted _ _ := rfl

/-- The service is found at the end. -/
theorem services_found_after_receptions_echo :
    ∃ found, (Runs.run (receive fun _ => true) echoPair
      (exampleReception :: laterReceptions)).getServiceInfo false .stored (ascii "echo") =
        some found :=
  (services_found_after_receptions pairConfig_ids settled_echoPair (by decide) Bool.noConfusion
    inTime_exampleReception .stored (ascii "echo")).1 true (Or.inr rfl)
    ⟨ascii "echo", ascii "10.0.0.1", 6000⟩ (List.mem_singleton_self _) rfl

end Lan

end ZeroLanCom
