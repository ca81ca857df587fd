import ZeroLanCom.System.Membership

/-!
# Members that stay and members that leave

A node whose heartbeats arrive in time stays connected through all the calls that
are made meanwhile, and one that falls silent is forgotten at the next sweep that
comes late enough. Both are properties of runs of abstract members, and hold of
the network of nodes as it does what they do.
-/

namespace ZeroLanCom

open NodeTable

variable {ν κ ω : Type}

namespace Members

/-- The signs of life of the one member at the other that the event brings have the property. -/
def Event.Signs (m n : ν) (P : Nat → Prop) : Event ν ω → Prop
  | .hear sender receiver noteTime answerTime =>
    sender = m → receiver = n → P noteTime ∧ ∀ time ∈ answerTime, P time
  | _ => True

/-- The time at which the member sweeps, if it does, has the property. -/
def Event.Sweeps (n : ν) (P : Nat → Prop) : Event ν ω → Prop
  | .sweep n' now => n' = n → P now
  | _ => True

instance [DecidableEq ν] (m n : ν) (P : Nat → Prop) [DecidablePred P] :
    DecidablePred (Event.Signs (ω := ω) m n P)
  | .offer _ _ => isTrue trivial
  | .hear sender receiver noteTime answerTime =>
    inferInstanceAs (Decidable (sender = m → receiver = n → P noteTime ∧ ∀ t ∈ answerTime, P t))
  | .sweep _ _ => isTrue trivial

/-- Who offers more keeps what it offers. -/
def Event.Keeps (m : ν) (Q : ω → Prop) : Event ν ω → Prop
  | .offer n more => n = m → ∀ offers, Q offers → Q (more offers)
  | _ => True

variable [DecidableEq ν] [DecidableEq ω] {s : Members ν ω} {n m : ν}

/-- The time of a sign of life is that of the note or that of the answer. -/
theorem heard_time {P : Nat → Prop} {noteTime : Nat} {answerTime : Option Nat}
    (hnote : P noteTime) (hanswer : ∀ time ∈ answerTime, P time) (offers : ω)
    (known : Option (Nat × Option ω)) : P (heard offers noteTime answerTime known).1 := by
  cases answerTime with
  | none => exact hnote
  | some time =>
    unfold heard
    split_ifs
    · exact hnote
    · exact hanswer time rfl

/-- The offers told are the present ones, or those told before. -/
theorem heard_offers (offers : ω) (noteTime : Nat) (answerTime : Option Nat)
    (known : Option (Nat × Option ω)) :
    (heard offers noteTime answerTime known).2 = some offers ∨
      (heard offers noteTime answerTime known).2 = told known := by
  cases answerTime with
  | none => exact Or.inr rfl
  | some time =>
    unfold heard
    split_ifs
    · exact Or.inr rfl
    · exact Or.inl rfl

/-- An answer tells the present offers. -/
theorem heard_answered (offers : ω) (noteTime time : Nat) (known : Option (Nat × Option ω)) :
    (heard offers noteTime (some time) known).2 = some offers := by
  unfold heard
  split_ifs with hsame
  · exact hsame
  · rfl

/-- What a node knows of another changes by its heartbeats and by sweeps alone. -/
theorem known_step (s : Members ν ω) (event : Event ν ω) (n m : ν) :
    (s.step event).known n m = s.known n m ∨
      (∃ noteTime answerTime, event = .hear m n noteTime answerTime ∧
        (s.step event).known n m =
          some (heard (s.own m) noteTime answerTime (s.known n m))) ∨
      ∃ now, event = .sweep n now ∧ (s.step event).known n m = remembered now (s.known n m) := by
  cases event with
  | offer n' more => exact Or.inl rfl
  | hear sender receiver noteTime answerTime =>
    rw [step]
    split_ifs with hself
    · exact Or.inl rfl
    · by_cases hn : receiver = n
      · subst hn
        by_cases hm : sender = m
        · subst hm
          refine Or.inr (Or.inl ⟨noteTime, answerTime, rfl, ?_⟩)
          simp only [Function.update_self]
        · left
          simp only [Function.update_self, Function.update_of_ne (Ne.symm hm)]
      · left
        simp only [Function.update_of_ne (Ne.symm hn)]
  | sweep n' now =>
    by_cases hn : n' = n
    · subst hn
      refine Or.inr (Or.inr ⟨now, rfl, ?_⟩)
      simp only [step, Function.update_self]
    · left
      simp only [step, Function.update_of_ne (Ne.symm hn)]

/-- What a node has keeps a property that no offer takes away. -/
theorem own_step {Q : ω → Prop} (h : Q (s.own m)) {event : Event ν ω} (hkeeps : event.Keeps m Q) :
    Q ((s.step event).own m) := by
  cases event with
  | offer n more =>
    by_cases hm : m = n
    · subst hm
      simp only [step, Function.update_self]
      exact hkeeps rfl _ h
    · simp only [step, Function.update_of_ne hm]
      exact h
  | hear sender receiver noteTime answerTime =>
    rw [step]
    split_ifs
    · exact h
    · exact h
  | sweep n now => exact h

/-- The one member offers something, and the other has been told so and has seen a sign of life at
the time or later. -/
structure Informed (s : Members ν ω) (n m : ν) (time : Nat) (Q : ω → Prop) : Prop where
  own : Q (s.own m)
  known : ∃ last offers, s.known n m = some (last, some offers) ∧ time ≤ last ∧ Q offers

/-- Offers that keep the property, signs of life that come no earlier and sweeps within the window
leave a node informed. -/
theorem Informed.step {time : Nat} {Q : ω → Prop} (h : s.Informed n m time Q) {event : Event ν ω}
    (hkeeps : event.Keeps m Q) (hsigns : event.Signs m n (time ≤ ·))
    (hsweeps : event.Sweeps n fun now => isExpired now time = false) :
    (s.step event).Informed n m time Q := by
  refine ⟨own_step h.own hkeeps, ?_⟩
  obtain ⟨last, offers, hknown, hlast, hoffers⟩ := h.known
  rcases known_step s event n m with hsame | ⟨noteTime, answerTime, rfl, hheard⟩ |
    ⟨now, rfl, hswept⟩
  · exact ⟨last, offers, hsame.trans hknown, hlast, hoffers⟩
  · obtain ⟨hnote, hanswer⟩ := hsigns rfl rfl
    have htime := heard_time hnote hanswer (s.own m) (s.known n m)
    rcases heard_offers (s.own m) noteTime answerTime (s.known n m) with hnew | hold
    · exact ⟨_, s.own m, hheard.trans (congrArg some (Prod.ext rfl hnew)), htime, h.own⟩
    · rw [hknown] at hold
      rw [hknown] at htime hheard
      exact ⟨_, offers, hheard.trans (congrArg some (Prod.ext rfl hold)), htime, hoffers⟩
  · have hfresh : isExpired now last = false := by
      have hexpired := hsweeps rfl
      simp only [isExpired, decide_eq_false_iff_not] at hexpired ⊢
      omega
    refine ⟨last, offers, hswept.trans ?_, hlast, hoffers⟩
    rw [hknown]
    simp [remembered, Option.filter, hfresh]

/-- So does any number of such events. -/
theorem informed_run {time : Nat} {Q : ω → Prop} (h : s.Informed n m time Q)
    {events : List (Event ν ω)} (hkeeps : ∀ event ∈ events, event.Keeps m Q)
    (hsigns : ∀ event ∈ events, event.Signs m n (time ≤ ·))
    (hsweeps : ∀ event ∈ events, event.Sweeps n fun now => isExpired now time = false) :
    (Runs.run step s events).Informed n m time Q :=
  Runs.run_of_mem (I := fun s : Members ν ω => s.Informed n m time Q)
    (fun _ event hevent hs =>
      hs.step (hkeeps event hevent) (hsigns event hevent) (hsweeps event hevent)) h

/-- What holds of all signs of life that events bring holds of the last one known. -/
theorem last_sign_step {P : Nat → Prop} (h : ∀ k, s.known n m = some k → P k.1)
    {event : Event ν ω} (hsigns : event.Signs m n P) :
    ∀ k, (s.step event).known n m = some k → P k.1 := by
  rcases known_step s event n m with hsame | ⟨noteTime, answerTime, rfl, hheard⟩ |
    ⟨now, rfl, hswept⟩
  · rw [hsame]
    exact h
  · obtain ⟨hnote, hanswer⟩ := hsigns rfl rfl
    intro k hk
    rw [hheard, Option.some.injEq] at hk
    exact hk ▸ heard_time hnote hanswer (s.own m) (s.known n m)
  · intro k hk
    rw [hswept, remembered, Option.filter_eq_some_iff] at hk
    exact h k hk.1

/-- What holds of the times of all signs of life holds of the times that are known. -/
theorem last_sign_run {P : Nat → Prop} (h : ∀ k, s.known n m = some k → P k.1)
    {events : List (Event ν ω)} (hsigns : ∀ event ∈ events, event.Signs m n P) :
    ∀ k, (Runs.run step s events).known n m = some k → P k.1 :=
  Runs.run_of_mem (I := fun s : Members ν ω => ∀ k, s.known n m = some k → P k.1)
    (fun _ event hevent hs => last_sign_step hs (hsigns event hevent)) h

/-- A sweep forgets whoever has shown no sign of life in time. -/
theorem known_sweep {now : Nat} (h : ∀ k, s.known n m = some k → isExpired now k.1 = true) :
    (s.step (.sweep n now)).known n m = none := by
  simp only [step, Function.update_self, remembered]
  rw [Option.filter_eq_none_iff]
  intro k hk
  simp [h k hk]

/-- Nothing is known of a silent member after a sweep, until it is heard again. -/
theorem unknown_when_silent (own : ν → ω) {earlier later : List (Event ν ω)} {now : Nat}
    (hstale : ∀ event ∈ earlier, event.Signs m n fun time => isExpired now time = true)
    (hsilent : ∀ event ∈ later, event.Signs m n fun _ => False) :
    (Runs.run step (Runs.run step (start own) earlier) (.sweep n now :: later)).known n m =
      none := by
  have hexpired := last_sign_run (s := start own) (fun _ hk => by cases hk) hstale
  have hswept := known_sweep hexpired
  have hend := last_sign_run (fun k hk => by cases hswept.symm.trans hk) hsilent
  exact Option.eq_none_iff_forall_ne_some.mpr hend

end Members

/-- All the offers are among the later ones. -/
def Offers.Among (offers later : Offers) : Prop := offers.1 ⊆ later.1 ∧ offers.2 ⊆ later.2

/-- Nodes withdraw nothing. -/
theorem LanOp.keeps {config : ν → NodeConfig} {op : LanOp ν κ} {event : Members.Event ν Offers}
    (h : op.event config = some event) (m : ν) (offers : Offers) :
    event.Keeps m (Offers.Among offers) := by
  cases op with
  | publisher n topicName withLocalNamespace port =>
    cases h
    intro _ later hlater
    exact ⟨List.subset_append_of_subset_left _ hlater.1, hlater.2⟩
  | service n name port =>
    cases h
    intro _ later hlater
    exact ⟨hlater.1, List.subset_append_of_subset_left _ hlater.2⟩
  | subscribe n topicName callback order => cases h
  | heartbeat e =>
    cases h
    trivial
  | unanswered e =>
    cases h
    trivial
  | sweep n order now =>
    cases h
    trivial

namespace Lan

variable [DecidableEq ν] {accepts : Str → Bool} {s : Lan ν κ} {config : ν → NodeConfig}

/-- After an answered heartbeat, as long as no sweep of the receiver comes too late for it, all that
its sender offered then is told. -/
theorem Quiet.told_while_alive (hids : Function.Injective fun n => (config n).localNode.nodeID)
    (h : Quiet accepts config s) {e : Exchange ν} {later : List (LanOp ν κ)}
    (hops : Runs.Each (Lan.perform accepts) (Allowed accepts) s (.heartbeat e :: later))
    (hne : e.sender ≠ e.receiver) (hclock : e.noteTime ≤ e.storeTime)
    (hsigns : ∀ event ∈ later.filterMap (LanOp.event config),
      event.Signs e.sender e.receiver (e.noteTime ≤ ·))
    (hsweeps : ∀ event ∈ later.filterMap (LanOp.event config),
      event.Sweeps e.receiver fun now => isExpired now e.noteTime = false) :
    ∃ offers, Members.told ((Runs.run (Lan.perform accepts) s (.heartbeat e :: later)).members.known
        e.receiver e.sender) = some offers ∧ (s.nodeInfo e.sender).offers.Among offers := by
  have hself : (s.nodeInfo e.sender).offers.Among (s.members.own e.sender) :=
    ⟨List.Subset.refl _, List.Subset.refl _⟩
  have hheard : (s.perform accepts (.heartbeat e)).members.Informed e.receiver e.sender e.noteTime
      (Offers.Among (s.nodeInfo e.sender).offers) := by
    rw [members_perform hids h hops.1]
    simp only [LanOp.event, Option.elim_some, Members.step, if_neg hne]
    refine ⟨hself, ?_⟩
    simp only [Function.update_self]
    have htime := Members.heard_time (P := (e.noteTime ≤ ·)) le_rfl
      (fun time ht => Option.some.inj ht ▸ hclock) (s.members.own e.sender)
      (s.members.known e.receiver e.sender)
    exact ⟨_, _, congrArg some (Prod.ext rfl (Members.heard_answered _ _ _ _)), htime, hself⟩
  have hend := Members.informed_run hheard (fun event hevent => by
    obtain ⟨op, _, hop⟩ := List.mem_filterMap.mp hevent
    exact LanOp.keeps hop e.sender _) hsigns hsweeps
  obtain ⟨_, hmembers⟩ := (h.perform hids hops.1).run hids hops.2
  rw [Runs.run_cons, hmembers]
  obtain ⟨last, offers, hknown, _, hoffers⟩ := hend.known
  exact ⟨offers, by rw [Members.told, hknown]; rfl, hoffers⟩

/-- A subscriber is connected to nothing of a node that is not known, and lookups find nothing that
only it has registered. -/
theorem Quiet.disconnected_of_unknown
    (hids : Function.Injective fun n => (config n).localNode.nodeID) (h : Quiet accepts config s)
    {n m : ν} (hne : m ≠ n) (hunknown : s.members.known n m = none) :
    (∀ sub ∈ (s.nodes n).subs, ∀ p ∈ s.sockets, p.owner = m →
        p.advert.url ∉ sub.socket.endpoints) ∧
      ∀ order serviceName found, s.getServiceInfo n order serviceName = some found →
        ∃ m', m' ≠ m ∧ found ∈ (s.nodeInfo m').services := by
  have hwiring := wiring_reachable hids h.settled.reach
  have hholds := hwiring.inv.holds n
  refine ⟨fun sub hsub p hp howner hconnected => ?_, fun order serviceName found hfound => ?_⟩
  · have hlisted := hholds.connected sub hsub _ hconnected
    obtain ⟨p', hp', hname, hurl⟩ := hholds.listed sub hsub _ hlisted
    obtain rfl := eq_of_url hwiring.inv.distinct hp' hp hurl
    obtain ⟨_, htold, _⟩ := (h.connected_iff hids hsub hp (howner ▸ hne) hname).mp hconnected
    rw [howner, hunknown] at htold
    cases htold
  · obtain ⟨_, ⟨id, info, hlookup, hservice⟩ | hown⟩ := NodeTable.mem_of_getServiceInfo hfound
    · obtain ⟨m', _, rfl, hversion⟩ := (hwiring.directory.knowledge n).stored id info hlookup
      refine ⟨m', ?_, hversion.services.subset hservice⟩
      rintro rfl
      have htold := (h.tracked n).told_view (s.nodeID m')
      rw [hlookup] at htold
      cases (congrArg Members.told hunknown).symm.trans htold
    · exact ⟨n, hne.symm, hown⟩

/-- From an answered heartbeat on, its receiver stays connected to what its sender offered then. -/
theorem Quiet.while_alive (hids : Function.Injective fun n => (config n).localNode.nodeID)
    (h : Quiet accepts config s) {e : Exchange ν} {later : List (LanOp ν κ)}
    (hops : Runs.Each (Lan.perform accepts) (Allowed accepts) s (.heartbeat e :: later))
    (hne : e.sender ≠ e.receiver) (hclock : e.noteTime ≤ e.storeTime)
    (hsigns : ∀ event ∈ later.filterMap (LanOp.event config),
      event.Signs e.sender e.receiver (e.noteTime ≤ ·))
    (hsweeps : ∀ event ∈ later.filterMap (LanOp.event config),
      event.Sweeps e.receiver fun now => isExpired now e.noteTime = false) :
    let s' := Runs.run (Lan.perform accepts) s (.heartbeat e :: later)
    (∀ sub ∈ (s'.nodes e.receiver).subs, ∀ p ∈ s.sockets, p.owner = e.sender →
        p.advert.name = sub.topicName → p.advert.url ∈ sub.socket.endpoints) ∧
      ∀ order, ∀ service ∈ (s.nodeInfo e.sender).services,
        ∃ found, s'.getServiceInfo e.receiver order service.name = some found := by
  intro s'
  obtain ⟨hafter, _⟩ := h.run hids hops
  obtain ⟨offers, htold, htopics, hservices⟩ :=
    h.told_while_alive hids hops hne hclock hsigns hsweeps
  refine ⟨fun sub hsub p hp howner hname => ?_, fun order service hservice => ?_⟩
  · have hmine : p.advert ∈ (s.nodeInfo e.sender).topics := by
      rw [(wiring_reachable hids h.settled.reach).directory.published]
      exact mem_adverts.mpr ⟨p, hp, howner, rfl⟩
    exact hafter.connected_of_told hids hsub hname htold (htopics hmine)
  · exact (hafter.service_iff hids e.receiver order service.name).mpr
      ⟨service, rfl, Or.inr ⟨e.sender, offers, htold, hservices hservice⟩⟩

/-- From an answered heartbeat of a node on, until a sweep of its receiver comes more than the
expiry window later, all subscribers there are connected to all publishers that the node had then,
and its services are found, whichever calls are made meanwhile. -/
theorem connected_while_alive (hids : Function.Injective fun n => (config n).localNode.nodeID)
    {earlier later : List (LanOp ν κ)} {e : Exchange ν}
    (hearlier : Runs.Each (perform accepts) (Allowed accepts) (start config) earlier)
    (hlater : Runs.Each (perform accepts) (Allowed accepts)
      (Runs.run (perform accepts) (start config) earlier) (.heartbeat e :: later))
    (hne : e.sender ≠ e.receiver) (hclock : e.noteTime ≤ e.storeTime)
    (hsigns : ∀ event ∈ later.filterMap (LanOp.event config),
      event.Signs e.sender e.receiver (e.noteTime ≤ ·))
    (hsweeps : ∀ event ∈ later.filterMap (LanOp.event config),
      event.Sweeps e.receiver fun now => isExpired now e.noteTime = false) :
    let s₀ := Runs.run (perform accepts) (start config) earlier
    let s := Runs.run (perform accepts) s₀ (.heartbeat e :: later)
    (∀ sub ∈ (s.nodes e.receiver).subs, ∀ p ∈ s₀.sockets, p.owner = e.sender →
        p.advert.name = sub.topicName → p.advert.url ∈ sub.socket.endpoints) ∧
      ∀ order, ∀ service ∈ (s₀.nodeInfo e.sender).services,
        ∃ found, s.getServiceInfo e.receiver order service.name = some found := by
  obtain ⟨hbefore, _⟩ := (quiet_start accepts config).run hids hearlier
  exact hbefore.while_alive hids hlater hne hclock hsigns hsweeps

/-- Another heartbeat, and a sweep within the window. -/
theorem connected_while_alive_exampleOps :
    ∃ found, (Runs.run (perform fun _ => true)
      (Runs.run (perform fun _ => true) (start pairConfig) exampleOps)
      [.heartbeat ⟨true, false, 4, 5⟩, .sweep false .stored 6]).getServiceInfo false .stored
        (ascii "echo") = some found := by
  have hlater : Runs.Each (perform fun _ => true) (Allowed fun _ => true)
      (Runs.run (perform fun _ => true) (start pairConfig) exampleOps)
      [.heartbeat ⟨true, false, 4, 5⟩, .sweep false .stored 6] := by
    refine ⟨?_, trivial, trivial⟩
    change List.length _ + List.length _ < 2 ^ 32
    decide
  exact (connected_while_alive pairConfig_ids allowed_exampleOps hlater Bool.noConfusion
    (by decide) (List.forall_mem_singleton.mpr trivial)
    (List.forall_mem_singleton.mpr fun _ => by decide)).2 .stored
    ⟨ascii "echo", ascii "10.0.0.1", 6000⟩ (List.mem_singleton_self _)

/-- A sweep to which the last sign of life of a node is too old disconnects its subscribers from all
publishers of the node, and what only that has registered is not found any more, until one of its
heartbeats arrives again. -/
theorem disconnected_when_silent (hids : Function.Injective fun n => (config n).localNode.nodeID)
    {earlier later : List (LanOp ν κ)} {n m : ν} (hne : m ≠ n) {order : MapOrder} {now : Nat}
    (hearlier : Runs.Each (perform accepts) (Allowed accepts) (start config) earlier)
    (hlater : Runs.Each (perform accepts) (Allowed accepts)
      (Runs.run (perform accepts) (start config) earlier) (.sweep n order now :: later))
    (hstale : ∀ event ∈ earlier.filterMap (LanOp.event config),
      event.Signs m n fun time => isExpired now time = true)
    (hsilent : ∀ event ∈ later.filterMap (LanOp.event config), event.Signs m n fun _ => False) :
    let s : Lan ν κ := Runs.run (perform accepts)
      (Runs.run (perform accepts) (start config) earlier) (.sweep n order now :: later)
    (∀ sub ∈ (s.nodes n).subs, ∀ p ∈ s.sockets, p.owner = m →
        p.advert.url ∉ sub.socket.endpoints) ∧
      ∀ order serviceName found, s.getServiceInfo n order serviceName = some found →
        ∃ m', m' ≠ m ∧ found ∈ (s.nodeInfo m').services := by
  intro s
  obtain ⟨hbefore, hmembers⟩ := (quiet_start accepts config).run hids hearlier
  obtain ⟨hafter, hmembers'⟩ := hbefore.run hids hlater
  refine hafter.disconnected_of_unknown hids hne ?_
  rw [hmembers', hmembers]
  exact Members.unknown_when_silent _ hstale hsilent

/-- Silence for four seconds, a sweep, and another subscriber. -/
def exampleSilence : Lan Bool Unit :=
  Runs.run (perform fun _ => true)
    (Runs.run (perform fun _ => true) (start pairConfig) exampleOps)
    [.sweep false .stored 4000000000, .subscribe false (ascii "chat") () .stored]

/-- After the silence nothing of the publisher is left at the other node. -/
theorem disconnected_when_silent_exampleOps :
    (∀ sub ∈ (exampleSilence.nodes false).subs, ∀ p ∈ exampleSilence.sockets, p.owner = true →
        p.advert.url ∉ sub.socket.endpoints) ∧
      ∀ order serviceName found,
        exampleSilence.getServiceInfo false order serviceName = some found →
          ∃ m', m' ≠ true ∧ found ∈ (exampleSilence.nodeInfo m').services :=
  disconnected_when_silent pairConfig_ids Bool.noConfusion allowed_exampleOps
    ⟨trivial, trivial, trivial⟩ (by decide) (by decide)

end Lan

end ZeroLanCom
