import ZeroLanCom.Utils.PeriodicTask

/-!
# The threads of a node

The four workers of a node run its four periodic tasks. The main thread starts
them in the constructor and stops them in `ZeroLanComNode::stop`. The callbacks
of the sender, the service manager and the subscriber manager come to an end by
themselves. The callback of the receiver waits in `recvfrom` for a datagram, and
some datagrams make it wait for the answer of their sender, without a timeout.
-/

namespace ZeroLanCom

namespace Threads

/-- The periodic tasks. -/
inductive Loop where
  | sender
  | receiver
  | service
  | subscriber
  deriving DecidableEq, Repr

/-- What the main thread calls. -/
inductive Call where
  | start (t : Loop)
  | stop (t : Loop)
  | stopPool
  deriving DecidableEq, Repr

/-- The end of the constructor of the node. -/
def startCalls : List Call :=
  [.start .sender, .start .receiver, .start .service, .start .subscriber]

/-- `ZeroLanComNode::stop`, up to the calls of `destroy`. -/
def stopCalls : List Call :=
  [.stop .sender, .stop .receiver, .stop .service, .stop .subscriber, .stopPool]

/-- A datagram, by what the callback does with it. -/
inductive Datagram where
  /-- It is dropped, or processed without another node. -/
  | plain
  /-- `processHeartbeat` fetches the info of its sender. -/
  | fetching
  deriving DecidableEq, Repr

/-- Where the callback of the receiver is. -/
inductive ReceivePhase where
  | receiving
  /-- In `fetchNodeInfo`. -/
  | fetching
  | handled
  deriving DecidableEq, Repr

/-- The threads with what they wait for; `script` is what the main thread still has to call. -/
structure Node where
  tasks : Periodic Loop 4
  receive : ReceivePhase
  pending : List Datagram
  replied : Bool
  script : List Call
  stopping : Bool

/-- What happens next. -/
inductive Act where
  | task (a : PeriodicAct Loop 4)
  /-- The callback of the sender, with a heartbeat that the own receiver gets to hear. -/
  | send (w : Fin 4)
  | recvfrom (w : Fin 4)
  | fetched (w : Fin 4)
  /-- `ZeroLanComNode::stop` is called. -/
  | stop
  | arrive (d : Datagram)
  | reply

/-- Whether a thread of the node makes the step, and not by a wake-up out of nothing. -/
def Act.isThread : Act → Bool
  | .task (.pool (.wakeWorker _)) => false
  | .arrive _ => false
  | .reply => false
  | _ => true

namespace Node

/-- The pool runs, and nothing has been started. -/
def started : Node := ⟨Periodic.started, .handled, [], false, startCalls, false⟩

/-- The call that the main thread begins with the step. -/
def callOf : PeriodicAct Loop 4 → Option Call
  | .start t => some (.start t)
  | .stop t => some (.stop t)
  | .pool (.stop _) => some .stopPool
  | _ => none

/-- The main thread follows its script, and the callback of the receiver ends when it has handled
its datagram. -/
def allows (s : Node) : PeriodicAct Loop 4 → Bool
  | .call w _ => (s.tasks.loopAt w).all fun p => p.2 ≠ .receiver || s.receive = .handled
  | a => (callOf a).all fun c => s.script.head? = some c

/-- What is left of the script. -/
def scriptAfter (s : Node) (a : PeriodicAct Loop 4) : List Call :=
  match callOf a with
  | some _ => s.script.tail
  | none => s.script

/-- The receiver enters its callback before `recvfrom`. -/
def receiveAfter (s : Node) (tasks : Periodic Loop 4) : PeriodicAct Loop 4 → ReceivePhase
  | .test w =>
    match tasks.loopAt w with
    | some (k, .receiver) => if tasks.loops k = .calling then .receiving else s.receive
    | _ => s.receive
  | _ => s.receive

/-- Whether the worker is in the callback of the receiver. -/
def receivesAt (s : Node) (w : Fin 4) : Bool :=
  (s.tasks.loopAt w).any fun p => p.2 = .receiver && s.tasks.loops p.1 = .calling

/-- One step of one thread or of the network, if it can be made. -/
def step (s : Node) : Act → Option Node
  | .task a =>
    if s.allows a then
      (s.tasks.step a).map fun tasks =>
        { s with tasks := tasks, receive := s.receiveAfter tasks a, script := s.scriptAfter a }
    else none
  | .send w =>
    if (s.tasks.loopAt w).any fun p => p.2 = .sender then
      (s.tasks.step (.call w none)).map fun tasks =>
        { s with tasks := tasks, pending := s.pending ++ [.plain] }
    else none
  | .recvfrom w =>
    if s.receivesAt w ∧ s.receive = .receiving then
      match s.pending with
      | [] => none
      | .plain :: pending => some { s with pending := pending, receive := .handled }
      | .fetching :: pending =>
        some { s with pending := pending, receive := .fetching, replied := false }
    else none
  | .fetched w =>
    if s.receivesAt w ∧ s.receive = .fetching ∧ s.replied then
      some { s with receive := .handled }
    else none
  | .stop =>
    if s.script = [] ∧ s.tasks.Idle ∧ s.stopping = false then
      some { s with script := stopCalls, stopping := true }
    else none
  | .arrive d => if s.stopping then none else some { s with pending := s.pending ++ [d] }
  | .reply => if s.receive = .fetching then some { s with replied := true } else none

/-- What cannot happen changes nothing. -/
def next (s : Node) (a : Act) : Node := (s.step a).getD s

/-- What the steps do, and when. -/
inductive Moves (s : Node) : Act → Node → Prop
  | task {a : PeriodicAct Loop 4} {tasks : Periodic Loop 4} (hallows : s.allows a = true)
    (htasks : Periodic.Moves s.tasks a tasks) :
    Moves s (.task a)
      { s with tasks := tasks, receive := s.receiveAfter tasks a, script := s.scriptAfter a }
  | send {w : Fin 4} {tasks : Periodic Loop 4}
    (hsender : ((s.tasks.loopAt w).any fun p => p.2 = .sender) = true)
    (htasks : Periodic.Moves s.tasks (.call w none) tasks) :
    Moves s (.send w) { s with tasks := tasks, pending := s.pending ++ [.plain] }
  | handle {w : Fin 4} {pending : List Datagram} (hreceives : s.receivesAt w = true)
    (hreceiving : s.receive = .receiving) (hpending : s.pending = .plain :: pending) :
    Moves s (.recvfrom w) { s with pending := pending, receive := .handled }
  | fetch {w : Fin 4} {pending : List Datagram} (hreceives : s.receivesAt w = true)
    (hreceiving : s.receive = .receiving) (hpending : s.pending = .fetching :: pending) :
    Moves s (.recvfrom w) { s with pending := pending, receive := .fetching, replied := false }
  | fetched {w : Fin 4} (hreceives : s.receivesAt w = true) (hfetching : s.receive = .fetching)
    (hreplied : s.replied = true) : Moves s (.fetched w) { s with receive := .handled }
  | stop (hscript : s.script = []) (hidle : s.tasks.Idle) (hrunning : s.stopping = false) :
    Moves s .stop { s with script := stopCalls, stopping := true }
  | arrive {d : Datagram} (hrunning : s.stopping = false) :
    Moves s (.arrive d) { s with pending := s.pending ++ [d] }
  | reply (hfetching : s.receive = .fetching) : Moves s .reply { s with replied := true }

/-- These are all the things a step can do. -/
theorem step_cases {s s' : Node} {a : Act} (h : s.step a = some s') : Moves s a s' := by
  cases a with
  | task a =>
    rw [step, Option.ite_none_right_eq_some] at h
    obtain ⟨hallows, h⟩ := h
    obtain ⟨tasks, htasks, rfl⟩ := Option.map_eq_some_iff.mp h
    exact .task hallows (Periodic.step_cases htasks)
  | send w =>
    rw [step, Option.ite_none_right_eq_some] at h
    obtain ⟨hsender, h⟩ := h
    obtain ⟨tasks, htasks, rfl⟩ := Option.map_eq_some_iff.mp h
    exact .send hsender (Periodic.step_cases htasks)
  | recvfrom w =>
    rw [step, Option.ite_none_right_eq_some] at h
    obtain ⟨⟨hreceives, hreceiving⟩, h⟩ := h
    split at h
    · cases h
    · rename_i pending hpending
      obtain rfl := Option.some.inj h
      exact .handle hreceives hreceiving hpending
    · rename_i pending hpending
      obtain rfl := Option.some.inj h
      exact .fetch hreceives hreceiving hpending
  | fetched w =>
    rw [step, Option.ite_none_right_eq_some, Option.some.injEq] at h
    obtain ⟨⟨hreceives, hfetching, hreplied⟩, rfl⟩ := h
    exact .fetched hreceives hfetching hreplied
  | stop =>
    rw [step, Option.ite_none_right_eq_some, Option.some.injEq] at h
    obtain ⟨⟨hscript, hidle, hrunning⟩, rfl⟩ := h
    exact .stop hscript hidle hrunning
  | arrive d =>
    rw [step] at h
    split_ifs at h with hstopping
    obtain rfl := Option.some.inj h
    exact .arrive (Bool.eq_false_iff.mpr hstopping)
  | reply =>
    rw [step, Option.ite_none_right_eq_some, Option.some.injEq] at h
    obtain ⟨hfetching, rfl⟩ := h
    exact .reply hfetching

/-- A property that every possible step keeps is kept by `next`. -/
theorem next_of_moves {P : Node → Prop} {s : Node} (h : P s) {a : Act}
    (hmoves : ∀ s', Moves s a s' → P s') : P (s.next a) := by
  rw [next]
  exact Runs.getD_of_step (fun _ => h) fun s' hstep => hmoves s' (step_cases hstep)

/-- Where the main thread is in `ZeroLanComNode::stop`. -/
inductive MainAt (s : Node) : Prop
  | idle (hcontrol : s.tasks.control = .idle) (hclient : s.tasks.pool.clients () = .idle)
  | waiting (t : Loop) (hcontrol : s.tasks.control = .waiting t)
    (hclient : s.tasks.pool.clients () = .idle)
  | pool (hcontrol : s.tasks.control = .idle) (hclient : (s.tasks.pool.clients ()).inStop = true)
    (hscript : s.script = [])

/-- Where the main thread stands shows in the control thread, the pool and the script. -/
theorem MainAt.of_eq {s s' : Node} (h : s.MainAt) (hcontrol : s'.tasks.control = s.tasks.control)
    (hpool : s'.tasks.pool = s.tasks.pool) (hscript : s'.script = s.script) : s'.MainAt := by
  cases h with
  | idle hc hclient => exact .idle (hcontrol.trans hc) (hpool ▸ hclient)
  | waiting t hc hclient => exact .waiting t (hcontrol.trans hc) (hpool ▸ hclient)
  | pool hc hclient hs => exact .pool (hcontrol.trans hc) (hpool ▸ hclient) (hscript.trans hs)

/-- What holds of every node; once it is stopping, the script is an end of the calls of `stop`, and
the flags that are not to be lowered any more are down. -/
structure Invariant (s : Node) : Prop where
  sound : s.tasks.Sound
  script : s.stopping = true → s.script <:+ stopCalls
  lowered : s.stopping = true → ∀ t, Call.stop t ∉ s.script → s.tasks.isRunning t = false
  main : s.stopping = true → s.MainAt
  closed : s.stopping = true → Call.stopPool ∉ s.script →
    s.tasks.pool.isRunning = false ∨ s.tasks.pool.clients () = .stopping

/-- A node that has just been started. -/
theorem invariant_started : started.Invariant where
  sound := Periodic.sound_started
  script h := nomatch h
  lowered h := nomatch h
  main h := nomatch h
  closed h := nomatch h

/-- A stopping node starts no loop any more. -/
theorem head?_ne_start {script : List Call} (h : script <:+ stopCalls) (t : Loop) :
    script.head? ≠ some (.start t) := by
  intro hhead
  have hmem := h.subset (List.mem_of_head? hhead)
  simp [stopCalls] at hmem

/-- The call for the pool is the last one. -/
theorem tail_of_stopPool {script : List Call} (h : script <:+ stopCalls)
    (hhead : script.head? = some .stopPool) : script.tail = [] := by
  rw [stopCalls] at h
  simp only [List.suffix_cons_iff, List.suffix_nil] at h
  rcases h with rfl | rfl | rfl | rfl | rfl | rfl
  all_goals first | rfl | cases hhead

/-- What is not done next is done later. -/
theorem mem_tail {script : List Call} {c : Call} (hmem : c ∈ script)
    (hhead : script.head? ≠ some c) : c ∈ script.tail := by
  cases script with
  | nil => cases hmem
  | cons d rest =>
    rcases List.mem_cons.mp hmem with rfl | hrest
    · exact absurd rfl hhead
    · exact hrest

/-- A call is made when it is the next of the script. -/
theorem head?_of_allows {s : Node} {a : PeriodicAct Loop 4} {c : Call}
    (hallows : s.allows a = true) (hcall : callOf a = some c) : s.script.head? = some c := by
  cases a with
  | call => cases hcall
  | _ => simpa [allows, hcall] using hallows

/-- The call that stops a loop. -/
theorem eq_stop_of_callOf {a : PeriodicAct Loop 4} {t : Loop} (h : callOf a = some (.stop t)) :
    a = .stop t := by
  unfold callOf at h
  split at h
  · cases h
  · rw [Call.stop.inj (Option.some.inj h)]
  · cases h
  · cases h

/-- The call that stops the pool. -/
theorem eq_stopPool_of_callOf {a : PeriodicAct Loop 4} (h : callOf a = some .stopPool) :
    ∃ c, a = .pool (.stop c) := by
  unfold callOf at h
  split at h
  · cases h
  · cases h
  · exact ⟨_, rfl⟩
  · cases h

/-- A call stays in the script until it is made. -/
theorem mem_scriptAfter {s : Node} {a : PeriodicAct Loop 4} {c : Call} (hallows : s.allows a = true)
    (hcall : callOf a ≠ some c) (hmem : c ∈ s.script) : c ∈ s.scriptAfter a := by
  unfold scriptAfter
  split
  · rename_i d hd
    refine mem_tail hmem fun hhead => hcall ?_
    rw [hd, ← head?_of_allows hallows hd, hhead]
  · exact hmem

/-- A script is only worked off. -/
theorem scriptAfter_suffix (s : Node) (a : PeriodicAct Loop 4) : s.scriptAfter a <:+ s.script := by
  unfold scriptAfter
  split
  · exact List.tail_suffix _
  · exact List.suffix_rfl

variable {s s' : Node} {a : Act}

/-- No task is started any more. -/
theorem Invariant.not_start (h : s.Invariant) (hstopping : s.stopping = true) {t : Loop}
    (hallows : s.allows (.start t) = true) : False :=
  head?_ne_start (h.script hstopping) t (head?_of_allows hallows rfl)

/-- Where the script has no call left that stops a loop, the flag of the loop is down. -/
theorem Invariant.lowered_task (h : s.Invariant) (hstopping : s.stopping = true)
    {b : PeriodicAct Loop 4} {tasks : Periodic Loop 4} (hallows : s.allows b = true)
    (htasks : Periodic.Moves s.tasks b tasks) {t : Loop} (ht : Call.stop t ∉ s.scriptAfter b) :
    tasks.isRunning t = false := by
  by_cases hb : b = .stop t
  · subst hb
    exact htasks.lowers
  · have hcall : callOf b ≠ some (.stop t) := fun hcall => hb (eq_stop_of_callOf hcall)
    have hdown := h.lowered hstopping t fun hmem => ht (mem_scriptAfter hallows hcall hmem)
    refine htasks.stays_down ?_ hdown
    rintro rfl
    exact h.not_start hstopping hallows

/-- The steps of the pool leave the main thread where it is, besides its own. -/
theorem Invariant.main_pool (h : s.Invariant) (hstopping : s.stopping = true)
    {b : PoolAct Unit 4} {pool : Pool Unit 4} (hallows : s.allows (.pool b) = true)
    (hpermits : s.tasks.permits b = true) (hpool : Pool.Moves s.tasks.pool b pool) :
    MainAt { s with
      tasks := { s.tasks with pool := pool }
      receive := s.receiveAfter { s.tasks with pool := pool } (.pool b)
      script := s.scriptAfter (.pool b) } := by
  have hmove := hpool.client ()
  have hwaits := h.sound.nobodyWaits ()
  have htail : s.script = [] → s.scriptAfter (.pool b) = [] := fun hscript =>
    List.suffix_nil.mp (hscript ▸ s.scriptAfter_suffix (.pool b))
  cases h.main hstopping with
  | idle hcontrol hclient =>
    rw [hclient] at hmove
    generalize hphase : pool.clients () = phase at hmove
    cases hmove with
    | stay => exact .idle hcontrol hphase
    | accept hb => subst hb; cases hpermits
    | wait hb => subst hb; cases hpermits
    | stop hb =>
      subst hb
      refine .pool hcontrol (by rw [hphase]; rfl) ?_
      exact tail_of_stopPool (h.script hstopping) (head?_of_allows hallows rfl)
  | waiting t hcontrol hclient =>
    rw [hclient] at hmove
    generalize hphase : pool.clients () = phase at hmove
    cases hmove with
    | stay => exact .waiting t hcontrol hphase
    | accept hb => subst hb; cases hpermits
    | wait hb => subst hb; cases hpermits
    | stop hb =>
      subst hb
      have hidle : s.tasks.control = .idle := of_decide_eq_true hpermits
      rw [hcontrol] at hidle
      cases hidle
  | pool hcontrol hclient hscript =>
    generalize s.tasks.pool.clients () = before at hmove hclient
    generalize hphase : pool.clients () = phase at hmove
    cases hmove with
    | stay => exact .pool hcontrol (by rw [hphase]; exact hclient) (htail hscript)
    | lower => exact .pool hcontrol (by rw [hphase]; rfl) (htail hscript)
    | notifyAll => exact .pool hcontrol (by rw [hphase]; rfl) (htail hscript)
    | join => exact .pool hcontrol (by rw [hphase]; rfl) (htail hscript)
    | clear => exact .idle hcontrol hphase
    | _ => cases hclient

/-- The main thread moves on in its script. -/
theorem Invariant.main_task (h : s.Invariant) (hstopping : s.stopping = true)
    {b : PeriodicAct Loop 4} {tasks : Periodic Loop 4} (hallows : s.allows b = true)
    (htasks : Periodic.Moves s.tasks b tasks) :
    MainAt { s with
      tasks := tasks, receive := s.receiveAfter tasks b, script := s.scriptAfter b } := by
  have hmain := h.main hstopping
  have hnot : ∀ t, s.tasks.control ≠ .starting t ∧ s.tasks.control ≠ .started := by
    intro t
    cases hmain with
    | idle hcontrol => simp [hcontrol]
    | waiting _ hcontrol => simp [hcontrol]
    | pool hcontrol => simp [hcontrol]
  cases htasks with
  | start => exact absurd hallows fun ha => h.not_start hstopping ha
  | startAgain => exact absurd hallows fun ha => h.not_start hstopping ha
  | enqueue hstarting => exact absurd hstarting (hnot _).1
  | push hstarting => exact absurd hstarting (hnot _).1
  | notifyOne hstarted => exact absurd hstarted (hnot .sender).2
  | stop hidle => exact .waiting _ rfl hidle.2
  | stopAgain hidle => exact .idle hidle.1 hidle.2
  | ready hwaiting =>
    cases hmain with
    | idle hcontrol => rw [hwaiting] at hcontrol; cases hcontrol
    | waiting _ _ hclient => exact .idle rfl hclient
    | pool hcontrol => rw [hwaiting] at hcontrol; cases hcontrol
  | timeout hwaiting =>
    cases hmain with
    | idle hcontrol => rw [hwaiting] at hcontrol; cases hcontrol
    | waiting _ _ hclient => exact .idle rfl hclient
    | pool hcontrol => rw [hwaiting] at hcontrol; cases hcontrol
  | pool hpermits hpool => exact h.main_pool hstopping hallows hpermits hpool
  | _ => exact hmain.of_eq rfl rfl rfl

/-- The flag of the pool goes down after its call. -/
theorem Invariant.closed_task (h : s.Invariant) (hstopping : s.stopping = true)
    {b : PeriodicAct Loop 4} {tasks : Periodic Loop 4} (hallows : s.allows b = true)
    (htasks : Periodic.Moves s.tasks b tasks) (hscript : Call.stopPool ∉ s.scriptAfter b) :
    tasks.pool.isRunning = false ∨ tasks.pool.clients () = .stopping := by
  by_cases hcall : callOf b = some .stopPool
  · obtain ⟨c, rfl⟩ := eq_stopPool_of_callOf hcall
    cases htasks with
    | pool _ hpool =>
      cases hpool with
      | stop => exact Or.inr (by simp [Pool.setClient])
      | stopped _ hstopped => exact Or.inl hstopped
  · have hbefore := h.closed hstopping fun hmem => hscript (mem_scriptAfter hallows hcall hmem)
    rcases htasks.pool_moves with hsame | ⟨c, hpool, _⟩
    · rwa [hsame]
    · rcases hbefore with hdown | hclient
      · exact Or.inl (hpool.stays_down hdown)
      · have hmove := hpool.client ()
        rw [hclient] at hmove
        generalize hphase : tasks.pool.clients () = phase at hmove
        cases hmove with
        | stay => exact Or.inr rfl
        | lower hc => exact Or.inl (hc ▸ hpool).lowers

/-- Stopping the node stops each of its loops. -/
theorem mem_stopCalls (t : Loop) : Call.stop t ∈ stopCalls := by
  cases t <;> decide

/-- No move of any thread breaks the invariant. -/
theorem Invariant.moves (h : s.Invariant) (hmoves : Moves s a s') : s'.Invariant := by
  cases hmoves with
  | task hallows htasks =>
    exact ⟨h.sound.moves htasks, fun hs => (s.scriptAfter_suffix _).trans (h.script hs),
      fun hs _ ht => h.lowered_task hs hallows htasks ht, fun hs => h.main_task hs hallows htasks,
      fun hs hscript => h.closed_task hs hallows htasks hscript⟩
  | send _ htasks =>
    have hsound := h.sound.moves htasks
    cases htasks
    exact ⟨hsound, h.script, h.lowered, fun hs => (h.main hs).of_eq rfl rfl rfl, h.closed⟩
  | stop _ hidle =>
    exact ⟨h.sound, fun _ => List.suffix_rfl, fun _ t ht => absurd (mem_stopCalls t) ht,
      fun _ => .idle hidle.1 hidle.2, fun _ hscript => absurd (by simp [stopCalls]) hscript⟩
  | _ => exact ⟨h.sound, h.script, h.lowered, fun hs => (h.main hs).of_eq rfl rfl rfl, h.closed⟩

/-- Every state of every run keeps it. -/
theorem invariant_run (acts : List Act) : (Runs.run next started acts).Invariant :=
  Runs.run_of_step (I := Invariant) (fun _ _ h => next_of_moves h fun _ => h.moves)
    invariant_started acts

/-- `ZeroLanComNode::stop` has joined the workers. -/
def Returned (s : Node) : Prop := s.stopping = true ∧ s.script = [] ∧ s.tasks.Idle

/-- Some thread can make a step, or there is nothing left to wait for. -/
def Live (s : Node) : Prop :=
  s.Returned ∨ ∃ a : Act, a.isThread = true ∧ (s.step a).isSome = true

end Node

end Threads

end ZeroLanCom
