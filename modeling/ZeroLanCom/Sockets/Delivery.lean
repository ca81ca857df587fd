import ZeroLanCom.Library.Runs
import ZeroLanCom.Serialization.Codec

/-!
# Delivering messages to subscribers

A poll round of the subscriber manager walks over the sockets that were ready
at the poll, takes one message from each and passes it to the callback of its
subscriber. The walk stands inside one `try` block, so the first callback that
throws ends it.
-/

namespace ZeroLanCom

open Throwing

/-- The socket of one subscriber with the messages that wait in it, oldest first, and those its
callback has been passed. -/
structure Mailbox where
  queue : List Bytes
  seen : List Bytes := []
  deriving DecidableEq, Repr

namespace Mailbox

/-- `revents & ZMQ_POLLIN`. -/
def ready (b : Mailbox) : Bool := !b.queue.isEmpty

/-- `recv`, and the message handed to the callback. -/
def take (b : Mailbox) : Mailbox :=
  match b.queue with
  | [] => b
  | msg :: queue => ⟨queue, b.seen ++ [msg]⟩

/-- A message from the network joins the end of the queue. -/
def arrive (b : Mailbox) (msg : Bytes) : Mailbox := { b with queue := b.queue ++ [msg] }

/-- All messages there have been, in order. -/
def messages (b : Mailbox) : List Bytes := b.seen ++ b.queue

@[simp] theorem messages_take (b : Mailbox) : b.take.messages = b.messages := by
  obtain ⟨queue, seen⟩ := b
  cases queue with
  | nil => rfl
  | cons msg queue => simp [take, messages]

@[simp] theorem messages_arrive (b : Mailbox) (msg : Bytes) :
    (b.arrive msg).messages = b.messages ++ [msg] := by
  simp [arrive, messages]

/-- Receiving changes a socket exactly if it has a message. -/
theorem take_eq_self_iff {b : Mailbox} : b.take = b ↔ b.ready = false := by
  obtain ⟨queue, seen⟩ := b
  cases queue <;> simp [take, ready]

end Mailbox

/-- What the callback of each subscriber throws in a round, if it is called and throws. -/
abbrev CallbackResults := Nat → Option Exn

/-- The loop of `pollOnce`, at position `i` of the poll items. What is ready there has not changed
since the poll. -/
def pollLoop (results : CallbackResults) : Nat → List Mailbox → Outcome Exn (List Mailbox)
  | _, [] => .done []
  | i, b :: boxes =>
    if b.ready then
      match results i with
      | none => (pollLoop results (i + 1) boxes).map (b.take :: ·)
      | some e => .threw e (b.take :: boxes)
    else (pollLoop results (i + 1) boxes).map (b :: ·)

/-- `SubscriberManager::pollOnce`. What is no `std::exception` gets past it, and ends in
`PeriodicTask::runLoop`. -/
def pollSubscribers (results : CallbackResults) (boxes : List Mailbox) :
    Outcome Exn (List Mailbox) :=
  (pollLoop results 0 boxes).catching Exn.isStd

/-- Among the ready subscribers only the last may throw. -/
def Unobstructed (results : CallbackResults) (boxes : List Mailbox) : Prop :=
  ∀ i j b c, i < j → boxes[i]? = some b → boxes[j]? = some c → b.ready = true → c.ready = true →
    results i = none

/-- A ready subscriber at the head may throw if nobody behind it is ready. -/
theorem unobstructed_cons_iff {results : CallbackResults} {b : Mailbox} {boxes : List Mailbox} :
    Unobstructed results (b :: boxes) ↔
      (b.ready = true → (∃ c ∈ boxes, c.ready = true) → results 0 = none) ∧
        Unobstructed (fun i => results (i + 1)) boxes := by
  constructor
  · intro h
    refine ⟨?_, fun i j d c hij hd hc => h (i + 1) (j + 1) d c (by omega) hd hc⟩
    rintro hb ⟨c, hc, hready⟩
    obtain ⟨j, hj⟩ := List.mem_iff_getElem?.mp hc
    exact h 0 (j + 1) b c (by omega) rfl hj hb hready
  · rintro ⟨hhead, htail⟩ i j d c hij hd hc hdr hcr
    cases j with
    | zero => omega
    | succ j =>
      cases i with
      | zero =>
        obtain rfl : b = d := Option.some.inj hd
        exact hhead hdr ⟨c, List.mem_of_getElem? hc, hcr⟩
      | succ i => exact htail i j d c (by omega) hd hc hdr hcr

/-- A round in which everybody receives changes nothing exactly if nobody has a message. -/
theorem map_take_eq_self_iff {boxes : List Mailbox} :
    boxes.map Mailbox.take = boxes ↔ ¬ ∃ c ∈ boxes, c.ready = true := by
  induction boxes with
  | nil => simp
  | cons b boxes ih => simp [ih, Mailbox.take_eq_self_iff]

/-- The loop serves everybody who is ready exactly if only the last of them throws. -/
theorem pollLoop_eq_map_take_iff (results : CallbackResults) (i : Nat) (boxes : List Mailbox) :
    (pollLoop results i boxes).state = boxes.map Mailbox.take ↔
      Unobstructed (fun k => results (i + k)) boxes := by
  induction boxes generalizing i with
  | nil => simp [pollLoop, Unobstructed]
  | cons b boxes ih =>
    have htail : Unobstructed (fun k => results (i + (k + 1))) boxes ↔
        (pollLoop results (i + 1) boxes).state = boxes.map Mailbox.take := by
      rw [ih]
      simp only [Nat.add_assoc, Nat.add_comm 1]
    rw [unobstructed_cons_iff, htail, pollLoop, List.map_cons, Nat.add_zero]
    cases hb : b.ready with
    | false => simp [Mailbox.take_eq_self_iff.mpr hb]
    | true =>
      cases hresult : results i with
      | none => simp
      | some e =>
        simp only [if_true, Outcome.state_threw, List.cons.injEq, true_and, true_implies,
          reduceCtorEq, imp_false]
        rw [eq_comm, map_take_eq_self_iff]
        constructor
        · intro hnone
          refine ⟨hnone, htail.mp fun _ _ _ c _ _ hc _ hready => ?_⟩
          exact absurd ⟨c, List.mem_of_getElem? hc, hready⟩ hnone
        · exact fun h => h.1

/-- In any case nobody else's message is touched, and nobody loses one. -/
theorem pollLoop_messages (results : CallbackResults) (i : Nat) (boxes : List Mailbox) :
    (pollLoop results i boxes).state.map Mailbox.messages = boxes.map Mailbox.messages := by
  induction boxes generalizing i with
  | nil => rfl
  | cons b boxes ih =>
    rw [pollLoop]
    split_ifs
    · cases results i with
      | none => simp [ih]
      | some e => simp
    · simp [ih]

/-- A message arrives at one socket, or the poll task runs a round. -/
inductive DeliveryOp where
  | arrive (i : Nat) (msg : Bytes)
  | poll (results : CallbackResults)

/-- A message comes to socket `i`, or a round of the poll task runs. -/
def deliveryStep (boxes : List Mailbox) : DeliveryOp → List Mailbox
  | .arrive i msg => boxes.modify i fun b => b.arrive msg
  | .poll results => (pollSubscribers results boxes).state

/-- A round passes the oldest message of every ready socket to its own callback, once. -/
def ServesAll (boxes : List Mailbox) : DeliveryOp → Prop
  | .arrive _ _ => True
  | .poll results => (pollSubscribers results boxes).state = boxes.map Mailbox.take

/-- The callbacks of the round do not get in each other's way. -/
def RoundUnobstructed (boxes : List Mailbox) : DeliveryOp → Prop
  | .arrive _ _ => True
  | .poll results => Unobstructed results boxes

/-- A round serves everybody exactly if no callback of it gets in the way of a later one. -/
theorem servesAll_iff (boxes : List Mailbox) (op : DeliveryOp) :
    ServesAll boxes op ↔ RoundUnobstructed boxes op := by
  cases op with
  | arrive i msg => exact Iff.rfl
  | poll results =>
    rw [ServesAll, RoundUnobstructed, pollSubscribers, Outcome.state_catching,
      pollLoop_eq_map_take_iff]
    simp only [Nat.zero_add]

/-- The messages that arrive for one subscriber. -/
def arrivalsFor (k : Nat) (ops : List DeliveryOp) : List Bytes :=
  ops.filterMap fun op =>
    match op with
    | .arrive i msg => if i = k then some msg else none
    | .poll _ => none

/-- What one subscriber can tell of a run: its own messages, and the rounds. -/
def viewOf (k : Nat) (ops : List DeliveryOp) : List (Option Bytes) :=
  ops.filterMap fun op =>
    match op with
    | .arrive i msg => if i = k then some (some msg) else none
    | .poll _ => some none

/-- What its callback has been passed after each round. -/
def seenByRound (k : Nat) : List Mailbox → List DeliveryOp → List (Option (List Bytes))
  | _, [] => []
  | boxes, .arrive i msg :: ops => seenByRound k (deliveryStep boxes (.arrive i msg)) ops
  | boxes, .poll results :: ops =>
    (deliveryStep boxes (.poll results))[k]?.map Mailbox.seen ::
      seenByRound k (deliveryStep boxes (.poll results)) ops

/-- The same for a subscriber that is by itself. -/
def seenAlone : Option Mailbox → List (Option Bytes) → List (Option (List Bytes))
  | _, [] => []
  | b, some msg :: view => seenAlone (b.map fun b => b.arrive msg) view
  | b, none :: view => (b.map Mailbox.take).map Mailbox.seen :: seenAlone (b.map Mailbox.take) view

/-- Every round serves everybody, each callback sees the messages of its socket in order without
loss or repetition, and it is passed the same in every round of every other run that meets the
condition and looks the same to it. -/
structure IsolatedSubscribers (boxes : List Mailbox) (ops : List DeliveryOp) : Prop where
  rounds : Runs.Each deliveryStep ServesAll boxes ops
  inOrder : ∀ k b, boxes[k]? = some b → ∃ b', (Runs.run deliveryStep boxes ops)[k]? = some b' ∧
    b'.messages = b.messages ++ arrivalsFor k ops
  unaffected : ∀ k boxes' ops', boxes'[k]? = boxes[k]? → viewOf k ops' = viewOf k ops →
    Runs.Each deliveryStep RoundUnobstructed boxes' ops' →
    seenByRound k boxes' ops' = seenByRound k boxes ops

/-- A step adds to the messages of a subscriber what arrives for it. -/
theorem deliveryStep_messages {boxes : List Mailbox} {k : Nat} {b : Mailbox}
    (h : boxes[k]? = some b) (op : DeliveryOp) :
    ∃ b', (deliveryStep boxes op)[k]? = some b' ∧
      b'.messages = b.messages ++ arrivalsFor k [op] := by
  cases op with
  | arrive i msg =>
    rw [deliveryStep, List.getElem?_modify, h]
    by_cases hik : i = k
    · exact ⟨b.arrive msg, by simp [hik], by simp [arrivalsFor, hik]⟩
    · exact ⟨b, by simp [hik], by simp [arrivalsFor, hik]⟩
  | poll results =>
    have hmessages := congrArg (fun l => l[k]?) (pollLoop_messages results 0 boxes)
    simp only [List.getElem?_map, h, Option.map_some, Option.map_eq_some_iff] at hmessages
    obtain ⟨b', hb', hsame⟩ := hmessages
    refine ⟨b', ?_, by simp [arrivalsFor, hsame]⟩
    rw [deliveryStep, pollSubscribers, Outcome.state_catching, hb']

/-- Nothing is lost and nothing comes twice or out of turn, whatever the callbacks do. -/
theorem run_messages {boxes : List Mailbox} {k : Nat} {b : Mailbox} (h : boxes[k]? = some b)
    (ops : List DeliveryOp) :
    ∃ b', (Runs.run deliveryStep boxes ops)[k]? = some b' ∧
      b'.messages = b.messages ++ arrivalsFor k ops := by
  induction ops generalizing boxes b with
  | nil => exact ⟨b, h, by simp [arrivalsFor]⟩
  | cons op ops ih =>
    obtain ⟨c, hc, hstep⟩ := deliveryStep_messages h op
    obtain ⟨b', hb', hrun⟩ := ih hc
    refine ⟨b', hb', ?_⟩
    rw [hrun, hstep, List.append_assoc, arrivalsFor, arrivalsFor, arrivalsFor,
      ← List.filterMap_append, List.singleton_append]

/-- As long as nobody is in the way, a subscriber sees what it would see alone. -/
theorem seenByRound_eq_seenAlone {boxes : List Mailbox} {ops : List DeliveryOp}
    (h : Runs.Each deliveryStep RoundUnobstructed boxes ops) (k : Nat) :
    seenByRound k boxes ops = seenAlone boxes[k]? (viewOf k ops) := by
  induction ops generalizing boxes with
  | nil => rfl
  | cons op ops ih =>
    obtain ⟨hround, hrest⟩ := h
    cases op with
    | arrive i msg =>
      rw [seenByRound, ih hrest, deliveryStep, List.getElem?_modify]
      by_cases hik : i = k
      · subst hik
        simp [viewOf, seenAlone]
      · simp [viewOf, hik]
    | poll results =>
      have hall : deliveryStep boxes (.poll results) = boxes.map Mailbox.take :=
        (servesAll_iff boxes (.poll results)).mpr hround
      rw [seenByRound, ih hrest, hall, List.getElem?_map]
      rfl

/-- Along a run the subscribers are isolated from each other exactly when in each round none but
the last of the ready ones throws. -/
theorem subscribers_isolated_iff (boxes : List Mailbox) (ops : List DeliveryOp) :
    IsolatedSubscribers boxes ops ↔ Runs.Each deliveryStep RoundUnobstructed boxes ops := by
  have hrounds : Runs.Each deliveryStep ServesAll boxes ops ↔
      Runs.Each deliveryStep RoundUnobstructed boxes ops := Runs.each_congr servesAll_iff
  constructor
  · exact fun h => hrounds.mp h.rounds
  · intro h
    refine ⟨hrounds.mpr h, fun k b hb => run_messages hb ops, ?_⟩
    intro k boxes' ops' hbox hview h'
    rw [seenByRound_eq_seenAlone h', seenByRound_eq_seenAlone h, hbox, hview]

/-- Two subscribers with a message each. -/
def twoReady : List Mailbox := [⟨[[0xC1]], []⟩, ⟨[[0xC0]], []⟩]

/-- The first message does not decode, and so the second subscriber is not served. -/
theorem undecodable_message_starves_other :
    ¬ IsolatedSubscribers twoReady
        [.poll fun i => if i = 0 then some .decodeException else none] := by
  intro h
  have hserved := h.rounds.1
  simp [ServesAll, pollSubscribers, twoReady, pollLoop, Mailbox.ready, Mailbox.take, Exn.isStd,
    Outcome.catching] at hserved

end ZeroLanCom
