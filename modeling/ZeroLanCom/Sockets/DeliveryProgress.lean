import ZeroLanCom.Sockets.Delivery

/-!
# Messages behind a callback that throws

A callback that throws costs everybody behind it the round. The message it threw
on is gone all the same, so it can do so only as often as there are messages in
front. Where these do not come as fast as the rounds do, everybody is served in
the end; where one comes for every round, those behind it may wait for ever.
-/

namespace ZeroLanCom

open Throwing

/-- The messages that wait for the subscribers up to number `k`. -/
def waitingUpTo (k : Nat) (boxes : List Mailbox) : Nat :=
  ((boxes.take (k + 1)).map fun b => b.queue.length).sum

/-- A poll round. -/
def DeliveryOp.isRound : DeliveryOp → Bool
  | .arrive _ _ => false
  | .poll _ => true

/-- A message for a subscriber up to number `k`. -/
def DeliveryOp.adds (k : Nat) : DeliveryOp → Bool
  | .arrive i _ => i ≤ k
  | .poll _ => false

/-- Receiving takes one message off the queue. -/
theorem Mailbox.length_take_queue {b : Mailbox} (h : b.ready = true) :
    b.take.queue.length + 1 = b.queue.length := by
  obtain ⟨queue, seen⟩ := b
  cases queue with
  | nil => cases h
  | cons msg queue => rfl

@[simp] theorem waitingUpTo_zero_cons (b : Mailbox) (boxes : List Mailbox) :
    waitingUpTo 0 (b :: boxes) = b.queue.length := by
  simp [waitingUpTo]

@[simp] theorem waitingUpTo_succ_cons (k : Nat) (b : Mailbox) (boxes : List Mailbox) :
    waitingUpTo (k + 1) (b :: boxes) = b.queue.length + waitingUpTo k boxes := by
  simp [waitingUpTo]

/-- A subscriber's own messages are among those that are waited for. -/
theorem length_queue_le_waitingUpTo {boxes : List Mailbox} {k : Nat} {b : Mailbox}
    (h : boxes[k]? = some b) : b.queue.length ≤ waitingUpTo k boxes := by
  induction boxes generalizing k with
  | nil => cases h
  | cons c boxes ih =>
    cases k with
    | zero =>
      obtain rfl : c = b := Option.some.inj h
      rw [waitingUpTo_zero_cons]
    | succ k =>
      rw [waitingUpTo_succ_cons]
      have htail := ih (k := k) h
      omega

/-- A round that finds a subscriber ready takes a message from it or from one in front of it. -/
theorem waitingUpTo_pollLoop_lt (results : CallbackResults) (i : Nat) {boxes : List Mailbox}
    {k : Nat} {b : Mailbox} (h : boxes[k]? = some b) (hready : b.ready = true) :
    waitingUpTo k (pollLoop results i boxes).state + 1 ≤ waitingUpTo k boxes := by
  induction boxes generalizing i k with
  | nil => cases h
  | cons c boxes ih =>
    rw [pollLoop]
    cases k with
    | zero =>
      obtain rfl : c = b := Option.some.inj h
      have htake := c.length_take_queue hready
      rw [if_pos hready]
      cases results i <;> simp <;> omega
    | succ k =>
      have htail := ih (i + 1) (k := k) h
      split_ifs with hc
      · have htake := c.length_take_queue hc
        cases results i <;> simp <;> omega
      · simp
        omega

/-- A message adds one to what waits, if it is for one of them. -/
theorem waitingUpTo_modify_le (k i : Nat) (msg : Bytes) (boxes : List Mailbox) :
    waitingUpTo k (boxes.modify i fun b => b.arrive msg) ≤
      waitingUpTo k boxes + if i ≤ k then 1 else 0 := by
  induction boxes generalizing i k with
  | nil => simp [waitingUpTo]
  | cons b boxes ih =>
    cases i with
    | zero =>
      cases k with
      | zero => simp [Mailbox.arrive]
      | succ k =>
        simp [Mailbox.arrive]
        omega
    | succ i =>
      cases k with
      | zero => simp
      | succ k =>
        have htail := ih k i
        simp only [List.modify_succ_cons, waitingUpTo_succ_cons, Nat.add_le_add_iff_right]
        omega

/-- A round takes a message from a subscriber, or leaves it alone. -/
theorem pollLoop_takes (results : CallbackResults) (i : Nat) (boxes : List Mailbox) :
    List.Forall₂ (fun b b' => b' = b ∨ b' = b.take) boxes (pollLoop results i boxes).state := by
  have hsame : ∀ boxes : List Mailbox,
      List.Forall₂ (fun b b' => b' = b ∨ b' = b.take) boxes boxes := fun boxes =>
    List.forall₂_same.mpr fun _ _ => Or.inl rfl
  induction boxes generalizing i with
  | nil => exact .nil
  | cons b boxes ih =>
    rw [pollLoop]
    split_ifs
    · cases results i with
      | none =>
        rw [Outcome.state_map]
        exact .cons (Or.inr rfl) (ih (i + 1))
      | some e => exact .cons (Or.inr rfl) (hsame boxes)
    · rw [Outcome.state_map]
      exact .cons (Or.inl rfl) (ih (i + 1))

/-- What the callback has seen it has seen, and the next message comes after it. -/
theorem Mailbox.seen_prefix_take (b : Mailbox) : b.seen <+: b.take.seen := by
  obtain ⟨queue, seen⟩ := b
  cases queue with
  | nil => exact List.prefix_refl _
  | cons msg queue => exact List.prefix_append _ _

/-- What a callback has been passed, it stays passed. -/
theorem deliveryStep_seen {boxes : List Mailbox} {k : Nat} {b : Mailbox} (h : boxes[k]? = some b)
    (op : DeliveryOp) : ∃ b', (deliveryStep boxes op)[k]? = some b' ∧ b.seen <+: b'.seen ∧
      b.messages <+: b'.messages := by
  obtain ⟨b', hb', hmessages⟩ := deliveryStep_messages h op
  refine ⟨b', hb', ?_, hmessages ▸ List.prefix_append _ _⟩
  cases op with
  | arrive i msg =>
    rw [deliveryStep, List.getElem?_modify, h] at hb'
    obtain rfl := Option.some.inj hb'
    split_ifs <;> exact List.prefix_refl _
  | poll results =>
    obtain ⟨c, hc, htakes⟩ := forall₂_getElem? (pollLoop_takes results 0 boxes) h
    rw [deliveryStep, pollSubscribers, Outcome.state_catching, hc] at hb'
    obtain rfl := Option.some.inj hb'
    rcases htakes with rfl | rfl
    · exact List.prefix_refl _
    · exact b.seen_prefix_take

/-- No arrival and no round takes back what a callback has seen. -/
theorem run_seen {boxes : List Mailbox} {k : Nat} {b : Mailbox} (h : boxes[k]? = some b)
    (ops : List DeliveryOp) :
    ∃ b', (Runs.run deliveryStep boxes ops)[k]? = some b' ∧ b.seen <+: b'.seen := by
  induction ops generalizing boxes b with
  | nil => exact ⟨b, h, List.prefix_refl _⟩
  | cons op ops ih =>
    obtain ⟨c, hc, hstep, _⟩ := deliveryStep_seen h op
    obtain ⟨b', hb', hrun⟩ := ih hc
    exact ⟨b', hb', hstep.trans hrun⟩

/-- Whatever the callbacks throw, the messages that wait for a subscriber have all been passed to
its callback after as many rounds as there are messages for it and for those in front of it,
counting the ones that arrive meanwhile. -/
theorem messages_get_through {boxes : List Mailbox} {k : Nat} {b : Mailbox}
    (h : boxes[k]? = some b) {ops : List DeliveryOp}
    (hrounds : waitingUpTo k boxes + ops.countP (DeliveryOp.adds k) ≤
      ops.countP DeliveryOp.isRound) :
    ∃ b', (Runs.run deliveryStep boxes ops)[k]? = some b' ∧ b.messages <+: b'.seen := by
  induction ops generalizing boxes b with
  | nil =>
    have hqueue := length_queue_le_waitingUpTo h
    have hempty : b.queue = [] := List.eq_nil_of_length_eq_zero (by
      simp only [List.countP_nil] at hrounds
      omega)
    exact ⟨b, h, by simp [Mailbox.messages, hempty]⟩
  | cons op ops ih =>
    by_cases hempty : b.queue = []
    · obtain ⟨b', hb', hseen⟩ := run_seen h (op :: ops)
      exact ⟨b', hb', by simpa [Mailbox.messages, hempty] using hseen⟩
    · obtain ⟨c, hc, _, hmessages⟩ := deliveryStep_seen h op
      have hnext : waitingUpTo k (deliveryStep boxes op) + ops.countP (DeliveryOp.adds k) ≤
          ops.countP DeliveryOp.isRound := by
        cases op with
        | arrive i msg =>
          have hwaiting := waitingUpTo_modify_le k i msg boxes
          simp only [List.countP_cons, DeliveryOp.adds, DeliveryOp.isRound, decide_eq_true_eq,
            Bool.false_eq_true, if_false] at hrounds
          simp only [deliveryStep]
          split_ifs at hwaiting hrounds <;> omega
        | poll results =>
          have hready : b.ready = true := by simpa [Mailbox.ready] using hempty
          have hwaiting := waitingUpTo_pollLoop_lt results 0 h hready
          simp only [List.countP_cons, DeliveryOp.adds, DeliveryOp.isRound, Bool.false_eq_true,
            if_false, if_true] at hrounds
          rw [deliveryStep, pollSubscribers, Outcome.state_catching]
          omega
      obtain ⟨b', hb', hseen⟩ := ih hc hnext
      exact ⟨b', hb', hmessages.trans hseen⟩

/-- The first subscriber throws in every round, and keeps the second one waiting for one. -/
theorem messages_get_through_twoReady :
    ∃ b', (Runs.run deliveryStep twoReady [.poll fun _ => some .decodeException,
        .poll fun _ => some .decodeException])[1]? = some b' ∧
      [[0xC0]] <+: b'.seen :=
  messages_get_through (k := 1) (b := ⟨[[0xC0]], []⟩) rfl (by decide)

end ZeroLanCom
