import Mathlib.Logic.Function.Basic
import ZeroLanCom.Sockets.Delivery

/-!
# Poll rounds step by step

`SubscriberManager::pollOnce` takes its poll items and its pointers to the
subscribers under `mutex_`, and waits and calls callbacks without it. Between
any two of its steps messages may arrive, updates may be processed, and a
registration may move the subscribers, after which its pointers dangle.
-/

namespace ZeroLanCom

open Throwing

/-- Where the poll task is in `SubscriberManager::pollOnce`. -/
inductive PollRound where
  /-- Between two rounds. -/
  | idle
  /-- At `zmq::poll`, with items for that many subscribers. -/
  | polling (items : Nat)
  /-- In the loop, in front of item `i`, with `revents & ZMQ_POLLIN` of it and of those behind. -/
  | walking (i : Nat) (ready : List Bool)
  deriving DecidableEq, Repr

/-- The poll task of a process, with the mailboxes of the subscribers by their positions. -/
structure Poller where
  round : PollRound
  boxes : Nat → Mailbox

/-- The steps of `pollOnce`, in a process with `count` subscribers. The loop uses its pointers only
while no registration has added a subscriber since they were taken: what it does with pointers that
dangle is undefined, and a round is followed no further than that. -/
inductive PollStep (unlocked : Prop) (count : Nat) : Poller → Poller → Prop
  /-- The items and the pointers are taken under `mutex_`. -/
  | collect (boxes : Nat → Mailbox) (hunlocked : unlocked) :
    PollStep unlocked count ⟨.idle, boxes⟩ ⟨.polling count, boxes⟩
  /-- `zmq::poll` returns, if only because its time is over. -/
  | polled (boxes : Nat → Mailbox) (items : Nat) :
    PollStep unlocked count ⟨.polling items, boxes⟩
      ⟨.walking 0 ((List.range items).map fun i => (boxes i).ready), boxes⟩
  | pollThrows (boxes : Nat → Mailbox) (items : Nat) :
    PollStep unlocked count ⟨.polling items, boxes⟩ ⟨.idle, boxes⟩
  | skip (boxes : Nat → Mailbox) (i : Nat) (ready : List Bool) :
    PollStep unlocked count ⟨.walking i (false :: ready), boxes⟩ ⟨.walking (i + 1) ready, boxes⟩
  /-- A message is received, and its callback returns. -/
  | deliver (boxes : Nat → Mailbox) (i : Nat) (ready : List Bool)
      (hvalid : i + (ready.length + 1) = count) :
    PollStep unlocked count ⟨.walking i (true :: ready), boxes⟩
      ⟨.walking (i + 1) ready, Function.update boxes i (boxes i).take⟩
  /-- Its callback throws. -/
  | callbackThrows (boxes : Nat → Mailbox) (i : Nat) (ready : List Bool)
      (hvalid : i + (ready.length + 1) = count) :
    PollStep unlocked count ⟨.walking i (true :: ready), boxes⟩
      ⟨.idle, Function.update boxes i (boxes i).take⟩
  | recvThrows (boxes : Nat → Mailbox) (i : Nat) (ready : List Bool)
      (hvalid : i + (ready.length + 1) = count) :
    PollStep unlocked count ⟨.walking i (true :: ready), boxes⟩ ⟨.idle, boxes⟩
  | ends (boxes : Nat → Mailbox) (i : Nat) :
    PollStep unlocked count ⟨.walking i [], boxes⟩ ⟨.idle, boxes⟩

namespace PollStep

variable {unlocked : Prop} {count : Nat} {p p' : Poller}

/-- A message that is received moves from the queue to the callback. -/
theorem messages_update_take (boxes : Nat → Mailbox) (i j : Nat) :
    (Function.update boxes i (boxes i).take j).messages = (boxes j).messages := by
  rw [Function.update_apply]
  split_ifs with hj
  · rw [hj, Mailbox.messages_take]
  · rfl

/-- No step of a round loses a message, or makes one up. -/
theorem messages (hstep : PollStep unlocked count p p') (j : Nat) :
    (p'.boxes j).messages = (p.boxes j).messages := by
  cases hstep with
  | deliver boxes i ready hvalid => exact messages_update_take boxes i j
  | callbackThrows boxes i ready hvalid => exact messages_update_take boxes i j
  | _ => rfl

end PollStep

/-- What the poll has found ready has a message to receive when the loop comes to it. -/
def Poller.Sound (p : Poller) : Prop :=
  ∀ i ready, p.round = .walking i ready →
    ∀ k, ready[k]? = some true → (p.boxes (i + k)).ready = true

namespace Poller

variable {unlocked : Prop} {count : Nat} {p p' : Poller}

/-- Between two rounds nothing has been found ready. -/
theorem sound_idle (boxes : Nat → Mailbox) : Sound ⟨.idle, boxes⟩ := fun _ _ hround => by
  cases hround

/-- Behind the first item. -/
theorem Sound.tail {boxes boxes' : Nat → Mailbox} {i : Nat} {head : Bool} {ready : List Bool}
    (h : Sound ⟨.walking i (head :: ready), boxes⟩) (hrest : ∀ j, i < j → boxes' j = boxes j) :
    Sound ⟨.walking (i + 1) ready, boxes'⟩ := by
  intro i' ready' hround k hk
  cases hround
  have hbehind := h i (head :: ready) rfl (k + 1) hk
  simp only at hbehind ⊢
  rw [hrest _ (by omega), Nat.add_assoc, Nat.add_comm 1 k]
  exact hbehind

/-- Only the poll task receives, so a socket stays ready until the loop comes to it. -/
theorem Sound.step (h : p.Sound) (hstep : PollStep unlocked count p p') : p'.Sound := by
  cases hstep with
  | collect boxes hunlocked => exact fun _ _ hround => by cases hround
  | polled boxes items =>
    intro i ready hround k hk
    cases hround
    obtain ⟨j, hj, hready⟩ := Option.map_eq_some_iff.mp ((List.getElem?_map ..).symm.trans hk)
    obtain ⟨hlt, rfl⟩ := List.getElem?_eq_some_iff.mp hj
    rw [List.getElem_range] at hready
    rw [Nat.zero_add]
    exact hready
  | pollThrows boxes items => exact sound_idle boxes
  | skip boxes i ready => exact h.tail fun _ _ => rfl
  | deliver boxes i ready hvalid =>
    exact h.tail fun j hj => Function.update_of_ne (by omega) _ _
  | callbackThrows boxes i ready hvalid => exact sound_idle _
  | recvThrows boxes i ready hvalid => exact sound_idle boxes
  | ends boxes i => exact sound_idle boxes

/-- A message that arrives meanwhile makes nothing less ready. -/
theorem Sound.arrive (h : p.Sound) (j : Nat) (msg : Bytes) :
    Sound ⟨p.round, Function.update p.boxes j ((p.boxes j).arrive msg)⟩ := by
  intro i ready hround k hk
  have hready := h i ready hround k hk
  simp only [Function.update_apply]
  split_ifs with hj
  · simp [Mailbox.ready, Mailbox.arrive]
  · exact hready

end Poller

/-- The mailboxes after the loop of a round has gone over `n` subscribers from `i` on. -/
def loopBoxes (results : CallbackResults) (i n : Nat) (boxes : Nat → Mailbox) : Nat → Mailbox :=
  fun j =>
    if j < i then boxes j
    else (pollLoop results i ((List.range' i n).map boxes)).state[j - i]?.getD (boxes j)

/-- `SubscriberManager::pollOnce` on the first `count` mailboxes. -/
def pollBoxes (results : CallbackResults) (count : Nat) (boxes : Nat → Mailbox) : Nat → Mailbox :=
  fun i => (pollSubscribers results ((List.range count).map boxes)).state[i]?.getD (boxes i)

section Uninterrupted

variable {unlocked : Prop} {count : Nat} {results : CallbackResults}

/-- A whole round is its loop, from the first subscriber on. -/
theorem pollBoxes_eq_loopBoxes (results : CallbackResults) (count : Nat) (boxes : Nat → Mailbox) :
    pollBoxes results count boxes = loopBoxes results 0 count boxes := by
  funext j
  rw [pollBoxes, loopBoxes, if_neg (Nat.not_lt_zero j), pollSubscribers, Outcome.state_catching,
    List.range_eq_range', Nat.sub_zero]

/-- Behind the first item the loop goes on as if it had begun there. -/
theorem loopBoxes_of_head {i n : Nat} {boxes boxes' : Nat → Mailbox}
    (hloop : (pollLoop results i ((List.range' i (n + 1)).map boxes)).state =
      boxes' i :: (pollLoop results (i + 1) ((List.range' (i + 1) n).map boxes)).state)
    (hrest : ∀ j, j ≠ i → boxes' j = boxes j) :
    loopBoxes results i (n + 1) boxes = loopBoxes results (i + 1) n boxes' := by
  have hbehind : (List.range' (i + 1) n).map boxes' = (List.range' (i + 1) n).map boxes := by
    refine List.map_congr_left fun j hj => hrest j ?_
    have := (List.mem_range'_1.mp hj).1
    omega
  funext j
  rw [loopBoxes, loopBoxes, hloop, hbehind]
  rcases Nat.lt_trichotomy j i with hlt | rfl | hgt
  · rw [if_pos hlt, if_pos (by omega), hrest j (by omega)]
  · rw [if_neg (Nat.lt_irrefl j), if_pos (by omega), Nat.sub_self, List.getElem?_cons_zero,
      Option.getD_some]
  · rw [if_neg (by omega), if_neg (by omega), show j - i = j - (i + 1) + 1 by omega,
      List.getElem?_cons_succ, hrest j (by omega)]

/-- A callback that throws leaves everything behind it as it was. -/
theorem loopBoxes_of_throw {i n : Nat} {boxes : Nat → Mailbox} {e : Exn}
    (hready : (boxes i).ready = true) (hresult : results i = some e) :
    loopBoxes results i (n + 1) boxes = Function.update boxes i (boxes i).take := by
  have hbehind : ∀ k, ((List.range' (i + 1) n).map boxes)[k]?.getD (boxes (i + 1 + k)) =
      boxes (i + 1 + k) := by
    intro k
    rw [List.getElem?_map]
    cases hk : (List.range' (i + 1) n)[k]? with
    | none => rfl
    | some j =>
      obtain ⟨hlt, rfl⟩ := List.getElem?_eq_some_iff.mp hk
      rw [List.getElem_range', Nat.one_mul]
      rfl
  funext j
  rw [loopBoxes, List.range'_succ, List.map_cons, pollLoop, if_pos hready, hresult]
  rcases Nat.lt_trichotomy j i with hlt | rfl | hgt
  · rw [if_pos hlt, Function.update_of_ne (by omega)]
  · simp
  · obtain ⟨k, rfl⟩ := Nat.exists_eq_add_of_lt hgt
    rw [if_neg (by omega), Function.update_of_ne (by omega), Nat.add_right_comm,
      show i + 1 + k - i = k + 1 by omega]
    exact hbehind k

/-- A loop that nobody interrupts ends with the mailboxes as `pollLoop` leaves them. -/
theorem reach_loopBoxes {i n : Nat} {boxes : Nat → Mailbox} (hvalid : i + n = count) :
    Relation.ReflTransGen (PollStep unlocked count)
      ⟨.walking i ((List.range' i n).map fun j => (boxes j).ready), boxes⟩
      ⟨.idle, loopBoxes results i n boxes⟩ := by
  induction n generalizing i boxes with
  | zero =>
    have hnone : loopBoxes results i 0 boxes = boxes := by
      funext j
      simp [loopBoxes, pollLoop]
    rw [hnone]
    exact .single (.ends boxes i)
  | succ n ih =>
    rw [List.range'_succ, List.map_cons]
    have hlength : i + (((List.range' (i + 1) n).map fun j => (boxes j).ready).length + 1) =
        count := by
      rw [List.length_map, List.length_range']
      exact hvalid
    cases hready : (boxes i).ready with
    | false =>
      have hloop : loopBoxes results i (n + 1) boxes = loopBoxes results (i + 1) n boxes :=
        loopBoxes_of_head (by simp [List.range'_succ, pollLoop, hready]) fun _ _ => rfl
      rw [hloop]
      exact .head (.skip boxes i _) (ih (by omega))
    | true =>
      cases hresult : results i with
      | none =>
        have hrest : ∀ j, j ≠ i → Function.update boxes i (boxes i).take j = boxes j :=
          fun j hj => Function.update_of_ne hj _ _
        have hloop : loopBoxes results i (n + 1) boxes =
            loopBoxes results (i + 1) n (Function.update boxes i (boxes i).take) := by
          refine loopBoxes_of_head ?_ hrest
          rw [Function.update_self]
          simp [List.range'_succ, pollLoop, hready, hresult]
        have hsame : (List.range' (i + 1) n).map (fun j => (boxes j).ready) =
            (List.range' (i + 1) n).map
              fun j => (Function.update boxes i (boxes i).take j).ready := by
          refine List.map_congr_left fun j hj => ?_
          have := (List.mem_range'_1.mp hj).1
          rw [hrest j (by omega)]
        rw [hloop]
        refine .head (.deliver boxes i _ hlength) ?_
        rw [hsame]
        exact ih (by omega)
      | some e =>
        rw [loopBoxes_of_throw hready hresult]
        exact .single (.callbackThrows boxes i _ hlength)

/-- A round that nobody interrupts does what `pollSubscribers` says. -/
theorem reach_pollBoxes (results : CallbackResults) (boxes : Nat → Mailbox)
    (hunlocked : unlocked) :
    Relation.ReflTransGen (PollStep unlocked count) ⟨.idle, boxes⟩
      ⟨.idle, pollBoxes results count boxes⟩ := by
  rw [pollBoxes_eq_loopBoxes]
  refine .head (.collect boxes hunlocked) (.head (.polled boxes count) ?_)
  rw [List.range_eq_range']
  exact reach_loopBoxes (Nat.zero_add count)

end Uninterrupted

end ZeroLanCom
