import ZeroLanCom.Utils.PoolTasks

/-!
# Waiting for the pool

A thread in `wait` sleeps until the queue is empty and no worker is between a
dequeue and its decrement, whatever was enqueued in the meantime. Each worker
wakes one sleeper behind its decrement, and a thread that returns from `wait`
wakes nobody.
-/

namespace ZeroLanCom

namespace Pool

variable {κ : Type*} {n : Nat} {s s' : Pool κ n}

/-- With nothing left to do and no notification to come, nobody sleeps in `wait`. -/
def NoneForgotten (s : Pool κ n) : Prop :=
  s.IsDone → (∀ w, s.workers w ≠ .notifying) → ∀ c, (s.clients c).isWaiting = false

instance [Fintype κ] (s : Pool κ n) : Decidable s.NoneForgotten :=
  inferInstanceAs (Decidable (_ → _ → _))

/-- The last notification finds at most one thread asleep. -/
def OneWaits (s : Pool κ n) : PoolAct κ n → Prop
  | .notifyDone w woken =>
    s.workers w = .notifying → s.NotifiesClient woken → s.IsDone →
      (∀ v, s.workers v = .notifying → v = w) →
        ∀ c d, (s.clients c).isWaiting = true → (s.clients d).isWaiting = true → c = d
  | _ => True

variable [DecidableEq κ] {a : PoolAct κ n}

/-- The last decrement is followed by a notification. -/
theorem Moves.isDone (h : Moves s a s') (hdone : s'.IsDone)
    (hquiet : ∀ w, s'.workers w ≠ .notifying) : s.IsDone := by
  cases h with
  | push => exact absurd hdone.1 (by simp)
  | take => exact absurd hdone.2 (Nat.succ_ne_zero _)
  | decrement => exact absurd (Function.update_self ..) (hquiet _)
  | @notifyOne _ woken => cases woken <;> exact hdone
  | @notifyDone _ woken => cases woken <;> exact hdone
  | _ => exact hdone

/-- Nothing but the notification of a worker can leave a waiting thread behind. -/
theorem NoneForgotten.moves (hs : s.NoneForgotten) (h : Moves s a s')
    (hother : ∀ w woken, a ≠ .notifyDone w woken) : s'.NoneForgotten := by
  intro hdone hquiet c
  have hdone₀ := h.isDone hdone hquiet
  have hquiet₀ : ∀ w, s.workers w ≠ .notifying := by
    intro w hw
    have hmove := h.worker w
    have hnot := hquiet w
    rw [hw] at hmove
    generalize s'.workers w = phase at hmove hnot
    cases hmove with
    | stay => exact hnot rfl
    | again ha => exact hother w _ ha
  have hawake := hs hdone₀ hquiet₀ c
  have hmove := h.client c
  generalize s.clients c = phase at hmove hawake
  generalize s'.clients c = phase' at hmove
  cases hmove with
  | stay => exact hawake
  | sleep _ _ hbusy => exact absurd hdone₀ hbusy
  | _ => rfl

/-- What the notification of one worker leaves behind. -/
theorem noneForgotten_notifyDone_iff {w : Fin n} {woken : Option κ}
    (hnotifying : s.workers w = .notifying) (hwoken : s.NotifiesClient woken) :
    ((woken.elim s s.wakeClient).setWorker w .testing).NoneForgotten ↔
      s.OneWaits (.notifyDone w woken) := by
  have hquiet : (∀ v, Function.update s.workers w .testing v ≠ .notifying) ↔
      ∀ v, s.workers v = .notifying → v = w := by
    refine forall_congr' fun v => ?_
    by_cases hv : v = w
    · simp [hv]
    · simp [hv, Function.update_of_ne]
  cases woken with
  | none =>
    refine iff_of_true (fun _ _ => hwoken) fun _ _ _ _ c d hc _ => ?_
    have hnone : (s.clients c).isWaiting = false := hwoken c
    rw [hc] at hnone
    cases hnone
  | some e =>
    constructor
    · intro hforgotten _ _ hdone hlast
      have honly : ∀ c, (s.clients c).isWaiting = true → c = e := by
        intro c hc
        by_contra hne
        have hnone : (Function.update s.clients e (s.clients e).woken c).isWaiting = false :=
          hforgotten hdone (hquiet.mpr hlast) c
        rw [Function.update_of_ne hne, hc] at hnone
        cases hnone
      intro c d hc hd
      rw [honly c hc, honly d hd]
    · intro hone hdone hlast c
      change (Function.update s.clients e (s.clients e).woken c).isWaiting = false
      by_cases hc : c = e
      · rw [hc, Function.update_self]
        cases s.clients e <;> rfl
      · rw [Function.update_of_ne hc, ← Bool.not_eq_true]
        intro hwaiting
        exact hc (hone hnotifying hwoken hdone (hquiet.mp hlast) c e hwaiting hwoken)

variable [Fintype κ]

/-- That one does exactly if more than one thread waits for it. -/
theorem noneForgotten_next_iff (hs : s.NoneForgotten) (a : PoolAct κ n) :
    (s.next a).NoneForgotten ↔ s.OneWaits a := by
  refine next_iff_of_moves hs (fun hnone => ?_) fun s' hmoves => ?_
  · cases a with
    | notifyDone w woken =>
      intro hnotifying hwoken
      rw [step, if_pos ⟨hnotifying, hwoken⟩] at hnone
      cases hnone
    | _ => trivial
  · cases a with
    | notifyDone w woken =>
      cases hmoves with
      | notifyDone hnotifying hwoken => exact noneForgotten_notifyDone_iff hnotifying hwoken
    | _ => exact iff_of_true (hs.moves hmoves (by simp)) trivial

/-- No thread is left asleep in `wait`, exactly if no last notification finds two of them. -/
theorem no_lost_wakeup_iff (acts : List (PoolAct κ n)) :
    Runs.Always next NoneForgotten (started : Pool κ n) acts ↔
      Runs.Each next OneWaits started acts := by
  have hstart : (started : Pool κ n).NoneForgotten := fun _ _ _ => rfl
  exact Runs.always_iff_each (P := NoneForgotten) (C := OneWaits) (I := fun _ => True)
    (fun _ _ _ => trivial) (fun _ a _ hs => noneForgotten_next_iff hs a) trivial hstart acts

/-- Two threads wait for the task of a third. -/
def twoWait : List (PoolAct (Fin 3) 3) :=
  [.enqueue 2, .push 2, .notifyOne 2 none, .wait 0, .check 0, .wait 1, .check 1, .take 0,
    .execute 0 none, .decrement 0, .notifyDone 0 (some 0), .check 0, .take 0, .take 1, .take 2]

/-- One has returned and the other sleeps on, with every thread of the pool at rest. -/
theorem second_waiter_sleeps :
    ¬ Runs.Always next NoneForgotten (started : Pool (Fin 3) 3) twoWait := by
  intro halways
  exact absurd (Runs.always_iff_take.mp halways 15) (by decide)

section Scope

variable {κ : Type*} {n : Nat} {s s' : Pool κ n}

/-- With the tasks from before its call finished, no `wait` is held back. -/
def NotHeldBack (s : Pool κ n) : Prop :=
  ∀ c since, (s.clients c).pending = some since → (∀ k < since, k ∈ s.finished) → s.IsDone

/-- No push comes between the last of a waiting thread's tasks and its return, and that last task
leaves no later one unfinished. -/
def KeepsScope (s : Pool κ n) : PoolAct κ n → Prop
  | .push c =>
    s.clients c = .accepted → ∀ d since, (s.clients d).pending = some since →
      ∃ k < since, k ∉ s.finished
  | .decrement w =>
    ∀ k, s.workers w = .executed k → ∀ c since, (s.clients c).pending = some since →
      (∀ j < since, j ∈ s.finished ∨ j = k) → ∀ j < s.pushed, j ∈ s.finished ∨ j = k
  | _ => True

/-- Only pushed tasks are finished. -/
theorem Balanced.lt_of_finished (h : s.Balanced) {k : Nat} (hk : k ∈ s.finished) :
    k < s.pushed := by
  apply h.lt_of_dequeued
  have hpos := List.count_pos_iff.mpr hk
  have hdequeued := h.count_dequeued k
  omega

/-- There is nothing left to do when all pushed tasks are finished. -/
theorem Balanced.isDone_iff (h : s.Balanced) :
    s.IsDone ↔ ∀ k < s.pushed, k ∈ s.finished := by
  refine ⟨fun hdone k hk => h.finished_of_isDone hdone hk, fun hfinished => ⟨?_, ?_⟩⟩
  · refine List.eq_nil_iff_forall_not_mem.mpr fun k hqueued => ?_
    have hk : k < s.pushed := by
      rw [← List.mem_range, ← h.fifo]
      exact List.mem_append_right _ hqueued
    have hpos := List.count_pos_iff.mpr hqueued
    have hfin := List.count_pos_iff.mpr (hfinished k hk)
    have hpushed := h.count_pushed hk
    have hdequeued := h.count_dequeued k
    omega
  · rw [h.active, Multiset.card_eq_zero]
    refine Multiset.eq_zero_of_forall_notMem fun k hhand => ?_
    have hpos := Multiset.count_pos.mpr hhand
    have hdequeued := h.count_dequeued k
    have hk : k < s.pushed := h.lt_of_dequeued (by omega)
    have hfin := List.count_pos_iff.mpr (hfinished k hk)
    have hpushed := h.count_pushed hk
    omega

/-- In the terms that the steps change one at a time. -/
theorem Balanced.notHeldBack_iff (h : s.Balanced) : s.NotHeldBack ↔
    ∀ c since, (s.clients c).pending = some since → (∀ k < since, k ∈ s.finished) →
      ∀ k < s.pushed, k ∈ s.finished := by
  simp only [NotHeldBack, h.isDone_iff]

/-- A wait that is pending was pending before, or has just been called. -/
theorem ClientMoves.pending {a : PoolAct κ n} {c : κ} {phase phase' : ClientPhase}
    (h : ClientMoves s a c phase phase') {since : Nat} (hpending : phase'.pending = some since) :
    phase.pending = some since ∨ since = s.pushed := by
  cases h with
  | wait => exact Or.inr (Option.some.inj hpending).symm
  | stay => exact Or.inl hpending
  | sleep => exact Or.inl hpending
  | wake => exact Or.inl hpending
  | _ => cases hpending

/-- The end of a task holds nobody back unless later tasks are left when it was the last that a
thread has waited for. -/
theorem notHeldBack_decrement_iff (hbalanced : s.Balanced) {w : Fin n} {k : Nat}
    (hexecuted : s.workers w = .executed k) :
    NotHeldBack { s with
      workers := Function.update s.workers w .notifying
      activeTasks := s.activeTasks - 1
      finished := s.finished ++ [k] } ↔ s.KeepsScope (.decrement w) := by
  rw [(hbalanced.decrement hexecuted).notHeldBack_iff]
  simp only [List.mem_append, List.mem_singleton]
  constructor
  · intro hheld j hj
    rw [hexecuted] at hj
    obtain rfl := WorkerPhase.executed.inj hj
    exact hheld
  · intro hkeeps
    exact hkeeps k hexecuted

variable [DecidableEq κ] {a : PoolAct κ n}

/-- Only the decrement finishes a task. -/
theorem Moves.finished (h : Moves s a s') (hdecrement : ∀ w, a ≠ .decrement w) :
    s'.finished = s.finished := by
  cases h with
  | decrement => exact absurd rfl (hdecrement _)
  | @notifyOne _ woken => cases woken <;> rfl
  | @notifyDone _ woken => cases woken <;> rfl
  | _ => rfl

/-- Besides pushes and decrements nothing can hold a waiting thread back. -/
theorem NotHeldBack.moves (hs : s.NotHeldBack) (hbalanced : s.Balanced) (h : Moves s a s')
    (hpush : ∀ c, a ≠ .push c) (hdecrement : ∀ w, a ≠ .decrement w) : s'.NotHeldBack := by
  rw [(hbalanced.moves h).notHeldBack_iff, h.pushed hpush, h.finished hdecrement]
  rw [hbalanced.notHeldBack_iff] at hs
  intro c since hpending hall
  rcases (h.client c).pending hpending with hbefore | hcalled
  · exact hs c since hbefore hall
  · rwa [← hcalled]

/-- The pushed task is not finished. -/
theorem notHeldBack_push_iff (hbalanced : s.Balanced) {c : κ}
    (haccepted : s.clients c = .accepted) :
    NotHeldBack { s with
      clients := Function.update s.clients c .pushed
      tasks := s.tasks ++ [s.pushed]
      pushed := s.pushed + 1 } ↔ s.KeepsScope (.push c) := by
  rw [(hbalanced.push c .pushed).notHeldBack_iff]
  have hlater : ¬ ∀ k < s.pushed + 1, k ∈ s.finished := by
    intro hall
    exact absurd (hbalanced.lt_of_finished (hall s.pushed (Nat.lt_succ_self _))) (lt_irrefl _)
  have hsame : ∀ d since, (Function.update s.clients c .pushed d).pending = some since ↔
      (s.clients d).pending = some since := by
    intro d since
    by_cases hd : d = c
    · rw [hd, Function.update_self, haccepted]
      rfl
    · rw [Function.update_of_ne hd]
  constructor
  · intro hheld _ d since hpending
    by_contra hnone
    refine hlater (hheld d since ((hsame d since).mpr hpending) fun k hk => ?_)
    by_contra hnot
    exact hnone ⟨k, hk, hnot⟩
  · intro hkeeps d since hpending hall
    obtain ⟨k, hk, hnot⟩ := hkeeps haccepted d since ((hsame d since).mp hpending)
    exact absurd (hall k hk) hnot

variable [Fintype κ]

/-- A step holds a waiting thread back exactly if it does not keep its scope. -/
theorem notHeldBack_next_iff (hbalanced : s.Balanced) (hs : s.NotHeldBack) (a : PoolAct κ n) :
    (s.next a).NotHeldBack ↔ s.KeepsScope a := by
  refine next_iff_of_moves hs (fun hnone => ?_) fun s' hmoves => ?_
  · cases a with
    | push c => exact fun haccepted => absurd hnone (step_push_ne_none haccepted)
    | decrement w =>
      intro k hexecuted
      simp only [step, hexecuted] at hnone
      cases hnone
    | _ => trivial
  · cases a with
    | push c =>
      cases hmoves with
      | push haccepted => exact notHeldBack_push_iff hbalanced haccepted
    | decrement w =>
      cases hmoves with
      | decrement hexecuted => exact notHeldBack_decrement_iff hbalanced hexecuted
    | _ => exact iff_of_true (hs.moves hbalanced hmoves (by simp) (by simp)) trivial

/-- The comment on `wait` holds, exactly if nothing comes behind the tasks of a waiting thread
before it returns. -/
theorem wait_scope_iff (acts : List (PoolAct κ n)) :
    Runs.Always next NotHeldBack (started : Pool κ n) acts ↔
      Runs.Each next KeepsScope started acts :=
  Runs.always_iff_each (P := NotHeldBack) (C := KeepsScope) (I := Balanced)
    (fun _ a h => balanced_next h a) (fun _ a h hs => notHeldBack_next_iff h hs a)
    balanced_started (fun _ _ hpending => nomatch hpending) acts

end Scope

/-- A thread waits for a task, and another enqueues a second one before the first is done. -/
def enqueuedBehindWait : List (PoolAct (Fin 3) 3) :=
  [.enqueue 1, .push 1, .notifyOne 1 none, .wait 0, .check 0, .take 0, .enqueue 1, .push 1,
    .notifyOne 1 none, .execute 0 none, .decrement 0]

/-- The thread is held back by the second task. -/
theorem held_back_by_later_task :
    ¬ Runs.Always next NotHeldBack (started : Pool (Fin 3) 3) enqueuedBehindWait := by
  intro halways
  exact absurd (Runs.always_iff_take.mp halways 11 0 1 rfl (by decide)) (by decide)

end Pool

end ZeroLanCom
