import ZeroLanCom.Library.Loops
import ZeroLanCom.Nodes.NodeInfoManager

/-!
# Waiting for a service

`waitForService` polls the tables until the service is there. It keeps no
clock: it adds up the intervals it meant to sleep in an `int`, and gives up
once that sum has reached the wait. Both numbers come from the caller.
-/

namespace ZeroLanCom

open Loops

/-- What `NodeInfoManager::getServiceInfo` reads under its lock. -/
structure ServiceTable where
  nodes : NodeTable
  localNodeInfo : NodeInfo
  order : MapOrder

/-- `NodeInfoManager::getServiceInfo`, on what it reads. -/
def ServiceTable.getServiceInfo (t : ServiceTable) (serviceName : Str) : Option SocketInfo :=
  t.nodes.getServiceInfo t.localNodeInfo t.order serviceName

/-- `a + b` of two `int`s; an overflow has no defined result. -/
def addInt (a b : Int32) : Option Int32 :=
  if Int32.minValue.toInt ≤ a.toInt + b.toInt ∧ a.toInt + b.toInt ≤ Int32.maxValue.toInt then
    some (a + b)
  else none

/-- The counter of one call, and the sleeps it has asked for. -/
structure Waiting where
  waitedMs : Int32 := 0
  sleeps : List Int32 := []
  deriving DecidableEq

/-- The sum of the sleeps, in milliseconds. -/
def Waiting.requested (w : Waiting) : Int := (w.sleeps.map Int32.toInt).sum

/-- How a call ends, if it does. -/
inductive WaitEnd where
  | available
  | timeout
  | overflow
  deriving DecidableEq

/-- One round of the polling loop; each poll reads the next state of the tables. -/
def waitRound (serviceName : Str) (maxWaitMs checkIntervalMs : Int32)
    (history : Nat → ServiceTable) (w : Waiting) : Round Waiting (WaitEnd × Waiting) :=
  if w.waitedMs < maxWaitMs then
    match (history w.sleeps.length).getServiceInfo serviceName with
    | some _ => .leave (.available, w)
    | none =>
      let w := { w with sleeps := w.sleeps ++ [checkIntervalMs] }
      match addInt w.waitedMs checkIntervalMs with
      | none => .leave (.overflow, w)
      | some waitedMs => .again { w with waitedMs := waitedMs }
  else .leave (.timeout, w)

/-- `waitForService`, run for at most `fuel` rounds. -/
def waitForService (serviceName : Str) (maxWaitMs checkIntervalMs : Int32)
    (history : Nat → ServiceTable) (fuel : Nat) : Option (WaitEnd × Waiting) :=
  loop (waitRound serviceName maxWaitMs checkIntervalMs history) fuel {}

/-- The call gives up: it ends with the timeout after sleeps that make up the wait, and its
counter never overflows. -/
structure GivesUp (serviceName : Str) (maxWaitMs checkIntervalMs : Int32)
    (history : Nat → ServiceTable) : Prop where
  timeout : ∃ fuel w,
    waitForService serviceName maxWaitMs checkIntervalMs history fuel = some (.timeout, w) ∧
      maxWaitMs.toInt ≤ w.requested
  no_overflow : ∀ fuel w,
    waitForService serviceName maxWaitMs checkIntervalMs history fuel ≠ some (.overflow, w)

/-- The least multiple of a positive interval that makes up the wait. -/
def coveringWait (maxWaitMs checkIntervalMs : Int) : Int :=
  (maxWaitMs + checkIntervalMs - 1) / checkIntervalMs * checkIntervalMs

/-- A sum that does not overflow is the sum. -/
theorem toInt_of_addInt {a b c : Int32} (h : addInt a b = some c) :
    c.toInt = a.toInt + b.toInt := by
  unfold addInt at h
  split_ifs at h with hrange
  cases h
  obtain ⟨hmin, hmax⟩ := hrange
  simp only [Int32.toInt_minValue, Int32.toInt_maxValue] at hmin hmax
  rw [Int32.toInt_add, Int.bmod_eq_of_le] <;> omega

/-- The sum overflows exactly if it is no 32-bit number. -/
theorem addInt_eq_none_iff {a b : Int32} :
    addInt a b = none ↔ a.toInt + b.toInt < -2147483648 ∨ 2147483647 < a.toInt + b.toInt := by
  unfold addInt
  simp only [Int32.toInt_minValue, Int32.toInt_maxValue]
  split_ifs with hrange <;> simp <;> omega

/-- The covering wait is made up by exactly the multiples that make up the wait. -/
theorem coveringWait_le_iff {maxWaitMs checkIntervalMs : Int} (hpos : 0 < checkIntervalMs)
    (k : Int) :
    coveringWait maxWaitMs checkIntervalMs ≤ k * checkIntervalMs ↔
      maxWaitMs ≤ k * checkIntervalMs := by
  rw [coveringWait, Int.mul_le_mul_iff_of_pos_right hpos, ← Int.lt_add_one_iff,
    Int.ediv_lt_iff_lt_mul hpos, Int.add_mul, Int.one_mul]
  omega

/-- One more interval does not go beyond it before the wait is over. -/
theorem add_interval_le_coveringWait {maxWaitMs checkIntervalMs k : Int}
    (hpos : 0 < checkIntervalMs) (hlt : k * checkIntervalMs < maxWaitMs) :
    k * checkIntervalMs + checkIntervalMs ≤ coveringWait maxWaitMs checkIntervalMs := by
  have hbelow := Int.not_le.mp (mt (coveringWait_le_iff hpos k).mp (Int.not_le.mpr hlt))
  have hk := Int.lt_of_mul_lt_mul_right hbelow hpos.le
  calc k * checkIntervalMs + checkIntervalMs = (k + 1) * checkIntervalMs := by
        rw [Int.add_mul, Int.one_mul]
    _ ≤ coveringWait maxWaitMs checkIntervalMs :=
        Int.mul_le_mul_of_nonneg_right hk hpos.le

section Absent

variable {serviceName : Str} {maxWaitMs checkIntervalMs : Int32} {history : Nat → ServiceTable}

/-- The counter is the sum of the sleeps, so many intervals. -/
def Counted (checkIntervalMs : Int32) (w : Waiting) : Prop :=
  ∃ k : Nat, w.waitedMs.toInt = k * checkIntervalMs.toInt ∧ w.requested = w.waitedMs.toInt

/-- What a call that does not find its service has counted at its end. -/
def CountedEnd (maxWaitMs checkIntervalMs : Int32) : WaitEnd × Waiting → Prop
  | (.available, _) => False
  | (.timeout, w) => Counted checkIntervalMs w ∧ maxWaitMs.toInt ≤ w.waitedMs.toInt
  | (.overflow, _) => ∃ k : Nat, k * checkIntervalMs.toInt < maxWaitMs.toInt ∧
      (k * checkIntervalMs.toInt + checkIntervalMs.toInt < -2147483648 ∨
        2147483647 < k * checkIntervalMs.toInt + checkIntervalMs.toInt)

/-- Nothing has been slept or counted. -/
theorem counted_start (checkIntervalMs : Int32) : Counted checkIntervalMs {} :=
  ⟨0, by simp, by simp [Waiting.requested]⟩

/-- Every sleep is counted once. -/
theorem Counted.sleep {w : Waiting} {waitedMs : Int32} (h : Counted checkIntervalMs w)
    (hadd : addInt w.waitedMs checkIntervalMs = some waitedMs) :
    Counted checkIntervalMs ⟨waitedMs, w.sleeps ++ [checkIntervalMs]⟩ := by
  obtain ⟨k, hk, hrequested⟩ := h
  have hsum := toInt_of_addInt hadd
  refine ⟨k + 1, ?_, ?_⟩
  · rw [hsum, hk, Int.natCast_add, Int.add_mul, Int.natCast_one, Int.one_mul]
  · simp only [Waiting.requested, List.map_append, List.map_cons, List.map_nil, List.sum_append,
      List.sum_singleton] at hrequested ⊢
    rw [hsum, hrequested]

/-- These are all the things a round can do. -/
theorem waitRound_cases (maxWaitMs checkIntervalMs : Int32)
    (habsent : ∀ k, (history k).getServiceInfo serviceName = none) (w : Waiting) :
    (∃ waitedMs, w.waitedMs < maxWaitMs ∧ addInt w.waitedMs checkIntervalMs = some waitedMs ∧
      waitRound serviceName maxWaitMs checkIntervalMs history w =
        .again ⟨waitedMs, w.sleeps ++ [checkIntervalMs]⟩) ∨
    (w.waitedMs < maxWaitMs ∧ addInt w.waitedMs checkIntervalMs = none ∧
      waitRound serviceName maxWaitMs checkIntervalMs history w =
        .leave (.overflow, { w with sleeps := w.sleeps ++ [checkIntervalMs] })) ∨
    (¬ w.waitedMs < maxWaitMs ∧
      waitRound serviceName maxWaitMs checkIntervalMs history w = .leave (.timeout, w)) := by
  unfold waitRound
  split_ifs with hlt
  · rw [habsent]
    cases hadd : addInt w.waitedMs checkIntervalMs with
    | some waitedMs => exact Or.inl ⟨waitedMs, hlt, rfl, by simp [hadd]⟩
    | none => exact Or.inr (Or.inl ⟨hlt, rfl, by simp [hadd]⟩)
  · exact Or.inr (Or.inr ⟨hlt, rfl⟩)

/-- A round that goes on has added one interval. -/
theorem waitRound_again (habsent : ∀ k, (history k).getServiceInfo serviceName = none)
    {w w' : Waiting}
    (h : waitRound serviceName maxWaitMs checkIntervalMs history w = .again w') :
    w.waitedMs < maxWaitMs ∧ addInt w.waitedMs checkIntervalMs = some w'.waitedMs ∧
      w' = ⟨w'.waitedMs, w.sleeps ++ [checkIntervalMs]⟩ := by
  rcases waitRound_cases maxWaitMs checkIntervalMs habsent w with
    ⟨waitedMs, hlt, hadd, hround⟩ | ⟨_, _, hround⟩ | ⟨_, hround⟩
  · rw [hround] at h
    cases h
    exact ⟨hlt, hadd, rfl⟩
  · rw [hround] at h
    cases h
  · rw [hround] at h
    cases h

/-- A wait for a service that never comes ends with all its sleeps counted. -/
theorem countedEnd_of_endsWith (habsent : ∀ k, (history k).getServiceInfo serviceName = none)
    {r : WaitEnd × Waiting}
    (h : EndsWith (waitRound serviceName maxWaitMs checkIntervalMs history) {} r) :
    CountedEnd maxWaitMs checkIntervalMs r := by
  refine h.result (I := Counted checkIntervalMs) ?_ ?_ (counted_start checkIntervalMs)
  · intro w w' hw hround
    obtain ⟨_, hadd, heq⟩ := waitRound_again habsent hround
    rw [heq]
    exact hw.sleep hadd
  · intro w r hw hround
    rcases waitRound_cases maxWaitMs checkIntervalMs habsent w with
      ⟨_, _, _, hcase⟩ | ⟨hlt, hadd, hcase⟩ | ⟨hge, hcase⟩
    · rw [hcase] at hround
      cases hround
    · rw [hcase] at hround
      cases hround
      obtain ⟨k, hk, _⟩ := hw
      rw [addInt_eq_none_iff, hk] at hadd
      exact ⟨k, hk ▸ Int32.lt_iff_toInt_lt.mp hlt, hadd⟩
    · rw [hcase] at hround
      cases hround
      exact ⟨hw, Int.not_lt.mp (mt Int32.lt_iff_toInt_lt.mpr hge)⟩

/-- With an interval that is not zero the call ends: the counter moves towards the wait or towards
the least `int`. -/
theorem ends_of_ne_zero (maxWaitMs : Int32)
    (habsent : ∀ k, (history k).getServiceInfo serviceName = none)
    (hne : checkIntervalMs.toInt ≠ 0) :
    ∃ r, EndsWith (waitRound serviceName maxWaitMs checkIntervalMs history) {} r := by
  rcases Int.lt_or_gt_of_ne hne with hneg | hpos
  · apply exists_endsWith (I := fun _ => True) (fun w => (w.waitedMs.toInt + 2147483648).toNat)
    · intro w w' _ hround
      obtain ⟨_, hadd, _⟩ := waitRound_again habsent hround
      have hsum := toInt_of_addInt hadd
      have hbound := w'.waitedMs.le_toInt
      exact ⟨trivial, by omega⟩
    · trivial
  · apply exists_endsWith (I := fun _ => True)
      (fun w => (maxWaitMs.toInt - w.waitedMs.toInt).toNat)
    · intro w w' _ hround
      obtain ⟨hlt, hadd, _⟩ := waitRound_again habsent hround
      have hsum := toInt_of_addInt hadd
      have hbelow := Int32.lt_iff_toInt_lt.mp hlt
      exact ⟨trivial, by omega⟩
    · trivial

/-- Without a wait the call gives up at once. -/
theorem ends_of_no_wait (hmax : maxWaitMs.toInt ≤ 0) :
    EndsWith (waitRound serviceName maxWaitMs checkIntervalMs history) {} (.timeout, {}) := by
  have hround : waitRound serviceName maxWaitMs checkIntervalMs history {} =
      .leave (.timeout, {}) := by
    refine if_neg fun hlt => ?_
    have hbelow := Int32.lt_iff_toInt_lt.mp hlt
    exact absurd hbelow (Int.not_lt.mpr hmax)
  exact (endsWith_of_leave hround).mpr rfl

/-- With an interval of zero the call sleeps for ever. -/
theorem waitForService_hangs_iff (habsent : ∀ k, (history k).getServiceInfo serviceName = none) :
    (∀ fuel, waitForService serviceName maxWaitMs checkIntervalMs history fuel = none) ↔
      0 < maxWaitMs.toInt ∧ checkIntervalMs.toInt = 0 := by
  constructor
  · intro hnone
    by_contra hnot
    have hends : ∃ r,
        EndsWith (waitRound serviceName maxWaitMs checkIntervalMs history) {} r := by
      by_cases hmax : maxWaitMs.toInt ≤ 0
      · exact ⟨_, ends_of_no_wait hmax⟩
      · exact ends_of_ne_zero maxWaitMs habsent fun hzero => hnot ⟨Int.not_le.mp hmax, hzero⟩
    obtain ⟨r, fuel, hr⟩ := hends
    have hfuel := hnone fuel
    rw [waitForService, hr] at hfuel
    cases hfuel
  · rintro ⟨hmax, hzero⟩ fuel
    refine loop_eq_none (I := fun w => w.waitedMs.toInt = 0) ?_ (by simp) fuel
    intro w hw
    rcases waitRound_cases maxWaitMs checkIntervalMs habsent w with
      ⟨waitedMs, _, hadd, hround⟩ | ⟨_, hadd, _⟩ | ⟨hge, _⟩
    · have hsum := toInt_of_addInt hadd
      exact ⟨_, hround, by simp only; omega⟩
    · rw [addInt_eq_none_iff] at hadd
      omega
    · exact absurd (Int32.lt_iff_toInt_lt.mpr (hw ▸ hmax)) hge

/-- The call ends with the timeout exactly if there is nothing to wait for, or the interval is
positive and the counter has room for the least multiple of it that makes up the wait. -/
theorem timeout_iff (maxWaitMs checkIntervalMs : Int32)
    (habsent : ∀ k, (history k).getServiceInfo serviceName = none) :
    (∃ w, EndsWith (waitRound serviceName maxWaitMs checkIntervalMs history) {} (.timeout, w)) ↔
      maxWaitMs.toInt ≤ 0 ∨ 0 < checkIntervalMs.toInt ∧
        coveringWait maxWaitMs.toInt checkIntervalMs.toInt ≤ 2147483647 := by
  constructor
  · rintro ⟨w, hw⟩
    obtain ⟨⟨k, hk, _⟩, hcovered⟩ := countedEnd_of_endsWith habsent hw
    by_cases hmax : maxWaitMs.toInt ≤ 0
    · exact Or.inl hmax
    · have hproduct : 0 < (k : Int) * checkIntervalMs.toInt := by omega
      have hpos : 0 < checkIntervalMs.toInt :=
        pos_of_mul_pos_right hproduct (Int.natCast_nonneg k)
      have hcovering := (coveringWait_le_iff hpos k).mpr (hk ▸ hcovered)
      have hbound := w.waitedMs.toInt_lt
      exact Or.inr ⟨hpos, by omega⟩
  · rintro (hmax | ⟨hpos, hroom⟩)
    · exact ⟨_, ends_of_no_wait hmax⟩
    · obtain ⟨⟨kind, w⟩, hr⟩ := ends_of_ne_zero maxWaitMs habsent hpos.ne'
      have hcounted := countedEnd_of_endsWith habsent hr
      cases kind with
      | available => exact hcounted.elim
      | timeout => exact ⟨w, hr⟩
      | overflow =>
        obtain ⟨k, hlt, hover⟩ := hcounted
        have hnext := add_interval_le_coveringWait hpos hlt
        have hnonneg : 0 ≤ (k : Int) * checkIntervalMs.toInt :=
          Int.mul_nonneg (Int.natCast_nonneg k) hpos.le
        omega

/-- Every other call runs into an overflow: below with a negative interval, above with one whose
multiples pass over the last `int`s. -/
theorem overflow_iff (habsent : ∀ k, (history k).getServiceInfo serviceName = none) :
    (∃ w, EndsWith (waitRound serviceName maxWaitMs checkIntervalMs history) {} (.overflow, w)) ↔
      0 < maxWaitMs.toInt ∧ checkIntervalMs.toInt ≠ 0 ∧ (0 < checkIntervalMs.toInt →
        2147483647 < coveringWait maxWaitMs.toInt checkIntervalMs.toInt) := by
  have htimeout := timeout_iff maxWaitMs checkIntervalMs habsent
  constructor
  · rintro ⟨w, hw⟩
    have hno : ¬ ∃ w, EndsWith (waitRound serviceName maxWaitMs checkIntervalMs history) {}
        (.timeout, w) := by
      rintro ⟨w', hw'⟩
      cases hw.unique hw'
    rw [htimeout] at hno
    have hne : checkIntervalMs.toInt ≠ 0 := by
      intro hzero
      obtain ⟨k, hlt, hover⟩ := countedEnd_of_endsWith habsent hw
      rw [hzero, Int.mul_zero] at hover
      omega
    exact ⟨by omega, hne, fun hpos => by omega⟩
  · rintro ⟨hmax, hne, hfull⟩
    obtain ⟨⟨kind, w⟩, hr⟩ := ends_of_ne_zero maxWaitMs habsent hne
    cases kind with
    | available => exact (countedEnd_of_endsWith habsent hr).elim
    | timeout =>
      obtain hnone | ⟨hpos, hroom⟩ := htimeout.mp ⟨w, hr⟩
      · omega
      · exact absurd (hfull hpos) (Int.not_lt.mpr hroom)
    | overflow => exact ⟨w, hr⟩

/-- If the service never appears, the call gives up exactly if there is nothing to wait for, or
the interval is positive and its least multiple that makes up the wait is an `int`. -/
theorem waitForService_givesUp_iff
    (habsent : ∀ k, (history k).getServiceInfo serviceName = none) :
    GivesUp serviceName maxWaitMs checkIntervalMs history ↔
      maxWaitMs.toInt ≤ 0 ∨ 0 < checkIntervalMs.toInt ∧
        coveringWait maxWaitMs.toInt checkIntervalMs.toInt ≤ 2147483647 := by
  rw [← timeout_iff maxWaitMs checkIntervalMs habsent]
  constructor
  · intro h
    obtain ⟨fuel, w, hw, _⟩ := h.timeout
    exact ⟨w, fuel, hw⟩
  · rintro ⟨w, fuel, hw⟩
    have hends : EndsWith (waitRound serviceName maxWaitMs checkIntervalMs history) {}
        (.timeout, w) := ⟨fuel, hw⟩
    obtain ⟨⟨k, _, hrequested⟩, hcovered⟩ := countedEnd_of_endsWith habsent hends
    refine ⟨⟨fuel, w, hw, hrequested ▸ hcovered⟩, fun fuel' w' hw' => ?_⟩
    have hsame := hends.unique ⟨fuel', hw'⟩
    cases hsame

end Absent

/-- No other node, and no service of the own. -/
def ServiceTable.empty : ServiceTable := ⟨.empty, default, .stored⟩

/-- Nothing is found in an empty table. -/
theorem ServiceTable.getServiceInfo_empty (serviceName : Str) :
    ServiceTable.empty.getServiceInfo serviceName = none := rfl

/-- The defaults of `zlc::request` give up after a second. -/
theorem default_wait_givesUp :
    GivesUp (ascii "EchoService") 1000 10 fun _ => ServiceTable.empty :=
  (waitForService_givesUp_iff fun _ => ServiceTable.getServiceInfo_empty _).mpr
    (Or.inr (by decide))

/-- An interval of zero lets a call that was to take a second at most poll for ever. -/
theorem zero_interval_never_gives_up :
    ServiceTable.empty.getServiceInfo (ascii "EchoService") = none ∧
      ¬ GivesUp (ascii "EchoService") 1000 0 fun _ => ServiceTable.empty := by
  refine ⟨ServiceTable.getServiceInfo_empty _, fun h => ?_⟩
  obtain ⟨fuel, w, hw, _⟩ := h.timeout
  have hnone := (waitForService_hangs_iff fun _ =>
    ServiceTable.getServiceInfo_empty (ascii "EchoService")).mpr
      (⟨by decide, by decide⟩ : 0 < (1000 : Int32).toInt ∧ (0 : Int32).toInt = 0) fuel
  rw [hw] at hnone
  cases hnone

end ZeroLanCom
