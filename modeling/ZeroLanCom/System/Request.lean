import ZeroLanCom.Sockets.Client
import ZeroLanCom.System.WaitForService

/-!
# Requests that wait for their service

`zlc::request` first polls for the service and then makes the call, whether the
wait found anything or not. Every poll and the call itself read the tables
anew, and the tables change in between. The wait ends by itself; the call comes
back only if its peer answers, for a REQ socket has no timeout.
-/

namespace ZeroLanCom

open Loops

section Wait

variable {maxWaitMs checkIntervalMs : Int32} {serviceName : Str} {history : Nat → ServiceTable}

/-- How many polls fit into the wait. -/
def pollCount (maxWaitMs checkIntervalMs : Int32) : Nat :=
  ((maxWaitMs.toInt + checkIntervalMs.toInt - 1) / checkIntervalMs.toInt).toNat

/-- The first poll that finds the service, if one does. -/
def firstFound (serviceName : Str) (history : Nat → ServiceTable) (polls : Nat) : Option Nat :=
  (List.range polls).find? fun k => ((history k).getServiceInfo serviceName).isSome

/-- After so many sleeps. -/
def waited (checkIntervalMs : Int32) (k : Nat) : Waiting :=
  ⟨Int32.ofInt (k * checkIntervalMs.toInt), List.replicate k checkIntervalMs⟩

/-- The poll that ends the wait, or its timeout. -/
def waitResult (serviceName : Str) (history : Nat → ServiceTable)
    (maxWaitMs checkIntervalMs : Int32) : WaitEnd × Waiting :=
  match firstFound serviceName history (pollCount maxWaitMs checkIntervalMs) with
  | some k => (.available, waited checkIntervalMs k)
  | none => (.timeout, waited checkIntervalMs (pollCount maxWaitMs checkIntervalMs))

/-- It is the poll that finds the service after none before has. -/
theorem firstFound_eq_some_iff {polls k : Nat} :
    firstFound serviceName history polls = some k ↔
      k < polls ∧ ((history k).getServiceInfo serviceName).isSome ∧
        ∀ j < k, (history j).getServiceInfo serviceName = none := by
  rw [firstFound, List.find?_eq_some_iff_getElem]
  simp only [List.getElem_range, List.length_range, Bool.not_eq_true', Option.isSome_eq_false_iff,
    Option.isNone_iff_eq_none]
  constructor
  · rintro ⟨hhere, i, hi, rfl, hbefore⟩
    exact ⟨hi, hhere, hbefore⟩
  · rintro ⟨hk, hhere, hbefore⟩
    exact ⟨hhere, k, hk, rfl, hbefore⟩

/-- The polls before are over when the wait is. -/
theorem pollCount_le_iff (hpos : 0 < checkIntervalMs.toInt) (k : Nat) :
    pollCount maxWaitMs checkIntervalMs ≤ k ↔ maxWaitMs.toInt ≤ k * checkIntervalMs.toInt := by
  rw [pollCount, Int.toNat_le, ← coveringWait_le_iff hpos, coveringWait]
  exact (Int.mul_le_mul_iff_of_pos_right hpos).symm

/-- The counter has room for every sleep of the wait. -/
theorem waited_toInt (hpos : 0 < checkIntervalMs.toInt)
    (hroom : coveringWait maxWaitMs.toInt checkIntervalMs.toInt ≤ 2147483647) {k : Nat}
    (hk : k ≤ pollCount maxWaitMs checkIntervalMs) :
    (waited checkIntervalMs k).waitedMs.toInt = k * checkIntervalMs.toInt := by
  have hnonneg : 0 ≤ (k : Int) * checkIntervalMs.toInt :=
    Int.mul_nonneg (Int.natCast_nonneg k) hpos.le
  have hle : (k : Int) * checkIntervalMs.toInt ≤ 2147483647 := by
    cases k with
    | zero => simp
    | succ k =>
      have hbefore : (k : Int) * checkIntervalMs.toInt < maxWaitMs.toInt := by
        rw [← Int.not_le, ← pollCount_le_iff hpos]
        omega
      have hnext := add_interval_le_coveringWait hpos hbefore
      rw [Int.natCast_add, Int.add_mul, Int.natCast_one, Int.one_mul]
      omega
  exact Int32.toInt_ofInt_of_le (by omega) (by omega)

/-- A poll that finds nothing is followed by a sleep. -/
theorem waitRound_waited (hpos : 0 < checkIntervalMs.toInt)
    (hroom : coveringWait maxWaitMs.toInt checkIntervalMs.toInt ≤ 2147483647) {k : Nat}
    (hk : k < pollCount maxWaitMs checkIntervalMs) :
    waitRound serviceName maxWaitMs checkIntervalMs history (waited checkIntervalMs k) =
      match (history k).getServiceInfo serviceName with
      | some _ => .leave (.available, waited checkIntervalMs k)
      | none => .again (waited checkIntervalMs (k + 1)) := by
  have hnow := waited_toInt hpos hroom hk.le
  have hnext := waited_toInt hpos hroom (Nat.succ_le_of_lt hk)
  rw [Nat.succ_eq_add_one, Int.natCast_add, Int.add_mul, Int.natCast_one, Int.one_mul, ← hnow]
    at hnext
  have hlt : (waited checkIntervalMs k).waitedMs < maxWaitMs := by
    rw [Int32.lt_iff_toInt_lt, hnow, ← Int.not_le, ← pollCount_le_iff hpos]
    omega
  have hlength : (waited checkIntervalMs k).sleeps.length = k := List.length_replicate
  rw [waitRound, if_pos hlt, hlength]
  cases (history k).getServiceInfo serviceName with
  | some _ => rfl
  | none =>
    have hadd : addInt (waited checkIntervalMs k).waitedMs checkIntervalMs =
        some (waited checkIntervalMs (k + 1)).waitedMs := by
      cases haddInt : addInt (waited checkIntervalMs k).waitedMs checkIntervalMs with
      | none =>
        have hleast := (waited checkIntervalMs (k + 1)).waitedMs.le_toInt
        have hgreatest := (waited checkIntervalMs (k + 1)).waitedMs.toInt_lt
        rw [addInt_eq_none_iff] at haddInt
        omega
      | some waitedMs =>
        have hsum := toInt_of_addInt haddInt
        rw [Option.some.injEq, ← Int32.toInt_inj, hsum, hnext]
    simp only [hadd]
    simp only [waited, List.replicate_succ']

/-- The wait ends with the first poll that finds the service, or with the timeout behind the last
poll, after a sleep for every poll before. -/
theorem endsWith_waitRound (hpos : 0 < checkIntervalMs.toInt)
    (hroom : coveringWait maxWaitMs.toInt checkIntervalMs.toInt ≤ 2147483647)
    (r : WaitEnd × Waiting) :
    EndsWith (waitRound serviceName maxWaitMs checkIntervalMs history) {} r ↔
      r = waitResult serviceName history maxWaitMs checkIntervalMs := by
  have hwalk : ∀ k ≤ pollCount maxWaitMs checkIntervalMs,
      (∀ j < k, (history j).getServiceInfo serviceName = none) →
        (EndsWith (waitRound serviceName maxWaitMs checkIntervalMs history) {} r ↔
          EndsWith (waitRound serviceName maxWaitMs checkIntervalMs history)
            (waited checkIntervalMs k) r) := by
    intro k hk habsent
    have hstart : waited checkIntervalMs 0 = {} := by simp [waited]
    rw [← hstart]
    refine endsWith_of_walk (f := waited checkIntervalMs) fun j hj => ?_
    rw [waitRound_waited hpos hroom (by omega), habsent j hj]
  unfold waitResult firstFound
  cases hfound : (List.range (pollCount maxWaitMs checkIntervalMs)).find?
      fun k => ((history k).getServiceInfo serviceName).isSome with
  | none =>
    have habsent : ∀ j < pollCount maxWaitMs checkIntervalMs,
        (history j).getServiceInfo serviceName = none := by
      intro j hj
      have hj' := List.find?_eq_none.mp hfound j (List.mem_range.mpr hj)
      simpa using hj'
    rw [hwalk _ (Nat.le_refl _) habsent, endsWith_of_leave, eq_comm]
    refine if_neg fun hlt => ?_
    rw [Int32.lt_iff_toInt_lt, waited_toInt hpos hroom (Nat.le_refl _), ← Int.not_le,
      ← pollCount_le_iff hpos] at hlt
    exact hlt (Nat.le_refl _)
  | some k =>
    obtain ⟨hk, hhere, hbefore⟩ := firstFound_eq_some_iff.mp hfound
    obtain ⟨serviceInfo, hservice⟩ := Option.isSome_iff_exists.mp hhere
    have hround : waitRound serviceName maxWaitMs checkIntervalMs history
        (waited checkIntervalMs k) = .leave (.available, waited checkIntervalMs k) := by
      rw [waitRound_waited hpos hroom hk, hservice]
    rw [hwalk k hk.le hbefore, endsWith_of_leave hround, eq_comm]

/-- With a positive interval and room in the counter, the wait ends in one way whatever becomes of
the service: with the first poll that finds it, or with the timeout behind the last poll, after a
sleep for every poll that found nothing. -/
theorem waitForService_exact (hpos : 0 < checkIntervalMs.toInt)
    (hroom : coveringWait maxWaitMs.toInt checkIntervalMs.toInt ≤ 2147483647)
    (r : WaitEnd × Waiting) :
    (∃ fuel, waitForService serviceName maxWaitMs checkIntervalMs history fuel = some r) ↔
      r = waitResult serviceName history maxWaitMs checkIntervalMs :=
  endsWith_waitRound hpos hroom r

end Wait

/-- A node that has the service behind its third poll. -/
def lateTable : ServiceTable where
  nodes := .empty
  localNodeInfo := { services := [⟨ascii "echo", ascii "10.0.0.2", 6000⟩] }
  order := .stored

/-- Nothing is there for the first three polls. -/
def lateHistory (k : Nat) : ServiceTable := if k < 3 then .empty else lateTable

/-- The wait for thirty milliseconds has just missed it. -/
theorem waitForService_exact_late : (∃ fuel, waitForService (ascii "echo") 30 10 lateHistory fuel =
    some (.timeout, waited 10 3)) ∧
      ∃ fuel, waitForService (ascii "echo") 40 10 lateHistory fuel =
        some (.available, waited 10 3) :=
  ⟨(waitForService_exact (by decide) (by decide) _).mpr rfl,
    (waitForService_exact (by decide) (by decide) _).mpr rfl⟩

section Request

variable {ρ₁ ρ₂ : Type}

/-- The reads of the tables before the call reads them. -/
def readsOf : WaitEnd × Waiting → Nat
  | (.available, w) => w.sleeps.length + 1
  | (_, w) => w.sleeps.length

/-- Whether `Client::zlcRequest` comes back, where the peer at a URL answers some requests and
leaves others without a reply: `recv` blocks for good on those. A service nobody offers, a URL that
`connect` refuses and a request that does not encode never get that far. -/
def callReturns (net : Network) (answers : Str → List Bytes → Bool) (requestType : MsgPack ρ₁)
    (t : ServiceTable) (serviceName : Str) (req : ρ₁) : Bool :=
  match t.getServiceInfo serviceName with
  | none => true
  | some serviceInfo =>
    if !net.accepts serviceInfo.url then true
    else match requestType.encode req with
      | .error _ => true
      | .ok out => answers serviceInfo.url [serviceName, out]

/-- `zlc::request`, whose wait is run for at most `fuel` rounds with the default arguments. It has
no result where the fuel runs out, or where the call does not come back. -/
def request (net : Network) (answers : Str → List Bytes → Bool) (requestType : MsgPack ρ₁)
    (responseType : MsgPack ρ₂) (history : Nat → ServiceTable) (serviceName : Str) (req : ρ₁)
    (res : ρ₂) (fuel : Nat) : Option (Except Exn ρ₂) :=
  (waitForService serviceName 1000 10 history fuel).bind fun waitEnd =>
    let t := history (readsOf waitEnd)
    if callReturns net answers requestType t serviceName req then
      some (zlcRequest net requestType responseType t.nodes t.localNodeInfo t.order serviceName req
        res)
    else none

/-- Which state of the tables the call goes by. -/
def readByRequest (serviceName : Str) (history : Nat → ServiceTable) : Nat :=
  match firstFound serviceName history 100 with
  | some k => k + 1
  | none => 100

/-- Where the wait ends decides which state of the tables the call reads. -/
theorem readsOf_waitResult (serviceName : Str) (history : Nat → ServiceTable) :
    readsOf (waitResult serviceName history 1000 10) = readByRequest serviceName history := by
  have hpolls : pollCount 1000 10 = 100 := rfl
  rw [waitResult, readByRequest, hpolls]
  cases firstFound serviceName history 100 with
  | none => exact List.length_replicate
  | some k => exact congrArg Nat.succ List.length_replicate

/-- The wait of a request always ends. The request then comes back exactly if its call does, and as
that does, on the tables right after the first of a hundred polls that finds the service, or after
all of them. Nothing stops the call if the service is gone again by then, or has never been
there. -/
theorem request_exact (net : Network) (answers : Str → List Bytes → Bool)
    (requestType : MsgPack ρ₁) (responseType : MsgPack ρ₂) (history : Nat → ServiceTable)
    (serviceName : Str) (req : ρ₁) (res : ρ₂) :
    (∃ fuel waitEnd, waitForService serviceName 1000 10 history fuel = some waitEnd) ∧
      ∀ result : Except Exn ρ₂,
        (∃ fuel, request net answers requestType responseType history serviceName req res fuel =
            some result) ↔
          callReturns net answers requestType (history (readByRequest serviceName history))
              serviceName req = true ∧
            result = zlcRequest net requestType responseType
              (history (readByRequest serviceName history)).nodes
              (history (readByRequest serviceName history)).localNodeInfo
              (history (readByRequest serviceName history)).order serviceName req res := by
  have hwait : ∀ waitEnd, EndsWith (waitRound serviceName 1000 10 history) {} waitEnd ↔
      waitEnd = waitResult serviceName history 1000 10 :=
    endsWith_waitRound (by decide) (by decide)
  obtain ⟨fuel, hfuel⟩ := (hwait _).mpr rfl
  refine ⟨⟨fuel, _, hfuel⟩, fun result => ?_⟩
  rw [← readsOf_waitResult]
  constructor
  · rintro ⟨rounds, hrounds⟩
    obtain ⟨waitEnd, hend, hcall⟩ := Option.bind_eq_some_iff.mp hrounds
    rw [(hwait waitEnd).mp ⟨rounds, hend⟩] at hcall
    dsimp only at hcall
    split_ifs at hcall with hreturns
    exact ⟨hreturns, (Option.some.inj hcall).symm⟩
  · rintro ⟨hreturns, rfl⟩
    refine ⟨fuel, ?_⟩
    rw [request, waitForService, hfuel, Option.bind_some, if_pos hreturns]

end Request

end ZeroLanCom
