import Mathlib.Data.List.TakeWhile
import ZeroLanCom.Sockets.Client

/-!
# From the name frame to the handler

Clients send the bytes of a service name as they are, and handlers are kept
under whole names. In between, the server reads a name like a C string, up to a
zero byte and no more than 1024 bytes of it.
-/

namespace ZeroLanCom

/-- The server reads the whole name from its frame. -/
def ReadWhole (s : Str) : Prop := 0 ∉ s ∧ s.length ≤ 1024

/-- Exactly the names read to their end are the names that were sent. -/
theorem decodeServiceHeader_eq_self_iff {s : Str} : decodeServiceHeader s = s ↔ ReadWhole s := by
  unfold decodeServiceHeader ReadWhole
  constructor
  · intro h
    constructor
    · intro hzero
      rw [← h] at hzero
      exact absurd (List.mem_takeWhile_imp hzero) (by decide)
    · calc s.length = ((s.take 1024).takeWhile (· ≠ 0)).length := by rw [h]
        _ ≤ (s.take 1024).length := (List.takeWhile_sublist _).length_le
        _ ≤ 1024 := List.length_take_le 1024 s
  · rintro ⟨hzero, hshort⟩
    rw [List.take_of_length_le hshort, List.takeWhile_eq_self_iff]
    intro b hb
    have hne : b ≠ 0 := fun he => hzero (he ▸ hb)
    simpa using hne

/-- What the try block of `handleRequest` makes of the result of a handler. -/
def handlerResponse : Except Exn Bytes → Except Exn Response
  | .ok out => .ok { code := .SUCCESS, payload := out }
  | .error .decodeException => .ok { code := .INVALID_RESPONSE }
  | .error .encodeException => .ok { code := .INVALID_REQUEST }
  | .error e => if e.isStd then .ok { code := .SERVICE_FAIL } else .error e

/-- A name that has a handler is answered by that handler. -/
theorem handleRequest_of_lookup {handlers : Handlers} {name : Str}
    {handler : Bytes → Except Exn Bytes} (h : handlers.lookup name = some handler)
    (payload : Bytes) :
    handleRequest handlers name payload = handlerResponse (handler payload) := by
  cases hresult : handler payload with
  | ok out => simp [handleRequest, handlerResponse, h, hresult]
  | error e => cases e <;> simp [handleRequest, handlerResponse, h, hresult]

/-- A name that has none is answered NOSERVICE. -/
theorem handleRequest_of_lookup_none {handlers : Handlers} {name : Str}
    (h : handlers.lookup name = none) (payload : Bytes) :
    handleRequest handlers name payload = .ok { code := .NOSERVICE } := by
  rw [handleRequest, h]

/-- The name of the registration that a request with this name frame reaches. -/
def reachedName (handlers : Handlers) (nameFrame : Bytes) : Option Str :=
  if (handlers.lookup (decodeServiceHeader nameFrame)).isSome then
    some (decodeServiceHeader nameFrame)
  else none

/-- A request for the service reaches the handler registered under exactly its name, and without
one it is answered NOSERVICE. -/
structure Routed (handlers : Handlers) (s : Str) : Prop where
  extracted : decodeServiceHeader s = s
  served : ∀ handler, handlers.lookup s = some handler → ∀ payload,
    handleRequest handlers (decodeServiceHeader s) payload = handlerResponse (handler payload)
  refused : handlers.lookup s = none → ∀ payload,
    handleRequest handlers (decodeServiceHeader s) payload = .ok { code := .NOSERVICE }

/-- A name read to its end reaches the handler registered under it. -/
theorem routed_of_readWhole (handlers : Handlers) {s : Str} (h : ReadWhole s) :
    Routed handlers s := by
  have hname := decodeServiceHeader_eq_self_iff.mpr h
  refine ⟨hname, fun handler hlookup => ?_, fun hlookup => ?_⟩
  · rw [hname]
    exact handleRequest_of_lookup hlookup
  · rw [hname]
    exact handleRequest_of_lookup_none hlookup

/-- A request reaches nothing but what is registered under the name read from its frame. -/
theorem eq_of_reachedName {handlers : Handlers} {nameFrame name : Str}
    (h : reachedName handlers nameFrame = some name) : decodeServiceHeader nameFrame = name := by
  unfold reachedName at h
  split_ifs at h
  exact Option.some.inj h

/-- Names are read whole exactly if they have no zero byte and at most 1024 bytes. Requests for
these reach the handlers under exactly their names, and no two of them the same one. -/
theorem name_routing (handlers : Handlers) (s : Str) :
    (decodeServiceHeader s = s ↔ ReadWhole s) ∧
      (ReadWhole s → Routed handlers s ∧ ∀ t, ReadWhole t → t ≠ s →
        ∀ name, reachedName handlers s = some name → reachedName handlers t ≠ some name) := by
  refine ⟨decodeServiceHeader_eq_self_iff, fun h => ⟨routed_of_readWhole handlers h, ?_⟩⟩
  intro t ht hne name hs hsame
  apply hne
  calc t = decodeServiceHeader t := (decodeServiceHeader_eq_self_iff.mpr ht).symm
    _ = name := eq_of_reachedName hsame
    _ = decodeServiceHeader s := (eq_of_reachedName hs).symm
    _ = s := decodeServiceHeader_eq_self_iff.mpr h

/-- One service. -/
def stopHandlers : Handlers := (∅ : Handlers).insert (ascii "stop") fun _ => .ok []

/-- The name of another one, with a zero byte in it. -/
def stopLaterName : Str := ascii "stop" ++ 0 :: ascii "later"

/-- A request for the other one is not answered NOSERVICE: it stops. -/
theorem zero_byte_misroutes :
    ¬ Routed stopHandlers stopLaterName ∧
      reachedName stopHandlers stopLaterName = reachedName stopHandlers (ascii "stop") := by
  constructor
  · intro h
    have hrefused := h.refused (by decide) []
    exact absurd hrefused (by decide)
  · decide

end ZeroLanCom
