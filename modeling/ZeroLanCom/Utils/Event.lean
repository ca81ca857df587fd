import ZeroLanCom.Library.Outcome
import ZeroLanCom.Library.ZeroMq

/-!
# Exceptions and events

The exception classes the catch clauses of the sources tell apart, and the
`Event` class: callbacks run in the order they were subscribed, on the state
`σ` they share, and the first exception reaches the caller of `trigger`.
-/

namespace ZeroLanCom

open Throwing

/-- Exceptions by the class a catch clause sees; `foreign` does not derive from
`std::exception`. -/
inductive Exn where
  | errorT (num : ZeroMq.Errno)
  | decodeException
  | encodeException
  | stdException
  | foreign
  deriving DecidableEq, Repr

/-- `catch (const std::exception &)` takes it. -/
def Exn.isStd : Exn → Bool
  | .foreign => false
  | _ => true

/-- `catch (const zmq::error_t &)` takes it. -/
def Exn.isZmqError : Exn → Bool
  | .errorT _ => true
  | _ => false

/-- `Event<Args...>` with the callbacks subscribed so far. -/
structure Event (α σ : Type*) where
  callbacks : List (α → σ → Outcome Exn σ)

variable {α σ : Type*}

/-- `Event::subscribe`: the new callback comes behind all others. -/
def Event.subscribe (e : Event α σ) (callback : α → σ → Outcome Exn σ) : Event α σ :=
  ⟨e.callbacks ++ [callback]⟩

/-- `Event::trigger`. -/
def Event.trigger (e : Event α σ) (arg : α) (s : σ) : Outcome Exn σ :=
  forEach (fun callback => callback arg) e.callbacks s

/-- An event with one subscriber is that subscriber. -/
theorem Event.trigger_single (callback : α → σ → Outcome Exn σ) (arg : α) (s : σ) :
    (Event.mk [callback]).trigger arg s = callback arg s := by
  rw [trigger, forEach_cons]
  cases callback arg s <;> rfl

/-- All callbacks return normally, on every argument and state. -/
def Event.Returns (e : Event α σ) : Prop := ∀ arg s, ∃ s', e.trigger arg s = .done s'

end ZeroLanCom
