import Mathlib.Data.List.Infix
import Mathlib.Tactic.Common

/-!
# Lossy pipes into one inbox

Several sources send items through pipes of their own, which may lose items but
neither repeat nor reorder nor invent them. A receiver merges the pipes into one
inbox. For each pipe a cursor tells which items can still come out of it.
-/

namespace Pipes

variable {ι α : Type*}

/-- The items in order of arrival, each with the pipe it came through, and the cursors. -/
structure Inbox (ι α : Type*) where
  arrived : List (ι × α)
  cursor : ι → Nat

/-- Nothing has arrived. -/
def Inbox.empty : Inbox ι α := ⟨[], fun _ => 0⟩

variable [DecidableEq ι]

/-- The items that came through one pipe. -/
def cameThrough (k : ι) (items : List (ι × α)) : List α :=
  (items.filter fun item => item.1 = k).map Prod.snd

@[simp] theorem cameThrough_nil (k : ι) : cameThrough k ([] : List (ι × α)) = [] := rfl

/-- What came through a pipe came first in the one part, and then in the other. -/
theorem cameThrough_append (k : ι) (items more : List (ι × α)) :
    cameThrough k (items ++ more) = cameThrough k items ++ cameThrough k more := by
  simp [cameThrough]

/-- Of fewer items fewer came through each pipe, in the same order. -/
theorem cameThrough_sublist (k : ι) {items more : List (ι × α)} (h : items.Sublist more) :
    (cameThrough k items).Sublist (cameThrough k more) := (h.filter _).map _

/-- Item number `j` of a pipe arrives. Those before it that have not come are lost. -/
def Inbox.arrive (b : Inbox ι α) (k : ι) (j : Nat) (item : α) : Inbox ι α where
  arrived := b.arrived ++ [(k, item)]
  cursor := Function.update b.cursor k (j + 1)

/-- What came through each pipe is part of what was sent up to its cursor, in the same order. -/
def Inbox.InOrder (sent : ι → List α) (b : Inbox ι α) : Prop :=
  ∀ k, (cameThrough k b.arrived).Sublist ((sent k).take (b.cursor k))

variable {sent sent' : ι → List α} {b : Inbox ι α}

/-- Nothing has arrived out of order where nothing has arrived. -/
theorem inOrder_empty (sent : ι → List α) : (Inbox.empty : Inbox ι α).InOrder sent :=
  fun _ => List.nil_sublist _

/-- An item at or behind the cursor keeps the order. -/
theorem Inbox.InOrder.arrive (h : b.InOrder sent) {k : ι} {j : Nat} {item : α}
    (hj : b.cursor k ≤ j) (hitem : (sent k)[j]? = some item) :
    (b.arrive k j item).InOrder sent := by
  intro i
  by_cases hi : i = k
  · subst hi
    have hlast : (sent i).take (j + 1) = (sent i).take j ++ [item] := by
      rw [List.take_add_one, hitem, Option.toList_some]
    have hold : ((sent i).take (b.cursor i)).Sublist ((sent i).take j) :=
      (List.take_prefix_take_left hj).sublist
    simp only [Inbox.arrive, cameThrough_append, Function.update_self, hlast]
    exact ((h i).trans hold).append (by simp [cameThrough])
  · have hnone : cameThrough i [(k, item)] = [] := by simp [cameThrough, Ne.symm hi]
    simp only [Inbox.arrive, cameThrough_append, hnone, List.append_nil,
      Function.update_of_ne hi]
    exact h i

/-- Sources that send more do not disturb it. -/
theorem Inbox.InOrder.send (h : b.InOrder sent) (hmore : ∀ k, sent k <+: sent' k) :
    b.InOrder sent' := by
  intro k
  obtain ⟨more, hk⟩ := hmore k
  rw [← hk, List.take_append]
  exact (h k).trans (List.sublist_append_left _ _)

/-- The first items that arrived are in order as well, and nothing among them is made up. -/
theorem Inbox.InOrder.sublist (h : b.InOrder sent) {items : List (ι × α)}
    (hitems : items.Sublist b.arrived) (k : ι) : (cameThrough k items).Sublist (sent k) :=
  ((cameThrough_sublist k hitems).trans (h k)).trans (List.take_sublist _ _)

end Pipes
