import Mathlib.Data.List.Basic
import Mathlib.Tactic.Common

/-!
# Bounded broadcast channels

A broadcast channel retains the last `capacity` values.  Each receiver has a
cursor of its own; one that falls behind what is retained is moved to the oldest
retained value, and the values between are lost to it.
-/

namespace Rush
namespace Foundation

variable {α : Type*}

/-- All that was sent, and whether the senders are gone. -/
structure Broadcast (α : Type*) where
  sent : List α
  closed : Bool

/-- What a receiver gets. -/
inductive Received (α : Type*)
  | value (a : α)
  | lagged (missed : Nat)
  | closed
deriving DecidableEq

namespace Broadcast

/-- The position of the oldest retained value. -/
def oldest (capacity : Nat) (b : Broadcast α) : Nat := b.sent.length - capacity

/-- Receiving at a cursor, which is moved; `none` while there is nothing. -/
def recv (capacity : Nat) (b : Broadcast α) (cursor : Nat) :
    Option (Received α × Nat) :=
  if cursor < b.oldest capacity then
    some (.lagged (b.oldest capacity - cursor), b.oldest capacity)
  else
    match b.sent[cursor]? with
    | some a => some (.value a, cursor + 1)
    | none => if b.closed then some (.closed, cursor) else none

def send (b : Broadcast α) (a : α) : Broadcast α :=
  { b with sent := b.sent ++ [a] }

/-- The values that a receiver at this cursor can still get. -/
def upcoming (capacity : Nat) (b : Broadcast α) (cursor : Nat) : List α :=
  b.sent.drop (max cursor (b.oldest capacity))

/-- What one call of `recv` does, by cases. -/
inductive Recv (capacity : Nat) (b : Broadcast α) (cursor : Nat) :
    Received α → Nat → Prop
  | value (a) (hretained : b.oldest capacity ≤ cursor)
      (hsent : b.sent[cursor]? = some a) :
      Recv capacity b cursor (.value a) (cursor + 1)
  | lagged (hlost : cursor < b.oldest capacity) :
      Recv capacity b cursor (.lagged (b.oldest capacity - cursor))
        (b.oldest capacity)
  | closed (hend : b.sent.length ≤ cursor) (hclosed : b.closed = true) :
      Recv capacity b cursor .closed cursor

variable {capacity cursor cursor' : Nat} {b : Broadcast α} {a : α}

theorem recv_cases {r : Received α} (h : b.recv capacity cursor = some (r, cursor')) :
    Recv capacity b cursor r cursor' := by
  unfold recv at h
  split at h
  case isTrue hlost =>
    cases h
    exact .lagged hlost
  case isFalse hretained =>
    split at h
    case h_1 a hsent =>
      cases h
      exact .value a (by omega) hsent
    case h_2 hend =>
      split at h
      · cases h
        exact .closed (List.getElem?_eq_none_iff.mp hend) ‹_›
      · contradiction

/-- A receiver waits only at the end of an open channel. -/
theorem recv_eq_none_iff :
    b.recv capacity cursor = none ↔ b.sent.length ≤ cursor ∧ b.closed = false := by
  unfold recv
  split
  case isTrue hlost =>
    unfold oldest at hlost
    simp only [reduceCtorEq, false_iff]
    omega
  case isFalse hretained =>
    split
    case h_1 a hsent =>
      obtain ⟨hlt, -⟩ := List.getElem?_eq_some_iff.mp hsent
      simp only [reduceCtorEq, false_iff]
      omega
    case h_2 hend =>
      rw [List.getElem?_eq_none_iff] at hend
      cases hclosed : b.closed <;> simp [hend]

theorem upcoming_value (hretained : b.oldest capacity ≤ cursor)
    (hsent : b.sent[cursor]? = some a) :
    b.upcoming capacity cursor = a :: b.upcoming capacity (cursor + 1) := by
  obtain ⟨hlt, hget⟩ := List.getElem?_eq_some_iff.mp hsent
  unfold upcoming
  rw [Nat.max_eq_left hretained, Nat.max_eq_left (by omega),
    List.drop_eq_getElem_cons hlt, hget]

theorem upcoming_lagged (hlost : cursor ≤ b.oldest capacity) :
    b.upcoming capacity (b.oldest capacity) = b.upcoming capacity cursor := by
  unfold upcoming
  rw [Nat.max_self, Nat.max_eq_right hlost]

theorem upcoming_end (hend : b.sent.length ≤ cursor) :
    b.upcoming capacity cursor = [] :=
  List.drop_eq_nil_of_le (by omega)

theorem length_upcoming :
    (b.upcoming capacity cursor).length =
      b.sent.length - max cursor (b.oldest capacity) := by
  rw [upcoming, List.length_drop]

end Broadcast

end Foundation
end Rush
