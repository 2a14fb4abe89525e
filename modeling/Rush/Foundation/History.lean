import Mathlib.Data.List.Basic
import Mathlib.Tactic.Common

/-!
# Cells written by a history

A history is a list of observations of which each may write a cell.  The cell
holds what the last write has left there, and it holds a value that it did not
start with if and only if that value was written and nothing was written since.
-/

namespace Rush
namespace Foundation

variable {α ο : Type*}

/-- The content of a cell after a history; `write x` is what `x` writes. -/
def lastWrite (write : ο → Option α) : α → List ο → α
  | a, [] => a
  | a, x :: xs => lastWrite write ((write x).getD a) xs

variable {write : ο → Option α}

@[simp] theorem lastWrite_nil (a : α) : lastWrite write a [] = a := rfl

theorem lastWrite_append (a : α) (xs ys : List ο) :
    lastWrite write a (xs ++ ys) = lastWrite write (lastWrite write a xs) ys := by
  induction xs generalizing a with
  | nil => rfl
  | cons x xs ih => exact ih _

theorem lastWrite_of_none {a : α} {xs : List ο}
    (h : ∀ x ∈ xs, write x = none) : lastWrite write a xs = a := by
  induction xs with
  | nil => rfl
  | cons x xs ih =>
      show lastWrite write ((write x).getD a) xs = a
      rw [h x (by simp)]
      exact ih fun y hy => h y (List.mem_cons_of_mem x hy)

/-- A history ends with the last entry that writes, if there is one. -/
theorem exists_last_write (write : ο → Option α) (xs : List ο) :
    (∀ x ∈ xs, write x = none) ∨
      ∃ before x after b, xs = before ++ x :: after ∧ write x = some b ∧
        ∀ y ∈ after, write y = none := by
  induction xs with
  | nil => exact Or.inl (by simp)
  | cons x xs ih =>
      rcases ih with hnone | ⟨before, y, after, b, rfl, hy, hafter⟩
      · cases hx : write x with
        | none =>
            refine Or.inl fun y hy => ?_
            rcases List.mem_cons.mp hy with rfl | hy
            · exact hx
            · exact hnone y hy
        | some b => exact Or.inr ⟨[], x, xs, b, rfl, hx, hnone⟩
      · exact Or.inr ⟨x :: before, y, after, b, rfl, hy, hafter⟩

/-- **The last write decides.**  A cell that did not hold `b` at the start holds
it now if and only if `b` was written and nothing was written since. -/
theorem lastWrite_eq_iff {a b : α} {xs : List ο} (hne : a ≠ b) :
    lastWrite write a xs = b ↔
      ∃ before x after, xs = before ++ x :: after ∧ write x = some b ∧
        ∀ y ∈ after, write y = none := by
  have hlast : ∀ {before x after c}, write x = some c →
      (∀ y ∈ after, write y = none) →
      lastWrite write a (before ++ x :: after) = c := by
    intro before x after c hx hafter
    rw [lastWrite_append]
    show lastWrite write ((write x).getD _) after = c
    rw [hx]
    exact lastWrite_of_none hafter
  constructor
  · intro heq
    rcases exists_last_write write xs with
      hnone | ⟨before, x, after, c, rfl, hx, hafter⟩
    · rw [lastWrite_of_none hnone] at heq
      contradiction
    · rw [hlast hx hafter] at heq
      exact ⟨before, x, after, rfl, heq ▸ hx, hafter⟩
  · rintro ⟨before, x, after, rfl, hx, hafter⟩
    exact hlast hx hafter

end Foundation
end Rush
