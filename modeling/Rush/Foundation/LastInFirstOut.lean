import Mathlib.Data.List.Nodup

/-!
# Last in, first out

What is opened one after the other and closed from the end: `pending` is what is
still open, the last one first.  Nothing is opened twice.
-/

namespace Rush
namespace Foundation

variable {α : Type*} [DecidableEq α]

/-- What has been opened and not closed, the last one first. -/
def pending (opened closed : List α) : List α :=
  (opened.filter fun x => x ∉ closed).reverse

variable {opened closed rest : List α} {x : α}

theorem mem_pending : x ∈ pending opened closed ↔ x ∈ opened ∧ x ∉ closed := by
  simp [pending]

@[simp] theorem pending_nil (closed : List α) : pending [] closed = [] := rfl

theorem pending_eq_nil : pending opened closed = [] ↔ ∀ x ∈ opened, x ∈ closed := by
  simp [pending]

theorem pending_append (earlier later closed : List α) :
    pending (earlier ++ later) closed =
      pending later closed ++ pending earlier closed := by
  simp [pending]

theorem pending_open (hnew : x ∉ closed) :
    pending (opened ++ [x]) closed = x :: pending opened closed := by
  rw [pending_append]
  simp [pending, hnew]

theorem pending_nodup (hnodup : opened.Nodup) : (pending opened closed).Nodup :=
  List.nodup_reverse.mpr (hnodup.filter _)

theorem pending_close (hnodup : opened.Nodup)
    (hhead : pending opened closed = x :: rest) :
    pending opened (closed ++ [x]) = rest := by
  have hrest : (x :: rest).Nodup := hhead ▸ pending_nodup hnodup
  have hfilter : pending opened (closed ++ [x]) =
      (pending opened closed).filter fun y => y ≠ x := by
    simp only [pending, ← List.filter_reverse, List.filter_filter]
    refine List.filter_congr fun y _ => ?_
    simp [and_comm]
  rw [hfilter, hhead, List.filter_cons_of_neg (by simp)]
  refine List.filter_eq_self.mpr fun y hy => ?_
  have hne : y ≠ x := fun heq => (List.nodup_cons.mp hrest).1 (heq ▸ hy)
  simpa using hne

/-- What was opened after the first pending one is closed. -/
theorem closed_of_later {before after : List α}
    (hnodup : (before ++ x :: after).Nodup)
    (hhead : pending (before ++ x :: after) closed = x :: rest) :
    ∀ y ∈ after, y ∈ closed := by
  have hlater : x ∉ after :=
    (List.nodup_cons.mp (List.nodup_append.mp hnodup).2.1).1
  have hsplit : pending (before ++ x :: after) closed =
      pending after closed ++ pending (before ++ [x]) closed := by
    rw [← pending_append, List.append_assoc, List.singleton_append]
  have hnone : pending after closed = [] := by
    cases hafter : pending after closed with
    | nil => rfl
    | cons y ys =>
        rw [hsplit, hafter, List.cons_append] at hhead
        obtain ⟨rfl, -⟩ := List.cons_eq_cons.mp hhead
        have hmem : y ∈ pending after closed := by simp [hafter]
        exact absurd (mem_pending.mp hmem).1 hlater
  exact pending_eq_nil.mp hnone

end Foundation
end Rush
