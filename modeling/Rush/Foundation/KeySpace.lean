import Mathlib.Data.List.Infix
import Mathlib.Data.Set.Basic
import Mathlib.Tactic.Common

/-!
# Several namespaces in one key space

Entries of the namespace `p` are stored under `p ++ sep :: k`.  The namespaces
are told apart only by comparing prefixes of raw keys, so everything depends on
which namespaces can produce a raw key that starts with a given `p`.
-/

namespace Rush
namespace Foundation

variable {α : Type*}

/-- A raw key of the namespace `q` starts with `p` in two ways: `q` itself does,
or the separator of `q` and the key continue it to `p`. -/
theorem prefix_compose_iff {p q k : List α} {sep : α} :
    p <+: q ++ sep :: k ↔ p <+: q ∨ ∃ r, p = q ++ sep :: r ∧ r <+: k := by
  constructor
  · intro h
    rcases List.prefix_or_prefix_of_prefix h (List.prefix_append q (sep :: k))
      with hpq | ⟨r, rfl⟩
    · exact Or.inl hpq
    · rw [List.prefix_append_right_inj] at h
      cases r with
      | nil => exact Or.inl (by simp)
      | cons a r =>
          obtain ⟨rfl, hr⟩ := List.cons_prefix_cons.mp h
          exact Or.inr ⟨r, rfl, hr⟩
  · rintro (hpq | ⟨r, rfl, hr⟩)
    · exact hpq.trans (List.prefix_append q (sep :: k))
    · rw [List.prefix_append_right_inj]
      exact List.cons_prefix_cons.mpr ⟨rfl, hr⟩

/-- Some raw key of the namespace `q` starts with `p`. -/
def Reaches (sep : α) (q p : List α) : Prop :=
  p <+: q ∨ q ++ [sep] <+: p

theorem reaches_iff_exists {p q : List α} {sep : α} :
    Reaches sep q p ↔ ∃ k, p <+: q ++ sep :: k := by
  constructor
  · rintro (hpq | ⟨r, rfl⟩)
    · exact ⟨[], prefix_compose_iff.mpr (Or.inl hpq)⟩
    · exact ⟨r, by simp⟩
  · rintro ⟨k, hk⟩
    rcases prefix_compose_iff.mp hk with hpq | ⟨r, rfl, -⟩
    · exact Or.inl hpq
    · exact Or.inr ⟨r, by simp⟩

/-- No member is a proper prefix of another. -/
def PrefixFree (P : Set (List α)) : Prop :=
  ∀ p ∈ P, ∀ q ∈ P, p <+: q → p = q

/-- In a prefix-free family, a raw key starts with the name of its own
namespace only. -/
theorem PrefixFree.eq_of_prefix_compose {P : Set (List α)}
    (hfree : PrefixFree P) {p q k : List α} {sep : α} (hp : p ∈ P) (hq : q ∈ P)
    (h : p <+: q ++ sep :: k) : p = q := by
  rcases prefix_compose_iff.mp h with hpq | ⟨r, hr, -⟩
  · exact hfree p hp q hq hpq
  · have hqp : q <+: p := hr ▸ List.prefix_append q (sep :: r)
    exact (hfree q hq p hp hqp).symm

/-- A raw key determines its key once the namespace is known. -/
theorem compose_right_inj {p k l : List α} {sep : α} :
    p ++ sep :: k = p ++ sep :: l ↔ k = l := by
  simp

/-- Comparing raw keys of one namespace is comparing the keys. -/
theorem compare_append_left [Ord α] [Std.ReflOrd α] (p k l : List α) :
    compare (p ++ k) (p ++ l) = compare k l := by
  induction p with
  | nil => rfl
  | cons a p ih =>
      rw [List.cons_append, List.cons_append, List.compare_cons_cons,
        Std.ReflOrd.compare_self, ih]
      rfl

end Foundation
end Rush
