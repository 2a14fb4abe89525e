import Std.Data.ExtTreeMap
import Mathlib.Data.List.Basic
import Mathlib.Data.List.Infix
import Mathlib.Tactic.Common

/-!
# Ordered maps through their sorted enumeration

`Std.ExtTreeMap` gives the map operations and the ascending enumeration
`toList`.  This file adds the two facts that reasoning about iterators needs:
a strictly ascending list is determined by its members, and the last entry of
the enumeration is the entry with the greatest key.
-/

namespace Rush
namespace Foundation

variable {κ β : Type*} {cmp : κ → κ → Ordering} [Std.TransCmp cmp]

/-- Entries in strictly ascending key order. -/
def Ascending (cmp : κ → κ → Ordering) (entries : List (κ × β)) : Prop :=
  entries.Pairwise fun a b => cmp a.1 b.1 = .lt

theorem ascending_toList (m : Std.ExtTreeMap κ β cmp) :
    Ascending cmp m.toList :=
  Std.ExtTreeMap.ordered_keys_toList

/-- A key is in the map when it has a value. -/
theorem mem_iff_exists_getElem? {m : Std.ExtTreeMap κ β cmp} {k : κ} :
    k ∈ m ↔ ∃ v, m[k]? = some v := by
  rw [Std.ExtTreeMap.mem_iff_isSome_getElem?, Option.isSome_iff_exists]

/-- Only the empty map has no last entry. -/
theorem getLast?_toList_eq_none_iff {m : Std.ExtTreeMap κ β cmp} :
    m.toList.getLast? = none ↔ m = ∅ := by
  rw [List.getLast?_eq_none_iff, Std.ExtTreeMap.toList_eq_nil_iff]

/-- Two ascending enumerations with the same members are equal. -/
theorem Ascending.ext {xs ys : List (κ × β)} (hxs : Ascending cmp xs)
    (hys : Ascending cmp ys) (hmem : ∀ e, e ∈ xs ↔ e ∈ ys) : xs = ys := by
  have hne : ∀ {a b : κ × β}, cmp a.1 b.1 = .lt → a ≠ b := by
    rintro a b hlt rfl
    exact Std.OrientedCmp.not_lt_of_lt hlt hlt
  have hperm : xs.Perm ys :=
    (List.perm_ext_iff_of_nodup (hxs.imp hne) (hys.imp hne)).mpr hmem
  refine hperm.eq_of_pairwise ?_ hxs hys
  intro a b _ _ hab hba
  exact (Std.OrientedCmp.not_lt_of_lt hab hba).elim

section Lawful

variable [Std.LawfulEqCmp cmp]

theorem getElem?_insert_eq (m : Std.ExtTreeMap κ β cmp) (k : κ) (v : β)
    (a : κ) [Decidable (a = k)] :
    (m.insert k v)[a]? = if a = k then some v else m[a]? := by
  rw [Std.ExtTreeMap.getElem?_insert]
  by_cases h : a = k
  · simp [h, Std.ReflCmp.compare_self]
  · rw [if_neg h, if_neg]
    exact fun heq => h (Std.LawfulEqCmp.eq_of_compare heq).symm

theorem getElem?_erase_eq (m : Std.ExtTreeMap κ β cmp) (k a : κ)
    [Decidable (a = k)] :
    (m.erase k)[a]? = if a = k then none else m[a]? := by
  rw [Std.ExtTreeMap.getElem?_erase]
  by_cases h : a = k
  · simp [h, Std.ReflCmp.compare_self]
  · rw [if_neg h, if_neg]
    exact fun heq => h (Std.LawfulEqCmp.eq_of_compare heq).symm

theorem erase_eq_self {m : Std.ExtTreeMap κ β cmp} {k : κ} (h : m[k]? = none) :
    m.erase k = m := by
  classical
  apply Std.ExtTreeMap.ext_getElem?
  intro a
  rw [getElem?_erase_eq]
  by_cases ha : a = k
  · rw [if_pos ha, ha, h]
  · rw [if_neg ha]

/-- Removing keys one after the other removes just these. -/
theorem getElem?_foldl_erase [DecidableEq κ] (keys : List κ)
    (m : Std.ExtTreeMap κ β cmp) (a : κ) :
    (keys.foldl Std.ExtTreeMap.erase m)[a]? = if a ∈ keys then none else m[a]? := by
  induction keys generalizing m with
  | nil => simp
  | cons k keys ih =>
      rw [List.foldl_cons, ih, getElem?_erase_eq]
      by_cases hk : a = k <;> simp [hk]

/-- The enumeration of a map is the only ascending list of its entries. -/
theorem toList_eq_of_ascending {m : Std.ExtTreeMap κ β cmp}
    {xs : List (κ × β)} (hxs : Ascending cmp xs)
    (hmem : ∀ k v, (k, v) ∈ xs ↔ m[k]? = some v) : m.toList = xs := by
  refine (ascending_toList m).ext hxs ?_
  rintro ⟨k, v⟩
  rw [hmem, Std.ExtTreeMap.mem_toList_iff_getElem?_eq_some]

@[simp] theorem toList_insert_empty (k : κ) (v : β) :
    ((∅ : Std.ExtTreeMap κ β cmp).insert k v).toList = [(k, v)] := by
  refine toList_eq_of_ascending (List.pairwise_singleton _ _) ?_
  intro k' v'
  rw [Std.ExtTreeMap.getElem?_insert]
  by_cases hk : k = k'
  · simp [← hk, Std.ReflCmp.compare_self, eq_comm]
  · have hk' : ¬ k' = k := fun h => hk h.symm
    simp [Std.LawfulEqCmp.compare_eq_iff_eq, hk, hk']

/-- The last enumerated entry is the one with the greatest key. -/
theorem getLast?_toList_eq_some_iff {m : Std.ExtTreeMap κ β cmp} {k : κ}
    {v : β} :
    m.toList.getLast? = some (k, v) ↔
      m[k]? = some v ∧ ∀ k' ∈ m, k' ≠ k → cmp k' k = .lt := by
  constructor
  · intro hlast
    obtain ⟨front, hsplit⟩ := List.getLast?_eq_some_iff.mp hlast
    have hmem : (k, v) ∈ m.toList := by simp [hsplit]
    refine ⟨Std.ExtTreeMap.mem_toList_iff_getElem?_eq_some.mp hmem, ?_⟩
    intro k' hk' hne
    obtain ⟨v', hv'⟩ := mem_iff_exists_getElem?.mp hk'
    have hmem' : (k', v') ∈ front ++ [(k, v)] := by
      rw [← hsplit]
      exact Std.ExtTreeMap.mem_toList_iff_getElem?_eq_some.mpr hv'
    have hasc : Ascending cmp (front ++ [(k, v)]) := by
      rw [← hsplit]
      exact ascending_toList m
    rcases List.mem_append.mp hmem' with hfront | hsingle
    · have habove := (List.pairwise_append.mp hasc).2.2 (k', v') hfront (k, v)
      exact habove (by simp)
    · simp only [List.mem_singleton, Prod.mk.injEq] at hsingle
      exact absurd hsingle.1 hne
  · rintro ⟨hget, hmax⟩
    have hmem : (k, v) ∈ m.toList :=
      Std.ExtTreeMap.mem_toList_iff_getElem?_eq_some.mpr hget
    obtain ⟨front, back, hsplit⟩ := List.append_of_mem hmem
    have hasc : Ascending cmp (front ++ (k, v) :: back) := by
      rw [← hsplit]
      exact ascending_toList m
    cases back with
    | nil => simp [hsplit]
    | cons e back =>
        -- a later entry would be both above and below `k`
        obtain ⟨k', v'⟩ := e
        have htail : Ascending cmp ((k, v) :: (k', v') :: back) :=
          (List.pairwise_append.mp hasc).2.1
        have hlt : cmp k k' = .lt :=
          (List.pairwise_cons.mp htail).1 (k', v') (by simp)
        have hback : (k', v') ∈ m.toList := by simp [hsplit]
        have hk' : k' ∈ m := mem_iff_exists_getElem?.mpr
          ⟨v', Std.ExtTreeMap.mem_toList_iff_getElem?_eq_some.mp hback⟩
        have hne : k' ≠ k := by
          rintro rfl
          exact Std.OrientedCmp.not_lt_of_lt hlt hlt
        exact (Std.OrientedCmp.not_lt_of_lt hlt (hmax k' hk' hne)).elim

end Lawful

end Foundation
end Rush
