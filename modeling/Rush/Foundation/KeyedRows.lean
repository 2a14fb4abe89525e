import Mathlib.Data.List.Basic
import Mathlib.Data.List.Nodup
import Mathlib.Data.List.Sort
import Mathlib.Tactic.Common

/-!
# Rows under a primary key

A relational table as the list of its rows, no two of them with the same key.
The rows have no order of their own: a query that orders its result sorts the
rows it has selected.
-/

namespace Rush
namespace Foundation

/-- Rows with a unique key. -/
structure KeyedRows (κ β : Type*) where
  rows : List (κ × β)
  unique : (rows.map Prod.fst).Nodup

namespace KeyedRows

variable {κ β : Type*}

/-- No rows. -/
def empty : KeyedRows κ β := ⟨[], List.nodup_nil⟩

theorem unique_filter (table : KeyedRows κ β) (p : κ × β → Bool) :
    ((table.rows.filter p).map Prod.fst).Nodup :=
  table.unique.sublist (List.filter_sublist.map Prod.fst)

/-- `DELETE ... WHERE`, with a condition on the key. -/
def deleteWhere (table : KeyedRows κ β) (p : κ → Bool) : KeyedRows κ β where
  rows := table.rows.filter fun row => !p row.1
  unique := table.unique_filter _

section Lookup

variable [DecidableEq κ]

/-- `INSERT OR REPLACE`. -/
def insertOrReplace (table : KeyedRows κ β) (key : κ) (value : β) :
    KeyedRows κ β where
  rows := table.rows.filter (fun row => decide (row.1 ≠ key)) ++ [(key, value)]
  unique := by
    rw [List.map_append, List.nodup_append]
    refine ⟨table.unique_filter _, List.nodup_singleton _, ?_⟩
    intro a ha b hb
    obtain ⟨row, hrow, rfl⟩ := List.mem_map.mp ha
    have hne := (List.mem_filter.mp hrow).2
    have hkey : b = key := by simpa using hb
    rw [hkey]
    simpa using hne

/-- The value of the row with the key. -/
def find? (table : KeyedRows κ β) (key : κ) : Option β :=
  (table.rows.find? fun row => decide (row.1 = key)).map Prod.snd

theorem find?_eq_some_iff {table : KeyedRows κ β} {key : κ} {value : β} :
    table.find? key = some value ↔ (key, value) ∈ table.rows := by
  unfold find?
  constructor
  · intro h
    obtain ⟨row, hfind, rfl⟩ := Option.map_eq_some_iff.mp h
    have hkey : row.1 = key := by simpa using List.find?_some hfind
    rw [← hkey]
    exact List.mem_of_find?_eq_some hfind
  · intro hmem
    cases hfind : table.rows.find? fun row => decide (row.1 = key) with
    | none =>
        have hne := List.find?_eq_none.mp hfind (key, value) hmem
        simp at hne
    | some row =>
        have hkey : row.1 = key := by simpa using List.find?_some hfind
        -- two rows with the key are the same row
        have hsame : row = (key, value) :=
          List.inj_on_of_nodup_map table.unique
            (List.mem_of_find?_eq_some hfind) hmem hkey
        rw [hsame]
        rfl

@[simp] theorem find?_empty (key : κ) :
    (empty : KeyedRows κ β).find? key = none := rfl

theorem find?_insertOrReplace (table : KeyedRows κ β) (key : κ) (value : β)
    (k : κ) :
    (table.insertOrReplace key value).find? k =
      if k = key then some value else table.find? k := by
  have hmem : ∀ v, (table.insertOrReplace key value).find? k = some v ↔
      (if k = key then some value else table.find? k) = some v := by
    intro v
    rw [find?_eq_some_iff]
    by_cases hk : k = key
    · simp [insertOrReplace, hk, eq_comm]
    · simp [insertOrReplace, hk, find?_eq_some_iff]
  exact Option.ext hmem

theorem find?_deleteWhere (table : KeyedRows κ β) (p : κ → Bool) (k : κ) :
    (table.deleteWhere p).find? k = if p k then none else table.find? k := by
  have hmem : ∀ v, (table.deleteWhere p).find? k = some v ↔
      (if p k then none else table.find? k) = some v := by
    intro v
    rw [find?_eq_some_iff]
    cases hp : p k <;> simp [deleteWhere, hp, find?_eq_some_iff]
  exact Option.ext hmem

end Lookup

/-- `SELECT ... WHERE ... ORDER BY`: the rows that meet a condition on the key,
sorted by a relation. -/
def select (table : KeyedRows κ β) (p : κ → Bool) (r : κ × β → κ × β → Prop)
    [DecidableRel r] : List (κ × β) :=
  (table.rows.filter fun row => p row.1).insertionSort r

theorem mem_select_iff [DecidableEq κ] {table : KeyedRows κ β} {p : κ → Bool}
    {r : κ × β → κ × β → Prop} [DecidableRel r] {key : κ} {value : β} :
    (key, value) ∈ table.select p r ↔
      p key ∧ table.find? key = some value := by
  unfold select
  rw [List.mem_insertionSort, List.mem_filter, find?_eq_some_iff]
  exact and_comm

/-- The selected rows are sorted, and no two of them have the same key. -/
theorem pairwise_select (table : KeyedRows κ β) (p : κ → Bool)
    (r : κ × β → κ × β → Prop) [DecidableRel r] [Std.Total r]
    [IsTrans (κ × β) r] :
    (table.select p r).Pairwise fun a b => r a b ∧ a.1 ≠ b.1 := by
  unfold select
  have hkeys : ((table.rows.filter fun row => p row.1).insertionSort r).Pairwise
      fun a b => a.1 ≠ b.1 := by
    have hnodup : ((table.rows.filter fun row => p row.1).map Prod.fst).Nodup :=
      table.unique_filter _
    have hperm := (List.perm_insertionSort r
      (table.rows.filter fun row => p row.1)).map Prod.fst
    exact List.pairwise_map.mp (hperm.nodup_iff.mpr hnodup)
  exact (List.pairwise_insertionSort r _).and hkeys

end KeyedRows

end Foundation
end Rush
