import Rush.Persistence.EventLog

/-!
# Intervals of event numbers

The tables that the commands of a store reach hold the numbers from some `lo` on
and below some `hi`, under the keys that the store writes, and every value can
be opened.  The interval of an empty table is empty at any place.
-/

namespace Rush
namespace Persistence

open Foundation Database Actor

/-- The keys of the table are those of the event numbers from `lo` on and below
`hi`. -/
def Numbered (table : Table) (lo hi : Nat) : Prop :=
  ∀ key, key ∈ table ↔
    ∃ n : UInt64, lo ≤ n.toNat ∧ n.toNat < hi ∧ key = eventKey n

/-- `n` is the largest event number stored. -/
def IsLargest (table : Table) (n : UInt64) : Prop :=
  eventKey n ∈ table ∧ ∀ m, eventKey m ∈ table → m.toNat ≤ n.toNat

namespace Numbered

variable {table : Table} {lo hi : Nat} {n : UInt64}

theorem empty (n : Nat) : Numbered ∅ n n := by
  intro key
  constructor
  · intro hkey
    exact absurd hkey Std.ExtTreeMap.not_mem_empty
  · intro h
    obtain ⟨m, hlo, hhi, -⟩ := h
    omega

theorem mem_eventKey_iff (h : Numbered table lo hi) :
    eventKey n ∈ table ↔ lo ≤ n.toNat ∧ n.toNat < hi := by
  rw [h (eventKey n)]
  constructor
  · intro hn
    obtain ⟨m, hlo, hhi, hkey⟩ := hn
    rw [eventKey_inj.mp hkey]
    exact ⟨hlo, hhi⟩
  · intro hn
    exact ⟨n, hn.1, hn.2, rfl⟩

/-- An empty interval is that of the empty table. -/
theorem eq_empty_iff (h : Numbered table lo (n.toNat + 1)) :
    table = ∅ ↔ n.toNat < lo := by
  constructor
  · intro hempty
    by_contra hlo
    have hmem : eventKey n ∈ table := h.mem_eventKey_iff.mpr ⟨by omega, by omega⟩
    rw [hempty] at hmem
    exact Std.ExtTreeMap.not_mem_empty hmem
  · intro hlo
    apply Std.ExtTreeMap.eq_empty_iff_forall_not_mem.mpr
    intro key hkey
    obtain ⟨m, hle, hlt, -⟩ := (h key).mp hkey
    omega

theorem isLargest (h : Numbered table lo (n.toNat + 1)) (hlo : lo ≤ n.toNat) :
    IsLargest table n := by
  refine ⟨h.mem_eventKey_iff.mpr ⟨hlo, by omega⟩, fun m hm => ?_⟩
  have hlt := (h.mem_eventKey_iff.mp hm).2
  omega

theorem eq_of_isLargest (h : Numbered table lo (n.toNat + 1)) {m : UInt64}
    (hm : IsLargest table m) : m = n := by
  obtain ⟨hlo, hlt⟩ := h.mem_eventKey_iff.mp hm.1
  have hle : n.toNat ≤ m.toNat :=
    hm.2 n (h.mem_eventKey_iff.mpr ⟨by omega, by omega⟩)
  exact UInt64.toNat_inj.mp (by omega)

/-- The last entry of the table is under its largest number. -/
theorem last?_eq (h : Numbered table lo (n.toNat + 1)) (hlo : lo ≤ n.toNat) :
    ∃ data, table.last? = some (eventKey n, data) ∧
      table[eventKey n]? = some data := by
  have hmem : eventKey n ∈ table := (h.isLargest hlo).1
  obtain ⟨data, hdata⟩ := mem_iff_exists_getElem?.mp hmem
  refine ⟨data, Table.last?_eq_some_iff.mpr ⟨hdata, ?_⟩, hdata⟩
  intro key hkey hne
  obtain ⟨m, hle, hlt, rfl⟩ := (h key).mp hkey
  rw [compare_eventKey]
  apply Nat.compare_eq_lt.mpr
  have hother : m.toNat ≠ n.toNat := by
    intro heq
    exact hne (by rw [UInt64.toNat_inj.mp heq])
  omega

/-- A put under the number that follows. -/
theorem insert_next (h : Numbered table lo n.toNat) (hlo : lo ≤ n.toNat)
    (data : Bytes) :
    Numbered (table.insert (eventKey n) data) lo (n.toNat + 1) := by
  intro key
  rw [Std.ExtTreeMap.mem_insert, Std.LawfulEqOrd.compare_eq_iff_eq, h key]
  constructor
  · rintro (rfl | ⟨m, hle, hlt, rfl⟩)
    · exact ⟨n, hlo, by omega, rfl⟩
    · exact ⟨m, hle, by omega, rfl⟩
  · intro hm
    obtain ⟨m, hle, hlt, rfl⟩ := hm
    by_cases heq : m = n
    · exact Or.inl (by rw [heq])
    · have hne : m.toNat ≠ n.toNat := fun h => heq (UInt64.toNat_inj.mp h)
      exact Or.inr ⟨m, hle, by omega, rfl⟩

/-- A put under the last number, or under any number if the table is empty. -/
theorem insert_last (h : Numbered table lo (n.toNat + 1)) (data : Bytes) :
    Numbered (table.insert (eventKey n) data) (min lo n.toNat)
      (n.toNat + 1) := by
  intro key
  rw [Std.ExtTreeMap.mem_insert, Std.LawfulEqOrd.compare_eq_iff_eq, h key]
  constructor
  · rintro (rfl | ⟨m, hle, hlt, rfl⟩)
    · exact ⟨n, by omega, by omega, rfl⟩
    · exact ⟨m, by omega, hlt, rfl⟩
  · intro hm
    obtain ⟨m, hle, hlt, rfl⟩ := hm
    by_cases heq : m = n
    · exact Or.inl (by rw [heq])
    · have hne : m.toNat ≠ n.toNat := fun h => heq (UInt64.toNat_inj.mp h)
      exact Or.inr ⟨m, by omega, hlt, rfl⟩

end Numbered

section Events

variable {P E : Type}

/-- Every stored value is an event sealed with the key. -/
def AllSealed (pf : Platform P E) (password : Option Key) (table : Table) :
    Prop :=
  ∀ (key : Str) (data : Bytes), table[key]? = some data →
    ∃ event, Store.Sealed pf password data event

variable {pf : Platform P E} {password : Option Key} {table : Table}

theorem allSealed_empty : AllSealed pf password ∅ := by
  intro key data hdata
  simp at hdata

theorem AllSealed.insert (h : AllSealed pf password table) {key : Str}
    {data : Bytes} {event : E} (hsealed : Store.Sealed pf password data event) :
    AllSealed pf password (table.insert key data) := by
  intro key' data' hdata'
  rw [getElem?_insert_eq] at hdata'
  split at hdata'
  · cases hdata'
    exact ⟨event, hsealed⟩
  · exact h key' data' hdata'

theorem HoldsEvents.allSealed {events : List E}
    (h : HoldsEvents pf password table events) : AllSealed pf password table := by
  intro key data hdata
  obtain ⟨i, hi, rfl⟩ := h.keys key (mem_iff_exists_getElem?.mpr ⟨data, hdata⟩)
  obtain ⟨data', hdata', hsealed⟩ :=
    h.lookup i events[i] (List.getElem?_eq_getElem hi)
  rw [hdata] at hdata'
  cases hdata'
  exact ⟨_, hsealed⟩

theorem HoldsEvents.eq_empty_iff {events : List E}
    (h : HoldsEvents pf password table events) : table = ∅ ↔ events = [] := by
  constructor
  · intro hempty
    by_contra hne
    obtain ⟨data, event, -, hlast, -⟩ := h.last_some hne
    rw [Table.last?_eq_none_iff.mpr hempty] at hlast
    contradiction
  · intro hnone
    subst hnone
    exact Table.last?_eq_none_iff.mp h.last_none

end Events

end Persistence
end Rush
