import Rush.Database.Collection

/-!
# What `get_by_range` returns

A collection is seen through its entries in ascending key order: `iter(false)`
enumerates them, `iter(true)` enumerates them backwards.  A range query is for
the first `|quantity|` of them in one direction, or of those that lie beyond a
key.  The only quantity that is not served is the one without an absolute value.
-/

namespace Rush
namespace Database

open Foundation

/-- The iterators enumerate the entries, forwards and backwards. -/
structure Enumerates (iter : Bool → Items) (entries : List (Str × Bytes)) :
    Prop where
  ascending : Ascending compare entries
  forward : iter false = entries.map some
  backward : iter true = entries.reverse.map some

/-- The entries in the direction of a query. -/
def directed (reverse : Bool) (entries : List (Str × Bytes)) :
    List (Str × Bytes) :=
  if reverse then entries.reverse else entries

/-- The entry comes after the key in the direction of the query. -/
def beyond (reverse : Bool) (key : Str) (entry : Str × Bytes) : Bool :=
  if reverse then compare entry.1 key = .lt else compare key entry.1 = .lt

/-- The entries that a query can return, in its direction. -/
def available (entries : List (Str × Bytes)) (start : Option Str)
    (reverse : Bool) : List (Str × Bytes) :=
  match start with
  | none => directed reverse entries
  | some key => (directed reverse entries).filter (beyond reverse key)

/-- The query starts after a key that the collection does not hold. -/
def StartsNowhere (entries : List (Str × Bytes)) (start : Option Str) : Prop :=
  ∃ key, start = some key ∧ key ∉ entries.map Prod.fst

/-- The specification of `get_by_range`. -/
def AnswersRange (entries : List (Str × Bytes)) (start : Option Str)
    (quantity : Int) (result : Except (Failure StoreError) (List Bytes)) : Prop :=
  (StartsNowhere entries start ∧
      ∃ message, result = .error (.error (.entryNotFound message))) ∨
    (¬ StartsNowhere entries start ∧
      result = .ok (((available entries start (decide (quantity < 0))).take
        quantity.natAbs).map Prod.snd))

namespace Collection

/-- The loop that takes values from an iterator that does not panic. -/
theorem takeValues_map_some (n : Nat) (entries : List (Str × Bytes)) :
    takeValues n (entries.map some) = .ok ((entries.take n).map Prod.snd) := by
  induction entries generalizing n with
  | nil => cases n <;> rfl
  | cons entry entries ih =>
      cases n with
      | zero => rfl
      | succ n =>
          rw [List.map_cons, takeValues, ih]
          rfl

/-- The loop that looks for a key ends after it. -/
theorem skipTo_map_some {key : Str} {before after : List (Str × Bytes)}
    {data : Bytes} (hbefore : key ∉ before.map Prod.fst) :
    skipTo key ((before ++ (key, data) :: after).map some) =
      .ok (after.map some) := by
  induction before with
  | nil => simp [skipTo]
  | cons entry before ih =>
      obtain ⟨hne, hrest⟩ : key ≠ entry.1 ∧ key ∉ before.map Prod.fst := by
        simpa using hbefore
      rw [List.cons_append, List.map_cons, skipTo, if_neg (Ne.symm hne), ih hrest]

theorem skipTo_absent {key : Str} {entries : List (Str × Bytes)}
    (habsent : key ∉ entries.map Prod.fst) :
    skipTo key (entries.map some) = .error (.error (.entryNotFound "None")) := by
  induction entries with
  | nil => rfl
  | cons entry entries ih =>
      obtain ⟨hne, hrest⟩ : key ≠ entry.1 ∧ key ∉ entries.map Prod.fst := by
        simpa using habsent
      rw [List.map_cons, skipTo, if_neg (Ne.symm hne), ih hrest]

end Collection

section Directions

variable {entries : List (Str × Bytes)}

theorem mem_keys_directed (reverse : Bool) {key : Str} :
    key ∈ (directed reverse entries).map Prod.fst ↔ key ∈ entries.map Prod.fst := by
  unfold directed
  split <;> simp

/-- In both directions each entry lies beyond the keys before it. -/
theorem pairwise_directed (hasc : Ascending compare entries) (reverse : Bool) :
    (directed reverse entries).Pairwise fun a b => beyond reverse a.1 b = true := by
  cases reverse with
  | false => simpa [directed, beyond] using List.Pairwise.imp (fun h => h) hasc
  | true =>
      simpa [directed, beyond, List.pairwise_reverse] using
        List.Pairwise.imp (fun h => h) hasc

theorem not_beyond_self (reverse : Bool) (entry : Str × Bytes) :
    beyond reverse entry.1 entry = false := by
  unfold beyond
  split <;> simp [Std.ReflOrd.compare_self]

theorem not_beyond_of_beyond {reverse : Bool} {a b : Str × Bytes}
    (h : beyond reverse a.1 b = true) : beyond reverse b.1 a = false := by
  unfold beyond at *
  split at h
  all_goals
    simp only [decide_eq_true_eq] at h
    simp [*, Std.OrientedCmp.not_lt_of_lt h]

/-- What follows a key in the enumeration are the entries beyond it. -/
theorem filter_beyond {reverse : Bool} {before after : List (Str × Bytes)}
    {entry : Str × Bytes}
    (hsorted : (before ++ entry :: after).Pairwise
      fun a b => beyond reverse a.1 b = true) :
    (before ++ entry :: after).filter (beyond reverse entry.1) = after := by
  obtain ⟨-, htail, hcross⟩ := List.pairwise_append.mp hsorted
  have hbefore : before.filter (beyond reverse entry.1) = [] := by
    rw [List.filter_eq_nil_iff]
    intro other hother
    simp [not_beyond_of_beyond (hcross other hother entry (by simp))]
  have hafter : after.filter (beyond reverse entry.1) = after :=
    List.filter_eq_self.mpr (List.pairwise_cons.mp htail).1
  rw [List.filter_append, hbefore, List.nil_append,
    List.filter_cons_of_neg (by simp [not_beyond_self]), hafter]

/-- A key of the enumeration splits it. -/
theorem split_at_key {reverse : Bool} {key : Str}
    (hsorted : (directed reverse entries).Pairwise
      fun a b => beyond reverse a.1 b = true)
    (hkey : key ∈ entries.map Prod.fst) :
    ∃ before data after, directed reverse entries = before ++ (key, data) :: after ∧
      key ∉ before.map Prod.fst := by
  rw [← mem_keys_directed reverse, List.mem_map] at hkey
  obtain ⟨⟨_, data⟩, hmem, rfl⟩ := hkey
  obtain ⟨before, after, hsplit⟩ := List.append_of_mem hmem
  refine ⟨before, data, after, hsplit, fun hbefore => ?_⟩
  obtain ⟨other, hother, heq⟩ := List.mem_map.mp hbefore
  rw [hsplit] at hsorted
  have hcross := (List.pairwise_append.mp hsorted).2.2 other hother _
    (List.mem_cons_self)
  rw [heq] at hcross
  simp [not_beyond_self reverse (_, data)] at hcross

end Directions

namespace Enumerates

variable {iter : Bool → Items} {entries : List (Str × Bytes)}

theorem iter_eq (h : Enumerates iter entries) (reverse : Bool) :
    iter reverse = (directed reverse entries).map some := by
  cases reverse with
  | false => exact h.forward
  | true => exact h.backward

/-- With a key that is absent the query ends before it looks at the quantity. -/
theorem getByRange_absent (h : Enumerates iter entries) {start : Option Str}
    (hstart : StartsNowhere entries start) (overflowChecks : Bool)
    (quantity : Int) :
    Collection.getByRange overflowChecks iter start quantity =
      .error (.error (.entryNotFound "None")) := by
  obtain ⟨key, rfl, habsent⟩ := hstart
  rw [← mem_keys_directed (decide (quantity < 0))] at habsent
  simp only [Collection.getByRange]
  rw [h.iter_eq, Collection.skipTo_absent habsent]
  rfl

/-- Otherwise it takes the absolute value of the quantity from what is
available. -/
theorem getByRange_present (h : Enumerates iter entries) {start : Option Str}
    (hstart : ¬ StartsNowhere entries start) {overflowChecks : Bool}
    {quantity : Int} :
    Collection.getByRange overflowChecks iter start quantity =
      (Collection.isizeAbs overflowChecks quantity).map fun count =>
        ((available entries start (decide (quantity < 0))).take
          count.toNat).map Prod.snd := by
  cases start with
  | none =>
      have hpos : 0 ≤ quantity →
          Collection.isizeAbs overflowChecks quantity = .ok quantity := by
        intro hle
        unfold Collection.isizeAbs Collection.isizeMin
        rw [if_neg (by omega)]
        exact congrArg Except.ok (by omega)
      simp only [Collection.getByRange, available]
      split
      case isTrue hle =>
        rw [h.iter_eq, Collection.takeValues_map_some, hpos hle]
        simp [Except.map, Int.not_lt.mpr hle]
      case isFalse hlt =>
        have hneg : decide (quantity < 0) = true := by simpa using hlt
        rw [h.iter_eq, hneg]
        cases Collection.isizeAbs overflowChecks quantity with
        | error e => rfl
        | ok count => exact Collection.takeValues_map_some _ _
  | some key =>
      have hkey : key ∈ entries.map Prod.fst := by
        by_contra habsent
        exact hstart ⟨key, rfl, habsent⟩
      have hsorted := pairwise_directed h.ascending (decide (quantity < 0))
      obtain ⟨before, data, after, hsplit, hbefore⟩ := split_at_key hsorted hkey
      have hafter : available entries (some key) (decide (quantity < 0)) = after := by
        rw [hsplit] at hsorted
        rw [available, hsplit]
        exact filter_beyond hsorted
      simp only [Collection.getByRange]
      rw [h.iter_eq, hafter, hsplit, Collection.skipTo_map_some hbefore]
      cases Collection.isizeAbs overflowChecks quantity with
      | error e => rfl
      | ok count => exact Collection.takeValues_map_some _ _

/-- **Range queries.**  The answer of `get_by_range` is the one specified if and
only if the quantity has an absolute value, or it does not come to that: the key
is absent, or nothing is available and the overflow goes unnoticed. -/
theorem getByRange_answers_iff (h : Enumerates iter entries)
    (overflowChecks : Bool) (start : Option Str) (quantity : Int) :
    AnswersRange entries start quantity
        (Collection.getByRange overflowChecks iter start quantity) ↔
      quantity ≠ Collection.isizeMin ∨ StartsNowhere entries start ∨
        (overflowChecks = false ∧ available entries start true = []) := by
  by_cases hstart : StartsNowhere entries start
  · have hresult := h.getByRange_absent hstart overflowChecks quantity
    exact ⟨fun _ => Or.inr (Or.inl hstart), fun _ => Or.inl ⟨hstart, "None", hresult⟩⟩
  · have hanswers : ∀ result, AnswersRange entries start quantity result ↔
        result = .ok (((available entries start (decide (quantity < 0))).take
          quantity.natAbs).map Prod.snd) :=
      fun result => ⟨fun hans => (hans.resolve_left fun hno => hstart hno.1).2,
        fun hresult => Or.inr ⟨hstart, hresult⟩⟩
    rw [hanswers, h.getByRange_present hstart]
    by_cases hmin : quantity = Collection.isizeMin
    · subst hmin
      cases overflowChecks with
      | true => simp [Collection.isizeAbs, Except.map, hstart]
      | false =>
          have hne : Collection.isizeMin.natAbs ≠ 0 := by decide
          have hempty : ∀ n ≠ 0, (.ok [] : Except (Failure StoreError) (List Bytes)) =
              .ok (((available entries start true).take n).map Prod.snd) ↔
                available entries start true = [] := by
            intro n hn
            rw [Except.ok.injEq, eq_comm, List.map_eq_nil_iff, List.take_eq_nil_iff]
            exact or_iff_right hn
          constructor
          · intro hresult
            exact Or.inr (Or.inr ⟨rfl, (hempty _ hne).mp hresult⟩)
          · rintro (hno | hno | ⟨-, hnone⟩)
            · exact absurd rfl hno
            · exact absurd hno hstart
            · exact (hempty _ hne).mpr hnone
    · have habs : Collection.isizeAbs overflowChecks quantity =
          .ok quantity.natAbs := if_neg hmin
      rw [habs]
      exact iff_of_true rfl (Or.inl hmin)

end Enumerates

/-- A table enumerates its entries. -/
theorem Table.enumerates (table : Table) : Enumerates table.iter table.toList where
  ascending := ascending_toList table
  forward := rfl
  backward := rfl

/-- The collection of the tests, with three keys. -/
def threeKeys : Table :=
  ((Std.ExtTreeMap.empty.insert ['a'] [1]).insert ['b'] [2]).insert ['c'] [3]

/-- The two values before the last key are answered. -/
theorem threeKeys_answers :
    AnswersRange threeKeys.toList (some ['c']) (-2)
      (Collection.getByRange true threeKeys.iter (some ['c']) (-2)) :=
  (threeKeys.enumerates.getByRange_answers_iff true (some ['c']) (-2)).mpr
    (Or.inl (by decide))

/-- The least quantity panics when overflow is checked, and returns nothing of
three values when it is not. -/
theorem threeKeys_isizeMin :
    Collection.getByRange true threeKeys.iter none Collection.isizeMin =
        .error .panic ∧
      Collection.getByRange false threeKeys.iter none Collection.isizeMin =
        .ok [] ∧
      ∀ overflowChecks, ¬ ∀ (iter : Bool → Items) (entries : List (Str × Bytes))
        (start : Option Str) (quantity : Int), Enumerates iter entries →
          AnswersRange entries start quantity
            (Collection.getByRange overflowChecks iter start quantity) := by
  refine ⟨rfl, rfl, fun overflowChecks hall => ?_⟩
  have hanswer := hall threeKeys.iter threeKeys.toList none Collection.isizeMin
    threeKeys.enumerates
  rcases hanswer with ⟨⟨key, hno, -⟩, -⟩ | ⟨-, hresult⟩
  · contradiction
  · cases overflowChecks with
    | true => contradiction
    | false => exact absurd hresult (by decide)

end Database
end Rush
