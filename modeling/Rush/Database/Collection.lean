import Rush.Foundation.OrderedMap
import Rush.Foundation.Text

/-!
# The `Collection` trait

`store/src/error.rs` and the methods of `store/src/database.rs` that
`Collection` derives from `iter`: `last` and `get_by_range`.  A backend is seen
here through the items that its iterators yield.  An item is `none` when the
`next` call that should produce it panics, so a lazy iterator may still be used
up to that point.
-/

namespace Rush
namespace Database

open Foundation

abbrev Bytes := List UInt8

/-- Error type of the store crate. -/
inductive StoreError
  | createStore (message : String)
  | get (message : String)
  | entryNotFound (message : String)
  | store (message : String)
deriving DecidableEq

/-- `impl Display for Error`. -/
def StoreError.display : StoreError → String
  | .createStore m => "Can't create store: " ++ m
  | .get m => "Get error: " ++ m
  | .entryNotFound m => "Entry not found: " ++ m
  | .store m => "Store error: " ++ m

/-- Why a call gives no value: it returns an error, or it panics. -/
inductive Failure (ε : Type)
  | error (e : ε)
  | panic
deriving DecidableEq

/-- What a `Box<dyn Iterator<Item = (String, Vec<u8>)>>` yields, in order. -/
abbrev Items := List (Option (Str × Bytes))

namespace Collection

/-- Returns the last value in the collection: the first item of `iter(true)`. -/
def last (iter : Bool → Items) :
    Except (Failure StoreError) (Option (Str × Bytes)) :=
  match iter true with
  | [] => .ok none
  | none :: _ => .error .panic
  | some entry :: _ => .ok (some entry)

/-- The loop that looks for the key `from`, which is itself excluded. -/
def skipTo (key : Str) : Items → Except (Failure StoreError) Items
  | [] => .error (.error (.entryNotFound "None"))
  | none :: _ => .error .panic
  | some (current, _) :: items =>
      if current = key then .ok items else skipTo key items

/-- The loop that takes at most `quantity` values. -/
def takeValues : Nat → Items → Except (Failure StoreError) (List Bytes)
  | 0, _ => .ok []
  | _ + 1, [] => .ok []
  | _ + 1, none :: _ => .error .panic
  | n + 1, some (_, event) :: items =>
      (takeValues n items).map (event :: ·)

/-- The least `isize` of a 64-bit target, whose `abs` overflows. -/
def isizeMin : Int := -9223372036854775808

/-- `isize::abs`: the overflow panics when overflow checks are on, and wraps to
the argument otherwise. -/
def isizeAbs (overflowChecks : Bool) (quantity : Int) :
    Except (Failure StoreError) Int :=
  if quantity = isizeMin then
    if overflowChecks then .error .panic else .ok isizeMin
  else .ok quantity.natAbs

/-- Returns the values of a range: at most `|quantity|` of them, in reverse
order when `quantity` is negative, after the key `start` if it is given. -/
def getByRange (overflowChecks : Bool) (iter : Bool → Items)
    (start : Option Str) (quantity : Int) :
    Except (Failure StoreError) (List Bytes) := do
  match start with
  | some key =>
      let items ← skipTo key (iter (decide (quantity < 0)))
      let count ← isizeAbs overflowChecks quantity
      takeValues count.toNat items
  | none =>
      if 0 ≤ quantity then takeValues quantity.toNat (iter false)
      else
        let count ← isizeAbs overflowChecks quantity
        takeValues count.toNat (iter true)

end Collection

/-- A byte-ordered map from keys to values. -/
abbrev Table := Std.ExtTreeMap Str Bytes

namespace Table

/-- The enumeration of a table in key order or in reverse key order. -/
def entries (table : Table) (reverse : Bool) : List (Str × Bytes) :=
  if reverse then table.toList.reverse else table.toList

/-- The iterators of a collection that is the table itself. -/
def iter (table : Table) (reverse : Bool) : Items :=
  (table.entries reverse).map some

/-- The value under a key, or the error that every backend reports for an
absent one. -/
def get (table : Table) (key : Str) : Except StoreError Bytes :=
  match table[key]? with
  | some data => .ok data
  | none => .error (.entryNotFound "Query returned no rows")

/-- The last entry of a table. -/
def last? (table : Table) : Option (Str × Bytes) :=
  (table.entries true).head?

theorem collectionLast_iter (table : Table) :
    Collection.last table.iter = .ok table.last? := by
  unfold Collection.last iter last?
  cases table.entries true <;> rfl

theorem last?_eq_getLast? (table : Table) :
    table.last? = table.toList.getLast? := by
  simp [last?, entries]

theorem last?_eq_none_iff {table : Table} : table.last? = none ↔ table = ∅ := by
  rw [last?_eq_getLast?, getLast?_toList_eq_none_iff]

theorem last?_eq_some_iff {table : Table} {key : Str} {data : Bytes} :
    table.last? = some (key, data) ↔
      table[key]? = some data ∧
        ∀ other ∈ table, other ≠ key → compare other key = .lt := by
  rw [last?_eq_getLast?, getLast?_toList_eq_some_iff]

end Table

end Database
end Rush
