import Rush.Database.Backend
import Rush.Database.RocksDbIsolation

/-!
# What one table of a backend is for

A table of collections gives every prefix an ordered map of its own, a table of
states gives every prefix one value of its own.
-/

namespace Rush
namespace Database

open Foundation

/-- The calls that read a whole collection. -/
inductive CollectionQuery
  | iter (reverse : Bool)
  | last
  | getByRange (start : Option Str) (quantity : Int)

/-- What these calls return, unless they panic. -/
inductive CollectionAnswer
  | items (result : Except (Failure StoreError) (List (Str × Bytes)))
  | entry (result : Except (Failure StoreError) (Option (Str × Bytes)))
  | values (result : Except (Failure StoreError) (List Bytes))

/-- The provided methods of the trait over an iterator that has read all its
items when it is returned.  Each of them calls `iter` once. -/
def Collection.answer (overflowChecks : Bool)
    (iter : Bool → Except (Failure StoreError) (List (Str × Bytes))) :
    CollectionQuery → CollectionAnswer
  | .iter reverse => .items (iter reverse)
  | .last =>
      .entry ((iter true).bind fun items =>
        Collection.last fun _ => items.map some)
  | .getByRange start quantity =>
      .values ((iter (decide (quantity < 0))).bind fun items =>
        Collection.getByRange overflowChecks (fun _ => items.map some) start
          quantity)

/-- The specification of a table of collections: private ordered maps. -/
def Namespaces.collections (overflowChecks : Bool) :
    Backend Namespaces Str CollectionQuery CollectionAnswer where
  create ns _ := (.ok (), ns)
  get ns p key := (ns p).get key
  put ns p key data :=
    (.ok (), Function.update ns p ((ns p).insert key data))
  del ns p key := (.ok (), Function.update ns p ((ns p).erase key))
  purge ns p := (.ok (), Function.update ns p ∅)
  read ns p :=
    Collection.answer overflowChecks fun reverse => .ok ((ns p).entries reverse)

/-- The specification of a table of states: one value for each prefix. -/
abbrev Slots := Str → Option Bytes

def Slots.states : Backend Slots Unit Empty Empty where
  create slots _ := (.ok (), slots)
  get slots p _ :=
    match slots p with
    | some data => .ok data
    | none => .error (.entryNotFound "Query returned no rows")
  put slots p _ data := (.ok (), Function.update slots p (some data))
  del slots p _ := (.ok (), Function.update slots p none)
  purge slots p := (.ok (), Function.update slots p none)
  read _ _ query := query

end Database
end Rush
