import Rush.Foundation.ByteOrder
import Rush.Database.RocksDbIsolation

/-!
# Collections in the order of the bytes

The databases order their keys by bytes, the tables of the model by scalar
values.  A collection that enumerates a table in the one order enumerates it in
the other, so its last entry is the last one of the table.
-/

namespace Rush
namespace Database

open Foundation

/-- The collection holds the entries of the table, and its iterators enumerate
them in the order of the bytes of their keys. -/
structure ByteOrdered (table : Table) (entries : List (Str × Bytes))
    (iter : Bool → Items) : Prop where
  holds : ∀ key data, (key, data) ∈ entries ↔ table[key]? = some data
  ascending : entries.Pairwise fun a b =>
    compare (utf8Bytes a.1) (utf8Bytes b.1) = .lt
  forward : iter false = entries.map some
  backward : iter true = entries.reverse.map some

namespace ByteOrdered

variable {table : Table} {entries : List (Str × Bytes)} {iter : Bool → Items}

/-- The order of the bytes is the order of the model. -/
theorem toList_eq (h : ByteOrdered table entries iter) :
    table.toList = entries := by
  refine toList_eq_of_ascending ?_ h.holds
  refine h.ascending.imp ?_
  intro a b hlt
  rwa [compare_utf8Bytes] at hlt

theorem iter_eq (h : ByteOrdered table entries iter) : iter = table.iter := by
  funext reverse
  cases reverse with
  | false =>
      rw [h.forward, ← h.toList_eq]
      rfl
  | true =>
      rw [h.backward, ← h.toList_eq]
      rfl

theorem collectionLast (h : ByteOrdered table entries iter) :
    Collection.last iter = .ok table.last? := by
  rw [h.iter_eq, Table.collectionLast_iter]

end ByteOrdered

/-- The iterators of a table itself are ordered by bytes. -/
theorem Table.byteOrdered (table : Table) :
    ByteOrdered table table.toList table.iter where
  holds := fun _ _ => Std.ExtTreeMap.mem_toList_iff_getElem?_eq_some
  ascending := by
    refine (ascending_toList table).imp ?_
    intro a b hlt
    rwa [compare_utf8Bytes]
  forward := rfl
  backward := rfl

/-- So are those of a RocksDB collection into which no other one shows. -/
theorem ReadsLike.byteOrdered {db : RocksDb} {store : RocksDbStore}
    {table : Table} (h : ReadsLike db store table) :
    ByteOrdered table table.toList (RocksDbStore.Collection.iter db store) := by
  rw [funext h.iter]
  exact table.byteOrdered

end Database
end Rush
