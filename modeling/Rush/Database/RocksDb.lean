import Rush.Database.Collection
import Mathlib.Logic.Function.Basic

/-!
# The RocksDB backend

`databases/rocksdb_db/src/rocksdb.rs`.  RocksDB itself is a byte-ordered map per
column family.  Every engine call may fail: `engine` is what the call reports
(the `{:?}` text of its error), `none` when it succeeds.  All prefixes of a
family share one key space: a collection stores the key `k` under
`prefix.k`, a state stores its value under the bare prefix.
-/

namespace Rush
namespace Database

open Foundation

/-- The database, with its column families by name. -/
structure RocksDb where
  families : Str → Option Table

/-- A collection or a state: a column family and a prefix in it. -/
structure RocksDbStore where
  name : Str
  keyPrefix : Str
deriving DecidableEq

namespace RocksDb

/-- Change the content of one column family. -/
def update (db : RocksDb) (name : Str) (f : Table → Table) : RocksDb :=
  ⟨Function.update db.families name ((db.families name).map f)⟩

/-- `create_collection` and `create_state`: the family is created if it is
missing, and the handle shares the database. -/
def createStore (db : RocksDb) (engine : Option String)
    (name keyPrefix : Str) : Except StoreError RocksDbStore × RocksDb :=
  match db.families name with
  | some _ => (.ok ⟨name, keyPrefix⟩, db)
  | none =>
      match engine with
      | some e => (.error (.createStore e), db)
      | none =>
          (.ok ⟨name, keyPrefix⟩,
            ⟨Function.update db.families name (some ∅)⟩)

end RocksDb

/-- What the engine does during a purge: after how many entries its iterator
meets an error, if it does, and the errors of the deletions. -/
structure PurgeEngine where
  scanError : Option Nat
  delete : Str → Option String

namespace PurgeEngine

/-- The raw keys that `iter.flatten()` yields: it drops the error at which the
iterator ends. -/
def scan (engine : PurgeEngine) (family : Table) : List Str :=
  match engine.scanError with
  | none => family.toList.map Prod.fst
  | some n => (family.toList.map Prod.fst).take n

end PurgeEngine

namespace RocksDbStore

/-- The error of a handle whose column family does not exist. -/
def missingColumn : StoreError :=
  .store "RocksDB column for the store does not exist."

/-- The raw key of a collection entry: `format!("{}.{}", self.prefix, key)`. -/
def rawKey (store : RocksDbStore) (key : Str) : Str :=
  store.keyPrefix ++ '.' :: key

/-- `get_cf` on a raw key, as both `get` methods report it. -/
def getRaw (db : RocksDb) (engine : Option String) (store : RocksDbStore)
    (raw : Str) : Except StoreError Bytes :=
  match db.families store.name with
  | none => .error missingColumn
  | some family =>
      match engine with
      | some e => .error (.get e)
      | none => family.get raw

/-- `put_cf` or `delete_cf`, as the writing methods report them. -/
def writeRaw (db : RocksDb) (engine : Option String) (store : RocksDbStore)
    (f : Table → Table) : Except StoreError Unit × RocksDb :=
  match db.families store.name with
  | none => (.error missingColumn, db)
  | some _ =>
      match engine with
      | some e => (.error (.get e), db)
      | none => (.ok (), db.update store.name f)

/-- The loop of both `purge` methods over the raw keys of the family. -/
def purgeKeys (delete : Str → Option String) (store : RocksDbStore) :
    List Str → RocksDb → Except StoreError Unit × RocksDb
  | [], db => (.ok (), db)
  | raw :: raws, db =>
      if store.keyPrefix.isPrefixOf raw then
        match delete raw with
        | some e => (.error (.get e), db)
        | none =>
            purgeKeys delete store raws
              (db.update store.name fun family => family.erase raw)
      else purgeKeys delete store raws db

/-- Delete every raw key of the family that starts with the prefix. -/
def purgeRaw (db : RocksDb) (engine : PurgeEngine) (store : RocksDbStore) :
    Except StoreError Unit × RocksDb :=
  match db.families store.name with
  | none => (.error missingColumn, db)
  | some family => purgeKeys engine.delete store (engine.scan family) db

namespace State

def get (db : RocksDb) (engine : Option String) (store : RocksDbStore) :
    Except StoreError Bytes :=
  store.getRaw db engine store.keyPrefix

def put (db : RocksDb) (engine : Option String) (store : RocksDbStore)
    (data : Bytes) : Except StoreError Unit × RocksDb :=
  store.writeRaw db engine fun family => family.insert store.keyPrefix data

def del (db : RocksDb) (engine : Option String) (store : RocksDbStore) :
    Except StoreError Unit × RocksDb :=
  store.writeRaw db engine fun family => family.erase store.keyPrefix

def purge (db : RocksDb) (engine : PurgeEngine) (store : RocksDbStore) :
    Except StoreError Unit × RocksDb :=
  store.purgeRaw db engine

end State

namespace Collection

def get (db : RocksDb) (engine : Option String) (store : RocksDbStore)
    (key : Str) : Except StoreError Bytes :=
  store.getRaw db engine (store.rawKey key)

def put (db : RocksDb) (engine : Option String) (store : RocksDbStore)
    (key : Str) (data : Bytes) : Except StoreError Unit × RocksDb :=
  store.writeRaw db engine fun family => family.insert (store.rawKey key) data

def del (db : RocksDb) (engine : Option String) (store : RocksDbStore)
    (key : Str) : Except StoreError Unit × RocksDb :=
  store.writeRaw db engine fun family => family.erase (store.rawKey key)

def purge (db : RocksDb) (engine : PurgeEngine) (store : RocksDbStore) :
    Except StoreError Unit × RocksDb :=
  store.purgeRaw db engine

/-- `RocksDbIterator::next` on one raw entry: entries whose key does not start
with the prefix are skipped, and `prefix.len() + 1` bytes are cut from the
others (`some none` is the panic of that cut). -/
def item (store : RocksDbStore) (entry : Str × Bytes) :
    Option (Option (Str × Bytes)) :=
  if store.keyPrefix.isPrefixOf entry.1 then
    some ((sliceFrom entry.1 (utf8Len store.keyPrefix + 1)).map
      fun key => (key, entry.2))
  else none

/-- The items of `RocksDbIterator`; a missing family panics at once. -/
def iter (db : RocksDb) (store : RocksDbStore) (reverse : Bool) : Items :=
  match db.families store.name with
  | none => [none]
  | some family => (family.entries reverse).filterMap (item store)

end Collection

end RocksDbStore

end Database
end Rush
