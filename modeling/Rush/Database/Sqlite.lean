import Rush.Database.Collection
import Rush.Foundation.KeyedRows
import Mathlib.Logic.Function.Basic

/-!
# The SQLite backend

`databases/sqlite_db/src/sqlite.rs`.  A collection is a table with the primary
key `(prefix, sn)`, a state is a table with the primary key `prefix`.  A table
serves one of the two.  Every statement may fail: `engine` is the text of its
error, `none` when SQLite carries it out.  The name of a table goes unquoted into
the statements, so all of them fail for a name that is no identifier; names are
compared as they are written, while SQLite takes those that differ in case only
for one.  Text is ordered bytewise.
-/

namespace Rush
namespace Database

open Foundation

/-- The database behind `Connection`, with its tables by name. -/
structure SqliteDb where
  collections : Str → Option (KeyedRows (Str × Str) Bytes)
  states : Str → Option (KeyedRows Str Bytes)

/-- `SqliteCollection`: a collection or a state, a table and a prefix in it. -/
structure SqliteCollection where
  table : Str
  keyPrefix : Str
deriving DecidableEq

namespace SqliteDb

/-- A database without tables. -/
def new : SqliteDb := ⟨fun _ => none, fun _ => none⟩

/-- The rows that a statement on a table works on. -/
def rowsOf {κ : Type} (tables : Str → Option (KeyedRows κ Bytes))
    (engine : Option String) (table : Str) : Except String (KeyedRows κ Bytes) :=
  match engine with
  | some e => .error e
  | none =>
      match tables table with
      | some rows => .ok rows
      | none => .error ("no such table: " ++ table.text)

/-- `CREATE TABLE IF NOT EXISTS`. -/
def createTable {κ : Type} (tables : Str → Option (KeyedRows κ Bytes))
    (table : Str) : Str → Option (KeyedRows κ Bytes) :=
  match tables table with
  | some _ => tables
  | none => Function.update tables table (some .empty)

def createState (db : SqliteDb) (engine : Option String)
    (identifier keyPrefix : Str) :
    Except StoreError SqliteCollection × SqliteDb :=
  match engine with
  | some e => (.error (.createStore ("fail SQLite create table: " ++ e)), db)
  | none =>
      (.ok ⟨identifier, keyPrefix⟩,
        { db with states := createTable db.states identifier })

def createCollection (db : SqliteDb) (engine : Option String)
    (identifier keyPrefix : Str) :
    Except StoreError SqliteCollection × SqliteDb :=
  match engine with
  | some e => (.error (.createStore ("fail SQLite create table: " ++ e)), db)
  | none =>
      (.ok ⟨identifier, keyPrefix⟩,
        { db with collections := createTable db.collections identifier })

end SqliteDb

namespace SqliteCollection

/-- `query_row` on the row with the key.  A missing row and a failed statement
are both reported as `EntryNotFound`. -/
def queryRow {κ : Type} [DecidableEq κ]
    (rows : Except String (KeyedRows κ Bytes)) (key : κ) :
    Except StoreError Bytes :=
  match rows with
  | .error e => .error (.entryNotFound e)
  | .ok rows =>
      match rows.find? key with
      | some data => .ok data
      | none => .error (.entryNotFound "Query returned no rows")

namespace State

/-- `conn.execute` of a statement that changes the rows of the table. -/
def run (db : SqliteDb) (engine : Option String) (store : SqliteCollection)
    (failed : String → StoreError)
    (f : KeyedRows Str Bytes → KeyedRows Str Bytes) :
    Except StoreError Unit × SqliteDb :=
  match SqliteDb.rowsOf db.states engine store.table with
  | .error e => (.error (failed e), db)
  | .ok rows =>
      (.ok (),
        { db with
          states := Function.update db.states store.table (some (f rows)) })

def get (db : SqliteDb) (engine : Option String) (store : SqliteCollection) :
    Except StoreError Bytes :=
  queryRow (SqliteDb.rowsOf db.states engine store.table) store.keyPrefix

def put (db : SqliteDb) (engine : Option String) (store : SqliteCollection)
    (data : Bytes) : Except StoreError Unit × SqliteDb :=
  run db engine store (fun e => .store ("sqlite insert error: " ++ e))
    fun rows => rows.insertOrReplace store.keyPrefix data

def del (db : SqliteDb) (engine : Option String) (store : SqliteCollection) :
    Except StoreError Unit × SqliteDb :=
  run db engine store .entryNotFound
    fun rows => rows.deleteWhere fun p => decide (p = store.keyPrefix)

def purge (db : SqliteDb) (engine : Option String) (store : SqliteCollection) :
    Except StoreError Unit × SqliteDb :=
  run db engine store (fun e => .store ("SQLITE purge error: " ++ e))
    fun rows => rows.deleteWhere fun p => decide (p = store.keyPrefix)

end State

namespace Collection

/-- `conn.execute` of a statement that changes the rows of the table. -/
def run (db : SqliteDb) (engine : Option String) (store : SqliteCollection)
    (failed : String → StoreError)
    (f : KeyedRows (Str × Str) Bytes → KeyedRows (Str × Str) Bytes) :
    Except StoreError Unit × SqliteDb :=
  match SqliteDb.rowsOf db.collections engine store.table with
  | .error e => (.error (failed e), db)
  | .ok rows =>
      (.ok (),
        { db with
          collections := Function.update db.collections store.table (some (f rows)) })

def get (db : SqliteDb) (engine : Option String) (store : SqliteCollection)
    (key : Str) : Except StoreError Bytes :=
  queryRow (SqliteDb.rowsOf db.collections engine store.table)
    (store.keyPrefix, key)

def put (db : SqliteDb) (engine : Option String) (store : SqliteCollection)
    (key : Str) (data : Bytes) : Except StoreError Unit × SqliteDb :=
  run db engine store (fun e => .store ("sqlite insert error: " ++ e))
    fun rows => rows.insertOrReplace (store.keyPrefix, key) data

def del (db : SqliteDb) (engine : Option String) (store : SqliteCollection)
    (key : Str) : Except StoreError Unit × SqliteDb :=
  run db engine store .entryNotFound
    fun rows => rows.deleteWhere fun row => decide (row = (store.keyPrefix, key))

def purge (db : SqliteDb) (engine : Option String) (store : SqliteCollection) :
    Except StoreError Unit × SqliteDb :=
  run db engine store (fun e => .store ("SQLITE purge error: " ++ e))
    fun rows => rows.deleteWhere fun row => decide (row.1 = store.keyPrefix)

/-- `ORDER BY sn ASC` and `ORDER BY sn DESC`. -/
def orderBySn (reverse : Bool) (a b : (Str × Str) × Bytes) : Ordering :=
  if reverse then compare b.1.2 a.1.2 else compare a.1.2 b.1.2

/-- `make_iter`: the values are read before the iterator is returned. -/
def makeIter (db : SqliteDb) (engine : Option String)
    (store : SqliteCollection) (reverse : Bool) :
    Except String (List (Str × Bytes)) :=
  (SqliteDb.rowsOf db.collections engine store.table).map fun rows =>
    (rows.select (fun row => decide (row.1 = store.keyPrefix))
      fun a b => (orderBySn reverse a b).isLE).map fun row => (row.1.2, row.2)

/-- A statement that fails gives an empty iterator. -/
def iter (db : SqliteDb) (engine : Option String) (store : SqliteCollection)
    (reverse : Bool) : List (Str × Bytes) :=
  match makeIter db engine store reverse with
  | .ok items => items
  | .error _ => []

end Collection

end SqliteCollection

end Database
end Rush
