import Rush.Database.Collection
import Mathlib.Logic.Function.Basic

/-!
# The memory backend

`store/src/memory.rs`.  The manager keeps one ordered map for each pair of a
name and a prefix, and never removes one.  A handle shares the map of its pair
with every other handle of the pair.  A collection stores the key `k` under
`prefix.k` in its map, a state stores its value under the bare prefix.  Locks
are not modelled: no call panics while it holds the lock of a map for writing.
-/

namespace Rush
namespace Database

open Foundation

/-- `MemoryManager`: the maps by name and prefix. -/
structure MemoryManager where
  data : Str × Str → Option Table

/-- `MemoryStore`: a collection or a state, with the map of its name and
prefix. -/
structure MemoryStore where
  name : Str
  keyPrefix : Str
deriving DecidableEq

namespace MemoryManager

/-- `MemoryManager::default()`. -/
def new : MemoryManager := ⟨fun _ => none⟩

/-- The body of `create_state` and of `create_collection`. -/
def createStore (manager : MemoryManager) (name keyPrefix : Str) :
    Except StoreError MemoryStore × MemoryManager :=
  match manager.data (name, keyPrefix) with
  | some _ => (.ok ⟨name, keyPrefix⟩, manager)
  | none =>
      (.ok ⟨name, keyPrefix⟩,
        ⟨Function.update manager.data (name, keyPrefix) (some ∅)⟩)

def createState (manager : MemoryManager) (name keyPrefix : Str) :
    Except StoreError MemoryStore × MemoryManager :=
  manager.createStore name keyPrefix

def createCollection (manager : MemoryManager) (name keyPrefix : Str) :
    Except StoreError MemoryStore × MemoryManager :=
  manager.createStore name keyPrefix

/-- The content of the map that a handle shares. -/
def content (manager : MemoryManager) (store : MemoryStore) : Table :=
  (manager.data (store.name, store.keyPrefix)).getD ∅

/-- Change the content of the map that a handle shares. -/
def setContent (manager : MemoryManager) (store : MemoryStore)
    (table : Table) : MemoryManager :=
  ⟨Function.update manager.data (store.name, store.keyPrefix) (some table)⟩

theorem content_setContent (manager : MemoryManager) (store other : MemoryStore)
    (table : Table) :
    (manager.setContent store table).content other =
      if other = store then table else manager.content other := by
  unfold content setContent
  by_cases h : other = store
  · simp [h]
  · have hpair : (other.name, other.keyPrefix) ≠ (store.name, store.keyPrefix) := by
      intro heq
      obtain ⟨hname, hprefix⟩ := Prod.mk.inj heq
      exact h (by cases other; cases store; simp_all)
    simp [Function.update_of_ne hpair, h]

/-- A new map is empty, and no other map changes. -/
theorem content_createStore (manager : MemoryManager) (name keyPrefix : Str)
    (store : MemoryStore) :
    (manager.createStore name keyPrefix).2.content store =
      manager.content store := by
  unfold createStore content
  cases hdata : manager.data (name, keyPrefix) with
  | some table => rfl
  | none =>
      by_cases h : (store.name, store.keyPrefix) = (name, keyPrefix)
      · simp [h, hdata]
      · simp [Function.update_of_ne h]

end MemoryManager

namespace MemoryStore

/-- The raw key of a collection entry: `format!("{}.{}", self.prefix, key)`. -/
def rawKey (store : MemoryStore) (key : Str) : Str :=
  store.keyPrefix ++ '.' :: key

/-- `lock.insert(raw, data)`. -/
def putRaw (manager : MemoryManager) (store : MemoryStore) (raw : Str)
    (data : Bytes) : Except StoreError Unit × MemoryManager :=
  (.ok (), manager.setContent store ((manager.content store).insert raw data))

/-- `lock.remove(raw)`: it reports an absent key. -/
def delRaw (manager : MemoryManager) (store : MemoryStore) (raw : Str) :
    Except StoreError Unit × MemoryManager :=
  match (manager.content store)[raw]? with
  | some _ =>
      (.ok (), manager.setContent store ((manager.content store).erase raw))
  | none => (.error (.entryNotFound "Query returned no rows"), manager)

/-- The keys of a map that both `purge` methods remove. -/
def keysToRemove (store : MemoryStore) (table : Table) : List Str :=
  (table.toList.map Prod.fst).filter fun key => store.keyPrefix.isPrefixOf key

/-- The body of both `purge` methods. -/
def purgeRaw (manager : MemoryManager) (store : MemoryStore) :
    Except StoreError Unit × MemoryManager :=
  let table := manager.content store
  (.ok (), manager.setContent store
    ((store.keysToRemove table).foldl Std.ExtTreeMap.erase table))

namespace State

def get (manager : MemoryManager) (store : MemoryStore) :
    Except StoreError Bytes :=
  (manager.content store).get store.keyPrefix

def put (manager : MemoryManager) (store : MemoryStore) (data : Bytes) :
    Except StoreError Unit × MemoryManager :=
  store.putRaw manager store.keyPrefix data

def del (manager : MemoryManager) (store : MemoryStore) :
    Except StoreError Unit × MemoryManager :=
  store.delRaw manager store.keyPrefix

def purge (manager : MemoryManager) (store : MemoryStore) :
    Except StoreError Unit × MemoryManager :=
  store.purgeRaw manager

end State

namespace Collection

def get (manager : MemoryManager) (store : MemoryStore) (key : Str) :
    Except StoreError Bytes :=
  (manager.content store).get (store.rawKey key)

def put (manager : MemoryManager) (store : MemoryStore) (key : Str)
    (data : Bytes) : Except StoreError Unit × MemoryManager :=
  store.putRaw manager (store.rawKey key) data

def del (manager : MemoryManager) (store : MemoryStore) (key : Str) :
    Except StoreError Unit × MemoryManager :=
  store.delRaw manager (store.rawKey key)

def purge (manager : MemoryManager) (store : MemoryStore) :
    Except StoreError Unit × MemoryManager :=
  store.purgeRaw manager

/-- `&key[self.prefix.len() + 1..]`, with the value of the entry. -/
def cutKey (store : MemoryStore) (entry : Str × Bytes) :
    Option (Str × Bytes) :=
  (sliceFrom entry.1 (utf8Len store.keyPrefix + 1)).map
    fun key => (key, entry.2)

/-- The iterator is a vector that the call collects, so the call itself panics
when a key cannot be cut. -/
def iter (manager : MemoryManager) (store : MemoryStore) (reverse : Bool) :
    Except (Failure StoreError) (List (Str × Bytes)) :=
  let entries := ((manager.content store).entries reverse).filter
    fun entry => store.keyPrefix.isPrefixOf entry.1
  match entries.mapM (cutKey store) with
  | some items => .ok items
  | none => .error .panic

end Collection

end MemoryStore

end Database
end Rush
