import Rush.Database.RocksDbBackend
import Rush.Database.SqliteBackend

/-!
# The two tables of a store name on one manager

A store keeps its events in a collection and its state in a state of the same
manager, under the names `{name}_events` and `{name}_states`.  A manager serves
stores when both refine their specification and neither disturbs the other.
-/

namespace Rush
namespace Database

open Foundation

/-- The table names of `Store::new`. -/
def eventsTable (name : Str) : Str := name ++ "_events".toList

def statesTable (name : Str) : Str := name ++ "_states".toList

theorem eventsTable_ne_statesTable (name : Str) :
    eventsTable name ≠ statesTable name := by
  intro h
  exact absurd (List.append_cancel_left h) (by decide)

/-- The collections and the states that stores use. -/
structure Manager (σ : Type) where
  events : Backend σ Str CollectionQuery CollectionAnswer
  states : Backend σ Unit Empty Empty

/-- No write breaks a property of what is held. -/
structure Backend.Keeps {σ κ ρ α : Type} (B : Backend σ κ ρ α)
    (I : σ → Prop) : Prop where
  create : ∀ {s} p, I s → I (B.create s p).2
  put : ∀ {s} p key data, I s → I (B.put s p key data).2
  del : ∀ {s} p key, I s → I (B.del s p key).2
  purge : ∀ {s} p, I s → I (B.purge s p).2

/-- Both tables refine their specification for the prefixes of `P`, and a write
to one leaves the other as it is. -/
structure Manager.Serves {σ : Type} (m : Manager σ) (overflowChecks : Bool)
    (P : Set Str) (H : σ → List Str → Namespaces → Prop)
    (K : σ → List Str → Slots → Prop) : Prop where
  events : Backend.RefinesOn P m.events (Namespaces.collections overflowChecks) H
  states : Backend.RefinesOn P m.states Slots.states K
  statesKept : ∀ qs slots, m.events.Keeps fun s => K s qs slots
  eventsKept : ∀ ps ns, m.states.Keeps fun s => H s ps ns

/-! ### The memory manager -/

namespace MemoryManager

def manager (overflowChecks : Bool) (name : Str) : Manager MemoryManager where
  events := collections overflowChecks (eventsTable name)
  states := states (statesTable name)

/-- The second manager has the maps of a name as the first one has them. -/
def SameMaps (name : Str) (manager manager' : MemoryManager) : Prop :=
  ∀ p, manager'.content ⟨name, p⟩ = manager.content ⟨name, p⟩

variable {name other : Str}

theorem sameMaps_createStore (manager : MemoryManager) (p : Str) :
    SameMaps other manager (manager.createStore name p).2 :=
  fun q => content_createStore manager name p ⟨other, q⟩

theorem sameMaps_setContent (hne : other ≠ name) (manager : MemoryManager)
    (p : Str) (table : Table) :
    SameMaps other manager (manager.setContent ⟨name, p⟩ table) := by
  intro q
  rw [content_setContent, if_neg]
  intro h
  exact hne (MemoryStore.mk.inj h).1

theorem sameMaps_delRaw (hne : other ≠ name) (manager : MemoryManager)
    (p raw : Str) :
    SameMaps other manager (MemoryStore.delRaw manager ⟨name, p⟩ raw).2 := by
  unfold MemoryStore.delRaw
  split
  · exact sameMaps_setContent hne manager p _
  · exact fun _ => rfl

theorem HoldsCollections.of_sameMaps {manager manager' : MemoryManager}
    {ps : List Str} {ns : Namespaces} (h : HoldsCollections name manager ps ns)
    (hsame : SameMaps name manager manager') :
    HoldsCollections name manager' ps ns := by
  intro p
  rw [hsame p]
  exact h p

theorem HoldsStates.of_sameMaps {manager manager' : MemoryManager}
    {ps : List Str} {slots : Slots} (h : HoldsStates name manager ps slots)
    (hsame : SameMaps name manager manager') :
    HoldsStates name manager' ps slots := by
  intro p raw
  rw [hsame p]
  exact h p raw

/-- A property of the maps of another name is kept by the collections. -/
theorem collections_keeps {overflowChecks : Bool} {I : MemoryManager → Prop}
    (hne : other ≠ name)
    (hI : ∀ s s', SameMaps other s s' → I s → I s') :
    (collections overflowChecks name).Keeps I where
  create p := hI _ _ (sameMaps_createStore _ p)
  put p _ _ := hI _ _ (sameMaps_setContent hne _ p _)
  del p _ := hI _ _ (sameMaps_delRaw hne _ p _)
  purge p := hI _ _ (sameMaps_setContent hne _ p _)

theorem states_keeps {I : MemoryManager → Prop} (hne : other ≠ name)
    (hI : ∀ s s', SameMaps other s s' → I s → I s') : (states name).Keeps I where
  create p := hI _ _ (sameMaps_createStore _ p)
  put p _ _ := hI _ _ (sameMaps_setContent hne _ p _)
  del p _ := hI _ _ (sameMaps_delRaw hne _ p _)
  purge p := hI _ _ (sameMaps_setContent hne _ p _)

theorem manager_serves (overflowChecks : Bool) (name : Str) (P : Set Str) :
    (manager overflowChecks name).Serves overflowChecks P
      (HoldsCollections (eventsTable name)) (HoldsStates (statesTable name)) where
  events := (collections_refines overflowChecks _).refinesOn P
  states := (states_refines _).refinesOn P
  statesKept _ _ := collections_keeps (eventsTable_ne_statesTable name).symm
    fun _ _ hsame h => HoldsStates.of_sameMaps h hsame
  eventsKept _ _ := states_keeps (eventsTable_ne_statesTable name)
    fun _ _ hsame h => HoldsCollections.of_sameMaps h hsame

end MemoryManager

/-! ### The SQLite manager -/

namespace SqliteDb

def manager (overflowChecks : Bool) (name : Str) : Manager SqliteDb where
  events := collectionsOf overflowChecks (eventsTable name)
  states := statesOf (statesTable name)

/-- The manager over an SQLite that answers the statements on a table with the error
that `refuses` has for its name. -/
def managerUnder (refuses : Str → Option String) (overflowChecks : Bool)
    (name : Str) : Manager SqliteDb where
  events := collectionsUnder (refuses (eventsTable name)) overflowChecks
    (eventsTable name)
  states := statesUnder (refuses (statesTable name)) (statesTable name)

/-- SQLite accepts the names of both tables of a store. -/
def Accepts (refuses : Str → Option String) (name : Str) : Prop :=
  refuses (eventsTable name) = none ∧ refuses (statesTable name) = none

theorem managerUnder_of_accepts {refuses : Str → Option String} {name : Str}
    (haccepts : Accepts refuses name) (overflowChecks : Bool) :
    managerUnder refuses overflowChecks name = manager overflowChecks name := by
  obtain ⟨hevents, hstates⟩ := haccepts
  rw [managerUnder, hevents, hstates]
  rfl

theorem states_collectionRun (db : SqliteDb) (store : SqliteCollection)
    (failed : String → StoreError)
    (f : KeyedRows (Str × Str) Bytes → KeyedRows (Str × Str) Bytes) :
    (SqliteCollection.Collection.run db none store failed f).2.states =
      db.states := by
  unfold SqliteCollection.Collection.run
  split <;> rfl

theorem collections_stateRun (db : SqliteDb) (store : SqliteCollection)
    (failed : String → StoreError)
    (f : KeyedRows Str Bytes → KeyedRows Str Bytes) :
    (SqliteCollection.State.run db none store failed f).2.collections =
      db.collections := by
  unfold SqliteCollection.State.run
  split <;> rfl

theorem HoldsStates.of_eq {name : Str} {db db' : SqliteDb} {ps : List Str}
    {slots : Slots} (heq : db'.states = db.states)
    (h : HoldsStates name db ps slots) : HoldsStates name db' ps slots := by
  unfold HoldsStates at *
  rwa [heq]

theorem HoldsCollections.of_eq {name : Str} {db db' : SqliteDb} {ps : List Str}
    {ns : Namespaces} (heq : db'.collections = db.collections)
    (h : HoldsCollections name db ps ns) : HoldsCollections name db' ps ns := by
  unfold HoldsCollections at *
  rwa [heq]

theorem manager_serves (overflowChecks : Bool) (name : Str) (P : Set Str) :
    (manager overflowChecks name).Serves overflowChecks P
      (HoldsCollections (eventsTable name)) (HoldsStates (statesTable name)) where
  events := (collections_refines overflowChecks _).refinesOn P
  states := (states_refines _).refinesOn P
  statesKept _ _ :=
    { create := fun _ => HoldsStates.of_eq rfl
      put := fun _ _ _ => HoldsStates.of_eq (states_collectionRun _ _ _ _)
      del := fun _ _ => HoldsStates.of_eq (states_collectionRun _ _ _ _)
      purge := fun _ => HoldsStates.of_eq (states_collectionRun _ _ _ _) }
  eventsKept _ _ :=
    { create := fun _ => HoldsCollections.of_eq rfl
      put := fun _ _ _ => HoldsCollections.of_eq (collections_stateRun _ _ _ _)
      del := fun _ _ => HoldsCollections.of_eq (collections_stateRun _ _ _ _)
      purge := fun _ => HoldsCollections.of_eq (collections_stateRun _ _ _ _) }

end SqliteDb

/-! ### The RocksDB manager -/

namespace RocksDb

def manager (overflowChecks : Bool) (name : Str) : Manager RocksDb where
  events := collections overflowChecks (eventsTable name)
  states := states (statesTable name)

variable {name other : Str}

theorem families_createStore_of_ne (hne : other ≠ name) (db : RocksDb)
    (p : Str) : (db.createStore none name p).2.families other =
      db.families other := by
  unfold createStore
  split
  · rfl
  · exact Function.update_of_ne hne _ _

theorem families_writeRaw_of_ne (hne : other ≠ name) (db : RocksDb) (p : Str)
    (f : Table → Table) :
    (RocksDbStore.writeRaw db none ⟨name, p⟩ f).2.families other =
      db.families other := by
  unfold RocksDbStore.writeRaw
  split
  · rfl
  · exact Function.update_of_ne hne _ _

theorem families_purgeKeys_of_ne {store : RocksDbStore} (hne : other ≠ store.name)
    (delete : Str → Option String) (raws : List Str) (db : RocksDb) :
    (store.purgeKeys delete raws db).2.families other = db.families other := by
  induction raws generalizing db with
  | nil => rfl
  | cons raw raws ih =>
      unfold RocksDbStore.purgeKeys
      split
      · split
        · rfl
        · rw [ih]
          exact Function.update_of_ne hne _ _
      · exact ih db

theorem families_purgeRaw_of_ne (hne : other ≠ name) (db : RocksDb)
    (engine : PurgeEngine) (p : Str) :
    (RocksDbStore.purgeRaw db engine ⟨name, p⟩).2.families other =
      db.families other := by
  unfold RocksDbStore.purgeRaw
  split
  · rfl
  · exact families_purgeKeys_of_ne hne _ _ db

theorem Holds.of_eq {τ : Type} {P : Set Str} {F : Table → τ → Prop}
    {db db' : RocksDb} {ps : List Str} {t : τ}
    (heq : db'.families name = db.families name) (h : Holds P F name db ps t) :
    Holds P F name db' ps t := by
  unfold Holds at *
  rwa [heq]

variable {I : RocksDb → Prop} (hne : other ≠ name)
  (hI : ∀ db db', db'.families other = db.families other → I db → I db')

include hne hI

/-- A property of another family is kept. -/
theorem collections_keeps {overflowChecks : Bool} :
    (collections overflowChecks name).Keeps I where
  create p := hI _ _ (families_createStore_of_ne hne _ p)
  put p _ _ := hI _ _ (families_writeRaw_of_ne hne _ p _)
  del p _ := hI _ _ (families_writeRaw_of_ne hne _ p _)
  purge p := hI _ _ (families_purgeRaw_of_ne hne _ _ p)

theorem states_keeps : (states name).Keeps I where
  create p := hI _ _ (families_createStore_of_ne hne _ p)
  put p _ _ := hI _ _ (families_writeRaw_of_ne hne _ p _)
  del p _ := hI _ _ (families_writeRaw_of_ne hne _ p _)
  purge p := hI _ _ (families_purgeRaw_of_ne hne _ _ p)

omit hne hI

theorem manager_serves (overflowChecks : Bool) (name : Str) {P : Set Str}
    (hfree : PrefixFree P) :
    (manager overflowChecks name).Serves overflowChecks P
      (Holds P (Represents P) (eventsTable name))
      (Holds P (StoresSlots P) (statesTable name)) where
  events := collections_refines overflowChecks _ hfree
  states := states_refines _ hfree
  statesKept _ _ := collections_keeps (eventsTable_ne_statesTable name).symm
    fun _ _ heq h => Holds.of_eq heq h
  eventsKept _ _ := states_keeps (eventsTable_ne_statesTable name)
    fun _ _ heq h => Holds.of_eq heq h

end RocksDb

end Database
end Rush
