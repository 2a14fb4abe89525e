import Rush.Database.MemoryBackend
import Rush.Database.SqliteBackend

/-!
# The memory backend and the SQLite backend agree

Both refine the same specification of a table, so whatever is called, in any
order and through any handles, they answer alike and hold the same entries.
-/

namespace Rush
namespace Database

open Foundation

namespace MemoryManager

/-- What the collection of a prefix has stored under a key. -/
def storedEntry (manager : MemoryManager) (name p key : Str) : Option Bytes :=
  (manager.content ⟨name, p⟩)[p ++ '.' :: key]?

/-- What the state of a prefix has stored. -/
def storedState (manager : MemoryManager) (name p : Str) : Option Bytes :=
  (manager.content ⟨name, p⟩)[p]?

end MemoryManager

namespace SqliteDb

def storedEntry (db : SqliteDb) (name p key : Str) : Option Bytes :=
  (db.collections name).bind fun rows => rows.find? (p, key)

def storedState (db : SqliteDb) (name p : Str) : Option Bytes :=
  (db.states name).bind fun rows => rows.find? p

theorem HoldsCollections.storedEntry_eq {name : Str} {db : SqliteDb}
    {ps : List Str} {ns : Namespaces} (h : HoldsCollections name db ps ns)
    (p key : Str) : db.storedEntry name p key = (ns p)[key]? := by
  unfold storedEntry
  rcases h with ⟨rows, hrows, hlookup⟩ | ⟨hnone, -, rfl⟩
  · simp [hrows, hlookup p key]
  · simp [hnone, Namespaces.empty]

theorem HoldsStates.storedState_eq {name : Str} {db : SqliteDb}
    {ps : List Str} {slots : Slots} (h : HoldsStates name db ps slots)
    (p : Str) : db.storedState name p = slots p := by
  unfold storedState
  rcases h with ⟨rows, hrows, hlookup⟩ | ⟨hnone, -, rfl⟩
  · simp [hrows, hlookup p]
  · simp [hnone]

end SqliteDb

/-- The same collections of a name: the same handles, the same entries and no
others, and the same answers of every handle. -/
structure SameCollections (name : Str) (m : Handles MemoryManager)
    (s : Handles SqliteDb) : Prop where
  opened : m.opened = s.opened
  stored : ∀ p key,
    m.held.storedEntry name p key = s.held.storedEntry name p key
  owned : ∀ p, ∀ raw ∈ m.held.content ⟨name, p⟩, ∃ key, raw = p ++ '.' :: key
  get : ∀ p ∈ m.opened, ∀ key,
    MemoryStore.Collection.get m.held ⟨name, p⟩ key =
      SqliteCollection.Collection.get s.held none ⟨name, p⟩ key
  iter : ∀ p ∈ m.opened, ∀ reverse,
    MemoryStore.Collection.iter m.held ⟨name, p⟩ reverse =
      .ok (SqliteCollection.Collection.iter s.held none ⟨name, p⟩ reverse)

/-- The same states of a name. -/
structure SameStates (name : Str) (m : Handles MemoryManager)
    (s : Handles SqliteDb) : Prop where
  opened : m.opened = s.opened
  stored : ∀ p, m.held.storedState name p = s.held.storedState name p
  owned : ∀ p, ∀ raw ∈ m.held.content ⟨name, p⟩, raw = p
  get : ∀ p ∈ m.opened,
    MemoryStore.State.get m.held ⟨name, p⟩ =
      SqliteCollection.State.get s.held none ⟨name, p⟩

/-- Sessions that are related to one specification have the same
collections. -/
theorem sameCollections_of_related {name : Str} {m : Handles MemoryManager}
    {s : Handles SqliteDb} {t : Handles Namespaces}
    (hm : Backend.Related (MemoryManager.HoldsCollections name) m t)
    (hs : Backend.Related (SqliteDb.HoldsCollections name) s t) :
    SameCollections name m s := by
  obtain ⟨hmopened, hmheld⟩ := hm
  obtain ⟨hsopened, hsheld⟩ := hs
  have hopened : m.opened = s.opened := hmopened.trans hsopened.symm
  -- the answers go through the specification that both refine
  have hmrefines := MemoryManager.collections_refines false name
  have hsrefines := SqliteDb.collections_refines false name
  refine ⟨hopened, ?_, ?_, ?_, ?_⟩
  · intro p key
    rw [hsheld.storedEntry_eq p key]
    exact (hmheld p).lookup p (Set.mem_singleton p) key
  · intro p raw hraw
    obtain ⟨q, hq, key, hkey⟩ := (hmheld p).owned raw hraw
    exact ⟨key, Set.mem_singleton_iff.mp hq ▸ hkey⟩
  · intro p hp key
    have hmget := hmrefines.get key hmheld hp
    have hsget := hsrefines.get key hsheld (hopened ▸ hp)
    exact hmget.trans hsget.symm
  · intro p hp reverse
    have hmiter := hmrefines.read (.iter reverse) hmheld hp
    have hsiter := hsrefines.read (.iter reverse) hsheld (hopened ▸ hp)
    exact CollectionAnswer.items.inj (hmiter.trans hsiter.symm)

theorem sameStates_of_related {name : Str} {m : Handles MemoryManager}
    {s : Handles SqliteDb} {t : Handles Slots}
    (hm : Backend.Related (MemoryManager.HoldsStates name) m t)
    (hs : Backend.Related (SqliteDb.HoldsStates name) s t) :
    SameStates name m s := by
  obtain ⟨hmopened, hmheld⟩ := hm
  obtain ⟨hsopened, hsheld⟩ := hs
  have hopened : m.opened = s.opened := hmopened.trans hsopened.symm
  refine ⟨hopened, ?_, ?_, ?_⟩
  · intro p
    have hown := hmheld p p
    rw [if_pos rfl] at hown
    exact hown.trans (hsheld.storedState_eq p).symm
  · intro p raw hraw
    by_contra hne
    rw [Std.ExtTreeMap.mem_iff_isSome_getElem?, hmheld p raw, if_neg hne] at hraw
    simp at hraw
  · intro p hp
    have hmget := (MemoryManager.states_refines name).get () hmheld hp
    have hsget := (SqliteDb.states_refines name).get () hsheld (hopened ▸ hp)
    exact hmget.trans hsget.symm

/-- **The two backends agree.**  From new managers, over every sequence of calls
through handles of any prefixes, the collections of a name answer alike and hold
the same, and so do the states of a name; only the results of removing absent
entries may differ. -/
theorem memory_agrees_sqlite (overflowChecks : Bool) (name : Str) :
    (∀ ops : List (Operation Str CollectionQuery),
      Agree (SameCollections name) SameOutcome
        (execute (MemoryManager.collections overflowChecks name).step
          ⟨MemoryManager.new, []⟩ ops)
        (execute (SqliteDb.collectionsOf overflowChecks name).step
          ⟨SqliteDb.new, []⟩ ops)) ∧
    (∀ ops : List (Operation Unit Empty),
      Agree (SameStates name) SameOutcome
        (execute (MemoryManager.states name).step ⟨MemoryManager.new, []⟩ ops)
        (execute (SqliteDb.statesOf name).step ⟨SqliteDb.new, []⟩ ops)) := by
  constructor
  · intro ops
    have hm : Backend.Related (MemoryManager.HoldsCollections name)
        ⟨MemoryManager.new, []⟩ ⟨Namespaces.empty, []⟩ :=
      ⟨rfl, fun p => Represents.empty {p}⟩
    have hs : Backend.Related (SqliteDb.HoldsCollections name)
        ⟨SqliteDb.new, []⟩ ⟨Namespaces.empty, []⟩ :=
      ⟨rfl, Or.inr ⟨rfl, rfl, rfl⟩⟩
    have hagree := (MemoryManager.collections_refines overflowChecks name).agree
      (SqliteDb.collections_refines overflowChecks name) hm hs ops
    refine hagree.mono ?_ fun _ _ h => h
    intro m s hrel
    obtain ⟨t, hmt, hst⟩ := hrel
    exact sameCollections_of_related hmt hst
  · intro ops
    have hm : Backend.Related (MemoryManager.HoldsStates name)
        ⟨MemoryManager.new, []⟩ ⟨fun _ => none, []⟩ := by
      refine ⟨rfl, ?_⟩
      intro p raw
      simp [MemoryManager.new, MemoryManager.content]
    have hs : Backend.Related (SqliteDb.HoldsStates name)
        ⟨SqliteDb.new, []⟩ ⟨fun _ => none, []⟩ :=
      ⟨rfl, Or.inr ⟨rfl, rfl, rfl⟩⟩
    have hagree := (MemoryManager.states_refines name).agree
      (SqliteDb.states_refines name) hm hs ops
    refine hagree.mono ?_ fun _ _ h => h
    intro m s hrel
    obtain ⟨t, hmt, hst⟩ := hrel
    exact sameStates_of_related hmt hst

end Database
end Rush
