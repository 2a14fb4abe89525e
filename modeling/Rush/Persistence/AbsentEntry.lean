import Rush.Database.Memory
import Rush.Database.RocksDb
import Rush.Database.Sqlite
import Rush.Persistence.CounterActor
import Rush.Persistence.StoreSpec

/-!
# Absent entries and failed reads

The six `get` methods of the three backends, with everything that decides what
they return: the content, the lock, and what the engine says.  `get_state` of
the store turns `EntryNotFound` into "no state", and `recover` passes this on.
The memory and RocksDB backends report `EntryNotFound` for an absent entry only.
`query_row` of SQLite returns one error for a missing row and for a statement
that fails, and both `get` methods of `SqliteCollection` map it to
`EntryNotFound`.
-/

namespace Rush
namespace Persistence

open Foundation Database Actor

/-- The text of a `PoisonError`. -/
def poisonError : String := "poisoned lock: another task failed inside"

/-- A call that takes a lock first; `context` begins the error of a poisoned
one. -/
def underLock {α : Type} (context : String) (poisoned : Bool)
    (call : Except StoreError α) : Except StoreError α :=
  if poisoned then .error (.store (context ++ poisonError)) else call

/-- The calls of `State::get` and `Collection::get`.  There is one constructor
for each implementation. -/
inductive BackendGet
  | memoryState (manager : MemoryManager) (poisoned : Bool) (store : MemoryStore)
  | memoryCollection (manager : MemoryManager) (poisoned : Bool)
      (store : MemoryStore) (key : Str)
  | rocksDbState (db : RocksDb) (engine : Option String) (store : RocksDbStore)
  | rocksDbCollection (db : RocksDb) (engine : Option String)
      (store : RocksDbStore) (key : Str)
  | sqliteState (db : SqliteDb) (poisoned : Bool) (engine : Option String)
      (store : SqliteCollection)
  | sqliteCollection (db : SqliteDb) (poisoned : Bool) (engine : Option String)
      (store : SqliteCollection) (key : Str)

namespace BackendGet

/-- What the method returns. -/
def result : BackendGet → Except StoreError Bytes
  | memoryState manager poisoned store =>
      underLock "Can not lock data: " poisoned
        (MemoryStore.State.get manager store)
  | memoryCollection manager poisoned store key =>
      underLock "Can not lock data: " poisoned
        (MemoryStore.Collection.get manager store key)
  | rocksDbState db engine store => RocksDbStore.State.get db engine store
  | rocksDbCollection db engine store key =>
      RocksDbStore.Collection.get db engine store key
  | sqliteState db poisoned engine store =>
      underLock "sqlite open connection: " poisoned
        (SqliteCollection.State.get db engine store)
  | sqliteCollection db poisoned engine store key =>
      underLock "sqlite open connection: " poisoned
        (SqliteCollection.Collection.get db engine store key)

/-- The stored entry that the call asks for. -/
def entry : BackendGet → Option Bytes
  | memoryState manager _ store => (manager.content store)[store.keyPrefix]?
  | memoryCollection manager _ store key =>
      (manager.content store)[store.rawKey key]?
  | rocksDbState db _ store =>
      (db.families store.name).bind fun family => family[store.keyPrefix]?
  | rocksDbCollection db _ store key =>
      (db.families store.name).bind fun family => family[store.rawKey key]?
  | sqliteState db _ _ store =>
      (db.states store.table).bind fun rows => rows.find? store.keyPrefix
  | sqliteCollection db _ _ store key =>
      (db.collections store.table).bind fun rows =>
        rows.find? (store.keyPrefix, key)

/-- The engine answers: the lock is not poisoned, the table is there, and the
engine reports no error. -/
def Answered : BackendGet → Prop
  | memoryState _ poisoned _ => poisoned = false
  | memoryCollection _ poisoned _ _ => poisoned = false
  | rocksDbState db engine store =>
      db.families store.name ≠ none ∧ engine = none
  | rocksDbCollection db engine store _ =>
      db.families store.name ≠ none ∧ engine = none
  | sqliteState db poisoned engine store =>
      poisoned = false ∧ db.states store.table ≠ none ∧ engine = none
  | sqliteCollection db poisoned engine store _ =>
      poisoned = false ∧ db.collections store.table ≠ none ∧ engine = none

/-- A statement of SQLite fails after the lock has been taken. -/
def SqliteStatementFails : BackendGet → Prop
  | sqliteState db poisoned engine store =>
      poisoned = false ∧ (db.states store.table = none ∨ engine ≠ none)
  | sqliteCollection db poisoned engine store _ =>
      poisoned = false ∧ (db.collections store.table = none ∨ engine ≠ none)
  | _ => False

/-- A call of `State::get`. -/
def OfState : BackendGet → Prop
  | memoryState .. | rocksDbState .. | sqliteState .. => True
  | _ => False

end BackendGet

section Classification

variable {e : StoreError} {data : Bytes}

/-- An error that is not `EntryNotFound`. -/
def IsFailure (e : StoreError) : Prop := ∀ message, e ≠ .entryNotFound message

/-- What a method says of an entry, when it reports an absent entry and a
failure apart: `answered` and `entry` decide the result. -/
structure Classifies (result : Except StoreError Bytes) (answered : Prop)
    (entry : Option Bytes) : Prop where
  found : ∀ data, result = .ok data ↔ answered ∧ entry = some data
  absent : (∃ message, result = .error (.entryNotFound message)) ↔
    answered ∧ entry = none
  failed : (∃ e, result = .error e ∧ IsFailure e) ↔ ¬ answered

theorem classifies_ok (data : Bytes) {answered : Prop} (h : answered) :
    Classifies (.ok data) answered (some data) := by
  refine ⟨?_, ?_, ?_⟩ <;> simp [h]

theorem classifies_absent (message : String) {answered : Prop} (h : answered) :
    Classifies (.error (.entryNotFound message)) answered none := by
  refine ⟨?_, ?_, ?_⟩ <;> simp [h, IsFailure]

theorem classifies_failure {answered : Prop} {entry : Option Bytes}
    (he : IsFailure e) (h : ¬ answered) :
    Classifies (.error e) answered entry := by
  unfold IsFailure at he
  refine ⟨by simp [h], ?_, ?_⟩
  · simpa [h] using he
  · simpa [h, IsFailure] using he

theorem isFailure_store (message : String) : IsFailure (.store message) := by
  simp [IsFailure]

theorem isFailure_get (message : String) : IsFailure (.get message) := by
  simp [IsFailure]

/-- A lock adds a failure of its own. -/
theorem Classifies.underLock {call : Except StoreError Bytes} {answered : Prop}
    {entry : Option Bytes} (h : Classifies call answered entry)
    (context : String) (poisoned : Bool) :
    Classifies (underLock context poisoned call) (poisoned = false ∧ answered)
      entry := by
  cases poisoned with
  | true => exact classifies_failure (isFailure_store _) (by simp)
  | false => simpa [Persistence.underLock] using h

/-- The lookup of a byte-ordered map. -/
theorem classifies_tableGet (table : Table) (key : Str) :
    Classifies (table.get key) True table[key]? := by
  unfold Table.get
  cases table[key]? with
  | some data => exact classifies_ok data trivial
  | none => exact classifies_absent _ trivial

/-- `get_cf` reports an error of RocksDB as `Error::Get`. -/
theorem classifies_getRaw (db : RocksDb) (engine : Option String)
    (store : RocksDbStore) (raw : Str) :
    Classifies (store.getRaw db engine raw)
      (db.families store.name ≠ none ∧ engine = none)
      ((db.families store.name).bind fun family => family[raw]?) := by
  unfold RocksDbStore.getRaw
  cases db.families store.name with
  | none => exact classifies_failure (isFailure_store _) (by simp)
  | some family =>
      cases engine with
      | some e => exact classifies_failure (isFailure_get _) (by simp)
      | none => simpa using classifies_tableGet family raw

section Sqlite

variable {κ : Type} [DecidableEq κ]

/-- A statement that SQLite carries out tells a missing row apart. -/
theorem classifies_queryRow (tables : Str → Option (KeyedRows κ Bytes))
    {engine : Option String} {table : Str} (key : κ)
    (h : tables table ≠ none ∧ engine = none) :
    Classifies
      (SqliteCollection.queryRow (SqliteDb.rowsOf tables engine table) key)
      (tables table ≠ none ∧ engine = none)
      ((tables table).bind fun rows => rows.find? key) := by
  obtain ⟨htable, rfl⟩ := h
  obtain ⟨rows, hrows⟩ := Option.ne_none_iff_exists'.mp htable
  unfold SqliteCollection.queryRow SqliteDb.rowsOf
  rw [hrows]
  cases hfind : rows.find? key with
  | some data => simpa [hfind] using classifies_ok data trivial
  | none =>
      simpa [hfind] using classifies_absent "Query returned no rows" trivial

/-- A statement that fails is reported as a missing row. -/
theorem queryRow_of_fails (tables : Str → Option (KeyedRows κ Bytes))
    {engine : Option String} {table : Str} (key : κ)
    (h : tables table = none ∨ engine ≠ none) :
    ∃ message,
      SqliteCollection.queryRow (SqliteDb.rowsOf tables engine table) key =
        .error (.entryNotFound message) := by
  unfold SqliteCollection.queryRow SqliteDb.rowsOf
  cases engine with
  | some e => exact ⟨e, rfl⟩
  | none =>
      have htable : tables table = none := by simpa using h
      simp only [htable]
      exact ⟨_, rfl⟩

end Sqlite

end Classification

namespace BackendGet

variable {get : BackendGet}

/-- Every `get` but one whose SQLite statement fails classifies its entry. -/
theorem classifies (h : ¬ get.SqliteStatementFails) :
    Classifies get.result get.Answered get.entry := by
  cases get with
  | memoryState manager poisoned store =>
      have hget := classifies_tableGet (manager.content store) store.keyPrefix
      have hlocked := hget.underLock "Can not lock data: " poisoned
      rw [and_true] at hlocked
      exact hlocked
  | memoryCollection manager poisoned store key =>
      have hget := classifies_tableGet (manager.content store)
        (store.rawKey key)
      have hlocked := hget.underLock "Can not lock data: " poisoned
      rw [and_true] at hlocked
      exact hlocked
  | rocksDbState db engine store =>
      exact classifies_getRaw db engine store store.keyPrefix
  | rocksDbCollection db engine store key =>
      exact classifies_getRaw db engine store (store.rawKey key)
  | sqliteState db poisoned engine store =>
      cases poisoned with
      | true => exact classifies_failure (isFailure_store _) (by simp [Answered])
      | false =>
          have hanswered : db.states store.table ≠ none ∧ engine = none := by
            simpa [SqliteStatementFails] using h
          exact (classifies_queryRow db.states store.keyPrefix
            hanswered).underLock "sqlite open connection: " false
  | sqliteCollection db poisoned engine store key =>
      cases poisoned with
      | true => exact classifies_failure (isFailure_store _) (by simp [Answered])
      | false =>
          have hanswered : db.collections store.table ≠ none ∧ engine = none := by
            simpa [SqliteStatementFails] using h
          exact (classifies_queryRow db.collections (store.keyPrefix, key)
            hanswered).underLock "sqlite open connection: " false

/-- A failed statement is reported as an absent entry, whatever is stored. -/
theorem result_of_fails (h : get.SqliteStatementFails) :
    (∃ message, get.result = .error (.entryNotFound message)) ∧
      ¬ get.Answered := by
  cases get with
  | sqliteState db poisoned engine store =>
      obtain ⟨rfl, hfails⟩ := h
      refine ⟨queryRow_of_fails db.states store.keyPrefix hfails, ?_⟩
      rintro ⟨-, htable, hengine⟩
      exact hfails.elim htable fun hne => hne hengine
  | sqliteCollection db poisoned engine store key =>
      obtain ⟨rfl, hfails⟩ := h
      refine ⟨queryRow_of_fails db.collections (store.keyPrefix, key) hfails, ?_⟩
      rintro ⟨-, htable, hengine⟩
      exact hfails.elim htable fun hne => hne hengine
  | _ => exact h.elim

end BackendGet

/-- The error of a call, if it fails. -/
def faultOf : Except StoreError Bytes → Option StoreError
  | .ok _ => none
  | .error e => some e

/-- `self.states.get()` of the store is this call: the snapshot of the store is
the entry of the call, and the call reports its error. -/
structure Store.ReadsSnapshotBy (store : Store) (env : Env) (get : BackendGet) :
    Prop where
  ofState : get.OfState
  stored : store.states = get.entry
  fault : env.fault .statesGet = faultOf get.result

namespace Store

variable {P E : Type} {pf : Platform P E} {env : Env} {store : Store}
  {get : BackendGet}

/-- `get_state` sees no snapshot exactly when the call reports `EntryNotFound`. -/
theorem getStateData_eq_none_iff
    (hcall : Classifies get.result get.Answered get.entry)
    (hreads : store.ReadsSnapshotBy env get) :
    store.getStateData env = .ok none ↔
      ∃ message, get.result = .error (.entryNotFound message) := by
  have hfault := hreads.fault
  unfold getStateData
  rw [hfault, hreads.stored]
  cases hresult : get.result with
  | ok data =>
      have hentry := ((hcall.found data).mp hresult).2
      simp [faultOf, hentry]
  | error e => cases e <;> simp [faultOf]

theorem getStateData_of_getState (h : store.getState pf env = .ok none) :
    store.getStateData env = .ok none := by
  unfold getState at h
  cases hdata : store.getStateData env with
  | error e => simp [hdata, bind, Except.bind] at h
  | ok found =>
      cases found with
      | none => rfl
      | some data =>
          simp only [hdata, bind, Except.bind] at h
          repeat' split at h
          all_goals simp_all [pure, Except.pure]

/-- `Recover` answers that there is no state only when `get_state` sees none. -/
theorem getState_of_recover
    (h : (store.ask pf env .recover).1 = .ok (.state none)) :
    store.getState pf env = .ok none := by
  have hresult : (store.recover pf env).1 = .ok none := by
    unfold ask handleMessage at h
    rcases hrecover : store.recover pf env with ⟨(e | _) | found, store'⟩ <;>
      simp_all [respond]
  cases hrecovery : store.recover pf env with
  | mk result store' =>
      have hcases := recovery pf env store
      rw [hrecovery] at hresult hcases
      subst hresult
      cases hcases with
      | noSnapshot hstate => exact hstate

end Store

section Law

variable {P E : Type}

/-- The law of one `get` call: `EntryNotFound` means that the engine answered
and that there is no entry, every failure of the engine is another error, and a
store that reads its snapshot by the call finds no state only when it holds no
snapshot. -/
structure AbsenceExact (pf : Platform P E) (get : BackendGet) : Prop where
  absent : (∃ message, get.result = .error (.entryNotFound message)) ↔
    get.Answered ∧ get.entry = none
  failed : ¬ get.Answered → ∃ e, get.result = .error e ∧ IsFailure e
  getState : ∀ (store : Store) (env : Env), store.ReadsSnapshotBy env get →
    store.getState pf env = .ok none → store.states = none
  recover : ∀ (store : Store) (env : Env), store.ReadsSnapshotBy env get →
    (store.ask pf env .recover).1 = .ok (.state none) → store.states = none

/-- The law holds of every call whose SQLite statement, if it has one, does not
fail: of all calls on the memory and the RocksDB backend, and of the calls on
SQLite that meet a poisoned lock or a working statement. -/
theorem absenceExact_iff (pf : Platform P E) (get : BackendGet) :
    AbsenceExact pf get ↔ ¬ get.SqliteStatementFails := by
  constructor
  · intro hlaw hfails
    obtain ⟨habsent, hanswered⟩ := BackendGet.result_of_fails hfails
    exact hanswered (hlaw.absent.mp habsent).1
  · intro hworks
    have hcall := BackendGet.classifies hworks
    have hnone : ∀ (store : Store) (env : Env), store.ReadsSnapshotBy env get →
        store.getState pf env = .ok none → store.states = none := by
      intro store env hreads hstate
      have hdata := Store.getStateData_of_getState hstate
      have habsent := (Store.getStateData_eq_none_iff hcall hreads).mp hdata
      rw [hreads.stored]
      exact (hcall.absent.mp habsent).2
    exact
      { absent := hcall.absent
        failed := hcall.failed.mpr
        getState := hnone
        recover := fun store env hreads hanswer =>
          hnone store env hreads (Store.getState_of_recover hanswer) }

end Law

namespace CounterActor

/-- A busy database that holds a snapshot. -/
def busySnapshot : BackendGet :=
  .sqliteState
    { collections := fun _ => none
      states := fun _ => some (KeyedRows.empty.insertOrReplace "a".toList [5, 0]) }
    false (some "database is locked") ⟨"states".toList, "a".toList⟩

/-- The store of that snapshot, and what its calls answer. -/
def busyStore : Store where
  events := ∅
  states := some [5, 0]
  eventCounter := 0
  stateCounter := 0
  keyBox := none

def busyEnv : Env :=
  { env with
    fault := fun call =>
      if call = .statesGet then some (.entryNotFound "database is locked")
      else none }

/-- The snapshot is there, the engine fails, and `recover` answers that there is
no state. -/
theorem busySnapshot_reported_absent :
    busyStore.ReadsSnapshotBy busyEnv busySnapshot ∧
      busyStore.states ≠ none ∧ ¬ busySnapshot.Answered ∧
      busySnapshot.result = .error (.entryNotFound "database is locked") ∧
      (busyStore.ask platform busyEnv .recover).1 = .ok (.state none) ∧
      ¬ AbsenceExact platform busySnapshot := by
  have hreads : busyStore.ReadsSnapshotBy busyEnv busySnapshot :=
    ⟨trivial, by decide, rfl⟩
  have hanswer : (busyStore.ask platform busyEnv .recover).1 =
      .ok (.state none) := rfl
  refine ⟨hreads, by decide, ?_, rfl, hanswer, ?_⟩
  · rintro ⟨-, -, hengine⟩
    contradiction
  · intro hlaw
    exact absurd (hlaw.recover busyStore busyEnv hreads hanswer) (by decide)

end CounterActor

end Persistence
end Rush
