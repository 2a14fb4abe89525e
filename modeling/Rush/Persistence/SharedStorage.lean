import Rush.Database.BackendSpec
import Rush.Foundation.Interleaving
import Rush.Persistence.StoreRun

/-!
# The stores of several actors, each over the tables of its key

Actors that call `start_store` with one store name and no prefix use the tables
`{name}_events` and `{name}_states` of the manager under the key of their path,
which is its last segment; every store keeps its own counters in memory.  Here
each key has tables for itself.  That is what the managers are held to: which of
them give that, and for which keys, is proved of each one.
-/

namespace Rush
namespace Persistence

open Foundation Database Actor

/-- The default of `start_store`: `prefix`, or else `ctx.path().key()`. -/
def storePrefix (keyPrefix : Option Str) (path : ActorPath) : Str :=
  match keyPrefix with
  | some keyPrefix => keyPrefix
  | none => path.key

/-- What a manager that keeps prefixes apart holds under one store name. -/
structure Storage where
  events : Namespaces
  states : Slots

namespace Storage

/-- The tables of a prefix. -/
def tables (storage : Storage) (p : Str) : Tables :=
  ⟨storage.events p, storage.states p⟩

def write (storage : Storage) (p : Str) (tables : Tables) : Storage :=
  ⟨Function.update storage.events p tables.events,
    Function.update storage.states p tables.states⟩

theorem tables_write (storage : Storage) (p q : Str) (tables : Tables) :
    (storage.write p tables).tables q =
      if q = p then tables else storage.tables q := by
  unfold Storage.tables write
  by_cases hq : q = p <;> simp [hq]

end Storage

/-- What a store keeps in memory. -/
structure Memory where
  eventCounter : UInt64
  stateCounter : UInt64
  keyBox : Option Key

/-- The session of a store with this memory, if there is one. -/
def Session.over (tables : Tables) : Option Memory → Session
  | none => .closed tables
  | some memory =>
      .opened
        { tables with
          eventCounter := memory.eventCounter
          stateCounter := memory.stateCounter
          keyBox := memory.keyBox }

/-- What the store of a session keeps in memory. -/
def Session.memory : Session → Option Memory
  | .closed _ => none
  | .opened store =>
      some ⟨store.eventCounter, store.stateCounter, store.keyBox⟩

theorem Session.over_memory (session : Session) :
    Session.over session.tables session.memory = session := by
  cases session <;> rfl

/-- The storage of one name, and the stores that run on it. -/
structure ActorStores where
  storage : Storage
  memory : ActorPath → Option Memory

namespace ActorStores

/-- No store has been started yet. -/
def start (storage : Storage) : ActorStores := ⟨storage, fun _ => none⟩

/-- The store of an actor over the tables of its prefix. -/
def session (w : ActorStores) (path : ActorPath) : Session :=
  .over (w.storage.tables (storePrefix none path)) (w.memory path)

def setSession (w : ActorStores) (path : ActorPath) (session : Session) :
    ActorStores :=
  ⟨w.storage.write (storePrefix none path) session.tables,
    Function.update w.memory path session.memory⟩

theorem session_setSession_self (w : ActorStores) (path : ActorPath)
    (session : Session) : (w.setSession path session).session path = session := by
  show Session.over
    ((w.storage.write (storePrefix none path) session.tables).tables
      (storePrefix none path))
    (Function.update w.memory path session.memory path) = session
  rw [Storage.tables_write, if_pos rfl, Function.update_self]
  exact session.over_memory

/-- Another actor keeps its session, unless it has the same key. -/
theorem session_setSession_of_ne (w : ActorStores) {path other : ActorPath}
    (hkey : storePrefix none other ≠ storePrefix none path)
    (session : Session) :
    (w.setSession path session).session other = w.session other := by
  have hpath : other ≠ path := fun h => hkey (h ▸ rfl)
  show Session.over
    ((w.storage.write (storePrefix none path) session.tables).tables
      (storePrefix none other))
    (Function.update w.memory path session.memory other) = w.session other
  rw [Storage.tables_write, if_neg hkey, Function.update_of_ne hpath]
  rfl

section Runs

variable {P E : Type} (pf : ActorPath → Platform P E)
  (password : ActorPath → Option Key)

/-- One request of one actor. -/
def step (w : ActorStores) (input : ActorPath × Request P E) :
    Option (ActorStores × List (ActorPath × Reply P E)) :=
  let (path, request) := input
  match (w.session path).step (pf path) (password path) request with
  | none => none
  | some (session, replies) =>
      some (w.setSession path session, replies.map fun reply => (path, reply))

variable {pf password}

theorem step_eq_some {w w' : ActorStores} {path : ActorPath}
    {request : Request P E} {replies : List (ActorPath × Reply P E)}
    (h : step pf password w (path, request) = some (w', replies)) :
    ∃ session own,
      (w.session path).step (pf path) (password path) request =
        some (session, own) ∧
      w' = w.setSession path session ∧
      replies = own.map fun reply => (path, reply) := by
  unfold step at h
  simp only at h
  split at h
  · cases h
  · cases h
    exact ⟨_, _, ‹_›, rfl, rfl⟩

/-- A request leaves the sessions of other keys as they are. -/
theorem session_of_step {w w' : ActorStores} {path other : ActorPath}
    {request : Request P E} {replies : List (ActorPath × Reply P E)}
    (h : step pf password w (path, request) = some (w', replies))
    (hkey : storePrefix none other ≠ storePrefix none path) :
    w'.session other = w.session other := by
  obtain ⟨session, own, -, rfl, -⟩ := step_eq_some h
  exact w.session_setSession_of_ne hkey session

theorem tables_session (w : ActorStores) (path : ActorPath) :
    (w.session path).tables = w.storage.tables (storePrefix none path) := by
  unfold session
  cases w.memory path <;> rfl

/-- The part of one actor in the runs of all. -/
def actor (pf : ActorPath → Platform P E) (password : ActorPath → Option Key)
    (path : ActorPath) :
    Component ActorStores Session (ActorPath × Request P E) (Request P E)
      (ActorPath × Reply P E) (Reply P E) where
  view w := w.session path
  input i := if i.1 = path then some i.2 else none
  observation o := if o.1 = path then some o.2 else none
  step := Session.step (pf path) (password path)

theorem step_follows {path : ActorPath} {w w' : ActorStores}
    {input : ActorPath × Request P E} {replies : List (ActorPath × Reply P E)}
    (hkey : input.1 ≠ path → storePrefix none path ≠ storePrefix none input.1)
    (h : step pf password w input = some (w', replies)) :
    (actor pf password path).Follows w input w' replies := by
  obtain ⟨other, request⟩ := input
  obtain ⟨session, own, hown, rfl, rfl⟩ := step_eq_some h
  unfold Component.Follows
  by_cases hpath : other = path
  · subst hpath
    -- the request is its own
    have hmine : (own.map fun reply => (other, reply)).filterMap
        (actor pf password other).observation = own := by
      simp [actor, List.filterMap_map]
    rw [hmine]
    simpa [actor, session_setSession_self] using hown
  -- the request is another actor's, whose key is different
  · have hother : (own.map fun reply => (other, reply)).filterMap
        (actor pf password path).observation = [] := by
      simp [actor, List.filterMap_map, hpath]
    rw [hother]
    simpa [actor, hpath] using w.session_setSession_of_ne (hkey hpath) session

/-- **An actor with a key of its own runs as if it were alone.**  What it is
answered in a run of all actors is what it is answered when only its own
requests are made. -/
theorem replies_alone {path : ActorPath} {w w' : ActorStores}
    {inputs : List (ActorPath × Request P E)}
    {replies : List (ActorPath × Reply P E)}
    (hkeys : ∀ input ∈ inputs, input.1 ≠ path →
      storePrefix none path ≠ storePrefix none input.1)
    (hrun : execute (step pf password) w inputs = some (w', replies)) :
    execute (Session.step (pf path) (password path)) (w.session path)
        (inputs.filterMap (actor pf password path).input) =
      some (w'.session path,
        replies.filterMap (actor pf password path).observation) :=
  (actor pf password path).execute_project
    (fun _ _ _ _ hkey h => step_follows hkey h) hkeys hrun

end Runs

end ActorStores

end Persistence
end Rush
