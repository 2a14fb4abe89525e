import Rush.Database.Manager
import Rush.Persistence.SharedStorage

/-!
# The store over the handles of a manager

The functions of the store once more, now with every call that the code makes on
its `Box<dyn Collection>` and `Box<dyn State>`.  What they do besides is taken
from the store over its tables, where it depends on the key alone.  A call that
the engine refuses leaves what is held as it is.
-/

namespace Rush
namespace Persistence

open Foundation Database Actor

/-- A store, over what the manager holds. -/
structure ManagerStore (σ : Type) extends Memory where
  held : σ

/-- The store of a memory, for what it does without its tables. -/
def Memory.store (memory : Memory) : Store where
  events := ∅
  states := none
  eventCounter := memory.eventCounter
  stateCounter := memory.stateCounter
  keyBox := memory.keyBox

/-- The entry that `last` has found. -/
def lastOf : CollectionAnswer → Except (Failure StoreError) (Option (Str × Bytes))
  | .entry result => result
  | _ => .ok none

/-- The number of the last event, 0 when there is none or its key is no number. -/
def initialEventCounter : Option (Str × Bytes) → UInt64
  | none => 0
  | some (key, _) =>
      match parseU64 key with
      | .error _ => 0
      | .ok counter => counter

section Definitions

variable {σ P E : Type} (m : Manager σ) (pf : Platform P E) (env : Env) (p : Str)

namespace ManagerStore

variable (store : ManagerStore σ)

/-- `self.events.last()`. -/
def last : Except (Failure StoreError) (Option (Str × Bytes)) :=
  if (env.fault .eventsLast).isSome then .ok none
  else lastOf (m.events.read store.held p .last)

/-- `self.events.get` of an event number. -/
def getEvent (i : UInt64) : Except StoreError Bytes :=
  match env.fault (.eventsGet i) with
  | some e => .error e
  | none => m.events.get store.held p (eventKey i)

/-- What a write has returned, and what is held after it. -/
def wrote (written : Except StoreError Unit × σ) :
    Except (Failure StoreError) Unit × ManagerStore σ :=
  (written.1.mapError .error, { store with held := written.2 })

/-- `self.events.put`. -/
def putEvent (i : UInt64) (bytes : Bytes) :
    Except (Failure StoreError) Unit × ManagerStore σ :=
  match env.fault .eventsPut with
  | some e => (.error (.error e), store)
  | none => store.wrote (m.events.put store.held p (eventKey i) bytes)

/-- `self.states.put`. -/
def putState (bytes : Bytes) :
    Except (Failure StoreError) Unit × ManagerStore σ :=
  match env.fault .statesPut with
  | some e => (.error (.error e), store)
  | none => store.wrote (m.states.put store.held p () bytes)

/-- `self.states.get()`, with the absence of a snapshot told apart. -/
def getStateData : Except (Failure StoreError) (Option Bytes) :=
  let data : Except StoreError Bytes :=
    match env.fault .statesGet with
    | some e => .error e
    | none => m.states.get store.held p ()
  match data with
  | .ok data => .ok (some data)
  | .error (.entryNotFound _) => .ok none
  | .error e => .error (.error e)

/-- Returns the last event. -/
def lastEvent : Except (Failure StoreError) (Option E) :=
  match store.last m env p with
  | .error e => .error e
  | .ok none => .ok none
  | .ok (some (_, data)) =>
      match store.toMemory.store.openEvent pf env .lastEvent data with
      | .error e => .error e
      | .ok event => .ok (some event)

/-- The number under which `persist` stores the next event. -/
def nextEventNumber : Except (Failure StoreError) UInt64 :=
  if store.eventCounter ≠ 0 then pf.succ store.eventCounter
  else
    match store.lastEvent m pf env p with
    | .ok (some _) => pf.succ store.eventCounter
    | .ok none => .ok 0
    | .error (.error _) => .ok 0
    | .error .panic => .error .panic

/-- Persist an event.  The counter moves only after a successful `put`. -/
def persist (event : E) : Except (Failure StoreError) Unit × ManagerStore σ :=
  match store.toMemory.store.sealEvent pf env event with
  | .error e => (.error e, store)
  | .ok bytes =>
      match store.nextEventNumber m pf env p with
      | .error e => (.error e, store)
      | .ok next =>
          match store.putEvent m env p next bytes with
          | (.error e, store) => (.error e, store)
          | (.ok (), store) => (.ok (), { store with eventCounter := next })

/-- Snapshot the state. -/
def snapshot (actor : P) : Except (Failure StoreError) Unit × ManagerStore σ :=
  let store := { store with stateCounter := store.eventCounter }
  match store.toMemory.store.sealState pf env actor store.stateCounter with
  | .error e => (.error e, store)
  | .ok bytes => store.putState m env p bytes

/-- Persist an event and the state, the event under the current counter. -/
def persistState (event : E) (state : P) :
    Except (Failure StoreError) Unit × ManagerStore σ :=
  match store.toMemory.store.sealEvent pf env event with
  | .error e => (.error e, store)
  | .ok bytes =>
      match store.snapshot m pf env p state with
      | (.error e, store) => (.error e, store)
      | (.ok (), store) => store.putEvent m env p store.eventCounter bytes

/-- The snapshot and its counter, if there is one. -/
def getState : Except (Failure StoreError) (Option (P × UInt64)) := do
  match ← store.getStateData m env p with
  | none => return none
  | some data =>
      let bytes ←
        match store.keyBox with
        | none => .ok data
        | some key =>
            if env.unlock .getState then Store.decrypt pf key data
            else .error (.error (.store "Can't decrypt key"))
      match pf.codec.decodeState bytes with
      | .error e => .error (.error (.store ("Can't decode state: " ++ e)))
      | .ok state => return some state

/-- The loop of `events` over `count` numbers from `i` on. -/
def eventsFrom : Nat → UInt64 → Except (Failure StoreError) (List E)
  | 0, _ => .ok []
  | count + 1, i =>
      match store.getEvent m env p i with
      | .error _ => .ok []
      | .ok data => do
          let event ← store.toMemory.store.openEvent pf env (.event i) data
          let events ← eventsFrom count (i + 1)
          return event :: events

/-- Retrieve events: `for i in from..=to`. -/
def eventsIn (start stop : UInt64) : Except (Failure StoreError) (List E) :=
  store.eventsFrom m pf env p (stop.toNat + 1 - start.toNat) start

/-- The events after the snapshot, applied to its state. -/
def replay (state : P) : Except (Failure StoreError) P := do
  let start ← pf.succ store.stateCounter
  let events ← store.eventsIn m pf env p start store.eventCounter
  pf.applyAll state events

/-- Recover the state. -/
def recover : Except (Failure StoreError) (Option P) × ManagerStore σ :=
  match store.getState m pf env p with
  | .error e => (.error e, store)
  | .ok none => (.ok none, store)
  | .ok (some (state, counter)) =>
      let store := { store with stateCounter := counter }
      match store.last m env p with
      | .error e => (.error e, store)
      | .ok none => (.ok (some state), store)
      | .ok (some (key, _)) =>
          match parseU64 key with
          | .error e =>
              (.error (.error (.store ("Can't parse event key: " ++ e))), store)
          | .ok counter =>
              let store := { store with eventCounter := counter }
              if store.eventCounter ≠ store.stateCounter then
                match store.replay m pf env p state with
                | .error e => (.error e, store)
                | .ok state =>
                    match store.snapshot m pf env p state with
                    | (.error e, store) => (.error e, store)
                    | (.ok (), store) => (.ok (some state), store)
              else (.ok (some state), store)

/-- Purge the store: both tables, but not the counters. -/
def purge : Except (Failure StoreError) Unit × ManagerStore σ :=
  match env.fault .eventsPurge with
  | some e => (.error (.error e), store)
  | none =>
      match store.wrote (m.events.purge store.held p) with
      | (.error e, store) => (.error e, store)
      | (.ok (), store) =>
          match env.fault .statesPurge with
          | some e => (.error (.error e), store)
          | none => store.wrote (m.states.purge store.held p)

/-- `Handler::handle_message`. -/
def handleMessage : StoreCommand P E →
    Except (Failure ActorError) (StoreResponse P E) × ManagerStore σ
  | .persist event =>
      let (result, store) := store.persist m pf env p event
      (respond (fun _ => .persisted) result, store)
  | .persistLight event actor =>
      let (result, store) := store.persistState m pf env p event actor
      (respond (fun _ => .persisted) result, store)
  | .snapshot actor =>
      let (result, store) := store.snapshot m pf env p actor
      (respond (fun _ => .snapshotted) result, store)
  | .recover =>
      let (result, store) := store.recover m pf env p
      (respond .state result, store)
  | .getEvents start stop =>
      (respondEvents "Unable to get events range: "
        (store.eventsIn m pf env p start stop), store)
  | .lastEvent => (respond .lastEvent (store.lastEvent m pf env p), store)
  | .purge =>
      let (result, store) := store.purge m env p
      (respond (fun _ => .none) result, store)
  | .lastEventNumber => (.ok (.lastEventNumber store.eventCounter), store)
  | .lastEventsFrom start =>
      (respondEvents "Unable to get the latest events: "
        (store.eventsIn m pf env p start store.eventCounter), store)

/-- The handles that `Store::new` creates, with what is held after it. -/
def createTables (held : σ) : Except StoreError Unit × σ :=
  match env.fault .createCollection with
  | some e => (.error e, held)
  | none =>
      match m.events.create held p with
      | (.error e, held) => (.error e, held)
      | (.ok (), held) =>
          match env.fault .createState with
          | some e => (.error e, held)
          | none => m.states.create held p

/-- The store over its handles, with the number of the last event. -/
def opened (password : Option Key) (held : σ) :
    Except (Failure StoreError) (ManagerStore σ) :=
  match last m env p ⟨⟨0, 0, password⟩, held⟩ with
  | .error e => .error e
  | .ok last => .ok ⟨⟨initialEventCounter last, 0, password⟩, held⟩

/-- Creates a new store actor on a manager. -/
def new (password : Option Key) (held : σ) :
    Except (Failure StoreError) (ManagerStore σ) × σ :=
  match password, env.sealPassword with
  | some _, some e =>
      (.error (.error (.store ("Can't encrypt password: " ++ e))), held)
  | _, _ =>
      match createTables m env p held with
      | (.error e, held) => (.error (.error e), held)
      | (.ok (), held) => (opened m env p password held, held)

end ManagerStore

end Definitions

end Persistence
end Rush
