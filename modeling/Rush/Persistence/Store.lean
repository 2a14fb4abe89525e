import Rush.Actor.Error
import Rush.Database.Collection
import Rush.Persistence.EventKey

/-!
# The store actor

`Store<P>` of `store/src/store.rs`.  The two trait objects `events` and `states`
are an ordered table and at most one stored value; every call on them may fail
with an error that leaves them as they were, and a failing `last` yields
nothing, since it goes through an iterator.  Encoding, encryption and the actor
itself are parameters (`Platform`), and what the calls of one command answer is
the `Env` of that command: each call occurs at most once in a command, except
the `get` of different event numbers.
-/

namespace Rush
namespace Persistence

open Foundation Database Actor

/-- Nonce size for ChaCha20-Poly1305 encryption. -/
def nonceSize : Nat := 12

abbrev Key := { bytes : Bytes // bytes.length = 32 }

abbrev Nonce := { bytes : Bytes // bytes.length = nonceSize }

/-- `bincode` at the types of the store; errors are their texts. -/
structure Codec (P E : Type) where
  encodeEvent : E → Except String Bytes
  decodeEvent : Bytes → Except String E
  encodeState : P × UInt64 → Except String Bytes
  decodeState : Bytes → Except String (P × UInt64)

/-- `ChaCha20Poly1305`. -/
structure Cipher where
  encrypt : Key → Nonce → Bytes → Except String Bytes
  decrypt : Key → Nonce → Bytes → Except String Bytes

/-- Defines the persistence strategy for an actor. -/
inductive PersistenceType
  | light
  | full
deriving DecidableEq

/-- What an actor implements of the trait `PersistentActor`.  `apply` may change
the state before it fails. -/
structure PersistentActor (P E : Type) where
  persistence : PersistenceType
  apply : P → E → P × Except ActorError Unit
  update : P → P → P := fun _ state => state

/-- The code around the store, and whether `u64` additions are checked. -/
structure Platform (P E : Type) where
  codec : Codec P E
  cipher : Cipher
  actor : PersistentActor P E
  overflowChecks : Bool

/-- The calls on the database. -/
inductive DbCall
  | createCollection
  | createState
  | eventsGet (i : UInt64)
  | eventsPut
  | eventsLast
  | eventsPurge
  | statesGet
  | statesPut
  | statesPurge
deriving DecidableEq

/-- The places where the key is unsealed. -/
inductive KeyUse
  | persist
  | lastEvent
  | getState
  | event (i : UInt64)
  | snapshot
deriving DecidableEq

/-- What the calls of one command answer. -/
structure Env where
  fault : DbCall → Option StoreError
  sealPassword : Option String
  unlock : KeyUse → Bool
  eventNonce : Nonce
  stateNonce : Nonce

/-- Nothing fails. -/
def Env.Healthy (env : Env) : Prop :=
  (∀ call, env.fault call = none) ∧ env.sealPassword = none ∧
    ∀ keyUse, env.unlock keyUse = true

/-- The two tables of a store. -/
structure Tables where
  events : Table
  states : Option Bytes

/-- Store actor that manages persistent storage for a PersistentActor. -/
structure Store extends Tables where
  eventCounter : UInt64
  stateCounter : UInt64
  keyBox : Option Key

section Definitions

variable {P E : Type} (pf : Platform P E) (env : Env)

/-- `n + 1` on `u64`. -/
def Platform.succ (n : UInt64) : Except (Failure StoreError) UInt64 :=
  if n.toNat + 1 < 2 ^ 64 then .ok (n + 1)
  else if pf.overflowChecks then .error .panic
  else .ok 0

/-- The loop of `recover` over the events to replay. -/
def Platform.applyAll : P → List E → Except (Failure StoreError) P
  | state, [] => .ok state
  | state, event :: events =>
      match pf.actor.apply state event with
      | (state, .ok ()) => applyAll state events
      | (_, .error e) => .error (.error (.store e.display))

namespace Store

/-- Encrypt bytes. -/
def encrypt (key : Key) (nonce : Nonce) (bytes : Bytes) :
    Except (Failure StoreError) Bytes :=
  match pf.cipher.encrypt key nonce bytes with
  | .error e => .error (.error (.store ("Encrypt error: " ++ e)))
  | .ok ciphertext => .ok (nonce.val ++ ciphertext)

/-- Decrypt bytes; splitting off the nonce of a shorter value panics. -/
def decrypt (key : Key) (ciphertext : Bytes) :
    Except (Failure StoreError) Bytes :=
  if h : (ciphertext.take nonceSize).length = nonceSize then
    match pf.cipher.decrypt key ⟨_, h⟩ (ciphertext.drop nonceSize) with
    | .error e => .error (.error (.store ("Decrypt error: " ++ e)))
    | .ok plaintext => .ok plaintext
  else .error .panic

/-- `bincode::serde::encode_to_vec` of an event. -/
def encodeEvent (event : E) : Except (Failure StoreError) Bytes :=
  match pf.codec.encodeEvent event with
  | .error e => .error (.error (.store ("Can't encode event: " ++ e)))
  | .ok bytes => .ok bytes

/-- `bincode::serde::decode_from_slice` of an event. -/
def decodeEvent (data : Bytes) : Except (Failure StoreError) E :=
  match pf.codec.decodeEvent data with
  | .error e => .error (.error (.store ("Can't decode event: " ++ e)))
  | .ok event => .ok event

/-- Creates a new store actor over the tables of its name and prefix. -/
def new (tables : Tables) (password : Option Key) : Except StoreError Store :=
  match password, env.sealPassword with
  | some _, some e => .error (.store ("Can't encrypt password: " ++ e))
  | _, _ =>
      match env.fault .createCollection with
      | some e => .error e
      | none =>
          match env.fault .createState with
          | some e => .error e
          | none =>
              let last :=
                if (env.fault .eventsLast).isSome then none
                else tables.events.last?
              let initialEventCounter :=
                match last with
                | none => 0
                | some (key, _) =>
                    match parseU64 key with
                    | .error _ => 0
                    | .ok counter => counter
              .ok
                { tables with
                  eventCounter := initialEventCounter
                  stateCounter := 0
                  keyBox := password }

variable (store : Store)

/-- `self.events.last()`. -/
def last : Option (Str × Bytes) :=
  if (env.fault .eventsLast).isSome then none else store.events.last?

/-- `self.events.get` of an event number. -/
def getEvent (i : UInt64) : Except StoreError Bytes :=
  match env.fault (.eventsGet i) with
  | some e => .error e
  | none => store.events.get (eventKey i)

/-- The bytes to store for an event: how `persist` and `persist_state` begin. -/
def sealEvent (event : E) : Except (Failure StoreError) Bytes :=
  match store.keyBox with
  | none => encodeEvent pf event
  | some key =>
      if env.unlock .persist then do
        let bytes ← encodeEvent pf event
        encrypt pf key env.eventNonce bytes
      else .error (.error (.store "Can't decrypt key"))

/-- The event in a stored value, as `last_event` and `events` read it. -/
def openEvent (keyUse : KeyUse) (data : Bytes) :
    Except (Failure StoreError) E :=
  match store.keyBox with
  | none => decodeEvent pf data
  | some key =>
      if env.unlock keyUse then do
        let data ← decrypt pf key data
        decodeEvent pf data
      else .error (.error (.store "Can't decrypt key"))

/-- Returns the last event. -/
def lastEvent : Except (Failure StoreError) (Option E) :=
  match store.last env with
  | none => .ok none
  | some (_, data) =>
      match store.openEvent pf env .lastEvent data with
      | .error e => .error e
      | .ok event => .ok (some event)

/-- The number under which `persist` stores the next event. -/
def nextEventNumber : Except (Failure StoreError) UInt64 :=
  if store.eventCounter ≠ 0 then pf.succ store.eventCounter
  else
    match store.lastEvent pf env with
    | .ok (some _) => pf.succ store.eventCounter
    | .ok none => .ok 0
    | .error (.error _) => .ok 0
    | .error .panic => .error .panic

/-- Persist an event.  The counter moves only after a successful `put`. -/
def persist (event : E) : Except (Failure StoreError) Unit × Store :=
  match store.sealEvent pf env event with
  | .error e => (.error e, store)
  | .ok bytes =>
      match store.nextEventNumber pf env with
      | .error e => (.error e, store)
      | .ok next =>
          match env.fault .eventsPut with
          | some e => (.error (.error e), store)
          | none =>
              (.ok (),
                { store with
                  events := store.events.insert (eventKey next) bytes
                  eventCounter := next })

/-- The bytes to store for a snapshot.  When the key can't be unsealed the data
is stored as it is. -/
def sealState (actor : P) (counter : UInt64) :
    Except (Failure StoreError) Bytes :=
  match pf.codec.encodeState (actor, counter) with
  | .error e => .error (.error (.store ("Can't encode actor: " ++ e)))
  | .ok data =>
      match store.keyBox with
      | none => .ok data
      | some key =>
          if env.unlock .snapshot then encrypt pf key env.stateNonce data
          else .ok data

/-- Snapshot the state. -/
def snapshot (actor : P) : Except (Failure StoreError) Unit × Store :=
  let store := { store with stateCounter := store.eventCounter }
  match store.sealState pf env actor store.stateCounter with
  | .error e => (.error e, store)
  | .ok bytes =>
      match env.fault .statesPut with
      | some e => (.error (.error e), store)
      | none => (.ok (), { store with states := some bytes })

/-- Persist an event and the state, the event under the current counter. -/
def persistState (event : E) (state : P) :
    Except (Failure StoreError) Unit × Store :=
  match store.sealEvent pf env event with
  | .error e => (.error e, store)
  | .ok bytes =>
      match store.snapshot pf env state with
      | (.error e, store) => (.error e, store)
      | (.ok (), store) =>
          match env.fault .eventsPut with
          | some e => (.error (.error e), store)
          | none =>
              (.ok (),
                { store with
                  events :=
                    store.events.insert (eventKey store.eventCounter) bytes })

/-- `self.states.get()`, with the absence of a snapshot told apart. -/
def getStateData : Except (Failure StoreError) (Option Bytes) :=
  match env.fault .statesGet with
  | some (.entryNotFound _) => .ok none
  | some e => .error (.error e)
  | none => .ok store.states

/-- The snapshot and its counter, if there is one. -/
def getState : Except (Failure StoreError) (Option (P × UInt64)) := do
  match ← store.getStateData env with
  | none => return none
  | some data =>
      let bytes ←
        match store.keyBox with
        | none => .ok data
        | some key =>
            if env.unlock .getState then decrypt pf key data
            else .error (.error (.store "Can't decrypt key"))
      match pf.codec.decodeState bytes with
      | .error e => .error (.error (.store ("Can't decode state: " ++ e)))
      | .ok state => return some state

/-- The loop of `events` over `count` numbers from `i` on: it ends at the first
number that can't be got. -/
def eventsFrom : Nat → UInt64 → Except (Failure StoreError) (List E)
  | 0, _ => .ok []
  | count + 1, i =>
      match store.getEvent env i with
      | .error _ => .ok []
      | .ok data => do
          let event ← store.openEvent pf env (.event i) data
          let events ← eventsFrom count (i + 1)
          return event :: events

/-- Retrieve events: `for i in from..=to`. -/
def eventsIn (start stop : UInt64) : Except (Failure StoreError) (List E) :=
  store.eventsFrom pf env (stop.toNat + 1 - start.toNat) start

/-- The events after the snapshot, applied to its state. -/
def replay (state : P) : Except (Failure StoreError) P := do
  let start ← pf.succ store.stateCounter
  let events ← store.eventsIn pf env start store.eventCounter
  pf.applyAll state events

/-- Recover the state. -/
def recover : Except (Failure StoreError) (Option P) × Store :=
  match store.getState pf env with
  | .error e => (.error e, store)
  | .ok none => (.ok none, store)
  | .ok (some (state, counter)) =>
      let store := { store with stateCounter := counter }
      match store.last env with
      | none => (.ok (some state), store)
      | some (key, _) =>
          match parseU64 key with
          | .error e =>
              (.error (.error (.store ("Can't parse event key: " ++ e))), store)
          | .ok counter =>
              let store := { store with eventCounter := counter }
              if store.eventCounter ≠ store.stateCounter then
                match store.replay pf env state with
                | .error e => (.error e, store)
                | .ok state =>
                    match store.snapshot pf env state with
                    | (.error e, store) => (.error e, store)
                    | (.ok (), store) => (.ok (some state), store)
              else (.ok (some state), store)

/-- Purge the store: both tables, but not the counters. -/
def purge : Except (Failure StoreError) Unit × Store :=
  match env.fault .eventsPurge with
  | some e => (.error (.error e), store)
  | none =>
      let store := { store with events := ∅ }
      match env.fault .statesPurge with
      | some e => (.error (.error e), store)
      | none => (.ok (), { store with states := none })

end Store

end Definitions

/-- Store command. -/
inductive StoreCommand (P E : Type)
  | persist (event : E)
  | persistLight (event : E) (actor : P)
  | snapshot (actor : P)
  | lastEvent
  | lastEventNumber
  | lastEventsFrom (start : UInt64)
  | getEvents (start stop : UInt64)
  | recover
  | purge
deriving DecidableEq

/-- Store response. -/
inductive StoreResponse (P E : Type)
  | none
  | persisted
  | snapshotted
  | state (state : Option P)
  | lastEvent (event : Option E)
  | lastEventNumber (number : UInt64)
  | events (events : List E)
  | error (error : StoreError)
deriving DecidableEq

section Handler

variable {P E : Type} (pf : Platform P E) (env : Env)

/-- A command whose errors are answered as `StoreResponse::Error`. -/
def respond {α : Type} (response : α → StoreResponse P E) :
    Except (Failure StoreError) α →
      Except (Failure ActorError) (StoreResponse P E)
  | .ok a => .ok (response a)
  | .error (.error e) => .ok (.error e)
  | .error .panic => .error .panic

/-- A query of events, whose errors are errors of the handler. -/
def respondEvents (context : String) :
    Except (Failure StoreError) (List E) →
      Except (Failure ActorError) (StoreResponse P E)
  | .ok events => .ok (.events events)
  | .error (.error e) => .error (.error (.store (context ++ e.display)))
  | .error .panic => .error .panic

namespace Store

/-- `Handler::handle_message`. -/
def handleMessage (store : Store) : StoreCommand P E →
    Except (Failure ActorError) (StoreResponse P E) × Store
  | .persist event =>
      let (result, store) := store.persist pf env event
      (respond (fun _ => .persisted) result, store)
  | .persistLight event actor =>
      let (result, store) := store.persistState pf env event actor
      (respond (fun _ => .persisted) result, store)
  | .snapshot actor =>
      let (result, store) := store.snapshot pf env actor
      (respond (fun _ => .snapshotted) result, store)
  | .recover =>
      let (result, store) := store.recover pf env
      (respond .state result, store)
  | .getEvents start stop =>
      (respondEvents "Unable to get events range: "
        (store.eventsIn pf env start stop), store)
  | .lastEvent => (respond .lastEvent (store.lastEvent pf env), store)
  | .purge =>
      let (result, store) := store.purge env
      (respond (fun _ => .none) result, store)
  | .lastEventNumber => (.ok (.lastEventNumber store.eventCounter), store)
  | .lastEventsFrom start =>
      (respondEvents "Unable to get the latest events: "
        (store.eventsIn pf env start store.eventCounter), store)

/-- `ActorRef::ask` on a running store: a handler that panics drops the channel
of the response. -/
def ask (command : StoreCommand P E) (store : Store) :
    Except ActorError (StoreResponse P E) × Store :=
  match store.handleMessage pf env command with
  | (.ok response, store) => (.ok response, store)
  | (.error (.error e), store) => (.error e, store)
  | (.error .panic, store) => (.error (.send "channel closed"), store)

end Store

end Handler

end Persistence
end Rush
