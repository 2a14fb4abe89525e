import Rush.Persistence.Store

/-!
# The methods of a persistent actor

The default methods of the trait `PersistentActor` in `store/src/store.rs`.  The
child `store` of the actor is absent (`none`, when `get_child` finds nothing) or
answers requests through `ask`.
-/

namespace Rush
namespace Persistence

open Foundation Database Actor

variable {P E : Type}

namespace PersistentActor

section Methods

variable {σ : Type} (actor : PersistentActor P E)
  (ask : StoreCommand P E → σ → Except ActorError (StoreResponse P E) × σ)

/-- Persists an event by applying it to state and storing it.  The result, the
state of the actor and the store are returned. -/
def persist (path : ActorPath) (child : Option σ) (state : P) (event : E) :
    Except ActorError Unit × P × Option σ :=
  match child with
  | none => (.error (.store "Can't get store actor"), state, none)
  | some store =>
      match actor.apply state event with
      | (state', .error e) => (.error e, actor.update state' state, some store)
      | (state', .ok ()) =>
          let command : StoreCommand P E :=
            match actor.persistence with
            | .light => .persistLight event state'
            | .full => .persist event
          match ask command store with
          | (.error e, store) =>
              (.error (.store e.display), state', some store)
          | (.ok .persisted, store) => (.ok (), state', some store)
          | (.ok (.error e), store) =>
              (.error (.store e.display), state', some store)
          | (.ok _, store) =>
              (.error (.unexpectedResponse
                  (ActorPath.ofText (path.display ++ "/store".toList))
                  "StoreResponse::Persisted"),
                state', some store)

/-- Snapshot the state.  Any answer of the store will do. -/
def snapshot (child : Option σ) (state : P) :
    Except ActorError Unit × Option σ :=
  match child with
  | none => (.error (.store "Can't get store actor"), none)
  | some store =>
      match ask (.snapshot state) store with
      | (.error e, store) => (.error (.store e.display), some store)
      | (.ok _, store) => (.ok (), some store)

/-- Stop the child store and snapshot the state; `askStop` is what `ask_stop`
answers. -/
def stopStore (askStop : Except ActorError Unit) (child : Option σ)
    (state : P) : Except ActorError Unit × Option σ :=
  match child with
  | none => (.error (.store "Can't get store"), none)
  | some store =>
      match actor.persistence with
      | .light => (askStop, some store)
      | .full =>
          match ask (.snapshot state) store with
          | (.error e, store) => (.error e, some store)
          | (.ok _, store) => (askStop, some store)

end Methods

end PersistentActor

/-- What the calls of one `start_store` answer: those of `Store::new`, of the
command `Recover` and of the first `Snapshot`, and the errors of `create_child`
and of the `tell` that sends the snapshot. -/
structure StartEnv where
  creation : Env
  createChild : Option ActorError
  recovery : Env
  tell : Option ActorError
  firstSnapshot : Env

/-- Nothing fails. -/
structure StartEnv.Healthy (env : StartEnv) : Prop where
  creation : env.creation.Healthy
  createChild : env.createChild = none
  recovery : env.recovery.Healthy
  tell : env.tell = none
  firstSnapshot : env.firstSnapshot.Healthy

/-- The child `store`, with the snapshot that `start_store` has told it while it
has not come to it: what is stored, and what the calls made for it answer. -/
structure StoreChild (P : Type) where
  store : Store
  told : Option (Env × P)

namespace StoreChild

variable (pf : Platform P E)

/-- The store handles the snapshot that it was told, if there is one. -/
def handleTold (child : StoreChild P) : StoreChild P :=
  match child.told with
  | none => child
  | some (env, state) =>
      ⟨(child.store.handleMessage pf env (.snapshot state)).2, none⟩

/-- `ActorRef::ask`: messages are handled in order, so the store comes to what it
was told first. -/
def ask (env : Env) (command : StoreCommand P E) (child : StoreChild P) :
    Except ActorError (StoreResponse P E) × StoreChild P :=
  let (answer, store) := (child.handleTold pf).store.ask pf env command
  (answer, ⟨store, none⟩)

end StoreChild

/-- What `start_store` has left when it returns. -/
structure StartedStore (P : Type) where
  result : Except ActorError Unit
  actor : P
  child : Option (StoreChild P)

/-- Start the child store and recover the state (if any).  The first snapshot is
sent by `tell`, which does not wait for the store. -/
def PersistentActor.startStore (pf : Platform P E) (env : StartEnv)
    (tables : Tables) (password : Option Key) (actor : P) : StartedStore P :=
  match Store.new env.creation tables password with
  | .error e => ⟨.error (.store e.display), actor, none⟩
  | .ok store =>
      match env.createChild with
      | some e => ⟨.error e, actor, none⟩
      | none =>
          match store.ask pf env.recovery .recover with
          | (.error e, store) => ⟨.error e, actor, some ⟨store, none⟩⟩
          | (.ok (.state (some state)), store) =>
              ⟨.ok (), pf.actor.update actor state, some ⟨store, none⟩⟩
          | (.ok _, store) =>
              match env.tell with
              | some e => ⟨.error e, actor, some ⟨store, none⟩⟩
              | none => ⟨.ok (), actor, some ⟨store, some (env.firstSnapshot, actor)⟩⟩

/-- What is left of `start_store` once the store has handled what it was told: the
result, the actor, the store if one has been created, and its answer to the first
snapshot if it was sent. -/
structure StartStore (P E : Type) where
  result : Except ActorError Unit
  actor : P
  store : Option Store
  firstSnapshot : Option (Except (Failure ActorError) (StoreResponse P E))

/-- `start_store`, and the handling of the first snapshot by the store. -/
def startStore (pf : Platform P E) (env : StartEnv) (tables : Tables)
    (password : Option Key) (actor : P) : StartStore P E :=
  match Store.new env.creation tables password with
  | .error e => ⟨.error (.store e.display), actor, none, none⟩
  | .ok store =>
      match env.createChild with
      | some e => ⟨.error e, actor, none, none⟩
      | none =>
          match store.ask pf env.recovery .recover with
          | (.error e, store) => ⟨.error e, actor, some store, none⟩
          | (.ok (.state (some state)), store) =>
              ⟨.ok (), pf.actor.update actor state, some store, none⟩
          | (.ok _, store) =>
              match env.tell with
              | some e => ⟨.error e, actor, some store, none⟩
              | none =>
                  let (response, store) :=
                    store.handleMessage pf env.firstSnapshot (.snapshot actor)
                  ⟨.ok (), actor, some store, some response⟩

/-- The answer to the snapshot that the store was told. -/
def StoreChild.toldAnswer (pf : Platform P E) (child : StoreChild P) :
    Option (Except (Failure ActorError) (StoreResponse P E)) :=
  child.told.map fun told =>
    (child.store.handleMessage pf told.1 (.snapshot told.2)).1

/-- The two differ in nothing but the handling of the first snapshot. -/
theorem startStore_eq (pf : Platform P E) (env : StartEnv) (tables : Tables)
    (password : Option Key) (actor : P) :
    startStore pf env tables password actor =
      let started := PersistentActor.startStore pf env tables password actor
      ⟨started.result, started.actor,
        started.child.map fun child => (child.handleTold pf).store,
        started.child.bind fun child => child.toldAnswer pf⟩ := by
  unfold startStore PersistentActor.startStore
  cases Store.new env.creation tables password with
  | error e => rfl
  | ok store =>
      cases env.createChild with
      | some e => rfl
      | none =>
          simp only
          generalize store.ask pf env.recovery .recover = answer
          obtain ⟨e | response, store'⟩ := answer
          · rfl
          · cases response with
            | state found => cases found <;> cases env.tell <;> rfl
            | _ => cases env.tell <;> rfl

end Persistence
end Rush
