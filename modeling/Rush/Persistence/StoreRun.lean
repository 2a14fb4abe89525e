import Rush.Foundation.Execution
import Rush.Persistence.EventLog

/-!
# Runs of a store

A session is a store over its tables, or the tables alone before a store is
created and after its actor has stopped.  The requests of a run are the commands
of the store and its reopening: the store is dropped and `Store::new` is called
again on the same tables with the same password.  A handler that panics stops
the actor.
-/

namespace Rush
namespace Persistence

open Foundation Database Actor

/-- A store in use, or the tables that no store uses. -/
inductive Session
  | closed (tables : Tables)
  | opened (store : Store)

def Session.tables : Session → Tables
  | .closed tables => tables
  | .opened store => store.toTables

/-- No store and empty tables. -/
def Session.empty : Session := .closed ⟨∅, none⟩

/-- What is asked in one step of a run. -/
inductive Action (P E : Type)
  | reopen
  | command (command : StoreCommand P E)

/-- An action, with what the calls made for it answer. -/
structure Request (P E : Type) where
  env : Env
  action : Action P E

/-- What a request is answered. -/
inductive Reply (P E : Type)
  | created (result : Except StoreError Unit)
  | answered (command : StoreCommand P E)
      (answer : Except (Failure ActorError) (StoreResponse P E))
deriving DecidableEq

section Step

variable {P E : Type} (pf : Platform P E)

/-- The session after a command: a panic leaves the tables alone. -/
def Session.after :
    Except (Failure ActorError) (StoreResponse P E) → Store → Session
  | .error .panic, store => .closed store.toTables
  | _, store => .opened store

/-- One request of a run; a command needs a store. -/
def Session.step (password : Option Key) (session : Session)
    (request : Request P E) : Option (Session × List (Reply P E)) :=
  match request.action, session with
  | .reopen, session =>
      match Store.new request.env session.tables password with
      | .error e => some (.closed session.tables, [.created (.error e)])
      | .ok store => some (.opened store, [.created (.ok ())])
  | .command _, .closed _ => none
  | .command command, .opened store =>
      let (answer, store) := store.handleMessage pf request.env command
      some (.after answer store, [.answered command answer])

/-- A command on a store in use. -/
theorem Session.step_command (env : Env) (password : Option Key) (store : Store)
    (command : StoreCommand P E) :
    (Session.opened store).step pf password ⟨env, .command command⟩ =
      some
        (.after (store.handleMessage pf env command).1
          (store.handleMessage pf env command).2,
        [.answered command (store.handleMessage pf env command).1]) :=
  rfl

end Step

section Effects

variable {P E : Type} {pf : Platform P E} {env : Env} {store : Store}

/-- A command needs a store in use. -/
theorem Session.step_command_eq_some {session session' : Session}
    {password : Option Key} {command : StoreCommand P E}
    {replies : List (Reply P E)}
    (h : session.step pf password ⟨env, .command command⟩ =
      some (session', replies)) :
    ∃ store, session = .opened store ∧
      session' = .after (store.handleMessage pf env command).1
        (store.handleMessage pf env command).2 ∧
      replies = [.answered command (store.handleMessage pf env command).1] := by
  cases session with
  | closed tables => simp [Session.step] at h
  | opened store =>
      rw [Session.step_command] at h
      cases h
      exact ⟨store, rfl, rfl, rfl⟩

theorem Session.tables_after
    (answer : Except (Failure ActorError) (StoreResponse P E)) (store : Store) :
    (Session.after answer store).tables = store.toTables := by
  unfold Session.after
  split <;> rfl

/-- A store that differs from another one in the snapshot and its counter
only. -/
structure Store.SameLog (store store' : Store) : Prop where
  events : store'.events = store.events
  eventCounter : store'.eventCounter = store.eventCounter
  keyBox : store'.keyBox = store.keyBox

/-- What a command can do to the event table and its counter. -/
inductive Store.LogEffect (pf : Platform P E) (env : Env) (store : Store) :
    StoreCommand P E → Except (Failure ActorError) (StoreResponse P E) →
      Store → Prop
  | kept (command answer store') (hsame : store.SameLog store')
      (hanswer : answer ≠ .ok .persisted) :
      LogEffect pf env store command answer store'
  | reread (answer store') (key data n) (hlast : store.last env = some (key, data))
      (hkey : parseU64 key = .ok n)
      (hsame : Store.SameLog { store with eventCounter := n } store')
      (hanswer : answer ≠ .ok .persisted) :
      LogEffect pf env store .recover answer store'
  | appended (event bytes next) (hseal : store.sealEvent pf env event = .ok bytes)
      (hnext : store.nextEventNumber pf env = .ok next)
      (hput : env.fault .eventsPut = none) :
      LogEffect pf env store (.persist event) (.ok .persisted)
        { store with
          events := store.events.insert (eventKey next) bytes
          eventCounter := next }
  | replaced (event state bytes store')
      (hseal : store.sealEvent pf env event = .ok bytes)
      (hput : env.fault .eventsPut = none)
      (hsame : Store.SameLog
        { store with
          events := store.events.insert (eventKey store.eventCounter) bytes }
        store') :
      LogEffect pf env store (.persistLight event state) (.ok .persisted) store'
  | cleared (answer store') (hpurge : env.fault .eventsPurge = none)
      (hsame : Store.SameLog { store with events := ∅ } store')
      (hanswer : answer ≠ .ok .persisted) :
      LogEffect pf env store .purge answer store'

namespace Store

theorem SameLog.refl (store : Store) : store.SameLog store := ⟨rfl, rfl, rfl⟩

theorem snapshot_sameLog (pf : Platform P E) (env : Env) (store : Store)
    (actor : P) : store.SameLog (store.snapshot pf env actor).2 := by
  rcases snapshot_cases pf env store actor with
    ⟨-, e, hsnapshot⟩ | ⟨bytes, -, -, hsnapshot⟩
  · rw [hsnapshot]
    exact ⟨rfl, rfl, rfl⟩
  · rw [hsnapshot]
    exact ⟨rfl, rfl, rfl⟩

theorem respond_ne_persisted {α : Type} {response : α → StoreResponse P E}
    (h : ∀ a, response a ≠ .persisted)
    (result : Except (Failure StoreError) α) :
    respond response result ≠ .ok .persisted := by
  unfold respond
  split
  · intro heq
    exact h _ (Except.ok.inj heq)
  · simp
  · simp

theorem respondEvents_ne_persisted (context : String)
    (result : Except (Failure StoreError) (List E)) :
    respondEvents (P := P) context result ≠ .ok .persisted := by
  unfold respondEvents
  split <;> simp

theorem persist_effect (pf : Platform P E) (env : Env) (store : Store)
    (event : E) :
    store.LogEffect pf env (.persist event)
      (store.handleMessage pf env (.persist event)).1
      (store.handleMessage pf env (.persist event)).2 := by
  -- every failure comes before the table and the counter are changed
  have hkept : ∀ e : Failure StoreError,
      store.persist pf env event = (.error e, store) →
      store.LogEffect pf env (.persist event)
        (store.handleMessage pf env (.persist event)).1
        (store.handleMessage pf env (.persist event)).2 := by
    intro e hpersist
    apply LogEffect.kept
    · simp only [handleMessage, hpersist]
      exact SameLog.refl store
    · cases e <;> simp [handleMessage, hpersist, respond]
  cases hseal : store.sealEvent pf env event with
  | error e => exact hkept e (by simp only [persist, hseal])
  | ok bytes =>
      cases hnext : store.nextEventNumber pf env with
      | error e => exact hkept e (by simp only [persist, hseal, hnext])
      | ok next =>
          cases hput : env.fault .eventsPut with
          | some e =>
              exact hkept (.error e) (by simp only [persist, hseal, hnext, hput])
          | none =>
              simp only [handleMessage, persist, hseal, hnext, hput, respond]
              exact LogEffect.appended event bytes next hseal hnext hput

theorem persistState_effect (pf : Platform P E) (env : Env) (store : Store)
    (event : E) (actor : P) :
    store.LogEffect pf env (.persistLight event actor)
      (store.handleMessage pf env (.persistLight event actor)).1
      (store.handleMessage pf env (.persistLight event actor)).2 := by
  have hends := lightPersistence pf env store event actor
  show store.LogEffect pf env (.persistLight event actor)
    (respond (fun _ => .persisted) (store.persistState pf env event actor).1)
    (store.persistState pf env event actor).2
  generalize store.persistState pf env event actor = outcome at hends
  cases hends with
  | unsealed e =>
      exact .kept _ _ _ (SameLog.refl store) (by cases e <;> simp [respond])
  | snapshotFails bytes e => exact .kept _ _ _ ⟨rfl, rfl, rfl⟩ (by simp [respond])
  | putFails bytes data e => exact .kept _ _ _ ⟨rfl, rfl, rfl⟩ (by simp [respond])
  -- the event goes under the counter as it is
  | persisted bytes data hseal _ _ hput =>
      exact .replaced event actor bytes _ hseal hput ⟨rfl, rfl, rfl⟩

theorem recover_effect (pf : Platform P E) (env : Env) (store : Store) :
    store.LogEffect pf env .recover
      (store.handleMessage pf env .recover).1
      (store.handleMessage pf env .recover).2 := by
  have hanswer : (store.handleMessage pf env .recover).1 ≠ .ok .persisted :=
    respond_ne_persisted (fun _ => by simp) _
  show store.LogEffect pf env .recover _ (store.recover pf env).2
  have hrecovery := recovery pf env store
  generalize store.recover pf env = outcome at hrecovery
  cases hrecovery with
  | unreadable | noSnapshot | noEvents | badKey =>
      exact .kept _ _ _ ⟨rfl, rfl, rfl⟩ hanswer
  -- from here on the counter has been read from the last key
  | current s c key data _ hlast hkey =>
      exact .reread _ _ key data c hlast hkey ⟨rfl, rfl, rfl⟩ hanswer
  | replayFails s c key data n e _ hlast hkey =>
      exact .reread _ _ key data n hlast hkey ⟨rfl, rfl, rfl⟩ hanswer
  | writeFails s c key data n s' e _ hlast hkey =>
      exact .reread _ _ key data n hlast hkey ⟨rfl, rfl, rfl⟩ hanswer
  | replayed s c key data n s' bytes _ hlast hkey =>
      exact .reread _ _ key data n hlast hkey ⟨rfl, rfl, rfl⟩ hanswer

theorem purge_effect (pf : Platform P E) (env : Env) (store : Store) :
    store.LogEffect pf env .purge (store.handleMessage pf env .purge).1
      (store.handleMessage pf env .purge).2 := by
  have hanswer : (store.handleMessage pf env .purge).1 ≠ .ok .persisted :=
    respond_ne_persisted (fun _ => by simp) _
  show store.LogEffect pf env .purge _ (store.purge env).2
  cases hevents : env.fault .eventsPurge with
  | some e =>
      refine .kept _ _ _ ?_ hanswer
      simp only [purge, hevents]
      exact SameLog.refl store
  | none =>
      -- the events are gone, whether or not the snapshot can be purged
      refine .cleared _ _ hevents ?_ hanswer
      cases hstates : env.fault .statesPurge with
      | some e =>
          simp only [purge, hevents, hstates]
          exact ⟨rfl, rfl, rfl⟩
      | none =>
          simp only [purge, hevents, hstates]
          exact ⟨rfl, rfl, rfl⟩

/-- Every command has an effect on the log that is listed. -/
theorem handleMessage_effect (pf : Platform P E) (env : Env) (store : Store)
    (command : StoreCommand P E) :
    store.LogEffect pf env command (store.handleMessage pf env command).1
      (store.handleMessage pf env command).2 := by
  cases command with
  | persist event => exact persist_effect pf env store event
  | persistLight event actor => exact persistState_effect pf env store event actor
  | snapshot actor =>
      exact .kept _ _ _ (snapshot_sameLog pf env store actor)
        (respond_ne_persisted (fun _ => by simp) _)
  | recover => exact recover_effect pf env store
  | purge => exact purge_effect pf env store
  | lastEvent =>
      exact .kept _ _ _ (SameLog.refl store)
        (respond_ne_persisted (fun _ => by simp) _)
  | lastEventNumber => exact .kept _ _ _ (SameLog.refl store) (by simp [handleMessage])
  | lastEventsFrom start =>
      exact .kept _ _ _ (SameLog.refl store) (respondEvents_ne_persisted _ _)
  | getEvents start stop =>
      exact .kept _ _ _ (SameLog.refl store) (respondEvents_ne_persisted _ _)

theorem handleMessage_keyBox (pf : Platform P E) (env : Env) (store : Store)
    (command : StoreCommand P E) :
    (store.handleMessage pf env command).2.keyBox = store.keyBox := by
  have heffect := handleMessage_effect pf env store command
  generalize store.handleMessage pf env command = outcome at heffect
  obtain ⟨answer, store'⟩ := outcome
  cases heffect with
  | kept _ _ _ hsame | reread _ _ _ _ _ _ _ hsame
  | replaced _ _ _ _ _ _ hsame | cleared _ _ _ hsame => exact hsame.keyBox
  | appended => rfl

end Store

/-- The store of the session, if there is one, uses this key. -/
def Session.HasKey (password : Option Key) : Session → Prop
  | .closed _ => True
  | .opened store => store.keyBox = password

/-- Every store of a run is created with the password of the run. -/
theorem Session.hasKey_of_execute {password : Option Key}
    {session session' : Session} {requests : List (Request P E)}
    {replies : List (Reply P E)} (hstart : session.HasKey password)
    (hrun : execute (Session.step pf password) session requests =
      some (session', replies)) : session'.HasKey password := by
  refine execute_invariant (I := Session.HasKey password) ?_ hstart hrun
  intro s request t replies h hstep
  obtain ⟨env, action⟩ := request
  cases action with
  | reopen =>
      simp only [Session.step] at hstep
      split at hstep
      · cases hstep
        trivial
      · cases hstep
        exact (Store.new_spec ‹_›).2
  | command command =>
      obtain ⟨store, rfl, rfl, -⟩ := Session.step_command_eq_some hstep
      unfold Session.after
      split
      · trivial
      · exact (Store.handleMessage_keyBox pf env store command).trans h

end Effects

end Persistence
end Rush
