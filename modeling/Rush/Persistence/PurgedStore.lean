import Rush.Foundation.Simulation
import Rush.Persistence.CounterActor
import Rush.Persistence.StoreRun

/-!
# A purged store

`purge` empties both tables and keeps the counters.  The counter of the snapshot
is written before every use, so the store goes on as a new one exactly when the
counter of the events was 0.
-/

namespace Rush
namespace Persistence

open Foundation Database Actor

/-- The store that is created over empty tables. -/
def Store.fresh (password : Option Key) : Store where
  events := ∅
  states := none
  eventCounter := 0
  stateCounter := 0
  keyBox := password

section Simulation

variable {P E : Type} {pf : Platform P E} {env : Env} {store store' : Store}

/-- Two stores that differ at most in the counter of the snapshot. -/
structure SameEvents (store store' : Store) : Prop where
  tables : store.toTables = store'.toTables
  eventCounter : store.eventCounter = store'.eventCounter
  keyBox : store.keyBox = store'.keyBox

theorem SameEvents.eq (h : SameEvents store store') :
    store = { store' with stateCounter := store.stateCounter } := by
  obtain ⟨tables, n, c, key⟩ := store
  obtain ⟨tables', n', c', key'⟩ := store'
  obtain ⟨rfl, rfl, rfl⟩ := h
  rfl

theorem SameEvents.refl (store : Store) : SameEvents store store :=
  ⟨rfl, rfl, rfl⟩

theorem SameEvents.of_stateCounter (store : Store) (c : UInt64) :
    SameEvents { store with stateCounter := c } store :=
  ⟨rfl, rfl, rfl⟩

/-- The same result, in stores that differ at most in the counter of the
snapshot. -/
def SameOutcome {α : Type} (p q : α × Store) : Prop :=
  p.1 = q.1 ∧ SameEvents p.2 q.2

theorem persist_sameOutcome (pf : Platform P E) (env : Env) (store : Store)
    (c : UInt64) (event : E) :
    SameOutcome (Store.persist pf env { store with stateCounter := c } event)
      (store.persist pf env event) := by
  have hseal : Store.sealEvent pf env { store with stateCounter := c } event =
      store.sealEvent pf env event := rfl
  have hnext : Store.nextEventNumber pf env { store with stateCounter := c } =
      store.nextEventNumber pf env := rfl
  unfold Store.persist
  rw [hseal, hnext]
  cases store.sealEvent pf env event with
  | error e => exact ⟨rfl, SameEvents.of_stateCounter store c⟩
  | ok bytes =>
      cases store.nextEventNumber pf env with
      | error e => exact ⟨rfl, SameEvents.of_stateCounter store c⟩
      | ok next =>
          cases env.fault .eventsPut with
          | some e => exact ⟨rfl, SameEvents.of_stateCounter store c⟩
          | none => exact ⟨rfl, rfl, rfl, rfl⟩

theorem persistState_sameOutcome (pf : Platform P E) (env : Env)
    (store : Store) (c : UInt64) (event : E) (state : P) :
    SameOutcome
      (Store.persistState pf env { store with stateCounter := c } event state)
      (store.persistState pf env event state) := by
  have hseal : Store.sealEvent pf env { store with stateCounter := c } event =
      store.sealEvent pf env event := rfl
  -- the snapshot overwrites the counter before it reads it
  have hsnapshot : Store.snapshot pf env { store with stateCounter := c } state =
      store.snapshot pf env state := rfl
  unfold Store.persistState
  rw [hseal, hsnapshot]
  cases store.sealEvent pf env event with
  | error e => exact ⟨rfl, SameEvents.of_stateCounter store c⟩
  | ok bytes => exact ⟨rfl, SameEvents.refl _⟩

theorem recover_sameOutcome (pf : Platform P E) (env : Env) (store : Store)
    (c : UInt64) :
    SameOutcome (Store.recover pf env { store with stateCounter := c })
      (store.recover pf env) := by
  have hstate : Store.getState pf env { store with stateCounter := c } =
      store.getState pf env := rfl
  unfold Store.recover
  rw [hstate]
  cases store.getState pf env with
  | error e => exact ⟨rfl, SameEvents.of_stateCounter store c⟩
  | ok found =>
      cases found with
      | none => exact ⟨rfl, SameEvents.of_stateCounter store c⟩
      | some found => exact ⟨rfl, SameEvents.refl _⟩

theorem purge_sameOutcome (env : Env) (store : Store) (c : UInt64) :
    SameOutcome (Store.purge env { store with stateCounter := c })
      (store.purge env) := by
  unfold Store.purge
  cases env.fault .eventsPurge with
  | some e => exact ⟨rfl, SameEvents.of_stateCounter store c⟩
  | none =>
      cases env.fault .statesPurge with
      | some e => exact ⟨rfl, rfl, rfl, rfl⟩
      | none => exact ⟨rfl, rfl, rfl, rfl⟩

/-- No command tells such stores apart. -/
theorem SameEvents.handleMessage (h : SameEvents store store')
    (pf : Platform P E) (env : Env) (command : StoreCommand P E) :
    SameOutcome (store.handleMessage pf env command)
      (store'.handleMessage pf env command) := by
  rw [h.eq]
  generalize store.stateCounter = c
  have hevents : ∀ count i, Store.eventsFrom pf env
      { store' with stateCounter := c } count i =
      store'.eventsFrom pf env count i :=
    fun count i => Store.eventsFrom_counters store'.eventCounter c count i
  have hrespond : ∀ {α : Type} {p q : Except (Failure StoreError) α × Store}
      (response : α → StoreResponse P E), SameOutcome p q →
      respond response p.1 = respond response q.1 ∧ SameEvents p.2 q.2 :=
    fun response hpq => ⟨congrArg (respond response) hpq.1, hpq.2⟩
  cases command with
  | persist event => exact hrespond _ (persist_sameOutcome pf env store' c event)
  | persistLight event actor =>
      exact hrespond _ (persistState_sameOutcome pf env store' c event actor)
  -- the counter is overwritten with that of the events
  | snapshot actor => exact ⟨rfl, SameEvents.refl _⟩
  | recover => exact hrespond _ (recover_sameOutcome pf env store' c)
  | purge => exact hrespond _ (purge_sameOutcome env store' c)
  | lastEvent => exact ⟨rfl, SameEvents.of_stateCounter store' c⟩
  | lastEventNumber => exact ⟨rfl, SameEvents.of_stateCounter store' c⟩
  | lastEventsFrom start =>
      refine ⟨?_, SameEvents.of_stateCounter store' c⟩
      exact congrArg (respondEvents _) (hevents _ _)
  | getEvents start stop =>
      refine ⟨?_, SameEvents.of_stateCounter store' c⟩
      exact congrArg (respondEvents _) (hevents _ _)

/-- Sessions whose stores differ at most in the counter of the snapshot. -/
inductive SameSession : Session → Session → Prop
  | closed {tables tables' : Tables} (h : tables = tables') :
      SameSession (.closed tables) (.closed tables')
  | opened {store store' : Store} (h : SameEvents store store') :
      SameSession (.opened store) (.opened store')

theorem SameSession.tables {session session' : Session}
    (h : SameSession session session') : session.tables = session'.tables := by
  cases h with
  | closed h => exact h
  | opened h => exact h.tables

theorem SameSession.step {password : Option Key} {session session' : Session}
    (h : SameSession session session') (request : Request P E) :
    Agree SameSession Eq (session.step pf password request)
      (session'.step pf password request) := by
  obtain ⟨env, action⟩ := request
  cases action with
  | reopen =>
      simp only [Session.step, h.tables]
      cases Store.new env session'.tables password with
      | error e => exact .taken (.closed rfl) (by simp)
      | ok store => exact .taken (.opened (SameEvents.refl store)) (by simp)
  | command command =>
      cases h with
      | closed h => exact .refused
      | opened h =>
          obtain ⟨hanswer, hstores⟩ := h.handleMessage pf env command
          rw [Session.step_command, Session.step_command, hanswer]
          refine .taken ?_ (by simp)
          rcases (Store.handleMessage pf env _ command).1 with
            (e | _) | response
          · exact .opened hstores
          · exact .closed hstores.tables
          · exact .opened hstores

end Simulation

section Purge

variable {P E : Type}

/-- Every sequence of requests is answered as by a new store over empty
tables. -/
def BehavesAsNew (pf : Platform P E) (password : Option Key) (store : Store) :
    Prop :=
  ∀ requests : List (Request P E),
    (execute (Session.step pf password) (.opened store) requests).map
        Prod.snd =
      (execute (Session.step pf password) (.opened (Store.fresh password))
        requests).map Prod.snd

/-- What a successful purge leaves. -/
theorem purge_ok {pf : Platform P E} {env : Env} {store : Store}
    (h : (store.handleMessage pf env .purge).1 = .ok .none) :
    (store.handleMessage pf env .purge).2 =
      { store with events := ∅, states := none } := by
  simp only [Store.handleMessage, Store.purge] at h ⊢
  cases hevents : env.fault .eventsPurge with
  | some e => simp [hevents, respond] at h
  | none =>
      cases hstates : env.fault .statesPurge with
      | some e => simp [hevents, hstates, respond] at h
      | none => rfl

/-- **A purged store behaves as a new one if and only if its counter was 0.** -/
theorem purged_behavesAsNew_iff (pf : Platform P E) (password : Option Key)
    (history : List (Request P E)) (store : Store) (replies : List (Reply P E))
    (hrun : execute (Session.step pf password) .empty history =
      some (.opened store, replies))
    (env : Env) (hpurge : (store.handleMessage pf env .purge).1 = .ok .none) :
    BehavesAsNew pf password (store.handleMessage pf env .purge).2 ↔
      store.eventCounter = 0 := by
  have hstart : Session.empty.HasKey password := trivial
  have hkey : store.keyBox = password := Session.hasKey_of_execute hstart hrun
  rw [purge_ok hpurge]
  constructor
  · intro h
    -- a single request tells a stale counter from a new one
    have hnumber := h [⟨env, .command .lastEventNumber⟩]
    have hreply : store.eventCounter = (Store.fresh password).eventCounter := by
      simpa [execute, Session.step_command, Store.handleMessage] using hnumber
    exact hreply
  · intro hzero requests
    have hsame : SameEvents { store with events := ∅, states := none }
        (Store.fresh password) :=
      ⟨rfl, hzero, hkey⟩
    have hagree : Agree SameSession Eq
        (execute (Session.step pf password)
          (.opened { store with events := ∅, states := none }) requests)
        (execute (Session.step pf password) (.opened (Store.fresh password))
          requests) :=
      execute_agree (G := fun _ => True) (fun _ _ request h _ => h.step request)
        (.opened hsame) (fun _ _ => trivial)
    exact hagree.map_snd_eq

end Purge

namespace CounterActor

/-- After one event, which has the number 0, and a purge, the store goes on as a
new one. -/
theorem purged_behavesAsNew_first :
    BehavesAsNew platform none
      { events := ∅, states := none, eventCounter := 0, stateCounter := 0,
        keyBox := none } :=
  (purged_behavesAsNew_iff platform none
    [⟨env, .reopen⟩, ⟨env, .command (.persist 1)⟩]
    { events := (∅ : Table).insert (eventKey 0) [1], states := none,
      eventCounter := 0, stateCounter := 0, keyBox := none }
    _ rfl env rfl).mpr rfl

/-- After two events and a purge, the number of the last event is still 1. -/
theorem purged_store_counts_on :
    ∃ store, execute (Session.step platform none) .empty
        [⟨env, .reopen⟩, ⟨env, .command (.persist 1)⟩,
          ⟨env, .command (.persist 2)⟩, ⟨env, .command .purge⟩] =
      some (.opened store,
        [.created (.ok ()), .answered (.persist 1) (.ok .persisted),
          .answered (.persist 2) (.ok .persisted),
          .answered .purge (.ok .none)]) ∧
      ¬ BehavesAsNew platform none store := by
  refine ⟨_, rfl, fun h => ?_⟩
  have hnumber := h [⟨env, .command .lastEventNumber⟩]
  have hanswers : some [Reply.answered (P := UInt8) (E := UInt8) .lastEventNumber
      (.ok (.lastEventNumber 1))] =
      some [.answered .lastEventNumber (.ok (.lastEventNumber 0))] :=
    hnumber
  simp at hanswers

end CounterActor

end Persistence
end Rush
