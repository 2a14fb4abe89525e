import Rush.Persistence.ManagerStore

/-!
# Stores on a manager behave as stores over their tables

A store opened on a manager keeps its events and its snapshot in the manager's
shared tables, reached through a collection and a state with a prefix.  As long
as the prefixes are kept apart, each command answers as the store over tables of
its own does, and leaves the other actors' tables alone.
-/

namespace Rush
namespace Persistence

open Foundation Database Actor

/-- What a store keeps in memory. -/
def Store.memory (store : Store) : Memory :=
  ⟨store.eventCounter, store.stateCounter, store.keyBox⟩

section Keys

variable {P E : Type} (pf : Platform P E) (env : Env) {memory : Memory}
  {store : Store}

/-- What depends on the key alone is what the store without its tables does. -/
theorem sealEvent_memory (h : memory.keyBox = store.keyBox) (event : E) :
    memory.store.sealEvent pf env event = store.sealEvent pf env event := by
  unfold Store.sealEvent
  rw [← h]
  rfl

theorem openEvent_memory (h : memory.keyBox = store.keyBox) (keyUse : KeyUse)
    (data : Bytes) :
    memory.store.openEvent pf env keyUse data =
      store.openEvent pf env keyUse data := by
  unfold Store.openEvent
  rw [← h]
  rfl

theorem sealState_memory (h : memory.keyBox = store.keyBox) (actor : P)
    (counter : UInt64) :
    memory.store.sealState pf env actor counter =
      store.sealState pf env actor counter := by
  unfold Store.sealState
  rw [← h]
  rfl

end Keys

section Matches

variable {σ : Type} {m : Manager σ} {overflowChecks : Bool} {Q : Set Str}
  {H : σ → List Str → Namespaces → Prop} {K : σ → List Str → Slots → Prop}

/-- A store on a manager matches a store over its tables: the manager holds these
tables under the prefix, and other tables under other prefixes. -/
structure Matches (H : σ → List Str → Namespaces → Prop)
    (K : σ → List Str → Slots → Prop) (ps qs : List Str) (storage : Storage)
    (p : Str) (s : ManagerStore σ) (store : Store) : Prop where
  events : H s.held ps (Function.update storage.events p store.events)
  states : K s.held qs (Function.update storage.states p store.states)
  memory : s.toMemory = store.memory

variable {ps qs : List Str} {storage : Storage} {p : Str} {s : ManagerStore σ}
  {store : Store}

namespace Matches

section Reads

variable {P E : Type} (pf : Platform P E) (env : Env)

theorem keyBox (h : Matches H K ps qs storage p s store) :
    s.keyBox = store.keyBox :=
  congrArg Memory.keyBox h.memory

theorem eventCounter (h : Matches H K ps qs storage p s store) :
    s.eventCounter = store.eventCounter :=
  congrArg Memory.eventCounter h.memory

theorem stateCounter (h : Matches H K ps qs storage p s store) :
    s.stateCounter = store.stateCounter :=
  congrArg Memory.stateCounter h.memory

variable (hm : m.Serves overflowChecks Q H K) (hp : p ∈ ps) (hq : p ∈ qs)

include hm

section Events

include hp

theorem last (h : Matches H K ps qs storage p s store) :
    s.last m env p = .ok (store.last env) := by
  have hread := hm.events.read .last h.events hp
  unfold ManagerStore.last Store.last
  split
  · rfl
  · rw [hread]
    have hlast := Table.collectionLast_iter store.events
    simp only [Namespaces.collections, Collection.answer, Except.bind, lastOf,
      Function.update_self]
    exact hlast

theorem getEvent (h : Matches H K ps qs storage p s store) (i : UInt64) :
    s.getEvent m env p i = store.getEvent env i := by
  have hget := hm.events.get (eventKey i) h.events hp
  unfold ManagerStore.getEvent Store.getEvent
  cases env.fault (.eventsGet i) with
  | some e => rfl
  | none =>
      simp only [hget, Namespaces.collections, Function.update_self]

theorem lastEvent (h : Matches H K ps qs storage p s store) :
    s.lastEvent m pf env p = store.lastEvent pf env := by
  unfold ManagerStore.lastEvent Store.lastEvent
  rw [h.last env hm hp]
  cases store.last env with
  | none => rfl
  | some entry =>
      cases hopen : store.openEvent pf env .lastEvent entry.2 with
      | error e => simp only [openEvent_memory pf env h.keyBox, hopen]
      | ok event => simp only [openEvent_memory pf env h.keyBox, hopen]

theorem nextEventNumber (h : Matches H K ps qs storage p s store) :
    s.nextEventNumber m pf env p = store.nextEventNumber pf env := by
  unfold ManagerStore.nextEventNumber Store.nextEventNumber
  rewrite [h.lastEvent pf env hm hp, h.eventCounter]
  rfl

theorem eventsFrom (h : Matches H K ps qs storage p s store) (count : Nat)
    (i : UInt64) :
    s.eventsFrom m pf env p count i = store.eventsFrom pf env count i := by
  induction count generalizing i with
  | zero => rfl
  | succ count ih =>
      unfold ManagerStore.eventsFrom Store.eventsFrom
      rw [h.getEvent env hm hp]
      cases store.getEvent env i with
      | error e => rfl
      | ok data => simp only [openEvent_memory pf env h.keyBox, ih]

theorem eventsIn (h : Matches H K ps qs storage p s store)
    (start stop : UInt64) :
    s.eventsIn m pf env p start stop = store.eventsIn pf env start stop :=
  h.eventsFrom pf env hm hp _ _

theorem replay (h : Matches H K ps qs storage p s store) (state : P) :
    s.replay m pf env p state = store.replay pf env state := by
  unfold ManagerStore.replay Store.replay
  rw [h.stateCounter, h.eventCounter]
  simp only [h.eventsIn pf env hm hp]

end Events

section States

include hq

theorem getStateData (h : Matches H K ps qs storage p s store) :
    s.getStateData m env p = store.getStateData env := by
  have hget := hm.states.get () h.states hq
  unfold ManagerStore.getStateData Store.getStateData
  rw [hget]
  cases env.fault .statesGet with
  | some e => cases e <;> rfl
  | none => cases store.states <;> simp [Slots.states]

theorem getState (h : Matches H K ps qs storage p s store) :
    s.getState m pf env p = store.getState pf env := by
  unfold ManagerStore.getState Store.getState
  rewrite [h.getStateData env hm hq, h.keyBox]
  rfl

end States

end Reads

theorem setEventCounter (h : Matches H K ps qs storage p s store) (n : UInt64) :
    Matches H K ps qs storage p { s with eventCounter := n }
      { store with eventCounter := n } where
  events := h.events
  states := h.states
  memory := by
    show (⟨n, s.stateCounter, s.keyBox⟩ : Memory) =
      ⟨n, store.stateCounter, store.keyBox⟩
    rw [h.stateCounter, h.keyBox]

theorem setStateCounter (h : Matches H K ps qs storage p s store) (n : UInt64) :
    Matches H K ps qs storage p { s with stateCounter := n }
      { store with stateCounter := n } where
  events := h.events
  states := h.states
  memory := by
    show (⟨s.eventCounter, n, s.keyBox⟩ : Memory) =
      ⟨store.eventCounter, n, store.keyBox⟩
    rw [h.eventCounter, h.keyBox]

end Matches

/-- Both give the same result and match afterwards. -/
def AnswersAlike (H : σ → List Str → Namespaces → Prop)
    (K : σ → List Str → Slots → Prop) (ps qs : List Str) (storage : Storage)
    (p : Str) {β : Type} (x : β × ManagerStore σ) (y : β × Store) : Prop :=
  x.1 = y.1 ∧ Matches H K ps qs storage p x.2 y.2

theorem AnswersAlike.map {β γ : Type} {x : β × ManagerStore σ} {y : β × Store}
    (h : AnswersAlike H K ps qs storage p x y) (f : β → γ) :
    AnswersAlike H K ps qs storage p (f x.1, x.2) (f y.1, y.2) :=
  ⟨congrArg f h.1, h.2⟩

/-- Going on after a success. -/
theorem AnswersAlike.returning {β : Type}
    {x : Except (Failure StoreError) Unit × ManagerStore σ}
    {y : Except (Failure StoreError) Unit × Store}
    (h : AnswersAlike H K ps qs storage p x y) (value : β) :
    AnswersAlike H K ps qs storage p
      (match x with
        | (.error e, store) => (.error e, store)
        | (.ok (), store) => (.ok value, store))
      (match y with
        | (.error e, store) => (.error e, store)
        | (.ok (), store) => (Except.ok value, store)) := by
  obtain ⟨result, s'⟩ := x
  obtain ⟨result', store'⟩ := y
  obtain ⟨hresult, hnext⟩ := h
  simp only at hresult hnext
  subst hresult
  cases result with
  | error e => exact ⟨rfl, hnext⟩
  | ok => exact ⟨rfl, hnext⟩

namespace Matches

section Writes

variable {P E : Type} (pf : Platform P E) (env : Env)
  (hm : m.Serves overflowChecks Q H K) (hp : p ∈ ps) (hq : p ∈ qs)

include hm

section Events

include hp

/-- `put` on the collection, when the engine carries it out. -/
theorem putEvent (h : Matches H K ps qs storage p s store)
    (hfault : env.fault .eventsPut = none) (i : UInt64) (bytes : Bytes) :
    ∃ s', s.putEvent m env p i bytes = (.ok (), s') ∧
      Matches H K ps qs storage p s'
        { store with events := store.events.insert (eventKey i) bytes } := by
  obtain ⟨hresult, hnext⟩ := hm.events.put (eventKey i) bytes h.events hp
  refine ⟨{ s with held := (m.events.put s.held p (eventKey i) bytes).2 }, ?_, ?_,
    (hm.statesKept qs _).put p _ _ h.states, h.memory⟩
  · unfold ManagerStore.putEvent ManagerStore.wrote
    rw [hfault, hresult]
    rfl
  · simpa [Namespaces.collections] using hnext

theorem persist (h : Matches H K ps qs storage p s store) (event : E) :
    AnswersAlike H K ps qs storage p (s.persist m pf env p event)
      (store.persist pf env event) := by
  unfold ManagerStore.persist Store.persist
  rw [sealEvent_memory pf env h.keyBox, h.nextEventNumber pf env hm hp]
  cases store.sealEvent pf env event with
  | error e => exact ⟨rfl, h⟩
  | ok bytes =>
      cases store.nextEventNumber pf env with
      | error e => exact ⟨rfl, h⟩
      | ok next =>
          cases hfault : env.fault .eventsPut with
          | some e =>
              simp only [ManagerStore.putEvent, hfault]
              exact ⟨rfl, h⟩
          | none =>
              obtain ⟨s', hput, hnext⟩ := h.putEvent env hm hp hfault next bytes
              simp only [hput]
              exact ⟨rfl, hnext.setEventCounter next⟩

end Events

section States

include hq

/-- `put` on the state, when the engine carries it out. -/
theorem putState (h : Matches H K ps qs storage p s store)
    (hfault : env.fault .statesPut = none) (bytes : Bytes) :
    ∃ s', s.putState m env p bytes = (.ok (), s') ∧
      Matches H K ps qs storage p s' { store with states := some bytes } := by
  obtain ⟨hresult, hnext⟩ := hm.states.put () bytes h.states hq
  refine ⟨{ s with held := (m.states.put s.held p () bytes).2 }, ?_,
    (hm.eventsKept ps _).put p _ _ h.events, ?_, h.memory⟩
  · unfold ManagerStore.putState ManagerStore.wrote
    rw [hfault, hresult]
    rfl
  · simpa [Slots.states] using hnext

theorem snapshot (h : Matches H K ps qs storage p s store) (actor : P) :
    AnswersAlike H K ps qs storage p (s.snapshot m pf env p actor)
      (store.snapshot pf env actor) := by
  have hcounter := h.setStateCounter s.eventCounter
  rw [h.eventCounter] at hcounter
  unfold ManagerStore.snapshot Store.snapshot
  simp only [h.eventCounter, sealState_memory pf env hcounter.keyBox]
  cases Store.sealState pf env
      { store with stateCounter := store.eventCounter } actor
      store.eventCounter with
  | error e => exact ⟨rfl, hcounter⟩
  | ok bytes =>
      cases hfault : env.fault .statesPut with
      | some e =>
          simp only [ManagerStore.putState, hfault]
          exact ⟨rfl, hcounter⟩
      | none =>
          obtain ⟨s', hput, hnext⟩ := hcounter.putState env hm hq hfault bytes
          simp only [hput]
          exact ⟨rfl, hnext⟩

end States

include hp hq

theorem persistState (h : Matches H K ps qs storage p s store) (event : E)
    (state : P) :
    AnswersAlike H K ps qs storage p (s.persistState m pf env p event state)
      (store.persistState pf env event state) := by
  obtain ⟨hresult, hnext⟩ := h.snapshot pf env hm hq state
  unfold ManagerStore.persistState Store.persistState
  rw [sealEvent_memory pf env h.keyBox]
  cases store.sealEvent pf env event with
  | error e => exact ⟨rfl, h⟩
  | ok bytes =>
      generalize s.snapshot m pf env p state = x at hresult hnext
      generalize store.snapshot pf env state = y at hresult hnext
      obtain ⟨result, s'⟩ := x
      obtain ⟨result', store'⟩ := y
      simp only at hresult hnext
      subst hresult
      cases result with
      | error e => exact ⟨rfl, hnext⟩
      | ok =>
          simp only [hnext.eventCounter]
          cases hfault : env.fault .eventsPut with
          | some e =>
              simp only [ManagerStore.putEvent, hfault]
              exact ⟨rfl, hnext⟩
          | none =>
              obtain ⟨s'', hput, hlast⟩ :=
                hnext.putEvent env hm hp hfault store'.eventCounter bytes
              rw [hput]
              exact ⟨rfl, hlast⟩

theorem purge (h : Matches H K ps qs storage p s store) :
    AnswersAlike H K ps qs storage p (s.purge m env p) (store.purge env) := by
  obtain ⟨hevents, hnext⟩ := hm.events.purge h.events hp
  unfold ManagerStore.purge Store.purge
  cases env.fault .eventsPurge with
  | some e => exact ⟨rfl, h⟩
  | none =>
      have hfirst : Matches H K ps qs storage p
          { s with held := (m.events.purge s.held p).2 }
          { store with events := ∅ } := by
        refine ⟨?_, (hm.statesKept qs _).purge p h.states, h.memory⟩
        simpa [Namespaces.collections] using hnext
      obtain ⟨hstates, hlast⟩ := hm.states.purge hfirst.states hq
      have hresult : (m.events.purge s.held p).1.mapError Failure.error =
          .ok () := by
        rw [hevents]
        rfl
      simp only [ManagerStore.wrote, hresult]
      cases env.fault .statesPurge with
      | some e => exact ⟨rfl, hfirst⟩
      | none =>
          refine ⟨?_, (hm.eventsKept ps _).purge p hfirst.events, ?_, h.memory⟩
          · rw [hstates]
            rfl
          · simpa [Slots.states] using hlast

theorem recover (h : Matches H K ps qs storage p s store) :
    AnswersAlike H K ps qs storage p (s.recover m pf env p) (store.recover pf env) := by
  unfold ManagerStore.recover Store.recover
  rw [h.getState pf env hm hq]
  cases store.getState pf env with
  | error e => exact ⟨rfl, h⟩
  | ok found =>
      cases found with
      | none => exact ⟨rfl, h⟩
      | some found =>
          obtain ⟨state, counter⟩ := found
          have hstate := h.setStateCounter counter
          simp only [hstate.last env hm hp]
          generalize hlast : Store.last env _ = last
          cases last with
          | none => exact ⟨rfl, hstate⟩
          | some entry =>
              obtain ⟨key, data⟩ := entry
              cases hkey : parseU64 key with
              | error e =>
                  simp only [hkey]
                  exact ⟨rfl, hstate⟩
              | ok n =>
                  have hboth := hstate.setEventCounter n
                  simp only [hkey, hboth.replay pf env hm hp]
                  split
                  · generalize hreplay : Store.replay pf env _ state = replayed
                    cases replayed with
                    | error e => exact ⟨rfl, hboth⟩
                    | ok state =>
                        exact (hboth.snapshot pf env hm hq state).returning _
                  · exact ⟨rfl, hboth⟩

/-- **Every command does on a manager what it does on the tables.** -/
theorem handleMessage (h : Matches H K ps qs storage p s store)
    (command : StoreCommand P E) :
    AnswersAlike H K ps qs storage p (s.handleMessage m pf env p command)
      (store.handleMessage pf env command) := by
  cases command with
  | persist event => exact (h.persist pf env hm hp event).map _
  | persistLight event actor => exact (h.persistState pf env hm hp hq event actor).map _
  | snapshot actor => exact (h.snapshot pf env hm hq actor).map _
  | recover => exact (h.recover pf env hm hp hq).map _
  | purge => exact (h.purge env hm hp hq).map _
  | lastEvent =>
      refine ⟨?_, h⟩
      show respond _ (s.lastEvent m pf env p) = respond _ (store.lastEvent pf env)
      rw [h.lastEvent pf env hm hp]
  | lastEventNumber =>
      refine ⟨?_, h⟩
      show Except.ok (StoreResponse.lastEventNumber s.eventCounter) = _
      rw [h.eventCounter]
      rfl
  | getEvents start stop =>
      refine ⟨?_, h⟩
      show respondEvents _ (s.eventsIn m pf env p start stop) = _
      rw [h.eventsIn pf env hm hp]
      rfl
  | lastEventsFrom start =>
      refine ⟨?_, h⟩
      show respondEvents _ (s.eventsIn m pf env p start s.eventCounter) = _
      rw [h.eventsIn pf env hm hp, h.eventCounter]
      rfl

end Writes

end Matches

/-- A storage that a manager holds matches every store over its tables. -/
theorem matches_of_holds {held : σ} (hevents : H held ps storage.events)
    (hstates : K held qs storage.states) (store : Store)
    (htables : store.toTables = storage.tables p) :
    Matches H K ps qs storage p ⟨store.memory, held⟩ store where
  events := by
    have htable : store.events = storage.events p := congrArg Tables.events htables
    rwa [htable, Function.update_eq_self]
  states := by
    have hslot : store.states = storage.states p := congrArg Tables.states htables
    rwa [hslot, Function.update_eq_self]
  memory := rfl

/-- The handles of a new store: nothing that is stored changes. -/
theorem createTables_spec (hm : m.Serves overflowChecks Q H K) (hp : p ∈ Q)
    (env : Env) {held : σ} (hevents : H held ps storage.events)
    (hstates : K held qs storage.states) :
    ∃ ps' qs', ps ⊆ ps' ∧ qs ⊆ qs' ∧
      H (ManagerStore.createTables m env p held).2 ps' storage.events ∧
      K (ManagerStore.createTables m env p held).2 qs' storage.states ∧
      (ManagerStore.createTables m env p held).1 =
        (match env.fault .createCollection with
          | some e => .error e
          | none =>
              match env.fault .createState with
              | some e => .error e
              | none => .ok ()) ∧
      ((ManagerStore.createTables m env p held).1 = .ok () → p ∈ ps' ∧ p ∈ qs') := by
  unfold ManagerStore.createTables
  cases env.fault .createCollection with
  | some e => exact ⟨ps, qs, fun _ h => h, fun _ h => h, hevents, hstates, rfl, by simp⟩
  | none =>
      obtain ⟨hresult, -, hnext⟩ := hm.events.create hp hevents
      have hkept := (hm.statesKept qs storage.states).create p hstates
      generalize m.events.create held p = created at hresult hnext hkept
      obtain ⟨result, held'⟩ := created
      simp only at hresult
      subst hresult
      cases env.fault .createState with
      | some e =>
          exact ⟨p :: ps, qs, List.subset_cons_self p ps, fun _ h => h, hnext, hkept,
            rfl, by simp⟩
      | none =>
          obtain ⟨hresult', -, hlast⟩ := hm.states.create hp hkept
          exact ⟨p :: ps, p :: qs, List.subset_cons_self p ps,
            List.subset_cons_self p qs,
            (hm.eventsKept (p :: ps) storage.events).create p hnext, hlast, hresult',
            fun _ => ⟨List.mem_cons_self, List.mem_cons_self⟩⟩

/-- The store over what `createTables` has left. -/
theorem opened_eq (hm : m.Serves overflowChecks Q H K) (hp : p ∈ ps) (env : Env)
    (password : Option Key) {held : σ} (hevents : H held ps storage.events)
    (hstates : K held qs storage.states) :
    ManagerStore.opened m env p password held =
      .ok ⟨⟨initialEventCounter
        (if (env.fault .eventsLast).isSome then none
          else (storage.events p).last?), 0, password⟩, held⟩ := by
  have hmatch := matches_of_holds hevents hstates
    { storage.tables p with eventCounter := 0, stateCounter := 0, keyBox := password }
    rfl
  have hlast := hmatch.last env hm hp
  unfold ManagerStore.opened
  simp only [Store.memory] at hlast
  rw [hlast]
  rfl

/-- `Store::new` when the password is sealed or not given. -/
theorem Store.new_eq (env : Env) (tables : Tables) {password : Option Key}
    (hseal : password = none ∨ env.sealPassword = none) :
    Store.new env tables password =
      match env.fault .createCollection with
      | some e => .error e
      | none =>
          match env.fault .createState with
          | some e => .error e
          | none =>
              .ok
                { tables with
                  eventCounter := initialEventCounter
                    (if (env.fault .eventsLast).isSome then none
                      else tables.events.last?)
                  stateCounter := 0
                  keyBox := password } := by
  rcases hseal with rfl | hnone
  · rfl
  · cases password with
    | none => rfl
    | some key =>
        simp only [Store.new, hnone]
        rfl

/-- What becomes of the tables decides what `Store::new` returns. -/
theorem new_of_createTables {env : Env} {password : Option Key} {held held' : σ}
    {result : Except StoreError Unit}
    (hseal : password = none ∨ env.sealPassword = none)
    (hcreated : ManagerStore.createTables m env p held = (result, held')) :
    (∀ e, result = .error e →
      ManagerStore.new m env p password held = (.error (.error e), held')) ∧
    (result = .ok () → ManagerStore.new m env p password held =
      (ManagerStore.opened m env p password held', held')) := by
  constructor
  · rintro e rfl
    rcases hseal with rfl | hnone
    · simp only [ManagerStore.new, hcreated]
    · cases password <;> simp only [ManagerStore.new, hnone, hcreated]
  · rintro rfl
    rcases hseal with rfl | hnone
    · simp only [ManagerStore.new, hcreated]
    · cases password <;> simp only [ManagerStore.new, hnone, hcreated]

/-- `Store::new` on a manager. -/
theorem new_spec (hm : m.Serves overflowChecks Q H K) (hp : p ∈ Q) (env : Env)
    (password : Option Key) {held : σ} (hevents : H held ps storage.events)
    (hstates : K held qs storage.states) :
    ∃ ps' qs' held', ps ⊆ ps' ∧ qs ⊆ qs' ∧
      H held' ps' storage.events ∧ K held' qs' storage.states ∧
      ((∃ e, Store.new env (storage.tables p) password = .error e ∧
          ManagerStore.new m env p password held = (.error (.error e), held')) ∨
        ∃ store, Store.new env (storage.tables p) password = .ok store ∧
          store.toTables = storage.tables p ∧
          ManagerStore.new m env p password held = (.ok ⟨store.memory, held'⟩, held') ∧
          p ∈ ps' ∧ p ∈ qs') := by
  by_cases hseal : password = none ∨ env.sealPassword = none
  · obtain ⟨ps', qs', hps, hqs, hevents', hstates', hresult, hopened⟩ :=
      createTables_spec hm hp env hevents hstates
    rw [Store.new_eq env _ hseal]
    rcases hcreated : ManagerStore.createTables m env p held with ⟨result, held'⟩
    obtain ⟨herror, hok⟩ := new_of_createTables hseal hcreated
    rw [hcreated] at hresult hopened hevents' hstates'
    refine ⟨ps', qs', held', hps, hqs, hevents', hstates', ?_⟩
    cases hcollection : env.fault .createCollection with
    | some e =>
        rw [hcollection] at hresult
        exact Or.inl ⟨e, rfl, herror e hresult⟩
    | none =>
        rw [hcollection] at hresult
        cases hstate : env.fault .createState with
        | some e =>
            rw [hstate] at hresult
            exact Or.inl ⟨e, rfl, herror e hresult⟩
        | none =>
            rw [hstate] at hresult
            obtain ⟨hp', hq'⟩ := hopened hresult
            refine Or.inr ⟨_, rfl, rfl, ?_, hp', hq'⟩
            rw [hok hresult, opened_eq hm hp' env password hevents' hstates']
            rfl
  · obtain ⟨hsome, hfails⟩ := not_or.mp hseal
    obtain ⟨key, rfl⟩ := Option.ne_none_iff_exists'.mp hsome
    obtain ⟨e, he⟩ := Option.ne_none_iff_exists'.mp hfails
    refine ⟨ps, qs, held, fun _ h => h, fun _ h => h, hevents, hstates,
      Or.inl ⟨.store ("Can't encrypt password: " ++ e), ?_, ?_⟩⟩
    · simp only [Store.new, he]
    · simp only [ManagerStore.new, he]

end Matches

/-- The stores of several actors on one manager. -/
structure ManagerStores (σ : Type) where
  held : σ
  memory : ActorPath → Option Memory

namespace ManagerStores

section Runs

variable {σ P E : Type} (m : Manager σ) (pf : ActorPath → Platform P E)
  (password : ActorPath → Option Key)

def start (held : σ) : ManagerStores σ := ⟨held, fun _ => none⟩

/-- One request of one actor. -/
def step (w : ManagerStores σ) (input : ActorPath × Request P E) :
    Option (ManagerStores σ × List (ActorPath × Reply P E)) :=
  let (path, request) := input
  let p := storePrefix none path
  match request.action, w.memory path with
  | .reopen, _ =>
      match ManagerStore.new m request.env p (password path) w.held with
      | (.ok store, held) =>
          some (⟨held, Function.update w.memory path (some store.toMemory)⟩,
            [(path, .created (.ok ()))])
      | (.error (.error e), held) =>
          some (⟨held, Function.update w.memory path none⟩,
            [(path, .created (.error e))])
      | (.error .panic, held) =>
          some (⟨held, Function.update w.memory path none⟩, [])
  | .command _, none => none
  | .command command, some memory =>
      match ManagerStore.handleMessage m (pf path) request.env p ⟨memory, w.held⟩
          command with
      | (.error .panic, store) =>
          some (⟨store.held, Function.update w.memory path none⟩,
            [(path, .answered command (.error .panic))])
      | (answer, store) =>
          some (⟨store.held, Function.update w.memory path (some store.toMemory)⟩,
            [(path, .answered command answer)])

/-- The manager holds the storage, and a store that runs has its handles. -/
def Holds (H : σ → List Str → Namespaces → Prop) (K : σ → List Str → Slots → Prop)
    (w : ManagerStores σ) (v : ActorStores) : Prop :=
  ∃ ps qs, H w.held ps v.storage.events ∧ K w.held qs v.storage.states ∧
    w.memory = v.memory ∧
    ∀ path, (v.memory path).isSome →
      storePrefix none path ∈ ps ∧ storePrefix none path ∈ qs

variable {m pf password} {overflowChecks : Bool} {Q : Set Str}
  {H : σ → List Str → Namespaces → Prop} {K : σ → List Str → Slots → Prop}

/-- Only the store of one actor has changed, and it has its handles if it runs. -/
theorem holds_update {v : ActorStores} {path : ActorPath} {held : σ}
    {ps qs : List Str} {session : Session}
    (hopened : ∀ other, (v.memory other).isSome →
      storePrefix none other ∈ ps ∧ storePrefix none other ∈ qs)
    (hown : session.memory.isSome →
      storePrefix none path ∈ ps ∧ storePrefix none path ∈ qs)
    (hevents : H held ps (v.setSession path session).storage.events)
    (hstates : K held qs (v.setSession path session).storage.states) :
    Holds H K ⟨held, Function.update v.memory path session.memory⟩
      (v.setSession path session) := by
  refine ⟨ps, qs, hevents, hstates, rfl, fun other hother => ?_⟩
  have hmemory : (v.setSession path session).memory other =
      Function.update v.memory path session.memory other := rfl
  rw [hmemory, Function.update_apply] at hother
  split at hother
  · rename_i heq
    rw [heq]
    exact hown hother
  · exact hopened other hother

theorem step_agree (hm : m.Serves overflowChecks Q H K) {w : ManagerStores σ}
    {v : ActorStores} (h : Holds H K w v) (input : ActorPath × Request P E)
    (hp : storePrefix none input.1 ∈ Q) :
    Agree (Holds H K) Eq (step m pf password w input)
      (ActorStores.step pf password v input) := by
  obtain ⟨path, env, action⟩ := input
  obtain ⟨held, memory⟩ := w
  obtain ⟨ps, qs, hevents, hstates, rfl, hopened⟩ := h
  cases action with
  | reopen =>
      obtain ⟨ps', qs', held', hps, hqs, hevents', hstates', hcases⟩ :=
        new_spec hm hp env (password path) hevents hstates
      have hopened' : ∀ other, (v.memory other).isSome →
          storePrefix none other ∈ ps' ∧ storePrefix none other ∈ qs' :=
        fun other hother => ⟨hps (hopened other hother).1, hqs (hopened other hother).2⟩
      have htables := v.tables_session path
      rcases hcases with ⟨e, hstore, hnew⟩ | ⟨store, hstore, htables', hnew, hp', hq'⟩
      · rw [← htables] at hstore
        have hsame : v.storage.write (storePrefix none path)
            (v.session path).tables = v.storage := by
          rw [htables]
          simp [Storage.write, Storage.tables]
        simp only [step, hnew, ActorStores.step, Session.step, hstore]
        refine .taken (holds_update hopened' (by simp [Session.memory]) ?_ ?_)
          (.cons rfl .nil)
        · show H held' ps' (v.storage.write _ (v.session path).tables).events
          rwa [hsame]
        · show K held' qs' (v.storage.write _ (v.session path).tables).states
          rwa [hsame]
      · rw [← htables] at hstore
        have hmatch := matches_of_holds hevents' hstates' store htables'
        simp only [step, hnew, ActorStores.step, Session.step, hstore]
        exact .taken (holds_update hopened' (fun _ => ⟨hp', hq'⟩) hmatch.events
          hmatch.states) (.cons rfl .nil)
  | command command =>
      cases hmemory : v.memory path with
      | none =>
          simp only [step, hmemory, ActorStores.step, ActorStores.session,
            Session.over, Session.step]
          exact .refused
      | some memory =>
          obtain ⟨hp', hq'⟩ := hopened path (by simp [hmemory])
          obtain ⟨hanswer, hnext⟩ := (matches_of_holds hevents hstates
            { v.storage.tables (storePrefix none path) with
              eventCounter := memory.eventCounter
              stateCounter := memory.stateCounter
              keyBox := memory.keyBox } rfl).handleMessage (pf path) env hm hp' hq'
                command
          simp only [step, hmemory, ActorStores.step, ActorStores.session,
            Session.over, Session.step]
          simp only [Store.memory] at hanswer hnext
          generalize ManagerStore.handleMessage m (pf path) env _ _ command = x
            at hanswer hnext
          generalize Store.handleMessage (pf path) env _ command = y
            at hanswer hnext
          obtain ⟨answer, s⟩ := x
          obtain ⟨answer', store⟩ := y
          simp only at hanswer hnext
          subst hanswer
          -- a panic takes the memory of the store with it
          rcases answer with (e | _) | response
          · refine .taken ?_ (.cons rfl .nil)
            rw [hnext.memory]
            exact holds_update hopened (fun _ => ⟨hp', hq'⟩) hnext.events hnext.states
          · exact .taken (holds_update hopened (by simp [Session.memory, Session.after])
              hnext.events hnext.states) (.cons rfl .nil)
          · refine .taken ?_ (.cons rfl .nil)
            rw [hnext.memory]
            exact holds_update hopened (fun _ => ⟨hp', hq'⟩) hnext.events hnext.states

theorem execute_agree (hm : m.Serves overflowChecks Q H K) {w : ManagerStores σ}
    {v : ActorStores} (h : Holds H K w v) {inputs : List (ActorPath × Request P E)}
    (hkeys : ∀ input ∈ inputs, storePrefix none input.1 ∈ Q) :
    Agree (Holds H K) Eq (execute (step m pf password) w inputs)
      (execute (ActorStores.step pf password) v inputs) :=
  Foundation.execute_agree (G := fun input => storePrefix none input.1 ∈ Q)
    (fun _ _ input hst hp => step_agree hm hst input hp) h hkeys

end Runs

end ManagerStores

end Persistence
end Rush
