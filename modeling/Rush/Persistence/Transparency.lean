import Rush.Foundation.Simulation
import Rush.Persistence.CounterActor
import Rush.Persistence.StoreRun

/-!
# Encryption is transparent

A store with a key and a store without one, over tables with the same keys whose
values are the ciphertexts of the other's, answer every command alike.  The
encodings of events and states are arbitrary; only decryption has to invert
encryption, and the key has to be unsealed.
-/

namespace Rush
namespace Persistence

open Foundation Database Actor

/-- The key can be sealed and unsealed. -/
structure Env.KeyAvailable (env : Env) : Prop where
  sealPassword : env.sealPassword = none
  unlock : ∀ keyUse, env.unlock keyUse = true

/-- The same failure, or related values. -/
inductive Alike {ε α β : Type} (R : α → β → Prop) :
    Except ε α → Except ε β → Prop
  | error (e : ε) : Alike R (.error e) (.error e)
  | ok {a : α} {b : β} (h : R a b) : Alike R (.ok a) (.ok b)

theorem Alike.outcome {ε α β : Type} {R : α → β → Prop} {x : Except ε α}
    {y : Except ε β} (h : Alike R x y) :
    (∃ e, x = .error e ∧ y = .error e) ∨
      ∃ a b, x = .ok a ∧ y = .ok b ∧ R a b := by
  cases h with
  | error e => exact Or.inl ⟨e, rfl, rfl⟩
  | ok hab => exact Or.inr ⟨_, _, rfl, rfl, hab⟩

section Relation

variable {P E : Type} (pf : Platform P E) (key : Key)

/-- A stored value that the key decrypts to these bytes. -/
def Encrypts (data bytes : Bytes) : Prop :=
  Store.decrypt pf key data = .ok bytes

/-- The first table holds the ciphertexts of the second one. -/
def EncryptsTable (encrypted plain : Table) : Prop :=
  ∀ k : Str, Option.Rel (Encrypts pf key) encrypted[k]? plain[k]?

/-- The two pairs of tables of a store. -/
structure EncryptsTables (encrypted plain : Tables) : Prop where
  events : EncryptsTable pf key encrypted.events plain.events
  states : Option.Rel (Encrypts pf key) encrypted.states plain.states

/-- A store with the key, and the store without one that it simulates. -/
structure EncryptsStore (encrypted plain : Store) : Prop where
  tables : EncryptsTables pf key encrypted.toTables plain.toTables
  eventCounter : encrypted.eventCounter = plain.eventCounter
  stateCounter : encrypted.stateCounter = plain.stateCounter
  encryptedKey : encrypted.keyBox = some key
  plainKey : plain.keyBox = none

end Relation

section Tables

variable {P E : Type} {pf : Platform P E} {key : Key} {encrypted plain : Table}

theorem EncryptsTable.empty : EncryptsTable pf key ∅ ∅ := by
  intro k
  simp only [Std.ExtTreeMap.getElem?_empty]
  exact Option.Rel.none

theorem EncryptsTable.insert (h : EncryptsTable pf key encrypted plain)
    {data bytes : Bytes} (hdata : Encrypts pf key data bytes) (k : Str) :
    EncryptsTable pf key (encrypted.insert k data) (plain.insert k bytes) := by
  intro k'
  rw [getElem?_insert_eq, getElem?_insert_eq]
  split
  · exact Option.Rel.some hdata
  · exact h k'

theorem EncryptsTable.mem_iff (h : EncryptsTable pf key encrypted plain)
    {k : Str} : k ∈ encrypted ↔ k ∈ plain := by
  rw [mem_iff_exists_getElem?, mem_iff_exists_getElem?]
  have hrel := h k
  generalize encrypted[k]? = x at hrel ⊢
  generalize plain[k]? = y at hrel ⊢
  cases hrel <;> simp

/-- Both tables end at the same key. -/
theorem EncryptsTable.last? (h : EncryptsTable pf key encrypted plain) :
    encrypted.last? = none ∧ plain.last? = none ∨
      ∃ k data bytes, encrypted.last? = some (k, data) ∧
        plain.last? = some (k, bytes) ∧ Encrypts pf key data bytes := by
  cases hlast : plain.last? with
  | none =>
      refine Or.inl ⟨?_, rfl⟩
      rw [Table.last?_eq_none_iff] at hlast ⊢
      rw [Std.ExtTreeMap.eq_empty_iff_forall_not_mem] at hlast ⊢
      exact fun k hk => hlast k (h.mem_iff.mp hk)
  | some entry =>
      obtain ⟨k, bytes⟩ := entry
      obtain ⟨hget, hmax⟩ := Table.last?_eq_some_iff.mp hlast
      have hrel := h k
      rw [hget] at hrel
      cases hdata : encrypted[k]? with
      | none =>
          rw [hdata] at hrel
          cases hrel
      | some data =>
          rw [hdata] at hrel
          cases hrel with
          | some hrel =>
              refine Or.inr ⟨k, data, bytes, ?_, rfl, hrel⟩
              refine Table.last?_eq_some_iff.mpr ⟨hdata, fun other hother => ?_⟩
              exact hmax other (h.mem_iff.mp hother)

end Tables

section Operations

variable {P E : Type} {pf : Platform P E} {env : Env} {key : Key}
  {encrypted plain : Store}

namespace EncryptsStore

theorem sealEvent (hcipher : pf.cipher.RoundTrips) (henv : env.KeyAvailable)
    (h : EncryptsStore pf key encrypted plain) (event : E) :
    Alike (Encrypts pf key) (encrypted.sealEvent pf env event)
      (plain.sealEvent pf env event) := by
  -- an encoding that fails does so before the encryption
  unfold Store.sealEvent
  rw [h.encryptedKey, h.plainKey]
  simp only [henv.unlock, if_true, bind, Except.bind]
  cases Store.encodeEvent pf event with
  | error e => exact .error e
  | ok bytes =>
      obtain ⟨data, hencrypt, hdecrypt⟩ :=
        Store.decrypt_encrypt hcipher key env.eventNonce bytes
      simp only [hencrypt]
      exact .ok hdecrypt

theorem openEvent (henv : env.KeyAvailable)
    (h : EncryptsStore pf key encrypted plain) (keyUse : KeyUse)
    {data bytes : Bytes} (hdata : Encrypts pf key data bytes) :
    encrypted.openEvent pf env keyUse data =
      plain.openEvent pf env keyUse bytes := by
  have hdecrypt : Store.decrypt pf key data = .ok bytes := hdata
  unfold Store.openEvent
  rw [h.encryptedKey, h.plainKey]
  simp only [henv.unlock, if_true, bind, Except.bind, hdecrypt]

theorem last (h : EncryptsStore pf key encrypted plain) (env : Env) :
    encrypted.last env = none ∧ plain.last env = none ∨
      ∃ k data bytes, encrypted.last env = some (k, data) ∧
        plain.last env = some (k, bytes) ∧ Encrypts pf key data bytes := by
  unfold Store.last
  split
  · exact Or.inl ⟨rfl, rfl⟩
  · exact h.tables.events.last?

theorem lastEvent (henv : env.KeyAvailable)
    (h : EncryptsStore pf key encrypted plain) :
    encrypted.lastEvent pf env = plain.lastEvent pf env := by
  unfold Store.lastEvent
  rcases h.last env with ⟨hlast, hlast'⟩ | ⟨k, data, bytes, hlast, hlast', hdata⟩
  · simp only [hlast, hlast']
  · simp only [hlast, hlast', h.openEvent henv .lastEvent hdata]

theorem nextEventNumber (henv : env.KeyAvailable)
    (h : EncryptsStore pf key encrypted plain) :
    encrypted.nextEventNumber pf env = plain.nextEventNumber pf env := by
  unfold Store.nextEventNumber
  rw [h.eventCounter, h.lastEvent henv]

theorem persist (hcipher : pf.cipher.RoundTrips) (henv : env.KeyAvailable)
    (h : EncryptsStore pf key encrypted plain) (event : E) :
    (encrypted.persist pf env event).1 = (plain.persist pf env event).1 ∧
      EncryptsStore pf key (encrypted.persist pf env event).2
        (plain.persist pf env event).2 := by
  unfold Store.persist
  rw [h.nextEventNumber henv]
  rcases (h.sealEvent hcipher henv event).outcome with
    ⟨e, hseal, hseal'⟩ | ⟨data, bytes, hseal, hseal', hdata⟩
  · simp only [hseal, hseal', true_and]
    exact h
  · simp only [hseal, hseal']
    cases plain.nextEventNumber pf env with
    | error e => exact ⟨rfl, h⟩
    | ok next =>
        cases env.fault .eventsPut with
        | some e => exact ⟨rfl, h⟩
        | none =>
            exact ⟨rfl, ⟨h.tables.events.insert hdata _, h.tables.states⟩, rfl,
              h.stateCounter, h.encryptedKey, h.plainKey⟩

theorem sealState (hcipher : pf.cipher.RoundTrips) (henv : env.KeyAvailable)
    (h : EncryptsStore pf key encrypted plain) (actor : P) (counter : UInt64) :
    Alike (Encrypts pf key) (encrypted.sealState pf env actor counter)
      (plain.sealState pf env actor counter) := by
  unfold Store.sealState
  rw [h.encryptedKey, h.plainKey]
  cases pf.codec.encodeState (actor, counter) with
  | error e => exact .error _
  | ok bytes =>
      obtain ⟨data, hencrypt, hdecrypt⟩ :=
        Store.decrypt_encrypt hcipher key env.stateNonce bytes
      simp only [henv.unlock, if_true, hencrypt]
      exact .ok hdecrypt

theorem withCounters (h : EncryptsStore pf key encrypted plain)
    (n c : UInt64) :
    EncryptsStore pf key
      { encrypted with eventCounter := n, stateCounter := c }
      { plain with eventCounter := n, stateCounter := c } :=
  ⟨h.tables, rfl, rfl, h.encryptedKey, h.plainKey⟩

theorem snapshot (hcipher : pf.cipher.RoundTrips) (henv : env.KeyAvailable)
    (h : EncryptsStore pf key encrypted plain) (actor : P) :
    (encrypted.snapshot pf env actor).1 = (plain.snapshot pf env actor).1 ∧
      EncryptsStore pf key (encrypted.snapshot pf env actor).2
        (plain.snapshot pf env actor).2 := by
  have hcounted : EncryptsStore pf key
      { encrypted with stateCounter := encrypted.eventCounter }
      { plain with stateCounter := plain.eventCounter } :=
    ⟨h.tables, h.eventCounter, h.eventCounter, h.encryptedKey, h.plainKey⟩
  unfold Store.snapshot
  rcases (hcounted.sealState hcipher henv actor encrypted.eventCounter).outcome
    with ⟨e, hseal, hseal'⟩ | ⟨data, bytes, hseal, hseal', hdata⟩
  · rw [h.eventCounter] at hseal'
    simp only [hseal, hseal', true_and]
    exact hcounted
  · rw [h.eventCounter] at hseal'
    simp only [hseal, hseal']
    cases env.fault .statesPut with
    | some e => exact ⟨rfl, hcounted⟩
    | none =>
        exact ⟨rfl, ⟨h.tables.events, Option.Rel.some hdata⟩, h.eventCounter,
          h.eventCounter, h.encryptedKey, h.plainKey⟩

theorem persistState (hcipher : pf.cipher.RoundTrips) (henv : env.KeyAvailable)
    (h : EncryptsStore pf key encrypted plain) (event : E) (state : P) :
    (encrypted.persistState pf env event state).1 =
        (plain.persistState pf env event state).1 ∧
      EncryptsStore pf key (encrypted.persistState pf env event state).2
        (plain.persistState pf env event state).2 := by
  obtain ⟨hresult, hstores⟩ := h.snapshot hcipher henv state
  unfold Store.persistState
  rcases (h.sealEvent hcipher henv event).outcome with
    ⟨e, hseal, hseal'⟩ | ⟨data, bytes, hseal, hseal', hdata⟩
  · simp only [hseal, hseal', true_and]
    exact h
  · simp only [hseal, hseal']
    -- the event is put after the snapshot, over the tables it leaves
    rcases hsnapshot : encrypted.snapshot pf env state with ⟨result, middle⟩
    rcases hsnapshot' : plain.snapshot pf env state with ⟨result', middle'⟩
    rw [hsnapshot, hsnapshot'] at hresult hstores
    obtain rfl : result = result' := hresult
    cases result with
    | error e => exact ⟨rfl, hstores⟩
    | ok done =>
        cases env.fault .eventsPut with
        | some e => exact ⟨rfl, hstores⟩
        | none =>
            refine ⟨rfl, ⟨?_, hstores.tables.states⟩, hstores.eventCounter,
              hstores.stateCounter, hstores.encryptedKey, hstores.plainKey⟩
            show EncryptsTable pf key
              (middle.events.insert (eventKey middle.eventCounter) data)
              (middle'.events.insert (eventKey middle'.eventCounter) bytes)
            rw [show middle.eventCounter = middle'.eventCounter from
              hstores.eventCounter]
            exact hstores.tables.events.insert hdata _

theorem getState (henv : env.KeyAvailable)
    (h : EncryptsStore pf key encrypted plain) :
    encrypted.getState pf env = plain.getState pf env := by
  have hstates := h.tables.states
  unfold Store.getState Store.getStateData
  rw [h.encryptedKey, h.plainKey]
  generalize encrypted.states = x at hstates ⊢
  generalize plain.states = y at hstates ⊢
  cases env.fault .statesGet with
  | some e => cases e <;> rfl
  | none =>
      cases hstates with
      | none => rfl
      | some hdata =>
          have hdecrypt : Store.decrypt pf key _ = .ok _ := hdata
          simp only [bind, Except.bind, henv.unlock, if_true, hdecrypt]

theorem getEvent (h : EncryptsStore pf key encrypted plain) (env : Env)
    (i : UInt64) :
    Alike (Encrypts pf key) (encrypted.getEvent env i)
      (plain.getEvent env i) := by
  have hevent := h.tables.events (eventKey i)
  unfold Store.getEvent Table.get
  generalize encrypted.events[eventKey i]? = x at hevent ⊢
  generalize plain.events[eventKey i]? = y at hevent ⊢
  cases env.fault (.eventsGet i) with
  | some e => exact .error e
  | none =>
      cases hevent with
      | none => exact .error _
      | some hdata => exact .ok hdata

theorem eventsFrom (henv : env.KeyAvailable)
    (h : EncryptsStore pf key encrypted plain) (count : Nat) (i : UInt64) :
    encrypted.eventsFrom pf env count i = plain.eventsFrom pf env count i := by
  induction count generalizing i with
  | zero => rfl
  | succ count ih =>
      unfold Store.eventsFrom
      rcases (h.getEvent env i).outcome with
        ⟨e, hget, hget'⟩ | ⟨data, bytes, hget, hget', hdata⟩
      · simp only [hget, hget']
      · simp only [hget, hget', h.openEvent henv (.event i) hdata, ih]

theorem replay (henv : env.KeyAvailable)
    (h : EncryptsStore pf key encrypted plain) (state : P) :
    encrypted.replay pf env state = plain.replay pf env state := by
  unfold Store.replay Store.eventsIn
  simp only [h.stateCounter, h.eventCounter, h.eventsFrom henv]

/-- With the snapshot and the last key read, both stores take the same branch of
`recover`. -/
theorem recover_parsed (hcipher : pf.cipher.RoundTrips)
    (henv : env.KeyAvailable) (h : EncryptsStore pf key encrypted plain)
    {s : P} {c n : UInt64} {k : Str} {data bytes : Bytes}
    (hstate : plain.getState pf env = .ok (some (s, c)))
    (hlast : encrypted.last env = some (k, data))
    (hlast' : plain.last env = some (k, bytes)) (hkey : parseU64 k = .ok n) :
    (encrypted.recover pf env).1 = (plain.recover pf env).1 ∧
      EncryptsStore pf key (encrypted.recover pf env).2
        (plain.recover pf env).2 := by
  -- both counters are read: the replay depends on them alone
  have hcounted := h.withCounters n c
  rw [Store.recover_eq ((h.getState henv).trans hstate) hlast hkey,
    Store.recover_eq hstate hlast' hkey]
  simp only [hcounted.replay henv]
  by_cases heq : n = c
  · simp only [if_pos heq, true_and]
    exact hcounted
  · simp only [if_neg heq]
    cases Store.replay pf env
        { plain with stateCounter := c, eventCounter := n } s with
    | error e => exact ⟨rfl, hcounted⟩
    | ok s' =>
        obtain ⟨hresult, hstores⟩ := hcounted.snapshot hcipher henv s'
        simp only
        generalize Store.snapshot pf env
          { encrypted with stateCounter := c, eventCounter := n } s' = p
          at hresult hstores ⊢
        generalize Store.snapshot pf env
          { plain with stateCounter := c, eventCounter := n } s' = q
          at hresult hstores ⊢
        obtain ⟨result, middle⟩ := p
        obtain ⟨result', middle'⟩ := q
        obtain rfl : result = result' := hresult
        cases result with
        | error e => exact ⟨rfl, hstores⟩
        | ok done => exact ⟨rfl, hstores⟩

theorem recover (hcipher : pf.cipher.RoundTrips) (henv : env.KeyAvailable)
    (h : EncryptsStore pf key encrypted plain) :
    (encrypted.recover pf env).1 = (plain.recover pf env).1 ∧
      EncryptsStore pf key (encrypted.recover pf env).2
        (plain.recover pf env).2 := by
  have hstate := h.getState henv
  rcases hfound : plain.getState pf env with e | (_ | ⟨s, c⟩)
  · simp only [Store.recover, hstate, hfound, true_and]
    exact h
  · simp only [Store.recover, hstate, hfound, true_and]
    exact h
  · have hread : EncryptsStore pf key { encrypted with stateCounter := c }
        { plain with stateCounter := c } :=
      ⟨h.tables, h.eventCounter, rfl, h.encryptedKey, h.plainKey⟩
    have hkept : ∀ store : Store,
        Store.last env { store with stateCounter := c } = store.last env :=
      fun _ => rfl
    rcases h.last env with ⟨hlast, hlast'⟩ | ⟨k, data, bytes, hlast, hlast', -⟩
    · simp only [Store.recover, hstate, hfound, hkept, hlast, hlast', true_and]
      exact hread
    · cases hkey : parseU64 k with
      | error e =>
          simp only [Store.recover, hstate, hfound, hkept, hlast, hlast', hkey,
            true_and]
          exact hread
      | ok n => exact h.recover_parsed hcipher henv hfound hlast hlast' hkey

theorem purge (h : EncryptsStore pf key encrypted plain) (env : Env) :
    (encrypted.purge env).1 = (plain.purge env).1 ∧
      EncryptsStore pf key (encrypted.purge env).2 (plain.purge env).2 := by
  unfold Store.purge
  cases env.fault .eventsPurge with
  | some e => exact ⟨rfl, h⟩
  | none =>
      cases env.fault .statesPurge with
      | some e =>
          exact ⟨rfl, ⟨.empty, h.tables.states⟩, h.eventCounter, h.stateCounter,
            h.encryptedKey, h.plainKey⟩
      | none =>
          exact ⟨rfl, ⟨.empty, Option.Rel.none⟩, h.eventCounter, h.stateCounter,
            h.encryptedKey, h.plainKey⟩

/-- Every command is answered alike. -/
theorem handleMessage (hcipher : pf.cipher.RoundTrips)
    (henv : env.KeyAvailable) (h : EncryptsStore pf key encrypted plain)
    (command : StoreCommand P E) :
    (encrypted.handleMessage pf env command).1 =
        (plain.handleMessage pf env command).1 ∧
      EncryptsStore pf key (encrypted.handleMessage pf env command).2
        (plain.handleMessage pf env command).2 := by
  have hrespond : ∀ {α : Type} {p q : Except (Failure StoreError) α × Store}
      (response : α → StoreResponse P E),
      p.1 = q.1 ∧ EncryptsStore pf key p.2 q.2 →
      respond response p.1 = respond response q.1 ∧
        EncryptsStore pf key p.2 q.2 :=
    fun response hpq => ⟨congrArg (respond response) hpq.1, hpq.2⟩
  cases command with
  | persist event => exact hrespond _ (h.persist hcipher henv event)
  | persistLight event actor =>
      exact hrespond _ (h.persistState hcipher henv event actor)
  | snapshot actor => exact hrespond _ (h.snapshot hcipher henv actor)
  | recover => exact hrespond _ (h.recover hcipher henv)
  | purge => exact hrespond _ (h.purge env)
  | lastEvent =>
      exact ⟨congrArg (respond _) (h.lastEvent henv), h⟩
  | lastEventNumber =>
      refine ⟨?_, h⟩
      show Except.ok (StoreResponse.lastEventNumber _) = _
      rw [h.eventCounter]
      rfl
  | lastEventsFrom start =>
      refine ⟨congrArg (respondEvents _) ?_, h⟩
      unfold Store.eventsIn
      rw [h.eventCounter, h.eventsFrom henv]
  | getEvents start stop =>
      exact ⟨congrArg (respondEvents _) (h.eventsFrom henv _ _), h⟩

end EncryptsStore

end Operations

section Run

variable {P E : Type} {pf : Platform P E} {key : Key}

/-- Two sessions of which the first one uses the key. -/
inductive EncryptsSession (pf : Platform P E) (key : Key) :
    Session → Session → Prop
  | closed {encrypted plain : Tables}
      (h : EncryptsTables pf key encrypted plain) :
      EncryptsSession pf key (.closed encrypted) (.closed plain)
  | opened {encrypted plain : Store}
      (h : EncryptsStore pf key encrypted plain) :
      EncryptsSession pf key (.opened encrypted) (.opened plain)

theorem EncryptsSession.tables {encrypted plain : Session}
    (h : EncryptsSession pf key encrypted plain) :
    EncryptsTables pf key encrypted.tables plain.tables := by
  cases h with
  | closed h => exact h
  | opened h => exact h.tables

theorem EncryptsStore.after {encrypted plain : Store}
    (h : EncryptsStore pf key encrypted plain)
    (answer : Except (Failure ActorError) (StoreResponse P E)) :
    EncryptsSession pf key (.after answer encrypted) (.after answer plain) := by
  rcases answer with (e | _) | response
  · exact .opened h
  · exact .closed h.tables
  · exact .opened h

/-- A store is created over both tables, or over none of them, and it starts to
count from the same number. -/
theorem EncryptsTables.new {env : Env} (henv : env.KeyAvailable)
    {encrypted plain : Tables} (h : EncryptsTables pf key encrypted plain) :
    Alike (EncryptsStore pf key) (Store.new env encrypted (some key))
      (Store.new env plain none) := by
  unfold Store.new
  simp only [henv.sealPassword]
  cases env.fault .createCollection with
  | some e => exact .error e
  | none =>
      cases env.fault .createState with
      | some e => exact .error e
      | none =>
          refine .ok ⟨h, ?_, rfl, rfl, rfl⟩
          -- the keys are the same, so both parse the same last one
          by_cases hfault : (env.fault .eventsLast).isSome
          · simp only [if_pos hfault]
          · simp only [if_neg hfault]
            rcases h.events.last? with
              ⟨hlast, hlast'⟩ | ⟨k, data, bytes, hlast, hlast', -⟩
            · rw [hlast, hlast']
            · rw [hlast, hlast']

theorem EncryptsSession.step (hcipher : pf.cipher.RoundTrips)
    {encrypted plain : Session} {request : Request P E}
    (h : EncryptsSession pf key encrypted plain)
    (henv : request.env.KeyAvailable) :
    Agree (EncryptsSession pf key) Eq
      (encrypted.step pf (some key) request) (plain.step pf none request) := by
  obtain ⟨env, action⟩ := request
  cases action with
  | reopen =>
      simp only [Session.step]
      rcases (h.tables.new henv).outcome with
        ⟨e, hnew, hnew'⟩ | ⟨store, store', hnew, hnew', hstores⟩
      · simp only [hnew, hnew']
        exact .taken (.closed h.tables) (by simp)
      · simp only [hnew, hnew']
        exact .taken (.opened hstores) (by simp)
  | command command =>
      cases h with
      | closed h => exact .refused
      | opened h =>
          obtain ⟨hanswer, hstores⟩ := h.handleMessage hcipher henv command
          rw [Session.step_command, Session.step_command, hanswer]
          exact .taken (hstores.after _) (by simp)

/-- The counters of the store in use. -/
def Session.counters : Session → Option (UInt64 × UInt64)
  | .closed _ => none
  | .opened store => some (store.eventCounter, store.stateCounter)

/-- **Encryption is transparent.**  Driven by the same requests over databases
that succeed and fail alike, with any nonces, a store with a password and one
without give the same replies and keep the same counters. -/
theorem encryption_transparent (pf : Platform P E)
    (hcipher : pf.cipher.RoundTrips) (key : Key)
    (requests : List (Request P E))
    (henv : ∀ request ∈ requests, request.env.KeyAvailable) :
    (execute (Session.step pf (some key)) .empty requests).map
        (fun outcome => (outcome.1.counters, outcome.2)) =
      (execute (Session.step pf none) .empty requests).map
        (fun outcome => (outcome.1.counters, outcome.2)) := by
  have hagree : Agree (EncryptsSession pf key) Eq
      (execute (Session.step pf (some key)) .empty requests)
      (execute (Session.step pf none) .empty requests) :=
    execute_agree (fun _ _ _ h henv => h.step hcipher henv)
      (.closed ⟨.empty, Option.Rel.none⟩) henv
  apply hagree.map_eq
  intro encrypted plain h
  cases h with
  | closed h => rfl
  | opened h => simp [Session.counters, h.eventCounter, h.stateCounter]

end Run

namespace CounterActor

/-- With and without a password, two events are stored, the second one fails at
first, and the reopened store reads the last one. -/
theorem encryption_transparent_events :
    (execute (Session.step platform (some password)) .empty
        [⟨env, .reopen⟩, ⟨env, .command (.persist 1)⟩,
          ⟨failing .eventsPut, .command (.persist 2)⟩,
          ⟨env, .command (.persist 2)⟩, ⟨env, .reopen⟩,
          ⟨env, .command .lastEvent⟩]).map
        (fun outcome => (outcome.1.counters, outcome.2)) =
      some (some (1, 0),
        [.created (.ok ()), .answered (.persist 1) (.ok .persisted),
          .answered (.persist 2) (.ok (.error (.store "fault"))),
          .answered (.persist 2) (.ok .persisted), .created (.ok ()),
          .answered .lastEvent (.ok (.lastEvent (some 2)))]) := by
  rw [encryption_transparent platform cipher_roundTrips password _ (by
    have henv : env.KeyAvailable := ⟨rfl, fun _ => rfl⟩
    have hfailing : (failing .eventsPut).KeyAvailable := ⟨rfl, fun _ => rfl⟩
    simpa using ⟨henv, hfailing, henv⟩)]
  rfl

end CounterActor

end Persistence
end Rush
