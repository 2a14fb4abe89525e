import Rush.Persistence.CounterActor

/-!
# What an `Ok` of `snapshot` and `stop_store` says

The store answers its own failures with `StoreResponse::Error`, inside an `Ok`
of `ask`.  Both methods look at the result of `ask` only, so they succeed on
every answer, and the state is stored just when encoding, encryption and `put`
all succeed.
-/

namespace Rush
namespace Persistence

open Actor

section Durable

variable {P E : Type} (pf : Platform P E) (env : Env)
  (ask : StoreCommand P E → Store → Except ActorError (StoreResponse P E) × Store)
  (child : Option Store) (state : P)

/-- A request is answered by the store, or `ask` itself fails. -/
def AsksStore : Prop :=
  ∀ command store, ask command store = store.ask pf env command ∨
    ∃ e, (ask command store).1 = .error e

/-- What a method that stores the state promises: after `Ok` the stored snapshot
is the state, and an answer `StoreResponse::Error` is an error of the method. -/
structure StoresState (outcome : Except ActorError Unit × Option Store) :
    Prop where
  ok : outcome.1 = .ok () → ∃ store c, outcome.2 = some store ∧
    Store.HasSnapshot pf store.keyBox store.toTables state c
  error : ∀ store e, child = some store →
    (ask (.snapshot state) store).1 = .ok (.error e) → ∃ e', outcome.1 = .error e'

/-- The state can be encoded, encrypted if there is a key, and put.  If the key
can't be unsealed the encoding is stored as it is, which must then be what the
key opens. -/
def Store.CanSnapshot (store : Store) : Prop :=
  env.fault .statesPut = none ∧
    ∃ data, pf.codec.encodeState (state, store.eventCounter) = .ok data ∧
      ∀ key, store.keyBox = some key →
        if env.unlock .snapshot then
          ∃ ciphertext, pf.cipher.encrypt key env.stateNonce data = .ok ciphertext
        else ∃ c, SealedState pf (some key) data state c

variable {pf env ask child state}

/-- The condition in terms of what is put. -/
theorem Store.canSnapshot_iff (hpf : pf.Inverts) (store : Store) :
    store.CanSnapshot pf env state ↔ env.fault .statesPut = none ∧
      ∃ bytes c, store.sealState pf env state store.eventCounter = .ok bytes ∧
        SealedState pf store.keyBox bytes state c := by
  unfold CanSnapshot
  refine and_congr_right fun _ => ?_
  cases hencode : pf.codec.encodeState (state, store.eventCounter) with
  | error e => simp [sealState, hencode]
  | ok data =>
      cases hkey : store.keyBox with
      | none =>
          have hseal : store.sealState pf env state store.eventCounter =
              .ok data := by
            simp [sealState, hencode, hkey]
          have hsealed := sealedState_of_sealState hpf (by simp [hkey]) hseal
          rw [hkey] at hsealed
          exact ⟨fun _ => ⟨data, _, hseal, hsealed⟩,
            fun _ => ⟨data, rfl, by simp⟩⟩
      | some key =>
          cases hunlock : env.unlock .snapshot with
          | false =>
              have hseal : store.sealState pf env state store.eventCounter =
                  .ok data := by
                simp [sealState, hencode, hkey, hunlock]
              simp [hseal]
          | true =>
              cases hencrypt : pf.cipher.encrypt key env.stateNonce data with
              | error e =>
                  simp [sealState, hencode, hkey, hunlock, encrypt, hencrypt]
              | ok ciphertext =>
                  have hseal : store.sealState pf env state store.eventCounter =
                      .ok (env.stateNonce.val ++ ciphertext) := by
                    simp [sealState, hencode, hkey, hunlock, encrypt, hencrypt]
                  have hsealed := sealedState_of_sealState hpf
                    (fun _ => hunlock) hseal
                  rw [hkey] at hsealed
                  refine ⟨fun _ => ⟨_, _, hseal, hsealed⟩, fun _ => ⟨data, rfl, ?_⟩⟩
                  intro key' heq
                  cases heq
                  simp only [if_true]
                  exact ⟨ciphertext, hencrypt⟩

/-- A store that can't write the state answers its error. -/
theorem Store.ask_snapshot_cases (pf : Platform P E) (env : Env) (store : Store)
    (state : P) :
    (store.WriteFails pf env state store.eventCounter ∧
      ∃ e, (store.ask pf env (.snapshot state)).1 = .ok (.error e)) ∨
    ∃ bytes, store.sealState pf env state store.eventCounter = .ok bytes ∧
      env.fault .statesPut = none ∧
      store.ask pf env (.snapshot state) =
        (.ok .snapshotted, { store with
          stateCounter := store.eventCounter
          states := some bytes }) := by
  rcases snapshot_cases pf env store state with
    ⟨hfails, e, hsnapshot⟩ | ⟨bytes, hseal, hput, hsnapshot⟩
  · refine Or.inl ⟨hfails, e, ?_⟩
    simp only [ask, handleMessage, hsnapshot, respond]
  · refine Or.inr ⟨bytes, hseal, hput, ?_⟩
    simp only [ask, handleMessage, hsnapshot, respond]

/-- A method that answers `Ok` to every answer of the store keeps its promise if
and only if the state can be stored. -/
theorem storesState_iff (hpf : pf.Inverts) {store store' : Store}
    {response : StoreResponse P E}
    (hask : ask (.snapshot state) store = (.ok response, store'))
    (hstore : ask (.snapshot state) store = store.ask pf env (.snapshot state)) :
    StoresState pf ask (some store) state (.ok (), some store') ↔
      store.CanSnapshot pf env state := by
  rw [store.canSnapshot_iff hpf]
  rcases Store.ask_snapshot_cases pf env store state with
    ⟨hfails, e, herror⟩ | ⟨bytes, hseal, hput, hwritten⟩
  · -- the error is swallowed
    constructor
    · intro h
      obtain ⟨e', herror'⟩ := h.error store e rfl (by rw [hstore]; exact herror)
      contradiction
    · intro h
      obtain ⟨hput, bytes, c, hseal, -⟩ := h
      exact absurd hfails (Store.not_writeFails hseal hput)
  · rw [hstore, hwritten] at hask
    cases hask
    constructor
    · intro h
      obtain ⟨_, c, heq, data, hdata, hsealed⟩ := h.ok rfl
      cases heq
      cases hdata
      exact ⟨hput, _, c, hseal, hsealed⟩
    · intro h
      obtain ⟨-, bytes', c, hseal', hsealed⟩ := h
      rw [hseal] at hseal'
      cases hseal'
      refine ⟨fun _ => ⟨_, c, rfl, bytes, rfl, hsealed⟩, ?_⟩
      intro store₀ e heq herror
      cases heq
      rw [hstore, hwritten] at herror
      cases herror

/-- A method that fails promises nothing. -/
theorem StoresState.of_error {e : ActorError} {left : Option Store} :
    StoresState pf ask child state (.error e, left) where
  ok := by simp
  error := fun _ _ _ _ => ⟨e, rfl⟩

/-- **`Ok` means durable** if and only if every store that answers can store the
state, for `snapshot`, and for `stop_store` of an actor with full persistence
unless `ask_stop` fails. -/
theorem ok_means_durable_iff (pf : Platform P E) (hpf : pf.Inverts) (env : Env)
    (hask : AsksStore pf env ask) (askStop : Except ActorError Unit)
    (child : Option Store) (state : P) :
    (StoresState pf ask child state
        (PersistentActor.snapshot ask child state) ↔
      ∀ store, child = some store →
        (∀ e, (ask (.snapshot state) store).1 ≠ .error e) →
          store.CanSnapshot pf env state) ∧
    (pf.actor.persistence = .full →
      (StoresState pf ask child state
          (pf.actor.stopStore ask askStop child state) ↔
        ∀ store, child = some store → askStop = .ok () →
          (∀ e, (ask (.snapshot state) store).1 ≠ .error e) →
            store.CanSnapshot pf env state)) := by
  cases child with
  | none =>
      have hsnapshot : StoresState pf ask none state
          (PersistentActor.snapshot ask none state) := .of_error
      refine ⟨by simp [hsnapshot], fun _ => ?_⟩
      have hstop : StoresState pf ask none state
          (pf.actor.stopStore ask askStop none state) := .of_error
      simp [hstop]
  | some store =>
      rcases hanswer : ask (.snapshot state) store with ⟨e | response, store'⟩
      · -- `ask` fails, and so do both methods
        constructor
        · simp only [PersistentActor.snapshot, hanswer]
          refine ⟨fun _ store₀ heq hok => ?_, fun _ => .of_error⟩
          cases heq
          exact absurd (by rw [hanswer]) (hok e)
        · intro hfull
          simp only [PersistentActor.stopStore, hfull, hanswer]
          refine ⟨fun _ store₀ heq _ hok => ?_, fun _ => .of_error⟩
          cases heq
          exact absurd (by rw [hanswer]) (hok e)
      · have hstore : ask (.snapshot state) store =
            store.ask pf env (.snapshot state) := by
          rcases hask (.snapshot state) store with hstore | ⟨e, herror⟩
          · exact hstore
          · rw [hanswer] at herror
            cases herror
        have hiff := storesState_iff hpf hanswer hstore
        constructor
        · simp only [PersistentActor.snapshot, hanswer, hiff]
          simp [hanswer]
        · intro hfull
          simp only [PersistentActor.stopStore, hfull, hanswer]
          cases askStop with
          | error e => simp [StoresState.of_error]
          | ok done => simp [hiff, hanswer]

end Durable

namespace CounterActor

theorem asksStore (env : Env) : AsksStore platform env (Store.ask platform env) :=
  fun _ _ => Or.inl rfl

/-- A store that has never been used, with a password. -/
def sealingStore : Store where
  events := ∅
  states := none
  eventCounter := 0
  stateCounter := 0
  keyBox := some password

/-- `ok_means_durable_iff` for the state 7, which is stored under the
password. -/
theorem sealed_snapshot_durable :
    StoresState platform (Store.ask platform env) (some sealingStore) 7
      (PersistentActor.snapshot (Store.ask platform env) (some sealingStore)
        7) := by
  refine (ok_means_durable_iff platform platform_roundTrips.inverts env
    (asksStore env) (.ok ()) (some sealingStore) 7).1.mpr ?_
  intro store hstore _
  cases hstore
  refine ⟨rfl, [7, 0], rfl, fun key _ => ?_⟩
  exact ⟨_, rfl⟩

/-- The `put` of the snapshot fails: `snapshot` and `stop_store` answer `Ok`,
and nothing is stored. -/
theorem swallowed_put_failure :
    PersistentActor.snapshot (Store.ask platform (failing .statesPut))
        (some sealingStore) (7 : UInt8) = (.ok (), some sealingStore) ∧
      platform.actor.stopStore (Store.ask platform (failing .statesPut)) (.ok ())
        (some sealingStore) 7 = (.ok (), some sealingStore) ∧
      ¬ StoresState platform (Store.ask platform (failing .statesPut))
        (some sealingStore) 7
        (PersistentActor.snapshot (Store.ask platform (failing .statesPut))
          (some sealingStore) 7) := by
  have hsnapshot : PersistentActor.snapshot
      (Store.ask platform (failing .statesPut)) (some sealingStore) (7 : UInt8) =
        (.ok (), some sealingStore) := rfl
  refine ⟨hsnapshot, rfl, fun h => ?_⟩
  rw [hsnapshot] at h
  obtain ⟨_, c, heq, data, hdata, -⟩ := h.ok rfl
  cases heq
  contradiction

end CounterActor

end Persistence
end Rush
