import Rush.Persistence.CounterActor
import Rush.Persistence.StoreCalls

/-!
# What a store with a password writes

A store with a key hands ciphertexts to its tables, and gives up when the key
can't be unsealed, except in two places: `snapshot` then goes on with the data
as it is, and `persist` goes on when the last event can't be read.
-/

namespace Rush
namespace Persistence

open Foundation Database Actor

section Definitions

variable {P E : Type} (pf : Platform P E) (key : Key) (env : Env)
  (store : Store) (command : StoreCommand P E)

/-- A nonce followed by an AEAD ciphertext under the key. -/
def IsCiphertext (data : Bytes) : Prop :=
  ∃ (nonce : Nonce) (plaintext ciphertext : Bytes),
    pf.cipher.encrypt key nonce plaintext = .ok ciphertext ∧
      data = nonce.val ++ ciphertext

/-- The bytes are handed to a `put`. -/
def KeyCall.Puts (call : KeyCall) (bytes : Bytes) : Prop :=
  call = .putEvent bytes ∨ call = .putState bytes

/-- The command is answered by an error. -/
def AnswersError (answer : Except (Failure ActorError) (StoreResponse P E)) :
    Prop :=
  (∃ e, answer = .ok (.error e)) ∨ ∃ e, answer = .error (.error e)

/-- Whatever is handed to a `put` is a ciphertext, and a use of the key that
fails ends the command with an error, with nothing handed to a `put`. -/
structure Confidential : Prop where
  ciphertexts : ∀ call ∈ store.calls pf env command, ∀ bytes,
    call.Puts bytes → IsCiphertext pf key bytes
  closed : ∀ keyUse, .unseal keyUse ∈ store.calls pf env command →
    env.unlock keyUse = false →
      AnswersError (store.handleMessage pf env command).1 ∧
        ∀ call ∈ store.calls pf env command, ∀ bytes, ¬ call.Puts bytes

/-- The key is unsealed for the snapshots, and for the last event that a
`Persist` looks at. -/
def UnsealsToWrite : Prop :=
  (.unseal .snapshot ∈ store.calls pf env command →
    env.unlock .snapshot = true) ∧
  ∀ event, command = .persist event →
    .unseal .lastEvent ∈ store.calls pf env command →
      env.unlock .lastEvent = true

end Definitions

section Calls

variable {P E : Type} {pf : Platform P E} {key : Key} {env : Env}
  {store : Store}

theorem KeyCall.not_puts_unseal (keyUse : KeyUse) (bytes : Bytes) :
    ¬ (KeyCall.unseal keyUse).Puts bytes := by
  simp [KeyCall.Puts]

theorem KeyCall.puts_putEvent {data bytes : Bytes} :
    (KeyCall.putEvent data).Puts bytes ↔ data = bytes := by
  simp [KeyCall.Puts]

theorem KeyCall.puts_putState {data bytes : Bytes} :
    (KeyCall.putState data).Puts bytes ↔ data = bytes := by
  simp [KeyCall.Puts]

theorem Store.mem_unsealCalls (hkey : store.keyBox = some key)
    {keyUse : KeyUse} {call : KeyCall} :
    call ∈ store.unsealCalls keyUse ↔ call = .unseal keyUse := by
  simp [Store.unsealCalls, hkey]

theorem isCiphertext_of_encrypt {nonce : Nonce} {bytes data : Bytes}
    (h : Store.encrypt pf key nonce bytes = .ok data) :
    IsCiphertext pf key data := by
  unfold Store.encrypt at h
  split at h
  · cases h
  · rename_i ciphertext hencrypt
    exact ⟨nonce, bytes, ciphertext, hencrypt, (Except.ok.inj h).symm⟩

/-- An event is sealed by encryption, with the key unsealed. -/
theorem Store.isCiphertext_of_sealEvent (hkey : store.keyBox = some key)
    {event : E} {bytes : Bytes} (h : store.sealEvent pf env event = .ok bytes) :
    IsCiphertext pf key bytes ∧ env.unlock .persist = true := by
  unfold Store.sealEvent at h
  simp only [hkey] at h
  split at h
  · rename_i hunlock
    refine ⟨?_, hunlock⟩
    cases hencode : Store.encodeEvent pf event with
    | error e => simp [hencode, bind, Except.bind] at h
    | ok plaintext =>
        rw [hencode] at h
        exact isCiphertext_of_encrypt h
  · cases h

theorem Store.sealEvent_locked (hkey : store.keyBox = some key)
    (hlocked : env.unlock .persist = false) (event : E) :
    store.sealEvent pf env event =
      .error (.error (.store "Can't decrypt key")) := by
  simp [Store.sealEvent, hkey, hlocked]

theorem Store.openEvent_locked (hkey : store.keyBox = some key)
    {keyUse : KeyUse} (hlocked : env.unlock keyUse = false) (data : Bytes) :
    store.openEvent pf env keyUse data =
      .error (.error (.store "Can't decrypt key")) := by
  simp [Store.openEvent, hkey, hlocked]

/-- A snapshot hands the sealed state to `put`, in clear if the key can't be
unsealed. -/
theorem Store.mem_snapshotCalls (hkey : store.keyBox = some key) {actor : P}
    {call : KeyCall} :
    call ∈ store.snapshotCalls pf env actor ↔
      (∃ data, pf.codec.encodeState (actor, store.eventCounter) = .ok data) ∧
        (call = .unseal .snapshot ∨
          ∃ bytes, call = .putState bytes ∧
            store.sealState pf env actor store.eventCounter = .ok bytes) := by
  unfold Store.snapshotCalls
  cases pf.codec.encodeState (actor, store.eventCounter) with
  | error e => simp
  | ok data =>
      cases store.sealState pf env actor store.eventCounter with
      | error e => simp [Store.mem_unsealCalls hkey]
      | ok bytes => simp [Store.mem_unsealCalls hkey]

theorem Store.isCiphertext_of_sealState (hkey : store.keyBox = some key)
    {actor : P} {counter : UInt64} {bytes : Bytes}
    (hunlock : env.unlock .snapshot = true)
    (h : store.sealState pf env actor counter = .ok bytes) :
    IsCiphertext pf key bytes := by
  unfold Store.sealState at h
  split at h
  · cases h
  · simp only [hkey, hunlock, if_true] at h
    exact isCiphertext_of_encrypt h

/-- The snapshot that is taken although the key can't be unsealed. -/
theorem Store.puts_of_snapshot_locked (hkey : store.keyBox = some key)
    (hlocked : env.unlock .snapshot = false) {actor : P}
    (h : .unseal .snapshot ∈ store.snapshotCalls pf env actor) :
    ∃ bytes, .putState bytes ∈ store.snapshotCalls pf env actor := by
  obtain ⟨⟨data, hencode⟩, -⟩ := (Store.mem_snapshotCalls hkey).mp h
  refine ⟨data, (Store.mem_snapshotCalls hkey).mpr
    ⟨⟨data, hencode⟩, Or.inr ⟨data, rfl, ?_⟩⟩⟩
  simp [Store.sealState, hencode, hkey, hlocked]

/-- Reading events only unseals the key for them. -/
theorem Store.mem_eventsFromCalls {count : Nat} {i : UInt64} {call : KeyCall}
    (h : call ∈ store.eventsFromCalls pf env count i) :
    ∃ j, call = .unseal (.event j) := by
  induction count generalizing i with
  | zero => simp [Store.eventsFromCalls] at h
  | succ count ih =>
      unfold Store.eventsFromCalls at h
      split at h
      · simp at h
      · rcases List.mem_append.mp h with hfirst | hrest
        · unfold Store.unsealCalls at hfirst
          split at hfirst
          · simp at hfirst
          · exact ⟨i, by simpa using hfirst⟩
        · split at hrest
          · simp at hrest
          · exact ih hrest

/-- Reading events fails at the first use of the key that fails. -/
theorem Store.eventsFrom_locked (hkey : store.keyBox = some key) {count : Nat}
    {i : UInt64} {keyUse : KeyUse}
    (h : .unseal keyUse ∈ store.eventsFromCalls pf env count i)
    (hlocked : env.unlock keyUse = false) :
    ∃ e, store.eventsFrom pf env count i = .error (.error e) := by
  induction count generalizing i with
  | zero => simp [Store.eventsFromCalls] at h
  | succ count ih =>
      unfold Store.eventsFromCalls at h
      unfold Store.eventsFrom
      cases hget : store.getEvent env i with
      | error e => simp [hget] at h
      | ok data =>
          simp only [hget] at h
          by_cases hfirst : env.unlock (.event i) = false
          · simp [Store.openEvent_locked hkey hfirst, bind, Except.bind]
          -- the use that fails is a later one
          · have hother : .unseal keyUse ∉ store.unsealCalls (.event i) := by
              rw [Store.mem_unsealCalls hkey]
              intro heq
              cases heq
              exact hfirst hlocked
            have hrest := (List.mem_append.mp h).resolve_left hother
            cases hopen : store.openEvent pf env (.event i) data with
            | error e => simp [hopen] at hrest
            | ok event =>
                simp only [hopen] at hrest
                obtain ⟨e, he⟩ := ih hrest
                exact ⟨e, by simp [hopen, bind, Except.bind, he]⟩

theorem answersError_respond {α : Type} (response : α → StoreResponse P E)
    (e : StoreError) : AnswersError (respond response (.error (.error e))) :=
  Or.inl ⟨e, rfl⟩

theorem answersError_respondEvents (context : String) (e : StoreError) :
    AnswersError (P := P) (E := E)
      (respondEvents context (.error (.error e))) :=
  Or.inr ⟨_, rfl⟩

theorem Confidential.of_no_unseal {command : StoreCommand P E}
    (h : store.calls pf env command = []) :
    Confidential pf key env store command where
  ciphertexts := by simp [h]
  closed := by simp [h]

/-- A read of events hands nothing to `put`, and fails with the key. -/
theorem Confidential.of_events (hkey : store.keyBox = some key)
    {command : StoreCommand P E} {count : Nat} {i : UInt64} {context : String}
    (hcalls : store.calls pf env command =
      store.eventsFromCalls pf env count i)
    (hanswer : (store.handleMessage pf env command).1 =
      respondEvents context (store.eventsFrom pf env count i)) :
    Confidential pf key env store command where
  ciphertexts := by
    intro call hmem bytes hputs
    rw [hcalls] at hmem
    obtain ⟨j, rfl⟩ := Store.mem_eventsFromCalls hmem
    exact absurd hputs (KeyCall.not_puts_unseal _ bytes)
  closed := by
    intro keyUse hmem hlocked
    rw [hcalls] at hmem
    obtain ⟨e, he⟩ := Store.eventsFrom_locked hkey hmem hlocked
    rw [hanswer, he, hcalls]
    refine ⟨answersError_respondEvents context e, fun call hcall bytes => ?_⟩
    obtain ⟨j, rfl⟩ := Store.mem_eventsFromCalls hcall
    exact KeyCall.not_puts_unseal _ bytes

theorem Store.mem_lastEventCalls (hkey : store.keyBox = some key)
    {call : KeyCall} (h : call ∈ store.lastEventCalls env) :
    call = .unseal .lastEvent ∧ ∃ entry, store.last env = some entry := by
  unfold Store.lastEventCalls at h
  cases hlast : store.last env with
  | none => simp [hlast] at h
  | some entry =>
      rw [hlast] at h
      exact ⟨(Store.mem_unsealCalls hkey).mp h, entry, rfl⟩

theorem Store.lastEvent_locked (hkey : store.keyBox = some key)
    (hlocked : env.unlock .lastEvent = false)
    (h : .unseal .lastEvent ∈ store.lastEventCalls env) :
    store.lastEvent pf env =
      .error (.error (.store "Can't decrypt key")) := by
  obtain ⟨-, entry, hlast⟩ := Store.mem_lastEventCalls hkey h
  unfold Store.lastEvent
  rw [hlast]
  simp only [Store.openEvent_locked hkey hlocked]

theorem confidential_lastEvent (hkey : store.keyBox = some key) :
    Confidential pf key env store .lastEvent where
  ciphertexts := by
    intro call hmem bytes hputs
    obtain ⟨rfl, -⟩ := Store.mem_lastEventCalls hkey hmem
    exact absurd hputs (KeyCall.not_puts_unseal _ bytes)
  closed := by
    intro keyUse hmem hlocked
    obtain ⟨huse, -⟩ := Store.mem_lastEventCalls hkey hmem
    cases huse
    constructor
    · simp only [Store.handleMessage, Store.lastEvent_locked hkey hlocked hmem]
      exact answersError_respond _ _
    · intro call hcall bytes
      obtain ⟨rfl, -⟩ := Store.mem_lastEventCalls hkey hcall
      exact KeyCall.not_puts_unseal _ bytes

/-- The calls of a `Persist`: the event is sealed first. -/
theorem Store.mem_persistCalls (hkey : store.keyBox = some key) {event : E}
    {call : KeyCall} :
    call ∈ store.persistCalls pf env event ↔
      call = .unseal .persist ∨
        ∃ bytes, store.sealEvent pf env event = .ok bytes ∧
          (call ∈ store.nextEventNumberCalls env ∨
            call = .putEvent bytes ∧
              ∃ next, store.nextEventNumber pf env = .ok next) := by
  unfold Store.persistCalls
  rw [List.mem_append, Store.mem_unsealCalls hkey]
  cases store.sealEvent pf env event with
  | error e => simp
  | ok bytes => cases store.nextEventNumber pf env <;> simp

theorem Store.mem_nextEventNumberCalls (hkey : store.keyBox = some key)
    {call : KeyCall} (h : call ∈ store.nextEventNumberCalls env) :
    call = .unseal .lastEvent ∧ store.eventCounter = 0 ∧
      .unseal .lastEvent ∈ store.lastEventCalls env := by
  unfold Store.nextEventNumberCalls at h
  split at h
  · simp at h
  · rename_i hzero
    obtain ⟨rfl, -⟩ := Store.mem_lastEventCalls hkey h
    exact ⟨rfl, by simpa using hzero, h⟩

/-- A use of the key that is followed by a `put` when it fails does not fail. -/
theorem Confidential.unlocked {command : StoreCommand P E}
    (h : Confidential pf key env store command) {keyUse : KeyUse}
    (hmem : .unseal keyUse ∈ store.calls pf env command)
    (hputs : env.unlock keyUse = false →
      ∃ call ∈ store.calls pf env command, ∃ bytes, call.Puts bytes) :
    env.unlock keyUse = true := by
  by_contra hlocked
  rw [Bool.not_eq_true] at hlocked
  obtain ⟨call, hcall, bytes, hput⟩ := hputs hlocked
  exact (h.closed keyUse hmem hlocked).2 call hcall bytes hput

/-- When the key can't be unsealed for the last event, the event is handed to
`put` as the first one. -/
theorem Store.puts_of_lastEvent_locked (hkey : store.keyBox = some key)
    (hlocked : env.unlock .lastEvent = false) {event : E}
    (h : .unseal .lastEvent ∈ store.persistCalls pf env event) :
    ∃ bytes, .putEvent bytes ∈ store.persistCalls pf env event := by
  obtain heq | ⟨bytes, hseal, hnext | ⟨heq, -⟩⟩ :=
    (Store.mem_persistCalls hkey).mp h
  · cases heq
  · obtain ⟨-, hzero, hlast⟩ := Store.mem_nextEventNumberCalls hkey hnext
    have hnumber : store.nextEventNumber pf env = .ok 0 := by
      simp [Store.nextEventNumber, hzero,
        Store.lastEvent_locked hkey hlocked hlast]
    exact ⟨bytes, (Store.mem_persistCalls hkey).mpr
      (Or.inr ⟨bytes, hseal, Or.inr ⟨rfl, 0, hnumber⟩⟩)⟩
  · cases heq

/-- A `Persist` hands the sealed event to `put`, and nothing else. -/
theorem Store.persistCalls_ciphertexts (hkey : store.keyBox = some key)
    {event : E} {call : KeyCall} (h : call ∈ store.persistCalls pf env event)
    {bytes : Bytes} (hputs : call.Puts bytes) : IsCiphertext pf key bytes := by
  obtain rfl | ⟨data, hseal, hnext | ⟨rfl, -⟩⟩ :=
    (Store.mem_persistCalls hkey).mp h
  · exact absurd hputs (KeyCall.not_puts_unseal _ bytes)
  · obtain ⟨rfl, -⟩ := Store.mem_nextEventNumberCalls hkey hnext
    exact absurd hputs (KeyCall.not_puts_unseal _ bytes)
  · rw [← KeyCall.puts_putEvent.mp hputs]
    exact (Store.isCiphertext_of_sealEvent hkey hseal).1

theorem Store.persistCalls_locked (hkey : store.keyBox = some key)
    (hlocked : env.unlock .persist = false) (event : E) :
    store.persistCalls pf env event = [.unseal .persist] := by
  simp [Store.persistCalls, Store.unsealCalls, hkey,
    Store.sealEvent_locked hkey hlocked]

theorem confidential_persist_iff (hkey : store.keyBox = some key) (event : E) :
    Confidential pf key env store (.persist event) ↔
      UnsealsToWrite pf env store (.persist event) := by
  constructor
  · intro h
    refine ⟨fun hmem => ?_, fun event' hevent hmem => ?_⟩
    · -- a `Persist` takes no snapshot
      obtain heq | ⟨bytes, -, hnext | ⟨heq, -⟩⟩ :=
        (Store.mem_persistCalls hkey).mp hmem
      · cases heq
      · obtain ⟨heq, -⟩ := Store.mem_nextEventNumberCalls hkey hnext
        cases heq
      · cases heq
    · cases hevent
      apply h.unlocked hmem
      intro hlocked
      obtain ⟨bytes, hput⟩ := Store.puts_of_lastEvent_locked hkey hlocked hmem
      exact ⟨_, hput, bytes, Or.inl rfl⟩
  · intro h
    refine ⟨fun call hmem bytes hputs =>
      Store.persistCalls_ciphertexts hkey hmem hputs, fun keyUse hmem hlocked => ?_⟩
    have hpersist : keyUse = .persist := by
      obtain heq | ⟨data, -, hnext | ⟨heq, -⟩⟩ :=
        (Store.mem_persistCalls hkey).mp hmem
      · cases heq
        rfl
      · obtain ⟨heq, -⟩ := Store.mem_nextEventNumberCalls hkey hnext
        cases heq
        exact absurd (h.2 event rfl hmem) (by simp [hlocked])
      · cases heq
    subst hpersist
    constructor
    · simp only [Store.handleMessage, Store.persist,
        Store.sealEvent_locked hkey hlocked]
      exact answersError_respond _ _
    · simp [Store.calls, Store.persistCalls_locked hkey hlocked,
        KeyCall.not_puts_unseal]

theorem Store.unseal_of_mem_snapshotCalls (hkey : store.keyBox = some key)
    {actor : P} {call : KeyCall} (h : call ∈ store.snapshotCalls pf env actor) :
    .unseal .snapshot ∈ store.snapshotCalls pf env actor := by
  obtain ⟨hencode, -⟩ := (Store.mem_snapshotCalls hkey).mp h
  exact (Store.mem_snapshotCalls hkey).mpr ⟨hencode, Or.inl rfl⟩

theorem Store.eq_snapshot_of_mem_snapshotCalls (hkey : store.keyBox = some key)
    {actor : P} {keyUse : KeyUse}
    (h : .unseal keyUse ∈ store.snapshotCalls pf env actor) :
    keyUse = .snapshot := by
  obtain ⟨-, heq | ⟨data, heq, -⟩⟩ := (Store.mem_snapshotCalls hkey).mp h
  · cases heq
    rfl
  · cases heq

/-- With the key unsealed, a snapshot hands a ciphertext to `put`. -/
theorem Store.snapshotCalls_ciphertexts (hkey : store.keyBox = some key)
    (hunlock : env.unlock .snapshot = true) {actor : P} {call : KeyCall}
    (h : call ∈ store.snapshotCalls pf env actor) {bytes : Bytes}
    (hputs : call.Puts bytes) : IsCiphertext pf key bytes := by
  obtain ⟨-, rfl | ⟨data, rfl, hseal⟩⟩ := (Store.mem_snapshotCalls hkey).mp h
  · exact absurd hputs (KeyCall.not_puts_unseal _ bytes)
  · rw [← KeyCall.puts_putState.mp hputs]
    exact Store.isCiphertext_of_sealState hkey hunlock hseal

theorem confidential_snapshot_iff (hkey : store.keyBox = some key)
    (actor : P) :
    Confidential (E := E) pf key env store (.snapshot actor) ↔
      UnsealsToWrite (E := E) pf env store (.snapshot actor) := by
  constructor
  · intro h
    refine ⟨fun hmem => h.unlocked hmem fun hlocked => ?_,
      fun event hevent => by cases hevent⟩
    obtain ⟨bytes, hput⟩ := Store.puts_of_snapshot_locked hkey hlocked hmem
    exact ⟨_, hput, bytes, Or.inr rfl⟩
  · intro h
    refine ⟨fun call hmem bytes hputs => ?_, fun keyUse hmem hlocked => ?_⟩
    · have hunlock := h.1 (Store.unseal_of_mem_snapshotCalls hkey hmem)
      exact Store.snapshotCalls_ciphertexts hkey hunlock hmem hputs
    · have huse := Store.eq_snapshot_of_mem_snapshotCalls hkey hmem
      subst huse
      exact absurd (h.1 hmem) (by simp [hlocked])

/-- The calls of a `PersistLight`: the event is sealed, the snapshot is written,
and the event follows if that succeeded. -/
theorem Store.mem_persistStateCalls (hkey : store.keyBox = some key) {event : E}
    {state : P} {call : KeyCall} :
    call ∈ store.persistStateCalls pf env event state ↔
      call = .unseal .persist ∨
        ∃ bytes, store.sealEvent pf env event = .ok bytes ∧
          (call ∈ store.snapshotCalls pf env state ∨
            call = .putEvent bytes ∧
              ∃ store', store.snapshot pf env state = (.ok (), store')) := by
  unfold Store.persistStateCalls
  rw [List.mem_append, Store.mem_unsealCalls hkey]
  cases store.sealEvent pf env event with
  | error e => simp
  | ok bytes => rcases store.snapshot pf env state with ⟨e | done, store'⟩ <;> simp

/-- The snapshot of a `PersistLight` unseals the key. -/
theorem Store.unseal_of_mem_persistStateCalls (hkey : store.keyBox = some key)
    {event : E} {state : P} {data : Bytes} {call : KeyCall}
    (hseal : store.sealEvent pf env event = .ok data)
    (h : call ∈ store.snapshotCalls pf env state) :
    .unseal .snapshot ∈ store.persistStateCalls pf env event state :=
  (Store.mem_persistStateCalls hkey).mpr (Or.inr
    ⟨data, hseal, Or.inl (Store.unseal_of_mem_snapshotCalls hkey h)⟩)

theorem Store.persistStateCalls_locked (hkey : store.keyBox = some key)
    (hlocked : env.unlock .persist = false) (event : E) (state : P) :
    store.persistStateCalls pf env event state = [.unseal .persist] := by
  simp [Store.persistStateCalls, Store.unsealCalls, hkey,
    Store.sealEvent_locked hkey hlocked]

theorem confidential_persistLight_iff (hkey : store.keyBox = some key)
    (event : E) (state : P) :
    Confidential pf key env store (.persistLight event state) ↔
      UnsealsToWrite pf env store (.persistLight event state) := by
  constructor
  · intro h
    refine ⟨fun hmem => h.unlocked hmem fun hlocked => ?_,
      fun event hevent => by cases hevent⟩
    obtain heq | ⟨data, hseal, hsnapshot | ⟨heq, -⟩⟩ :=
      (Store.mem_persistStateCalls hkey).mp hmem
    · cases heq
    · obtain ⟨bytes, hput⟩ :=
        Store.puts_of_snapshot_locked hkey hlocked hsnapshot
      exact ⟨_, (Store.mem_persistStateCalls hkey).mpr
        (Or.inr ⟨data, hseal, Or.inl hput⟩), bytes, Or.inr rfl⟩
    · cases heq
  · intro h
    refine ⟨fun call hmem bytes hputs => ?_, fun keyUse hmem hlocked => ?_⟩
    · obtain rfl | ⟨data, hseal, hsnapshot | ⟨rfl, -⟩⟩ :=
        (Store.mem_persistStateCalls hkey).mp hmem
      · exact absurd hputs (KeyCall.not_puts_unseal _ bytes)
      · have hunlock := h.1
          (Store.unseal_of_mem_persistStateCalls hkey hseal hsnapshot)
        exact Store.snapshotCalls_ciphertexts hkey hunlock hsnapshot hputs
      · rw [← KeyCall.puts_putEvent.mp hputs]
        exact (Store.isCiphertext_of_sealEvent hkey hseal).1
    · obtain heq | ⟨data, hseal, hsnapshot | ⟨heq, -⟩⟩ :=
        (Store.mem_persistStateCalls hkey).mp hmem
      · cases heq
        constructor
        · simp only [Store.handleMessage, Store.persistState,
            Store.sealEvent_locked hkey hlocked]
          exact answersError_respond _ _
        · simp [Store.calls, Store.persistStateCalls_locked hkey hlocked,
            KeyCall.not_puts_unseal]
      · obtain rfl := Store.eq_snapshot_of_mem_snapshotCalls hkey hsnapshot
        exact absurd (h.1 hmem) (by simp [hlocked])
      · cases heq

/-- The calls of a replay: the events are read, and if they can be applied a
snapshot is written. -/
theorem Store.mem_replayCalls {state : P} {call : KeyCall} :
    call ∈ store.replayCalls pf env state ↔
      ∃ start, pf.succ store.stateCounter = .ok start ∧
        (call ∈ store.eventsInCalls pf env start store.eventCounter ∨
          ∃ state', store.replay pf env state = .ok state' ∧
            call ∈ store.snapshotCalls pf env state') := by
  unfold Store.replayCalls
  cases pf.succ store.stateCounter with
  | error e => simp
  | ok start => cases store.replay pf env state <;> simp

/-- `recover` has read the state `s` and replays it with the counters of
`loaded`. -/
def Store.Replays (pf : Platform P E) (env : Env) (store : Store) (s : P)
    (loaded : Store) : Prop :=
  ∃ counter n k data, store.getState pf env = .ok (some (s, counter)) ∧
    store.last env = some (k, data) ∧ parseU64 k = .ok n ∧ n ≠ counter ∧
    loaded = { store with stateCounter := counter, eventCounter := n }

theorem Store.Replays.keyBox {s : P} {loaded : Store}
    (h : store.Replays pf env s loaded) : loaded.keyBox = store.keyBox := by
  obtain ⟨counter, n, k, data, -, -, -, -, rfl⟩ := h
  rfl

theorem Store.Replays.unique {s s' : P} {loaded loaded' : Store}
    (h : store.Replays pf env s loaded) (h' : store.Replays pf env s' loaded') :
    s' = s ∧ loaded' = loaded := by
  obtain ⟨c, n, k, data, hstate, hlast, hparse, -, rfl⟩ := h
  obtain ⟨c', n', k', data', hstate', hlast', hparse', -, rfl⟩ := h'
  rw [hstate] at hstate'
  cases hstate'
  rw [hlast] at hlast'
  cases hlast'
  rw [hparse] at hparse'
  cases hparse'
  exact ⟨rfl, rfl⟩

theorem Store.Replays.recover_error {s : P} {loaded : Store}
    {e : Failure StoreError} (h : store.Replays pf env s loaded)
    (hreplay : loaded.replay pf env s = .error e) :
    (store.recover pf env).1 = .error e := by
  obtain ⟨c, n, k, data, hstate, hlast, hparse, hne, rfl⟩ := h
  rw [Store.recover_eq hstate hlast hparse]
  simp only [if_neg hne, hreplay]

/-- The calls of a `Recover`: the snapshot is read, and replayed if the last
event has another number. -/
theorem Store.mem_recoverCalls {call : KeyCall} :
    call ∈ store.recoverCalls pf env ↔
      call ∈ store.getStateCalls env ∨
        ∃ s loaded, store.Replays pf env s loaded ∧
          call ∈ loaded.replayCalls pf env s := by
  unfold Store.recoverCalls Store.Replays
  rw [List.mem_append]
  rcases store.getState pf env with e | (_ | ⟨state, counter⟩)
  · simp
  · simp
  · rcases store.last env with _ | ⟨k, data⟩
    · simp
    · cases hparse : parseU64 k with
      | error e => simp [hparse]
      | ok n =>
          by_cases hne : n ≠ counter
          · simp [hparse, hne]
          · simp [hparse, hne]

theorem Store.mem_getStateCalls (hkey : store.keyBox = some key) {call : KeyCall}
    (h : call ∈ store.getStateCalls env) :
    call = .unseal .getState ∧
      ∃ data, store.getStateData env = .ok (some data) := by
  unfold Store.getStateCalls at h
  rcases hdata : store.getStateData env with e | (_ | data)
  · simp [hdata] at h
  · simp [hdata] at h
  · rw [hdata] at h
    exact ⟨(Store.mem_unsealCalls hkey).mp h, data, rfl⟩

theorem Store.getState_locked (hkey : store.keyBox = some key)
    (hlocked : env.unlock .getState = false)
    (h : .unseal .getState ∈ store.getStateCalls env) :
    store.getState pf env =
      .error (.error (.store "Can't decrypt key")) := by
  obtain ⟨-, data, hdata⟩ := Store.mem_getStateCalls hkey h
  simp [Store.getState, hdata, hkey, hlocked, bind, Except.bind]

/-- A replay that can't unseal the key for an event fails. -/
theorem Store.replay_locked (hkey : store.keyBox = some key) (state : P)
    {start : UInt64} (hstart : pf.succ store.stateCounter = .ok start)
    {keyUse : KeyUse} (hlocked : env.unlock keyUse = false)
    (h : .unseal keyUse ∈
      store.eventsInCalls pf env start store.eventCounter) :
    ∃ e, store.replay pf env state = .error (.error e) := by
  obtain ⟨e, he⟩ := Store.eventsFrom_locked hkey h hlocked
  refine ⟨e, ?_⟩
  unfold Store.replay Store.eventsIn
  simp [hstart, bind, Except.bind, he]

/-- Beside the snapshot at its end, a `Recover` only reads. -/
theorem Store.recoverCalls_cases (hkey : store.keyBox = some key)
    {call : KeyCall} (h : call ∈ store.recoverCalls pf env) :
    (∃ keyUse, keyUse ≠ .snapshot ∧ call = .unseal keyUse) ∨
      ∃ s loaded s', store.Replays pf env s loaded ∧
        loaded.replay pf env s = .ok s' ∧
        call ∈ loaded.snapshotCalls pf env s' := by
  obtain hstate | ⟨s, loaded, hreplays, hcall⟩ := Store.mem_recoverCalls.mp h
  · obtain ⟨rfl, -⟩ := Store.mem_getStateCalls hkey hstate
    exact Or.inl ⟨.getState, by simp, rfl⟩
  · obtain ⟨start, -, hevents | ⟨s', hreplay, hsnapshot⟩⟩ :=
      Store.mem_replayCalls.mp hcall
    · obtain ⟨j, rfl⟩ := Store.mem_eventsFromCalls hevents
      exact Or.inl ⟨.event j, by simp, rfl⟩
    · exact Or.inr ⟨s, loaded, s', hreplays, hreplay, hsnapshot⟩

/-- The snapshot of a replay is among the calls of the `Recover`. -/
theorem Store.Replays.mem_recoverCalls {s s' : P} {loaded : Store}
    {call : KeyCall} (h : store.Replays pf env s loaded)
    (hreplay : loaded.replay pf env s = .ok s')
    (hcall : call ∈ loaded.snapshotCalls pf env s') :
    call ∈ store.recoverCalls pf env := by
  obtain ⟨start, hstart⟩ : ∃ start, pf.succ loaded.stateCounter = .ok start := by
    cases hsucc : pf.succ loaded.stateCounter with
    | ok start => exact ⟨start, rfl⟩
    | error e => simp [Store.replay, hsucc, bind, Except.bind] at hreplay
  exact Store.mem_recoverCalls.mpr (Or.inr ⟨s, loaded, h,
    Store.mem_replayCalls.mpr ⟨start, hstart, Or.inr ⟨s', hreplay, hcall⟩⟩⟩)

/-- A `Recover` that does not come to the snapshot hands nothing to `put`. -/
theorem Store.recoverCalls_not_puts (hkey : store.keyBox = some key)
    (hfails : ∀ s loaded s', store.Replays pf env s loaded →
      loaded.replay pf env s ≠ .ok s') :
    ∀ call ∈ store.recoverCalls pf env, ∀ bytes, ¬ call.Puts bytes := by
  intro call hcall bytes
  obtain ⟨keyUse, -, rfl⟩ | ⟨s, loaded, s', hreplays, hreplay, -⟩ :=
    Store.recoverCalls_cases hkey hcall
  · exact KeyCall.not_puts_unseal _ bytes
  · exact absurd hreplay (hfails s loaded s' hreplays)

/-- A `Recover` that can't unseal the key to read fails before its snapshot. -/
theorem Store.recover_locked (hkey : store.keyBox = some key) {keyUse : KeyUse}
    (hread : keyUse ≠ .snapshot) (hlocked : env.unlock keyUse = false)
    (h : .unseal keyUse ∈ store.recoverCalls pf env) :
    (∃ e, (store.recover pf env).1 = .error (.error e)) ∧
      ∀ s loaded s', store.Replays pf env s loaded →
        loaded.replay pf env s ≠ .ok s' := by
  obtain hstate | ⟨s, loaded, hreplays, hcall⟩ := Store.mem_recoverCalls.mp h
  · obtain ⟨heq, -⟩ := Store.mem_getStateCalls hkey hstate
    cases heq
    have hfails : store.getState pf env =
        .error (.error (.store "Can't decrypt key")) :=
      Store.getState_locked hkey hlocked hstate
    have herror : (store.recover pf env).1 =
        .error (.error (.store "Can't decrypt key")) := by
      simp only [Store.recover, hfails]
    refine ⟨⟨_, herror⟩, fun s loaded s' hreplays => ?_⟩
    obtain ⟨c, n, k, data, hok, -⟩ := hreplays
    rw [hfails] at hok
    cases hok
  · have hkey' : loaded.keyBox = some key := hreplays.keyBox.trans hkey
    obtain ⟨start, hstart, hevents | ⟨s', -, hsnapshot⟩⟩ :=
      Store.mem_replayCalls.mp hcall
    · obtain ⟨e, he⟩ := Store.replay_locked hkey' s hstart hlocked hevents
      refine ⟨⟨e, hreplays.recover_error he⟩, ?_⟩
      intro s₁ loaded₁ s' hreplays₁
      obtain ⟨rfl, rfl⟩ := hreplays.unique hreplays₁
      simp [he]
    · exact absurd (Store.eq_snapshot_of_mem_snapshotCalls hkey' hsnapshot) hread

theorem confidential_recover_iff (hkey : store.keyBox = some key) :
    Confidential (E := E) pf key env store .recover ↔
      UnsealsToWrite (E := E) pf env store .recover := by
  constructor
  · intro h
    refine ⟨fun hmem => h.unlocked hmem fun hlocked => ?_,
      fun event hevent => by cases hevent⟩
    obtain ⟨keyUse, hread, heq⟩ | ⟨s, loaded, s', hreplays, hreplay, hsnapshot⟩ :=
      Store.recoverCalls_cases hkey hmem
    · cases heq
      contradiction
    · obtain ⟨bytes, hput⟩ := Store.puts_of_snapshot_locked
        (hreplays.keyBox.trans hkey) hlocked hsnapshot
      exact ⟨_, hreplays.mem_recoverCalls hreplay hput, bytes, Or.inr rfl⟩
  · intro h
    refine ⟨fun call hmem bytes hputs => ?_, fun keyUse hmem hlocked => ?_⟩
    · obtain ⟨keyUse, -, rfl⟩ | ⟨s, loaded, s', hreplays, hreplay, hsnapshot⟩ :=
        Store.recoverCalls_cases hkey hmem
      · exact absurd hputs (KeyCall.not_puts_unseal _ bytes)
      · have hkey' := hreplays.keyBox.trans hkey
        have hunlock := h.1 (hreplays.mem_recoverCalls hreplay
          (Store.unseal_of_mem_snapshotCalls hkey' hsnapshot))
        exact Store.snapshotCalls_ciphertexts hkey' hunlock hsnapshot hputs
    · have hread : keyUse ≠ .snapshot := by
        intro heq
        subst heq
        exact absurd (h.1 hmem) (by simp [hlocked])
      obtain ⟨⟨e, he⟩, hfails⟩ := Store.recover_locked hkey hread hlocked hmem
      constructor
      · simp only [Store.handleMessage, he]
        exact answersError_respond _ _
      · exact Store.recoverCalls_not_puts hkey hfails

theorem unsealsToWrite_of_reads {command : StoreCommand P E}
    (hcommand : ∀ event, command ≠ .persist event)
    (hcalls : .unseal .snapshot ∉ store.calls pf env command) :
    UnsealsToWrite pf env store command :=
  ⟨fun hmem => absurd hmem hcalls,
    fun event hevent => absurd hevent (hcommand event)⟩

/-- **With a password nothing is stored in clear, exactly when the key is
unsealed to write.**  For every store created with a password, every command and
every outcome of each use of the key. -/
theorem confidential_iff (pf : Platform P E) (key : Key) (tables : Tables)
    (history : List (Request P E)) (store : Store) (replies : List (Reply P E))
    (hrun : execute (Session.step pf (some key)) (.closed tables) history =
      some (.opened store, replies))
    (env : Env) (command : StoreCommand P E) :
    Confidential pf key env store command ↔
      UnsealsToWrite pf env store command := by
  have hstart : (Session.closed tables).HasKey (some key) := trivial
  have hkey : store.keyBox = some key := Session.hasKey_of_execute hstart hrun
  cases command with
  | persist event => exact confidential_persist_iff hkey event
  | persistLight event state => exact confidential_persistLight_iff hkey event state
  | snapshot actor => exact confidential_snapshot_iff hkey actor
  | recover => exact confidential_recover_iff hkey
  | lastEvent =>
      refine iff_of_true (confidential_lastEvent hkey)
        (unsealsToWrite_of_reads (by simp) fun hmem => ?_)
      obtain ⟨heq, -⟩ := Store.mem_lastEventCalls hkey hmem
      cases heq
  | getEvents start stop =>
      refine iff_of_true (Confidential.of_events hkey rfl rfl)
        (unsealsToWrite_of_reads (by simp) fun hmem => ?_)
      obtain ⟨j, heq⟩ := Store.mem_eventsFromCalls hmem
      cases heq
  | lastEventsFrom start =>
      refine iff_of_true (Confidential.of_events hkey rfl rfl)
        (unsealsToWrite_of_reads (by simp) fun hmem => ?_)
      obtain ⟨j, heq⟩ := Store.mem_eventsFromCalls hmem
      cases heq
  | purge =>
      exact iff_of_true (Confidential.of_no_unseal rfl)
        (unsealsToWrite_of_reads (by simp) (by simp [Store.calls]))
  | lastEventNumber =>
      exact iff_of_true (Confidential.of_no_unseal rfl)
        (unsealsToWrite_of_reads (by simp) (by simp [Store.calls]))

end Calls

namespace CounterActor

/-- One use of the key fails. -/
def locking (keyUse : KeyUse) : Env :=
  { env with unlock := fun other => !decide (other = keyUse) }

/-- A store with a password, without events. -/
def lockedStore : Store where
  events := ∅
  states := none
  eventCounter := 0
  stateCounter := 0
  keyBox := some password

/-- A `Persist` whose key can't be unsealed writes nothing. -/
theorem confidential_iff_persist :
    Confidential platform password (locking .persist) lockedStore
      (.persist 1) :=
  (confidential_iff platform password ⟨∅, none⟩ [⟨env, .reopen⟩] lockedStore _
    rfl (locking .persist) (.persist 1)).mpr
    ⟨fun _ => rfl, fun _ _ _ => rfl⟩

/-- A `Snapshot` whose key can't be unsealed is answered with success and writes
the state 7 and its counter as they are. -/
theorem snapshot_in_clear :
    (lockedStore.handleMessage platform (locking .snapshot)
        (.snapshot 7)).1 = .ok .snapshotted ∧
      (lockedStore.handleMessage platform (locking .snapshot)
        (.snapshot 7)).2.states = some [7, 0] ∧
      ¬ Confidential platform password (locking .snapshot) lockedStore
        (.snapshot 7) := by
  refine ⟨rfl, rfl, fun h => ?_⟩
  have hcall : KeyCall.putState [7, 0] ∈
      lockedStore.calls platform (locking .snapshot) (.snapshot 7) := by
    decide
  obtain ⟨nonce, plaintext, ciphertext, -, hdata⟩ :=
    h.ciphertexts _ hcall [7, 0] (Or.inr rfl)
  have hlength := congrArg List.length hdata
  have hnonce : nonce.val.length = 12 := nonce.property
  simp only [List.length_append, hnonce, List.length_cons,
    List.length_nil] at hlength
  omega

end CounterActor

end Persistence
end Rush
