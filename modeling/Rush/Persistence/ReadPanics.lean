import Rush.Persistence.CounterActor
import Rush.Persistence.StartStore

/-!
# When reading stored bytes panics

`decrypt` cuts the first `nonceSize` bytes off a stored value without a look at
its length.  Four places reach it: `last_event` (for `LastEvent`, and for a
`Persist` with the counter 0), `get_state`, and `events` (for the two range
queries and the replay of `Recover`).  Apart from that, `u64` additions panic
when they are checked: the next event number of `Persist`, and the first number
that `Recover` replays.
-/

namespace Rush
namespace Persistence

open Foundation Database Actor

variable {P E : Type}

/-- The commands that read stored values. -/
def StoreCommand.Reads : StoreCommand P E → Prop
  | .lastEvent | .getEvents .. | .lastEventsFrom _ | .recover | .persist _ => True
  | _ => False

/-- No command that reads stored values panics, whatever the calls of the
command answer. -/
def ReadsNeverPanic (pf : Platform P E) (store : Store) : Prop :=
  ∀ (env : Env) (command : StoreCommand P E), command.Reads →
    (store.handleMessage pf env command).1 ≠ .error .panic

/-- The stored values that are read as sealed ones hold a nonce: those under
event numbers, the last one, and the snapshot. -/
structure Tables.HoldNonces (tables : Tables) : Prop where
  event : ∀ i data, tables.events[eventKey i]? = some data →
    nonceSize ≤ data.length
  last : ∀ key data, tables.events.last? = some (key, data) →
    nonceSize ≤ data.length
  snapshot : ∀ data, tables.states = some data → nonceSize ≤ data.length

section Counters

variable (pf : Platform P E) (store : Store) (key : Key)

/-- Some event can be sealed with the key. -/
def CanSeal : Prop :=
  ∃ event bytes nonce ciphertext, pf.codec.encodeEvent event = .ok bytes ∧
    pf.cipher.encrypt key nonce bytes = .ok ciphertext

/-- The snapshot is opened with this state and counter. -/
def SnapshotOpens (state : P) (counter : UInt64) : Prop :=
  ∃ data bytes, store.states = some data ∧
    Store.decrypt pf key data = .ok bytes ∧
    pf.codec.decodeState bytes = .ok (state, counter)

/-- The numbers after the event counter and after the counter of a snapshot that
is behind the last event are `u64` values. -/
structure NumbersFit : Prop where
  persist : CanSeal pf key → store.eventCounter.toNat + 1 < 2 ^ 64
  recover : ∀ state counter last data n, SnapshotOpens pf store key state counter →
    store.events.last? = some (last, data) → parseU64 last = .ok n →
    n ≠ counter → counter.toNat + 1 < 2 ^ 64

end Counters

theorem Platform.succ_eq_panic_iff {pf : Platform P E} {n : UInt64} :
    pf.succ n = .error .panic ↔
      pf.overflowChecks = true ∧ ¬ n.toNat + 1 < 2 ^ 64 := by
  unfold Platform.succ
  repeat' split
  all_goals simp_all

theorem respond_eq_panic_iff {α : Type} {response : α → StoreResponse P E}
    {result : Except (Failure StoreError) α} :
    respond response result = .error .panic ↔ result = .error .panic := by
  rcases result with (e | _) | a <;> simp [respond]

theorem respondEvents_eq_panic_iff {context : String}
    {result : Except (Failure StoreError) (List E)} :
    respondEvents (P := P) context result = .error .panic ↔
      result = .error .panic := by
  rcases result with (e | _) | a <;> simp [respondEvents]

namespace Store

variable {pf : Platform P E} {env : Env} {store : Store} {key : Key}

/-- The split of a stored value is out of bounds exactly for a short value. -/
theorem decrypt_eq_panic_iff {data : Bytes} :
    decrypt pf key data = .error .panic ↔ data.length < nonceSize := by
  unfold decrypt
  split
  · rename_i htake
    rw [List.length_take] at htake
    have hlong : ¬ data.length < nonceSize := by omega
    split <;> simp [hlong]
  · rename_i htake
    rw [List.length_take] at htake
    have hshort : data.length < nonceSize := by omega
    simp [hshort]

theorem encrypt_ne_panic (nonce : Nonce) (bytes : Bytes) :
    encrypt pf key nonce bytes ≠ .error .panic := by
  unfold encrypt
  split <;> simp

theorem encodeEvent_ne_panic (event : E) :
    encodeEvent pf event ≠ .error .panic := by
  unfold encodeEvent
  split <;> simp

theorem decodeEvent_ne_panic (data : Bytes) :
    decodeEvent pf data ≠ .error .panic := by
  unfold decodeEvent
  split <;> simp

theorem events_of_getEvent {i : UInt64} {data : Bytes}
    (h : store.getEvent env i = .ok data) :
    store.events[eventKey i]? = some data := by
  unfold getEvent Table.get at h
  split at h
  · simp at h
  · split at h
    · rename_i hdata
      cases h
      exact hdata
    · simp at h

theorem last?_of_last {entry : Str × Bytes} (h : store.last env = some entry) :
    store.events.last? = some entry := by
  unfold last at h
  split at h
  · simp at h
  · exact h

theorem states_of_getStateData {data : Bytes}
    (h : store.getStateData env = .ok (some data)) :
    store.states = some data := by
  unfold getStateData at h
  split at h <;> simp_all

section WithKey

variable (hkey : store.keyBox = some key)

include hkey

theorem sealEvent_ne_panic (event : E) :
    store.sealEvent pf env event ≠ .error .panic := by
  unfold sealEvent
  simp only [hkey]
  split
  · cases hencode : encodeEvent pf event with
    | error e =>
        intro h
        exact encodeEvent_ne_panic event (hencode.trans h)
    | ok bytes => exact encrypt_ne_panic env.eventNonce bytes
  · simp

theorem openEvent_eq_panic_iff {keyUse : KeyUse} {data : Bytes} :
    store.openEvent pf env keyUse data = .error .panic ↔
      env.unlock keyUse = true ∧ data.length < nonceSize := by
  unfold openEvent
  simp only [hkey]
  split
  · rename_i hunlock
    have hshort : decrypt pf key data = .error .panic ↔
        data.length < nonceSize := decrypt_eq_panic_iff
    rw [← hshort]
    cases hdecrypt : decrypt pf key data with
    | error e => simp [hunlock, bind, Except.bind]
    | ok bytes =>
        simpa [bind, Except.bind] using decodeEvent_ne_panic bytes
  · rename_i hlocked
    simp [hlocked]

theorem lastEvent_eq_panic_iff :
    store.lastEvent pf env = .error .panic ↔
      ∃ last data, store.last env = some (last, data) ∧
        env.unlock .lastEvent = true ∧ data.length < nonceSize := by
  unfold lastEvent
  cases store.last env with
  | none => simp
  | some entry =>
      obtain ⟨last, data⟩ := entry
      have hopen : store.openEvent pf env .lastEvent data = .error .panic ↔
          env.unlock .lastEvent = true ∧ data.length < nonceSize :=
        openEvent_eq_panic_iff hkey
      have hevent : (∃ last' data', some (last, data) = some (last', data') ∧
          env.unlock .lastEvent = true ∧ data'.length < nonceSize) ↔
          env.unlock .lastEvent = true ∧ data.length < nonceSize := by
        constructor
        · rintro ⟨_, _, heq, h⟩
          cases heq
          exact h
        · exact fun h => ⟨last, data, rfl, h⟩
      rw [hevent, ← hopen]
      cases hresult : store.openEvent pf env .lastEvent data <;>
        simp [hresult]

/-- A stored snapshot is decrypted and decoded, unless the key stays sealed. -/
theorem getState_eq_bind {data : Bytes}
    (hdata : store.getStateData env = .ok (some data))
    (hunlock : env.unlock .getState = true) :
    store.getState pf env = (decrypt pf key data).bind fun bytes =>
      match pf.codec.decodeState bytes with
      | .error e => .error (.error (.store ("Can't decode state: " ++ e)))
      | .ok state => .ok (some state) := by
  unfold getState
  rw [hdata]
  cases hdecrypt : decrypt pf key data with
  | error e => simp [hkey, hunlock, hdecrypt, bind, Except.bind]
  | ok bytes =>
      simp only [hkey, hunlock, hdecrypt, bind, Except.bind, if_true]
      rfl

/-- The ways in which `get_state` ends without a look at the snapshot. -/
theorem getState_cases (pf : Platform P E) (env : Env) :
    (∃ e, store.getState pf env = .error (.error e)) ∨
      store.getState pf env = .ok none ∨
      ∃ data, store.getStateData env = .ok (some data) ∧
        env.unlock .getState = true := by
  unfold getState
  cases hdata : store.getStateData env with
  | error e =>
      cases e with
      | error e => exact Or.inl ⟨e, rfl⟩
      | panic =>
          unfold getStateData at hdata
          split at hdata <;> simp at hdata
  | ok found =>
      cases found with
      | none => exact Or.inr (Or.inl rfl)
      | some data =>
          by_cases hunlock : env.unlock .getState = true
          · exact Or.inr (Or.inr ⟨data, rfl, hunlock⟩)
          · refine Or.inl ⟨.store "Can't decrypt key", ?_⟩
            simp [hkey, hunlock, bind, Except.bind]

theorem getState_eq_panic_iff :
    store.getState pf env = .error .panic ↔
      ∃ data, store.getStateData env = .ok (some data) ∧
        env.unlock .getState = true ∧ data.length < nonceSize := by
  constructor
  · intro hpanic
    rcases getState_cases hkey pf env with
      ⟨e, herror⟩ | hnone | ⟨data, hdata, hunlock⟩
    · rw [hpanic] at herror
      cases herror
    · rw [hpanic] at hnone
      contradiction
    · refine ⟨data, hdata, hunlock, ?_⟩
      rw [getState_eq_bind hkey hdata hunlock] at hpanic
      have hshort : decrypt pf key data = .error .panic ↔
          data.length < nonceSize := decrypt_eq_panic_iff
      rw [← hshort]
      cases hdecrypt : decrypt pf key data with
      | error e => simpa [hdecrypt, Except.bind] using hpanic
      | ok bytes =>
          simp only [hdecrypt, Except.bind] at hpanic
          split at hpanic <;> simp at hpanic
  · rintro ⟨data, hdata, hunlock, hshort⟩
    rw [getState_eq_bind hkey hdata hunlock, decrypt_eq_panic_iff.mpr hshort]
    rfl

/-- A state that is read is the one that the snapshot is opened with. -/
theorem snapshotOpens_of_getState {state : P} {counter : UInt64}
    (h : store.getState pf env = .ok (some (state, counter))) :
    SnapshotOpens pf store key state counter := by
  rcases getState_cases hkey pf env with
    ⟨e, herror⟩ | hnone | ⟨data, hdata, hunlock⟩
  · rw [h] at herror
    contradiction
  · rw [h] at hnone
    cases hnone
  · have hstored := states_of_getStateData hdata
    rw [getState_eq_bind hkey hdata hunlock] at h
    cases hdecrypt : decrypt pf key data with
    | error e => simp [hdecrypt, Except.bind] at h
    | ok bytes =>
        simp only [hdecrypt, Except.bind] at h
        split at h
        · simp at h
        · rename_i hdecode
          cases h
          exact ⟨data, bytes, hstored, hdecrypt, hdecode⟩

theorem getState_of_snapshotOpens (henv : env.Healthy) {state : P}
    {counter : UInt64} (h : SnapshotOpens pf store key state counter) :
    store.getState pf env = .ok (some (state, counter)) := by
  obtain ⟨data, bytes, hstored, hdecrypt, hdecode⟩ := h
  have hdata : store.getStateData env = .ok (some data) := by
    unfold getStateData
    rw [henv.1 .statesGet, hstored]
  rw [getState_eq_bind hkey hdata (henv.2.2 .getState), hdecrypt]
  simp only [Except.bind, hdecode]

/-- A range query panics at a readable value of the range that is short. -/
theorem short_of_unopened {start stop : UInt64}
    (h : store.Unopened pf env start stop .panic) :
    ∃ i data, store.getEvent env i = .ok data ∧ data.length < nonceSize := by
  obtain ⟨events, -, -, data, hget, hopen⟩ := h
  exact ⟨_, data, hget, ((openEvent_eq_panic_iff hkey).mp hopen).2⟩

omit hkey in
theorem nextEventNumber_eq_panic_iff :
    store.nextEventNumber pf env = .error .panic ↔
      pf.overflowChecks = true ∧ ¬ store.eventCounter.toNat + 1 < 2 ^ 64 ∨
        store.eventCounter = 0 ∧ store.lastEvent pf env = .error .panic := by
  unfold nextEventNumber
  rw [← Platform.succ_eq_panic_iff]
  by_cases hzero : store.eventCounter = 0
  · have hsucc : pf.succ store.eventCounter ≠ .error .panic := by
      rw [hzero, Ne, Platform.succ_eq_panic_iff]
      simp
    rcases hread : store.lastEvent pf env with (e | _) | (_ | last) <;>
      simp [hzero] <;> simpa [hzero] using hsucc
  · simp [hzero]

end WithKey

/-- A `Persist` panics when it gets to the number of a sealed event and that
number can't be computed. -/
theorem persist_eq_panic_iff (hkey : store.keyBox = some key) (event : E) :
    (store.persist pf env event).1 = .error .panic ↔
      (∃ bytes, store.sealEvent pf env event = .ok bytes) ∧
        store.nextEventNumber pf env = .error .panic := by
  have hseal : store.sealEvent pf env event ≠ .error .panic :=
    sealEvent_ne_panic hkey event
  unfold persist
  rcases hbytes : store.sealEvent pf env event with e | bytes
  · rw [hbytes] at hseal
    simpa using hseal
  · rcases hnext : store.nextEventNumber pf env with e | next
    · simp
    · cases hput : env.fault .eventsPut <;> simp

/-- An event is sealed in some environment when the key can seal it. -/
theorem canSeal_of_sealEvent (hkey : store.keyBox = some key) {event : E}
    {bytes : Bytes} (h : store.sealEvent pf env event = .ok bytes) :
    CanSeal pf key := by
  unfold sealEvent at h
  simp only [hkey] at h
  split at h
  · cases hencode : encodeEvent pf event with
    | error e => simp [hencode, bind, Except.bind] at h
    | ok plain =>
        simp only [hencode, bind, Except.bind] at h
        unfold encodeEvent at hencode
        unfold encrypt at h
        split at hencode
        · simp at hencode
        · rename_i hplain
          cases hencode
          split at h
          · simp at h
          · rename_i ciphertext hcipher
            exact ⟨event, plain, env.eventNonce, ciphertext, hplain, hcipher⟩
  · simp at h

section Suffices

variable (hkey : store.keyBox = some key) (hnonces : store.HoldNonces)

include hkey hnonces

theorem lastEvent_ne_panic : store.lastEvent pf env ≠ .error .panic := by
  intro hpanic
  obtain ⟨last, data, hlast, -, hshort⟩ := (lastEvent_eq_panic_iff hkey).mp hpanic
  have hlong := hnonces.last last data (last?_of_last hlast)
  omega

theorem not_unopened_panic (start stop : UInt64) :
    ¬ store.Unopened pf env start stop .panic := by
  intro hpanic
  obtain ⟨i, data, hget, hshort⟩ := short_of_unopened hkey hpanic
  have hlong := hnonces.event i data (events_of_getEvent hget)
  omega

theorem eventsIn_ne_panic (start stop : UInt64) :
    store.eventsIn pf env start stop ≠ .error .panic := fun hpanic =>
  not_unopened_panic hkey hnonces start stop (eventsFrom_eq_error_iff.mp hpanic)

theorem recover_ne_panic
    (hfit : pf.overflowChecks = true → NumbersFit pf store key) :
    (store.recover pf env).1 ≠ .error .panic := by
  intro hpanic
  rcases (recover_answers pf env store).2.mp hpanic with hstate |
    ⟨s, c, last, data, n, hstate, hlast, hparse, hne, hover | hreplay⟩
  · obtain ⟨data, hdata, -, hshort⟩ := (getState_eq_panic_iff hkey).mp hstate
    have hlong := hnonces.snapshot data (states_of_getStateData hdata)
    omega
  · obtain ⟨hchecks, hbig⟩ := Platform.succ_eq_panic_iff.mp hover
    exact hbig ((hfit hchecks).recover s c last data n
      (snapshotOpens_of_getState hkey hstate) (last?_of_last hlast) hparse hne)
  · obtain ⟨start, -, hunopened⟩ := hreplay
    exact not_unopened_panic hkey hnonces start n hunopened

theorem persist_ne_panic
    (hfit : pf.overflowChecks = true → NumbersFit pf store key) (event : E) :
    (store.persist pf env event).1 ≠ .error .panic := by
  intro hpanic
  obtain ⟨⟨bytes, hseal⟩, hnext⟩ := (persist_eq_panic_iff hkey event).mp hpanic
  rcases nextEventNumber_eq_panic_iff.mp hnext with ⟨hchecks, hbig⟩ | ⟨-, hread⟩
  · exact hbig ((hfit hchecks).persist (canSeal_of_sealEvent hkey hseal))
  · exact lastEvent_ne_panic hkey hnonces hread

/-- With nonces in the stored values, and numbers that fit, no command that
reads them panics. -/
theorem readsNeverPanic_of_holdNonces
    (hfit : pf.overflowChecks = true → NumbersFit pf store key) :
    ReadsNeverPanic pf store := by
  intro env command hreads
  cases command with
  | persist event =>
      exact fun h => persist_ne_panic hkey hnonces hfit event
        (respond_eq_panic_iff.mp h)
  | lastEvent =>
      exact fun h => lastEvent_ne_panic hkey hnonces (respond_eq_panic_iff.mp h)
  | lastEventsFrom start =>
      exact fun h => eventsIn_ne_panic hkey hnonces start store.eventCounter
        (respondEvents_eq_panic_iff.mp h)
  | getEvents start stop =>
      exact fun h => eventsIn_ne_panic hkey hnonces start stop
        (respondEvents_eq_panic_iff.mp h)
  | recover =>
      exact fun h => recover_ne_panic hkey hnonces hfit
        (respond_eq_panic_iff.mp h)
  | _ => exact hreads.elim

end Suffices

section Necessary

variable (hkey : store.keyBox = some key) (hnever : ReadsNeverPanic pf store)
  (henv : env.Healthy)

include hkey hnever henv

/-- `GetEvents` gets to every value under an event number. -/
theorem event_holdsNonce {i : UInt64} {data : Bytes}
    (hdata : store.events[eventKey i]? = some data) :
    nonceSize ≤ data.length := by
  by_contra hshort
  have hget : store.getEvent env i = .ok data := by
    unfold getEvent Table.get
    rw [henv.1 (.eventsGet i), hdata]
  have hopen : store.openEvent pf env (.event i) data = .error .panic :=
    (openEvent_eq_panic_iff hkey).mpr ⟨henv.2.2 (.event i), by omega⟩
  have hunopened : store.Unopened pf env i i .panic :=
    ⟨[], trivial, by simp, data, by simpa using hget, by simpa using hopen⟩
  exact hnever env (.getEvents i i) trivial
    (respondEvents_eq_panic_iff.mpr (eventsFrom_eq_error_iff.mpr hunopened))

theorem last_holdsNonce {last : Str} {data : Bytes}
    (hlast : store.events.last? = some (last, data)) :
    nonceSize ≤ data.length := by
  by_contra hshort
  have hread := (last_of_fault (henv.1 .eventsLast) store).trans hlast
  have hpanic : store.lastEvent pf env = .error .panic :=
    (lastEvent_eq_panic_iff hkey).mpr
      ⟨last, data, hread, henv.2.2 .lastEvent, by omega⟩
  exact hnever env .lastEvent trivial (respond_eq_panic_iff.mpr hpanic)

theorem snapshot_holdsNonce {data : Bytes} (hdata : store.states = some data) :
    nonceSize ≤ data.length := by
  by_contra hshort
  have hread : store.getStateData env = .ok (some data) := by
    unfold getStateData
    rw [henv.1 .statesGet, hdata]
  have hpanic : store.getState pf env = .error .panic :=
    (getState_eq_panic_iff hkey).mpr
      ⟨data, hread, henv.2.2 .getState, by omega⟩
  exact hnever env .recover trivial (respond_eq_panic_iff.mpr
    ((recover_answers pf env store).2.mpr (Or.inl hpanic)))

theorem numbersFit_of_never (hchecks : pf.overflowChecks = true) :
    NumbersFit pf store key where
  persist := by
    rintro ⟨event, bytes, nonce, ciphertext, hencode, hcipher⟩
    by_contra hbig
    -- the nonce that seals the event is the one that is drawn
    have hseal : store.sealEvent pf { env with eventNonce := nonce } event =
        .ok (nonce.val ++ ciphertext) := by
      simp [sealEvent, hkey, henv.2.2, encodeEvent, hencode, encrypt, hcipher,
        bind, Except.bind]
    have hnext : store.nextEventNumber pf { env with eventNonce := nonce } =
        .error .panic :=
      nextEventNumber_eq_panic_iff.mpr (Or.inl ⟨hchecks, hbig⟩)
    exact hnever { env with eventNonce := nonce } (.persist event) trivial
      (respond_eq_panic_iff.mpr
        ((persist_eq_panic_iff hkey event).mpr ⟨⟨_, hseal⟩, hnext⟩))
  recover := by
    intro s c last data n hopens hlast hparse hne
    by_contra hbig
    have hread := (last_of_fault (henv.1 .eventsLast) store).trans hlast
    have hover : pf.succ c = .error .panic :=
      Platform.succ_eq_panic_iff.mpr ⟨hchecks, hbig⟩
    exact hnever env .recover trivial (respond_eq_panic_iff.mpr
      ((recover_answers pf env store).2.mpr (Or.inr ⟨s, c, last, data, n,
        getState_of_snapshotOpens hkey henv hopens, hread, hparse, hne,
        Or.inl hover⟩)))

end Necessary

/-- The commands that read stored bytes of a store with a password never panic
if and only if every stored value that they read holds a nonce and, where `u64`
additions are checked, the numbers after the counters fit. -/
theorem readsNeverPanic_iff (pf : Platform P E) (store : Store) (key : Key)
    (hkey : store.keyBox = some key) :
    ReadsNeverPanic pf store ↔
      store.HoldNonces ∧
        (pf.overflowChecks = true → NumbersFit pf store key) := by
  constructor
  · intro hnever
    have henv := CounterActor.env_healthy
    refine ⟨⟨?_, ?_, ?_⟩, numbersFit_of_never hkey hnever henv⟩
    · exact fun i data => event_holdsNonce hkey hnever henv
    · exact fun last data => last_holdsNonce hkey hnever henv
    · exact fun data => snapshot_holdsNonce hkey hnever henv
  · rintro ⟨hnonces, hfit⟩
    exact readsNeverPanic_of_holdNonces hkey hnonces hfit

end Store

namespace CounterActor

/-- The tables of an actor that was stored without a password, opened with
one. -/
def plainStore : Store where
  toTables := tables [1, 2] (some [3, 1])
  eventCounter := 1
  stateCounter := 0
  keyBox := some password

/-- Every command that reads these values panics. -/
theorem plainStore_panics :
    Store.new env (tables [1, 2] (some [3, 1])) (some password) =
        .ok plainStore ∧
      (plainStore.handleMessage platform env .lastEvent).1 = .error .panic ∧
      (plainStore.handleMessage platform env (.getEvents 0 1)).1 =
        .error .panic ∧
      (plainStore.handleMessage platform env (.lastEventsFrom 1)).1 =
        .error .panic ∧
      (plainStore.handleMessage platform env .recover).1 = .error .panic ∧
      ¬ ReadsNeverPanic platform plainStore := by
  have hlast : (plainStore.handleMessage platform env .lastEvent).1 =
      .error .panic := by decide +kernel
  exact ⟨rfl, hlast, by decide +kernel, by decide +kernel, by decide +kernel,
    fun hnever => hnever env .lastEvent trivial hlast⟩

/-- An event and a snapshot that were stored with the password. -/
def sealedStore : Store where
  events := (∅ : Table).insert (eventKey 0) (nonce.val ++ (password.val ++ [1]))
  states := some (nonce.val ++ (password.val ++ [0, 0]))
  eventCounter := 0
  stateCounter := 0
  keyBox := some password

theorem sealedStore_value {key : Str} {data : Bytes}
    (hdata : sealedStore.events[key]? = some data) :
    nonceSize ≤ data.length := by
  change ((∅ : Table).insert _ _)[_]? = _ at hdata
  rw [getElem?_insert_eq] at hdata
  split at hdata
  · cases hdata
    decide
  · simp at hdata

theorem sealedStore_holdNonces : sealedStore.HoldNonces where
  event := fun _ _ => sealedStore_value
  last := fun _ _ hlast => sealedStore_value (Table.last?_eq_some_iff.mp hlast).1
  snapshot := by
    intro data hdata
    cases hdata
    decide

theorem sealedStore_readsNeverPanic :
    sealedStore.keyBox = some password ∧
      ReadsNeverPanic platform sealedStore :=
  ⟨rfl, (Store.readsNeverPanic_iff platform sealedStore password rfl).mpr
    ⟨sealedStore_holdNonces, fun hchecks => Bool.noConfusion hchecks⟩⟩

end CounterActor

end Persistence
end Rush
