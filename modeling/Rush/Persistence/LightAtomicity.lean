import Rush.Persistence.SavedState

/-!
# A light event cut in two

`persist_state` puts the snapshot first and the event after it.  A crash between
the two, or an event that can't be put, leaves the new state with the old event.
-/

namespace Rush
namespace Persistence

open Foundation Database Actor

/-- A `put` to one of the tables. -/
inductive TableWrite
  | putState (bytes : Bytes)
  | putEvent (key : Str) (bytes : Bytes)

def TableWrite.apply (tables : Tables) : TableWrite → Tables
  | .putState bytes => { tables with states := some bytes }
  | .putEvent key bytes => { tables with events := tables.events.insert key bytes }

section Definitions

variable {P E : Type} (pf : Platform P E) (env : Env) (password : Option Key)
  (store : Store) (event : E) (state : P)

/-- The writes of `persist_state`, in order, up to what fails. -/
def Store.lightWrites : List TableWrite :=
  match store.sealEvent pf env event with
  | .error _ => []
  | .ok bytes =>
      match store.sealState pf env state store.eventCounter with
      | .error _ => []
      | .ok data =>
          match env.fault .statesPut, env.fault .eventsPut with
          | some _, _ => []
          | none, some _ => [.putState data]
          | none, none =>
              [.putState data, .putEvent (eventKey store.eventCounter) bytes]

/-- The tables after the first `writes` of them: a crash comes there, or
`persist_state` is at its end. -/
def Store.lightTables (writes : Nat) : Tables :=
  ((store.lightWrites pf env event state).take writes).foldl TableWrite.apply
    store.toTables

/-- The snapshot is the state and the last event is the event, or the tables
hold what they held before. -/
def AllOrNothing (before after : Tables) : Prop :=
  (∃ c, Store.HasSnapshot pf password after state c) ∧
      Store.LastIs pf password after.events event ∨
    (after.states = before.states ∨ ∃ s c,
        Store.HasSnapshot pf password before s c ∧
          Store.HasSnapshot pf password after s c) ∧
      after.events = before.events

/-- `Recover` and `LastEvent` answer in one store as in the other. -/
def AnswersAs (before after : Store) : Prop :=
  ∀ env : Env, env.Healthy →
    (after.handleMessage pf env .recover).1 =
        (before.handleMessage pf env .recover).1 ∧
      (after.handleMessage pf env .lastEvent).1 =
        (before.handleMessage pf env .lastEvent).1

/-- `PersistLight` is all or nothing, when it is cut after `writes` writes and
when it answers an error. -/
structure LightAtomic (writes : Nat) : Prop where
  tables : AllOrNothing pf password event state store.toTables
    (store.lightTables pf env event state writes)
  error : ∀ e,
    (store.handleMessage pf env (.persistLight event state)).1 =
        .ok (.error e) →
      AnswersAs pf store
        (store.handleMessage pf env (.persistLight event state)).2

/-- The snapshot is put, and the event is not: its `put` fails, or the crash
comes before it. -/
def Store.CutBetween (writes : Nat) : Prop :=
  (∃ bytes, store.sealEvent pf env event = .ok bytes) ∧
    ¬ store.WriteFails pf env state store.eventCounter ∧ 0 < writes ∧
      (writes = 1 ∨ (env.fault .eventsPut).isSome)

/-- Every recovery answers this state. -/
def Store.RecoversState : Prop :=
  ∀ env : Env, env.Healthy →
    (store.handleMessage pf env .recover).1 = .ok (.state (some state))

/-- The snapshot is sealed with the key, if there is one; else the encoding of
the state is stored as it is. -/
def Store.SealsSnapshot : Prop :=
  store.keyBox ≠ none → env.unlock .snapshot = true

/-- The value is the stored snapshot, or opens as the same state. -/
def Store.HoldsAlike (data : Bytes) : Prop :=
  store.states = some data ∨ ∃ s c,
    Store.HasSnapshot pf password store.toTables s c ∧
      Store.SealedState pf password data s c

/-- The value serves as the snapshot of a light event that is sealed as `bytes`
and cut after `writes` writes. -/
structure Store.Serves (writes : Nat) (bytes data : Bytes) : Prop where
  cut : 0 < writes → writes = 1 ∨ (env.fault .eventsPut).isSome →
    store.HoldsAlike pf password data ∨
      (∃ c, Store.SealedState pf password data state c) ∧
        Store.LastIs pf password store.events event
  whole : 1 < writes → env.fault .eventsPut = none →
    (∃ c, Store.SealedState pf password data state c) ∨
      store.HoldsAlike pf password data ∧
        store.events[eventKey store.eventCounter]? = some bytes
  error : (env.fault .eventsPut).isSome → ∀ later : Env, later.Healthy →
    (Store.handleMessage pf later { store with states := some data }
        .recover).1 =
      (store.handleMessage pf later .recover).1

end Definitions

section Atomicity

variable {P E : Type} {pf : Platform P E} {env : Env} {password : Option Key}
  {store : Store} {event : E} {state : P}

/-- The writes of an event and a state that can be put. -/
theorem Store.lightTables_eq {bytes data : Bytes}
    (hseal : store.sealEvent pf env event = .ok bytes)
    (hdata : store.sealState pf env state store.eventCounter = .ok data)
    (hput : env.fault .statesPut = none) (writes : Nat) :
    store.lightTables pf env event state writes =
      if writes = 0 then store.toTables
      else if writes = 1 ∨ (env.fault .eventsPut).isSome then
        { store.toTables with states := some data }
      else
        { events := store.events.insert (eventKey store.eventCounter) bytes
          states := some data } := by
  unfold lightTables lightWrites
  match writes with
  | 0 => simp
  | 1 =>
      cases hevent : env.fault .eventsPut with
      | some e => simp [hseal, hdata, hput, TableWrite.apply]
      | none => simp [hseal, hdata, hput, TableWrite.apply]
  | n + 2 =>
      cases hevent : env.fault .eventsPut with
      | some e => simp [hseal, hdata, hput, TableWrite.apply]
      | none => simp [hseal, hdata, hput, TableWrite.apply]

/-- Nothing is written of an event or a state that can't be put. -/
theorem Store.lightTables_unput
    (h : ∀ bytes data, store.sealEvent pf env event = .ok bytes →
      store.sealState pf env state store.eventCounter = .ok data →
      env.fault .statesPut ≠ none) (writes : Nat) :
    store.lightTables pf env event state writes = store.toTables := by
  have hnone : store.lightWrites pf env event state = [] := by
    unfold lightWrites
    cases hseal : store.sealEvent pf env event with
    | error e => rfl
    | ok bytes =>
        cases hdata : store.sealState pf env state store.eventCounter with
        | error e => rfl
        | ok data =>
            cases hput : env.fault .statesPut with
            | some e => rfl
            | none => exact absurd hput (h bytes data hseal hdata)
  simp [lightTables, hnone]

/-- `persist_state` leaves the tables that its writes make. -/
theorem Store.persistState_tables (pf : Platform P E) (env : Env)
    (store : Store) (event : E) (state : P) :
    (store.persistState pf env event state).2.toTables =
      store.lightTables pf env event state 2 := by
  have hends := lightPersistence pf env store event state
  unfold lightTables lightWrites
  generalize store.persistState pf env event state = outcome at hends
  cases hends with
  | unsealed e hseal =>
      rw [hseal]
      rfl
  | snapshotFails bytes e hseal hwrite =>
      rw [hseal]
      cases hdata : store.sealState pf env state store.eventCounter with
      | error e => rfl
      | ok data =>
          -- the state is sealed, so its `put` is what fails
          rcases hwrite with ⟨e', he'⟩ | hfault
          · rw [hdata] at he'
            contradiction
          · obtain ⟨e', he'⟩ := Option.isSome_iff_exists.mp hfault
            simp only [he']
            rfl
  | putFails bytes data e hseal hdata hwrite hput =>
      simp only [hseal, hdata, hwrite, hput]
      rfl
  | persisted bytes data hseal hdata hwrite hput =>
      simp only [hseal, hdata, hwrite, hput]
      rfl

/-- One environment without faults. -/
def Env.withoutFaults (env : Env) : Env :=
  { env with fault := fun _ => none, sealPassword := none, unlock := fun _ => true }

theorem Env.withoutFaults_healthy (env : Env) : env.withoutFaults.Healthy :=
  ⟨fun _ => rfl, rfl, fun _ => rfl⟩

/-- Tables have one snapshot at most. -/
theorem Store.HasSnapshot.unique {tables : Tables} {s s' : P} {c c' : UInt64}
    (h : HasSnapshot pf password tables s c)
    (h' : HasSnapshot pf password tables s' c') (env : Env) :
    s = s' ∧ c = c' := by
  obtain ⟨data, hdata, hsealed⟩ := h
  obtain ⟨data', hdata', hsealed'⟩ := h'
  rw [hdata] at hdata'
  cases hdata'
  -- any store over the tables reads both
  let store : Store :=
    { tables with eventCounter := 0, stateCounter := 0, keyBox := password }
  have hread := hsealed _ store env.withoutFaults_healthy rfl hdata
  rw [hsealed' _ store env.withoutFaults_healthy rfl hdata] at hread
  simpa [eq_comm] using hread

@[simp] theorem Store.hasSnapshot_put {table : Table} {data : Bytes} {s : P}
    {c : UInt64} :
    Store.HasSnapshot pf password ⟨table, some data⟩ s c ↔
      Store.SealedState pf password data s c :=
  ⟨fun ⟨_, hdata, hsealed⟩ => Option.some.inj hdata ▸ hsealed,
    fun hsealed => ⟨data, rfl, hsealed⟩⟩

/-- Putting an entry changes nothing if it is there already. -/
theorem insert_eq_self_iff {table : Table} {key : Str} {bytes : Bytes} :
    table.insert key bytes = table ↔ table[key]? = some bytes := by
  constructor
  · intro heq
    rw [← heq, Std.ExtTreeMap.getElem?_insert_self]
  · intro hget
    refine Std.ExtTreeMap.ext_getElem? fun key' => ?_
    rw [Std.ExtTreeMap.getElem?_insert]
    split
    · rename_i heq
      rw [← hget, Std.LawfulEqCmp.eq_of_compare heq]
    · rfl

/-- The snapshot is put, and the event is not. -/
theorem allOrNothing_putState_iff {data : Bytes} :
    AllOrNothing pf password event state store.toTables
        { store.toTables with states := some data } ↔
      store.HoldsAlike pf password data ∨
        (∃ c, Store.SealedState pf password data state c) ∧
          Store.LastIs pf password store.events event := by
  simp only [AllOrNothing, Store.hasSnapshot_put, Store.HoldsAlike, and_true,
    eq_comm (a := store.states), or_comm]

/-- Both are put, and the event is the last one. -/
theorem allOrNothing_putBoth_iff {bytes data : Bytes}
    (hlast : Store.LastIs pf password
      (store.events.insert (eventKey store.eventCounter) bytes) event) :
    AllOrNothing pf password event state store.toTables
        { events := store.events.insert (eventKey store.eventCounter) bytes
          states := some data } ↔
      (∃ c, Store.SealedState pf password data state c) ∨
        store.HoldsAlike pf password data ∧
          store.events[eventKey store.eventCounter]? = some bytes := by
  simp only [AllOrNothing, Store.hasSnapshot_put, hlast, insert_eq_self_iff,
    Store.HoldsAlike, and_true, eq_comm (a := store.states)]

/-- The event put under the counter is the last one. -/
theorem LogInvariant.lastIs_insert (hpf : pf.Inverts) {lo : Nat}
    (hlog : LogInvariant pf password store lo) {bytes : Bytes}
    (hseal : store.sealEvent pf env event = .ok bytes) :
    Store.LastIs pf password
      (store.events.insert (eventKey store.eventCounter) bytes) event := by
  -- the counter is the last number
  obtain ⟨bytes', hlast, hget⟩ :=
    (hlog.numbered.insert_last bytes).last?_eq (Nat.min_le_right _ _)
  rw [Std.ExtTreeMap.getElem?_insert_self] at hget
  cases hget
  have hevent := Store.sealed_of_sealEvent hpf hseal
  rw [hlog.keyBox] at hevent
  exact ⟨_, _, hlast, hevent⟩

theorem answersAs_stateCounter (store : Store) (n : UInt64) :
    AnswersAs pf store { store with stateCounter := n } := by
  intro env _
  refine ⟨?_, rfl⟩
  show respond StoreResponse.state (Store.recover pf env _).1 =
    respond StoreResponse.state (store.recover pf env).1
  rw [(Store.recover_counters pf env store store.eventCounter n).1]

/-- After an error the store answers as before, unless only the snapshot is
put: then the recovery from it has to answer as before. -/
theorem answersAs_of_error_iff :
    (∀ e, (store.handleMessage pf env (.persistLight event state)).1 =
        .ok (.error e) →
      AnswersAs pf store
        (store.handleMessage pf env (.persistLight event state)).2) ↔
      ∀ bytes data, store.sealEvent pf env event = .ok bytes →
        store.sealState pf env state store.eventCounter = .ok data →
        env.fault .statesPut = none → (env.fault .eventsPut).isSome →
        ∀ later : Env, later.Healthy →
          (Store.handleMessage pf later { store with states := some data }
              .recover).1 =
            (store.handleMessage pf later .recover).1 := by
  have hends := Store.lightPersistence pf env store event state
  show (∀ e, respond (fun _ => .persisted)
      (store.persistState pf env event state).1 = .ok (.error e) →
    AnswersAs pf store (store.persistState pf env event state).2) ↔ _
  generalize store.persistState pf env event state = outcome at hends
  cases hends with
  | unsealed e hseal =>
      -- nothing has happened
      refine ⟨fun _ bytes _ hbytes => ?_, fun _ _ _ _ _ => ⟨rfl, rfl⟩⟩
      rw [hseal] at hbytes
      contradiction
  | snapshotFails bytes e hseal hwrite =>
      -- only the counter of the snapshot has changed
      refine ⟨fun _ _ data _ hdata hput => ?_,
        fun _ _ _ => answersAs_stateCounter store _⟩
      exact absurd hwrite (Store.not_writeFails hdata hput)
  | putFails bytes data e hseal hdata hwrite hput =>
      -- the new snapshot stands beside the old events
      have hcounter : AnswersAs pf { store with states := some data }
          { store with
            stateCounter := store.eventCounter
            states := some data } := answersAs_stateCounter _ _
      constructor
      · intro h bytes' data' _ hdata' _ _ later hlater
        rw [hdata] at hdata'
        cases hdata'
        rw [← (hcounter later hlater).1]
        exact (h e rfl later hlater).1
      · intro h _ _ later hlater
        refine ⟨?_, rfl⟩
        rw [← h bytes data hseal hdata hwrite (by simp [hput]) later hlater]
        exact (hcounter later hlater).1
  | persisted bytes data hseal hdata hwrite hput =>
      refine ⟨fun _ _ _ _ _ _ hfault => ?_, fun _ e herror => by cases herror⟩
      simp [hput] at hfault

/-- A cut light event is all or nothing if and only if what is put as the
snapshot serves as one. -/
theorem lightAtomic_iff_serves (hpf : pf.Inverts) {lo : Nat}
    (hlog : LogInvariant pf password store lo) (writes : Nat) :
    LightAtomic pf env password store event state writes ↔
      ∀ bytes data, store.sealEvent pf env event = .ok bytes →
        store.sealState pf env state store.eventCounter = .ok data →
        env.fault .statesPut = none →
        store.Serves pf env password event state writes bytes data := by
  constructor
  · intro h bytes data hseal hdata hput
    have htables := Store.lightTables_eq hseal hdata hput writes
    refine ⟨fun hpos hcut => ?_, fun hone hevent => ?_,
      answersAs_of_error_iff.mp h.error bytes data hseal hdata hput⟩
    · rw [if_neg (by omega), if_pos hcut] at htables
      exact allOrNothing_putState_iff.mp (htables ▸ h.tables)
    · rw [if_neg (by omega), if_neg (by simp [hevent]; omega)] at htables
      exact (allOrNothing_putBoth_iff (hlog.lastIs_insert hpf hseal)).mp
        (htables ▸ h.tables)
  · intro h
    refine ⟨?_, answersAs_of_error_iff.mpr fun bytes data hseal hdata hput =>
      (h bytes data hseal hdata hput).error⟩
    by_cases hputs : ∀ bytes data, store.sealEvent pf env event = .ok bytes →
        store.sealState pf env state store.eventCounter = .ok data →
        env.fault .statesPut ≠ none
    · rw [Store.lightTables_unput hputs]
      exact Or.inr ⟨Or.inl rfl, rfl⟩
    · push Not at hputs
      obtain ⟨bytes, data, hseal, hdata, hput⟩ := hputs
      have hserves := h bytes data hseal hdata hput
      rw [Store.lightTables_eq hseal hdata hput]
      split
      · exact Or.inr ⟨Or.inl rfl, rfl⟩
      · split
        · rename_i hzero hcut
          exact allOrNothing_putState_iff.mpr (hserves.cut (by omega) hcut)
        · rename_i hzero hcut
          have hevent : env.fault .eventsPut = none := by
            simpa using (not_or.mp hcut).2
          have hone := (not_or.mp hcut).1
          exact (allOrNothing_putBoth_iff (hlog.lastIs_insert hpf hseal)).mpr
            (hserves.whole (by omega) hevent)

/-- A sealed state is alike only to itself. -/
theorem Store.holdsAlike_iff {data : Bytes} {c : UInt64} (env : Env)
    (hsealed : Store.SealedState pf password data state c) :
    store.HoldsAlike pf password data ↔
      Store.HasSnapshot pf password store.toTables state c := by
  constructor
  · rintro (hsame | ⟨s, c', hbefore, hdata⟩)
    · exact ⟨data, hsame, hsealed⟩
    · have hput : ∀ s c, SealedState pf password data s c →
          HasSnapshot pf password ⟨∅, some data⟩ s c :=
        fun _ _ => Store.hasSnapshot_put.mpr
      obtain ⟨rfl, rfl⟩ := (hput _ _ hdata).unique (hput _ _ hsealed) env
      exact hbefore
  · exact fun h => Or.inr ⟨state, c, h, hsealed⟩

/-- A store whose snapshot is the state under the counter recovers it. -/
theorem LogInvariant.recover_putState {lo : Nat}
    (hlog : LogInvariant pf password store lo) {data : Bytes}
    (hsealed : Store.SealedState pf password data state store.eventCounter)
    {later : Env} (hlater : later.Healthy) :
    (Store.handleMessage pf later { store with states := some data }
        .recover).1 = .ok (.state (some state)) := by
  have hsaved : Saved pf password ⟨store.events, some data⟩ state :=
    ⟨store.eventCounter, lo, data, hlog.numbered, rfl, hsealed⟩
  have hkey : Store.keyBox { store with states := some data } = password :=
    hlog.keyBox
  obtain ⟨store', hrecover, -⟩ :=
    Saved.recover hsaved hkey hlater.onlyWritesFail
  simp only [Store.handleMessage, hrecover, respond]

/-- A sealed snapshot serves unless the cut shows. -/
theorem LogInvariant.serves_iff {lo : Nat}
    (hlog : LogInvariant pf password store lo) {bytes data : Bytes}
    (hsealed : Store.SealedState pf password data state store.eventCounter)
    (writes : Nat) :
    store.Serves pf env password event state writes bytes data ↔
      (0 < writes → writes = 1 ∨ (env.fault .eventsPut).isSome →
        Store.HasSnapshot pf password store.toTables state store.eventCounter ∨
          Store.LastIs pf password store.events event) ∧
      ((env.fault .eventsPut).isSome → store.RecoversState pf state) := by
  have hreads : ∃ c, Store.SealedState pf password data state c := ⟨_, hsealed⟩
  have halike : store.HoldsAlike pf password data ↔
      Store.HasSnapshot pf password store.toTables state store.eventCounter :=
    Store.holdsAlike_iff env hsealed
  constructor
  · intro h
    refine ⟨fun hpos hcut => ?_, fun hevent later hlater => ?_⟩
    · exact (h.cut hpos hcut).imp halike.mp And.right
    · rw [← h.error hevent later hlater]
      exact hlog.recover_putState hsealed hlater
  · intro h
    refine ⟨fun hpos hcut => ?_, fun _ _ => Or.inl hreads,
      fun hevent later hlater => ?_⟩
    · exact (h.1 hpos hcut).imp halike.mpr fun hlast => ⟨hreads, hlast⟩
    · rw [h.2 hevent later hlater]
      exact hlog.recover_putState hsealed hlater

/-- When the cut comes between the two writes. -/
theorem Store.cutBetween_iff {writes : Nat} :
    store.CutBetween pf env event state writes ↔
      ∃ bytes data, store.sealEvent pf env event = .ok bytes ∧
        store.sealState pf env state store.eventCounter = .ok data ∧
        env.fault .statesPut = none ∧ 0 < writes ∧
        (writes = 1 ∨ (env.fault .eventsPut).isSome) := by
  constructor
  · rintro ⟨⟨bytes, hseal⟩, hnot, hpos, hcut⟩
    rcases hdata : store.sealState pf env state store.eventCounter with e | data
    · exact absurd (Or.inl ⟨e, hdata⟩) hnot
    · refine ⟨bytes, data, hseal, rfl, ?_, hpos, hcut⟩
      by_contra hput
      exact hnot (Or.inr (Option.isSome_iff_ne_none.mpr hput))
  · rintro ⟨bytes, data, hseal, hdata, hput, hpos, hcut⟩
    exact ⟨⟨bytes, hseal⟩, not_writeFails hdata hput, hpos, hcut⟩

/-- With a sealed snapshot, all depends on the cut. -/
theorem lightAtomic_iff_of_seals (hpf : pf.Inverts) {lo : Nat}
    (hlog : LogInvariant pf password store lo)
    (hseals : store.SealsSnapshot env) (writes : Nat) :
    LightAtomic pf env password store event state writes ↔
      (store.CutBetween pf env event state writes →
        Store.HasSnapshot pf password store.toTables state store.eventCounter ∨
          Store.LastIs pf password store.events event) ∧
      (store.CutBetween pf env event state 2 →
        store.RecoversState pf state) := by
  have hsealed : ∀ {data}, store.sealState pf env state store.eventCounter =
      .ok data → Store.SealedState pf password data state store.eventCounter := by
    intro data hdata
    rw [← hlog.keyBox]
    exact Store.sealedState_of_sealState hpf hseals hdata
  rw [lightAtomic_iff_serves hpf hlog]
  constructor
  · intro h
    constructor
    · intro hcut
      obtain ⟨bytes, data, hseal, hdata, hput, hpos, hcut⟩ :=
        Store.cutBetween_iff.mp hcut
      exact ((hlog.serves_iff (hsealed hdata) writes).mp
        (h bytes data hseal hdata hput)).1 hpos hcut
    · intro hcut
      obtain ⟨bytes, data, hseal, hdata, hput, -, hcut⟩ :=
        Store.cutBetween_iff.mp hcut
      exact ((hlog.serves_iff (hsealed hdata) writes).mp
        (h bytes data hseal hdata hput)).2 (hcut.resolve_left (by omega))
  · intro h bytes data hseal hdata hput
    refine (hlog.serves_iff (hsealed hdata) writes).mpr
      ⟨fun hpos hcut => h.1 ?_, fun hevent => h.2 ?_⟩
    · exact Store.cutBetween_iff.mpr
        ⟨bytes, data, hseal, hdata, hput, hpos, hcut⟩
    · exact Store.cutBetween_iff.mpr
        ⟨bytes, data, hseal, hdata, hput, by omega, Or.inr hevent⟩

/-- Without its key a snapshot is the encoding of the state. -/
theorem Store.sealState_of_unsealed (hseals : ¬ store.SealsSnapshot env)
    {data : Bytes} :
    store.sealState pf env state store.eventCounter = .ok data ↔
      pf.codec.encodeState (state, store.eventCounter) = .ok data := by
  unfold SealsSnapshot at hseals
  push Not at hseals
  obtain ⟨hkey, hlocked⟩ := hseals
  obtain ⟨key, hkey⟩ := Option.ne_none_iff_exists'.mp hkey
  unfold sealState
  cases pf.codec.encodeState (state, store.eventCounter) with
  | error e => simp
  | ok data => simp [hkey, hlocked]

/-- **Light persistence is all or nothing** if and only if no cut comes between
its two writes, except where it can't be told: the snapshot is already the new
state under the same counter, or the last event is already the new event, and
after an error the recovery answers the new state anyway.  A snapshot that can't
be sealed is put in clear text, which must then serve as one. -/
theorem light_atomic_iff (pf : Platform P E) (hpf : pf.Inverts)
    (password : Option Key) (history : List (Request P E)) (store : Store)
    (replies : List (Reply P E))
    (hhistory : ∀ request ∈ history, request.env.OnlyWritesFail)
    (hrun : execute (Session.step pf password) .empty history =
      some (.opened store, replies))
    (hcount : persistedCount replies < 2 ^ 64) (env : Env) (event : E)
    (state : P) (writes : Nat) :
    LightAtomic pf env password store event state writes ↔
      (store.SealsSnapshot env →
        (store.CutBetween pf env event state writes →
          Store.HasSnapshot pf password store.toTables state
              store.eventCounter ∨
            Store.LastIs pf password store.events event) ∧
        (store.CutBetween pf env event state 2 →
          store.RecoversState pf state)) ∧
      (¬ store.SealsSnapshot env → ∀ bytes data,
        store.sealEvent pf env event = .ok bytes →
        pf.codec.encodeState (state, store.eventCounter) = .ok data →
        env.fault .statesPut = none →
        store.Serves pf env password event state writes bytes data) := by
  obtain ⟨lo, hlog, -⟩ := Session.logInvariant_of_execute hpf hhistory hrun hcount
  by_cases hseals : store.SealsSnapshot env
  · rw [lightAtomic_iff_of_seals hpf hlog hseals]
    simp [hseals]
  · rw [lightAtomic_iff_serves hpf hlog]
    simp [hseals, Store.sealState_of_unsealed hseals]

end Atomicity

namespace CounterActor

/-- The store after the event 5, without a snapshot. -/
def eventStore : Store where
  events := (∅ : Table).insert (eventKey 0) [5]
  states := none
  eventCounter := 0
  stateCounter := 0
  keyBox := none

/-- `light_atomic_iff` for a light event that is not cut. -/
theorem uncut_light_atomic :
    LightAtomic platform env none eventStore 3 8 2 := by
  refine (light_atomic_iff platform platform_roundTrips.inverts none
    [⟨env, .reopen⟩, ⟨env, .command (.persist 5)⟩] eventStore _
    (by simpa using env_healthy.onlyWritesFail) rfl (by decide) env 3 8 2).mpr ?_
  have hnot : ¬ eventStore.CutBetween platform env 3 8 2 := by
    intro hcut
    rcases hcut.2.2.2 with htwo | hfault <;> contradiction
  refine ⟨fun _ => ?_, fun hclear => absurd (fun _ => rfl) hclear⟩
  exact ⟨fun hcut => absurd hcut hnot, fun hcut => absurd hcut hnot⟩

/-- The event 3 can't be put behind the snapshot of the state 8.  The command
answers an error, the last event is 5 as before, and `Recover` answers 8 where
it answered that there is no state. -/
theorem half_a_light_event :
    ∃ store', eventStore.handleMessage platform (failing .eventsPut)
        (.persistLight 3 8) = (.ok (.error (.store "fault")), store') ∧
      (store'.handleMessage platform env .lastEvent).1 =
        .ok (.lastEvent (some 5)) ∧
      (eventStore.handleMessage platform env .recover).1 = .ok (.state none) ∧
      (store'.handleMessage platform env .recover).1 = .ok (.state (some 8)) ∧
      ¬ LightAtomic platform (failing .eventsPut) none eventStore 3 8 2 := by
  refine ⟨_, rfl, ?_, ?_, ?_, fun h => ?_⟩
  · decide +kernel
  · decide +kernel
  · decide +kernel
  · have hanswer := (h.error _ rfl env env_healthy).1
    have hdiffer : (eventStore.handleMessage platform env .recover).1 ≠
        ((eventStore.handleMessage platform (failing .eventsPut)
          (.persistLight 3 8)).2.handleMessage platform env .recover).1 := by
      decide +kernel
    exact hdiffer hanswer.symm

end CounterActor

end Persistence
end Rush
