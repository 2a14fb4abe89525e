import Rush.Persistence.CounterActor
import Rush.Persistence.PersistentActor

/-!
# When `start_store` keeps what is stored

`start_store` writes the initial state as the first snapshot whenever the store
does not answer `Recover` with a state: also when it answers an error, or finds
events without a snapshot.  The snapshot counter then covers every stored event,
so nothing of the old content is recovered any more.
-/

namespace Rush
namespace Persistence

open Foundation Database Actor

variable {P E : Type}

namespace Store

variable (pf : Platform P E) (env : Env) (store : Store)

/-- The recovery gets a state: the stored snapshot can be read, and there is no
later event, or those that are read can be opened and applied and the new
snapshot can be written. -/
def Restores : Prop :=
  ∃ s c, store.getState pf env = .ok (some (s, c)) ∧
    (store.last env = none ∨
      ∃ key data n, store.last env = some (key, data) ∧
        parseU64 key = .ok n ∧
        (n = c ∨ ∃ start events s', pf.succ c = .ok start ∧
          store.Loaded pf env start n events ∧
          pf.applyAll s events = .ok s' ∧ ¬ store.WriteFails pf env s' n))

/-- The recovery panics: a stored value is too short to be decrypted, or the
snapshot counter overflows. -/
def RecoveryPanics : Prop :=
  store.getState pf env = .error .panic ∨
    ∃ s c key data n, store.getState pf env = .ok (some (s, c)) ∧
      store.last env = some (key, data) ∧ parseU64 key = .ok n ∧ n ≠ c ∧
      (pf.succ c = .error .panic ∨
        ∃ start, pf.succ c = .ok start ∧
          store.Unopened pf env start n .panic)

/-- The event counter after a recovery: the last event number, once a snapshot
has been read. -/
def recoveredCounter : UInt64 :=
  match store.getState pf env, store.last env with
  | .ok (some _), some (key, _) =>
      match parseU64 key with
      | .ok n => n
      | .error _ => store.eventCounter
  | _, _ => store.eventCounter

variable {pf env store}

section Behind

variable {s : P} {c n : UInt64} {key : Str} {data : Bytes}
  (hstate : store.getState pf env = .ok (some (s, c)))
  (hlast : store.last env = some (key, data)) (hkey : parseU64 key = .ok n)
  (hne : n ≠ c)

include hstate hlast hkey hne

theorem restores_iff_replay :
    store.Restores pf env ↔ ∃ s',
      replay pf env { store with stateCounter := c, eventCounter := n } s =
        .ok s' ∧ ¬ store.WriteFails pf env s' n := by
  constructor
  · rintro ⟨_, _, hstate', hrest⟩
    rw [hstate] at hstate'
    cases hstate'
    rcases hrest with hnone | ⟨_, _, _, hlast', hkey', hrest⟩
    · rw [hlast] at hnone
      contradiction
    · rw [hlast] at hlast'
      cases hlast'
      rw [hkey] at hkey'
      cases hkey'
      rcases hrest with heq | ⟨start, events, s', hstart, hload, happly, hwrite⟩
      · exact (hne heq).elim
      · have hreplay := replay_eq_ok_iff.mpr
          ⟨start, events, hstart, hload, happly⟩
        exact ⟨s', hreplay, hwrite⟩
  · rintro ⟨s', hreplay, hwrite⟩
    obtain ⟨start, events, hstart, hload, happly⟩ := replay_eq_ok_iff.mp hreplay
    exact ⟨s, c, hstate, Or.inr ⟨key, data, n, hlast, hkey,
      Or.inr ⟨start, events, s', hstart, hload, happly, hwrite⟩⟩⟩

theorem recoveryPanics_iff_replay :
    store.RecoveryPanics pf env ↔
      replay pf env { store with stateCounter := c, eventCounter := n } s =
        .error .panic := by
  rw [replay_eq_panic_iff]
  constructor
  · rintro (hpanic | ⟨_, _, _, _, _, hstate', hlast', hkey', -, hpanic⟩)
    · rw [hstate] at hpanic
      contradiction
    · rw [hstate] at hstate'
      cases hstate'
      rw [hlast] at hlast'
      cases hlast'
      rw [hkey] at hkey'
      cases hkey'
      exact hpanic
  · intro hpanic
    exact Or.inr ⟨s, c, key, data, n, hstate, hlast, hkey, hne, hpanic⟩

end Behind

/-- What an answer of `recover` says about the tables. -/
theorem recover_answers (pf : Platform P E) (env : Env) (store : Store) :
    ((∃ s, (store.recover pf env).1 = .ok (some s)) ↔
        store.Restores pf env) ∧
      ((store.recover pf env).1 = .error .panic ↔
        store.RecoveryPanics pf env) := by
  have hends := recovery pf env store
  generalize store.recover pf env = outcome at hends
  cases hends with
  | unreadable e hstate => simp [Restores, RecoveryPanics, hstate]
  | noSnapshot hstate => simp [Restores, RecoveryPanics, hstate]
  | noEvents s c hstate hlast => simp [Restores, RecoveryPanics, hstate, hlast]
  | badKey s c key data message hstate hlast hkey =>
      simp [Restores, RecoveryPanics, hstate, hlast, hkey]
  | current s c key data hstate hlast hkey =>
      simp [Restores, RecoveryPanics, hstate, hlast, hkey]
  | replayFails s c key data n e hstate hlast hkey hne hreplay =>
      rw [restores_iff_replay hstate hlast hkey hne,
        recoveryPanics_iff_replay hstate hlast hkey hne, hreplay]
      simp
  | writeFails s c key data n s' e hstate hlast hkey hne hreplay hwrite =>
      rw [restores_iff_replay hstate hlast hkey hne,
        recoveryPanics_iff_replay hstate hlast hkey hne, hreplay]
      simp [hwrite]
  | replayed s c key data n s' bytes hstate hlast hkey hne hreplay hwrite _ =>
      rw [restores_iff_replay hstate hlast hkey hne,
        recoveryPanics_iff_replay hstate hlast hkey hne, hreplay]
      simp [hwrite]

theorem recover_keyBox (pf : Platform P E) (env : Env) (store : Store) :
    (store.recover pf env).2.keyBox = store.keyBox := by
  have hends := recovery pf env store
  generalize store.recover pf env = outcome at hends
  cases hends <;> rfl

theorem recover_eventCounter (pf : Platform P E) (env : Env) (store : Store) :
    (store.recover pf env).2.eventCounter = store.recoveredCounter pf env := by
  have hends := recovery pf env store
  generalize store.recover pf env = outcome at hends
  unfold recoveredCounter
  cases hends <;> simp_all

/-- A recovery that gets no state leaves both tables as they were. -/
theorem recover_tables (h : ∀ s, (store.recover pf env).1 ≠ .ok (some s)) :
    (store.recover pf env).2.toTables = store.toTables := by
  have hends := recovery pf env store
  generalize store.recover pf env = outcome at hends h
  cases hends with
  | replayed s c key data n s' bytes => exact (h s' rfl).elim
  | _ => rfl

theorem writeFails_congr {store' : Store} (h : store'.keyBox = store.keyBox)
    (actor : P) (counter : UInt64) :
    store'.WriteFails pf env actor counter ↔
      store.WriteFails pf env actor counter := by
  unfold WriteFails sealState
  rw [h]

/-- The first snapshot is written unless its write fails. -/
theorem snapshot_result (pf : Platform P E) (env : Env) (store : Store)
    (actor : P) :
    ((store.snapshot pf env actor).1 = .ok () ↔
        ¬ store.WriteFails pf env actor store.eventCounter) ∧
      ((store.snapshot pf env actor).1 ≠ .ok () →
        (store.snapshot pf env actor).2.toTables = store.toTables) := by
  rcases snapshot_cases pf env store actor with
    ⟨hfails, e, hsnapshot⟩ | ⟨bytes, hseal, hput, hsnapshot⟩
  · rw [hsnapshot]
    simp [hfails]
  · rw [hsnapshot]
    simp [not_writeFails hseal hput]

end Store

section Start

variable (pf : Platform P E) (env : StartEnv) (tables : Tables)
  (password : Option Key) (actor : P)

/-- Both tables are empty. -/
def Tables.Empty (tables : Tables) : Prop :=
  tables.events = ∅ ∧ tables.states = none

/-- The first snapshot has been written. -/
def StartStore.WroteFirstSnapshot (start : StartStore P E) : Prop :=
  start.firstSnapshot = some (.ok .snapshotted)

/-- `start_store` discards nothing: the first snapshot is only written to empty
tables, and a recovery that gets no state from other tables leaves them. -/
structure DiscardsNothing : Prop where
  firstSnapshot :
    (startStore pf env tables password actor).WroteFirstSnapshot → tables.Empty
  kept : ¬ tables.Empty → ∀ store store',
    Store.new env.creation tables password = .ok store →
    (∀ s, (store.recover pf env.recovery).1 ≠ .ok (some s)) →
    (startStore pf env tables password actor).store = some store' →
    store'.toTables = tables

/-- `start_store` gets to the first snapshot only on empty tables: on all other
ones it fails before, or the recovery gets a state or panics, or the write of
the first snapshot itself fails. -/
def StartsSafely : Prop :=
  tables.Empty ∨
    (∃ e, Store.new env.creation tables password = .error e) ∨
    env.createChild.isSome ∨ env.tell.isSome ∨
    ∃ store, Store.new env.creation tables password = .ok store ∧
      (store.Restores pf env.recovery ∨ store.RecoveryPanics pf env.recovery ∨
        store.WriteFails pf env.firstSnapshot actor
          (store.recoveredCounter pf env.recovery))

variable {pf env tables password actor}

theorem respond_snapshotted {result : Except (Failure StoreError) Unit} :
    respond (fun _ => StoreResponse.snapshotted (P := P) (E := E)) result =
      .ok .snapshotted ↔ result = .ok () := by
  cases result with
  | ok => simp [respond]
  | error e => cases e <;> simp [respond]

/-- What `ask` makes of a recovery. -/
theorem ask_recover (pf : Platform P E) (env : Env) (store : Store) :
    store.ask pf env .recover =
      match store.recover pf env with
      | (.ok state, store') => (.ok (.state state), store')
      | (.error (.error e), store') => (.ok (.error e), store')
      | (.error .panic, store') => (.error (.send "channel closed"), store') := by
  unfold Store.ask Store.handleMessage
  rcases store.recover pf env with ⟨(e | e) | state, store'⟩ <;> rfl

section Created

variable {store : Store}
  (hnew : Store.new env.creation tables password = .ok store)
  (hchild : env.createChild = none)

include hnew hchild

/-- A recovery that gets a state, or panics, sends no first snapshot. -/
theorem startStore_unsent (actor : P)
    (h : store.Restores pf env.recovery ∨ store.RecoveryPanics pf env.recovery) :
    (startStore pf env tables password actor).firstSnapshot = none ∧
      (startStore pf env tables password actor).store =
        some (store.recover pf env.recovery).2 := by
  have hanswers := store.recover_answers pf env.recovery
  rw [← hanswers.1, ← hanswers.2] at h
  simp only [startStore, hnew, hchild, ask_recover]
  rcases hrecover : store.recover pf env.recovery with
    ⟨(e | _) | (_ | s), store'⟩
  · simp [hrecover] at h
  · exact ⟨rfl, rfl⟩
  · simp [hrecover] at h
  · exact ⟨rfl, rfl⟩

/-- Any other recovery is followed by the first snapshot, if `tell` can send
it. -/
theorem startStore_sent (actor : P)
    (h : ¬ (store.Restores pf env.recovery ∨
      store.RecoveryPanics pf env.recovery)) :
    startStore pf env tables password actor =
      match env.tell with
      | some e => ⟨.error e, actor, some (store.recover pf env.recovery).2, none⟩
      | none =>
          ⟨.ok (), actor,
            some ((store.recover pf env.recovery).2.snapshot pf
              env.firstSnapshot actor).2,
            some (respond (fun _ => .snapshotted)
              ((store.recover pf env.recovery).2.snapshot pf
                env.firstSnapshot actor).1)⟩ := by
  have hanswers := store.recover_answers pf env.recovery
  rw [← hanswers.1, ← hanswers.2] at h
  simp only [startStore, hnew, hchild, ask_recover]
  rcases hrecover : store.recover pf env.recovery with
    ⟨(e | _) | (_ | s), store'⟩
  · rfl
  · simp [hrecover] at h
  · rfl
  · simp [hrecover] at h

/-- A recovery that gets a state, or panics, discards nothing. -/
theorem discardsNothing_of_unsent
    (h : store.Restores pf env.recovery ∨ store.RecoveryPanics pf env.recovery) :
    DiscardsNothing pf env tables password actor := by
  obtain ⟨hunsent, hstore⟩ := startStore_unsent hnew hchild actor h
  constructor
  · intro hwrote
    rw [StartStore.WroteFirstSnapshot, hunsent] at hwrote
    contradiction
  · intro _ store₀ store' hsame hnone hstart
    obtain rfl : store = store₀ := Except.ok.inj (hnew.symm.trans hsame)
    obtain rfl : (store.recover pf env.recovery).2 = store' :=
      Option.some.inj (hstore.symm.trans hstart)
    rw [Store.recover_tables hnone, (Store.new_spec hnew).1]

omit hchild in
/-- Any other recovery leaves the tables as they were. -/
theorem recover_keeps_tables
    (h : ¬ (store.Restores pf env.recovery ∨
      store.RecoveryPanics pf env.recovery)) :
    (store.recover pf env.recovery).2.toTables = tables := by
  have hnone : ∀ s, (store.recover pf env.recovery).1 ≠ .ok (some s) := by
    intro s hs
    exact h (Or.inl ((store.recover_answers pf env.recovery).1.mp ⟨s, hs⟩))
  rw [Store.recover_tables hnone, (Store.new_spec hnew).1]

/-- The first snapshot is written if it is sent and its write succeeds. -/
theorem wroteFirstSnapshot_iff (actor : P) (htell : env.tell = none)
    (h : ¬ (store.Restores pf env.recovery ∨
      store.RecoveryPanics pf env.recovery)) :
    (startStore pf env tables password actor).WroteFirstSnapshot ↔
      ¬ store.WriteFails pf env.firstSnapshot actor
        (store.recoveredCounter pf env.recovery) := by
  have hsent := startStore_sent hnew hchild actor h
  have hwrite := (Store.snapshot_result pf env.firstSnapshot
    (store.recover pf env.recovery).2 actor).1
  rw [Store.writeFails_congr (store.recover_keyBox pf env.recovery),
    store.recover_eventCounter] at hwrite
  rw [StartStore.WroteFirstSnapshot, hsent, htell, ← hwrite, Option.some.injEq,
    respond_snapshotted]

/-- A recovery that gets no state discards nothing if and only if the first
snapshot can't be sent or its write fails. -/
theorem discardsNothing_iff_sent (hempty : ¬ tables.Empty)
    (h : ¬ (store.Restores pf env.recovery ∨
      store.RecoveryPanics pf env.recovery)) :
    DiscardsNothing pf env tables password actor ↔
      env.tell.isSome ∨
        store.WriteFails pf env.firstSnapshot actor
          (store.recoveredCounter pf env.recovery) := by
  have hsent := startStore_sent hnew hchild actor h
  have hkeep := recover_keeps_tables hnew h
  cases htell : env.tell with
  | some e =>
      rw [htell] at hsent
      refine iff_of_true ⟨fun hwrote => ?_, fun _ _ store' _ _ hstart => ?_⟩
        (Or.inl rfl)
      · rw [StartStore.WroteFirstSnapshot, hsent] at hwrote
        contradiction
      · rw [hsent] at hstart
        cases hstart
        exact hkeep
  | none =>
      have hwrote := wroteFirstSnapshot_iff hnew hchild actor htell h
      constructor
      · intro hdiscards
        refine Or.inr ?_
        by_contra hnot
        exact hempty (hdiscards.firstSnapshot (hwrote.mpr hnot))
      · intro hfails
        have hfails := hfails.resolve_left (by simp)
        refine ⟨fun h => absurd hfails (hwrote.mp h), ?_⟩
        intro _ _ store' _ _ hstart
        rw [hsent, htell] at hstart
        cases hstart
        -- the snapshot that fails leaves the recovered tables
        have hresult := Store.snapshot_result pf env.firstSnapshot
          (store.recover pf env.recovery).2 actor
        rw [Store.writeFails_congr (store.recover_keyBox pf env.recovery),
          store.recover_eventCounter] at hresult
        rw [hresult.2 fun hok => hresult.1.mp hok hfails, hkeep]

end Created

/-- Without a store actor there is nothing that could discard. -/
theorem discardsNothing_of_no_store
    (hstart : (startStore pf env tables password actor).store = none ∧
      (startStore pf env tables password actor).firstSnapshot = none) :
    DiscardsNothing pf env tables password actor := by
  constructor
  · intro hwrote
    rw [StartStore.WroteFirstSnapshot, hstart.2] at hwrote
    contradiction
  · intro _ _ store' _ _ hstore
    rw [hstart.1] at hstore
    contradiction

/-- **`start_store` discards nothing** if and only if it starts safely. -/
theorem discardsNothing_iff (pf : Platform P E) (env : StartEnv)
    (tables : Tables) (password : Option Key) (actor : P) :
    DiscardsNothing pf env tables password actor ↔
      StartsSafely pf env tables password actor := by
  by_cases hempty : tables.Empty
  · have hdiscards : DiscardsNothing pf env tables password actor :=
      ⟨fun _ => hempty, fun hnot => absurd hempty hnot⟩
    exact iff_of_true hdiscards (Or.inl hempty)
  cases hnew : Store.new env.creation tables password with
  | error e =>
      refine iff_of_true (discardsNothing_of_no_store ?_)
        (Or.inr (Or.inl ⟨e, hnew⟩))
      simp [startStore, hnew]
  | ok store =>
      cases hchild : env.createChild with
      | some e =>
          refine iff_of_true (discardsNothing_of_no_store ?_)
            (Or.inr (Or.inr (Or.inl (by simp [hchild]))))
          simp [startStore, hnew, hchild]
      | none =>
          have hsafe : StartsSafely pf env tables password actor ↔
              env.tell.isSome ∨ store.Restores pf env.recovery ∨
                store.RecoveryPanics pf env.recovery ∨
                store.WriteFails pf env.firstSnapshot actor
                  (store.recoveredCounter pf env.recovery) := by
            simp [StartsSafely, hempty, hnew, hchild]
          rw [hsafe]
          by_cases hends : store.Restores pf env.recovery ∨
              store.RecoveryPanics pf env.recovery
          · exact iff_of_true (discardsNothing_of_unsent hnew hchild hends)
              (Or.inr (hends.imp_right Or.inl))
          · rw [discardsNothing_iff_sent hnew hchild hempty hends]
            have hnot := not_or.mp hends
            simp [hnot.1, hnot.2]

end Start

namespace CounterActor

/-- The state 3 under counter 1 was stored with another password: the recovery
fails, and the initial state 0 takes the place of the snapshot. -/
theorem wrongPassword_discards :
    let before := tables [] (some (nonce.val ++ password.val ++ [3, 1]))
    let start := startStore platform startEnv before (some wrongPassword) 0
    start.WroteFirstSnapshot ∧
      start.store.map (fun store => store.states) =
        some (some (nonce.val ++ wrongPassword.val ++ [0, 0])) ∧
      ¬ DiscardsNothing platform startEnv before (some wrongPassword) 0 := by
  intro before start
  have hwrote : start.WroteFirstSnapshot := by
    unfold StartStore.WroteFirstSnapshot
    decide +kernel
  refine ⟨hwrote, by decide +kernel, fun hdiscards => ?_⟩
  have hempty := hdiscards.firstSnapshot hwrote
  exact absurd hempty.2 (by decide)

end CounterActor

end Persistence
end Rush
