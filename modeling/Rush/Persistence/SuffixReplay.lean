import Rush.Persistence.SavedState

/-!
# The replay behind a snapshot

A recovery over a snapshot with the counter `c` and events up to `n` applies the
events after `c`, each of them once, and then marks them as applied by a
snapshot with the counter `n`.  When an event can't be applied or the snapshot
can't be put, the tables are as before, and so is the next recovery.
-/

namespace Rush
namespace Persistence

open Foundation Database Actor

section Suffix

variable {P E : Type} {pf : Platform P E} {env : Env} {store : Store}
  {password : Option Key} {s s' : P} {c n : UInt64} {lo : Nat} {events : List E}

/-- The snapshot is `(s, c)`, the stored numbers are an interval that ends at
`n` and has all of `c + 1..n`, and `events` are the events under these. -/
structure Behind (pf : Platform P E) (password : Option Key) (tables : Tables)
    (s : P) (c n : UInt64) (events : List E) : Prop where
  snapshot : Store.HasSnapshot pf password tables s c
  le : c.toNat ≤ n.toNat
  numbered : ∃ lo, lo ≤ n.toNat ∧ lo ≤ c.toNat + 1 ∧
    Numbered tables.events lo (n.toNat + 1)
  length : events.length = n.toNat - c.toNat
  lookup : ∀ (i : Nat) (event : E), events[i]? = some event →
    ∃ data, tables.events[eventKey (c + 1 + UInt64.ofNat i)]? = some data ∧
      Store.Sealed pf password data event

namespace Behind

theorem getState (h : Behind pf store.keyBox store.toTables s c n events)
    (henv : env.OnlyWritesFail) :
    store.getState pf env = .ok (some (s, c)) := by
  obtain ⟨data, hdata, hsealed⟩ := h.snapshot
  exact getState_of_sealedState henv hdata hsealed

theorem last (h : Behind pf store.keyBox store.toTables s c n events)
    (henv : env.OnlyWritesFail) :
    ∃ data, store.last env = some (eventKey n, data) := by
  obtain ⟨lo, hle, -, hnumbered⟩ := h.numbered
  obtain ⟨data, hlast, -⟩ := hnumbered.last?_eq hle
  exact ⟨data, (Store.last_of_onlyWritesFail henv store).trans hlast⟩

/-- The events are read from the number after the counter on. -/
theorem eventsAt (h : Behind pf store.keyBox store.toTables s c n events)
    (henv : env.OnlyWritesFail) : store.EventsAt pf env (c + 1) events := by
  apply Store.EventsAt.of_get
  intro i event hi
  obtain ⟨data, hdata, hsealed⟩ := h.lookup i event hi
  refine ⟨data, ?_, Store.openEvent_of_sealed henv hsealed _⟩
  have hget : env.fault (.eventsGet (c + 1 + UInt64.ofNat i)) = none := by
    rcases henv.fault (.eventsGet (c + 1 + UInt64.ofNat i)) with hnone | hother
    · exact hnone
    · simp at hother
  simp [Store.getEvent, hget, Table.get, hdata]

/-- The replay applies these events and no others. -/
theorem replay (h : Behind pf store.keyBox store.toTables s c n events)
    (henv : env.OnlyWritesFail) (hne : n ≠ c) :
    Store.replay pf env { store with stateCounter := c, eventCounter := n } s =
      pf.applyAll s events := by
  have hlt : c.toNat < n.toNat := by
    have hdiffer : n.toNat ≠ c.toNat := fun heq => hne (UInt64.toNat_inj.mp heq)
    have hle := h.le
    omega
  have hbound := n.toNat_lt
  have hread : store.eventsFrom pf env (n.toNat - c.toNat) (c + 1) =
      .ok events := by
    have happend : store.eventsFrom pf env (events.length + 0) (c + 1) = _ :=
      Store.eventsFrom_append (h.eventsAt henv)
    rw [Nat.add_zero, h.length] at happend
    simpa [Store.eventsFrom, Except.map] using happend
  rw [Store.replay_eq pf env store (by omega), hread]
  rfl

end Behind

/-- Recovered: the answer is `s'`, the snapshot is `(s', n)` and the events are
as before. -/
structure RecoversTo (pf : Platform P E) (store store' : Store)
    (answer : Except (Failure ActorError) (StoreResponse P E)) (s' : P)
    (n : UInt64) : Prop where
  answer : answer = .ok (.state (some s'))
  snapshot : Store.HasSnapshot pf store.keyBox store'.toTables s' n
  events : store'.events = store.events

/-- Nothing recovered: the answer is an error, both tables are as before, and
every further recovery is what it would have been instead. -/
structure RecoversNothing (pf : Platform P E) (store store' : Store)
    (answer : Except (Failure ActorError) (StoreResponse P E)) : Prop where
  answer : ∃ e, answer = .ok (.error e)
  tables : store'.toTables = store.toTables
  again : ∀ (actor : PersistentActor P E) (env : Env),
    (store'.handleMessage (pf.withActor actor) env .recover).1 =
        (store.handleMessage (pf.withActor actor) env .recover).1 ∧
      (store'.handleMessage (pf.withActor actor) env .recover).2.toTables =
        (store.handleMessage (pf.withActor actor) env .recover).2.toTables

/-- A recovery that has only moved the counters can be made again. -/
theorem RecoversNothing.of_counters {e : StoreError} (m k : UInt64) :
    RecoversNothing pf store
      { store with eventCounter := m, stateCounter := k }
      (respond (StoreResponse.state (P := P) (E := E)) (.error (.error e))) where
  answer := ⟨e, rfl⟩
  tables := rfl
  again := by
    intro actor env
    obtain ⟨hanswer, htables⟩ :=
      Store.recover_counters (pf.withActor actor) env store m k
    refine ⟨?_, htables⟩
    show respond StoreResponse.state (Store.recover _ _ _).1 =
      respond StoreResponse.state (Store.recover _ _ _).1
    rw [hanswer]

section Recovery

variable (henv : env.OnlyWritesFail)
  (h : Behind pf store.keyBox store.toTables s c n events)

include henv h

/-- Without an event behind the snapshot nothing is applied or written. -/
theorem recover_current (heq : n = c) :
    events = [] ∧ store.recover pf env =
      (.ok (some s), { store with stateCounter := c, eventCounter := n }) := by
  obtain ⟨data, hlast⟩ := h.last henv
  subst heq
  refine ⟨List.length_eq_zero_iff.mp (by rw [h.length, Nat.sub_self]), ?_⟩
  rw [Store.recover_eq (h.getState henv) hlast (parseU64_eventKey n), if_pos rfl]

/-- An event that can't be applied ends the recovery. -/
theorem recover_refused {e : StoreError}
    (happly : pf.applyAll s events = .error (.error e)) :
    store.recover pf env =
      (.error (.error e), { store with stateCounter := c, eventCounter := n }) := by
  obtain ⟨data, hlast⟩ := h.last henv
  have hne : n ≠ c := by
    intro heq
    rw [(recover_current henv h heq).1] at happly
    cases happly
  rw [Store.recover_eq (h.getState henv) hlast (parseU64_eventKey n), if_neg hne]
  simp only [h.replay henv hne, happly]

/-- A recovery with events behind the snapshot writes the new one, or fails. -/
theorem recover_applied (happly : pf.applyAll s events = .ok s') (hne : n ≠ c) :
    (store.WriteFails pf env s' n ∧ ∃ e, store.recover pf env =
      (.error (.error e),
        { store with stateCounter := n, eventCounter := n })) ∨
    ∃ bytes, store.sealState pf env s' n = .ok bytes ∧
      env.fault .statesPut = none ∧ store.recover pf env =
        (.ok (some s'), { store with
          stateCounter := n, eventCounter := n, states := some bytes }) := by
  obtain ⟨data, hlast⟩ := h.last henv
  rw [Store.recover_eq (h.getState henv) hlast (parseU64_eventKey n), if_neg hne]
  simp only [h.replay henv hne, happly]
  rcases Store.snapshot_cases pf env
      { store with stateCounter := c, eventCounter := n } s' with
    ⟨hfails, e, hsnapshot⟩ | ⟨bytes, hseal, hput, hsnapshot⟩
  · exact Or.inl ⟨hfails, e, by simp only [hsnapshot]⟩
  · exact Or.inr ⟨bytes, hseal, hput, by simp only [hsnapshot]⟩

end Recovery

/-- A recovery that answers a state has saved it. -/
theorem RecoversTo.saved {store' : Store}
    {answer : Except (Failure ActorError) (StoreResponse P E)}
    (hto : RecoversTo pf store store' answer s' n)
    (h : Behind pf store.keyBox store.toTables s c n events) :
    Saved pf store.keyBox store'.toTables s' := by
  obtain ⟨lo, -, -, hnumbered⟩ := h.numbered
  obtain ⟨data, hdata, hsealed⟩ := hto.snapshot
  refine ⟨n, lo, data, ?_, hdata, hsealed⟩
  rw [hto.events]
  exact hnumbered

/-- **`Recover` replays exactly the missing suffix, once.**  If the events
behind the snapshot lead to `s'`, and the new snapshot can be written where it is
needed, the recovery answers `s'` and saves it, and all further recoveries answer
`s'` whatever applying an event would do; otherwise it answers an error and
leaves both tables and every further recovery as they were. -/
theorem recover_replays_suffix (pf : Platform P E) (hpf : pf.Inverts)
    (store : Store) (s : P) (c n : UInt64) (events : List E)
    (h : Behind pf store.keyBox store.toTables s c n events) (env : Env)
    (henv : env.OnlyWritesFail) :
    (∀ s', pf.applyAll s events = .ok s' →
      (n ≠ c → ¬ store.WriteFails pf env s' n) →
        RecoversTo pf store (store.handleMessage pf env .recover).2
            (store.handleMessage pf env .recover).1 s' n ∧
          ∀ (actor : PersistentActor P E) (later : List (Request P E)),
            (∀ request ∈ later, request.IsRecovery) →
            ∃ store' replies,
              execute (Session.step (pf.withActor actor) store.keyBox)
                  (.opened (store.handleMessage pf env .recover).2) later =
                some (.opened store', replies) ∧
              ∀ reply ∈ replies, reply.Recovers s') ∧
    ((∃ e, pf.applyAll s events = .error e) ∨
        (∃ s', pf.applyAll s events = .ok s' ∧ n ≠ c ∧
          store.WriteFails pf env s' n) →
      RecoversNothing pf store (store.handleMessage pf env .recover).2
        (store.handleMessage pf env .recover).1) := by
  constructor
  · intro s' happly hwrites
    have hto : RecoversTo pf store (store.handleMessage pf env .recover).2
        (store.handleMessage pf env .recover).1 s' n := by
      by_cases hne : n = c
      · obtain ⟨hnone, hrecover⟩ := recover_current henv h hne
        rw [hnone] at happly
        cases happly
        simp only [Store.handleMessage, hrecover, respond]
        exact ⟨rfl, hne ▸ h.snapshot, rfl⟩
      · rcases recover_applied henv h happly hne with
          ⟨hfails, -⟩ | ⟨bytes, hseal, -, hrecover⟩
        · exact absurd hfails (hwrites hne)
        · have hsealed := Store.sealedState_of_sealState hpf
            (fun _ => henv.unlock .snapshot) hseal
          simp only [Store.handleMessage, hrecover, respond]
          exact ⟨rfl, ⟨bytes, rfl, hsealed⟩, rfl⟩
    refine ⟨hto, fun actor later hlater => ?_⟩
    have hkey := Store.handleMessage_keyBox pf env store .recover
    exact Session.saved_execute hlater ⟨(hto.saved h).withActor actor, hkey⟩
  · intro hfails
    rcases hfails with ⟨e, happly⟩ | ⟨s', happly, hne, hwrite⟩
    · -- only the error of an event ends a replay
      cases e with
      | error e =>
          simp only [Store.handleMessage, recover_refused henv h happly]
          exact RecoversNothing.of_counters n c
      | panic => exact absurd happly (pf.applyAll_ne_panic s events)
    · rcases recover_applied henv h happly hne with
        ⟨-, e, hrecover⟩ | ⟨bytes, hseal, hput, -⟩
      · simp only [Store.handleMessage, hrecover]
        exact RecoversNothing.of_counters n n
      · exact absurd hwrite (Store.not_writeFails hseal hput)

end Suffix

namespace CounterActor

/-- The events 5 and 3, with a snapshot of the state 5 after the first. -/
def behindStore : Store where
  events := ((∅ : Table).insert (eventKey 0) [5]).insert (eventKey 1) [3]
  states := some [5, 0]
  eventCounter := 0
  stateCounter := 0
  keyBox := none

theorem behindStore_behind :
    Behind platform none behindStore.toTables 5 0 1 [3] where
  snapshot := by
    refine ⟨[5, 0], rfl, ?_⟩
    have hseal : behindStore.sealState platform env 5 0 = .ok [5, 0] := rfl
    exact Store.sealedState_of_sealState platform_roundTrips.inverts
      (fun _ => rfl) hseal
  le := by decide
  numbered := by
    have hfirst : Numbered ((∅ : Table).insert (eventKey 0) [5]) 0 1 :=
      (Numbered.empty 0).insert_next (n := 0) (Nat.le_refl 0) [5]
    exact ⟨0, by decide, by decide,
      hfirst.insert_next (n := 1) (Nat.zero_le 1) [3]⟩
  length := rfl
  lookup := by
    intro i event hi
    obtain ⟨rfl, rfl⟩ : i = 0 ∧ event = 3 := by
      cases i with
      | zero => simpa [eq_comm] using hi
      | succ i => simp at hi
    refine ⟨[3], Std.ExtTreeMap.getElem?_insert_self, ?_⟩
    have hseal : behindStore.sealEvent platform env 3 = .ok [3] := rfl
    exact Store.sealed_of_sealEvent platform_roundTrips.inverts hseal

/-- The snapshot of the new state can be put. -/
theorem behindStore_puts : ¬ behindStore.WriteFails platform env 8 1 := by
  have hseal : behindStore.sealState platform env 8 1 = .ok [8, 1] := rfl
  exact Store.not_writeFails hseal rfl

/-- The recovery of this store answers 8 and saves it, and an actor that refuses
the event 3 leaves the tables alone. -/
theorem behindStore_recovers :
    RecoversTo platform behindStore
        (behindStore.handleMessage platform env .recover).2
        (behindStore.handleMessage platform env .recover).1 8 1 ∧
      RecoversNothing (platform.withActor refusing) behindStore
        (behindStore.handleMessage (platform.withActor refusing) env .recover).2
        (behindStore.handleMessage (platform.withActor refusing) env .recover).1 :=
  ⟨((recover_replays_suffix platform platform_roundTrips.inverts behindStore 5 0 1
      [3] behindStore_behind env env_healthy.onlyWritesFail).1 8 rfl fun _ =>
        behindStore_puts).1,
    (recover_replays_suffix (platform.withActor refusing)
      ⟨platform_roundTrips.inverts.event, platform_roundTrips.inverts.state,
        platform_roundTrips.inverts.cipher⟩ behindStore 5 0 1 [3]
      ⟨behindStore_behind.snapshot, behindStore_behind.le,
        behindStore_behind.numbered, behindStore_behind.length,
        behindStore_behind.lookup⟩ env env_healthy.onlyWritesFail).2
      (Or.inl ⟨_, rfl⟩)⟩

end CounterActor

end Persistence
end Rush
