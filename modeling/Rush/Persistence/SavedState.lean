import Rush.Persistence.CounterActor
import Rush.Persistence.LogInvariant

/-!
# The state saved last is the state recovered

A snapshot carries the number of the last event, since the counter of a store is
that number in every reachable state.  A recovery then finds nothing to replay,
whatever applying an event would do.
-/

namespace Rush
namespace Persistence

open Foundation Database Actor

section Saved

variable {P E : Type} {pf : Platform P E} {env : Env} {store : Store}
  {password : Option Key} {s : P}

/-- The snapshot is the state `s` with the counter `c`, and no event has a
number above `c`. -/
def Saved (pf : Platform P E) (password : Option Key) (tables : Tables)
    (s : P) : Prop :=
  ∃ (c : UInt64) (lo : Nat) (data : Bytes),
    Numbered tables.events lo (c.toNat + 1) ∧ tables.states = some data ∧
      Store.SealedState pf password data s c

/-- The same platform around another actor. -/
def Platform.withActor (pf : Platform P E) (actor : PersistentActor P E) :
    Platform P E :=
  { pf with actor := actor }

theorem Saved.withActor {tables : Tables} (h : Saved pf password tables s)
    (actor : PersistentActor P E) :
    Saved (pf.withActor actor) password tables s := by
  obtain ⟨c, lo, data, hnumbered, hstates, hsealed⟩ := h
  exact ⟨c, lo, data, hnumbered, hstates, hsealed⟩

/-- A successful snapshot writes the sealed state. -/
theorem snapshot_ok (hpf : pf.RoundTrips) (henv : env.OnlyWritesFail)
    {store' : Store} (h : store.snapshot pf env s = (.ok (), store')) :
    ∃ data, Store.SealedState pf store.keyBox data s store.eventCounter ∧
      store' = { store with
        stateCounter := store.eventCounter
        states := some data } := by
  rcases Store.snapshot_cases pf env store s with
    ⟨-, e, hsnapshot⟩ | ⟨data, hdata, -, hsnapshot⟩
  · rw [h] at hsnapshot
    cases hsnapshot
  · rw [h] at hsnapshot
    cases hsnapshot
    exact ⟨data, Store.sealedState_of_sealState hpf.inverts
      (fun _ => henv.unlock .snapshot) hdata, rfl⟩

theorem LogInvariant.saved_of_snapshot (hpf : pf.RoundTrips) {lo : Nat}
    (h : LogInvariant pf password store lo) (henv : env.OnlyWritesFail)
    {store' : Store} (hsnapshot : store.snapshot pf env s = (.ok (), store')) :
    Saved pf password store'.toTables s := by
  obtain ⟨data, hsealed, rfl⟩ := snapshot_ok hpf henv hsnapshot
  rw [h.keyBox] at hsealed
  exact ⟨store.eventCounter, lo, data, h.numbered, rfl, hsealed⟩

theorem LogInvariant.saved_of_persistState (hpf : pf.RoundTrips) {lo : Nat}
    (h : LogInvariant pf password store lo) (henv : env.OnlyWritesFail)
    {event : E} {store' : Store}
    (hpersist : store.persistState pf env event s = (.ok (), store')) :
    Saved pf password store'.toTables s := by
  have hends := Store.lightPersistence pf env store event s
  rw [hpersist] at hends
  cases hends with
  | persisted bytes data hseal hdata =>
      have hsealed := Store.sealedState_of_sealState hpf.inverts
        (fun _ => henv.unlock .snapshot) hdata
      rw [h.keyBox] at hsealed
      exact ⟨store.eventCounter, _, data, h.numbered.insert_last bytes, rfl,
        hsealed⟩

/-- The snapshot of the tables is read, whatever the writes answer. -/
theorem getState_of_sealedState (henv : env.OnlyWritesFail) {data : Bytes}
    {c : UInt64} (hstates : store.states = some data)
    (h : Store.SealedState pf store.keyBox data s c) :
    store.getState pf env = .ok (some (s, c)) := by
  have hhealed := h env.healed store henv.healed rfl hstates
  have hdata : store.getStateData env.healed = store.getStateData env := by
    simp [Store.getStateData, Env.healed, henv.fault_statesGet]
  unfold Store.getState at hhealed ⊢
  rw [hdata] at hhealed
  exact hhealed

/-- A recovery of a saved state reads it, and leaves the tables alone. -/
theorem Saved.recover (h : Saved pf password store.toTables s)
    (hkey : store.keyBox = password) (henv : env.OnlyWritesFail) :
    ∃ store', store.recover pf env = (.ok (some s), store') ∧
      store'.toTables = store.toTables ∧ store'.keyBox = password := by
  obtain ⟨c, lo, data, hnumbered, hstates, hsealed⟩ := h
  rw [← hkey] at hsealed
  have hstate := getState_of_sealedState henv hstates hsealed
  have hkept : ∀ n, Store.last env { store with stateCounter := n } =
      store.events.last? :=
    fun n => Store.last_of_onlyWritesFail henv _
  cases hlast : store.events.last? with
  | none =>
      refine ⟨{ store with stateCounter := c }, ?_, rfl, hkey⟩
      simp only [Store.recover, hstate, hkept, hlast]
  | some entry =>
      obtain ⟨key, bytes⟩ := entry
      -- the last key is that of the counter saved with the state
      have hlo : lo ≤ c.toNat := by
        by_contra hgt
        have hempty := hnumbered.eq_empty_iff.mpr (by omega)
        rw [Table.last?_eq_none_iff.mpr hempty] at hlast
        contradiction
      obtain ⟨bytes', hlast', -⟩ := hnumbered.last?_eq hlo
      rw [hlast] at hlast'
      cases hlast'
      -- so `recover` takes the branch without a replay
      refine ⟨{ store with stateCounter := c, eventCounter := c }, ?_, rfl, hkey⟩
      simp [Store.recover, hstate, hkept, hlast, parseU64_eventKey]

/-- The saved state of a session. -/
def Session.Saved (pf : Platform P E) (password : Option Key) (s : P)
    (session : Session) : Prop :=
  Persistence.Saved pf password session.tables s ∧ session.HasKey password

/-- A recovery or a reopening. -/
def Request.IsRecovery (request : Request P E) : Prop :=
  request.env.OnlyWritesFail ∧
    (request.action = .reopen ∨ request.action = .command .recover)

/-- The answer of a reopening, or of a recovery that finds `s`. -/
def Reply.Recovers (s : P) (reply : Reply P E) : Prop :=
  reply = .created (.ok ()) ∨
    reply = .answered .recover (.ok (.state (some s)))

/-- Every reopening succeeds, and every recovery answers the saved state. -/
theorem Session.saved_step {store : Store} {request : Request P E}
    (hrequest : request.IsRecovery)
    (h : (Session.opened store).Saved pf password s) :
    ∃ store' reply, (Session.opened store).step pf password request =
        some (.opened store', [reply]) ∧
      (Session.opened store').Saved pf password s ∧ reply.Recovers s := by
  obtain ⟨env, action⟩ := request
  obtain ⟨henv, rfl | rfl⟩ := hrequest
  -- a reopening keeps the tables, and they are all that matters
  · refine ⟨{ store with
      eventCounter := lastNumber store.events
      stateCounter := 0
      keyBox := password }, .created (.ok ()), ?_, ⟨h.1, rfl⟩, Or.inl rfl⟩
    simp only [Session.step, Store.new_of_onlyWritesFail henv, Session.tables]
  · obtain ⟨store', hrecover, htables, hkey⟩ := h.1.recover h.2 henv
    refine ⟨store', .answered .recover (.ok (.state (some s))), ?_, ?_,
      Or.inr rfl⟩
    · simp only [Session.step, Store.handleMessage, hrecover, respond,
        Session.after]
    · refine ⟨?_, hkey⟩
      show Persistence.Saved pf password store'.toTables s
      rw [htables]
      exact h.1

theorem Session.saved_execute {store : Store} {requests : List (Request P E)}
    (hrequests : ∀ request ∈ requests, request.IsRecovery)
    (h : (Session.opened store).Saved pf password s) :
    ∃ store' replies, execute (Session.step pf password) (.opened store)
        requests = some (.opened store', replies) ∧
      ∀ reply ∈ replies, reply.Recovers s := by
  induction requests generalizing store with
  | nil => exact ⟨store, [], rfl, by simp⟩
  | cons request requests ih =>
      obtain ⟨middle, reply, hstep, hsaved, hreply⟩ :=
        Session.saved_step (hrequests request (by simp)) h
      obtain ⟨store', replies, hrun, hreplies⟩ :=
        ih (fun r hmem => hrequests r (List.mem_cons_of_mem request hmem)) hsaved
      refine ⟨store', [reply] ++ replies, ?_, ?_⟩
      · exact execute_cons_eq_some.mpr
          ⟨_, _, _, hstep, hrun, rfl⟩
      · intro r hmem
        rcases List.mem_append.mp hmem with hfirst | hlater
        · rw [List.mem_singleton.mp hfirst]
          exact hreply
        · exact hreplies r hlater

/-- The commands that save a state, with the answers of success. -/
inductive SavesState (s : P) : StoreCommand P E → StoreResponse P E → Prop
  | snapshot : SavesState s (.snapshot s) .snapshotted
  | persistLight (event : E) : SavesState s (.persistLight event s) .persisted

theorem LogInvariant.saved (hpf : pf.RoundTrips) {lo : Nat}
    (h : LogInvariant pf password store lo) (henv : env.OnlyWritesFail)
    {command : StoreCommand P E} {response : StoreResponse P E}
    (hsaves : SavesState s command response)
    (hanswer : (store.handleMessage pf env command).1 = .ok response) :
    Saved pf password (store.handleMessage pf env command).2.toTables s := by
  cases hsaves with
  | snapshot =>
      rcases hsnapshot : store.snapshot pf env s with ⟨e | done, store'⟩
      · simp only [Store.handleMessage, hsnapshot] at hanswer
        cases e <;> simp [respond] at hanswer
      · simp only [Store.handleMessage, hsnapshot]
        exact h.saved_of_snapshot hpf henv hsnapshot
  | persistLight event =>
      rcases hpersist : store.persistState pf env event s with ⟨e | done, store'⟩
      · simp only [Store.handleMessage, hpersist] at hanswer
        cases e <;> simp [respond] at hanswer
      · simp only [Store.handleMessage, hpersist]
        exact h.saved_of_persistState hpf henv hpersist

/-- **A saved state is the state recovered.**  In every reachable store, after
a snapshot or a light event that is answered with success, every recovery, at
once, repeated or after any number of reopenings, answers the state that was
saved; it does so for every way in which the actor may apply events, so none is
applied. -/
theorem recover_saved (pf : Platform P E) (hpf : pf.RoundTrips)
    (password : Option Key) (history : List (Request P E)) (store : Store)
    (replies : List (Reply P E))
    (hhistory : ∀ request ∈ history, request.env.OnlyWritesFail)
    (hrun : execute (Session.step pf password) .empty history =
      some (.opened store, replies))
    (hcount : persistedCount replies < 2 ^ 64)
    (env : Env) (henv : env.OnlyWritesFail) (s : P)
    (command : StoreCommand P E) (response : StoreResponse P E)
    (hsaves : SavesState s command response)
    (hanswer : (store.handleMessage pf env command).1 = .ok response)
    (actor : PersistentActor P E) (later : List (Request P E))
    (hlater : ∀ request ∈ later, request.IsRecovery) :
    ∃ store' replies', execute (Session.step (pf.withActor actor) password)
        (.opened (store.handleMessage pf env command).2) later =
          some (.opened store', replies') ∧
      ∀ reply ∈ replies', reply.Recovers s := by
  obtain ⟨lo, hlog, -⟩ := Session.logInvariant_of_execute hpf.inverts hhistory hrun hcount
  have hsaved := hlog.saved hpf henv hsaves hanswer
  have hkey : (store.handleMessage pf env command).2.keyBox = password :=
    (Store.handleMessage_keyBox pf env store command).trans hlog.keyBox
  exact Session.saved_execute hlater ⟨hsaved.withActor actor, hkey⟩

end Saved

namespace CounterActor

/-- An actor that applies no event. -/
def refusing : PersistentActor UInt8 UInt8 where
  persistence := .full
  apply := fun s _ => (s, .error (.functional "refused"))

/-- After two events and a purge that leaves the counter at 1, a light event
saves the state 7; two recoveries with a reopening between them answer it. -/
theorem recover_saved_purged :
    ∃ store' replies', execute (Session.step (platform.withActor refusing) none)
        (.opened
          { events := (∅ : Table).insert (eventKey 1) [3]
            states := some [7, 1]
            eventCounter := 1
            stateCounter := 1
            keyBox := none })
        [⟨env, .command .recover⟩, ⟨env, .reopen⟩, ⟨env, .command .recover⟩] =
          some (.opened store', replies') ∧
      ∀ reply ∈ replies', reply.Recovers 7 := by
  have hrecovery : ∀ action : Action UInt8 UInt8,
      action = .reopen ∨ action = .command .recover →
      Request.IsRecovery ⟨env, action⟩ :=
    fun _ haction => ⟨env_healthy.onlyWritesFail, haction⟩
  exact recover_saved platform platform_roundTrips none
    [⟨env, .reopen⟩, ⟨env, .command (.persist 1)⟩,
      ⟨env, .command (.persist 2)⟩, ⟨env, .command .purge⟩]
    { events := ∅, states := none, eventCounter := 1, stateCounter := 0,
      keyBox := none }
    _ (by simpa using env_healthy.onlyWritesFail) rfl (by decide) env
    env_healthy.onlyWritesFail 7 (.persistLight 3 7) .persisted
    (.persistLight 3) rfl refusing
    [⟨env, .command .recover⟩, ⟨env, .reopen⟩, ⟨env, .command .recover⟩]
    (by simpa using ⟨hrecovery _ (Or.inr rfl), hrecovery _ (Or.inl rfl),
      hrecovery _ (Or.inr rfl)⟩)

end CounterActor

end Persistence
end Rush
