import Rush.Persistence.CounterActor
import Rush.Persistence.LogInvariant

/-!
# What the event log promises

The numbers stored form an interval, the counter is the largest of them, a
persisted event is appended, and the last event is the one stored last until the
table changes again.  A purge that fails at the snapshot has already emptied the
event table.
-/

namespace Rush
namespace Persistence

open Foundation Database Actor

section Contract

variable {P E : Type} {pf : Platform P E} {env : Env} {store : Store}
  {password : Option Key} {event : E}

/-- What `Persist` promises: a persisted event is added under a new number, the
one after the largest, and an error changes neither table nor counter. -/
structure PersistContract (pf : Platform P E) (env : Env) (store : Store)
    (event : E) : Prop where
  persisted : (store.handleMessage pf env (.persist event)).1 = .ok .persisted →
    ∃ n data, eventKey n ∉ store.events ∧
      (∀ m, IsLargest store.events m → n.toNat = m.toNat + 1) ∧
      (store.handleMessage pf env (.persist event)).2.events =
        store.events.insert (eventKey n) data
  error : ∀ e,
    (store.handleMessage pf env (.persist event)).1 = .ok (.error e) →
      (store.handleMessage pf env (.persist event)).2.events = store.events ∧
        (store.handleMessage pf env (.persist event)).2.eventCounter =
          store.eventCounter

/-- `LastEvent` answers this event, whatever the writes answer. -/
def AnswersLast (pf : Platform P E) (store : Store) (event : E) : Prop :=
  ∀ env : Env, env.OnlyWritesFail →
    (store.handleMessage pf env .lastEvent).1 = .ok (.lastEvent (some event))

theorem LogInvariant.persistContract {lo count : Nat}
    (h : LogInvariant pf password store lo)
    (henv : env.OnlyWritesFail) (hbelow : CounterBelow store count)
    (hcount : count < 2 ^ 64) (event : E) :
    PersistContract pf env store event := by
  have heffect := Store.handleMessage_effect pf env store (.persist event)
  generalize hhandle : store.handleMessage pf env (.persist event) = outcome
    at heffect
  obtain ⟨answer, store'⟩ := outcome
  cases heffect with
  | kept _ _ _ hsame hanswer =>
      refine ⟨fun hpersisted => ?_, fun _ _ => ?_⟩
      · rw [hhandle] at hpersisted
        exact absurd hpersisted hanswer
      · rw [hhandle]
        exact ⟨hsame.events, hsame.eventCounter⟩
  | appended _ bytes next hseal hnext hput =>
      obtain ⟨lo', hnumbered, -, hvalue⟩ :=
        h.next henv (hbelow.fits hcount) hnext
      refine ⟨fun _ => ⟨next, bytes, ?_, ?_, ?_⟩, fun e herror => ?_⟩
      · intro hmem
        have hlt := (hnumbered.mem_eventKey_iff.mp hmem).2
        omega
      -- in a table with a largest number it is the counter
      · intro m hm
        rw [h.numbered.eq_of_isLargest hm]
        rcases hvalue with ⟨-, hempty, -⟩ | ⟨-, hvalue⟩
        · have hmem := hm.1
          rw [hempty] at hmem
          exact absurd hmem Std.ExtTreeMap.not_mem_empty
        · exact hvalue
      · rw [hhandle]
      · rw [hhandle] at herror
        simp at herror

/-- A stored event is the last one of the table. -/
theorem LogInvariant.lastIs_of_persisted (hpf : pf.RoundTrips) {lo count : Nat}
    (h : LogInvariant pf password store lo) (henv : env.OnlyWritesFail)
    (hbelow : CounterBelow store count) (hcount : count < 2 ^ 64)
    {command : StoreCommand P E}
    (hcommand : command = .persist event ∨
      ∃ state, command = .persistLight event state)
    (hpersisted : (store.handleMessage pf env command).1 = .ok .persisted) :
    Store.LastIs pf password
      (store.handleMessage pf env command).2.events event := by
  have heffect := Store.handleMessage_effect pf env store command
  have hsealed : ∀ {bytes : Bytes}, store.sealEvent pf env event = .ok bytes →
      Store.Sealed pf password bytes event :=
    fun hseal => h.keyBox ▸ Store.sealed_of_sealEvent hpf.inverts hseal
  generalize store.handleMessage pf env command = outcome at heffect hpersisted
  obtain ⟨answer, store'⟩ := outcome
  cases heffect with
  | kept _ _ _ _ hanswer | reread _ _ _ _ _ _ _ _ hanswer
  | cleared _ _ _ _ hanswer => exact absurd hpersisted hanswer
  | appended _ bytes next hseal hnext hput =>
      rcases hcommand with hcommand | ⟨state, hcommand⟩
      · cases hcommand
        obtain ⟨lo', hnumbered, hle, -⟩ :=
          h.next henv (hbelow.fits hcount) hnext
        obtain ⟨data', hlast, hget⟩ :=
          (hnumbered.insert_next hle bytes).last?_eq hle
        rw [Std.ExtTreeMap.getElem?_insert_self] at hget
        cases hget
        exact ⟨_, _, hlast, hsealed hseal⟩
      · cases hcommand
  | replaced _ state bytes _ hseal hput hsame =>
      rcases hcommand with hcommand | ⟨state', hcommand⟩
      · cases hcommand
      · cases hcommand
        -- the event is stored under the counter, which is the last number
        obtain ⟨data', hlast, hget⟩ :=
          (h.numbered.insert_last bytes).last?_eq (Nat.min_le_right _ _)
        rw [Std.ExtTreeMap.getElem?_insert_self] at hget
        cases hget
        show Store.LastIs pf password store'.events event
        rw [hsame.events]
        exact ⟨_, _, hlast, hsealed hseal⟩

/-- A request that leaves the event table alone unless it stores an event. -/
def Request.KeepsEvents (request : Request P E) : Prop :=
  request.env.OnlyWritesFail ∧
    (request.action = .command .purge →
      request.env.fault .eventsPurge ≠ none)

/-- Unless an event is stored, such a request keeps the event table. -/
theorem Session.events_step {session session' : Session}
    {request : Request P E} {replies : List (Reply P E)}
    (hkeeps : request.KeepsEvents)
    (hnone : ∀ reply ∈ replies, reply.isPersisted = false)
    (hstep : session.step pf password request = some (session', replies)) :
    session'.tables.events = session.tables.events := by
  obtain ⟨env, action⟩ := request
  cases action with
  | reopen =>
      simp only [Session.step, Store.new_of_onlyWritesFail hkeeps.1,
        Option.some.injEq, Prod.mk.injEq] at hstep
      obtain ⟨rfl, -⟩ := hstep
      rfl
  | command command =>
      -- only a stored event or a purge of the events changes the table
      obtain ⟨store, rfl, rfl, rfl⟩ := Session.step_command_eq_some hstep
      have heffect := Store.handleMessage_effect pf env store command
      rw [Session.tables_after]
      generalize store.handleMessage pf env command = outcome
        at heffect hnone ⊢
      obtain ⟨answer, store'⟩ := outcome
      cases heffect with
      | kept _ _ _ hsame => exact hsame.events
      | reread _ _ key data n _ _ hsame => exact hsame.events
      | appended | replaced => simp [Reply.isPersisted] at hnone
      | cleared _ _ hpurge => exact absurd hpurge (hkeeps.2 rfl)

theorem Session.events_of_execute {session session' : Session}
    {requests : List (Request P E)} {replies : List (Reply P E)}
    (hkeeps : ∀ request ∈ requests, request.KeepsEvents)
    (hnone : ∀ reply ∈ replies, reply.isPersisted = false)
    (hrun : execute (Session.step pf password) session requests =
      some (session', replies)) :
    session'.tables.events = session.tables.events := by
  have hrunInv := execute_history
    (G := fun _ (request : Request P E) => request.KeepsEvents)
    (P := fun (s : Session) (seen : List (Reply P E)) =>
      (∀ reply ∈ seen, reply.isPersisted = false) →
        s.tables.events = session.tables.events)
    (by
      intro s seen request s' replies h hkeeps hstep hnone
      have hbefore := h fun reply hmem =>
        hnone reply (List.mem_append_left _ hmem)
      rw [← hbefore]
      exact Session.events_step hkeeps
        (fun reply hmem => hnone reply (List.mem_append_right _ hmem)) hstep)
    [] (fun _ => rfl)
    (stepsMeet_of_forall (fun request hmem _ => hkeeps request hmem) _) hrun
  exact hrunInv hnone

theorem answersLast_of_lastIs (hkey : store.keyBox = password)
    (h : Store.LastIs pf password store.events event) :
    AnswersLast pf store event := by
  intro env henv
  subst hkey
  simp only [Store.handleMessage, Store.lastEvent_of_lastIs henv h, respond]

/-- **The event log.**  With round-tripping encodings, when only puts and purges
may fail: the numbers stored form an interval and the counter is the largest of
them, `Persist` keeps its contract, and `LastEvent` answers a stored event until
the next one is stored or a purge empties the event table. -/
theorem eventLog_contract (pf : Platform P E) (hpf : pf.RoundTrips)
    (password : Option Key) (requests : List (Request P E)) (session : Session)
    (replies : List (Reply P E))
    (henv : ∀ request ∈ requests, request.env.OnlyWritesFail)
    (hrun : execute (Session.step pf password) .empty requests =
      some (session, replies))
    (hcount : persistedCount replies < 2 ^ 64) :
    (∃ lo hi, Numbered session.tables.events lo hi) ∧
    ∀ store, session = .opened store →
      (store.events ≠ ∅ → IsLargest store.events store.eventCounter) ∧
      (∀ (env : Env) (event : E), env.OnlyWritesFail →
        PersistContract pf env store event) ∧
      ∀ (env : Env) (event : E) (command : StoreCommand P E)
        (later : List (Request P E)) (store' : Store)
        (replies' : List (Reply P E)),
        env.OnlyWritesFail →
        (command = .persist event ∨
          ∃ state, command = .persistLight event state) →
        (store.handleMessage pf env command).1 = .ok .persisted →
        (∀ request ∈ later, request.KeepsEvents) →
        execute (Session.step pf password)
            (.opened (store.handleMessage pf env command).2) later =
          some (.opened store', replies') →
        (∀ reply ∈ replies', reply.isPersisted = false) →
        AnswersLast pf store' event := by
  have hinv := Session.logInvariant_of_execute hpf.inverts henv hrun hcount
  constructor
  · obtain ⟨lo, hi, hnumbered, -⟩ := hinv.tables
    exact ⟨lo, hi, hnumbered⟩
  · intro store hopened
    subst hopened
    obtain ⟨lo, hlog, hbelow⟩ := hinv
    refine ⟨fun hne => hlog.numbered.isLargest ?_, ?_, ?_⟩
    · have hle := hlog.le
      have hempty := hlog.events_eq_empty_iff
      by_contra hgt
      exact hne (hempty.mpr (by omega))
    · intro env event henv
      exact hlog.persistContract henv hbelow hcount event
    · intro env event command later store' replies' henv hcommand hpersisted
        hkeeps hlater hnone
      have hlast := hlog.lastIs_of_persisted hpf henv hbelow hcount hcommand
        hpersisted
      have hevents := Session.events_of_execute hkeeps hnone hlater
      have hstart : (Session.opened
          (store.handleMessage pf env command).2).HasKey password :=
        (Store.handleMessage_keyBox pf env store command).trans hlog.keyBox
      have hkey : (Session.opened store').HasKey password :=
        Session.hasKey_of_execute hstart hlater
      apply answersLast_of_lastIs hkey
      have hsame : store'.events =
          (store.handleMessage pf env command).2.events := hevents
      rw [hsame]
      exact hlast

end Contract

namespace CounterActor

theorem failing_onlyWritesFail {call : DbCall}
    (hcall : call = .eventsPut ∨ call = .statesPut ∨ call = .eventsPurge ∨
      call = .statesPurge) : (failing call).OnlyWritesFail := by
  refine ⟨fun other => ?_, rfl, fun _ => rfl⟩
  by_cases h : other = call
  · rw [h]
    exact Or.inr hcall
  · exact Or.inl (by simp [failing, h])

/-- The store after the event 1 and the light event 2 with the state 3. -/
def lightStore : Store where
  events := ((∅ : Table).insert (eventKey 0) [1]).insert (eventKey 0) [2]
  states := some [3, 0]
  eventCounter := 0
  stateCounter := 0
  keyBox := none

/-- The event 1 is stored, the light event 2 replaces it, and a purge fails at
once: 2 is still the last event of the reopened store. -/
theorem eventLog_contract_light :
    execute (Session.step platform none) (.opened lightStore)
        [⟨failing .eventsPurge, .command .purge⟩, ⟨env, .reopen⟩] =
      some (.opened lightStore,
        [.answered .purge (.ok (.error (.store "fault"))),
          .created (.ok ())]) ∧
      AnswersLast platform lightStore 2 := by
  refine ⟨rfl, ?_⟩
  have hcontract := eventLog_contract platform platform_roundTrips none
    [⟨env, .reopen⟩, ⟨env, .command (.persist 1)⟩] _ _
    (by simpa using env_healthy.onlyWritesFail)
    rfl (by decide)
  refine (hcontract.2 _ rfl).2.2 env 2 (.persistLight 2 3)
    [⟨failing .eventsPurge, .command .purge⟩, ⟨env, .reopen⟩] _ _
    env_healthy.onlyWritesFail (Or.inr ⟨3, rfl⟩) rfl ?_ rfl (by decide)
  have hpurge : Request.KeepsEvents (P := UInt8) (E := UInt8)
      ⟨failing .eventsPurge, .command .purge⟩ :=
    ⟨failing_onlyWritesFail (by decide), fun _ => by simp [failing]⟩
  have hreopen : Request.KeepsEvents (P := UInt8) (E := UInt8)
      ⟨env, .reopen⟩ :=
    ⟨env_healthy.onlyWritesFail, fun h => by cases h⟩
  simpa using ⟨hpurge, hreopen⟩

/-- A `Purge` that purges the events and fails at the snapshot answers an error,
and the event that was stored is gone. -/
theorem lastEvent_lost_by_failed_purge :
    ∃ store, execute (Session.step platform none) .empty
        [⟨env, .reopen⟩, ⟨env, .command (.persist 1)⟩,
          ⟨failing .statesPurge, .command .purge⟩] =
      some (.opened store,
        [.created (.ok ()), .answered (.persist 1) (.ok .persisted),
          .answered .purge (.ok (.error (.store "fault")))]) ∧
      (store.handleMessage platform env .lastEvent).1 =
        .ok (.lastEvent none) :=
  ⟨_, rfl, rfl⟩

end CounterActor

end Persistence
end Rush
