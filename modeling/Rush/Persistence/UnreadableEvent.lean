import Rush.Persistence.CounterActor
import Rush.Persistence.LogInvariant

/-!
# Persisting over an event that can't be read

With the counter 0, `persist` looks at the last event to tell an empty table
from one that holds event 0, and takes an error of that look for an empty table.
This is the only way in which it replaces an event, as long as no event has a
number above the counter.
-/

namespace Rush
namespace Persistence

open Foundation Database Actor

/-- No event is stored under a greater number. -/
def NumbersUpTo (table : Table) (n : UInt64) : Prop :=
  ∀ i, eventKey i ∈ table → i.toNat ≤ n.toNat

/-- A table with the keys of the store only has no number above the last key. -/
theorem numbersUpTo_lastNumber {table : Table}
    (hkeys : ∀ key ∈ table, ∃ i, key = eventKey i) :
    NumbersUpTo table (lastNumber table) := by
  intro i hi
  cases hlast : table.last? with
  | none =>
      rw [Table.last?_eq_none_iff.mp hlast] at hi
      exact absurd hi Std.ExtTreeMap.not_mem_empty
  | some entry =>
      obtain ⟨key, data⟩ := entry
      obtain ⟨hdata, hmax⟩ := Table.last?_eq_some_iff.mp hlast
      obtain ⟨n, rfl⟩ := hkeys key (mem_iff_exists_getElem?.mpr ⟨data, hdata⟩)
      have hn : lastNumber table = n := by
        simp only [lastNumber, hlast, parseU64_eventKey]
      rw [hn]
      by_cases hin : i = n
      · rw [hin]
      · have hlt := hmax _ hi (fun h => hin (eventKey_inj.mp h))
        rw [compare_eventKey] at hlt
        exact Nat.le_of_lt (Nat.compare_eq_lt.mp hlt)

section Persist

variable {P E : Type} {pf : Platform P E} {env : Env} {store : Store}

/-- A persisted event is stored under a key that the table did not have. -/
def Store.StoresFresh (pf : Platform P E) (env : Env) (store : Store)
    (event : E) : Prop :=
  (store.handleMessage pf env (.persist event)).1 = .ok .persisted →
    ∃ key data, key ∉ store.events ∧
      (store.handleMessage pf env (.persist event)).2.events =
        store.events.insert key data

/-- When the event can be stored while the counter is 0 and event 0 is in the
table, the last event is read, or the look at it panics. -/
def Store.ReadsLast (pf : Platform P E) (env : Env) (store : Store)
    (event : E) : Prop :=
  (∃ bytes, store.sealEvent pf env event = .ok bytes) →
    env.fault .eventsPut = none → store.eventCounter = 0 →
    eventKey 0 ∈ store.events →
    (∃ last, store.lastEvent pf env = .ok (some last)) ∨
      store.lastEvent pf env = .error .panic

/-- The number of the next event, when it does not overflow. -/
theorem Store.nextEventNumber_cases
    (hfits : store.eventCounter.toNat + 1 < 2 ^ 64) {next : UInt64}
    (h : store.nextEventNumber pf env = .ok next) :
    next.toNat = store.eventCounter.toNat + 1 ∧
        (store.eventCounter ≠ 0 ∨
          ∃ last, store.lastEvent pf env = .ok (some last)) ∨
      next = 0 ∧ store.eventCounter = 0 ∧
        ¬ ((∃ last, store.lastEvent pf env = .ok (some last)) ∨
          store.lastEvent pf env = .error .panic) := by
  have hsucc : pf.succ store.eventCounter = .ok next →
      next.toNat = store.eventCounter.toNat + 1 := by
    intro hnext
    rw [Platform.succ, if_pos hfits] at hnext
    cases hnext
    exact Store.toNat_add_ofNat (k := 1) hfits
  unfold nextEventNumber at h
  by_cases hzero : store.eventCounter = 0
  · rw [if_neg (fun hne => hne hzero)] at h
    rcases hread : store.lastEvent pf env with (e | _) | (_ | last)
    · simp only [hread] at h
      cases h
      exact Or.inr ⟨rfl, hzero, by simp⟩
    · simp [hread] at h
    · simp only [hread] at h
      cases h
      exact Or.inr ⟨rfl, hzero, by simp⟩
    · simp only [hread] at h
      exact Or.inl ⟨hsucc h, Or.inr ⟨last, rfl⟩⟩
  · rw [if_pos hzero] at h
    exact Or.inl ⟨hsucc h, Or.inl hzero⟩

/-- One `Persist` replaces nothing if and only if it reads the last event where
it has to. -/
theorem Store.storesFresh_iff (hnumbers : NumbersUpTo store.events
      store.eventCounter)
    (hfits : store.eventCounter.toNat + 1 < 2 ^ 64) (event : E) :
    store.StoresFresh pf env event ↔ store.ReadsLast pf env event := by
  constructor
  · intro hfresh hsealed hput hzero hmem
    obtain ⟨bytes, hseal⟩ := hsealed
    by_contra hunread
    -- then the event is stored under 0 again
    have hnext : store.nextEventNumber pf env = .ok 0 := by
      unfold nextEventNumber
      rw [if_neg (fun hne => hne hzero)]
      rcases hread : store.lastEvent pf env with (e | _) | (_ | last)
      · rfl
      · exact absurd (Or.inr hread) hunread
      · rfl
      · exact absurd (Or.inl ⟨last, hread⟩) hunread
    have hpersist : store.handleMessage pf env (.persist event) =
        (.ok .persisted,
          { store with
            events := store.events.insert (eventKey 0) bytes
            eventCounter := 0 }) := by
      simp only [handleMessage, persist, hseal, hnext, hput, respond]
    obtain ⟨key, data, hkey, hinsert⟩ := hfresh (by rw [hpersist])
    rw [hpersist] at hinsert
    have hsame : key ∈ store.events.insert (eventKey 0) bytes := by
      rw [show store.events.insert (eventKey 0) bytes =
        store.events.insert key data from hinsert]
      exact Std.ExtTreeMap.mem_insert_self
    rcases Std.ExtTreeMap.mem_insert.mp hsame with heq | hold
    · rw [Std.LawfulEqOrd.compare_eq_iff_eq] at heq
      exact hkey (heq ▸ hmem)
    · exact hkey hold
  · intro hreads hpersisted
    have heffect := handleMessage_effect pf env store (.persist event)
    generalize store.handleMessage pf env (.persist event) = outcome
      at heffect hpersisted ⊢
    obtain ⟨answer, store'⟩ := outcome
    cases heffect with
    | kept _ _ _ _ hanswer => exact absurd hpersisted hanswer
    | appended _ bytes next hseal hnext hput =>
        refine ⟨eventKey next, bytes, fun hmem => ?_, rfl⟩
        -- a number after the counter is new, and 0 is new unless it was unread
        rcases nextEventNumber_cases hfits hnext with
          ⟨hvalue, -⟩ | ⟨rfl, hzero, hunread⟩
        · have hle := hnumbers next hmem
          omega
        · exact hunread (hreads ⟨bytes, hseal⟩ hput hzero hmem)

/-- A `Persist` keeps the numbers below its counter. -/
theorem NumbersUpTo.persist (hnumbers : NumbersUpTo store.events
      store.eventCounter)
    (hfits : store.eventCounter.toNat + 1 < 2 ^ 64) (event : E) :
    NumbersUpTo (store.handleMessage pf env (.persist event)).2.events
      (store.handleMessage pf env (.persist event)).2.eventCounter := by
  have heffect := Store.handleMessage_effect pf env store (.persist event)
  generalize store.handleMessage pf env (.persist event) = outcome at heffect
  obtain ⟨answer, store'⟩ := outcome
  cases heffect with
  | kept _ _ _ hsame =>
      show NumbersUpTo store'.events store'.eventCounter
      rw [hsame.events, hsame.eventCounter]
      exact hnumbers
  | appended _ bytes next hseal hnext hput =>
      intro i hi
      show i.toNat ≤ next.toNat
      rcases Std.ExtTreeMap.mem_insert.mp hi with heq | hold
      · rw [Std.LawfulEqOrd.compare_eq_iff_eq, eventKey_inj] at heq
        rw [heq]
      · have hle := hnumbers i hold
        rcases Store.nextEventNumber_cases hfits hnext with
          ⟨hvalue, -⟩ | ⟨rfl, hzero, -⟩
        · omega
        · rwa [hzero] at hle

end Persist

section Run

variable {P E : Type} {pf : Platform P E} {password : Option Key}

/-- A guard on the persists of a session. -/
def OnPersist (guard : Env → Store → E → Prop) (session : Session)
    (request : Request P E) : Prop :=
  ∀ store event, session = .opened store →
    request.action = .command (.persist event) → guard request.env store event

/-- The next number fits. -/
def Store.Fits (_ : Env) (store : Store) (_ : E) : Prop :=
  store.eventCounter.toNat + 1 < 2 ^ 64

/-- No stored number is above the counter of the session's store. -/
def Session.NumbersUpTo (session : Session) : Prop :=
  ∀ store, session = .opened store →
    Persistence.NumbersUpTo store.events store.eventCounter

/-- The entries of the table are in the other table. -/
def Kept (table table' : Table) : Prop :=
  ∀ (key : Str) (data : Bytes), table[key]? = some data →
    table'[key]? = some data

theorem Kept.refl (table : Table) : Kept table table := fun _ _ h => h

theorem Kept.insert {table : Table} {key : Str} (hkey : key ∉ table)
    (data : Bytes) : Kept table (table.insert key data) := by
  intro key' data' hdata'
  rw [getElem?_insert_eq, if_neg, hdata']
  intro heq
  apply hkey
  exact heq ▸ mem_iff_exists_getElem?.mpr ⟨data', hdata'⟩

theorem Session.numbersUpTo_step {session session' : Session}
    {request : Request P E} {replies : List (Reply P E)}
    (h : session.NumbersUpTo)
    (hrequest : (∃ event, request.action = .command (.persist event)) ∧
      OnPersist Store.Fits session request)
    (hstep : session.step pf password request = some (session', replies)) :
    session'.NumbersUpTo := by
  obtain ⟨env, action⟩ := request
  obtain ⟨⟨event, rfl⟩, hfits⟩ := hrequest
  obtain ⟨store, rfl, rfl, -⟩ := Session.step_command_eq_some hstep
  have hnext : Persistence.NumbersUpTo
      (store.handleMessage pf env (.persist event)).2.events
      (store.handleMessage pf env (.persist event)).2.eventCounter :=
    (h store rfl).persist (hfits store event rfl rfl) event
  unfold Session.after
  split
  · intro store' hstore'
    cases hstore'
  · intro store' hstore'
    cases hstore'
    exact hnext

/-- Fresh keys replace no entry. -/
theorem Session.kept_step {session session' : Session}
    {request : Request P E} {replies : List (Reply P E)}
    (hrequest : ∃ event, request.action = .command (.persist event))
    (hfresh : OnPersist (Store.StoresFresh pf) session request)
    (hstep : session.step pf password request = some (session', replies)) :
    Kept session.tables.events session'.tables.events := by
  obtain ⟨env, action⟩ := request
  obtain ⟨event, rfl⟩ := hrequest
  obtain ⟨store, rfl, rfl, -⟩ := Session.step_command_eq_some hstep
  have heffect := Store.handleMessage_effect pf env store (.persist event)
  have hstores := hfresh store event rfl rfl
  unfold Store.StoresFresh at hstores
  rw [Session.tables_after]
  generalize store.handleMessage pf env (.persist event) = outcome
    at heffect hstores
  obtain ⟨answer, store'⟩ := outcome
  cases heffect with
  | kept _ _ _ hsame =>
      show Kept store.events store'.events
      rw [hsame.events]
      exact Kept.refl _
  | appended _ bytes next hseal hnext hput =>
      obtain ⟨key, data, hkey, hinsert⟩ := hstores rfl
      rw [hinsert]
      exact Kept.insert hkey data

theorem Session.kept_execute {session session' : Session}
    {requests : List (Request P E)} {replies : List (Reply P E)}
    (hpersists : ∀ request ∈ requests,
      ∃ event, request.action = .command (.persist event))
    (hfresh : StepsMeet (Session.step pf password)
      (OnPersist (Store.StoresFresh pf)) session requests)
    (hrun : execute (Session.step pf password) session requests =
      some (session', replies)) :
    Kept session.tables.events session'.tables.events := by
  induction requests generalizing session replies with
  | nil =>
      cases hrun
      exact Kept.refl _
  | cons request requests ih =>
      obtain ⟨middle, first, rest, hstep, hlater, -⟩ :=
        execute_cons_eq_some.mp hrun
      have hhead := Session.kept_step (hpersists request (by simp)) hfresh.1 hstep
      have htail := ih
        (fun r hmem => hpersists r (List.mem_cons_of_mem request hmem))
        (hfresh.2 middle first hstep) hlater
      exact fun key data hdata => htail key data (hhead key data hdata)

/-- Where a new store starts to count, if the last entry is answered. -/
theorem Store.new_eventCounter {env : Env} {tables : Tables} {store : Store}
    (hlast : env.fault .eventsLast = none)
    (h : Store.new env tables password = .ok store) :
    store.eventCounter = lastNumber tables.events := by
  unfold Store.new at h
  rw [hlast] at h
  repeat' split at h
  all_goals first
    | contradiction
    | skip
  cases h
  unfold lastNumber
  rcases tables.events.last? with _ | ⟨key, data⟩
  · rfl
  · cases hkey : parseU64 key <;> simp [hkey]

/-- **Persist replaces an event exactly when it can't read the last one.**  For
every table without a number above that of the last key, every password and
every number of persists that does not overflow the counter: each of them fails
or stores its event under a new key if and only if each reads the last event
where it has to; and then all entries stay. -/
theorem persists_fresh_iff (pf : Platform P E) (password : Option Key)
    (tables : Tables) (creation : Env) (store : Store)
    (hnew : Store.new creation tables password = .ok store)
    (hlast : creation.fault .eventsLast = none)
    (hnumbers : NumbersUpTo tables.events (lastNumber tables.events))
    (requests : List (Request P E))
    (hpersists : ∀ request ∈ requests,
      ∃ event, request.action = .command (.persist event))
    (hfits : StepsMeet (Session.step pf password) (OnPersist Store.Fits)
      (.opened store) requests) :
    (StepsMeet (Session.step pf password) (OnPersist (Store.StoresFresh pf))
        (.opened store) requests ↔
      StepsMeet (Session.step pf password) (OnPersist (Store.ReadsLast pf))
        (.opened store) requests) ∧
    (StepsMeet (Session.step pf password) (OnPersist (Store.ReadsLast pf))
        (.opened store) requests →
      ∀ session replies, execute (Session.step pf password) (.opened store)
          requests = some (session, replies) →
        Kept tables.events session.tables.events) := by
  have htables : store.toTables = tables := (Store.new_spec hnew).1
  have hstart : (Session.opened store).NumbersUpTo := by
    intro store' hstore'
    cases hstore'
    rw [Store.new_eventCounter hlast hnew, htables]
    exact hnumbers
  -- both guards are compared along the run, under the invariant
  have hmeet : StepsMeet (Session.step pf password)
      (fun session (request : Request P E) =>
        (∃ event, request.action = .command (.persist event)) ∧
          OnPersist Store.Fits session request) (.opened store) requests :=
    stepsMeet_and.mpr
      ⟨stepsMeet_of_forall (fun r hmem _ => hpersists r hmem) _, hfits⟩
  have hiff : StepsMeet (Session.step pf password)
        (OnPersist (Store.StoresFresh pf)) (.opened store) requests ↔
      StepsMeet (Session.step pf password) (OnPersist (Store.ReadsLast pf))
        (.opened store) requests := stepsMeet_congr
    (fun _ _ _ _ h hrequest hstep => Session.numbersUpTo_step h hrequest hstep)
    (fun session request h hrequest => by
      have hone : ∀ store event, session = .opened store →
          request.action = .command (.persist event) →
          (store.StoresFresh pf request.env event ↔
            store.ReadsLast pf request.env event) :=
        fun store event hstore haction =>
          Store.storesFresh_iff (h store hstore)
            (hrequest.2 store event hstore haction) event
      exact forall_congr' fun store => forall_congr' fun event =>
        forall_congr' fun hstore => forall_congr' fun haction =>
          hone store event hstore haction)
    hstart hmeet
  refine ⟨hiff, fun hreads session replies hrun => ?_⟩
  have hkept := Session.kept_execute hpersists (hiff.mpr hreads) hrun
  rw [← htables]
  exact hkept

end Run

namespace CounterActor

/-- Over a table with event 0, a store persists twice: the last event is read
where it has to be, and event 0 stays. -/
theorem persists_fresh_two :
    ∃ session replies, execute (Session.step platform none)
        (.opened
          { events := (∅ : Table).insert (eventKey 0) [5], states := none,
            eventCounter := 0, stateCounter := 0, keyBox := none })
        [⟨env, .command (.persist 1)⟩, ⟨env, .command (.persist 2)⟩] =
          some (session, replies) ∧
      Kept ((∅ : Table).insert (eventKey 0) [5]) session.tables.events := by
  have hnumbers : NumbersUpTo ((∅ : Table).insert (eventKey 0) [5])
      (lastNumber ((∅ : Table).insert (eventKey 0) [5])) := by
    apply numbersUpTo_lastNumber
    intro key hkey
    rcases Std.ExtTreeMap.mem_insert.mp hkey with heq | hold
    · exact ⟨0, (Std.LawfulEqOrd.compare_eq_iff_eq.mp heq).symm⟩
    · exact absurd hold Std.ExtTreeMap.not_mem_empty
  have htheorem := persists_fresh_iff platform none
    ⟨(∅ : Table).insert (eventKey 0) [5], none⟩ env
    { events := (∅ : Table).insert (eventKey 0) [5], states := none,
      eventCounter := 0, stateCounter := 0, keyBox := none }
    rfl rfl hnumbers
    [⟨env, .command (.persist 1)⟩, ⟨env, .command (.persist 2)⟩]
    (by simp)
    (by
      refine (stepsMeet_cons rfl).mpr ⟨?_, (stepsMeet_cons rfl).mpr
        ⟨?_, trivial⟩⟩
      · intro store event hstore _
        cases hstore
        show (0 : UInt64).toNat + 1 < 2 ^ 64
        decide
      · intro store event hstore _
        cases hstore
        show (1 : UInt64).toNat + 1 < 2 ^ 64
        decide)
  refine ⟨_, _, rfl, htheorem.2 ?_ _ _ rfl⟩
  refine (stepsMeet_cons rfl).mpr ⟨?_, (stepsMeet_cons rfl).mpr ⟨?_, trivial⟩⟩
  · intro store event hstore _ _ _ _ _
    cases hstore
    exact Or.inl ⟨5, rfl⟩
  · intro store event hstore _ _ _ hzero _
    cases hstore
    exact absurd hzero (by decide)

/-- Event 0 was written with another password: the first `Persist` replaces it.
And where the last key is no number, events 0 and 1 are there: the first
`Persist` replaces event 1. -/
theorem persist_replaces_unread :
    (∃ store session, Store.new env
          ⟨(∅ : Table).insert (eventKey 0) (nonce.val ++ password.val ++ [5]),
            none⟩ (some wrongPassword) = .ok store ∧
        execute (Session.step platform (some wrongPassword)) (.opened store)
            [⟨env, .command (.persist 1)⟩] =
          some (session, [.answered (.persist 1) (.ok .persisted)]) ∧
        ¬ Kept store.events session.tables.events) ∧
    ∃ store session, Store.new env
          ⟨(((∅ : Table).insert (eventKey 0) [5]).insert (eventKey 1)
            [6]).insert "meta".toList [7], none⟩ none = .ok store ∧
        execute (Session.step platform none) (.opened store)
            [⟨env, .command (.persist 1)⟩] =
          some (session, [.answered (.persist 1) (.ok .persisted)]) ∧
        ¬ Kept store.events session.tables.events := by
  refine ⟨⟨_, _, rfl, rfl, fun hkept => ?_⟩, _, _, rfl, rfl, fun hkept => ?_⟩
  · have hold := hkept (eventKey 0) (nonce.val ++ password.val ++ [5]) rfl
    revert hold
    decide +kernel
  · have hold := hkept (eventKey 1) [6] rfl
    revert hold
    decide +kernel

end CounterActor

end Persistence
end Rush
