import Rush.Persistence.EventInterval
import Rush.Persistence.StoreRun

/-!
# The invariant of the event log

Puts and purges may fail, everything else answers.  The event table of a store
then holds an interval of event numbers that ends at `event_counter`, through
all commands and reopenings.
-/

namespace Rush
namespace Persistence

open Foundation Database Actor

/-- Only puts and purges may fail. -/
structure Env.OnlyWritesFail (env : Env) : Prop where
  fault : ∀ call, env.fault call = none ∨ call = .eventsPut ∨
    call = .statesPut ∨ call = .eventsPurge ∨ call = .statesPurge
  sealPassword : env.sealPassword = none
  unlock : ∀ keyUse, env.unlock keyUse = true

/-- The same answers without the faults. -/
def Env.healed (env : Env) : Env := { env with fault := fun _ => none }

theorem Env.Healthy.onlyWritesFail {env : Env} (h : env.Healthy) :
    env.OnlyWritesFail :=
  ⟨fun call => Or.inl (h.1 call), h.2.1, h.2.2⟩

namespace Env.OnlyWritesFail

variable {env : Env}

theorem healed (h : env.OnlyWritesFail) : env.healed.Healthy :=
  ⟨fun _ => rfl, h.sealPassword, h.unlock⟩

theorem fault_eventsLast (h : env.OnlyWritesFail) :
    env.fault .eventsLast = none := by
  rcases h.fault .eventsLast with hnone | hother
  · exact hnone
  · simp at hother

theorem fault_statesGet (h : env.OnlyWritesFail) :
    env.fault .statesGet = none := by
  rcases h.fault .statesGet with hnone | hother
  · exact hnone
  · simp at hother

theorem fault_createCollection (h : env.OnlyWritesFail) :
    env.fault .createCollection = none := by
  rcases h.fault .createCollection with hnone | hother
  · exact hnone
  · simp at hother

theorem fault_createState (h : env.OnlyWritesFail) :
    env.fault .createState = none := by
  rcases h.fault .createState with hnone | hother
  · exact hnone
  · simp at hother

end Env.OnlyWritesFail

section Store

variable {P E : Type} {pf : Platform P E} {env : Env} {store : Store}
  {password : Option Key}

namespace Store

theorem last_of_onlyWritesFail (henv : env.OnlyWritesFail) (store : Store) :
    store.last env = store.events.last? :=
  last_of_fault henv.fault_eventsLast store

theorem openEvent_of_sealed (henv : env.OnlyWritesFail) {data : Bytes}
    {event : E} (hsealed : Sealed pf store.keyBox data event)
    (keyUse : KeyUse) : store.openEvent pf env keyUse data = .ok event :=
  hsealed env.healed store keyUse henv.healed rfl

/-- The last entry of the table is this event. -/
def LastIs (pf : Platform P E) (password : Option Key) (table : Table)
    (event : E) : Prop :=
  ∃ key data, table.last? = some (key, data) ∧ Sealed pf password data event

theorem lastEvent_of_lastIs (henv : env.OnlyWritesFail) {event : E}
    (h : LastIs pf store.keyBox store.events event) :
    store.lastEvent pf env = .ok (some event) := by
  obtain ⟨key, data, hlast, hsealed⟩ := h
  simp only [lastEvent, last_of_onlyWritesFail henv, hlast,
    openEvent_of_sealed henv hsealed]

/-- The number of the next event when every stored event can be read: 0 in a
store that never stored one, else the number after the counter. -/
theorem nextEventNumber_eq (henv : env.OnlyWritesFail)
    (hsealed : AllSealed pf store.keyBox store.events) :
    store.nextEventNumber pf env =
      if store.eventCounter = 0 ∧ store.events = ∅ then .ok 0
      else pf.succ store.eventCounter := by
  unfold nextEventNumber
  by_cases hzero : store.eventCounter = 0
  · rw [if_neg (fun h => h hzero)]
    -- a counter of 0 says nothing: `last_event` decides
    cases hlast : store.events.last? with
    | none =>
        have hempty : store.events = ∅ := Table.last?_eq_none_iff.mp hlast
        have hread : store.lastEvent pf env = .ok none := by
          simp only [lastEvent, last_of_onlyWritesFail henv, hlast]
        simp [hread, hzero, hempty]
    | some entry =>
        obtain ⟨key, data⟩ := entry
        have hne : store.events ≠ ∅ := by
          intro hempty
          rw [Table.last?_eq_none_iff.mpr hempty] at hlast
          contradiction
        obtain ⟨event, hevent⟩ :=
          hsealed key data (Table.last?_eq_some_iff.mp hlast).1
        have hread := lastEvent_of_lastIs henv ⟨key, data, hlast, hevent⟩
        simp only [hread, hne, and_false, if_false]
  · simp [hzero]

end Store

/-- The number in the last key of a table, and 0 where there is none: where
`Store::new` starts to count. -/
def lastNumber (table : Table) : UInt64 :=
  match table.last? with
  | none => 0
  | some (key, _) =>
      match parseU64 key with
      | .error _ => 0
      | .ok n => n

theorem Store.new_of_onlyWritesFail (henv : env.OnlyWritesFail)
    (tables : Tables) (password : Option Key) :
    Store.new env tables password =
      .ok
        { tables with
          eventCounter := lastNumber tables.events
          stateCounter := 0
          keyBox := password } := by
  unfold Store.new lastNumber
  cases hlast : tables.events.last? with
  | none =>
      cases password <;>
        simp [henv.sealPassword, henv.fault_createCollection,
          henv.fault_createState, henv.fault_eventsLast]
  | some entry =>
      obtain ⟨key, data⟩ := entry
      cases hkey : parseU64 key <;> cases password <;>
        simp [henv.sealPassword, henv.fault_createCollection,
          henv.fault_createState, henv.fault_eventsLast, hkey]

theorem lastNumber_empty : lastNumber ∅ = 0 := by
  unfold lastNumber
  rw [Table.last?_eq_none_iff.mpr rfl]

theorem Numbered.lastNumber_eq {table : Table} {lo : Nat} {n : UInt64}
    (h : Numbered table lo (n.toNat + 1)) (hlo : lo ≤ n.toNat) :
    lastNumber table = n := by
  obtain ⟨data, hlast, -⟩ := h.last?_eq hlo
  simp only [lastNumber, hlast, parseU64_eventKey]

/-- **The log invariant.**  The table holds the event numbers from `lo` up to
the counter, none of them if `lo` is above it, and every event can be read. -/
structure LogInvariant (pf : Platform P E) (password : Option Key)
    (store : Store) (lo : Nat) : Prop where
  keyBox : store.keyBox = password
  numbered : Numbered store.events lo (store.eventCounter.toNat + 1)
  le : lo ≤ store.eventCounter.toNat + 1
  allSealed : AllSealed pf password store.events

namespace LogInvariant

variable {lo : Nat}

theorem events_eq_empty_iff (h : LogInvariant pf password store lo) :
    store.events = ∅ ↔ lo = store.eventCounter.toNat + 1 := by
  rw [h.numbered.eq_empty_iff]
  have hle := h.le
  omega

/-- The empty table under any counter. -/
theorem of_empty (store : Store) (hkey : store.keyBox = password)
    (hevents : store.events = ∅) :
    LogInvariant pf password store (store.eventCounter.toNat + 1) where
  keyBox := hkey
  numbered := by
    rw [hevents]
    exact Numbered.empty _
  le := Nat.le_refl _
  allSealed := by
    rw [hevents]
    exact allSealed_empty

theorem sameLog (h : LogInvariant pf password store lo) {store' : Store}
    (hsame : store.SameLog store') : LogInvariant pf password store' lo where
  keyBox := hsame.keyBox.trans h.keyBox
  numbered := by
    rw [hsame.events, hsame.eventCounter]
    exact h.numbered
  le := by
    rw [hsame.eventCounter]
    exact h.le
  allSealed := by
    rw [hsame.events]
    exact h.allSealed

/-- The number parsed from the last key is the counter. -/
theorem parse_last (h : LogInvariant pf password store lo) {key : Str}
    {data : Bytes} (hlast : store.events.last? = some (key, data)) :
    parseU64 key = .ok store.eventCounter := by
  have hne : store.events ≠ ∅ := by
    intro hempty
    rw [Table.last?_eq_none_iff.mpr hempty] at hlast
    contradiction
  have hlo : lo ≤ store.eventCounter.toNat := by
    have hle := h.le
    have hiff := h.events_eq_empty_iff
    by_contra hgt
    exact hne (hiff.mpr (by omega))
  obtain ⟨data', hlast', -⟩ := h.numbered.last?_eq hlo
  rw [hlast] at hlast'
  cases hlast'
  exact parseU64_eventKey store.eventCounter

/-- The number of the next event fits, and it follows the interval; in an empty
table the interval is moved to it. -/
theorem next (h : LogInvariant pf password store lo)
    (henv : env.OnlyWritesFail) (hfits : store.eventCounter.toNat + 1 < 2 ^ 64)
    {next : UInt64} (hnext : store.nextEventNumber pf env = .ok next) :
    ∃ lo', Numbered store.events lo' next.toNat ∧ lo' ≤ next.toNat ∧
      (store.eventCounter = 0 ∧ store.events = ∅ ∧ next = 0 ∨
        ¬ (store.eventCounter = 0 ∧ store.events = ∅) ∧
          next.toNat = store.eventCounter.toNat + 1) := by
  rw [Store.nextEventNumber_eq henv (h.keyBox ▸ h.allSealed)] at hnext
  by_cases hfirst : store.eventCounter = 0 ∧ store.events = ∅
  · rw [if_pos hfirst] at hnext
    cases hnext
    refine ⟨0, ?_, Nat.le_refl 0, Or.inl ⟨hfirst.1, hfirst.2, rfl⟩⟩
    rw [hfirst.2]
    exact Numbered.empty 0
  · rw [if_neg hfirst, Platform.succ, if_pos hfits] at hnext
    cases hnext
    have hvalue : (store.eventCounter + 1).toNat = store.eventCounter.toNat + 1 :=
      Store.toNat_add_ofNat (k := 1) hfits
    refine ⟨lo, ?_, ?_, Or.inr ⟨hfirst, hvalue⟩⟩
    · rw [hvalue]
      exact h.numbered
    · rw [hvalue]
      exact h.le

/-- A persisted event follows the interval. -/
theorem append (h : LogInvariant pf password store lo) {next : UInt64} {lo' : Nat}
    {data : Bytes} {event : E} (hnumbered : Numbered store.events lo' next.toNat)
    (hle : lo' ≤ next.toNat) (hsealed : Store.Sealed pf store.keyBox data event) :
    LogInvariant pf password
      { store with
        events := store.events.insert (eventKey next) data
        eventCounter := next } lo' where
  keyBox := h.keyBox
  numbered := hnumbered.insert_next hle data
  le := by
    show lo' ≤ next.toNat + 1
    omega
  allSealed := h.allSealed.insert (h.keyBox ▸ hsealed)

/-- An event stored under the counter replaces the last one. -/
theorem replace (h : LogInvariant pf password store lo) {data : Bytes}
    {event : E} (hsealed : Store.Sealed pf store.keyBox data event) :
    LogInvariant pf password
      { store with
        events := store.events.insert (eventKey store.eventCounter) data }
      (min lo store.eventCounter.toNat) where
  keyBox := h.keyBox
  numbered := h.numbered.insert_last data
  le := by
    show min lo store.eventCounter.toNat ≤ store.eventCounter.toNat + 1
    omega
  allSealed := h.allSealed.insert (h.keyBox ▸ hsealed)

/-- A store opened on the tables of another one counts from their last key. -/
theorem reopen {tables : Tables} {lo hi : Nat}
    (hnumbered : Numbered tables.events lo hi) (hhi : hi ≤ 2 ^ 64)
    (hsealed : AllSealed pf password tables.events) (states : UInt64) :
    ∃ lo', LogInvariant pf password
        { tables with
          eventCounter := lastNumber tables.events
          stateCounter := states
          keyBox := password } lo' ∧
      (lo < hi ∧ (lastNumber tables.events).toNat + 1 = hi ∨
        lastNumber tables.events = 0 ∧ tables.events = ∅) := by
  by_cases hlt : lo < hi
  · -- the last key is that of `hi - 1`
    have hlast : (UInt64.ofNat (hi - 1)).toNat + 1 = hi := by
      rw [HoldsEvents.toNat_ofNat (by omega)]
      omega
    rw [← hlast] at hnumbered
    have hcounter := hnumbered.lastNumber_eq (by omega)
    refine ⟨lo, ⟨rfl, ?_, ?_, hsealed⟩, Or.inl ⟨hlt, ?_⟩⟩
    · rw [hcounter]
      exact hnumbered
    · rw [hcounter]
      show lo ≤ (UInt64.ofNat (hi - 1)).toNat + 1
      omega
    · rw [hcounter]
      exact hlast
  · have hempty : tables.events = ∅ := by
      apply Std.ExtTreeMap.eq_empty_iff_forall_not_mem.mpr
      intro key hkey
      obtain ⟨m, hle, hlt', -⟩ := (hnumbered key).mp hkey
      omega
    have hcounter : lastNumber tables.events = 0 := by
      rw [hempty]
      exact lastNumber_empty
    exact ⟨_, LogInvariant.of_empty _ rfl hempty, Or.inr ⟨hcounter, hempty⟩⟩

end LogInvariant

/-! ### Along a run -/

/-- An event was stored. -/
def Reply.isPersisted : Reply P E → Bool
  | .answered _ (.ok .persisted) => true
  | _ => false

/-- How many events were stored. -/
def persistedCount (replies : List (Reply P E)) : Nat :=
  replies.countP Reply.isPersisted

/-- The counter stays below the number of stored events, except in a store that
never held one. -/
def CounterBelow (store : Store) (count : Nat) : Prop :=
  store.eventCounter.toNat + 1 ≤ count ∨
    store.eventCounter = 0 ∧ store.events = ∅

/-- The log invariant of a session after `count` events were stored. -/
def Session.LogInvariant (pf : Platform P E) (password : Option Key)
    (count : Nat) : Session → Prop
  | .closed tables => ∃ lo hi, Numbered tables.events lo hi ∧
      AllSealed pf password tables.events ∧ hi ≤ count
  | .opened store => ∃ lo, Persistence.LogInvariant pf password store lo ∧
      CounterBelow store count

theorem Session.logInvariant_empty (pf : Platform P E)
    (password : Option Key) : Session.empty.LogInvariant pf password 0 :=
  ⟨0, 0, Numbered.empty 0, allSealed_empty, Nat.le_refl 0⟩

/-- The tables of a session, with or without a store. -/
theorem Session.LogInvariant.tables {session : Session} {count : Nat}
    (h : session.LogInvariant pf password count) :
    ∃ lo hi, Numbered session.tables.events lo hi ∧
      AllSealed pf password session.tables.events ∧ hi ≤ count := by
  cases session with
  | closed tables => exact h
  | opened store =>
      obtain ⟨lo, hlog, hle | ⟨-, hempty⟩⟩ := h
      · exact ⟨lo, _, hlog.numbered, hlog.allSealed, hle⟩
      · have hnumbered : Numbered store.events 0 0 := by
          rw [hempty]
          exact Numbered.empty 0
        exact ⟨0, 0, hnumbered, hlog.allSealed, Nat.zero_le count⟩

theorem CounterBelow.mono {count : Nat} (h : CounterBelow store count)
    (k : Nat) : CounterBelow store (count + k) := by
  rcases h with hle | hzero
  · exact Or.inl (by omega)
  · exact Or.inr hzero

/-- The counter is at most the number of stored events. -/
theorem CounterBelow.le {count : Nat} (h : CounterBelow store count) :
    store.eventCounter.toNat ≤ count := by
  rcases h with hle | hzero
  · omega
  · rw [hzero.1]
    exact Nat.zero_le count

theorem CounterBelow.fits {count : Nat} (h : CounterBelow store count)
    (hcount : count < 2 ^ 64) : store.eventCounter.toNat + 1 < 2 ^ 64 := by
  rcases h with hle | hzero
  · omega
  · rw [hzero.1]
    decide

theorem CounterBelow.sameLog {count : Nat} (h : CounterBelow store count)
    {store' : Store} (hsame : store.SameLog store') :
    CounterBelow store' count := by
  unfold CounterBelow
  rw [hsame.eventCounter, hsame.events]
  exact h

/-- Every command keeps the log invariant. -/
theorem LogInvariant.effect (hpf : pf.Inverts) (henv : env.OnlyWritesFail)
    {lo count : Nat} (h : LogInvariant pf password store lo)
    (hbelow : CounterBelow store count) (hcount : count < 2 ^ 64)
    {command : StoreCommand P E}
    {answer : Except (Failure ActorError) (StoreResponse P E)} {store' : Store}
    (heffect : store.LogEffect pf env command answer store') :
    ∃ lo', LogInvariant pf password store' lo' ∧
      CounterBelow store'
        (count + persistedCount [Reply.answered command answer]) := by
  cases heffect with
  | kept _ _ _ hsame =>
      exact ⟨lo, h.sameLog hsame, (hbelow.sameLog hsame).mono _⟩
  | reread _ _ key data n hlast hkey hsame =>
      -- the last key holds the counter, so nothing changes
      rw [Store.last_of_onlyWritesFail henv] at hlast
      have hn : n = store.eventCounter := by
        have hparse := h.parse_last hlast
        rw [hkey] at hparse
        exact Except.ok.inj hparse
      subst hn
      exact ⟨lo, h.sameLog hsame, (hbelow.sameLog hsame).mono _⟩
  | appended event bytes next hseal hnext hput =>
      have hsealed := Store.sealed_of_sealEvent hpf hseal
      obtain ⟨lo', hnumbered, hle, hvalue⟩ :=
        h.next henv (hbelow.fits hcount) hnext
      refine ⟨lo', h.append hnumbered hle hsealed, Or.inl ?_⟩
      show next.toNat + 1 ≤ count + 1
      -- the first event keeps the counter at 0, any other one adds 1
      rcases hvalue with ⟨-, -, rfl⟩ | ⟨hfirst, hvalue⟩
      · show 0 + 1 ≤ count + 1
        omega
      · rcases hbelow with hbelow | hzero
        · omega
        · exact absurd hzero hfirst
  | replaced event state bytes _ hseal hput hsame =>
      have hsealed := Store.sealed_of_sealEvent hpf hseal
      refine ⟨_, (h.replace hsealed).sameLog hsame, ?_⟩
      apply CounterBelow.sameLog (Or.inl ?_) hsame
      show store.eventCounter.toNat + 1 ≤ count + 1
      exact Nat.succ_le_succ hbelow.le
  | cleared _ _ hpurge hsame =>
      -- the counter is kept, and the empty interval follows it
      have hempty : LogInvariant pf password { store with events := ∅ }
          (store.eventCounter.toNat + 1) :=
        LogInvariant.of_empty _ h.keyBox rfl
      refine ⟨_, hempty.sameLog hsame, ?_⟩
      apply CounterBelow.sameLog ?_ hsame
      rcases hbelow.mono (persistedCount [Reply.answered StoreCommand.purge _])
        with hle | hzero
      · exact Or.inl hle
      · exact Or.inr ⟨hzero.1, rfl⟩

/-- A reopened store counts from what the tables hold. -/
theorem Session.LogInvariant.step_reopen {session session' : Session}
    {replies : List (Reply P E)} {count : Nat} (henv : env.OnlyWritesFail)
    (h : session.LogInvariant pf password count) (hcount : count < 2 ^ 64)
    (hstep : session.step pf password ⟨env, .reopen⟩ =
      some (session', replies)) :
    session'.LogInvariant pf password (count + persistedCount replies) := by
  obtain ⟨lo, hi, hnumbered, hsealed, hhi⟩ := h.tables
  simp only [Session.step, Store.new_of_onlyWritesFail henv, Option.some.injEq,
    Prod.mk.injEq] at hstep
  obtain ⟨rfl, rfl⟩ := hstep
  obtain ⟨lo', hlog, hcounter⟩ :=
    Persistence.LogInvariant.reopen hnumbered (by omega) hsealed 0
  refine ⟨lo', hlog, ?_⟩
  -- the counter is parsed from the last key, or 0 over an empty table
  rcases hcounter with ⟨-, heq⟩ | hzero
  · apply Or.inl
    show (lastNumber session.tables.events).toNat + 1 ≤ count + 0
    omega
  · exact Or.inr hzero

theorem Session.LogInvariant.step_command (hpf : pf.Inverts)
    {session' : Session} {command : StoreCommand P E}
    {replies : List (Reply P E)} {count : Nat} (henv : env.OnlyWritesFail)
    (h : (Session.opened store).LogInvariant pf password count)
    (hcount : count < 2 ^ 64)
    (hstep : (Session.opened store).step pf password ⟨env, .command command⟩ =
      some (session', replies)) :
    session'.LogInvariant pf password (count + persistedCount replies) := by
  obtain ⟨lo, hlog, hbelow⟩ := h
  rw [Session.step_command] at hstep
  cases hstep
  have hnext : (Session.opened (store.handleMessage pf env command).2).LogInvariant
      pf password (count + persistedCount
        [.answered command (store.handleMessage pf env command).1]) :=
    hlog.effect hpf henv hbelow hcount
      (Store.handleMessage_effect pf env store command)
  -- a handler that panics leaves the tables behind
  unfold Session.after
  split
  · exact hnext.tables
  · exact hnext

/-- Every request keeps the log invariant. -/
theorem Session.LogInvariant.step (hpf : pf.Inverts)
    {session session' : Session} {request : Request P E}
    {replies : List (Reply P E)} {count : Nat}
    (henv : request.env.OnlyWritesFail)
    (h : session.LogInvariant pf password count) (hcount : count < 2 ^ 64)
    (hstep : session.step pf password request = some (session', replies)) :
    session'.LogInvariant pf password (count + persistedCount replies) := by
  obtain ⟨env, action⟩ := request
  cases action with
  | reopen => exact h.step_reopen henv hcount hstep
  | command command =>
      obtain ⟨store, rfl, -⟩ := Session.step_command_eq_some hstep
      exact h.step_command hpf henv hcount hstep

theorem persistedCount_append (before after : List (Reply P E)) :
    persistedCount (before ++ after) =
      persistedCount before + persistedCount after := by
  unfold persistedCount
  exact List.countP_append

/-- The log invariant holds in every session reached with fewer than `2^64`
stored events. -/
theorem Session.logInvariant_of_execute (hpf : pf.Inverts)
    {requests : List (Request P E)} {session : Session}
    {replies : List (Reply P E)}
    (henv : ∀ request ∈ requests, request.env.OnlyWritesFail)
    (hrun : execute (Session.step pf password) .empty requests =
      some (session, replies))
    (hcount : persistedCount replies < 2 ^ 64) :
    session.LogInvariant pf password (persistedCount replies) := by
  have hrunInv := execute_history
    (G := fun _ (request : Request P E) => request.env.OnlyWritesFail)
    (P := fun (session : Session) (seen : List (Reply P E)) =>
      persistedCount seen < 2 ^ 64 →
        session.LogInvariant pf password (persistedCount seen))
    (by
      intro session seen request session' replies h henv hstep hcount
      rw [persistedCount_append] at hcount ⊢
      exact (h (by omega)).step hpf henv (by omega) hstep)
    [] (fun _ => Session.logInvariant_empty pf password)
    (stepsMeet_of_forall (fun request hmem _ => henv request hmem) _) hrun
  exact hrunInv hcount

end Store

end Persistence
end Rush
