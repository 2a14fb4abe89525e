import Rush.Persistence.LogInvariant

/-!
# The event log as a list

Seen from outside, the event log of a store is a list: `Persist` appends an
event, `PersistLight` puts its event in the place of the last one, and event
number `i` is the one at position `i`.  Every run without `Purge` in which
events can be read refines this list: the event table holds its events, and the
counter is the number of the last one.
-/

namespace Rush
namespace Persistence

open Foundation Database Actor

/-- The calls that read events succeed. -/
structure Env.EventsReadable (env : Env) : Prop where
  eventsGet : ∀ i, env.fault (.eventsGet i) = none
  eventsLast : env.fault .eventsLast = none
  unlockLast : env.unlock .lastEvent = true
  unlockEvent : ∀ i, env.unlock (.event i) = true

theorem Env.OnlyWritesFail.eventsReadable {env : Env} (h : env.OnlyWritesFail) :
    env.EventsReadable where
  eventsGet := by
    intro i
    rcases h.fault (.eventsGet i) with hnone | hother
    · exact hnone
    · simp at hother
  eventsLast := h.fault_eventsLast
  unlockLast := h.unlock .lastEvent
  unlockEvent := fun i => h.unlock (.event i)

section Log

variable {P E : Type}

/-- The log after a reply. -/
def Reply.logged (log : List E) : Reply P E → List E
  | .answered (.persist event) (.ok .persisted) => log ++ [event]
  | .answered (.persistLight event _) (.ok .persisted) => log.dropLast ++ [event]
  | _ => log

/-- The event log of a run. -/
def eventLog (replies : List (Reply P E)) : List E :=
  replies.foldl Reply.logged []

theorem Reply.logged_of_ne {command : StoreCommand P E}
    {answer : Except (Failure ActorError) (StoreResponse P E)}
    (h : answer ≠ .ok .persisted) (log : List E) :
    Reply.logged log (.answered command answer) = log := by
  unfold Reply.logged
  split <;> simp_all

/-- Only a stored event makes the log longer. -/
theorem Reply.length_logged_le (log : List E) (reply : Reply P E) :
    (reply.logged log).length ≤ log.length + persistedCount [reply] := by
  unfold Reply.logged
  split
  · simp [persistedCount, Reply.isPersisted]
  · simp [persistedCount, Reply.isPersisted]
  · exact Nat.le_add_right _ _

theorem length_foldl_logged_le (replies : List (Reply P E)) (log : List E) :
    (replies.foldl Reply.logged log).length ≤
      log.length + persistedCount replies := by
  induction replies generalizing log with
  | nil => exact Nat.le_refl _
  | cons reply replies ih =>
      have hrest := ih (reply.logged log)
      have hfirst := reply.length_logged_le log
      have hcount := persistedCount_append [reply] replies
      rw [List.singleton_append] at hcount
      rw [List.foldl_cons]
      omega

theorem length_eventLog_le (replies : List (Reply P E)) :
    (eventLog replies).length ≤ persistedCount replies := by
  have hle := length_foldl_logged_le replies ([] : List E)
  rw [List.length_nil, Nat.zero_add] at hle
  exact hle

end Log

section Holds

variable {P E : Type} {pf : Platform P E} {password : Option Key} {table : Table}
  {log : List E} {event : E}

theorem length_replaceLast (hne : log ≠ []) (event : E) :
    (log.dropLast ++ [event]).length = log.length := by
  have hpos : 0 < log.length := List.length_pos_iff.mpr hne
  rw [List.length_append, List.length_dropLast, List.length_singleton]
  omega

/-- The other events keep their numbers. -/
theorem getElem?_of_replaceLast {i : Nat} {e : E}
    (hi : (log.dropLast ++ [event])[i]? = some e) (hlast : i ≠ log.length - 1) :
    log[i]? = some e ∧ i < log.length - 1 := by
  have hlt : i < log.length - 1 := by
    have hsome := (List.getElem?_eq_some_iff.mp hi).1
    rw [List.length_append, List.length_dropLast, List.length_singleton] at hsome
    omega
  rw [List.getElem?_append_left (by rw [List.length_dropLast]; omega),
    List.getElem?_dropLast, if_pos hlt] at hi
  exact ⟨hi, hlt⟩

/-- A put under the last number replaces the last event. -/
theorem HoldsEvents.replaceLast (h : HoldsEvents pf password table log)
    (hne : log ≠ []) {data : Bytes}
    (hsealed : Store.Sealed pf password data event) :
    HoldsEvents pf password
      (table.insert (eventKey (UInt64.ofNat (log.length - 1))) data)
      (log.dropLast ++ [event]) where
  lookup := by
    intro i e hi
    have hpos : 0 < log.length := List.length_pos_iff.mpr hne
    have hbound := h.bounded
    by_cases hlast : i = log.length - 1
    · have he : event = e := by
        rw [hlast, ← List.length_dropLast, List.getElem?_concat_length] at hi
        exact Option.some.inj hi
      subst hlast he
      exact ⟨data, Std.ExtTreeMap.getElem?_insert_self, hsealed⟩
    · obtain ⟨hold, hlt⟩ := getElem?_of_replaceLast hi hlast
      obtain ⟨data', hdata', hsealed'⟩ := h.lookup i e hold
      refine ⟨data', ?_, hsealed'⟩
      rw [getElem?_insert_eq, if_neg, hdata']
      intro hkey
      have hnum := congrArg UInt64.toNat (eventKey_inj.mp hkey)
      rw [HoldsEvents.toNat_ofNat (by omega),
        HoldsEvents.toNat_ofNat (by omega)] at hnum
      exact hlast hnum
  keys := by
    intro key hkey
    have hpos : 0 < log.length := List.length_pos_iff.mpr hne
    rw [length_replaceLast hne]
    rcases Std.ExtTreeMap.mem_insert.mp hkey with heq | hold
    · exact ⟨log.length - 1, by omega, (Std.LawfulEqOrd.eq_of_compare heq).symm⟩
    · exact h.keys key hold
  bounded := by
    rw [length_replaceLast hne]
    exact h.bounded

/-- The last number of a table that holds a log. -/
theorem HoldsEvents.lastNumber_eq (h : HoldsEvents pf password table log)
    (hbound : log.length < 2 ^ 64) :
    (lastNumber table).toNat = log.length - 1 := by
  unfold lastNumber
  by_cases hne : log = []
  · subst hne
    rw [h.last_none]
    rfl
  · obtain ⟨data, event, -, hlast, -⟩ := h.last_some hne
    rw [hlast]
    simp only [parseU64_eventKey]
    exact HoldsEvents.toNat_ofNat (by omega)

end Holds

section Store

variable {P E : Type} {pf : Platform P E} {env : Env} {store : Store}
  {password : Option Key} {log : List E}

/-- A sealed event is opened wherever the key can be unsealed. -/
theorem Store.openEvent_of_unlock {keyUse : KeyUse}
    (hunlock : env.unlock keyUse = true) {data : Bytes} {event : E}
    (hsealed : Store.Sealed pf store.keyBox data event) :
    store.openEvent pf env keyUse data = .ok event := by
  have hopen := hsealed
    { env with
      fault := fun _ => none
      sealPassword := none
      unlock := fun _ => true }
    store keyUse ⟨fun _ => rfl, rfl, fun _ => rfl⟩ rfl
  unfold openEvent at hopen ⊢
  rw [hunlock]
  exact hopen

/-- The store holds the log, and counts to its last event. -/
structure Store.Logs (pf : Platform P E) (password : Option Key) (store : Store)
    (log : List E) : Prop where
  keyBox : store.keyBox = password
  holds : HoldsEvents pf password store.events log
  counter : store.eventCounter.toNat = log.length - 1

/-- The tables of the session hold the log. -/
def Session.Logs (pf : Platform P E) (password : Option Key) (log : List E) :
    Session → Prop
  | .closed tables => HoldsEvents pf password tables.events log
  | .opened store => store.Logs pf password log

namespace Store.Logs

theorem sameLog (h : store.Logs pf password log) {store' : Store}
    (hsame : store.SameLog store') : store'.Logs pf password log where
  keyBox := hsame.keyBox.trans h.keyBox
  holds := by
    rw [hsame.events]
    exact h.holds
  counter := by
    rw [hsame.eventCounter]
    exact h.counter

theorem last_some (h : store.Logs pf password log) (hne : log ≠ []) :
    ∃ data event, store.events.last? = some (eventKey store.eventCounter, data) ∧
      Store.Sealed pf store.keyBox data event := by
  obtain ⟨data, event, -, hlast, hsealed⟩ := h.holds.last_some hne
  rw [← h.counter, UInt64.ofNat_toNat] at hlast
  exact ⟨data, event, hlast, h.keyBox ▸ hsealed⟩

/-- The next number is the length of the log. -/
theorem next (h : store.Logs pf password log) (henv : env.EventsReadable)
    (hbound : log.length < 2 ^ 64) {next : UInt64}
    (hnext : store.nextEventNumber pf env = .ok next) :
    next = UInt64.ofNat log.length := by
  have hread := Store.last_of_fault henv.eventsLast store
  have hsucc : log ≠ [] → pf.succ store.eventCounter = .ok next →
      next = UInt64.ofNat log.length := by
    intro hne hnext
    have hpos : 0 < log.length := List.length_pos_iff.mpr hne
    have hfits : store.eventCounter.toNat + 1 < 2 ^ 64 := by
      have hcounter := h.counter
      omega
    rw [Platform.succ, if_pos hfits] at hnext
    cases hnext
    have hvalue : (store.eventCounter + 1).toNat = store.eventCounter.toNat + 1 :=
      Store.toNat_add_ofNat (k := 1) hfits
    apply UInt64.toNat_inj.mp
    rw [hvalue, HoldsEvents.toNat_ofNat hbound, h.counter]
    omega
  unfold nextEventNumber at hnext
  by_cases hempty : log = []
  · -- the counter is 0 and there is no last event
    have hzero : store.eventCounter = 0 :=
      UInt64.toNat_inj.mp (by rw [h.counter, hempty]; rfl)
    have hnone : store.lastEvent pf env = .ok none := by
      have hholds := h.holds
      rw [hempty] at hholds
      simp only [lastEvent, hread, hholds.last_none]
    simp only [hzero, hnone] at hnext
    cases hnext
    rw [hempty]
    rfl
  · obtain ⟨data, event, hlast, hsealed⟩ := h.last_some hempty
    have hsome : store.lastEvent pf env = .ok (some event) := by
      simp only [lastEvent, hread, hlast,
        Store.openEvent_of_unlock henv.unlockLast hsealed]
    split at hnext
    · exact hsucc hempty hnext
    · rw [hsome] at hnext
      exact hsucc hempty hnext

theorem appended (h : store.Logs pf password log) (hbound : log.length < 2 ^ 64)
    {bytes : Bytes} {event : E} (hsealed : Store.Sealed pf password bytes event) :
    Store.Logs pf password
      { store with
        events := store.events.insert (eventKey (UInt64.ofNat log.length)) bytes
        eventCounter := UInt64.ofNat log.length }
      (log ++ [event]) := by
  refine ⟨h.keyBox, h.holds.insert hsealed hbound, ?_⟩
  show (UInt64.ofNat log.length).toNat = (log ++ [event]).length - 1
  rw [HoldsEvents.toNat_ofNat hbound, List.length_append, List.length_singleton]
  omega

/-- A light event takes the place of the last one, also when there is none. -/
theorem replaced (h : store.Logs pf password log) (hbound : log.length < 2 ^ 64)
    {bytes : Bytes} {event : E} (hsealed : Store.Sealed pf password bytes event) :
    Store.Logs pf password
      { store with
        events := store.events.insert (eventKey store.eventCounter) bytes }
      (log.dropLast ++ [event]) := by
  refine ⟨h.keyBox, ?_, ?_⟩
  · show HoldsEvents pf password
      (store.events.insert (eventKey store.eventCounter) bytes) _
    rw [← UInt64.ofNat_toNat (x := store.eventCounter), h.counter]
    by_cases hempty : log = []
    · subst hempty
      exact h.holds.insert hsealed hbound
    · exact h.holds.replaceLast hempty hsealed
  · show store.eventCounter.toNat = (log.dropLast ++ [event]).length - 1
    rw [h.counter, List.length_append, List.length_dropLast,
      List.length_singleton]
    omega

/-- Every command but a `Purge` does to the store what its reply does to the
log. -/
theorem effect (hpf : pf.Inverts) (h : store.Logs pf password log)
    (henv : env.EventsReadable) (hbound : log.length < 2 ^ 64)
    {command : StoreCommand P E}
    {answer : Except (Failure ActorError) (StoreResponse P E)} {store' : Store}
    (hcommand : command ≠ .purge)
    (heffect : store.LogEffect pf env command answer store') :
    store'.Logs pf password (Reply.logged log (.answered command answer)) := by
  cases heffect with
  | kept _ _ _ hsame hanswer =>
      rw [Reply.logged_of_ne hanswer]
      exact h.sameLog hsame
  | reread _ _ key data n hlast hkey hsame hanswer =>
      rw [Reply.logged_of_ne hanswer]
      -- the last key holds the counter, so nothing changes
      rw [Store.last_of_fault henv.eventsLast store] at hlast
      have hne : log ≠ [] := by
        rintro rfl
        rw [h.holds.last_none] at hlast
        contradiction
      obtain ⟨data', event, hlast', -⟩ := h.last_some hne
      rw [hlast] at hlast'
      cases hlast'
      rw [parseU64_eventKey] at hkey
      cases hkey
      exact h.sameLog hsame
  | appended event bytes next hseal hnext hput =>
      have hsealed := Store.sealed_of_sealEvent hpf hseal
      rw [h.keyBox] at hsealed
      have hvalue := h.next henv hbound hnext
      subst hvalue
      exact h.appended hbound hsealed
  | replaced event state bytes _ hseal hput hsame =>
      have hsealed := Store.sealed_of_sealEvent hpf hseal
      rw [h.keyBox] at hsealed
      exact (h.replaced hbound hsealed).sameLog hsame
  | cleared => exact absurd rfl hcommand

end Store.Logs

/-! ### Along a run -/

theorem Session.Logs.tables {session : Session}
    (h : session.Logs pf password log) :
    HoldsEvents pf password session.tables.events log := by
  cases session with
  | closed tables => exact h
  | opened store => exact Store.Logs.holds h

/-- A store that is created counts to the last event of its tables. -/
theorem Store.logs_of_new (henv : env.EventsReadable) {tables : Tables}
    (hholds : HoldsEvents pf password tables.events log)
    (hbound : log.length < 2 ^ 64)
    (hnew : Store.new env tables password = .ok store) :
    store.Logs pf password log := by
  obtain ⟨htables, hkey⟩ := Store.new_spec hnew
  have hcounter : store.eventCounter = lastNumber tables.events := by
    unfold Store.new at hnew
    rw [henv.eventsLast] at hnew
    split at hnew
    · contradiction
    · split at hnew
      · contradiction
      · split at hnew
        · contradiction
        · cases hnew
          rfl
  refine ⟨hkey, htables ▸ hholds, ?_⟩
  rw [hcounter]
  exact hholds.lastNumber_eq hbound

/-- A request of a run that keeps its log: events can be read, and nothing is
purged. -/
def Request.KeepsLog (request : Request P E) : Prop :=
  request.env.EventsReadable ∧ request.action ≠ .command .purge

/-- Every request does to the session what its replies do to the log. -/
theorem Session.Logs.step (hpf : pf.Inverts) {session session' : Session}
    {request : Request P E} {replies : List (Reply P E)}
    (hkeeps : request.KeepsLog) (h : session.Logs pf password log)
    (hbound : log.length < 2 ^ 64)
    (hstep : session.step pf password request = some (session', replies)) :
    session'.Logs pf password (replies.foldl Reply.logged log) := by
  obtain ⟨env, action⟩ := request
  cases action with
  | reopen =>
      simp only [Session.step] at hstep
      split at hstep
      · cases hstep
        exact h.tables
      · cases hstep
        exact Store.logs_of_new hkeeps.1 h.tables hbound ‹_›
  | command command =>
      obtain ⟨store, rfl, rfl, rfl⟩ := Session.step_command_eq_some hstep
      have hcommand : command ≠ .purge := by
        rintro rfl
        exact hkeeps.2 rfl
      have hlogs := Store.Logs.effect hpf h hkeeps.1 hbound hcommand
        (Store.handleMessage_effect pf env store command)
      unfold Session.after
      split
      · exact hlogs.holds
      · exact hlogs

theorem Session.logs_empty (pf : Platform P E) (password : Option Key) :
    Session.empty.Logs pf password [] :=
  HoldsEvents.empty pf password

/-- A run without `Purge` from empty tables, in which events can be read and
fewer than `2^64` are stored, ends with the log of its replies. -/
theorem Session.logs_of_execute (hpf : pf.Inverts)
    {requests : List (Request P E)} {session : Session}
    {replies : List (Reply P E)}
    (hkeeps : ∀ request ∈ requests, request.KeepsLog)
    (hrun : execute (Session.step pf password) .empty requests =
      some (session, replies))
    (hcount : persistedCount replies < 2 ^ 64) :
    session.Logs pf password (eventLog replies) := by
  have hrunInv := execute_history
    (G := fun _ (request : Request P E) => request.KeepsLog)
    (P := fun (session : Session) (seen : List (Reply P E)) =>
      persistedCount seen < 2 ^ 64 →
        session.Logs pf password (eventLog seen))
    (by
      intro session seen request session' replies h hkeeps hstep hcount
      rw [persistedCount_append] at hcount
      have hlength := length_eventLog_le seen
      have hnext := (h (by omega)).step hpf hkeeps (by omega) hstep
      unfold eventLog
      rw [List.foldl_append]
      exact hnext)
    [] (fun _ => Session.logs_empty pf password)
    (stepsMeet_of_forall (fun request hmem _ => hkeeps request hmem) _) hrun
  exact hrunInv hcount

end Store

end Persistence
end Rush
