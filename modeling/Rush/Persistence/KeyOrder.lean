import Rush.Database.ByteOrdered
import Rush.Persistence.StartStore
import Rush.Persistence.UnreadableEvent

/-!
# Event keys order like event numbers

The databases order their keys by bytes, and the store looks for its last event
at the end of that order.  Numerals of twenty digits are ordered by bytes as
their values are, up to `u64::MAX`, so the last key is the one of the greatest
number.  Only the store writes the table of its events; nothing is assumed here
of its counters, of what its calls answer or of the order of its commands.
-/

namespace Rush
namespace Persistence

open Foundation Database Actor

/-- What the keys of two numbers say of them. -/
structure KeyLaw (i j : UInt64) : Prop where
  length : (eventKey i).length = 20
  digits : ∀ c ∈ eventKey i, c.isDigit
  ordered : i < j ↔
    compare (utf8Bytes (eventKey i)) (utf8Bytes (eventKey j)) = .lt
  parsed : parseU64 (eventKey i) = .ok i

theorem keyLaw (i j : UInt64) : KeyLaw i j where
  length := length_eventKey i
  digits := fun _ hc => isDigit_of_mem_zeroPadded hc
  ordered := by
    rw [compare_utf8Bytes, compare_eventKey, Nat.compare_eq_lt,
      UInt64.lt_iff_toNat_lt]
  parsed := parseU64_eventKey i

section Written

variable {P E : Type} {pf : Platform P E} {table : Table}

/-- The event tables that commands leave behind.  The commands may be those of
several stores, one after the other or in turn, and a purge that goes key by key
may be cut short. -/
inductive WrittenByStore (pf : Platform P E) : Table → Prop
  | created : WrittenByStore pf ∅
  | handled {store : Store} (env : Env) (command : StoreCommand P E)
      (hevents : WrittenByStore pf store.events) :
      WrittenByStore pf (store.handleMessage pf env command).2.events
  | partlyPurged {table rest : Table} (hevents : WrittenByStore pf table)
      (hkept : Kept rest table) : WrittenByStore pf rest

/-- Every key is the one of an event number. -/
def EventKeyed (table : Table) : Prop := ∀ key ∈ table, ∃ n, key = eventKey n

theorem EventKeyed.empty : EventKeyed ∅ :=
  fun _ hkey => absurd hkey Std.ExtTreeMap.not_mem_empty

theorem EventKeyed.insert (h : EventKeyed table) (n : UInt64) (data : Bytes) :
    EventKeyed (table.insert (eventKey n) data) := by
  intro key hkey
  rw [Std.ExtTreeMap.mem_insert, Std.LawfulEqOrd.compare_eq_iff_eq] at hkey
  rcases hkey with rfl | hkey
  · exact ⟨n, rfl⟩
  · exact h key hkey

/-- No command writes under another key, whatever it answers. -/
theorem EventKeyed.handleMessage {store : Store} (h : EventKeyed store.events)
    (env : Env) (command : StoreCommand P E) :
    EventKeyed (store.handleMessage pf env command).2.events := by
  have heffect := Store.handleMessage_effect pf env store command
  generalize store.handleMessage pf env command = outcome at heffect
  obtain ⟨answer, store'⟩ := outcome
  cases heffect with
  | kept _ _ _ hsame =>
      rw [hsame.events]
      exact h
  | reread _ _ _ _ _ _ _ hsame =>
      rw [hsame.events]
      exact h
  | appended event bytes next => exact h.insert next bytes
  | replaced event state bytes _ _ _ hsame =>
      rw [hsame.events]
      exact h.insert store.eventCounter bytes
  | cleared _ _ _ hsame =>
      rw [hsame.events]
      exact .empty

theorem WrittenByStore.eventKeyed (h : WrittenByStore pf table) :
    EventKeyed table := by
  induction h with
  | created => exact .empty
  | handled env command _ ih => exact ih.handleMessage env command
  | partlyPurged _ hkept ih =>
      intro key hkey
      obtain ⟨data, hdata⟩ := mem_iff_exists_getElem?.mp hkey
      exact ih key (mem_iff_exists_getElem?.mpr ⟨data, hkept key data hdata⟩)

/-- One request of a session, which may reopen the store with any password. -/
theorem Session.written_step {session session' : Session}
    {password : Option Key} {request : Request P E} {replies : List (Reply P E)}
    (h : WrittenByStore pf session.tables.events)
    (hstep : session.step pf password request = some (session', replies)) :
    WrittenByStore pf session'.tables.events := by
  obtain ⟨env, action⟩ := request
  cases action with
  | reopen =>
      simp only [Session.step] at hstep
      split at hstep
      case h_1 =>
        cases hstep
        exact h
      case h_2 store hnew =>
        cases hstep
        show WrittenByStore pf store.toTables.events
        rw [(Store.new_spec hnew).1]
        exact h
  | command command =>
      obtain ⟨store, rfl, rfl, -⟩ := Session.step_command_eq_some hstep
      rw [Session.tables_after]
      exact .handled env command h

/-- The tables of a session on a new database are among them. -/
theorem Session.written_of_execute {session : Session}
    {requests : List (Option Key × Request P E)} {replies : List (Reply P E)}
    (hrun : execute
      (fun session request => Session.step pf request.1 session request.2)
      .empty requests = some (session, replies)) :
    WrittenByStore pf session.tables.events :=
  execute_invariant (I := fun session => WrittenByStore pf session.tables.events)
    (fun _ _ _ _ h hstep => Session.written_step h hstep) .created hrun

end Written

section Counters

variable {P E : Type} {pf : Platform P E} {table : Table}

/-- The last entry of the event table is the event `n`, which has the greatest
number, and both readers of the last key make `n` of it. -/
structure LastIsGreatest (pf : Platform P E) (table : Table) (n : UInt64)
    (data : Bytes) : Prop where
  keys : EventKeyed table
  largest : IsLargest table n
  stored : table[eventKey n]? = some data
  last : ∀ entries iter, ByteOrdered table entries iter →
    Collection.last iter = .ok (some (eventKey n, data))
  created : ∀ env tables password store, tables.events = table →
    Store.new env tables password = .ok store →
    env.fault .eventsLast = none → store.eventCounter = n
  recovered : ∀ (env : Env) (store : Store) s c, store.events = table →
    store.getState pf env = .ok (some (s, c)) →
    env.fault .eventsLast = none → (store.recover pf env).2.eventCounter = n

/-- The last entry of a table under event keys. -/
theorem EventKeyed.exists_last (h : EventKeyed table) (hne : table ≠ ∅) :
    ∃ data, table.last? = some (eventKey (lastNumber table), data) ∧
      table[eventKey (lastNumber table)]? = some data := by
  cases hlast : table.last? with
  | none => exact absurd (Table.last?_eq_none_iff.mp hlast) hne
  | some entry =>
      obtain ⟨key, data⟩ := entry
      have hdata := (Table.last?_eq_some_iff.mp hlast).1
      obtain ⟨n, rfl⟩ := h key (mem_iff_exists_getElem?.mpr ⟨data, hdata⟩)
      have hn : lastNumber table = n := by
        simp only [lastNumber, hlast, parseU64_eventKey]
      rw [hn]
      exact ⟨data, rfl, hdata⟩

/-- Its number is the greatest one, and is what the two readers parse. -/
theorem EventKeyed.lastIsGreatest (h : EventKeyed table) (hne : table ≠ ∅) :
    ∃ n data, LastIsGreatest pf table n data := by
  obtain ⟨data, hlast, hstored⟩ := h.exists_last hne
  have hmem := mem_iff_exists_getElem?.mpr ⟨data, hstored⟩
  refine ⟨lastNumber table, data, h, ⟨hmem, numbersUpTo_lastNumber h⟩, hstored,
    ?_, ?_, ?_⟩
  · intro entries iter hiter
    rw [hiter.collectionLast, hlast]
  · rintro env tables password store rfl hnew hread
    exact Store.new_eventCounter hread hnew
  · rintro env store s c rfl hstate hread
    have hlast' := (Store.last_of_fault hread store).trans hlast
    rw [Store.recover_eventCounter]
    simp only [Store.recoveredCounter, hstate, hlast', parseU64_eventKey]

/-- **Event keys order like event numbers.**  A key has twenty digits, is
smaller by bytes than another one just when its number is smaller, and is parsed
back to its number.  So in every table that stores have written and that is not
empty, the last entry of a collection ordered by bytes is the event with the
greatest number, and `Store::new` and `recover` count from that number. -/
theorem eventKeys_order_as_numbers (pf : Platform P E) :
    (∀ i j, KeyLaw i j) ∧
      ∀ table, WrittenByStore pf table → table ≠ ∅ →
        ∃ n data, LastIsGreatest pf table n data :=
  ⟨keyLaw, fun _ hwritten hne => hwritten.eventKeyed.lastIsGreatest hne⟩

end Counters

namespace CounterActor

/-- A store without events whose counter has come to 8 before a purge. -/
def purgedAtEight : Store :=
  { tables [] none with eventCounter := 8, stateCounter := 0, keyBox := none }

/-- The events 5 and 6, under the numbers 9 and 10. -/
def nineAndTen : Table :=
  (((purgedAtEight.handleMessage platform env (.persist 5)).2).handleMessage
    platform env (.persist 6)).2.events

/-- `eventKeys_order_as_numbers` where the numbers change their length. -/
theorem nineAndTen_order :
    KeyLaw 9 10 ∧ LastIsGreatest platform nineAndTen 10 [6] := by
  obtain ⟨hkeys, htables⟩ := eventKeys_order_as_numbers platform
  have hwritten : WrittenByStore platform nineAndTen :=
    .handled env _ (.handled env _ .created)
  have hlast : Collection.last nineAndTen.iter =
      .ok (some (eventKey 10, [6])) := by decide +kernel
  have hne : nineAndTen ≠ ∅ := by
    intro hempty
    rw [hempty] at hlast
    exact absurd hlast (by decide +kernel)
  obtain ⟨n, data, hgreatest⟩ := htables nineAndTen hwritten hne
  have hentry := hgreatest.last _ _ nineAndTen.byteOrdered
  rw [hlast] at hentry
  obtain ⟨hkey, rfl⟩ := Prod.mk.inj (Option.some.inj (Except.ok.inj hentry))
  obtain rfl := eventKey_inj.mp hkey
  exact ⟨hkeys 9 10, hgreatest⟩

end CounterActor

end Persistence
end Rush
