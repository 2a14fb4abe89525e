import Rush.Persistence.AbstractLog
import Rush.Persistence.CounterActor
import Mathlib.Data.List.Forall2

/-!
# Range queries of events

`GetEvents` and `LastEventsFrom` run the loop of `events` over an inclusive
range of numbers.  The loop ends at the first number that is missing, so its
answer is exact where the table holds all numbers below some bound.  On the log
of `AbstractLog` a query is a slice.
-/

namespace Rush
namespace Persistence

open Foundation Database Actor

section Slice

variable {α : Type*} {l : List α}

/-- The elements at the positions from `start` on and below `stop`. -/
def slice (l : List α) (start stop : Nat) : List α := (l.take stop).drop start

theorem length_slice (start stop : Nat) :
    (slice l start stop).length = min stop l.length - start := by
  rw [slice, List.length_drop, List.length_take]

theorem getElem?_slice {start stop k : Nat} (hk : start + k < stop) :
    (slice l start stop)[k]? = l[start + k]? := by
  rw [slice, List.getElem?_drop, List.getElem?_take_of_lt hk]

theorem slice_eq_nil {start stop : Nat}
    (h : stop ≤ start ∨ l.length ≤ start) : slice l start stop = [] := by
  apply List.length_eq_zero_iff.mp
  rw [length_slice]
  omega

/-- Two slices that meet are one. -/
theorem slice_append {start middle stop : Nat} (hstart : start ≤ middle)
    (hstop : middle ≤ stop) :
    slice l start middle ++ slice l middle stop = slice l start stop := by
  have hsplit : l.take middle ++ (l.take stop).drop middle = l.take stop := by
    have htake : l.take middle = (l.take stop).take middle := by
      rw [List.take_take, Nat.min_eq_left hstop]
    rw [htake, List.take_append_drop]
  have hrest : ((l.take stop).drop middle).drop (start - (l.take middle).length) =
      slice l middle stop := by
    by_cases hshort : start ≤ (l.take middle).length
    · rw [Nat.sub_eq_zero_of_le hshort, List.drop_zero, slice]
    · rw [List.length_take] at hshort
      have hnil : slice l middle stop = [] := slice_eq_nil (by omega)
      rw [← slice, hnil, List.drop_nil]
  calc slice l start middle ++ slice l middle stop
      = (l.take middle ++ (l.take stop).drop middle).drop start := by
        rw [List.drop_append, hrest, slice]
    _ = slice l start stop := by rw [hsplit, slice]

end Slice

section Range

variable {P E : Type} {pf : Platform P E} {password : Option Key} {table : Table}
  {log : List E}

/-- The event is stored under the number. -/
def StoredAs (pf : Platform P E) (password : Option Key) (table : Table)
    (n : UInt64) (event : E) : Prop :=
  ∃ data, table[eventKey n]? = some data ∧ Store.Sealed pf password data event

/-- The stored numbers of an inclusive range, in increasing order. -/
structure IsRange (table : Table) (start stop : UInt64) (numbers : List UInt64) :
    Prop where
  increasing : numbers.Pairwise (· < ·)
  mem : ∀ n, n ∈ numbers ↔ eventKey n ∈ table ∧ start ≤ n ∧ n ≤ stop

/-- The stored events of an inclusive range, in the order of their numbers. -/
def HoldsRange (pf : Platform P E) (password : Option Key) (table : Table)
    (start stop : UInt64) (events : List E) : Prop :=
  ∃ numbers, IsRange table start stop numbers ∧
    List.Forall₂ (StoredAs pf password table) numbers events

namespace HoldsEvents

theorem mem_eventKey_iff (h : HoldsEvents pf password table log) {n : UInt64} :
    eventKey n ∈ table ↔ n.toNat < log.length := by
  constructor
  · intro hmem
    obtain ⟨i, hi, hkey⟩ := h.keys _ hmem
    have hbound := h.bounded
    rw [eventKey_inj.mp hkey, toNat_ofNat (by omega)]
    exact hi
  · intro hn
    obtain ⟨data, hdata, -⟩ :=
      h.lookup n.toNat _ (List.getElem?_eq_getElem hn)
    rw [UInt64.ofNat_toNat] at hdata
    exact mem_iff_exists_getElem?.mpr ⟨data, hdata⟩

/-- The numbers of a slice of the log. -/
theorem isRange (h : HoldsEvents pf password table log) (start stop : UInt64) :
    IsRange table start stop
      ((List.range' start.toNat
        (min (stop.toNat + 1) log.length - start.toNat)).map UInt64.ofNat) := by
  have hbound := h.bounded
  constructor
  · rw [List.pairwise_map]
    refine List.Pairwise.imp_of_mem ?_ (List.pairwise_lt_range' (s := start.toNat))
    intro a b ha hb hlt
    obtain ⟨hle, ha⟩ := List.mem_range'_1.mp ha
    obtain ⟨hle', hb⟩ := List.mem_range'_1.mp hb
    rw [UInt64.lt_iff_toNat_lt, toNat_ofNat (by omega), toNat_ofNat (by omega)]
    exact hlt
  · intro n
    rw [h.mem_eventKey_iff, List.mem_map, UInt64.le_iff_toNat_le,
      UInt64.le_iff_toNat_le]
    constructor
    · rintro ⟨a, ha, rfl⟩
      obtain ⟨hle, hlt⟩ := List.mem_range'_1.mp ha
      rw [toNat_ofNat (by omega)]
      omega
    · intro hn
      refine ⟨n.toNat, List.mem_range'_1.mpr (by omega), UInt64.ofNat_toNat⟩

/-- The slice of the log between the bounds is the stored range. -/
theorem holdsRange (h : HoldsEvents pf password table log) (start stop : UInt64) :
    HoldsRange pf password table start stop
      (slice log start.toNat (stop.toNat + 1)) := by
  refine ⟨_, h.isRange start stop, List.forall₂_iff_get.mpr ⟨?_, ?_⟩⟩
  · rw [List.length_map, List.length_range', length_slice]
  · intro k hk hk'
    obtain ⟨event, hevent⟩ : ∃ event,
        (slice log start.toNat (stop.toNat + 1))[k]? = some event :=
      ⟨_, List.getElem?_eq_getElem hk'⟩
    have hget : (slice log start.toNat (stop.toNat + 1)).get ⟨k, hk'⟩ = event := by
      rw [List.getElem?_eq_getElem hk'] at hevent
      exact Option.some.inj hevent
    rw [length_slice] at hk'
    rw [getElem?_slice (by omega)] at hevent
    rw [hget, List.get_eq_getElem, List.getElem_map, List.getElem_range',
      Nat.one_mul]
    exact h.lookup (start.toNat + k) event hevent

end HoldsEvents

end Range

section Query

variable {P E : Type} {pf : Platform P E} {env : Env} {store : Store}
  {password : Option Key} {log : List E}

namespace Store

variable (pf env store)

/-- The numbers that the loop of `events` gets from the table. -/
def numbersGot : Nat → UInt64 → List UInt64
  | 0, _ => []
  | count + 1, i =>
      i ::
        match store.getEvent env i with
        | .error _ => []
        | .ok data =>
            match store.openEvent pf env (.event i) data with
            | .error _ => []
            | .ok _ => numbersGot count (i + 1)

variable {pf env store}

/-- The loop ends at the latest with the first number that is missing. -/
theorem length_numbersGot_le {count : Nat} {i : UInt64} {events : List E}
    (h : store.eventsFrom pf env count i = .ok events) :
    (store.numbersGot pf env count i).length ≤ events.length + 1 := by
  induction count generalizing i events with
  | zero => exact Nat.zero_le _
  | succ count ih =>
      unfold numbersGot
      rcases readable_cases pf env store i with
        hunread | ⟨e, herror⟩ | ⟨event, data, hget, hopen⟩
      · cases hget : store.getEvent env i with
        | error e => simp
        | ok data => exact absurd ⟨data, hget⟩ hunread
      · rw [eventsFrom_of_opens_error herror] at h
        contradiction
      · rw [eventsFrom_of_opens_ok ⟨data, hget, hopen⟩] at h
        cases hrest : store.eventsFrom pf env count (i + 1) with
        | error e => simp [hrest, Except.map] at h
        | ok rest =>
            have hle := ih hrest
            simp only [hrest, Except.map, Except.ok.injEq] at h
            subst h
            simp only [hget, hopen, List.length_cons]
            omega

/-- The loop looks at these numbers and at no others: it ends alike over every
store that reads them alike. -/
theorem eventsFrom_congr {env' : Env} {store' : Store} {count : Nat} {i : UInt64}
    (hread : ∀ j ∈ store.numbersGot pf env count i,
      store'.getEvent env' j = store.getEvent env j ∧
        ∀ data, store'.openEvent pf env' (.event j) data =
          store.openEvent pf env (.event j) data) :
    store'.eventsFrom pf env' count i = store.eventsFrom pf env count i := by
  induction count generalizing i with
  | zero => rfl
  | succ count ih =>
      unfold numbersGot at hread
      obtain ⟨⟨hget, hopen⟩, hrest⟩ := List.forall_mem_cons.mp hread
      unfold eventsFrom
      rw [hget]
      cases hdata : store.getEvent env i with
      | error e => rfl
      | ok data =>
          simp only [hopen]
          cases hevent : store.openEvent pf env (.event i) data with
          | error e => rfl
          | ok event =>
              -- the loop goes on, and so do the numbers got
              simp only [hdata, hevent] at hrest
              rw [ih hrest]

/-- `GetEvents` depends on the numbers got only. -/
theorem getEvents_congr {env' : Env} {store' : Store} {start stop : UInt64}
    (hread : ∀ j ∈ store.numbersGot pf env (stop.toNat + 1 - start.toNat) start,
      store'.getEvent env' j = store.getEvent env j ∧
        ∀ data, store'.openEvent pf env' (.event j) data =
          store.openEvent pf env (.event j) data) :
    (store'.handleMessage pf env' (.getEvents start stop)).1 =
      (store.handleMessage pf env (.getEvents start stop)).1 := by
  simp only [handleMessage, eventsIn, eventsFrom_congr hread]

end Store

/-- A readable table that holds the log answers a slice of it. -/
theorem Store.Logs.loaded (h : store.Logs pf password log)
    (henv : env.EventsReadable) (start stop : UInt64) :
    store.Loaded pf env start stop (slice log start.toNat (stop.toNat + 1)) := by
  have hlength := length_slice (l := log) start.toNat (stop.toNat + 1)
  have hstop : stop.toNat < 2 ^ 64 := stop.toNat_lt
  refine ⟨Store.EventsAt.of_get fun k event hk => ?_, by omega, fun hlt => ?_⟩
  · have hkl : k < (slice log start.toNat (stop.toNat + 1)).length :=
      (List.getElem?_eq_some_iff.mp hk).1
    rw [getElem?_slice (by omega)] at hk
    obtain ⟨data, hdata, hsealed⟩ := h.holds.lookup _ event hk
    rw [UInt64.ofNat_add, UInt64.ofNat_toNat] at hdata
    refine ⟨data, ?_, Store.openEvent_of_unlock (henv.unlockEvent _)
      (h.keyBox ▸ hsealed)⟩
    simp [Store.getEvent, henv.eventsGet, Table.get, hdata]
  · -- the number after the slice is past the log
    rintro ⟨data, hdata⟩
    have hmem : eventKey (start + UInt64.ofNat
        (slice log start.toNat (stop.toNat + 1)).length) ∈ store.events := by
      unfold Store.getEvent Table.get at hdata
      rw [henv.eventsGet] at hdata
      refine mem_iff_exists_getElem?.mpr ?_
      split at hdata
      · contradiction
      · split at hdata
        · exact ⟨_, ‹_›⟩
        · contradiction
    rw [h.holds.mem_eventKey_iff, Store.toNat_add_ofNat (by omega)] at hmem
    omega

theorem Store.Logs.eventsIn_eq (h : store.Logs pf password log)
    (henv : env.EventsReadable) (start stop : UInt64) :
    store.eventsIn pf env start stop =
      .ok (slice log start.toNat (stop.toNat + 1)) :=
  Store.eventsFrom_eq_ok_iff.mpr (h.loaded henv start stop)

theorem Store.Logs.getEvents_eq (h : store.Logs pf password log)
    (henv : env.EventsReadable) (start stop : UInt64) :
    (store.handleMessage pf env (.getEvents start stop)).1 =
      .ok (.events (slice log start.toNat (stop.toNat + 1))) := by
  simp only [Store.handleMessage, h.eventsIn_eq henv, respondEvents]

/-- What the range queries of a store promise, as long as events can be read. -/
structure RangeQueriesExact (pf : Platform P E) (store : Store) : Prop where
  /-- The answer is the stored range, after at most one number too many. -/
  range : ∀ (env : Env) (start stop : UInt64), env.EventsReadable →
    ∃ events,
      (store.handleMessage pf env (.getEvents start stop)).1 =
        .ok (.events events) ∧
      HoldsRange pf store.keyBox store.events start stop events ∧
      (store.numbersGot pf env (stop.toNat + 1 - start.toNat) start).length ≤
        events.length + 1
  /-- Reversed bounds, or a start past the last number. -/
  empty : ∀ (env : Env) (start stop : UInt64), env.EventsReadable →
    (stop < start ∨ ∀ n, eventKey n ∈ store.events → n < start) →
    (store.handleMessage pf env (.getEvents start stop)).1 = .ok (.events [])
  /-- `LastEventsFrom` is `GetEvents` up to what `LastEventNumber` answers. -/
  lastEventsFrom : ∀ (env env' env'' : Env) (start n : UInt64),
    env.EventsReadable → env'.EventsReadable →
    (store.handleMessage pf env'' .lastEventNumber).1 =
      .ok (.lastEventNumber n) →
    (store.handleMessage pf env (.lastEventsFrom start)).1 =
      (store.handleMessage pf env' (.getEvents start n)).1
  /-- A range splits at every number of it. -/
  split : ∀ (env : Env) (a b c : UInt64), env.EventsReadable → a ≤ b → b < c →
    ∃ before after,
      (store.handleMessage pf env (.getEvents a b)).1 = .ok (.events before) ∧
      (store.handleMessage pf env (.getEvents (b + 1) c)).1 =
        .ok (.events after) ∧
      (store.handleMessage pf env (.getEvents a c)).1 =
        .ok (.events (before ++ after))

/-- A store that holds a log answers every range query with a slice of it. -/
theorem Store.Logs.rangeQueriesExact (h : store.Logs pf password log) :
    RangeQueriesExact pf store where
  range := by
    intro env start stop henv
    refine ⟨_, h.getEvents_eq henv start stop, ?_,
      Store.length_numbersGot_le (h.eventsIn_eq henv start stop)⟩
    rw [h.keyBox]
    exact h.holds.holdsRange start stop
  empty := by
    intro env start stop henv hempty
    rw [h.getEvents_eq henv]
    have hnil : slice log start.toNat (stop.toNat + 1) = [] := by
      apply slice_eq_nil
      rcases hempty with hlt | hpast
      · rw [UInt64.lt_iff_toNat_lt] at hlt
        omega
      · -- were there a number from `start` on, `start` would be stored
        by_contra hbelow
        have hmem : eventKey start ∈ store.events :=
          h.holds.mem_eventKey_iff.mpr (by omega)
        have hlt := UInt64.lt_iff_toNat_lt.mp (hpast start hmem)
        omega
    rw [hnil]
  lastEventsFrom := by
    intro env env' env'' start n henv henv' hnumber
    simp only [Store.handleMessage, Except.ok.injEq,
      StoreResponse.lastEventNumber.injEq] at hnumber
    subst hnumber
    rw [h.getEvents_eq henv']
    simp only [Store.handleMessage, h.eventsIn_eq henv, respondEvents]
  split := by
    intro env a b c henv hab hbc
    rw [UInt64.le_iff_toNat_le] at hab
    rw [UInt64.lt_iff_toNat_lt] at hbc
    have hc : c.toNat < 2 ^ 64 := c.toNat_lt
    have hsucc : (b + 1).toNat = b.toNat + 1 :=
      Store.toNat_add_ofNat (k := 1) (by omega)
    refine ⟨_, _, h.getEvents_eq henv a b, h.getEvents_eq henv (b + 1) c, ?_⟩
    rw [h.getEvents_eq henv, hsucc, slice_append (by omega) (by omega)]

/-- **Range queries.**  After every run without `Purge` from empty tables, in
which events can be read and fewer than `2^64` are stored, the table of the
store holds the log of the run, and the range queries are exact. -/
theorem eventRange_exact (pf : Platform P E) (hpf : pf.Inverts)
    (password : Option Key) (requests : List (Request P E)) (store : Store)
    (replies : List (Reply P E))
    (hkeeps : ∀ request ∈ requests, request.KeepsLog)
    (hrun : execute (Session.step pf password) .empty requests =
      some (.opened store, replies))
    (hcount : persistedCount replies < 2 ^ 64) :
    HoldsEvents pf password store.events (eventLog replies) ∧
      RangeQueriesExact pf store := by
  have hlogs : store.Logs pf password (eventLog replies) :=
    Session.logs_of_execute hpf hkeeps hrun hcount
  exact ⟨hlogs.holds, hlogs.rangeQueriesExact⟩

end Query

namespace CounterActor

/-- Two events are stored, a light one replaces the second, and the store is
reopened: the log is `[1, 3]`, and the queries on it are exact. -/
theorem eventRange_exact_reopened :
    ∃ (store : Store) (replies : List (Reply UInt8 UInt8)),
      execute (Session.step platform (some password)) .empty
          [⟨env, .reopen⟩, ⟨env, .command (.persist 1)⟩,
            ⟨env, .command (.persist 2)⟩, ⟨env, .command (.persistLight 3 4)⟩,
            ⟨env, .reopen⟩] = some (.opened store, replies) ∧
        eventLog replies = [1, 3] ∧
        RangeQueriesExact platform store := by
  have hkeeps : ∀ action : Action UInt8 UInt8, action ≠ .command .purge →
      Request.KeepsLog ⟨env, action⟩ := fun action haction =>
    ⟨env_healthy.onlyWritesFail.eventsReadable, haction⟩
  refine ⟨_, _, rfl, rfl, ?_⟩
  refine (eventRange_exact platform platform_roundTrips.inverts (some password)
    [⟨env, .reopen⟩, ⟨env, .command (.persist 1)⟩,
      ⟨env, .command (.persist 2)⟩, ⟨env, .command (.persistLight 3 4)⟩,
      ⟨env, .reopen⟩] _ _ ?_ rfl (by decide)).2
  intro request hmem
  simp only [List.mem_cons, List.not_mem_nil, or_false] at hmem
  rcases hmem with rfl | rfl | rfl | rfl | rfl <;> exact hkeeps _ (by simp)

end CounterActor

end Persistence
end Rush
