import Rush.Persistence.Store
import Mathlib.Tactic.Common

/-!
# What the store operations do

One lemma for each operation: which events a range query returns, what a
snapshot writes, and every way in which `recover` can end.
-/

namespace Rush
namespace Persistence

open Foundation Database Actor

variable {P E : Type}

theorem Platform.applyAll_append (pf : Platform P E) (s : P) (es fs : List E) :
    pf.applyAll s (es ++ fs) = (pf.applyAll s es).bind fun t =>
      pf.applyAll t fs := by
  induction es generalizing s with
  | nil => rfl
  | cons e es ih =>
      rw [List.cons_append, Platform.applyAll, Platform.applyAll]
      split
      · exact ih _
      · rfl

/-- Applying events can only fail with the error of an event. -/
theorem Platform.applyAll_ne_panic (pf : Platform P E) (s : P) (es : List E) :
    pf.applyAll s es ≠ .error .panic := by
  induction es generalizing s with
  | nil => simp [Platform.applyAll]
  | cons e es ih =>
      unfold Platform.applyAll
      split
      · exact ih _
      · simp

namespace Store

variable (pf : Platform P E) (env : Env) (store : Store)

/-- `get` answers for the event number. -/
def Readable (i : UInt64) : Prop := ∃ data, store.getEvent env i = .ok data

/-- The stored value of the event number is opened with this result. -/
def Opens (i : UInt64) (result : Except (Failure StoreError) E) : Prop :=
  ∃ data, store.getEvent env i = .ok data ∧
    store.openEvent pf env (.event i) data = result

/-- The events stored from a number on, one after the other. -/
def EventsAt : UInt64 → List E → Prop
  | _, [] => True
  | i, event :: events =>
      store.Opens pf env i (.ok event) ∧ EventsAt (i + 1) events

variable {pf env store}

theorem Opens.readable {i : UInt64} {result : Except (Failure StoreError) E}
    (h : store.Opens pf env i result) : store.Readable env i :=
  let ⟨data, hdata, _⟩ := h
  ⟨data, hdata⟩

theorem Opens.unique {i : UInt64} {r r' : Except (Failure StoreError) E}
    (h : store.Opens pf env i r) (h' : store.Opens pf env i r') : r = r' := by
  obtain ⟨data, hdata, rfl⟩ := h
  obtain ⟨data', hdata', rfl⟩ := h'
  rw [Except.ok.inj (hdata.symm.trans hdata')]

theorem add_one_add (i : UInt64) (n : Nat) :
    i + 1 + UInt64.ofNat n = i + UInt64.ofNat (n + 1) := by
  rw [UInt64.add_assoc, UInt64.add_comm 1, ← UInt64.ofNat_one,
    ← UInt64.ofNat_add]

theorem EventsAt.get {i : UInt64} {events : List E}
    (h : store.EventsAt pf env i events) {k : Nat} {event : E}
    (hk : events[k]? = some event) :
    store.Opens pf env (i + UInt64.ofNat k) (.ok event) := by
  induction events generalizing i k with
  | nil => simp at hk
  | cons first events ih =>
      cases k with
      | zero =>
          have hfirst : first = event := by simpa using hk
          subst hfirst
          simpa using h.1
      | succ k =>
          have hrest := ih h.2 (k := k) (by simpa using hk)
          rwa [add_one_add] at hrest

theorem EventsAt.of_get {i : UInt64} {events : List E}
    (h : ∀ k event, events[k]? = some event →
      store.Opens pf env (i + UInt64.ofNat k) (.ok event)) :
    store.EventsAt pf env i events := by
  induction events generalizing i with
  | nil => trivial
  | cons first events ih =>
      refine ⟨by simpa using h 0 first rfl, ih fun k event hk => ?_⟩
      rw [add_one_add]
      exact h (k + 1) event (by simpa using hk)

theorem EventsAt.unique {i : UInt64} {es fs : List E}
    (hes : store.EventsAt pf env i es) (hfs : store.EventsAt pf env i fs)
    (hlength : es.length = fs.length) : es = fs := by
  induction es generalizing i fs with
  | nil => exact (List.length_eq_zero_iff.mp hlength.symm).symm
  | cons e es ih =>
      cases fs with
      | nil => simp at hlength
      | cons f fs =>
          have hhead := Except.ok.inj (hes.1.unique hfs.1)
          have htail := ih hes.2 hfs.2 (by simpa using hlength)
          rw [hhead, htail]

theorem EventsAt.length_le {i : UInt64} {events : List E} {k : Nat}
    (h : store.EventsAt pf env i events)
    (hk : ∀ event, ¬ store.Opens pf env (i + UInt64.ofNat k) (.ok event)) :
    events.length ≤ k := by
  by_contra hlt
  have hget := List.getElem?_eq_getElem (show k < events.length by omega)
  exact hk _ (h.get hget)

/-- Every number is absent, or opened with an error, or opened. -/
theorem readable_cases (pf : Platform P E) (env : Env) (store : Store)
    (i : UInt64) :
    ¬ store.Readable env i ∨ (∃ e, store.Opens pf env i (.error e)) ∨
      ∃ event, store.Opens pf env i (.ok event) := by
  cases hget : store.getEvent env i with
  | error e =>
      refine Or.inl ?_
      rintro ⟨data, hdata⟩
      rw [hget] at hdata
      contradiction
  | ok data =>
      cases hopen : store.openEvent pf env (.event i) data with
      | error e => exact Or.inr (Or.inl ⟨e, data, hget, hopen⟩)
      | ok event => exact Or.inr (Or.inr ⟨event, data, hget, hopen⟩)

theorem eventsFrom_unreadable {count : Nat} {i : UInt64}
    (h : ¬ store.Readable env i) : store.eventsFrom pf env count i = .ok [] := by
  cases count with
  | zero => rfl
  | succ count =>
      unfold eventsFrom
      split
      · rfl
      · exact (h ⟨_, ‹_›⟩).elim

theorem eventsFrom_of_opens_error {count : Nat} {i : UInt64}
    {e : Failure StoreError} (h : store.Opens pf env i (.error e)) :
    store.eventsFrom pf env (count + 1) i = .error e := by
  obtain ⟨data, hget, hopen⟩ := h
  simp [eventsFrom, hget, hopen, bind, Except.bind]

theorem eventsFrom_of_opens_ok {count : Nat} {i : UInt64} {event : E}
    (h : store.Opens pf env i (.ok event)) :
    store.eventsFrom pf env (count + 1) i =
      (store.eventsFrom pf env count (i + 1)).map (event :: ·) := by
  obtain ⟨data, hget, hopen⟩ := h
  simp only [eventsFrom, hget, hopen, bind, Except.bind]
  cases store.eventsFrom pf env count (i + 1) <;> rfl

/-- The events stored from `i` on are the first ones that `events` reads. -/
theorem eventsFrom_append {count : Nat} {i : UInt64} {events : List E}
    (h : store.EventsAt pf env i events) :
    store.eventsFrom pf env (events.length + count) i =
      (store.eventsFrom pf env count (i + UInt64.ofNat events.length)).map
        (events ++ ·) := by
  induction events generalizing i with
  | nil =>
      have hzero : i + UInt64.ofNat 0 = i := by simp
      rw [List.length_nil, Nat.zero_add, hzero]
      cases store.eventsFrom pf env count i <;> rfl
  | cons event events ih =>
      have hcount : (event :: events).length + count =
          events.length + count + 1 := by
        simp only [List.length_cons]
        omega
      rw [hcount, eventsFrom_of_opens_ok h.1, ih h.2, add_one_add,
        List.length_cons]
      cases store.eventsFrom pf env count
        (i + UInt64.ofNat (events.length + 1)) <;> rfl

/-- `events` reads the stored events up to its last number, or up to the first
one that can't be got, or fails at the first one that can't be opened. -/
theorem eventsFrom_cases (pf : Platform P E) (env : Env) (store : Store)
    (count : Nat) (i : UInt64) :
    ∃ events, store.EventsAt pf env i events ∧ events.length ≤ count ∧
      ((events.length < count →
          ¬ store.Readable env (i + UInt64.ofNat events.length)) ∧
        store.eventsFrom pf env count i = .ok events ∨
      events.length < count ∧
        ∃ e, store.Opens pf env (i + UInt64.ofNat events.length) (.error e) ∧
          store.eventsFrom pf env count i = .error e) := by
  induction count generalizing i with
  | zero =>
      exact ⟨[], trivial, Nat.le_refl 0,
        Or.inl ⟨fun h => absurd h (Nat.lt_irrefl 0), rfl⟩⟩
  | succ count ih =>
      -- the first number decides: `events` stops, fails or goes on
      rcases readable_cases pf env store i with
        hunread | ⟨e, herror⟩ | ⟨event, hevent⟩
      · refine ⟨[], trivial, Nat.zero_le _, Or.inl ⟨fun _ => ?_, ?_⟩⟩
        · simpa using hunread
        · exact eventsFrom_unreadable hunread
      · refine ⟨[], trivial, Nat.zero_le _, Or.inr ⟨Nat.succ_pos count, e, ?_⟩⟩
        exact ⟨by simpa using herror, eventsFrom_of_opens_error herror⟩
      · obtain ⟨events, hat, hle, hend⟩ := ih (i + 1)
        rw [add_one_add] at hend
        refine ⟨event :: events, ⟨hevent, hat⟩, Nat.succ_le_succ hle, ?_⟩
        rw [eventsFrom_of_opens_ok hevent]
        rcases hend with ⟨hstop, hok⟩ | ⟨hlt, e, herror, hfail⟩
        · refine Or.inl ⟨fun hlt => hstop (Nat.lt_of_succ_lt_succ hlt), ?_⟩
          rw [hok]
          rfl
        · refine Or.inr ⟨Nat.succ_lt_succ hlt, e, herror, ?_⟩
          rw [hfail]
          rfl

/-- `events` reads `events` from `start` to `stop`: the stored ones up to the
last number or up to the first number that can't be got. -/
def Loaded (pf : Platform P E) (env : Env) (store : Store)
    (start stop : UInt64) (events : List E) : Prop :=
  store.EventsAt pf env start events ∧
    events.length ≤ stop.toNat + 1 - start.toNat ∧
    (events.length < stop.toNat + 1 - start.toNat →
      ¬ store.Readable env (start + UInt64.ofNat events.length))

/-- `events` fails from `start` to `stop` at a stored value that is opened with
the failure `e`. -/
def Unopened (pf : Platform P E) (env : Env) (store : Store)
    (start stop : UInt64) (e : Failure StoreError) : Prop :=
  ∃ events : List E, store.EventsAt pf env start events ∧
    events.length < stop.toNat + 1 - start.toNat ∧
    store.Opens pf env (start + UInt64.ofNat events.length) (.error e)

theorem eventsFrom_eq_ok_iff {start stop : UInt64} {events : List E} :
    store.eventsFrom pf env (stop.toNat + 1 - start.toNat) start = .ok events ↔
      store.Loaded pf env start stop events := by
  constructor
  · intro h
    obtain ⟨events', hat, hle, hend⟩ := eventsFrom_cases pf env store
      (stop.toNat + 1 - start.toNat) start
    rcases hend with ⟨hstop, hok⟩ | ⟨-, e, -, hfail⟩
    · rw [h] at hok
      cases hok
      exact ⟨hat, hle, hstop⟩
    · rw [h] at hfail
      contradiction
  · rintro ⟨hat, hle, hstop⟩
    obtain ⟨count, hcount⟩ : ∃ count,
        stop.toNat + 1 - start.toNat = events.length + count :=
      ⟨stop.toNat + 1 - start.toNat - events.length, by omega⟩
    rw [hcount, eventsFrom_append hat]
    cases count with
    | zero => simp [eventsFrom, Except.map]
    | succ count =>
        rw [eventsFrom_unreadable (hstop (by omega))]
        simp [Except.map]

theorem eventsFrom_eq_error_iff {start stop : UInt64}
    {e : Failure StoreError} :
    store.eventsFrom pf env (stop.toNat + 1 - start.toNat) start = .error e ↔
      store.Unopened pf env start stop e := by
  constructor
  · intro h
    obtain ⟨events, hat, hle, hend⟩ := eventsFrom_cases pf env store
      (stop.toNat + 1 - start.toNat) start
    rcases hend with ⟨-, hok⟩ | ⟨hlt, e', herror, hfail⟩
    · rw [h] at hok
      contradiction
    · rw [h] at hfail
      cases hfail
      exact ⟨events, hat, hlt, herror⟩
  · rintro ⟨events, hat, hlt, herror⟩
    obtain ⟨count, hcount⟩ : ∃ count,
        stop.toNat + 1 - start.toNat = events.length + (count + 1) :=
      ⟨stop.toNat - start.toNat - events.length, by omega⟩
    rw [hcount, eventsFrom_append hat, eventsFrom_of_opens_error herror]
    rfl

theorem last_of_fault (h : env.fault .eventsLast = none) (store : Store) :
    store.last env = store.events.last? := by
  simp [last, h]

theorem toNat_add_ofNat {i : UInt64} {k : Nat} (h : i.toNat + k < 2 ^ 64) :
    (i + UInt64.ofNat k).toNat = i.toNat + k := by
  have hk : k < 2 ^ 64 := by omega
  rw [UInt64.toNat_add, UInt64.toNat_ofNat', Nat.mod_eq_of_lt hk]
  exact Nat.mod_eq_of_lt h

theorem add_ofNat_sub {i j : UInt64} (h : i.toNat ≤ j.toNat) :
    i + UInt64.ofNat (j.toNat - i.toNat) = j := by
  have hj : j.toNat < 2 ^ 64 := j.toNat_lt
  apply UInt64.toNat_inj.mp
  rw [toNat_add_ofNat (by omega)]
  omega

/-- The numbers that a list of stored events covers are readable. -/
theorem EventsAt.readable {i j : UInt64} {events : List E}
    (h : store.EventsAt pf env i events) (hi : i.toNat ≤ j.toNat)
    (hj : j.toNat < i.toNat + events.length) : store.Readable env j := by
  have hk : j.toNat - i.toNat < events.length := by omega
  have hget := h.get (List.getElem?_eq_getElem hk)
  rw [add_ofNat_sub hi] at hget
  exact hget.readable

/-- A snapshot is sealed, or fails with an error. -/
theorem sealState_ne_panic (actor : P) (counter : UInt64) :
    store.sealState pf env actor counter ≠ .error .panic := by
  unfold sealState encrypt
  repeat' split
  all_goals simp

/-- A snapshot can't be written: it can't be sealed, or the `put` fails. -/
def WriteFails (pf : Platform P E) (env : Env) (store : Store) (actor : P)
    (counter : UInt64) : Prop :=
  (∃ e, store.sealState pf env actor counter = .error e) ∨
    (env.fault .statesPut).isSome

/-- A snapshot leaves the store with an error, or writes the sealed state. -/
theorem snapshot_cases (pf : Platform P E) (env : Env) (store : Store)
    (actor : P) :
    (store.WriteFails pf env actor store.eventCounter ∧
      ∃ e, store.snapshot pf env actor =
        (.error (.error e), { store with stateCounter := store.eventCounter })) ∨
    ∃ bytes, store.sealState pf env actor store.eventCounter = .ok bytes ∧
      env.fault .statesPut = none ∧
      store.snapshot pf env actor =
        (.ok (), { store with
          stateCounter := store.eventCounter
          states := some bytes }) := by
  have hkeep : ∀ n, sealState pf env { store with stateCounter := n } actor
      store.eventCounter = store.sealState pf env actor store.eventCounter :=
    fun _ => rfl
  cases hseal : store.sealState pf env actor store.eventCounter with
  | error e =>
      refine Or.inl ⟨Or.inl ⟨e, hseal⟩, ?_⟩
      cases e with
      | error e => exact ⟨e, by simp [snapshot, hkeep, hseal]⟩
      | panic => exact (sealState_ne_panic actor _ hseal).elim
  | ok bytes =>
      cases hput : env.fault .statesPut with
      | some e =>
          refine Or.inl ⟨Or.inr (by simp [hput]), e, ?_⟩
          simp [snapshot, hkeep, hseal, hput]
      | none =>
          refine Or.inr ⟨bytes, rfl, rfl, ?_⟩
          simp [snapshot, hkeep, hseal, hput]

/-- `recover` on a stored snapshot `(s, c)` and a last event number `n`. -/
theorem recover_eq {s : P} {c n : UInt64} {key : Str} {data : Bytes}
    (hstate : store.getState pf env = .ok (some (s, c)))
    (hlast : store.last env = some (key, data)) (hkey : parseU64 key = .ok n) :
    store.recover pf env =
      let loaded : Store :=
        { store with stateCounter := c, eventCounter := n }
      if n = c then (.ok (some s), loaded)
      else
        match loaded.replay pf env s with
        | .error e => (.error e, loaded)
        | .ok s' =>
            match loaded.snapshot pf env s' with
            | (.error e, store') => (.error e, store')
            | (.ok (), store') => (.ok (some s'), store') := by
  have hlast' : last env { store with stateCounter := c } = some (key, data) :=
    hlast
  unfold recover
  by_cases heq : n = c
  · simp [hstate, hlast', hkey, heq]
  · cases hreplay : replay pf env
        { store with stateCounter := c, eventCounter := n } s with
    | error e => simp [hstate, hlast', hkey, heq, hreplay]
    | ok s' =>
        rcases hsnapshot : snapshot pf env
            { store with stateCounter := c, eventCounter := n } s' with
          ⟨e | _, store'⟩
        · simp [hstate, hlast', hkey, heq, hreplay, hsnapshot]
        · simp [hstate, hlast', hkey, heq, hreplay, hsnapshot]

/-- `recover` sets both counters before it uses them. -/
theorem recover_counters (pf : Platform P E) (env : Env) (store : Store)
    (n c : UInt64) :
    (recover pf env { store with eventCounter := n, stateCounter := c }).1 =
        (store.recover pf env).1 ∧
      (recover pf env { store with eventCounter := n, stateCounter := c }).2.toTables =
        (store.recover pf env).2.toTables := by
  have hstate : getState pf env
      { store with eventCounter := n, stateCounter := c } =
        store.getState pf env := rfl
  have hlast : ∀ m, last env
      { store with eventCounter := n, stateCounter := m } =
        last env { store with stateCounter := m } := fun _ => rfl
  unfold recover
  simp only [hstate, hlast]
  cases store.getState pf env with
  | error e => exact ⟨rfl, rfl⟩
  | ok found =>
      cases found with
      | none => exact ⟨rfl, rfl⟩
      | some found =>
          simp only
          cases last env { store with stateCounter := found.2 } with
          | none => exact ⟨rfl, rfl⟩
          | some entry =>
              simp only
              cases parseU64 entry.1 <;> exact ⟨rfl, rfl⟩

/-- Reading events uses neither of the counters. -/
theorem eventsFrom_counters (e c : UInt64) (count : Nat) (i : UInt64) :
    eventsFrom pf env { store with stateCounter := c, eventCounter := e }
      count i = store.eventsFrom pf env count i := by
  induction count generalizing i with
  | zero => rfl
  | succ count ih =>
      unfold eventsFrom
      simp only [ih]
      rfl

/-- The replay of `recover` after a snapshot with counter `c`. -/
theorem replay_eq_bind (c n : UInt64) (s : P) :
    replay pf env { store with stateCounter := c, eventCounter := n } s =
      (pf.succ c).bind fun start =>
        (store.eventsFrom pf env (n.toNat + 1 - start.toNat) start).bind
          (pf.applyAll s) := by
  unfold replay eventsIn
  simp only [eventsFrom_counters]
  rfl

theorem replay_eq (pf : Platform P E) (env : Env) (store : Store) {c : UInt64}
    (hc : c.toNat + 1 < 2 ^ 64) (n : UInt64) (s : P) :
    replay pf env { store with stateCounter := c, eventCounter := n } s =
      (store.eventsFrom pf env (n.toNat - c.toNat) (c + 1)).bind
        (pf.applyAll s) := by
  have hsucc : (c + 1).toNat = c.toNat + 1 := toNat_add_ofNat (k := 1) hc
  have hcount : n.toNat + 1 - (c + 1).toNat = n.toNat - c.toNat := by omega
  have hstart : pf.succ c = .ok (c + 1) := if_pos hc
  rw [replay_eq_bind, hstart]
  show (store.eventsFrom pf env (n.toNat + 1 - (c + 1).toNat) (c + 1)).bind _ = _
  rw [hcount]

theorem replay_eq_ok_iff {c n : UInt64} {s s' : P} :
    replay pf env { store with stateCounter := c, eventCounter := n } s =
        .ok s' ↔
      ∃ start events, pf.succ c = .ok start ∧
        store.Loaded pf env start n events ∧ pf.applyAll s events = .ok s' := by
  rw [replay_eq_bind]
  constructor
  · intro h
    cases hstart : pf.succ c with
    | error e => simp [hstart, Except.bind] at h
    | ok start =>
        cases hevents : store.eventsFrom pf env
            (n.toNat + 1 - start.toNat) start with
        | error e => simp [hstart, hevents, Except.bind] at h
        | ok events =>
            refine ⟨start, events, rfl, eventsFrom_eq_ok_iff.mp hevents, ?_⟩
            simpa [hstart, hevents, Except.bind] using h
  · rintro ⟨start, events, hstart, hloaded, happly⟩
    simp [hstart, eventsFrom_eq_ok_iff.mpr hloaded, Except.bind, happly]

/-- A replay panics on the overflow of the snapshot counter, or on a stored
value that is too short to be decrypted. -/
theorem replay_eq_panic_iff {c n : UInt64} {s : P} :
    replay pf env { store with stateCounter := c, eventCounter := n } s =
        .error .panic ↔
      pf.succ c = .error .panic ∨
        ∃ start, pf.succ c = .ok start ∧
          store.Unopened pf env start n .panic := by
  rw [replay_eq_bind]
  cases hstart : pf.succ c with
  | error e => simp [Except.bind]
  | ok start =>
      have hiff : store.eventsFrom pf env (n.toNat + 1 - start.toNat) start =
          .error .panic ↔ store.Unopened pf env start n .panic :=
        eventsFrom_eq_error_iff
      cases hevents : store.eventsFrom pf env
          (n.toNat + 1 - start.toNat) start with
      | error e =>
          rw [hevents] at hiff
          simp [Except.bind, hevents, ← hiff]
      | ok events =>
          rw [hevents] at hiff
          simp [Except.bind, hevents, ← hiff, pf.applyAll_ne_panic s events]

/-- Every way in which `recover` can end. -/
inductive Recovery (pf : Platform P E) (env : Env) (store : Store) :
    Except (Failure StoreError) (Option P) × Store → Prop
  | unreadable (e) (hstate : store.getState pf env = .error e) :
      Recovery pf env store (.error e, store)
  | noSnapshot (hstate : store.getState pf env = .ok none) :
      Recovery pf env store (.ok none, store)
  | noEvents (s c) (hstate : store.getState pf env = .ok (some (s, c)))
      (hlast : store.last env = none) :
      Recovery pf env store (.ok (some s), { store with stateCounter := c })
  | badKey (s c key data message)
      (hstate : store.getState pf env = .ok (some (s, c)))
      (hlast : store.last env = some (key, data))
      (hkey : parseU64 key = .error message) :
      Recovery pf env store
        (.error (.error (.store ("Can't parse event key: " ++ message))),
          { store with stateCounter := c })
  | current (s c key data)
      (hstate : store.getState pf env = .ok (some (s, c)))
      (hlast : store.last env = some (key, data)) (hkey : parseU64 key = .ok c) :
      Recovery pf env store
        (.ok (some s), { store with stateCounter := c, eventCounter := c })
  | replayFails (s c key data n e)
      (hstate : store.getState pf env = .ok (some (s, c)))
      (hlast : store.last env = some (key, data)) (hkey : parseU64 key = .ok n)
      (hne : n ≠ c)
      (hreplay : replay pf env
        { store with stateCounter := c, eventCounter := n } s = .error e) :
      Recovery pf env store
        (.error e, { store with stateCounter := c, eventCounter := n })
  | writeFails (s c key data n s' e)
      (hstate : store.getState pf env = .ok (some (s, c)))
      (hlast : store.last env = some (key, data)) (hkey : parseU64 key = .ok n)
      (hne : n ≠ c)
      (hreplay : replay pf env
        { store with stateCounter := c, eventCounter := n } s = .ok s')
      (hwrite : store.WriteFails pf env s' n) :
      Recovery pf env store
        (.error (.error e), { store with stateCounter := n, eventCounter := n })
  | replayed (s c key data n s' bytes)
      (hstate : store.getState pf env = .ok (some (s, c)))
      (hlast : store.last env = some (key, data)) (hkey : parseU64 key = .ok n)
      (hne : n ≠ c)
      (hreplay : replay pf env
        { store with stateCounter := c, eventCounter := n } s = .ok s')
      (hwrite : ¬ store.WriteFails pf env s' n)
      (hseal : store.sealState pf env s' n = .ok bytes) :
      Recovery pf env store
        (.ok (some s'),
          { store with
            stateCounter := n, eventCounter := n, states := some bytes })

theorem new_spec {tables : Tables} {password : Option Key}
    (h : Store.new env tables password = .ok store) :
    store.toTables = tables ∧ store.keyBox = password := by
  unfold Store.new at h
  repeat' split at h
  all_goals first
    | contradiction
    | (cases h; exact ⟨rfl, rfl⟩)

theorem new_of_healthy (henv : env.Healthy) (tables : Tables)
    (password : Option Key) :
    ∃ store, Store.new env tables password = .ok store := by
  unfold Store.new
  cases password <;> simp [henv.1, henv.2.1]

theorem not_writeFails {actor : P} {counter : UInt64} {bytes : Bytes}
    (hseal : store.sealState pf env actor counter = .ok bytes)
    (hput : env.fault .statesPut = none) :
    ¬ store.WriteFails pf env actor counter := by
  rintro (⟨e, herror⟩ | hfault)
  · rw [hseal] at herror
    contradiction
  · rw [hput] at hfault
    contradiction

theorem recovery (pf : Platform P E) (env : Env) (store : Store) :
    Recovery pf env store (store.recover pf env) := by
  cases hstate : store.getState pf env with
  | error e =>
      have hrecover : store.recover pf env = (.error e, store) := by
        simp only [recover, hstate]
      exact hrecover ▸ Recovery.unreadable e hstate
  | ok found =>
      cases found with
      | none =>
          have hrecover : store.recover pf env = (.ok none, store) := by
            simp only [recover, hstate]
          exact hrecover ▸ Recovery.noSnapshot hstate
      | some found =>
          obtain ⟨s, c⟩ := found
          have hkeep : last env { store with stateCounter := c } =
              store.last env := rfl
          cases hlast : store.last env with
          | none =>
              have hrecover : store.recover pf env =
                  (.ok (some s), { store with stateCounter := c }) := by
                simp only [recover, hstate, hkeep, hlast]
              exact hrecover ▸ Recovery.noEvents s c hstate hlast
          | some entry =>
              obtain ⟨key, data⟩ := entry
              cases hkey : parseU64 key with
              | error message =>
                  have hrecover : store.recover pf env =
                      (.error (.error
                        (.store ("Can't parse event key: " ++ message))),
                        { store with stateCounter := c }) := by
                    simp only [recover, hstate, hkeep, hlast, hkey]
                  exact hrecover ▸
                    Recovery.badKey s c key data message hstate hlast hkey
              | ok n =>
                  have hrecover := recover_eq hstate hlast hkey
                  by_cases hne : n = c
                  · subst hne
                    simp only [if_true] at hrecover
                    exact hrecover ▸
                      Recovery.current s n key data hstate hlast hkey
                  · simp only [if_neg hne] at hrecover
                    cases hreplay : replay pf env
                        { store with stateCounter := c, eventCounter := n }
                        s with
                    | error e =>
                        simp only [hreplay] at hrecover
                        exact hrecover ▸ Recovery.replayFails s c key data n e
                          hstate hlast hkey hne hreplay
                    | ok s' =>
                        simp only [hreplay] at hrecover
                        rcases snapshot_cases pf env
                            { store with stateCounter := c, eventCounter := n }
                            s' with
                          ⟨hfails, e, hsnapshot⟩ |
                          ⟨bytes, hseal, hput, hsnapshot⟩
                        · rw [hsnapshot] at hrecover
                          exact hrecover ▸ Recovery.writeFails s c key data n s'
                            e hstate hlast hkey hne hreplay hfails
                        · rw [hsnapshot] at hrecover
                          exact hrecover ▸ Recovery.replayed s c key data n s'
                            bytes hstate hlast hkey hne hreplay
                            (not_writeFails hseal hput) hseal

/-- Every way in which `persist_state` can end. -/
inductive LightPersistence (pf : Platform P E) (env : Env) (store : Store)
    (event : E) (state : P) : Except (Failure StoreError) Unit × Store → Prop
  | unsealed (e) (hseal : store.sealEvent pf env event = .error e) :
      LightPersistence pf env store event state (.error e, store)
  | snapshotFails (bytes e) (hseal : store.sealEvent pf env event = .ok bytes)
      (hwrite : store.WriteFails pf env state store.eventCounter) :
      LightPersistence pf env store event state
        (.error (.error e), { store with stateCounter := store.eventCounter })
  | putFails (bytes data e) (hseal : store.sealEvent pf env event = .ok bytes)
      (hdata : store.sealState pf env state store.eventCounter = .ok data)
      (hwrite : env.fault .statesPut = none)
      (hput : env.fault .eventsPut = some e) :
      LightPersistence pf env store event state
        (.error (.error e),
          { store with
            stateCounter := store.eventCounter, states := some data })
  | persisted (bytes data) (hseal : store.sealEvent pf env event = .ok bytes)
      (hdata : store.sealState pf env state store.eventCounter = .ok data)
      (hwrite : env.fault .statesPut = none)
      (hput : env.fault .eventsPut = none) :
      LightPersistence pf env store event state
        (.ok (),
          { store with
            stateCounter := store.eventCounter
            states := some data
            events := store.events.insert (eventKey store.eventCounter) bytes })

theorem lightPersistence (pf : Platform P E) (env : Env) (store : Store)
    (event : E) (state : P) :
    LightPersistence pf env store event state
      (store.persistState pf env event state) := by
  unfold persistState
  cases hseal : store.sealEvent pf env event with
  | error e => exact .unsealed e hseal
  | ok bytes =>
      rcases snapshot_cases pf env store state with
        ⟨hfails, e, hsnapshot⟩ | ⟨data, hdata, hwrite, hsnapshot⟩
      · simp only [hsnapshot]
        exact .snapshotFails bytes e hseal hfails
      · simp only [hsnapshot]
        cases hput : env.fault .eventsPut with
        | some e => exact .putFails bytes data e hseal hdata hwrite hput
        | none => exact .persisted bytes data hseal hdata hwrite hput

end Store

end Persistence
end Rush
