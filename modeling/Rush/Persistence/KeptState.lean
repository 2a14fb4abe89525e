import Rush.Persistence.ActorLives
import Rush.Persistence.EventRange
import Rush.Persistence.SuffixReplay

/-!
# What the tables keep of an actor's state

The tables of a persistent actor hold its log and a snapshot that counts the
first `k` of its events.  `Keeps` says which state can be replayed from them; a
call that takes effect adds its event to it, and a new life starts from it.
-/

namespace Rush
namespace Persistence

open Foundation Database Actor

section Tables

variable {P E : Type} {pf : Platform P E} {password : Option Key} {env : Env}
  {tables : Tables} {store : Store} {log : List E} {k : Nat} {s : P}

/-- The table has the numbers from 0 on. -/
theorem HoldsEvents.numbered {table : Table}
    (h : HoldsEvents pf password table log) : Numbered table 0 log.length := by
  intro key
  constructor
  · intro hkey
    obtain ⟨i, hi, rfl⟩ := h.keys key hkey
    have hbound := h.bounded
    refine ⟨UInt64.ofNat i, Nat.zero_le _, ?_, rfl⟩
    rw [HoldsEvents.toNat_ofNat (by omega)]
    exact hi
  · rintro ⟨n, -, hlt, rfl⟩
    exact h.mem_eventKey_iff.mpr hlt

/-- The tables hold the log, and a snapshot `s` that counts `k` of its events. -/
structure Snapshotted (pf : Platform P E) (password : Option Key)
    (tables : Tables) (log : List E) (k : Nat) (s : P) : Prop where
  holds : HoldsEvents pf password tables.events log
  covers : k ≤ log.length
  snapshot : Store.HasSnapshot pf password tables s (UInt64.ofNat (k - 1))

namespace Snapshotted

/-- The events that a recovery replays. -/
theorem behind (h : Snapshotted pf password tables log k s) (hne : log ≠ []) :
    Behind pf password tables s (UInt64.ofNat (k - 1))
      (UInt64.ofNat (log.length - 1)) (log.drop (max k 1)) := by
  have hpos : 0 < log.length := List.length_pos_iff.mpr hne
  have hbound := h.holds.bounded
  have hcovers := h.covers
  have hk : (UInt64.ofNat (k - 1)).toNat = k - 1 :=
    HoldsEvents.toNat_ofNat (by omega)
  have hn : (UInt64.ofNat (log.length - 1)).toNat = log.length - 1 :=
    HoldsEvents.toNat_ofNat (by omega)
  refine ⟨h.snapshot, by omega, ⟨0, by omega, by omega, ?_⟩, ?_, ?_⟩
  · rw [hn, show log.length - 1 + 1 = log.length by omega]
    exact h.holds.numbered
  · rw [List.length_drop]
    omega
  · intro i event hi
    rw [List.getElem?_drop] at hi
    obtain ⟨data, hdata, hsealed⟩ := h.holds.lookup _ event hi
    refine ⟨data, ?_, hsealed⟩
    have hnumber : UInt64.ofNat (k - 1) + 1 + UInt64.ofNat i =
        UInt64.ofNat (max k 1 + i) := by
      rw [show max k 1 + i = k - 1 + 1 + i by omega, UInt64.ofNat_add,
        UInt64.ofNat_add]
      rfl
    rw [hnumber]
    exact hdata

theorem getState (h : Snapshotted pf password store.toTables log k s)
    (hkey : store.keyBox = password) (henv : env.OnlyWritesFail) :
    store.getState pf env = .ok (some (s, UInt64.ofNat (k - 1))) := by
  obtain ⟨data, hdata, hsealed⟩ := h.snapshot
  exact getState_of_sealedState henv hdata (hkey ▸ hsealed)

/-- A snapshot of all events. -/
theorem written (hholds : HoldsEvents pf password tables.events log)
    {data : Bytes} (hstates : tables.states = some data)
    (hsealed : Store.SealedState pf password data s
      (UInt64.ofNat (log.length - 1))) :
    Snapshotted pf password tables log log.length s :=
  ⟨hholds, Nat.le_refl _, data, hstates, hsealed⟩

/-- What `recover` makes of the tables: it applies the events behind the
snapshot, never the first one, and leaves a snapshot of them all; or it fails at
one of them and leaves the tables alone. -/
theorem recover (hpf : pf.RoundTrips) (henv : env.Healthy)
    (h : Snapshotted pf password store.toTables log k s)
    (hlogs : store.Logs pf password log) :
    (∃ s' store', pf.applyAll s (log.drop (max k 1)) = .ok s' ∧
      store.recover pf env = (.ok (some s'), store') ∧
      store'.Logs pf password log ∧
      Snapshotted pf password store'.toTables log log.length s') ∨
    ∃ e e' store', pf.applyAll s (log.drop (max k 1)) = .error e ∧
      store.recover pf env = (.error (.error e'), store') ∧
      store'.Logs pf password log ∧ store'.toTables = store.toTables ∧
      log ≠ [] := by
  have hstate := h.getState hlogs.keyBox henv.onlyWritesFail
  have hcovers := h.covers
  by_cases hnone : log = []
  · -- there is nothing to replay
    subst hnone
    have hk : k = 0 := Nat.le_zero.mp hcovers
    have hlast : Store.last env
        { store with stateCounter := UInt64.ofNat (k - 1) } = none :=
      (Store.last_of_onlyWritesFail henv.onlyWritesFail _).trans
        hlogs.holds.last_none
    refine Or.inl ⟨s, { store with stateCounter := UInt64.ofNat (k - 1) },
      by simp [Platform.applyAll], ?_,
      ⟨hlogs.keyBox, hlogs.holds, hlogs.counter⟩, ?_⟩
    · simp only [Store.recover, hstate, hlast]
    · subst hk
      exact h
  · have hbehind := h.behind hnone
    rw [← hlogs.keyBox] at hbehind
    have hbound := hlogs.holds.bounded
    have hpos : 0 < log.length := List.length_pos_iff.mpr hnone
    have hn : (UInt64.ofNat (log.length - 1)).toNat = log.length - 1 :=
      HoldsEvents.toNat_ofNat (by omega)
    -- whatever is written, the counter is that of the log
    have hkept : ∀ (c : UInt64) (states : Option Bytes),
        Store.Logs pf password
          { store with
            stateCounter := c
            eventCounter := UInt64.ofNat (log.length - 1)
            states := states } log :=
      fun _ _ => ⟨hlogs.keyBox, hlogs.holds, hn⟩
    by_cases hcurrent : UInt64.ofNat (log.length - 1) = UInt64.ofNat (k - 1)
    · obtain ⟨hdrop, hrecover⟩ :=
        recover_current henv.onlyWritesFail hbehind hcurrent
      refine Or.inl ⟨s, _, by rw [hdrop]; rfl, hrecover, hkept _ _, ?_⟩
      refine ⟨hlogs.holds, Nat.le_refl _, ?_⟩
      rw [hcurrent]
      exact h.snapshot
    · cases happly : pf.applyAll s (log.drop (max k 1)) with
      | ok s' =>
          rcases recover_applied henv.onlyWritesFail hbehind happly hcurrent with
            ⟨hfails, -⟩ | ⟨bytes, hseal, -, hrecover⟩
          · exact absurd hfails (Store.not_writeFails_of_healthy hpf henv s' _)
          · have hsealed := Store.sealedState_of_sealState hpf.inverts
              (fun _ => henv.2.2 .snapshot) hseal
            rw [hlogs.keyBox] at hsealed
            exact Or.inl ⟨s', _, rfl, hrecover, hkept _ _,
              written hlogs.holds rfl hsealed⟩
      | error e =>
          cases e with
          | panic => exact absurd happly (pf.applyAll_ne_panic _ _)
          | error e =>
              have hrecover :=
                recover_refused henv.onlyWritesFail hbehind happly
              exact Or.inr ⟨_, e, _, rfl, hrecover, hkept _ _, rfl, hnone⟩

end Snapshotted

end Tables

/-! ### What the tables keep of a state -/

/-- The replayed state fits the log with a snapshot `s` of `k` events. -/
inductive Replayed.Fits {P E : Type} (pf : Platform P E) (log : List E) (k : Nat)
    (s : P) : Replayed P E → Prop
  | noEvent (hlog : log = []) : Fits pf log k s ⟨s, [], .noEvent⟩
  | uncovered (hfull : pf.actor.persistence = .full) (hk : k = 0)
      (hne : log ≠ []) : Fits pf log k s ⟨s, log, .uncovered⟩
  | covered (base before)
      (hk : k = 0 → log = [] ∧ pf.actor.persistence = .light)
      (hbefore : pf.applyAll base before = .ok s) :
      Fits pf log k s ⟨base, before ++ log.drop k, .covered⟩

/-- A snapshot that counts the whole log covers all events. -/
theorem Replayed.Fits.all {P E : Type} {pf : Platform P E} {log events : List E}
    {base s : P} (hlight : log = [] → pf.actor.persistence = .light)
    (hall : pf.applyAll base events = .ok s) :
    Fits pf log log.length s ⟨base, events, .covered⟩ := by
  have hcovered : Fits pf log log.length s
      ⟨base, events ++ log.drop log.length, .covered⟩ :=
    .covered base events (fun hzero => by
      have hnone := List.length_eq_zero_iff.mp hzero
      exact ⟨hnone, hlight hnone⟩) hall
  rwa [List.drop_length, List.append_nil] at hcovered

/-- The tables hold the log, and with it the replayed state; light events
replace each other. -/
structure Keeps {P E : Type} (pf : Platform P E) (password : Option Key)
    (tables : Tables) (log : List E) (r : Replayed P E) : Prop where
  snapshot : ∃ k s, Snapshotted pf password tables log k s ∧ r.Fits pf log k s
  short : pf.actor.persistence = .light → log.length ≤ 1

section Keeps

variable {P E : Type} {pf : Platform P E} {password : Option Key} {env : Env}
  {tables : Tables} {store : Store} {log : List E} {r : Replayed P E}
  {state state' : P} {event : E} {data bytes : Bytes}

/-- The state of the actor is the replay of these events. -/
def Replayed.State (pf : Platform P E) (r : Replayed P E) (state : P) : Prop :=
  pf.applyAll r.base r.events = .ok state

theorem Replayed.State.persist (h : r.State pf state)
    (happly : pf.actor.apply state event = (state', .ok ()))
    (persistence : PersistenceType) :
    (r.take persistence (.persist event)).State pf state' := by
  have hnext := applyAll_append_single h happly
  cases persistence <;> exact hnext

theorem Replayed.State.snapshot (h : r.State pf state)
    (persistence : PersistenceType) :
    (r.take persistence .snapshot).State pf state := by
  cases persistence <;> exact h

namespace Keeps

theorem holds (h : Keeps pf password tables log r) :
    HoldsEvents pf password tables.events log := by
  obtain ⟨k, s, hsnapshot, -⟩ := h.snapshot
  exact hsnapshot.holds

/-- A snapshot of the state covers all events. -/
theorem take_snapshot (h : Keeps pf password tables log r)
    (hstate : r.State pf state)
    (hsealed : Store.SealedState pf password data state
      (UInt64.ofNat (log.length - 1))) :
    Keeps pf password { tables with states := some data } log
      (r.take pf.actor.persistence .snapshot) := by
  refine ⟨⟨log.length, state, .written h.holds rfl hsealed, ?_⟩, h.short⟩
  obtain ⟨k, s, hsnapshot, hfits⟩ := h.snapshot
  have htake : r.take pf.actor.persistence .snapshot = r.take .full .snapshot := by
    cases pf.actor.persistence <;> rfl
  rw [htake]
  cases hfits with
  | noEvent hlog =>
      obtain rfl : s = state := Except.ok.inj hstate
      exact .noEvent hlog
  | uncovered hfull hk hne => exact .all (fun hnone => absurd hnone hne) hstate
  | covered base before hk hbefore =>
      refine .all (fun hnone => (hk ?_).2) hstate
      have hcovers := hsnapshot.covers
      rw [hnone] at hcovers
      exact Nat.le_zero.mp hcovers

/-- A full event is one more to replay. -/
theorem take_full (h : Keeps pf password tables log r)
    (hfull : pf.actor.persistence = .full)
    (hsealed : Store.Sealed pf password bytes event)
    (hbound : log.length + 1 ≤ 2 ^ 64) :
    Keeps pf password
      { tables with
        events := tables.events.insert (eventKey (UInt64.ofNat log.length)) bytes }
      (log ++ [event]) (r.take .full (.persist event)) := by
  obtain ⟨k, s, hsnapshot, hfits⟩ := h.snapshot
  have hcovers : k ≤ (log ++ [event]).length := by
    rw [List.length_append]
    exact Nat.le_add_right_of_le hsnapshot.covers
  refine ⟨⟨k, s, ⟨hsnapshot.holds.insert hsealed hbound, hcovers,
    hsnapshot.snapshot⟩, ?_⟩, fun hlight => by rw [hfull] at hlight; contradiction⟩
  cases hfits with
  | noEvent hlog =>
      subst hlog
      exact .uncovered hfull (Nat.le_zero.mp hsnapshot.covers) (by simp)
  | uncovered _ hk hne => exact .uncovered hfull hk (by simp)
  | covered base before hk hbefore =>
      have hdrop : (log ++ [event]).drop k = log.drop k ++ [event] :=
        List.drop_append_of_le_length hsnapshot.covers
      have hcovered : Replayed.Fits pf (log ++ [event]) k s
          ⟨base, before ++ (log ++ [event]).drop k, .covered⟩ := by
        refine .covered base before (fun hzero => ?_) hbefore
        rw [hfull] at hk
        exact absurd (hk hzero).2 (by decide)
      rw [hdrop, ← List.append_assoc] at hcovered
      exact hcovered

/-- The snapshot of a light event covers it, also when the event itself is not
put. -/
theorem take_light_cut (h : Keeps pf password tables log r)
    (hlight : pf.actor.persistence = .light) (hstate : r.State pf state)
    (happly : pf.actor.apply state event = (state', .ok ()))
    (hdata : Store.SealedState pf password data state'
      (UInt64.ofNat (log.length - 1))) :
    Keeps pf password { tables with states := some data } log
      (r.take .light (.persist event)) :=
  ⟨⟨log.length, state', .written h.holds rfl hdata,
    .all (fun _ => hlight) (hstate.persist happly .light)⟩, h.short⟩

/-- A light event takes the place of the last one. -/
theorem take_light (h : Keeps pf password tables log r)
    (hlight : pf.actor.persistence = .light) (hstate : r.State pf state)
    (happly : pf.actor.apply state event = (state', .ok ()))
    (hdata : Store.SealedState pf password data state'
      (UInt64.ofNat (log.length - 1)))
    (hsealed : Store.Sealed pf password bytes event) :
    Keeps pf password
      { events := tables.events.insert
          (eventKey (UInt64.ofNat (log.length - 1))) bytes
        states := some data }
      [event] (r.take .light (.persist event)) := by
  have hshort := h.short hlight
  have hholds : HoldsEvents pf password
      (tables.events.insert (eventKey (UInt64.ofNat (log.length - 1))) bytes)
      [event] := by
    cases log with
    | nil => exact h.holds.insert hsealed (by simp)
    | cons first rest =>
        obtain rfl : rest = [] := by
          rw [List.length_cons] at hshort
          exact List.length_eq_zero_iff.mp (by omega)
        exact h.holds.replaceLast (by simp) hsealed
  have hzero : log.length - 1 = 0 := by omega
  rw [hzero] at hdata
  exact ⟨⟨1, state', ⟨hholds, Nat.le_refl _, data, rfl, hdata⟩,
    .all (fun hnone => by contradiction) (hstate.persist happly .light)⟩,
    fun _ => Nat.le_refl _⟩

end Keeps

end Keeps

/-! ### What the calls write -/

section Calls

variable {P E : Type} {pf : Platform P E} {password : Option Key} {env : Env}
  {store : Store} {log : List E} {state : P} {event : E}

namespace Store.Logs

theorem counter_eq (h : store.Logs pf password log) :
    store.eventCounter = UInt64.ofNat (log.length - 1) := by
  rw [← h.counter, UInt64.ofNat_toNat]

theorem nextEventNumber_eq (h : store.Logs pf password log) (henv : env.Healthy)
    (hbound : log.length < 2 ^ 64) :
    store.nextEventNumber pf env = .ok (UInt64.ofNat log.length) := by
  have hread : ∃ n, store.nextEventNumber pf env = .ok n := by
    rw [Store.nextEventNumber_eq henv.onlyWritesFail
      (h.keyBox ▸ h.holds.allSealed)]
    split
    · exact ⟨0, rfl⟩
    · refine ⟨store.eventCounter + 1, ?_⟩
      rw [Platform.succ, if_pos]
      rw [h.counter]
      omega
  obtain ⟨n, hn⟩ := hread
  rw [hn, h.next henv.onlyWritesFail.eventsReadable hbound hn]

/-- The write of a snapshot, which is all that it does to the tables. -/
theorem snapshot (hpf : pf.RoundTrips) (henv : env.Healthy)
    (h : store.Logs pf password log) (state : P) :
    ∃ data store', Store.SealedState pf password data state
        (UInt64.ofNat (log.length - 1)) ∧
      store.snapshotWrites pf env state = [.putState data] ∧
      store.snapshot pf env state = (.ok (), store') ∧
      store'.toTables = { store.toTables with states := some data } ∧
      store'.Logs pf password log := by
  rcases Store.snapshot_cases pf env store state with
    ⟨hfails, -⟩ | ⟨data, hseal, hput, hsnapshot⟩
  · exact absurd hfails (Store.not_writeFails_of_healthy hpf henv state _)
  · have hsealed := Store.sealedState_of_sealState hpf.inverts
      (fun _ => henv.2.2 .snapshot) hseal
    rw [h.keyBox, h.counter_eq] at hsealed
    refine ⟨data, _, hsealed, ?_, hsnapshot, rfl,
      h.keyBox, h.holds, h.counter⟩
    unfold snapshotWrites
    simp only [hseal, hput]

/-- The write of an event. -/
theorem persist (hpf : pf.RoundTrips) (henv : env.Healthy)
    (h : store.Logs pf password log) (hbound : log.length < 2 ^ 64) (event : E) :
    ∃ bytes store', Store.Sealed pf password bytes event ∧
      store.persistWrites pf env event =
        [.putEvent (eventKey (UInt64.ofNat log.length)) bytes] ∧
      store.persist pf env event = (.ok (), store') ∧
      store'.toTables = { store.toTables with
        events := store.events.insert (eventKey (UInt64.ofNat log.length)) bytes } ∧
      store'.Logs pf password (log ++ [event]) := by
  obtain ⟨bytes, hseal, hsealed⟩ := Store.sealEvent_ok store hpf henv event
  rw [h.keyBox] at hsealed
  have hnext := h.nextEventNumber_eq henv hbound
  refine ⟨bytes, _, hsealed, ?_, ?_, rfl, h.appended hbound hsealed⟩
  · unfold persistWrites
    simp only [hseal, hnext, henv.1]
  · unfold Store.persist
    simp only [hseal, hnext, henv.1]

/-- The writes of an event with its state. -/
theorem persistState (hpf : pf.RoundTrips) (henv : env.Healthy)
    (h : store.Logs pf password log) (hshort : log.length ≤ 1) (event : E)
    (state : P) :
    ∃ bytes data store', Store.Sealed pf password bytes event ∧
      Store.SealedState pf password data state (UInt64.ofNat (log.length - 1)) ∧
      store.lightWrites pf env event state =
        [.putState data,
          .putEvent (eventKey (UInt64.ofNat (log.length - 1))) bytes] ∧
      store.persistState pf env event state = (.ok (), store') ∧
      store'.toTables =
        { events := store.events.insert
            (eventKey (UInt64.ofNat (log.length - 1))) bytes
          states := some data } ∧
      store'.Logs pf password [event] := by
  obtain ⟨bytes, hseal, hsealed⟩ := Store.sealEvent_ok store hpf henv event
  obtain ⟨data, hdata, hstate⟩ :=
    Store.sealState_ok store hpf henv state store.eventCounter
  rw [h.keyBox] at hsealed hstate
  rw [h.counter_eq] at hstate
  have hreplaced : log.dropLast = [] :=
    List.length_eq_zero_iff.mp (by rw [List.length_dropLast]; omega)
  have hlogs := h.replaced (Nat.lt_of_le_of_lt hshort (by decide)) hsealed
  rw [hreplaced, List.nil_append] at hlogs
  have hends := Store.lightPersistence pf env store event state
  generalize hpersist : store.persistState pf env event state = outcome at hends
  cases hends with
  | unsealed e hfails => rw [hseal] at hfails; contradiction
  | snapshotFails bytes' e hseal' hfails =>
      exact absurd hfails (Store.not_writeFails hdata (henv.1 _))
  | putFails bytes' data' e hseal' hdata' hwrite hput =>
      rw [henv.1] at hput
      contradiction
  | persisted bytes' data' hseal' hdata' hwrite hput =>
      rw [hseal] at hseal'
      rw [hdata] at hdata'
      cases hseal'
      cases hdata'
      refine ⟨bytes, data, _, hsealed, hstate, ?_, rfl, ?_,
        hlogs.keyBox, hlogs.holds, hlogs.counter⟩
      · unfold lightWrites
        simp only [hseal, hdata, hwrite, hput]
        rw [h.counter_eq]
      · simp only [h.counter_eq]

end Store.Logs

end Calls

/-! ### A new life -/

section Start

variable {P E : Type} {pf : Platform P E} {password : Option Key}
  {tables : Tables} {store : Store} {log : List E} {r : Replayed P E} {k : Nat}
  {s s' state : P}

/-- What `recover` applies is what a new life starts from. -/
theorem Replayed.Fits.recovered_ok (h : r.Fits pf log k s)
    (hcovers : k ≤ log.length)
    (happly : pf.applyAll s (log.drop (max k 1)) = .ok s') :
    ∃ r', r.recovered pf = some r' ∧ r'.Fits pf log log.length s' ∧
      r'.State pf s' ∧ (r.coverage ≠ .uncovered → r' = r) := by
  cases h with
  | noEvent hlog =>
      subst hlog
      obtain rfl : s = s' := by simpa [Platform.applyAll] using happly
      exact ⟨_, rfl, .noEvent rfl, rfl, fun _ => rfl⟩
  | uncovered _ hk hne =>
      subst hk
      cases log with
      | nil => exact absurd rfl hne
      | cons first rest =>
          have hrest : pf.applyAll s rest = .ok s' := happly
          refine ⟨⟨s, rest, .covered⟩, ?_, .all (fun hnone => by contradiction) hrest,
            hrest, fun hcoverage => absurd rfl hcoverage⟩
          simp only [Replayed.recovered, hrest]
  | covered base before hk hbefore =>
      have hdrop : log.drop (max k 1) = log.drop k := by
        by_cases hzero : k = 0
        · rw [(hk hzero).1]
          simp
        · rw [show max k 1 = k by omega]
      have hall : pf.applyAll base (before ++ log.drop k) = .ok s' := by
        rw [Platform.applyAll_append, hbefore]
        show pf.applyAll s (log.drop k) = .ok s'
        rw [← hdrop]
        exact happly
      refine ⟨_, rfl, .all (fun hnone => (hk ?_).2) hall, hall, fun _ => rfl⟩
      rw [hnone] at hcovers
      exact Nat.le_zero.mp hcovers

/-- Only a first event that is skipped keeps `recover` from the state. -/
theorem Replayed.Fits.recovered_error {e : Failure StoreError}
    (h : r.Fits pf log k s) (hne : log ≠ []) (hstate : r.State pf state)
    (happly : pf.applyAll s (log.drop (max k 1)) = .error e) :
    r.recovered pf = none ∧ r.coverage = .uncovered := by
  cases h with
  | noEvent hlog => exact absurd hlog hne
  | uncovered _ hk hne =>
      subst hk
      cases log with
      | nil => exact absurd rfl hne
      | cons first rest =>
          have hrest : pf.applyAll s rest = .error e := happly
          refine ⟨?_, rfl⟩
          simp only [Replayed.recovered, hrest]
  | covered base before hk hbefore =>
      have hpos : k ≠ 0 := fun hzero => hne (hk hzero).1
      unfold Replayed.State at hstate
      rw [Platform.applyAll_append, hbefore] at hstate
      rw [show max k 1 = k by omega] at happly
      have herror : pf.applyAll s (log.drop k) = .ok state := hstate
      rw [happly] at herror
      contradiction

/-- `start_store` on the tables of an earlier life: it goes on with what it has
recovered, or tells the store a snapshot of the new value of the actor. -/
theorem Keeps.start (hpf : pf.RoundTrips)
    (hupdate : ∀ s t, pf.actor.update s t = t) {env : StartEnv}
    (henv : env.Healthy) (h : Keeps pf password tables log r)
    (hstate : r.State pf state) (hbound : log.length < 2 ^ 64) (initial : P) :
    (∃ r' state' store', r.recovered pf = some r' ∧
      (r.coverage ≠ .uncovered → r' = r) ∧
      PersistentActor.startStore pf env tables password initial =
        ⟨.ok (), state', some ⟨store', none⟩⟩ ∧
      store'.Logs pf password log ∧ Keeps pf password store'.toTables log r' ∧
      r'.State pf state') ∨
    ∃ store', r.recovered pf = none ∧ r.coverage = .uncovered ∧ log ≠ [] ∧
      PersistentActor.startStore pf env tables password initial =
        ⟨.ok (), initial, some ⟨store', some (env.firstSnapshot, initial)⟩⟩ ∧
      store'.Logs pf password log ∧ store'.toTables = tables := by
  obtain ⟨store, hnew⟩ := Store.new_of_healthy henv.creation tables password
  have hlogs := Store.logs_of_new henv.creation.onlyWritesFail.eventsReadable
    h.holds hbound hnew
  obtain ⟨k, s, hsnapshot, hfits⟩ := h.snapshot
  have hnewTables := (Store.new_spec hnew).1
  rw [← hnewTables] at hsnapshot
  rcases hsnapshot.recover hpf henv.recovery hlogs with
    ⟨s', store', happly, hrecover, hlogs', hafter⟩ |
    ⟨e, e', store', happly, hrecover, hlogs', htables, hne⟩
  · obtain ⟨r', hrecovered, hfits', hstate', hsame⟩ :=
      hfits.recovered_ok hsnapshot.covers happly
    refine Or.inl ⟨r', s', store', hrecovered, hsame, ?_, hlogs',
      ⟨⟨_, _, hafter, hfits'⟩, h.short⟩, hstate'⟩
    simp [PersistentActor.startStore, hnew, henv.createChild, Store.ask,
      Store.handleMessage, hrecover, respond, hupdate]
  · -- the answer is an error, and the actor has itself snapshotted as it is
    obtain ⟨hnone, hcoverage⟩ := hfits.recovered_error hne hstate happly
    refine Or.inr ⟨store', hnone, hcoverage, hne, ?_, hlogs',
      htables.trans hnewTables⟩
    simp [PersistentActor.startStore, hnew, henv.createChild, henv.tell, Store.ask,
      Store.handleMessage, hrecover, respond]

/-- The store handles the snapshot that it was told: from then on the tables keep
what the actor is in the state of. -/
theorem Store.Logs.handleTold (hpf : pf.RoundTrips) {env : Env}
    (henv : env.Healthy) (h : store.Logs pf password log)
    (hshort : pf.actor.persistence = .light → log.length ≤ 1)
    (hfits : r.Fits pf log log.length state) :
    ∃ store', StoreChild.handleTold pf ⟨store, some (env, state)⟩ =
        ⟨store', none⟩ ∧
      store'.Logs pf password log ∧ Keeps pf password store'.toTables log r := by
  obtain ⟨data, store', hsealed, -, hwrite, htables, hlogs⟩ :=
    h.snapshot hpf henv state
  have hstates : store'.states = some data := by rw [htables]
  refine ⟨store', ?_, hlogs,
    ⟨⟨log.length, state, .written hlogs.holds hstates hsealed, hfits⟩, hshort⟩⟩
  simp [StoreChild.handleTold, Store.handleMessage, hwrite]

end Start

end Persistence
end Rush
