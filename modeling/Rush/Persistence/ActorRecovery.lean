import Rush.Persistence.KeptState
import Mathlib.Data.List.TakeWhile

/-!
# A persistent actor over all its lives

Whatever ends its lives, the state of a persistent actor is the replay of the
events that have taken effect, from the value with which it was first stored.
A life that ends before its store has come to the first snapshot leaves nothing
of its value.  Under full persistence a life that ends between the first event and
a snapshot behind it has `recover` skip this event.
-/

namespace Rush
namespace Persistence

open Foundation Database Actor

/-! ### The steps of a life -/

section Steps

variable {P E : Type} {pf : Platform P E} {path : ActorPath}
  {password : Option Key} {env : Env} {tables : Tables} {store : Store}
  {log : List E} {r : Replayed P E} {state state' : P} {event : E}
  {seen : List (LifeObs P E)} {o : LifeObs P E} {call : Call E}

/-- Fewer than `2^64` events are stored. -/
def Countable (pf : Platform P E) (seen : List (LifeObs P E)) : Prop :=
  pf.actor.persistence = .full →
    (takenEvents pf.actor.persistence seen).length < 2 ^ 64

/-- No life begins between the first event and a snapshot behind it. -/
def EachCovered (pf : Platform P E) (seen : List (LifeObs P E)) : Prop :=
  ∀ before initial after r, seen = before ++ .started initial :: after →
    (replays pf before).kept = some r → r.coverage ≠ .uncovered

def LifeObs.isToldHandled : LifeObs P E → Bool
  | .toldHandled => true
  | _ => false

def LifeObs.initial : LifeObs P E → Option P
  | .started initial => some initial
  | _ => none

/-- The value that the actor has first been stored with: that of the last life
begun before the store came to a first snapshot. -/
def firstValue (seen : List (LifeObs P E)) : Option P :=
  ((seen.takeWhile fun o => !o.isToldHandled).filterMap LifeObs.initial).getLast?

theorem takenEvents_append (persistence : PersistenceType)
    (seen later : List (LifeObs P E)) :
    takenEvents persistence (seen ++ later) =
      takenEvents persistence seen ++ takenEvents persistence later := by
  unfold takenEvents
  rw [List.filterMap_append, acked_append]

theorem takenEvents_untaken (ho : o.taken pf.actor.persistence = none) :
    takenEvents pf.actor.persistence (seen ++ [o]) =
      takenEvents pf.actor.persistence seen := by
  rw [takenEvents_snoc, ho]
  simp [acked]

theorem Countable.before {later : List (LifeObs P E)}
    (h : Countable pf (seen ++ later)) : Countable pf seen := by
  intro hfull
  have hcount := h hfull
  rw [takenEvents_append, List.length_append] at hcount
  omega

theorem EachCovered.before {later : List (LifeObs P E)}
    (h : EachCovered pf (seen ++ later)) : EachCovered pf seen := by
  intro before initial after r hseen
  exact h before initial (after ++ later) r (by simp [hseen])

/-! ### The first value -/

theorem takeWhile_of_handled (hhandled : LifeObs.toldHandled ∈ seen) :
    (seen ++ [o]).takeWhile (fun o => !o.isToldHandled) =
      seen.takeWhile fun o => !o.isToldHandled := by
  induction seen with
  | nil => simp at hhandled
  | cons first seen ih =>
      cases hfirst : first.isToldHandled with
      | true => simp [hfirst]
      | false =>
          have hmem : LifeObs.toldHandled ∈ seen := by
            rcases List.mem_cons.mp hhandled with rfl | hmem
            · simp [LifeObs.isToldHandled] at hfirst
            · exact hmem
          simp [hfirst, ih hmem]

theorem takeWhile_of_unhandled (hnone : LifeObs.toldHandled ∉ seen) :
    seen.takeWhile (fun o => !o.isToldHandled) = seen := by
  rw [List.takeWhile_eq_self_iff]
  intro o ho
  cases o with
  | toldHandled => exact absurd ho hnone
  | _ => rfl

/-- Only a start can change it. -/
theorem firstValue_snoc (ho : o.initial = none) :
    firstValue (seen ++ [o]) = firstValue seen := by
  unfold firstValue
  by_cases hhandled : LifeObs.toldHandled ∈ seen
  · rw [takeWhile_of_handled hhandled]
  · rw [takeWhile_of_unhandled hhandled, List.takeWhile_append_of_pos]
    · cases hfirst : o.isToldHandled <;> simp [hfirst, ho]
    · intro o ho
      cases o with
      | toldHandled => exact absurd ho hhandled
      | _ => rfl

/-- And no start can, once the store has come to a first snapshot. -/
theorem firstValue_of_handled (hhandled : LifeObs.toldHandled ∈ seen) :
    firstValue (seen ++ [o]) = firstValue seen := by
  unfold firstValue
  rw [takeWhile_of_handled hhandled]

theorem firstValue_started (hnone : LifeObs.toldHandled ∉ seen) (initial : P) :
    firstValue (seen ++ [.started initial]) = some initial := by
  have hnone' : LifeObs.toldHandled ∉ seen ++ [LifeObs.started initial] := by
    simpa using hnone
  unfold firstValue
  rw [takeWhile_of_unhandled hnone', List.filterMap_append]
  simp [LifeObs.initial]

/-! ### What is left of a life -/

/-- With no first event skipped, this is the replay of all events from the first
value. -/
def Replayed.Whole (pf : Platform P E) (seen : List (LifeObs P E))
    (r : Replayed P E) : Prop :=
  pf.actor.persistence = .light ∨ EachCovered pf seen →
    firstValue seen = some r.base ∧
      r.events = takenEvents pf.actor.persistence seen

theorem Replayed.Whole.untaken (h : r.Whole pf seen) (hstart : o.initial = none)
    (ho : o.taken pf.actor.persistence = none) : r.Whole pf (seen ++ [o]) := by
  intro hwhole
  obtain ⟨hfirst, hevents⟩ := h (hwhole.imp id EachCovered.before)
  rw [firstValue_snoc hstart, takenEvents_untaken ho]
  exact ⟨hfirst, hevents⟩

/-- The tables keep what is made of these observations. -/
structure Lasts (pf : Platform P E) (password : Option Key) (tables : Tables)
    (seen : List (LifeObs P E)) (log : List E) (r : Replayed P E) : Prop where
  keeps : Keeps pf password tables log r
  kept : (replays pf seen).kept = some r
  handled : LifeObs.toldHandled ∈ seen
  full : pf.actor.persistence = .full →
    log = takenEvents pf.actor.persistence seen
  whole : r.Whole pf seen

/-- What the tables are between two lives: nothing has been stored, or they keep
the replay that some actor was in the state of. -/
inductive Rests (pf : Platform P E) (password : Option Key) (tables : Tables)
    (seen : List (LifeObs P E)) (log : List E) : Prop
  | nothing (htables : tables = ⟨∅, none⟩) (hlog : log = [])
      (hkept : (replays pf seen).kept = none)
      (htaken : takenEvents pf.actor.persistence seen = [])
      (hnone : LifeObs.toldHandled ∉ seen)
  | kept (r : Replayed P E) (state : P)
      (hlasts : Lasts pf password tables seen log r) (hstate : r.State pf state)

theorem LifeObs.Idle.initial (ho : o.Idle pf.actor.persistence) :
    o.initial = none := by
  cases o with
  | started initial => exact absurd rfl (ho.1 initial)
  | _ => rfl

theorem Keeps.coverage (h : Keeps pf password tables log r)
    (hlight : pf.actor.persistence = .light) : r.coverage ≠ .uncovered := by
  obtain ⟨k, s, -, hfits⟩ := h.snapshot
  cases hfits with
  | uncovered hfull _ _ =>
      rw [hlight] at hfull
      contradiction
  | _ => simp

namespace Lasts

theorem idle (h : Lasts pf password tables seen log r)
    (ho : o.Idle pf.actor.persistence) :
    Lasts pf password tables (seen ++ [o]) log r where
  keeps := h.keeps
  kept := by rw [replays_snoc, observe_idle ho, h.kept]
  handled := List.mem_append_left [o] h.handled
  full hfull := (takenEvents_untaken ho.2.2).symm ▸ h.full hfull
  whole := h.whole.untaken ho.initial ho.2.2

/-- A call has taken effect. -/
theorem taken (h : Lasts pf password tables seen log r)
    (hnow : (replays pf seen).now = some r) {tables' : Tables}
    {log' : List E} (ho : o.taken pf.actor.persistence = some call)
    (hkeeps : Keeps pf password tables' log'
      (r.take pf.actor.persistence call))
    (hlog : pf.actor.persistence = .full → log' = log ++ acked [call]) :
    Lasts pf password tables' (seen ++ [o]) log'
      (r.take pf.actor.persistence call) := by
  have htaken : takenEvents pf.actor.persistence (seen ++ [o]) =
      takenEvents pf.actor.persistence seen ++ acked [call] := by
    rw [takenEvents_snoc, ho]
    rfl
  have hstart : o.initial = none := by
    cases o with
    | started initial => simp [LifeObs.taken] at ho
    | _ => rfl
  refine ⟨hkeeps, ?_, List.mem_append_left [o] h.handled, fun hfull => ?_,
    fun hwhole => ?_⟩
  · rw [replays_snoc, observe_taken hnow ho]
  · rw [htaken, hlog hfull, h.full hfull]
  · obtain ⟨hfirst, hevents⟩ := h.whole (hwhole.imp id EachCovered.before)
    rw [htaken, r.base_take, r.events_take, ← hevents, firstValue_snoc hstart]
    exact ⟨hfirst, rfl⟩

/-- A new life goes on with what it has recovered. -/
theorem restarted (h : Lasts pf password tables seen log r) {tables' : Tables}
    {initial : P} {r' : Replayed P E} (hrecovered : r.recovered pf = some r')
    (hsame : r.coverage ≠ .uncovered → r' = r)
    (hkeeps : Keeps pf password tables' log r') :
    Lasts pf password tables' (seen ++ [.started initial]) log r' := by
  have htaken : takenEvents pf.actor.persistence (seen ++ [.started initial]) =
      takenEvents pf.actor.persistence seen := takenEvents_untaken rfl
  refine ⟨hkeeps, ?_, List.mem_append_left _ h.handled,
    fun hfull => htaken ▸ h.full hfull, fun hwhole => ?_⟩
  · rw [replays_snoc]
    simp [Replays.observe, Replays.start, h.kept, hrecovered]
  · have hcoverage : r.coverage ≠ .uncovered := by
      rcases hwhole with hlight | hcovered
      · exact h.keeps.coverage hlight
      · exact hcovered seen initial [] r rfl h.kept
    rw [hsame hcoverage, firstValue_of_handled h.handled, htaken]
    exact h.whole (hwhole.imp id EachCovered.before)

/-- A life that begins between a first event and a snapshot behind it. -/
theorem not_covered (h : Lasts pf password tables seen log r)
    (hcoverage : r.coverage = .uncovered) (initial : P) :
    ¬ (pf.actor.persistence = .light ∨
      EachCovered pf (seen ++ [.started initial])) := by
  rintro (hlight | hcovered)
  · exact h.keeps.coverage hlight hcoverage
  · exact hcovered seen initial [] r rfl h.kept hcoverage

/-- A new life has recovered nothing, and its own value is not stored yet. -/
theorem passedOver (h : Lasts pf password tables seen log r)
    (hrecovered : r.recovered pf = none) (hcoverage : r.coverage = .uncovered)
    (initial : P) :
    Lasts pf password tables (seen ++ [.started initial]) log r where
  keeps := h.keeps
  kept := by
    rw [replays_snoc]
    simp [Replays.observe, Replays.start, h.kept, hrecovered]
  handled := List.mem_append_left _ h.handled
  full hfull := by
    rw [takenEvents_untaken (by rfl)]
    exact h.full hfull
  whole hwhole := absurd hwhole (h.not_covered hcoverage initial)

end Lasts

namespace Rests

theorem idle (h : Rests pf password tables seen log)
    (ho : o.Idle pf.actor.persistence) :
    Rests pf password tables (seen ++ [o]) log := by
  cases h with
  | nothing htables hlog hkept htaken hnone =>
      refine .nothing htables hlog ?_ ?_ ?_
      · rw [replays_snoc, observe_idle ho, hkept]
      · rw [takenEvents_untaken ho.2.2, htaken]
      · rw [List.mem_append, List.mem_singleton]
        exact not_or.mpr ⟨hnone, fun heq => ho.2.1 heq.symm⟩
  | kept r state hlasts hstate => exact .kept r state (hlasts.idle ho) hstate

theorem full (h : Rests pf password tables seen log)
    (hfull : pf.actor.persistence = .full) :
    log = takenEvents pf.actor.persistence seen := by
  cases h with
  | nothing _ hlog _ htaken _ => rw [hlog, htaken]
  | kept r state hlasts _ => exact hlasts.full hfull

theorem holds (h : Rests pf password tables seen log) :
    HoldsEvents pf password tables.events log := by
  cases h with
  | nothing htables hlog _ _ _ =>
      subst htables hlog
      exact HoldsEvents.empty pf password
  | kept r state hlasts _ => exact hlasts.keeps.holds

theorem short (h : Rests pf password tables seen log)
    (hlight : pf.actor.persistence = .light) : log.length ≤ 1 := by
  cases h with
  | nothing _ hlog _ _ _ =>
      subst hlog
      exact Nat.zero_le _
  | kept r state hlasts _ => exact hlasts.keeps.short hlight

theorem length_lt (h : Rests pf password tables seen log)
    (hcount : Countable pf seen) : log.length < 2 ^ 64 := by
  cases hpersistence : pf.actor.persistence with
  | light => exact Nat.lt_of_le_of_lt (h.short hpersistence) (by decide)
  | full =>
      rw [h.full hpersistence]
      exact hcount hpersistence

end Rests

/-- What the store has been told is no event. -/
theorem takenEvents_handled (persistence : PersistenceType)
    (child child' : StoreChild P) :
    takenEvents persistence (child.handled child' : List (LifeObs P E)) = [] := by
  unfold StoreChild.handled
  split <;> rfl

theorem Countable.handled (h : Countable pf seen) (child child' : StoreChild P) :
    Countable pf (seen ++ child.handled child') := by
  intro hfull
  rw [takenEvents_append, takenEvents_handled, List.append_nil]
  exact h hfull

theorem notStarted_not_mem (child child' : StoreChild P)
    (ho : ∀ e, o ≠ .notStarted e) (e : ActorError) :
    LifeObs.notStarted e ∉ child.handled child' ++ [o] := by
  unfold StoreChild.handled
  split <;> simp [(ho e).symm]

/-- A life whose store has come to all that it was told. -/
structure Settled (pf : Platform P E) (password : Option Key)
    (seen : List (LifeObs P E)) (state : P) (store : Store) (log : List E)
    (r : Replayed P E) : Prop where
  lasts : Lasts pf password store.toTables seen log r
  now : (replays pf seen).now = some r
  replay : r.State pf state
  logs : store.Logs pf password log

/-- A life whose store has not come to the snapshot of the actor's new value. -/
structure Telling (pf : Platform P E) (password : Option Key)
    (seen : List (LifeObs P E)) (state : P) (store : Store) (env : Env)
    (log : List E) (r : Replayed P E) : Prop where
  rests : Rests pf password store.toTables seen log
  now : (replays pf seen).now = some r
  replay : r.State pf state
  logs : store.Logs pf password log
  healthy : env.Healthy
  fits : r.Fits pf log log.length state
  whole : r.Whole pf seen

theorem Settled.idle (h : Settled pf password seen state store log r)
    (ho : o.Idle pf.actor.persistence) :
    Settled pf password (seen ++ [o]) state store log r where
  lasts := h.lasts.idle ho
  now := by rw [replays_snoc, observe_idle ho, h.now]
  replay := h.replay
  logs := h.logs

theorem Settled.taken (h : Settled pf password seen state store log r)
    {state' : P} {store' : Store} {log' : List E}
    (ho : o.taken pf.actor.persistence = some call)
    (hkeeps : Keeps pf password store'.toTables log'
      (r.take pf.actor.persistence call))
    (hlog : pf.actor.persistence = .full → log' = log ++ acked [call])
    (hstate : (r.take pf.actor.persistence call).State pf state')
    (hlogs : store'.Logs pf password log') :
    Settled pf password (seen ++ [o]) state' store' log'
      (r.take pf.actor.persistence call) where
  lasts := h.lasts.taken h.now ho hkeeps hlog
  now := by rw [replays_snoc, observe_taken h.now ho]
  replay := hstate
  logs := hlogs

theorem Telling.idle (h : Telling pf password seen state store env log r)
    (ho : o.Idle pf.actor.persistence) :
    Telling pf password (seen ++ [o]) state store env log r where
  rests := h.rests.idle ho
  now := by rw [replays_snoc, observe_idle ho, h.now]
  replay := h.replay
  logs := h.logs
  healthy := h.healthy
  fits := h.fits
  whole := h.whole.untaken ho.initial ho.2.2

/-- The store comes to the snapshot. -/
theorem Telling.handled (hpf : pf.RoundTrips)
    (h : Telling pf password seen state store env log r) :
    ∃ store', StoreChild.handleTold pf ⟨store, some (env, state)⟩ =
        ⟨store', none⟩ ∧
      Settled pf password (seen ++ [.toldHandled]) state store' log r := by
  obtain ⟨store', hhandled, hlogs, hkeeps⟩ :=
    h.logs.handleTold hpf h.healthy h.rests.short h.fits
  have htaken : takenEvents pf.actor.persistence (seen ++ [.toldHandled]) =
      takenEvents pf.actor.persistence seen := takenEvents_untaken rfl
  have hnow : replays pf (seen ++ [.toldHandled]) = ⟨some r, some r⟩ := by
    rw [replays_snoc, Replays.observe, h.now]
  exact ⟨store', hhandled,
    { lasts :=
        { keeps := hkeeps
          kept := by rw [hnow]
          handled := by simp
          full := fun hfull => htaken.symm ▸ h.rests.full hfull
          whole := h.whole.untaken rfl rfl }
      now := by rw [hnow]
      replay := h.replay
      logs := hlogs }⟩

/-- The child asks the store that has handled what it was told. -/
theorem ask_of_handled {child : StoreChild P}
    (hchild : child.handleTold pf = ⟨store, none⟩) (command : StoreCommand P E) :
    child.ask pf env command =
      ((store.ask pf env command).1, ⟨(store.ask pf env command).2, none⟩) := by
  unfold StoreChild.ask
  rw [hchild]

/-- An event that the actor accepts: what `persist` returns and leaves. -/
theorem persist_accepted (path : ActorPath) (hpf : pf.RoundTrips)
    (henv : env.Healthy) {child : StoreChild P}
    (hchild : child.handleTold pf = ⟨store, none⟩)
    (h : Keeps pf password store.toTables log r) (hstate : r.State pf state)
    (hlogs : store.Logs pf password log) (hbound : log.length < 2 ^ 64)
    (happly : pf.actor.apply state event = (state', .ok ())) :
    ∃ store' log',
      pf.actor.persist (StoreChild.ask pf env) path (some child) state event =
        (.ok (), state', some ⟨store', none⟩) ∧
      store'.Logs pf password log' ∧
      Keeps pf password store'.toTables log'
        (r.take pf.actor.persistence (.persist event)) ∧
      (pf.actor.persistence = .full → log' = log ++ [event]) := by
  cases hpersistence : pf.actor.persistence with
  | light =>
      obtain ⟨bytes, data, store', hsealed, hdata, -, hpersist, htables, hlogs'⟩ :=
        hlogs.persistState hpf henv (h.short hpersistence) event state'
      refine ⟨store', [event], ?_, hlogs', ?_, fun hfull => by contradiction⟩
      · simp [PersistentActor.persist, happly, hpersistence, ask_of_handled hchild,
          Store.ask, Store.handleMessage, hpersist, respond]
      · rw [htables]
        exact h.take_light hpersistence hstate happly hdata hsealed
  | full =>
      obtain ⟨bytes, store', hsealed, -, hpersist, htables, hlogs'⟩ :=
        hlogs.persist hpf henv hbound event
      refine ⟨store', log ++ [event], ?_, hlogs', ?_, fun _ => rfl⟩
      · simp [PersistentActor.persist, happly, hpersistence, ask_of_handled hchild,
          Store.ask, Store.handleMessage, hpersist, respond]
      · rw [htables]
        exact h.take_full hpersistence hsealed hbound

/-- An event that the actor refuses is not asked of the store. -/
theorem persist_refused (hupdate : ∀ s t, pf.actor.update s t = t)
    {child : StoreChild P} {e : ActorError}
    (happly : pf.actor.apply state event = (state', .error e)) :
    pf.actor.persist (StoreChild.ask pf env) path (some child) state event =
      (.error e, state, some child) := by
  simp [PersistentActor.persist, happly, hupdate]

theorem snapshot_taken (hpf : pf.RoundTrips) (henv : env.Healthy)
    {child : StoreChild P} (hchild : child.handleTold pf = ⟨store, none⟩)
    (h : Keeps pf password store.toTables log r) (hstate : r.State pf state)
    (hlogs : store.Logs pf password log) :
    ∃ store', child.ask pf env (.snapshot state) =
        (.ok .snapshotted, ⟨store', none⟩) ∧
      store'.Logs pf password log ∧
      Keeps pf password store'.toTables log
        (r.take pf.actor.persistence .snapshot) := by
  obtain ⟨data, store', hsealed, -, hsnapshot, htables, hlogs'⟩ :=
    hlogs.snapshot hpf henv state
  refine ⟨store', ?_, hlogs', ?_⟩
  · simp [ask_of_handled hchild, Store.ask, Store.handleMessage, hsnapshot, respond]
  · rw [htables]
    exact h.take_snapshot hstate hsealed

/-- The first writes of a call: either there are none, or the call has taken
effect. -/
theorem cut_taken (hpf : pf.RoundTrips) (henv : env.Healthy)
    (h : Keeps pf password store.toTables log r) (hstate : r.State pf state)
    (hlogs : store.Logs pf password log) (hbound : log.length < 2 ^ 64)
    (call : Call E) (writes : Nat) :
    (callWrites pf env store state call).take writes = [] ∨
    ∃ first rest log' state',
      (callWrites pf env store state call).take writes = first :: rest ∧
      Keeps pf password
        ((first :: rest).foldl TableWrite.apply store.toTables) log'
        (r.take pf.actor.persistence call) ∧
      (r.take pf.actor.persistence call).State pf state' ∧
      (pf.actor.persistence = .full → log' = log ++ acked [call]) := by
  cases writes with
  | zero => exact Or.inl rfl
  | succ writes =>
      cases call with
      | snapshot =>
          obtain ⟨data, -, hsealed, hwrites, -⟩ := hlogs.snapshot hpf henv state
          refine Or.inr ⟨.putState data, [], log, state, ?_,
            h.take_snapshot hstate hsealed, hstate.snapshot _, ?_⟩
          · rw [callWrites, hwrites, List.take_succ_cons, List.take_nil]
          · simp [acked]
      | persist event =>
          rcases happly : pf.actor.apply state event with ⟨state', e | _⟩
          · exact Or.inl (by simp [callWrites, happly])
          · cases hpersistence : pf.actor.persistence with
            | full =>
                obtain ⟨bytes, -, hsealed, hwrites, -⟩ :=
                  hlogs.persist hpf henv hbound event
                refine Or.inr ⟨.putEvent (eventKey (UInt64.ofNat log.length)) bytes,
                  [], log ++ [event], state', ?_,
                  h.take_full hpersistence hsealed hbound,
                  hstate.persist happly _, fun _ => rfl⟩
                simp only [callWrites, happly, hpersistence, hwrites]
                rw [List.take_succ_cons, List.take_nil]
            | light =>
                obtain ⟨bytes, data, -, hsealed, hdata, hwrites, -⟩ :=
                  hlogs.persistState hpf henv (h.short hpersistence) event state'
                cases writes with
                | zero =>
                    -- the crash comes between the snapshot and the event
                    refine Or.inr ⟨.putState data, [], log, state', ?_,
                      h.take_light_cut hpersistence hstate happly hdata,
                      hstate.persist happly _, fun hfull => by contradiction⟩
                    simp only [callWrites, happly, hpersistence, hwrites]
                    rfl
                | succ writes =>
                    refine Or.inr ⟨.putState data,
                      [.putEvent (eventKey (UInt64.ofNat (log.length - 1))) bytes],
                      [event], state', ?_,
                      h.take_light hpersistence hstate happly hdata hsealed,
                      hstate.persist happly _, fun hfull => by contradiction⟩
                    simp only [callWrites, happly, hpersistence, hwrites]
                    rw [List.take_succ_cons, List.take_succ_cons, List.take_nil]

end Steps

section Lives

variable {P E : Type} {pf : Platform P E} {path : ActorPath}
  {password : Option Key} {life life' : ActorLife P} {input : LifeInput P E}
  {seen os : List (LifeObs P E)}

/-- What is known of a life after these observations. -/
inductive ActorLife.Remembers (pf : Platform P E) (password : Option Key)
    (seen : List (LifeObs P E)) : ActorLife P → Prop
  | down (tables log) (hrests : Rests pf password tables seen log) :
      Remembers pf password seen (.down tables)
  | settled (state store log r)
      (hsettled : Settled pf password seen state store log r) :
      Remembers pf password seen (.up state ⟨store, none⟩)
  | telling (state store env log r)
      (htelling : Telling pf password seen state store env log r) :
      Remembers pf password seen (.up state ⟨store, some (env, state)⟩)

namespace ActorLife

variable {state state' : P} {child : StoreChild P}

/-- What is asked of the store finds it settled. -/
theorem Remembers.handled (hpf : pf.RoundTrips)
    (h : (ActorLife.up state child).Remembers pf password seen) :
    ∃ store log r, child.handleTold pf = ⟨store, none⟩ ∧
      Settled pf password (seen ++ child.handled ⟨store, none⟩) state store log
        r := by
  cases h with
  | settled _ store log r hsettled =>
      refine ⟨store, log, r, rfl, ?_⟩
      rwa [show StoreChild.handled ⟨store, none⟩ ⟨store, none⟩ =
        ([] : List (LifeObs P E)) from rfl, List.append_nil]
  | telling _ store env log r htelling =>
      obtain ⟨store', hhandled, hsettled⟩ := htelling.handled hpf
      exact ⟨store', log, r, hhandled, hsettled⟩

/-- What asks nothing of the store leaves it as it is. -/
theorem Remembers.idle {o : LifeObs P E} (h : life.Remembers pf password seen)
    (ho : o.Idle pf.actor.persistence) :
    life.Remembers pf password (seen ++ [o]) := by
  cases h with
  | down tables log hrests => exact .down tables log (hrests.idle ho)
  | settled state store log r hsettled =>
      exact .settled state store log r (hsettled.idle ho)
  | telling state store env log r htelling =>
      exact .telling state store env log r (htelling.idle ho)

/-- The tables when a life ends. -/
theorem Remembers.rests (h : life.Remembers pf password seen) :
    ∃ log, Rests pf password life.tables seen log := by
  cases h with
  | down tables log hrests => exact ⟨log, hrests⟩
  | settled state store log r hsettled =>
      exact ⟨log, .kept r state hsettled.lasts hsettled.replay⟩
  | telling state store env log r htelling => exact ⟨log, htelling.rests⟩

theorem Remembers.end {o : LifeObs P E} (h : life.Remembers pf password seen)
    (ho : o.Idle pf.actor.persistence) :
    (ActorLife.down life.tables).Remembers pf password (seen ++ [o]) := by
  obtain ⟨log, hrests⟩ := h.rests
  exact .down _ log (hrests.idle ho)

/-- A new life. -/
theorem Remembers.start (hpf : pf.RoundTrips)
    (hupdate : ∀ s t, pf.actor.update s t = t) {tables : Tables}
    (h : (ActorLife.down tables).Remembers pf password seen)
    (hcount : Countable pf seen) {env : StartEnv} (henv : env.Healthy)
    (initial : P) :
    ∃ state' child',
      PersistentActor.startStore pf env tables password initial =
        ⟨.ok (), state', some child'⟩ ∧
      (ActorLife.up state' child').Remembers pf password
        (seen ++ [.started initial]) := by
  cases h with
  | down _ log hrests =>
      have hbound := hrests.length_lt hcount
      cases hrests with
      | nothing htables hlog hkept htaken hnone =>
          subst htables hlog
          have hreplays : replays pf (seen ++ [.started initial]) =
              ⟨none, some ⟨initial, [], .noEvent⟩⟩ := by
            rw [replays_snoc, Replays.observe, hkept, Replays.start]
          have htaken' : takenEvents pf.actor.persistence
              (seen ++ [.started initial]) = [] :=
            (takenEvents_untaken rfl).trans htaken
          refine ⟨initial, _, startStore_first pf henv password initial,
            .telling initial (.first password) env.firstSnapshot []
              ⟨initial, [], .noEvent⟩
              { rests := .nothing rfl rfl (by rw [hreplays]) htaken' (by simpa)
                now := by rw [hreplays]
                replay := rfl
                logs := ⟨rfl, HoldsEvents.empty pf password, rfl⟩
                healthy := henv.firstSnapshot
                fits := .noEvent rfl
                whole := fun _ =>
                  ⟨firstValue_started hnone initial, htaken'.symm⟩ }⟩
      | kept r state hlasts hstate =>
          rcases hlasts.keeps.start hpf hupdate henv hstate hbound initial with
            ⟨r', state', store', hrecovered, hsame, hstart, hlogs, hkeeps, hstate'⟩ |
            ⟨store', hrecovered, hcoverage, hne, hstart, hlogs, htables⟩
          · exact ⟨state', _, hstart, .settled state' store' log r'
              { lasts := hlasts.restarted hrecovered hsame hkeeps
                now := by
                  rw [replays_snoc]
                  simp [Replays.observe, Replays.start, hlasts.kept, hrecovered]
                replay := hstate'
                logs := hlogs }⟩
          · have hnow : (replays pf (seen ++ [.started initial])).now =
                some ⟨initial, [], .covered⟩ := by
              rw [replays_snoc]
              simp [Replays.observe, Replays.start, hlasts.kept, hrecovered]
            refine ⟨initial, _, hstart, .telling initial store' env.firstSnapshot
              log ⟨initial, [], .covered⟩
              { rests := .kept r state ?_ hstate
                now := hnow
                replay := rfl
                logs := hlogs
                healthy := henv.firstSnapshot
                fits := .all (fun hnone => absurd hnone hne) rfl
                whole := fun hwhole =>
                  absurd hwhole (hlasts.not_covered hcoverage initial) }⟩
            rw [htables]
            exact hlasts.passedOver hrecovered hcoverage initial

/-- A call of the running actor. -/
theorem Remembers.call (path : ActorPath) (hpf : pf.RoundTrips)
    (hupdate : ∀ s t, pf.actor.update s t = t)
    (h : (ActorLife.up state child).Remembers pf password seen) {env : Env}
    (henv : env.Healthy) (hcount : Countable pf seen) (call : Call E) :
    ∃ o life', (ActorLife.up state child).step pf path password (.call env call) =
        some (life', o) ∧ (∀ e, .notStarted e ∉ o) ∧
      life'.Remembers pf password (seen ++ o) := by
  obtain ⟨store, log, r, hchild, hsettled⟩ := h.handled hpf
  have hbound := Rests.length_lt (.kept r state hsettled.lasts hsettled.replay)
    (hcount.handled child ⟨store, none⟩)
  cases call with
  | snapshot =>
      obtain ⟨store', hask, hlogs, hkeeps⟩ := snapshot_taken hpf henv hchild
        hsettled.lasts.keeps hsettled.replay hsettled.logs
      refine ⟨child.handled ⟨store', none⟩ ++ [.returned .snapshot (.ok ())],
        .up state ⟨store', none⟩, ?_, notStarted_not_mem child _ (by simp), ?_⟩
      · simp only [ActorLife.step, PersistentActor.snapshot, hask, Option.map_some]
      · rw [← List.append_assoc]
        exact .settled state store' log _ (hsettled.taken rfl hkeeps
          (by simp [acked]) (hsettled.replay.snapshot _) hlogs)
  | persist event =>
      rcases happly : pf.actor.apply state event with ⟨state', e | _⟩
      · have hsame : (child.handled child : List (LifeObs P E)) = [] := by
          unfold StoreChild.handled
          cases child.told <;> rfl
        refine ⟨[.returned (.persist event) (.error e)], .up state child, ?_,
          by simp, h.idle ⟨by simp, by simp, rfl⟩⟩
        simp only [ActorLife.step, persist_refused hupdate happly, Option.map_some,
          hsame, List.nil_append]
      · obtain ⟨store', log', hpersist, hlogs, hkeeps, hlog⟩ :=
          persist_accepted path hpf henv hchild hsettled.lasts.keeps
            hsettled.replay hsettled.logs hbound happly
        refine ⟨child.handled ⟨store', none⟩ ++
            [.returned (.persist event) (.ok ())],
          .up state' ⟨store', none⟩, ?_, notStarted_not_mem child _ (by simp), ?_⟩
        · simp only [ActorLife.step, hpersist, Option.map_some]
        · rw [← List.append_assoc]
          exact .settled state' store' log' _ (hsettled.taken rfl hkeeps hlog
            (hsettled.replay.persist happly _) hlogs)

/-- A life ends with `stop_store`. -/
theorem Remembers.stop (path : ActorPath) (hpf : pf.RoundTrips)
    (h : (ActorLife.up state child).Remembers pf password seen) {env : Env}
    (henv : env.Healthy) (askStop : Except ActorError Unit) :
    ∃ o life', (ActorLife.up state child).step pf path password
        (.stop env askStop) = some (life', o) ∧ (∀ e, .notStarted e ∉ o) ∧
      life'.Remembers pf password (seen ++ o) := by
  cases hpersistence : pf.actor.persistence with
  | light =>
      have hsame : (child.handled child : List (LifeObs P E)) = [] := by
        unfold StoreChild.handled
        cases child.told <;> rfl
      refine ⟨[.stopped askStop], .down child.store.toTables, ?_, by simp,
        h.end ⟨by simp, by simp, by simp [LifeObs.taken, hpersistence]⟩⟩
      simp only [ActorLife.step, PersistentActor.stopStore, hpersistence,
        Option.map_some, hsame, List.nil_append]
  | full =>
      obtain ⟨store, log, r, hchild, hsettled⟩ := h.handled hpf
      obtain ⟨store', hask, hlogs, hkeeps⟩ := snapshot_taken hpf henv hchild
        hsettled.lasts.keeps hsettled.replay hsettled.logs
      refine ⟨child.handled ⟨store', none⟩ ++ [.stopped askStop],
        .down store'.toTables, ?_, notStarted_not_mem child _ (by simp), ?_⟩
      · simp only [ActorLife.step, PersistentActor.stopStore, hpersistence, hask,
          Option.map_some]
      · rw [← List.append_assoc]
        exact .down _ log (.kept _ state (hsettled.lasts.taken hsettled.now
          (by simp [LifeObs.taken, hpersistence]) hkeeps (by simp [acked]))
          (hsettled.replay.snapshot _))

/-- A life is cut off in a call. -/
theorem Remembers.cut (path : ActorPath) (hpf : pf.RoundTrips)
    (h : (ActorLife.up state child).Remembers pf password seen) {env : Env}
    (henv : env.Healthy) (hcount : Countable pf seen) (call : Call E)
    (writes : Nat) :
    ∃ o life', (ActorLife.up state child).step pf path password
        (.cut env call writes) = some (life', o) ∧ (∀ e, .notStarted e ∉ o) ∧
      life'.Remembers pf password (seen ++ o) := by
  obtain ⟨store, log, r, hchild, hsettled⟩ := h.handled hpf
  have hbound := Rests.length_lt (.kept r state hsettled.lasts hsettled.replay)
    (hcount.handled child ⟨store, none⟩)
  let written := (callWrites pf env store state call).take writes
  refine ⟨child.handled ⟨store, none⟩ ++ [.cut call written],
    .down (written.foldl TableWrite.apply store.toTables), ?_,
    notStarted_not_mem child _ (by simp), ?_⟩
  · simp only [ActorLife.step, hchild, written]
  · rw [← List.append_assoc]
    rcases cut_taken hpf henv hsettled.lasts.keeps hsettled.replay hsettled.logs
      hbound call writes with
      hnone | ⟨first, rest, log', state', hwritten, hkeeps, hstate', hlog⟩
    · rw [show written = [] from hnone]
      exact .down _ log (.kept r state (hsettled.lasts.idle
        ⟨by simp, by simp, rfl⟩) hsettled.replay)
    · rw [show written = first :: rest from hwritten]
      exact .down _ log' (.kept _ state'
        (hsettled.lasts.taken hsettled.now rfl hkeeps hlog) hstate')

/-- One step of a life: no start fails, and what is known of it stays. -/
theorem Remembers.step (hpf : pf.RoundTrips)
    (hupdate : ∀ s t, pf.actor.update s t = t)
    (h : life.Remembers pf password seen) (hinput : input.Healthy)
    (hcount : Countable pf seen)
    (hstep : life.step pf path password input = some (life', os)) :
    (∀ e, .notStarted e ∉ os) ∧ life'.Remembers pf password (seen ++ os) := by
  cases life with
  | down tables =>
      cases input with
      | start env initial =>
          obtain ⟨state, child, hstart, hnext⟩ :=
            h.start hpf hupdate hcount hinput initial
          simp only [ActorLife.step, hstart, Option.map_some, Option.some.injEq,
            Prod.mk.injEq] at hstep
          obtain ⟨rfl, rfl⟩ := hstep
          exact ⟨by simp, hnext⟩
      | _ => simp [ActorLife.step] at hstep
  | up state child =>
      cases input with
      | start env initial => simp [ActorLife.step] at hstep
      | told =>
          cases h with
          | settled _ store log r _ => simp [ActorLife.step] at hstep
          | telling _ store env log r htelling =>
              obtain ⟨store', hhandled, hsettled⟩ := htelling.handled hpf
              simp only [ActorLife.step, hhandled, Option.some.injEq,
                Prod.mk.injEq] at hstep
              obtain ⟨rfl, rfl⟩ := hstep
              exact ⟨by simp, .settled state store' log r hsettled⟩
      | crash =>
          simp only [ActorLife.step, Option.some.injEq, Prod.mk.injEq] at hstep
          obtain ⟨rfl, rfl⟩ := hstep
          exact ⟨by simp, h.end ⟨by simp, by simp, rfl⟩⟩
      | stop env askStop =>
          obtain ⟨o, next, hsame, hnext⟩ := h.stop path hpf hinput askStop
          rw [hsame] at hstep
          cases hstep
          exact hnext
      | cut env call writes =>
          obtain ⟨o, next, hsame, hnext⟩ := h.cut path hpf hinput hcount call writes
          rw [hsame] at hstep
          cases hstep
          exact hnext
      | call env call =>
          obtain ⟨o, next, hsame, hnext⟩ :=
            h.call path hpf hupdate hinput hcount call
          rw [hsame] at hstep
          cases hstep
          exact hnext

end ActorLife

section Runs

variable {inputs : List (LifeInput P E)}
  (hpf : pf.RoundTrips) (hupdate : ∀ s t, pf.actor.update s t = t)
  (hinputs : ∀ input ∈ inputs, input.Healthy)
  (hrun : execute (ActorLife.step pf path password) .unborn inputs =
    some (life, seen))
  (hcount : Countable pf seen)

include hpf hupdate hinputs hrun hcount

/-- What every run of lives keeps. -/
theorem remembers_of_execute :
    (∀ e, .notStarted e ∉ seen) ∧ life.Remembers pf password seen := by
  have hmeet : StepsMeet (ActorLife.step pf path password)
      (fun _ input => input.Healthy) .unborn inputs :=
    stepsMeet_of_forall (fun input hin _ => hinputs input hin) _
  -- the bound on the events of the whole run bounds those of every part of it
  have hhistory := execute_history
    (P := fun life seen => Countable pf seen →
      (∀ e, .notStarted e ∉ seen) ∧ ActorLife.Remembers pf password seen life)
    (by
      intro life seen input life' os hold hinput hstep hcount
      obtain ⟨hstarts, hremembers⟩ := hold hcount.before
      obtain ⟨hstarted, hnext⟩ :=
        hremembers.step hpf hupdate hinput hcount.before hstep
      refine ⟨fun e hmem => ?_, hnext⟩
      rcases List.mem_append.mp hmem with hmem | hmem
      · exact hstarts e hmem
      · exact hstarted e hmem)
    [] (fun _ => ⟨by simp, .down _ [] (.nothing rfl rfl rfl rfl (by simp))⟩)
    hmeet hrun
  exact hhistory hcount

/-- **The state of a persistent actor.**  Over any number of lives, each ended by
`stop_store` or cut off between any two calls or writes, also before the store has
come to the first snapshot, every `start_store` succeeds, and the actor is in the
state of the replay of `replays`: all events that have taken effect, from its
first stored value, unless a life of a full actor has begun before a snapshot was
taken behind the first event; this one is skipped then, or all events so far are
given up if the others can't be applied without it.  The table of a full actor
holds them all in either case. -/
theorem state_is_replayed :
    (∀ e, .notStarted e ∉ seen) ∧
    (∀ state child, life = .up state child →
      ∃ r, (replays pf seen).now = some r ∧
        pf.applyAll r.base r.events = .ok state) ∧
    (pf.actor.persistence = .full →
      HoldsEvents pf password life.tables.events
        (takenEvents pf.actor.persistence seen)) := by
  obtain ⟨hstarts, hremembers⟩ :=
    remembers_of_execute hpf hupdate hinputs hrun hcount
  refine ⟨hstarts, fun state child hup => ?_, fun hfull => ?_⟩
  · subst hup
    cases hremembers with
    | settled _ store log r hsettled => exact ⟨r, hsettled.now, hsettled.replay⟩
    | telling _ store env log r htelling =>
        exact ⟨r, htelling.now, htelling.replay⟩
  · obtain ⟨log, hrests⟩ := hremembers.rests
    rw [← hrests.full hfull]
    exact hrests.holds

/-- **Lives go on where the last one has ended.**  The state of a light actor is
always the replay of all events that have taken effect in any of its lives, from
its first stored value; and so is that of a full actor, if no life begins between
the first event and a snapshot behind it. -/
theorem lives_resume {state : P} {child : StoreChild P}
    (hup : life = .up state child)
    (hwhole : pf.actor.persistence = .light ∨ EachCovered pf seen) :
    ∃ s₀, firstValue seen = some s₀ ∧
      pf.applyAll s₀ (takenEvents pf.actor.persistence seen) = .ok state := by
  obtain ⟨-, hremembers⟩ := remembers_of_execute hpf hupdate hinputs hrun hcount
  subst hup
  cases hremembers with
  | settled _ store log r hsettled =>
      obtain ⟨hfirst, hevents⟩ := hsettled.lasts.whole hwhole
      exact ⟨r.base, hfirst, hevents ▸ hsettled.replay⟩
  | telling _ store env log r htelling =>
      obtain ⟨hfirst, hevents⟩ := htelling.whole hwhole
      exact ⟨r.base, hfirst, hevents ▸ htelling.replay⟩

end Runs

end Lives

namespace CounterActor

/-- The first life of a full actor ends before its snapshot is handled, the second
one after its first event. -/
def firstEventOnly : List (LifeInput UInt8 UInt8) :=
  [.start startEnv 3, .crash, .start startEnv 0, .call env (.persist 5), .crash,
    .start startEnv 9]

theorem firstEventOnly_healthy : ∀ input ∈ firstEventOnly, input.Healthy := by
  simp [firstEventOnly, LifeInput.Healthy, startEnv_healthy, env_healthy]

/-- `state_is_replayed` where nothing is left of the first value, and the first
event is skipped. -/
theorem firstEventOnly_replayed :
    ∃ child seen r,
      execute (ActorLife.step platform path none) .unborn firstEventOnly =
        some (.up 0 child, seen) ∧
      (replays platform seen).now = some r ∧
      platform.applyAll r.base r.events = .ok 0 := by
  have hrun : (execute (ActorLife.step platform path none) .unborn
      firstEventOnly).any (fun p =>
        (match p.1 with | .up state _ => state == 0 | .down _ => false) &&
          (takenEvents .full p.2).length == 1) = true := by
    decide +kernel
  obtain ⟨⟨life, seen⟩, hrun, hends⟩ := (Option.any_eq_true _ _).mp hrun
  obtain ⟨hstate, hcount⟩ := (Bool.and_eq_true _ _).mp hends
  cases life with
  | down tables => contradiction
  | up state child =>
      obtain rfl : state = 0 := eq_of_beq hstate
      have hone : (takenEvents .full seen).length = 1 := eq_of_beq hcount
      obtain ⟨-, hup, -⟩ := state_is_replayed platform_roundTrips (fun _ _ => rfl)
        firstEventOnly_healthy hrun (fun _ => hone ▸ by decide)
      obtain ⟨r, hreplayed, happly⟩ := hup 0 child rfl
      exact ⟨child, seen, r, hrun, hreplayed, happly⟩

/-- The same actor with light persistence. -/
def lightPlatform : Platform UInt8 UInt8 :=
  platform.withActor { platform.actor with persistence := .light }

/-- Four lives of a light actor: the first is stopped before its snapshot is
handled, the second is stopped, the third is cut off between the snapshot and the
event. -/
def fourLives : List (LifeInput UInt8 UInt8) :=
  [.start startEnv 4, .stop env (.ok ()), .start startEnv 0, .told,
    .call env (.persist 5), .stop env (.ok ()), .start startEnv 9,
    .cut env (.persist 3) 1, .start startEnv 7]

theorem fourLives_healthy : ∀ input ∈ fourLives, input.Healthy := by
  simp [fourLives, LifeInput.Healthy, startEnv_healthy, env_healthy]

/-- `lives_resume` for a light actor. -/
theorem fourLives_resume :
    ∃ child seen,
      execute (ActorLife.step lightPlatform path none) .unborn fourLives =
        some (.up 8 child, seen) ∧
      firstValue seen = some 0 ∧
      lightPlatform.applyAll 0 (takenEvents .light seen) = .ok 8 := by
  have hrun : (execute (ActorLife.step lightPlatform path none) .unborn
      fourLives).any (fun p =>
        (match p.1 with | .up state _ => state == 8 | .down _ => false) &&
          firstValue p.2 == some 0) = true := by
    decide +kernel
  obtain ⟨⟨life, seen⟩, hrun, hends⟩ := (Option.any_eq_true _ _).mp hrun
  obtain ⟨hstate, hvalue⟩ := (Bool.and_eq_true _ _).mp hends
  cases life with
  | down tables => contradiction
  | up state child =>
      obtain rfl : state = 8 := eq_of_beq hstate
      have hzero : firstValue seen = some 0 := eq_of_beq hvalue
      obtain ⟨s₀, hfirst, happly⟩ := lives_resume
        ⟨codec_roundTrips, cipher_roundTrips⟩ (fun _ _ => rfl)
        fourLives_healthy hrun (fun hfull => by contradiction) rfl (Or.inl rfl)
      obtain rfl : s₀ = 0 := Option.some.inj (hfirst.symm.trans hzero)
      exact ⟨child, seen, hrun, hzero, happly⟩

end CounterActor

end Persistence
end Rush
