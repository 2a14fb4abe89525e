import Rush.Persistence.CounterActor
import Rush.Persistence.LogInvariant
import Rush.Persistence.PersistentActor

/-!
# Recovery after a crash equals event replay

A run of an actor with full persistence is a sequence of acknowledged `persist`
and `snapshot` calls after `start_store` on empty tables, which has told the store
its first snapshot.  A snapshot records the number of the last event, and 0 stands
both for "no event" and for "event number 0": a snapshot taken before the first
event hides it from the recovery.
-/

namespace Rush
namespace Persistence

open Foundation Database Actor

variable {P E : Type}

/-- A call of the running actor on its store. -/
inductive Call (E : Type)
  | persist (event : E)
  | snapshot
deriving DecidableEq

/-- What happens in a run: a call of the actor, or the store comes to the snapshot
that `start_store` has told it. -/
inductive RunInput (E : Type)
  | call (env : Env) (call : Call E)
  | told

def RunInput.Healthy : RunInput E → Prop
  | .call env _ => env.Healthy
  | .told => True

/-- One step of a run; only a call that returns `Ok` continues it, and is
observed. -/
def callStep (pf : Platform P E) (path : ActorPath)
    (running : P × StoreChild P) :
    RunInput E → Option ((P × StoreChild P) × List (Call E))
  | .call env (.persist event) =>
      match pf.actor.persist (StoreChild.ask pf env) path (some running.2)
          running.1 event with
      | (.ok (), actor, some child) => some ((actor, child), [.persist event])
      | _ => none
  | .call env .snapshot =>
      match PersistentActor.snapshot (StoreChild.ask pf env) (some running.2)
          running.1 with
      | (.ok (), some child) => some ((running.1, child), [.snapshot])
      | _ => none
  | .told =>
      match running.2.told with
      | none => none
      | some _ => some ((running.1, running.2.handleTold pf), [])

/-- The events of the acknowledged `persist` calls, in order. -/
def acked : List (Call E) → List E
  | [] => []
  | .persist event :: calls => event :: acked calls
  | .snapshot :: calls => acked calls

/-- A snapshot was taken after the first persisted event. -/
def SnapshotAfterFirst : List (Call E) → Prop
  | [] => False
  | .persist _ :: calls => .snapshot ∈ calls
  | .snapshot :: calls => SnapshotAfterFirst calls

@[simp] theorem acked_append (calls calls' : List (Call E)) :
    acked (calls ++ calls') = acked calls ++ acked calls' := by
  induction calls with
  | nil => rfl
  | cons call calls ih => cases call <;> simp [acked, ih]

theorem snapshotAfterFirst_append_persist (calls : List (Call E)) (event : E) :
    SnapshotAfterFirst (calls ++ [.persist event]) ↔
      SnapshotAfterFirst calls := by
  induction calls with
  | nil => simp [SnapshotAfterFirst]
  | cons call calls ih => cases call <;> simp [SnapshotAfterFirst, ih]

theorem snapshotAfterFirst_append_snapshot (calls : List (Call E)) :
    SnapshotAfterFirst (calls ++ [.snapshot]) ↔ acked calls ≠ [] := by
  induction calls with
  | nil => simp [SnapshotAfterFirst, acked]
  | cons call calls ih => cases call <;> simp [SnapshotAfterFirst, acked, ih]

/-- What the first snapshot establishes and every call keeps: after these calls
the actor is in the state of the replay of all events, and the stored snapshot in
that of the first `k`. -/
structure Running (pf : Platform P E) (password : Option Key) (s₀ : P)
    (calls : List (Call E)) (actor : P) (store : Store) (k : Nat) : Prop where
  state : pf.applyAll s₀ (acked calls) = .ok actor
  keyBox : store.keyBox = password
  log : HoldsEvents pf password store.events (acked calls)
  counter : store.eventCounter = UInt64.ofNat ((acked calls).length - 1)
  covers : k ≤ (acked calls).length
  snapshot : ∃ data s, store.states = some data ∧
    Store.SealedState pf password data s (UInt64.ofNat (k - 1)) ∧
    pf.applyAll s₀ ((acked calls).take k) = .ok s
  covered : k ≠ 0 ↔ SnapshotAfterFirst calls

section Steps

variable {pf : Platform P E} {password : Option Key} {s₀ : P}
  {calls : List (Call E)} {actor : P} {store : Store} {k : Nat} {env : Env}

theorem callStep_persist (hfull : pf.actor.persistence = .full)
    {path : ActorPath} {child : StoreChild P} {event : E} {t : P × StoreChild P}
    {o : List (Call E)}
    (h : callStep pf path (actor, child) (.call env (.persist event)) =
      some (t, o)) :
    ∃ s, pf.actor.apply actor event = (s, .ok ()) ∧
      t = (s, ⟨((child.handleTold pf).store.persist pf env event).2, none⟩) ∧
      o = [.persist event] := by
  unfold callStep PersistentActor.persist StoreChild.ask at h
  rcases happly : pf.actor.apply actor event with ⟨s, e | _⟩
  · simp [happly] at h
  · refine ⟨s, rfl, ?_⟩
    rcases hpersist : (child.handleTold pf).store.persist pf env event with
      ⟨(e | _) | _, store'⟩
    · simp [happly, hfull, Store.ask, Store.handleMessage, hpersist,
        respond] at h
    · simp [happly, hfull, Store.ask, Store.handleMessage, hpersist,
        respond] at h
    · simp [happly, hfull, Store.ask, Store.handleMessage, hpersist,
        respond] at h
      exact ⟨h.1.symm, h.2.symm⟩

theorem callStep_snapshot {path : ActorPath} {child : StoreChild P}
    {t : P × StoreChild P} {o : List (Call E)}
    (h : callStep pf path (actor, child) (.call env .snapshot) = some (t, o)) :
    t = (actor, ⟨((child.handleTold pf).store.snapshot pf env actor).2, none⟩) ∧
      o = [.snapshot] := by
  unfold callStep PersistentActor.snapshot StoreChild.ask at h
  rcases hsnapshot : (child.handleTold pf).store.snapshot pf env actor with
    ⟨(e | _) | _, store'⟩
  · simp [Store.ask, Store.handleMessage, hsnapshot, respond] at h
    exact ⟨h.1.symm, h.2.symm⟩
  · simp [Store.ask, Store.handleMessage, hsnapshot, respond] at h
  · simp [Store.ask, Store.handleMessage, hsnapshot, respond] at h
    exact ⟨h.1.symm, h.2.symm⟩

theorem callStep_told {path : ActorPath} {child : StoreChild P}
    {t : P × StoreChild P} {o : List (Call E)}
    (h : callStep pf path (actor, child) .told = some (t, o)) :
    t = (actor, child.handleTold pf) ∧ o = [] := by
  unfold callStep at h
  simp only at h
  split at h
  · cases h
  · cases h
    exact ⟨rfl, rfl⟩

theorem applyAll_append_single {s t : P} {events : List E} {event : E}
    (hstate : pf.applyAll s events = .ok t) {u : P}
    (happly : pf.actor.apply t event = (u, .ok ())) :
    pf.applyAll s (events ++ [event]) = .ok u := by
  rw [Platform.applyAll_append, hstate]
  simp [Except.bind, Platform.applyAll, happly]

/-- The next event gets the number of events so far. -/
theorem Running.nextEventNumber
    (h : Running pf password s₀ calls actor store k) (henv : env.Healthy)
    (hbound : (acked calls).length < 2 ^ 64) :
    store.nextEventNumber pf env =
      .ok (UInt64.ofNat (acked calls).length) := by
  have hsealed : AllSealed pf store.keyBox store.events :=
    h.keyBox ▸ h.log.allSealed
  rw [Store.nextEventNumber_eq henv.onlyWritesFail hsealed, h.counter]
  by_cases hnone : acked calls = []
  · -- nothing is stored, and the counter is 0
    rw [if_pos ⟨by simp [hnone], h.log.eq_empty_iff.mpr hnone⟩, hnone]
    rfl
  · have hpos := List.length_pos_iff.mpr hnone
    rw [if_neg fun hfirst => hnone (h.log.eq_empty_iff.mp hfirst.2),
      Platform.succ, HoldsEvents.toNat_ofNat (by omega), if_pos (by omega)]
    have hnext : UInt64.ofNat ((acked calls).length - 1) + 1 =
        UInt64.ofNat ((acked calls).length - 1 + 1) := by
      rw [UInt64.ofNat_add]
      rfl
    rw [hnext, Nat.sub_add_cancel hpos]

/-- A `persist` that returns `Ok` keeps the invariant. -/
theorem Running.persist (hpf : pf.RoundTrips)
    (h : Running pf password s₀ calls actor store k) (henv : env.Healthy)
    {event : E} {s : P} (happly : pf.actor.apply actor event = (s, .ok ()))
    (hbound : (acked calls).length + 1 ≤ 2 ^ 64) :
    Running pf password s₀ (calls ++ [.persist event]) s
      (store.persist pf env event).2 k := by
  obtain ⟨data, hseal, hsealed⟩ := Store.sealEvent_ok store hpf henv
    event
  have hacked : acked (calls ++ [.persist event]) = acked calls ++ [event] := by
    simp [acked]
  have hpersist : (store.persist pf env event).2 =
      { store with
        events := store.events.insert
          (eventKey (UInt64.ofNat (acked calls).length)) data
        eventCounter := UInt64.ofNat (acked calls).length } := by
    unfold Store.persist
    simp only [hseal, h.nextEventNumber henv (by omega), henv.1]
  rw [h.keyBox] at hsealed
  rw [hpersist]
  refine ⟨?_, h.keyBox, ?_, ?_, ?_, ?_, ?_⟩
  · rw [hacked]
    exact applyAll_append_single h.state happly
  · rw [hacked]
    exact h.log.insert hsealed hbound
  · simp [hacked]
  · rw [hacked, List.length_append]
    exact Nat.le_add_right_of_le h.covers
  · obtain ⟨snapshot, s', hstates, hsealed', htake⟩ := h.snapshot
    refine ⟨snapshot, s', hstates, hsealed', ?_⟩
    rw [hacked, List.take_append_of_le_length h.covers]
    exact htake
  · rw [snapshotAfterFirst_append_persist]
    exact h.covered

/-- A snapshot covers all events so far. -/
theorem Running.snapshot_keeps (hpf : pf.RoundTrips)
    (h : Running pf password s₀ calls actor store k) (henv : env.Healthy) :
    Running pf password s₀ (calls ++ [.snapshot]) actor
      (store.snapshot pf env actor).2 (acked calls).length := by
  have hacked : acked (calls ++ [.snapshot]) = acked calls := by
    simp [acked]
  obtain ⟨data, hseal, hsealed⟩ := Store.sealState_ok store hpf henv
    actor store.eventCounter
  rcases Store.snapshot_cases pf env store actor with
    ⟨hfails, -⟩ | ⟨bytes, hseal', -, hsnapshot⟩
  · exact (Store.not_writeFails_of_healthy hpf henv actor _ hfails).elim
  · rw [hseal] at hseal'
    cases hseal'
    rw [hsnapshot]
    refine ⟨?_, h.keyBox, ?_, ?_, ?_, ⟨data, actor, rfl, ?_, ?_⟩, ?_⟩
    · rw [hacked]
      exact h.state
    · rw [hacked]
      exact h.log
    · rw [hacked]
      exact h.counter
    · rw [hacked]
    · rw [← h.counter, ← h.keyBox]
      exact hsealed
    · rw [hacked, List.take_length]
      exact h.state
    · rw [snapshotAfterFirst_append_snapshot]
      simp

/-- What every run keeps: the invariant of the store that has handled what it was
told, and nothing stored while it has not. -/
structure Alive (pf : Platform P E) (password : Option Key) (s₀ : P)
    (calls : List (Call E)) (actor : P) (child : StoreChild P) : Prop where
  running : ∃ k,
    Running pf password s₀ calls actor (child.handleTold pf).store k
  told : child.told ≠ none → calls = [] ∧ child.store.toTables = ⟨∅, none⟩

/-- The store of `Store::new` on empty tables. -/
def Store.first (password : Option Key) : Store :=
  ⟨⟨∅, none⟩, 0, 0, password⟩

/-- `start_store` on empty tables. -/
theorem startStore_first (pf : Platform P E) {env : StartEnv}
    (henv : env.Healthy) (password : Option Key) (s₀ : P) :
    PersistentActor.startStore pf env ⟨∅, none⟩ password s₀ =
      ⟨.ok (), s₀, some ⟨.first password, some (env.firstSnapshot, s₀)⟩⟩ := by
  have hlast : (∅ : Table).last? = none := Table.last?_eq_none_iff.mpr rfl
  have hnew : Store.new env.creation ⟨∅, none⟩ password =
      .ok (.first password) := by
    unfold Store.new
    simp [henv.creation.1, henv.creation.2.1, hlast, Store.first]
  have hstate : (Store.first password).getState pf env.recovery = .ok none := by
    simp [Store.getState, Store.getStateData, henv.recovery.1, Store.first, bind,
      Except.bind, pure, Except.pure]
  have hrecover : (Store.first password).recover pf env.recovery =
      (.ok none, .first password) := by
    simp only [Store.recover, hstate]
  simp [PersistentActor.startStore, hnew, henv.createChild, henv.tell, Store.ask,
    Store.handleMessage, hrecover, respond]

/-- The store has come to its first snapshot. -/
theorem Running.first (hpf : pf.RoundTrips) (henv : env.Healthy)
    (password : Option Key) (s₀ : P) :
    Running pf password s₀ [] s₀
      (StoreChild.handleTold pf ⟨.first password, some (env, s₀)⟩).store 0 := by
  obtain ⟨data, hseal, hsealed⟩ := Store.sealState_ok (.first password) hpf henv s₀ 0
  show Running pf password s₀ [] s₀
    ((Store.first password).snapshot pf env s₀).2 0
  rcases Store.snapshot_cases pf env (.first password) s₀ with
    ⟨hfails, -⟩ | ⟨bytes, hseal', -, hsnapshot⟩
  · exact absurd hfails (Store.not_writeFails_of_healthy hpf henv s₀ _)
  · obtain rfl : data = bytes := Except.ok.inj (hseal.symm.trans hseal')
    rw [hsnapshot]
    refine ⟨rfl, rfl, HoldsEvents.empty pf password, rfl, Nat.le_refl 0,
      ⟨data, s₀, rfl, hsealed, rfl⟩, ?_⟩
    simp [SnapshotAfterFirst]

theorem Alive.step (hfull : pf.actor.persistence = .full) (hpf : pf.RoundTrips)
    {path : ActorPath} {child child' : StoreChild P} {input : RunInput E}
    {actor' : P} {o : List (Call E)} (h : Alive pf password s₀ calls actor child)
    (hinput : input.Healthy)
    (hstep : callStep pf path (actor, child) input = some ((actor', child'), o))
    (hbound : (acked (calls ++ o)).length ≤ 2 ^ 64) :
    Alive pf password s₀ (calls ++ o) actor' child' := by
  obtain ⟨k, hrunning⟩ := h.running
  cases input with
  | told =>
      obtain ⟨hnext, rfl⟩ := callStep_told hstep
      cases hnext
      rw [List.append_nil]
      have hdone : (child.handleTold pf).told = none := by
        unfold StoreChild.handleTold
        split
        · assumption
        · rfl
      refine ⟨⟨k, ?_⟩, fun hwaits => absurd hdone hwaits⟩
      have hsame : (child.handleTold pf).handleTold pf = child.handleTold pf := by
        rw [StoreChild.handleTold, hdone]
      rw [hsame]
      exact hrunning
  | call env call =>
      cases call with
      | persist event =>
          obtain ⟨s, happly, hnext, rfl⟩ := callStep_persist hfull hstep
          cases hnext
          rw [acked_append, List.length_append] at hbound
          exact ⟨⟨k, hrunning.persist hpf hinput happly hbound⟩,
            fun hwaits => absurd rfl hwaits⟩
      | snapshot =>
          obtain ⟨hnext, rfl⟩ := callStep_snapshot hstep
          cases hnext
          exact ⟨⟨_, hrunning.snapshot_keeps hpf hinput⟩,
            fun hwaits => absurd rfl hwaits⟩

/-- The invariant holds after every run. -/
theorem Alive.execute (hfull : pf.actor.persistence = .full)
    (hpf : pf.RoundTrips) {path : ActorPath} {start : P × StoreChild P}
    (hstart : Alive pf password s₀ [] start.1 start.2)
    {inputs : List (RunInput E)} (hinputs : ∀ input ∈ inputs, input.Healthy)
    {running : P × StoreChild P} {calls : List (Call E)}
    (hrun : execute (callStep pf path) start inputs = some (running, calls))
    (hbound : (acked calls).length ≤ 2 ^ 64) :
    Alive pf password s₀ calls running.1 running.2 := by
  have hmeet : StepsMeet (callStep pf path)
      (fun _ input => input.Healthy) start inputs :=
    stepsMeet_of_forall (fun input hin _ => hinputs input hin) start
  -- the bound on the events of the whole run bounds those of every part of it
  have hhistory := execute_history
    (P := fun running calls => (acked calls).length ≤ 2 ^ 64 →
      Alive pf password s₀ calls running.1 running.2)
    (by
      rintro ⟨actor, child⟩ calls input ⟨actor', child'⟩ o hold henv hstep hbound
      have hbefore := hbound
      rw [acked_append, List.length_append] at hbefore
      exact (hold (by omega)).step hfull hpf henv hstep hbound)
    [] (fun _ => hstart) hmeet hrun
  exact hhistory hbound

/-- With a healthy database, a recovery behind the last event answers what the
replay gives. -/
theorem recover_of_replay (hpf : pf.RoundTrips) (henv : env.Healthy) {s : P}
    {c n : UInt64} {key : Str} {data : Bytes}
    (hstate : store.getState pf env = .ok (some (s, c)))
    (hlast : store.last env = some (key, data)) (hkey : parseU64 key = .ok n)
    (hne : n ≠ c) :
    (store.recover pf env).1 =
      (Store.replay pf env { store with stateCounter := c, eventCounter := n }
        s).map some := by
  simp only [Store.recover_eq hstate hlast hkey, if_neg hne]
  cases Store.replay pf env
      { store with stateCounter := c, eventCounter := n } s with
  | error e => rfl
  | ok s' =>
      rcases Store.snapshot_cases pf env
          { store with stateCounter := c, eventCounter := n } s' with
        ⟨hfails, -⟩ | ⟨bytes, -, -, hsnapshot⟩
      · exact absurd hfails (Store.not_writeFails_of_healthy hpf henv s' _)
      · simp only [hsnapshot]
        rfl

/-- The events behind a snapshot of `k` events, as the reopened store reads
them: it starts at number `k`, but never at 0. -/
theorem Running.replay (h : Running pf password s₀ calls actor store k)
    (henv : env.Healthy) {reopened : Store} (hkeyBox : reopened.keyBox = password)
    (hevents : reopened.events = store.events)
    (hlt : k - 1 < (acked calls).length - 1) (s : P) :
    Store.replay pf env
        { reopened with
          stateCounter := UInt64.ofNat (k - 1)
          eventCounter := UInt64.ofNat ((acked calls).length - 1) } s =
      pf.applyAll s ((acked calls).drop (max k 1)) := by
  have hbound := h.log.bounded
  have hstart : UInt64.ofNat (k - 1) + 1 = UInt64.ofNat (max k 1) := by
    rw [show max k 1 = k - 1 + 1 by omega, UInt64.ofNat_add]
    rfl
  have hcount : (acked calls).length - 1 - (k - 1) =
      ((acked calls).drop (max k 1)).length + 0 := by
    rw [List.length_drop]
    omega
  have hread : reopened.eventsFrom pf env
      ((acked calls).length - 1 - (k - 1)) (UInt64.ofNat (max k 1)) =
        .ok ((acked calls).drop (max k 1)) := by
    rw [hcount, Store.eventsFrom_append
      (h.log.eventsAt henv hkeyBox hevents (max k 1))]
    simp [Store.eventsFrom, Except.map]
  rw [Store.replay_eq pf env reopened
      (by rw [HoldsEvents.toNat_ofNat (by omega)]; omega),
    HoldsEvents.toNat_ofNat (by omega), HoldsEvents.toNat_ofNat (by omega),
    hstart, hread]
  rfl

/-- The recovery after a crash replays the events behind the snapshot, but never
event number 0. -/
theorem Running.recover (hpf : pf.RoundTrips)
    (h : Running pf password s₀ calls actor store k) {creation : Env}
    (hcreation : creation.Healthy) (henv : env.Healthy) :
    ∃ reopened s,
      Store.new creation store.toTables password = .ok reopened ∧
        pf.applyAll s₀ ((acked calls).take k) = .ok s ∧
        (reopened.recover pf env).1 =
          (pf.applyAll s ((acked calls).drop (max k 1))).map some := by
  obtain ⟨reopened, hnew⟩ :=
    Store.new_of_healthy hcreation store.toTables password
  obtain ⟨htables, hkeyBox⟩ := Store.new_spec hnew
  have hevents : reopened.events = store.events := by rw [htables]
  have hstates : reopened.states = store.states := by rw [htables]
  obtain ⟨data, s, hdata, hsealed, htake⟩ := h.snapshot
  refine ⟨reopened, s, hnew, htake, ?_⟩
  have hstate : reopened.getState pf env =
      .ok (some (s, UInt64.ofNat (k - 1))) :=
    hsealed env reopened henv hkeyBox (hstates.trans hdata)
  have hbound := h.log.bounded
  have hcovers := h.covers
  by_cases hnone : acked calls = []
  · -- no event: the snapshot is the answer
    have hlog : HoldsEvents pf password store.events [] := hnone ▸ h.log
    simp [Store.recover, hstate, Store.last, henv.1, hevents, hlog.last_none,
      hnone, Platform.applyAll, Except.map]
  · have hpos : 0 < (acked calls).length := List.length_pos_iff.mpr hnone
    obtain ⟨last, -, -, hlast, -⟩ := h.log.last_some hnone
    rw [← hevents, ← Store.last_of_onlyWritesFail henv.onlyWritesFail reopened]
      at hlast
    by_cases hcurrent : UInt64.ofNat ((acked calls).length - 1) =
        UInt64.ofNat (k - 1)
    · -- the snapshot carries the number of the last event
      have hnum := congrArg UInt64.toNat hcurrent
      rw [HoldsEvents.toNat_ofNat (by omega),
        HoldsEvents.toNat_ofNat (by omega)] at hnum
      have hdrop : (acked calls).drop (max k 1) = [] :=
        List.drop_eq_nil_of_le (by omega)
      rw [Store.recover_eq hstate hlast (parseU64_eventKey _), hdrop]
      simp [hcurrent, Platform.applyAll, Except.map]
    · have hlt : k - 1 < (acked calls).length - 1 := by
        by_contra hge
        exact hcurrent (by congr 1; omega)
      rw [recover_of_replay hpf henv hstate hlast (parseU64_eventKey _) hcurrent,
        h.replay henv hkeyBox hevents hlt]

/-- What `Recover` answers, by the result of `recover`. -/
theorem handleMessage_recover_iff {result : Except (Failure StoreError) P}
    (hrecover : (store.recover pf env).1 = result.map some) {t : P} :
    (store.handleMessage pf env .recover).1 = .ok (.state (some t)) ↔
      result = .ok t := by
  show respond StoreResponse.state (store.recover pf env).1 = _ ↔ _
  rw [hrecover]
  cases result with
  | error e => cases e <;> simp [Except.map, respond]
  | ok s' => simp [Except.map, respond]

/-- The events behind the snapshot, without number 0, lead to the actor's state
if and only if the first event is covered or does not matter. -/
theorem Running.applyAll_drop_iff
    (h : Running pf password s₀ calls actor store k) {s : P}
    (htake : pf.applyAll s₀ ((acked calls).take k) = .ok s) :
    pf.applyAll s ((acked calls).drop (max k 1)) = .ok actor ↔
      acked calls = [] ∨ k ≠ 0 ∨ pf.applyAll s₀ (acked calls).tail = .ok actor := by
  have hstate := h.state
  by_cases hk : k = 0
  · subst hk
    obtain rfl : s₀ = s := by simpa [Platform.applyAll] using htake
    by_cases hnone : acked calls = []
    · rw [hnone] at hstate
      simpa [hnone] using hstate
    · simp [hnone, List.drop_one]
  · -- the replay of the first `k` events continues with the others
    have hmax : max k 1 = k := by omega
    have hsplit := Platform.applyAll_append pf s₀ ((acked calls).take k)
      ((acked calls).drop k)
    rw [List.take_append_drop, hstate, htake] at hsplit
    have happly : pf.applyAll s ((acked calls).drop k) = .ok actor :=
      hsplit.symm
    rw [hmax]
    simp [hk, happly]

end Steps

/-- Where nothing is stored, `Recover` answers no state. -/
theorem recover_unstored {creation recovery : Env} (hrecovery : recovery.Healthy)
    {reopened : Store}
    (hnew : Store.new creation ⟨∅, none⟩ password = .ok reopened) :
    (reopened.handleMessage pf recovery .recover).1 = .ok (.state none) := by
  have hstates : reopened.states = none := by rw [(Store.new_spec hnew).1]
  have hstate : reopened.getState pf recovery = .ok none := by
    simp [Store.getState, Store.getStateData, hrecovery.1, hstates, bind,
      Except.bind, pure, Except.pure]
  show respond StoreResponse.state (reopened.recover pf recovery).1 = _
  simp only [Store.recover, hstate]
  rfl

/-- **Crash recovery.**  Under full persistence, `Recover` on the reopened
tables answers the state of the replay of all acknowledged events if and only if
the store has come to the first snapshot, and there is no event, or a snapshot
was taken after the first one, or the replay without the first event gives the
same state. -/
theorem recover_replays_iff (pf : Platform P E)
    (hfull : pf.actor.persistence = .full) (hpf : pf.RoundTrips)
    (path : ActorPath) (password : Option Key) (s₀ : P) (env : StartEnv)
    (henv : env.Healthy) {first : StoreChild P}
    (hfirst : (PersistentActor.startStore pf env ⟨∅, none⟩ password s₀).child =
      some first)
    {inputs : List (RunInput E)} (hinputs : ∀ input ∈ inputs, input.Healthy)
    {actor : P} {child : StoreChild P} {calls : List (Call E)}
    (hrun : execute (callStep pf path)
      ((PersistentActor.startStore pf env ⟨∅, none⟩ password s₀).actor, first)
        inputs = some ((actor, child), calls))
    (hbound : (acked calls).length ≤ 2 ^ 64) {creation recovery : Env}
    (hcreation : creation.Healthy) (hrecovery : recovery.Healthy) :
    (∃ reopened s,
      Store.new creation child.store.toTables password = .ok reopened ∧
        pf.applyAll s₀ (acked calls) = .ok s ∧
        (reopened.handleMessage pf recovery .recover).1 =
          .ok (.state (some s))) ↔
      child.told = none ∧ (acked calls = [] ∨ SnapshotAfterFirst calls ∨
        pf.applyAll s₀ (acked calls).tail = pf.applyAll s₀ (acked calls)) := by
  rw [startStore_first pf henv] at hfirst hrun
  cases hfirst
  have hstart : Alive pf password s₀ [] s₀
      ⟨.first password, some (env.firstSnapshot, s₀)⟩ :=
    ⟨⟨0, .first hpf henv.firstSnapshot password s₀⟩, fun _ => ⟨rfl, rfl⟩⟩
  have halive := Alive.execute hfull hpf hstart hinputs hrun hbound
  cases htold : child.told with
  | some told =>
      -- nothing is stored yet, not even the first snapshot
      obtain ⟨-, hnothing⟩ := halive.told (by simp [htold])
      refine iff_of_false ?_ (by simp)
      rintro ⟨reopened, s, hnew, -, hrespond⟩
      rw [hnothing] at hnew
      rw [recover_unstored hrecovery hnew] at hrespond
      simp at hrespond
  | none =>
      obtain ⟨k, hrunning⟩ := halive.running
      have hhandled : child.handleTold pf = child := by
        rw [StoreChild.handleTold, htold]
      rw [hhandled] at hrunning
      obtain ⟨reopened, s, hnew, htake, hrecover⟩ :=
        hrunning.recover hpf hcreation hrecovery
      have hstate := hrunning.state
      rw [hstate, ← hrunning.covered, ← hrunning.applyAll_drop_iff htake]
      constructor
      · intro hanswers
        obtain ⟨reopened', t, hnew', ht, hrespond⟩ := hanswers
        obtain rfl : reopened = reopened' :=
          Except.ok.inj (hnew.symm.trans hnew')
        obtain rfl : actor = t := Except.ok.inj ht
        exact ⟨rfl, (handleMessage_recover_iff hrecover).mp hrespond⟩
      · rintro ⟨-, happly⟩
        exact ⟨reopened, actor, hnew, rfl,
          (handleMessage_recover_iff hrecover).mpr happly⟩

namespace CounterActor

def path : ActorPath := ActorPath.ofText "/user/counter".toList

/-- The child of `start_store` with the initial state 0. -/
def freshChild : StoreChild UInt8 :=
  ⟨⟨⟨∅, none⟩, 0, 0, none⟩, some (env, 0)⟩

theorem freshChild_eq :
    (PersistentActor.startStore platform startEnv ⟨∅, none⟩ none 0).child =
      some freshChild := by
  rfl

/-- A snapshot after the first event. -/
def snapshotBetween : List (RunInput UInt8) :=
  [.call env (.persist 5), .call env .snapshot, .call env (.persist 7)]

theorem snapshotBetween_healthy : ∀ input ∈ snapshotBetween, input.Healthy := by
  simp [snapshotBetween, RunInput.Healthy, env_healthy]

/-- `recover_replays_iff` after a crash behind the event 7. -/
theorem snapshotBetween_recovered :
    ∃ child reopened,
      execute (callStep platform path) (0, freshChild) snapshotBetween =
        some ((12, child), [.persist 5, .snapshot, .persist 7]) ∧
      Store.new env child.store.toTables none = .ok reopened ∧
      (reopened.handleMessage platform env .recover).1 =
        .ok (.state (some 12)) := by
  have hends : (execute (callStep platform path) (0, freshChild)
      snapshotBetween).any (fun run => run.1.1 == 12 && run.1.2.told.isNone &&
        run.2 == [.persist 5, .snapshot, .persist 7]) = true := by
    decide +kernel
  obtain ⟨⟨⟨actor, child⟩, calls⟩, hrun, hend⟩ := (Option.any_eq_true _ _).mp hends
  simp only [Bool.and_eq_true, beq_iff_eq, Option.isNone_iff_eq_none] at hend
  obtain ⟨⟨rfl, htold⟩, rfl⟩ := hend
  obtain ⟨reopened, s, hnew, hreplay, hrespond⟩ :=
    (recover_replays_iff platform rfl platform_roundTrips path none 0 startEnv
      startEnv_healthy freshChild_eq snapshotBetween_healthy hrun (by decide)
      env_healthy env_healthy).mpr
        ⟨htold, Or.inr (Or.inl (by simp [SnapshotAfterFirst]))⟩
  obtain rfl : s = 12 := by
    have hsum : platform.applyAll 0 [5, 7] = .ok 12 := by decide +kernel
    exact Except.ok.inj (hreplay.symm.trans hsum)
  exact ⟨child, reopened, hrun, hnew, hrespond⟩

/-- The store after the event 5. -/
def oneEvent : Store where
  events := (∅ : Table).insert (eventKey 0) [5]
  states := some [0, 0]
  eventCounter := 0
  stateCounter := 0
  keyBox := none

/-- A crash after the first event: `Recover` answers the initial state 0, and
the acknowledged event 5 is lost. -/
theorem oneEvent_is_lost :
    execute (callStep platform path)
        ((PersistentActor.startStore platform startEnv ⟨∅, none⟩ none 0).actor,
          freshChild)
        [.told, .call env (.persist 5)] =
      some ((5, ⟨oneEvent, none⟩), [.persist 5]) ∧
      (Store.new env oneEvent.toTables none).map (fun reopened =>
          (reopened.handleMessage platform env .recover).1) =
        .ok (.ok (.state (some 0))) ∧
      ¬ ∃ reopened s,
        Store.new env oneEvent.toTables none = .ok reopened ∧
          platform.applyAll 0 (acked [.persist 5]) = .ok s ∧
          (reopened.handleMessage platform env .recover).1 =
            .ok (.state (some s)) := by
  have hanswer : (Store.new env oneEvent.toTables none).map (fun reopened =>
      (reopened.handleMessage platform env .recover).1) =
        .ok (.ok (.state (some 0))) := by
    decide +kernel
  refine ⟨by rfl, hanswer, ?_⟩
  rintro ⟨reopened, s, hnew, hreplay, hrespond⟩
  rw [hnew] at hanswer
  have hzero : s = 0 := by
    have hsame := hrespond.symm.trans (Except.ok.inj hanswer)
    simpa using hsame
  rw [hzero] at hreplay
  exact absurd hreplay (by decide)

end CounterActor

end Persistence
end Rush
