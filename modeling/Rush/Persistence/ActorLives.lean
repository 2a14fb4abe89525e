import Rush.Persistence.EventReplay
import Rush.Persistence.LightAtomicity

/-!
# The lives of a persistent actor

`PersistentActor` in `store/src/store.rs`, over any number of lives on the same
tables.  A life begins with a new value of the actor and `start_store`; then come
calls of `persist` and `snapshot`, and it ends with `stop_store`, or with a crash
between two calls or between two writes of a call.  The store comes to the first
snapshot, which `start_store` only tells it, at any time before the next command
that it is asked; a life may end before that, by a crash or with a `stop_store`
that asks the store for nothing.
-/

namespace Rush
namespace Persistence

open Foundation Database Actor

variable {P E : Type}

section Writes

variable (pf : Platform P E) (env : Env) (store : Store)

/-- The write of `Store::persist`, if it comes to it. -/
def Store.persistWrites (event : E) : List TableWrite :=
  match store.sealEvent pf env event with
  | .error _ => []
  | .ok bytes =>
      match store.nextEventNumber pf env with
      | .error _ => []
      | .ok next =>
          match env.fault .eventsPut with
          | some _ => []
          | none => [.putEvent (eventKey next) bytes]

/-- The write of `Store::snapshot`, if it comes to it. -/
def Store.snapshotWrites (actor : P) : List TableWrite :=
  match store.sealState pf env actor store.eventCounter with
  | .error _ => []
  | .ok bytes =>
      match env.fault .statesPut with
      | some _ => []
      | none => [.putState bytes]

/-- The writes of a call of the actor in this state. -/
def callWrites (state : P) : Call E → List TableWrite
  | .persist event =>
      match pf.actor.apply state event with
      | (_, .error _) => []
      | (state, .ok ()) =>
          match pf.actor.persistence with
          | .light => store.lightWrites pf env event state
          | .full => store.persistWrites pf env event
  | .snapshot => store.snapshotWrites pf env state

end Writes

/-- The actor with its store while it lives, and what is left of both. -/
inductive ActorLife (P : Type)
  | down (tables : Tables)
  | up (state : P) (child : StoreChild P)

inductive LifeInput (P E : Type)
  | start (env : StartEnv) (initial : P)
  | told
  | call (env : Env) (call : Call E)
  | stop (env : Env) (askStop : Except ActorError Unit)
  | crash
  | cut (env : Env) (call : Call E) (writes : Nat)

/-- What is seen of a life; a call that is cut leaves its first writes. -/
inductive LifeObs (P E : Type)
  | started (initial : P)
  | notStarted (error : ActorError)
  | toldHandled
  | returned (call : Call E) (result : Except ActorError Unit)
  | stopped (result : Except ActorError Unit)
  | crashed
  | cut (call : Call E) (written : List TableWrite)

/-- The store has come to what it was told. -/
def StoreChild.handled (child child' : StoreChild P) : List (LifeObs P E) :=
  if child.told.isSome && child'.told.isNone then [.toldHandled] else []

namespace ActorLife

/-- The tables, also those of a store at work. -/
def tables : ActorLife P → Tables
  | .down tables => tables
  | .up _ child => child.store.toTables

/-- Before the first life. -/
def unborn : ActorLife P := .down ⟨∅, none⟩

section Step

variable (pf : Platform P E) (path : ActorPath) (password : Option Key)

/-- A step of a life. -/
def step : ActorLife P → LifeInput P E →
    Option (ActorLife P × List (LifeObs P E))
  | .down tables, .start env initial =>
      let left := PersistentActor.startStore pf env tables password initial
      match left.result with
      | .error e =>
          some (.down ((left.child.map fun child => child.store.toTables).getD
            tables), [.notStarted e])
      | .ok () =>
          left.child.map fun child => (.up left.actor child, [.started initial])
  | .up state child, .told =>
      match child.told with
      | none => none
      | some _ => some (.up state (child.handleTold pf), [.toldHandled])
  | .up state child, .call env (.persist event) =>
      let (result, state, left) :=
        pf.actor.persist (StoreChild.ask pf env) path (some child) state event
      left.map fun left =>
        (.up state left, child.handled left ++ [.returned (.persist event) result])
  | .up state child, .call env .snapshot =>
      let (result, left) :=
        PersistentActor.snapshot (StoreChild.ask pf env) (some child) state
      left.map fun left =>
        (.up state left, child.handled left ++ [.returned .snapshot result])
  | .up state child, .stop env askStop =>
      let (result, left) :=
        pf.actor.stopStore (StoreChild.ask pf env) askStop (some child) state
      left.map fun left =>
        (.down left.store.toTables, child.handled left ++ [.stopped result])
  | .up _ child, .crash => some (.down child.store.toTables, [.crashed])
  | .up state child, .cut env call writes =>
      let left := child.handleTold pf
      let written := (callWrites pf env left.store state call).take writes
      some (.down (written.foldl TableWrite.apply left.store.toTables),
        child.handled left ++ [.cut call written])
  | _, _ => none

end Step

end ActorLife

/-- Nothing fails; the actor may still refuse an event. -/
def LifeInput.Healthy : LifeInput P E → Prop
  | .start env _ => env.Healthy
  | .told => True
  | .call env _ => env.Healthy
  | .stop env _ => env.Healthy
  | .crash => True
  | .cut env _ _ => env.Healthy

/-! ### What the state is made of -/

/-- The call that has taken effect: one that returned `Ok`, one that was cut
after a write, and the snapshot of `stop_store`. -/
def LifeObs.taken (persistence : PersistenceType) :
    LifeObs P E → Option (Call E)
  | .returned call (.ok ()) => some call
  | .cut call (_ :: _) => some call
  | .stopped _ =>
      match persistence with
      | .light => none
      | .full => some .snapshot
  | _ => none

/-- The events of the calls that have taken effect, in order. -/
def takenEvents (persistence : PersistenceType) (seen : List (LifeObs P E)) :
    List E :=
  acked (seen.filterMap (LifeObs.taken persistence))

/-- Whether a snapshot was taken after the first event. -/
inductive Coverage
  | noEvent
  | uncovered
  | covered
deriving DecidableEq

/-- A state as the replay of events. -/
structure Replayed (P E : Type) where
  base : P
  events : List E
  coverage : Coverage

namespace Replayed

/-- A light event comes with a snapshot. -/
def take (r : Replayed P E) : PersistenceType → Call E → Replayed P E
  | .light, .persist event => ⟨r.base, r.events ++ [event], .covered⟩
  | .full, .persist event =>
      { r with
        events := r.events ++ [event]
        coverage :=
          match r.coverage with
          | .noEvent => .uncovered
          | coverage => coverage }
  | _, .snapshot =>
      { r with
        coverage :=
          match r.coverage with
          | .uncovered => .covered
          | coverage => coverage }

/-- What a recovery gets of the events that the tables keep.  A first event without
a snapshot behind it is skipped; if the others can't be applied without it, there
is nothing that it gets. -/
def recovered (pf : Platform P E) (r : Replayed P E) : Option (Replayed P E) :=
  match r.coverage, r.events with
  | .uncovered, _ :: events =>
      match pf.applyAll r.base events with
      | .ok _ => some ⟨r.base, events, .covered⟩
      | .error _ => none
  | _, _ => some r

@[simp] theorem base_take (r : Replayed P E) (persistence : PersistenceType)
    (call : Call E) : (r.take persistence call).base = r.base := by
  cases persistence <;> cases call <;> rfl

theorem events_take (r : Replayed P E) (persistence : PersistenceType)
    (call : Call E) :
    (r.take persistence call).events = r.events ++ acked [call] := by
  cases persistence <;> cases call <;> simp [take, acked]

end Replayed

/-- What the tables keep for the next life, and what the actor of this one is in
the state of.  They differ while the store has not come to the first snapshot. -/
structure Replays (P E : Type) where
  kept : Option (Replayed P E)
  now : Option (Replayed P E)

namespace Replays

/-- A new life goes on where the tables have got to, or else with the new value of
the actor, which the tables keep only with its snapshot. -/
def start (pf : Platform P E) (initial : P) :
    Option (Replayed P E) → Replays P E
  | none => ⟨none, some ⟨initial, [], .noEvent⟩⟩
  | some r =>
      match r.recovered pf with
      | some r => ⟨some r, some r⟩
      | none => ⟨some r, some ⟨initial, [], .covered⟩⟩

/-- One more observation. -/
def observe (pf : Platform P E) (h : Replays P E) (o : LifeObs P E) :
    Replays P E :=
  match o with
  | .started initial => start pf initial h.kept
  | .toldHandled => ⟨h.now, h.now⟩
  | o =>
      match o.taken pf.actor.persistence with
      | some call =>
          let now := h.now.map fun r => r.take pf.actor.persistence call
          ⟨now, now⟩
      | none => h

end Replays

/-- What is kept and what the state is made of after these observations. -/
def replays (pf : Platform P E) (seen : List (LifeObs P E)) : Replays P E :=
  seen.foldl (Replays.observe pf) ⟨none, none⟩

section Histories

variable {pf : Platform P E} {seen : List (LifeObs P E)} {o : LifeObs P E}

@[simp] theorem replays_nil :
    replays pf ([] : List (LifeObs P E)) = ⟨none, none⟩ := rfl

@[simp] theorem replays_snoc :
    replays pf (seen ++ [o]) = (replays pf seen).observe pf o := by
  simp [replays]

@[simp] theorem takenEvents_nil (persistence : PersistenceType) :
    takenEvents persistence ([] : List (LifeObs P E)) = [] := rfl

theorem takenEvents_snoc (persistence : PersistenceType) :
    takenEvents persistence (seen ++ [o]) =
      takenEvents persistence seen ++ acked (o.taken persistence).toList := by
  unfold takenEvents
  rw [List.filterMap_append, acked_append]
  cases h : o.taken persistence <;> simp [h]

/-- An observation that takes effect. -/
theorem observe_taken {h : Replays P E} {r : Replayed P E} {call : Call E}
    (hnow : h.now = some r) (ho : o.taken pf.actor.persistence = some call) :
    h.observe pf o = ⟨some (r.take pf.actor.persistence call),
      some (r.take pf.actor.persistence call)⟩ := by
  cases o with
  | started initial => simp [LifeObs.taken] at ho
  | toldHandled => simp [LifeObs.taken] at ho
  | _ => simp [Replays.observe, ho, hnow]

/-- An observation that changes nothing. -/
def LifeObs.Idle (persistence : PersistenceType) (o : LifeObs P E) : Prop :=
  (∀ initial, o ≠ .started initial) ∧ o ≠ .toldHandled ∧
    o.taken persistence = none

theorem observe_idle {h : Replays P E} (ho : o.Idle pf.actor.persistence) :
    h.observe pf o = h := by
  obtain ⟨hstart, htold, hnone⟩ := ho
  cases o with
  | started initial => exact absurd rfl (hstart initial)
  | toldHandled => exact absurd rfl htold
  | _ => simp [Replays.observe, hnone]

end Histories

end Persistence
end Rush
