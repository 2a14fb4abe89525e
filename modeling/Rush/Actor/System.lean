import Rush.Actor.RunnerSpec
import Mathlib.Logic.Function.Basic

/-!
# The actor system

`SystemRef` of `actor/src/system.rs`: the registry of actor references by path,
and the calls of `create_actor_path`.  A call first checks the registry under
the read lock, then creates a runner and inserts its reference under the write
lock, and starts the runner; a call and its runner go by one number.  Steps of
calls and runners interleave freely.
-/

namespace Rush
namespace Actor

variable {M Ev : Type}

/-- A call of `create_actor_path`, up to and with the runner it has started. -/
inductive Creation (M Ev : Type)
  | absent
  | checked (path : ActorPath) (cfg : RunnerConfig)
  | refused (path : ActorPath)
  | running (path : ActorPath) (cfg : RunnerConfig) (runner : Runner M Ev)

/-- The registry `actors` and the calls so far. -/
structure System (M Ev : Type) where
  actors : ActorPath → Option Nat
  creations : Nat → Creation M Ev

inductive SystemInput (M Ev : Type)
  | check (call : Nat) (path : ActorPath) (cfg : RunnerConfig)
  | insert (call : Nat)
  | run (call : Nat) (input : Input M Ev)

inductive SystemObs (M Ev : Type)
  /-- The call returns `Err(Error::Exists)`. -/
  | exists (call : Nat) (path : ActorPath)
  | registered (call : Nat) (path : ActorPath)
  | does (call : Nat) (path : ActorPath) (obs : Obs M Ev)
deriving DecidableEq

def Obs.isRemoveActor : Obs M Ev → Bool
  | .removeActor => true
  | _ => false

namespace System

/-- `SystemRef::new`. -/
def empty : System M Ev := ⟨fun _ => none, fun _ => .absent⟩

/-- The read-locked check of `create_actor_path`. -/
def check (s : System M Ev) (call : Nat) (path : ActorPath)
    (cfg : RunnerConfig) : System M Ev × List (SystemObs M Ev) :=
  if (s.actors path).isSome then
    ({ s with creations := Function.update s.creations call (.refused path) },
      [.exists call path])
  else
    ({ s with creations := Function.update s.creations call (.checked path cfg) },
      [])

/-- The write-locked insertion, with the start of the runner. -/
def insert (s : System M Ev) (call : Nat) (path : ActorPath)
    (cfg : RunnerConfig) : System M Ev :=
  { actors := Function.update s.actors path (some call)
    creations :=
      Function.update s.creations call (.running path cfg Runner.create) }

/-- A step of a runner; `remove_actor` is by path only. -/
def ran (s : System M Ev) (call : Nat) (path : ActorPath) (cfg : RunnerConfig)
    (r : Runner M Ev) (o : List (Obs M Ev)) : System M Ev :=
  { actors :=
      if o.any Obs.isRemoveActor then Function.update s.actors path none
      else s.actors
    creations := Function.update s.creations call (.running path cfg r) }

/-- A step of the system. -/
def step (s : System M Ev) :
    SystemInput M Ev → Option (System M Ev × List (SystemObs M Ev))
  | .check call path cfg =>
      match s.creations call with
      | .absent => some (s.check call path cfg)
      | _ => none
  | .insert call =>
      match s.creations call with
      -- the path is not checked again
      | .checked path cfg => some (s.insert call path cfg, [.registered call path])
      | _ => none
  | .run call input =>
      match s.creations call with
      | .running path cfg r =>
          match Runner.step cfg r input with
          | some (r', o) =>
              some (s.ran call path cfg r' o, o.map (.does call path))
          | none => none
      | _ => none

/-- The stop channel of a call is open as long as its runner has not ended. -/
def channelOpen (s : System M Ev) (call : Nat) : Bool :=
  match s.creations call with
  | .running _ _ r => !r.phase.isEnded
  | _ => false

/-- The stop channel of a call is open and has no room. -/
def stopFull (s : System M Ev) (call : Nat) : Bool :=
  match s.creations call with
  | .running _ _ r => !r.phase.isEnded && decide (stopCapacity ≤ r.stopQueue.length)
  | _ => false

theorem channelOpen_iff {s : System M Ev} {call : Nat} : s.channelOpen call = true ↔
    ∃ path cfg r, s.creations call = .running path cfg r ∧ r.phase ≠ .ended := by
  unfold channelOpen
  cases hcall : s.creations call with
  | running path cfg r => cases hphase : r.phase <;> simp [hphase, Phase.isEnded]
  | _ => simp

theorem stopFull_iff {s : System M Ev} {call : Nat} : s.stopFull call = true ↔
    ∃ path cfg r, s.creations call = .running path cfg r ∧ r.phase ≠ .ended ∧
      stopCapacity ≤ r.stopQueue.length := by
  unfold stopFull
  cases hcall : s.creations call with
  | running path cfg r => cases hphase : r.phase <;> simp [hphase, Phase.isEnded]
  | _ => simp

/-- The steps of the system, by name. -/
inductive Transition (s : System M Ev) :
    SystemInput M Ev → System M Ev → List (SystemObs M Ev) → Prop
  | refuses (call path cfg) (hcall : s.creations call = .absent)
      (hexists : (s.actors path).isSome) :
      Transition s (.check call path cfg)
        { s with creations := Function.update s.creations call (.refused path) }
        [.exists call path]
  | checks (call path cfg) (hcall : s.creations call = .absent)
      (hfree : s.actors path = none) :
      Transition s (.check call path cfg)
        { s with
          creations := Function.update s.creations call (.checked path cfg) } []
  | inserts (call path cfg) (hcall : s.creations call = .checked path cfg) :
      Transition s (.insert call) (s.insert call path cfg)
        [.registered call path]
  | runs (call input path cfg r r' o)
      (hcall : s.creations call = .running path cfg r)
      (hstep : Runner.step cfg r input = some (r', o)) :
      Transition s (.run call input) (s.ran call path cfg r' o)
        (o.map (.does call path))

theorem step_transition {s t : System M Ev} {i : SystemInput M Ev}
    {o : List (SystemObs M Ev)} (h : s.step i = some (t, o)) :
    Transition s i t o := by
  cases i with
  | check call path cfg =>
      simp only [step] at h
      split at h
      case h_1 hcall =>
        unfold check at h
        split at h
        case isTrue hexists =>
          cases h
          exact .refuses call path cfg hcall hexists
        case isFalse hfree =>
          cases h
          exact .checks call path cfg hcall (by simpa using hfree)
      case h_2 => contradiction
  | insert call =>
      simp only [step] at h
      split at h
      case h_1 path cfg hcall =>
        cases h
        exact .inserts call path cfg hcall
      case h_2 => contradiction
  | run call input =>
      simp only [step] at h
      split at h
      case h_1 path cfg r hcall =>
        split at h
        case h_1 r' o' hstep =>
          cases h
          exact .runs call input path cfg r r' o' hcall hstep
        case h_2 => contradiction
      case h_2 => contradiction

/-- The runner has unregistered its path in a step it was observed in. -/
def Removed (call : Nat) (path : ActorPath) (seen : List (SystemObs M Ev)) :
    Prop :=
  .does call path .removeActor ∈ seen

theorem any_isRemoveActor_iff {o : List (Obs M Ev)} :
    o.any Obs.isRemoveActor = true ↔ .removeActor ∈ o := by
  rw [List.any_eq_true]
  constructor
  · rintro ⟨x, hx, hremove⟩
    cases x <;> first | exact hx | contradiction
  · exact fun h => ⟨_, h, rfl⟩

theorem does_mem_map {call call' : Nat} {path path' : ActorPath} {x : Obs M Ev}
    {o : List (Obs M Ev)} :
    SystemObs.does call path x ∈ o.map (.does call' path') ↔
      call = call' ∧ path = path' ∧ x ∈ o := by
  rw [List.mem_map]
  constructor
  · rintro ⟨y, hy, heq⟩
    cases heq
    exact ⟨rfl, rfl, hy⟩
  · rintro ⟨rfl, rfl, hx⟩
    exact ⟨x, hx, rfl⟩

section Lifetimes

/-- A call that checks, inserts and starts its runner. -/
def starting (call : Nat) (path : ActorPath) (cfg : RunnerConfig) :
    List (SystemInput M Ev) :=
  [.check call path cfg, .insert call, .run call (.choice .proceed),
    .run call (.choice (.returns (.ok ()))), .run call (.choice .proceed)]

/-- A stop request to an actor without children, up to its acknowledgement. -/
def stopping (call : Nat) : List (SystemInput M Ev) :=
  [.run call (.arrival (.stop ⟨.outside, some 0⟩)), .run call (.choice .takeStop),
    .run call (.choice (.returns (.ok ()))), .run call (.choice .proceed),
    .run call (.choice .proceed), .run call (.choice .proceed)]

/-- What follows the acknowledgement: `post_stop` and the end of the runner. -/
def terminating (call : Nat) : List (SystemInput M Ev) :=
  [.run call (.choice .proceed), .run call (.choice .proceed),
    .run call (.choice (.returns (.ok ()))), .run call (.choice .proceed),
    .run call (.choice .proceed)]

/-- A root actor that is not restarted. -/
def plainRoot : RunnerConfig := ⟨false, .stop⟩

/-- The path `/user/a`. -/
def userPath : ActorPath := ⟨[['u', 's', 'e', 'r'], ['a']]⟩

end Lifetimes

end System

end Actor
end Rush
