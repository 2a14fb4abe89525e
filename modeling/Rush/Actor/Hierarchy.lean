import Rush.Actor.ParentChild
import Rush.Actor.Path
import Rush.Actor.Registry
import Mathlib.Logic.Relation

/-!
# The actors of a system as a hierarchy

All runners of a system, connected as `create_child` connects them.  The hook
that calls `create_child` waits for the start signal of the child and then gets
its stop sender; the errors and faults of a child go to the error queue of its
parent, the action on a fault comes back on a channel of its own, and
`stop_childs` sends each child a request with a channel for the acknowledgement.
What else the hooks do, what other tasks send and how the runners interleave is
arbitrary.
-/

namespace Rush
namespace Actor

open Foundation

variable {M Ev : Type}

/-- Who has called `create_child`, and in which of its hooks. -/
structure Origin (M : Type) where
  parent : Nat
  hook : Hook M
deriving DecidableEq

/-- The system with the channels between its actors, by the number of a call.
`creating` is the call that a hook of the actor waits for, `signalled` what the
creator of the actor has been told, and `awaited` the child whose
acknowledgement the actor waits for. -/
structure Hierarchy (M Ev : Type) where
  system : System M Ev
  origin : Nat → Option (Origin M)
  creating : Nat → Option Nat
  signalled : Nat → Option Bool
  awaited : Nat → Option Nat
  fault : Nat → FaultChannel
  stop : Nat → StopChannel

inductive HierarchyInput (M Ev : Type)
  /-- The check of `create_root_actor`, and that of `create_child`. -/
  | createRoot (call : Nat) (name : Str) (strategy : SupervisionStrategy)
  | createChild (parent call : Nat) (name : Str) (strategy : SupervisionStrategy)
  | insert (call : Nat)
  /-- `create_child` returns. -/
  | created (parent : Nat)
  /-- What comes from other tasks. -/
  | arrive (call : Nat) (arrival : Arrival M)
  | run (call : Nat) (choice : Choice Ev)

inductive HierarchyObs (M Ev : Type)
  | system (obs : SystemObs M Ev)
  /-- `create_child` returns `Ok`. -/
  | childCreated (parent child : Nat)
  /-- `stop_childs` has found the channel of a child closed. -/
  | childClosed (parent child : Nat)
deriving DecidableEq

/-- The request that `stop_childs` sends to a child. -/
def stopRequest (child : Nat) : StopRequest := ⟨.outside, some child⟩

namespace System

/-- The stop senders in the context of a running call. -/
def childSenders (s : System M Ev) (call : Nat) : List Nat :=
  match s.creations call with
  | .running _ _ r => r.childSenders
  | _ => []

end System

namespace Hierarchy

/-- `SystemRef::new`. -/
def empty : Hierarchy M Ev where
  system := System.empty
  origin _ := none
  creating _ := none
  signalled _ := none
  awaited _ := none
  fault _ := .closed
  stop _ := .closed

section Step

variable (h : Hierarchy M Ev)

/-- A step of the system alone. -/
def lift (input : SystemInput M Ev) :
    Option (Hierarchy M Ev × List (HierarchyObs M Ev)) :=
  (h.system.step input).map fun t => ({ h with system := t.1 }, t.2.map .system)

/-- The queues of other actors are not for other tasks to use. -/
def foreign (call : Nat) : Arrival M → Bool
  | .stop request => request.reply != some call
  | .childError _ => false
  | _ => true

/-- The choices that other actors have a say in: a hook waits for `create_child`,
a send fails when the child has ended, an acknowledgement comes from the child or
is lost with it, and an action comes from the parent or is lost with it. -/
def may (call : Nat) : Choice Ev → Bool
  | .operation (.createChild _) => false
  | .operation (.stop reply) => (h.creating call).isNone && reply != some call
  | .operation _ => (h.creating call).isNone
  | .returns _ => (h.creating call).isNone
  | .answers _ => (h.creating call).isNone
  | .childClosed =>
      match h.system.childSenders call with
      | [] => false
      | child :: _ => !h.system.channelOpen child
  | .childSent =>
      match h.system.childSenders call with
      | [] => false
      | child :: _ =>
          (h.system.step (.run child (.arrival (.stop (stopRequest child))))).isSome
  | .childAnswered =>
      match h.awaited call with
      | none => false
      | some child => h.stop child == .answered || !h.system.channelOpen child
  | .parentAction (some action) => h.fault call == .answered action
  | .parentAction none =>
      match h.origin call with
      | none => false
      | some origin =>
          h.fault call == .waiting && !h.system.channelOpen origin.parent
  | _ => true

/-- What a choice does to the channels. -/
def chose (call : Nat) : Choice Ev → Hierarchy M Ev
  | .childAnswered =>
      match h.awaited call with
      | none => h
      | some child =>
          { h with
            awaited := Function.update h.awaited call none
            stop := Function.update h.stop child .closed }
  | .parentAction _ => { h with fault := Function.update h.fault call .closed }
  | _ => h

/-- What is sent to a call gets into its queue, or it is dropped. -/
def deliver (call : Nat) (arrival : Arrival M) : Hierarchy M Ev :=
  match h.system.step (.run call (.arrival arrival)) with
  | some (s, _) => { h with system := s }
  | none => h

/-- What is sent to the parent of a call. -/
def toParent (call : Nat) (error : ChildError) : Hierarchy M Ev :=
  match h.origin call with
  | some origin => h.deliver origin.parent (.childError error)
  | none => h

/-- What the other actors see of an actor. -/
def does (call : Nat) : Obs M Ev → Hierarchy M Ev
  | .sentError e => h.toParent call (.error e)
  | .sentFault e =>
      { h.toParent call (.fault e call) with
        fault := Function.update h.fault call .waiting }
  | .childAction sender action =>
      if h.fault sender = .waiting then
        { h with fault := Function.update h.fault sender (.answered action) }
      else h
  | .stopChild child =>
      { h.deliver child (.stop (stopRequest child)) with
        awaited := Function.update h.awaited call (some child)
        stop := Function.update h.stop child .waiting }
  | .acknowledged request =>
      if request = stopRequest call ∧ h.stop call = .waiting then
        { h with stop := Function.update h.stop call .answered }
      else h
  | .signal started =>
      { h with signalled := Function.update h.signalled call (some started) }
  | _ => h

def hear : SystemObs M Ev → Hierarchy M Ev
  | .does call _ obs => h.does call obs
  | _ => h

/-- The child that a choice finds closed. -/
def closes (call : Nat) : Choice Ev → List (HierarchyObs M Ev)
  | .childClosed =>
      ((h.system.childSenders call).take 1).map (.childClosed call)
  | _ => []

/-- A step of the hierarchy. -/
def step : HierarchyInput M Ev →
    Option (Hierarchy M Ev × List (HierarchyObs M Ev))
  | .createRoot call name strategy =>
      let user := ActorPath.ofText ['/', 'u', 's', 'e', 'r']
      h.lift (.check call (user.div name) ⟨false, strategy⟩)
  | .createChild parent call name strategy =>
      match h.system.creations parent with
      | .running path _ r =>
          match r.phase, h.creating parent with
          | .inHook hook, none =>
              (h.system.step (.check call (path.div name) ⟨true, strategy⟩)).map
                fun t =>
                  ({ h with
                      system := t.1
                      origin := Function.update h.origin call (some ⟨parent, hook⟩)
                      creating := Function.update h.creating parent (some call) },
                    t.2.map .system)
          | _, _ => none
      | _ => none
  | .insert call => h.lift (.insert call)
  | .created parent =>
      match h.creating parent with
      | none => none
      | some call =>
          let returned :=
            { h with creating := Function.update h.creating parent none }
          match h.system.creations call, h.signalled call with
          | .refused _, _ => some (returned, [])
          | .running _ _ _, some false => some (returned, [])
          | .running _ _ _, some true =>
              (h.system.step
                (.run parent (.choice (.operation (.createChild call))))).map
                  fun t => ({ returned with system := t.1 },
                    t.2.map .system ++ [.childCreated parent call])
          | _, _ => none
  | .arrive call arrival =>
      if foreign call arrival then h.lift (.run call (.arrival arrival)) else none
  | .run call choice =>
      if h.may call choice then
        (h.system.step (.run call (.choice choice))).map fun t =>
          (t.2.foldl hear { h.chose call choice with system := t.1 },
            t.2.map .system ++ h.closes call choice)
      else none

end Step

end Hierarchy

end Actor
end Rush
