import Rush.Actor.RunnerSpec

/-!
# A parent and one of its children

Two runners, connected as `create_child` connects them: the errors and faults of
the child go into the error queue of the parent, the action on a fault comes
back on a channel of its own, and `stop_childs` of the parent sends a stop
request with a channel for the acknowledgement.  Everything else that the two
runners do, and all other tasks, are arbitrary.

Each of the two waits inside a branch of its `select!`, so while it waits it
polls none of its queues.  The parent waits for the acknowledgement of a child
that waits for an action on its fault, and neither can go on.
-/

namespace Rush
namespace Actor

open Foundation

/-- What the child knows of its last fault. -/
inductive FaultChannel
  | closed
  | waiting
  | answered (action : ChildAction)
deriving DecidableEq

/-- What the parent knows of its stop request to the child. -/
inductive StopChannel
  | closed
  | waiting
  | answered
deriving DecidableEq

/-- The configuration of the parent, the strategy of the child, and the number
under which the parent knows the child: it stands for both channels. -/
structure PairConfig where
  parent : RunnerConfig
  strategy : SupervisionStrategy
  child : Nat

/-- A child has a parent. -/
def PairConfig.childConfig (cfg : PairConfig) : RunnerConfig :=
  ⟨true, cfg.strategy⟩

/-- The request that `stop_childs` sends. -/
def PairConfig.stopRequest (cfg : PairConfig) : StopRequest :=
  ⟨.outside, some cfg.child⟩

/-- Both runners and the channels between them.  `started` says that the child
has signalled its start, `linked` that the parent has been given its stop
sender. -/
structure Pair (M Ev N Ew : Type) where
  parent : Runner M Ev
  child : Runner N Ew
  started : Bool
  linked : Bool
  fault : FaultChannel
  stop : StopChannel

/-- What happens next to the pair. -/
inductive PairInput (M Ev N Ew : Type)
  | toParent (arrival : Arrival M)
  | toChild (arrival : Arrival N)
  | parent (choice : Choice Ev)
  | child (choice : Choice Ew)

namespace Pair

variable {M Ev N Ew : Type}

/-- Both runners are created. -/
def start : Pair M Ev N Ew where
  parent := Runner.create
  child := Runner.create
  started := false
  linked := false
  fault := .closed
  stop := .closed

section Step

variable (cfg : PairConfig) (s : Pair M Ev N Ew)

/-- The faults of other children have other channels. -/
def foreignToParent : Arrival M → Bool
  | .childError (.fault _ sender) => sender != cfg.child
  | _ => true

/-- The stop requests of other tasks have other channels. -/
def foreignToChild : Arrival N → Bool
  | .stop request => request.reply != some cfg.child
  | _ => true

/-- The choices of the parent that the child has a say in: `create_child`
returns after the child has started, a send fails when the child has ended, and
an acknowledgement comes from the child or is lost with it. -/
def parentMay : Choice Ev → Bool
  | .operation (.createChild child) =>
      child != cfg.child || (s.started && !s.linked)
  | .childClosed =>
      s.parent.childSenders.head? != some cfg.child || s.child.phase.isEnded
  | .childSent =>
      s.parent.childSenders.head? != some cfg.child ||
        (s.child.arrive (.stop cfg.stopRequest)).isSome
  | .childAnswered => s.stop != .waiting || s.child.phase.isEnded
  | _ => true

/-- The choices of the child that the parent has a say in: the action comes from
the parent or is lost with it. -/
def childMay : Choice Ew → Bool
  | .operation (.stop reply) => reply != some cfg.child
  | .parentAction (some action) => s.fault == .answered action
  | .parentAction none => s.fault == .waiting && s.parent.phase.isEnded
  | _ => true

/-- What a choice of the parent does to the channels. -/
def parentChose : Choice Ev → Pair M Ev N Ew
  | .operation (.createChild child) =>
      if child = cfg.child then { s with linked := true } else s
  | .childAnswered => { s with stop := .closed }
  | _ => s

/-- What the child sees of the parent. -/
def parentDid : Obs M Ev → Pair M Ev N Ew
  | .childAction sender action =>
      if sender = cfg.child ∧ s.fault = .waiting then
        { s with fault := .answered action }
      else s
  | .stopChild child =>
      if child = cfg.child then
        { s with
          child := (s.child.arrive (.stop cfg.stopRequest)).getD s.child
          stop := .waiting }
      else s
  | _ => s

def childChose : Choice Ew → Pair M Ev N Ew
  | .parentAction _ => { s with fault := .closed }
  | _ => s

/-- What the parent sees of the child; what is sent to an ended parent is
dropped. -/
def childDid : Obs N Ew → Pair M Ev N Ew
  | .sentError e =>
      { s with parent := (s.parent.arrive (.childError (.error e))).getD s.parent }
  | .sentFault e =>
      { s with
        parent :=
          (s.parent.arrive (.childError (.fault e cfg.child))).getD s.parent
        fault := .waiting }
  | .acknowledged request =>
      if request = cfg.stopRequest ∧ s.stop = .waiting then
        { s with stop := .answered }
      else s
  | .signal true => { s with started := true }
  | _ => s

/-- One step of the pair. -/
def step : PairInput M Ev N Ew →
    Option (Pair M Ev N Ew × List (Obs M Ev ⊕ Obs N Ew))
  | .toParent arrival =>
      if foreignToParent cfg arrival then
        (s.parent.arrive arrival).map fun parent =>
          ({ s with parent := parent }, [])
      else none
  | .toChild arrival =>
      if foreignToChild cfg arrival then
        (s.child.arrive arrival).map fun child => ({ s with child := child }, [])
      else none
  | .parent choice =>
      if s.parentMay cfg choice then
        (s.parent.advance cfg.parent choice).map fun (parent, o) =>
          (o.foldl (parentDid cfg)
              (parentChose cfg { s with parent := parent } choice),
            o.map Sum.inl)
      else none
  | .child choice =>
      if s.childMay cfg choice then
        (s.child.advance cfg.childConfig choice).map fun (child, o) =>
          (o.foldl (childDid cfg) (childChose { s with child := child } choice),
            o.map Sum.inr)
      else none

end Step

end Pair

end Actor
end Rush
