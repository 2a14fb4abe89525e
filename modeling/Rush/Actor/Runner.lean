import Rush.Actor.Error
import Rush.Actor.Supervision
import Rush.Foundation.Execution

/-!
# The actor runner

`ActorRunner` of `actor/src/runner.rs` with the part of `ActorContext` that it
owns, as a machine whose steps lie between two suspension points of `init`.
The input of a step is either an arrival in one of the queues or a choice: the
branch that `select!` takes, the next operation or the result of the hook that
is running, the answer of the parent or of a child.  A hook is any sequence of
operations on its context that may end with a result.
-/

namespace Rush
namespace Actor

/-- The `Actor` lifecycle enum. -/
inductive ActorLifecycle
  | created
  | started
  | restarted
  | failed
  | stopped
  | terminated
deriving DecidableEq

/-- The action that a child actor will take when an error occurs. -/
inductive ChildAction
  | stop
  | restart
  | delegate
deriving DecidableEq

/-- Inner action. -/
inductive InnerAction (Ev : Type)
  | event (event : Ev)
  | error (error : ActorError)
  | fail (error : ActorError)
deriving DecidableEq

/-- Child error; the channel of a fault's action goes by a number. -/
inductive ChildError
  | error (error : ActorError)
  | fault (error : ActorError) (sender : Nat)
deriving DecidableEq

/-- Who has sent a stop request: the shutdown of the system, another task, or the
actor itself.  This is not visible to the runner. -/
inductive StopOrigin
  | system
  | outside
  | own
deriving DecidableEq

/-- A stop request, with the channel of its acknowledgement if it has one. -/
structure StopRequest where
  origin : StopOrigin
  reply : Option Nat
deriving DecidableEq

/-- The functions of the actor that the runner calls. -/
inductive Hook (M : Type)
  | preStart
  | preRestart (error : Option ActorError)
  | preStop (request : StopRequest)
  | postStop
  | onChildError (error : ActorError)
  | onChildFault (error : ActorError) (sender : Nat)
  | handleMessage (message : M)
deriving DecidableEq

/-- Where the runner is suspended. -/
inductive Phase (M : Type)
  /-- Before `match self.lifecycle` in `init`. -/
  | dispatch
  | inHook (hook : Hook M)
  /-- In `select!`. -/
  | selecting
  /-- Waiting for the parent's action on a fault. -/
  | awaitingAction
  /-- In `ctx.stop(None)`, which waits while the stop channel is full. -/
  | stoppingItself
  /-- In `stop_childs`, before and after a request was sent. -/
  | stoppingChilds (request : StopRequest)
  | awaitingChild (request : StopRequest)
  /-- In the stop branch, before `remove_actor` and before the reply. -/
  | removing (request : StopRequest)
  | acknowledging (request : StopRequest)
  /-- `run` has returned. -/
  | returned
  /-- Terminated and removed from the registry. -/
  | terminating
  | ended
deriving DecidableEq

def Phase.isEnded {M : Type} : Phase M → Bool
  | .ended => true
  | _ => false

/-- What does not change over the life of a runner. -/
structure RunnerConfig where
  hasParent : Bool
  strategy : SupervisionStrategy
deriving DecidableEq

/-- The runner and its context.  `signal` says that the creator still waits,
and `childSenders` has the last created child first. -/
structure Runner (M Ev : Type) where
  lifecycle : ActorLifecycle
  stopSignal : Bool
  error : Option ActorError
  childSenders : List Nat
  stopQueue : List StopRequest
  errorQueue : List ChildError
  innerQueue : List (InnerAction Ev)
  mailbox : List M
  sendersDropped : Bool
  retries : Nat
  signal : Bool
  phase : Phase M
deriving DecidableEq

/-- What comes in from other tasks. -/
inductive Arrival (M : Type)
  | stop (request : StopRequest)
  | message (message : M)
  | childError (error : ChildError)
  | sendersDropped

/-- The operations of a hook on its context that concern the runner. -/
inductive ContextOp (Ev : Type)
  | publishEvent (event : Ev)
  | emitError (error : ActorError)
  | emitFail (error : ActorError)
  | stop (reply : Option Nat)
  | createChild (child : Nat)

/-- How the suspended runner goes on. -/
inductive Choice (Ev : Type)
  | proceed
  | operation (op : ContextOp Ev)
  | returns (result : Except ActorError Unit)
  | answers (action : ChildAction)
  | takeStop
  | takeChildError
  | takeInner
  | takeMessage
  | mailboxClosed
  | parentAction (action : Option ChildAction)
  | childClosed
  | childSent
  | childAnswered

inductive Input (M Ev : Type)
  | arrival (arrival : Arrival M)
  | choice (choice : Choice Ev)

/-- What a runner does to the rest of the system. -/
inductive Obs (M Ev : Type)
  | called (hook : Hook M)
  | becomes (lifecycle : ActorLifecycle)
  | backoff (duration : Duration)
  | removeActor
  | acknowledged (request : StopRequest)
  | signal (started : Bool)
  | event (event : Ev)
  | sentError (error : ActorError)
  | sentFault (error : ActorError)
  | childAction (sender : Nat) (action : ChildAction)
  | stopChild (child : Nat)
deriving DecidableEq

/-- The capacity of the stop channel. -/
def stopCapacity : Nat := 100

namespace Runner

variable {M Ev : Type}

/-- `ActorRunner::create`. -/
def create : Runner M Ev where
  lifecycle := .created
  stopSignal := false
  error := none
  childSenders := []
  stopQueue := []
  errorQueue := []
  innerQueue := []
  mailbox := []
  sendersDropped := false
  retries := 0
  signal := true
  phase := .dispatch

/-- An arrival changes one queue; the receivers of an ended runner are gone. -/
def arrive (r : Runner M Ev) : Arrival M → Option (Runner M Ev)
  | .stop request =>
      if r.phase.isEnded = false ∧ r.stopQueue.length < stopCapacity then
        some { r with stopQueue := r.stopQueue ++ [request] }
      else none
  | .message message =>
      if r.phase.isEnded = false ∧ r.sendersDropped = false then
        some { r with mailbox := r.mailbox ++ [message] }
      else none
  | .childError error =>
      if r.phase.isEnded = false then
        some { r with errorQueue := r.errorQueue ++ [error] }
      else none
  | .sendersDropped => some { r with sendersDropped := true }

/-- `ActorContext::emit_fail`. -/
def emitFail (r : Runner M Ev) (error : ActorError) : Runner M Ev :=
  { r with
    error := some error
    innerQueue := r.innerQueue ++ [.fail error] }

/-- An operation of a running hook. -/
def operate (r : Runner M Ev) : ContextOp Ev → Option (Runner M Ev)
  | .publishEvent event =>
      some { r with innerQueue := r.innerQueue ++ [.event event] }
  | .emitError error =>
      some { r with innerQueue := r.innerQueue ++ [.error error] }
  | .emitFail error => some (r.emitFail error)
  | .stop reply =>
      if r.stopQueue.length < stopCapacity then
        some { r with stopQueue := r.stopQueue ++ [⟨.own, reply⟩] }
      else none
  | .createChild child =>
      some { r with childSenders := child :: r.childSenders }

/-- `apply_supervision_strategy`, up to the call of `pre_restart`. -/
def applySupervisionStrategy (r : Runner M Ev) :
    SupervisionStrategy → Runner M Ev × List (Obs M Ev)
  | .stop => ({ r with lifecycle := .stopped }, [.becomes .stopped])
  | .retry strategy =>
      if r.retries < strategy.maxRetries then
        ({ r with
            retries := r.retries + 1
            phase := .inHook (.preRestart r.error) },
          (strategy.nextBackoff.1.map Obs.backoff).toList ++
            [.called (.preRestart r.error)])
      else ({ r with lifecycle := .stopped }, [.becomes .stopped])

/-- One turn of the loop in `init`. -/
def dispatch (cfg : RunnerConfig) (r : Runner M Ev) :
    Runner M Ev × List (Obs M Ev) :=
  match r.lifecycle with
  | .created => ({ r with phase := .inHook .preStart }, [.called .preStart])
  | .started =>
      ({ r with signal := false, phase := .selecting },
        if r.signal then [.signal true] else [])
  | .restarted => r.applySupervisionStrategy cfg.strategy
  | .stopped => ({ r with phase := .inHook .postStop }, [.called .postStop])
  | .failed =>
      -- the parent is not asked: a failed child is terminated
      if cfg.hasParent then
        ({ r with lifecycle := .terminated }, [.becomes .terminated])
      else ({ r with lifecycle := .restarted }, [.becomes .restarted])
  | .terminated => ({ r with phase := .terminating }, [.removeActor])

/-- What follows the result of a hook. -/
def hookReturns (r : Runner M Ev) (hook : Hook M)
    (result : Except ActorError Unit) :
    Option (Runner M Ev × List (Obs M Ev)) :=
  match hook, result with
  | .preStart, .ok () =>
      some ({ r with lifecycle := .started, phase := .dispatch },
        [.becomes .started])
  | .preStart, .error e =>
      some
        ({ r with error := some e, lifecycle := .failed, phase := .dispatch },
          [.becomes .failed])
  | .preRestart _, .ok () =>
      -- `ctx.error`, the stop signal and the registry stay as they are
      some ({ r with lifecycle := .started, retries := 0, phase := .dispatch },
        [.becomes .started])
  | .preRestart _, .error e =>
      -- the lifecycle stays `Restarted`, so the next turn tries again
      some ({ r with error := some e, phase := .dispatch }, [])
  | .preStop request, .ok () =>
      some ({ r with phase := .stoppingChilds request }, [])
  | .preStop request, .error _ =>
      -- `emit_fail(Error::Stop)`, and the stop branch goes on
      some ({ r.emitFail .stop with phase := .stoppingChilds request }, [])
  | .postStop, _ =>
      -- an error of `post_stop` is only logged
      some ({ r with lifecycle := .terminated, phase := .dispatch },
        [.becomes .terminated])
  | .onChildError _, _ => some ({ r with phase := .selecting }, [])
  | .handleMessage _, _ => some ({ r with phase := .selecting }, [])
  -- `on_child_fault` returns an action, see `advance`
  | .onChildFault _ _, _ => none

/-- A branch of `select!`; all but the stop branch are disabled by the stop
signal. -/
def select (cfg : RunnerConfig) (r : Runner M Ev) (choice : Choice Ev) :
    Option (Runner M Ev × List (Obs M Ev)) :=
  match choice with
  | .takeStop =>
      match r.stopQueue with
      | [] => none
      | request :: rest =>
          some ({ r with stopQueue := rest, phase := .inHook (.preStop request) },
            [.called (.preStop request)])
  | .takeChildError =>
      match r.stopSignal, r.errorQueue with
      | false, .error e :: rest =>
          some ({ r with errorQueue := rest, phase := .inHook (.onChildError e) },
            [.called (.onChildError e)])
      | false, .fault e sender :: rest =>
          some
            ({ r with
                errorQueue := rest, phase := .inHook (.onChildFault e sender) },
              [.called (.onChildFault e sender)])
      | _, _ => none
  | .takeInner =>
      match r.stopSignal, r.innerQueue with
      | false, .event event :: rest =>
          some ({ r with innerQueue := rest }, [.event event])
      | false, .error e :: rest =>
          -- the errors of a root actor go nowhere
          some ({ r with innerQueue := rest },
            if cfg.hasParent then [.sentError e] else [])
      | false, .fail e :: rest =>
          if cfg.hasParent then
            some ({ r with innerQueue := rest, phase := .awaitingAction },
              [.sentFault e])
          else
            some ({ r with innerQueue := rest, phase := .stoppingItself }, [])
      | _, _ => none
  | .takeMessage =>
      match r.stopSignal, r.mailbox with
      | false, message :: rest =>
          some
            ({ r with mailbox := rest, phase := .inHook (.handleMessage message) },
              [.called (.handleMessage message)])
      | _, _ => none
  | .mailboxClosed =>
      if r.stopSignal = false ∧ r.mailbox = [] ∧ r.sendersDropped then
        some ({ r with phase := .stoppingItself }, [])
      else none
  | _ => none

/-- The next step of the suspended runner. -/
def advance (cfg : RunnerConfig) (r : Runner M Ev) (choice : Choice Ev) :
    Option (Runner M Ev × List (Obs M Ev)) :=
  match r.phase, choice with
  | .dispatch, .proceed => some (r.dispatch cfg)
  | .inHook _, .operation op => (r.operate op).map fun r' => (r', [])
  | .inHook (.onChildFault _ sender), .answers action =>
      some ({ r with phase := .selecting }, [.childAction sender action])
  | .inHook hook, .returns result => r.hookReturns hook result
  | .selecting, choice => r.select cfg choice
  | .awaitingAction, .parentAction none =>
      -- the parent has dropped the channel: the error is not cleaned
      some ({ r with phase := .stoppingItself }, [])
  | .awaitingAction, .parentAction (some .stop) =>
      some ({ r with error := none, phase := .stoppingItself }, [])
  | .awaitingAction, .parentAction (some _) =>
      some
        ({ r with
            error := none, lifecycle := .restarted, phase := .stoppingItself },
          [.becomes .restarted])
  | .stoppingItself, .proceed =>
      -- the signal is set after `ctx.stop(None)` has got its place
      if r.stopQueue.length < stopCapacity then
        some
          ({ r with
              stopQueue := r.stopQueue ++ [⟨.own, none⟩]
              stopSignal := true
              phase := .selecting }, [])
      else none
  | .stoppingChilds request, .proceed =>
      match r.childSenders with
      | [] => some ({ r with phase := .removing request }, [])
      | _ :: _ => none
  | .stoppingChilds _, .childClosed =>
      match r.childSenders with
      | [] => none
      | _ :: rest => some ({ r with childSenders := rest }, [])
  | .stoppingChilds request, .childSent =>
      match r.childSenders with
      | [] => none
      | child :: rest =>
          some ({ r with childSenders := rest, phase := .awaitingChild request },
            [.stopChild child])
  | .awaitingChild request, .childAnswered =>
      some ({ r with phase := .stoppingChilds request }, [])
  | .removing request, .proceed =>
      some ({ r with phase := .acknowledging request }, [.removeActor])
  | .acknowledging request, .proceed =>
      -- only `Started` becomes `Stopped`: a pending restart is kept
      if r.lifecycle = .started then
        some ({ r with lifecycle := .stopped, phase := .returned },
          [.acknowledged request, .becomes .stopped])
      else some ({ r with phase := .returned }, [.acknowledged request])
  | .returned, .proceed =>
      -- back in `init`, which looks at `ctx.error()` only
      if r.error.isSome then
        some ({ r with lifecycle := .failed, phase := .dispatch },
          [.becomes .failed])
      else some ({ r with phase := .dispatch }, [])
  | .terminating, .proceed =>
      some ({ r with signal := false, phase := .ended },
        if r.signal then [.signal false] else [])
  | _, _ => none

/-- A step of the machine. -/
def step (cfg : RunnerConfig) (r : Runner M Ev) :
    Input M Ev → Option (Runner M Ev × List (Obs M Ev))
  | .arrival arrival => (r.arrive arrival).map fun r' => (r', [])
  | .choice choice => r.advance cfg choice

end Runner

end Actor
end Rush
