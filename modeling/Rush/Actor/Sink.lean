import Rush.Actor.InnerActions
import Rush.Foundation.Broadcast
import Mathlib.Logic.Function.Basic

/-!
# Events and sinks

`actor/src/sink.rs`, and what `ActorRunner` and `ActorRef` have of the event
channel.  `publish_event` puts an event into the inner queue, from where the
runner broadcasts it; a sink subscribes to the channel and notifies its
subscriber of one event after the other in a task of its own.  The machine below
is a runner with its channel and any number of sinks.
-/

namespace Rush
namespace Actor

open Foundation

variable {M Ev : Type}

/-- Where `Sink::run` is. -/
inductive SinkPhase (Ev : Type)
  /-- In `event_receiver.recv()`. -/
  | receiving
  /-- In `subscriber.notify(event)`. -/
  | notifying (event : Ev)
  | finished
  /-- The subscriber has panicked. -/
  | panicked
deriving DecidableEq

/-- A sink, with the cursor of its receiver. -/
structure Sink (Ev : Type) where
  cursor : Nat
  phase : SinkPhase Ev

/-- A runner, its event channel, and the sinks by their numbers. -/
structure EventBus (M Ev : Type) where
  runner : Runner M Ev
  channel : Broadcast Ev
  sinks : Nat → Option (Sink Ev)

inductive BusInput (M Ev : Type)
  | runs (input : Input M Ev)
  /-- The code of the actor panics, and the task of the runner is gone. -/
  | panics
  | subscribes (sink : Nat)
  | receives (sink : Nat)
  | notified (sink : Nat)
  | notifyPanics (sink : Nat)

inductive BusObs (Ev : Type)
  | published (event : Ev)
  | sent (event : Ev)
  | subscribed (sink : Nat)
  | notifies (sink : Nat) (event : Ev)
  | finished (sink : Nat)
deriving DecidableEq

def InnerAction.event? : InnerAction Ev → Option Ev
  | .event e => some e
  | _ => none

def Obs.event? : Obs M Ev → Option Ev
  | .event e => some e
  | _ => none

/-- The event that is published by an operation of a hook. -/
def Input.published : Input M Ev → List Ev
  | .choice (.operation (.publishEvent event)) => [event]
  | _ => []

/-- The events that are published and not broadcast. -/
def Runner.queuedEvents (r : Runner M Ev) : List Ev :=
  r.innerQueue.filterMap InnerAction.event?

/-- The events that a step of the runner broadcasts. -/
def broadcastEvents (o : List (Obs M Ev)) : List Ev := o.filterMap Obs.event?

namespace EventBus

/-- `broadcast::channel(10000)`: the channel may retain more. -/
def minCapacity : Nat := 10000

def set (s : EventBus M Ev) (id : Nat) (sink : Sink Ev) : EventBus M Ev :=
  { s with sinks := Function.update s.sinks id (some sink) }

/-- `Sink::run` after an answer of the channel. -/
def sinkReceives (s : EventBus M Ev) (id : Nat) :
    Received Ev × Nat → EventBus M Ev × List (BusObs Ev)
  | (.value event, cursor) =>
      (s.set id ⟨cursor, .notifying event⟩, [.notifies id event])
  | (.lagged _, cursor) => (s.set id ⟨cursor, .receiving⟩, [])
  | (.closed, cursor) => (s.set id ⟨cursor, .finished⟩, [.finished id])

/-- The task of the runner owns the sender of the channel, which is dropped with
it. -/
def closes (channel : Broadcast Ev) (r : Runner M Ev) : Broadcast Ev :=
  { channel with closed := channel.closed || r.phase.isEnded }

/-- A step of the runner or of a sink. -/
def step (cfg : RunnerConfig) (capacity : Nat) (s : EventBus M Ev) :
    BusInput M Ev → Option (EventBus M Ev × List (BusObs Ev))
  | .runs input =>
      if s.channel.closed then none
      else
        (s.runner.step cfg input).map fun (r, o) =>
          ({ s with
              runner := r
              channel := closes ((broadcastEvents o).foldl Broadcast.send s.channel) r },
            input.published.map .published ++ (broadcastEvents o).map .sent)
  | .panics =>
      match s.runner.phase with
      | .inHook _ =>
          if s.channel.closed then none
          else some ({ s with channel := { s.channel with closed := true } }, [])
      | _ => none
  | .subscribes id =>
      match s.sinks id with
      | some _ => none
      | none =>
          some (s.set id ⟨s.channel.sent.length, .receiving⟩, [.subscribed id])
  | .receives id =>
      match s.sinks id with
      | some ⟨cursor, .receiving⟩ =>
          (s.channel.recv capacity cursor).map (s.sinkReceives id)
      | _ => none
  | .notified id =>
      match s.sinks id with
      | some ⟨cursor, .notifying _⟩ => some (s.set id ⟨cursor, .receiving⟩, [])
      | _ => none
  | .notifyPanics id =>
      match s.sinks id with
      | some ⟨cursor, .notifying _⟩ => some (s.set id ⟨cursor, .panicked⟩, [])
      | _ => none

/-- An actor that has just been created. -/
def start : EventBus M Ev := ⟨Runner.create, ⟨[], false⟩, fun _ => none⟩

/-- The events that the actor has published. -/
def publishedEvents (seen : List (BusObs Ev)) : List Ev :=
  seen.filterMap fun
    | .published event => some event
    | _ => none

/-- The events that were broadcast. -/
def sentEvents (seen : List (BusObs Ev)) : List Ev :=
  seen.filterMap fun
    | .sent event => some event
    | _ => none

/-- The events of which a sink has notified its subscriber. -/
def notifiedEvents (id : Nat) (seen : List (BusObs Ev)) : List Ev :=
  seen.filterMap fun
    | .notifies sink event => if sink = id then some event else none
    | _ => none

/-- The steps of the machine, by name. -/
inductive Transition (cfg : RunnerConfig) (capacity : Nat) (s : EventBus M Ev) :
    BusInput M Ev → EventBus M Ev → List (BusObs Ev) → Prop
  | runs (input r o) (hopen : s.channel.closed = false)
      (hstep : s.runner.step cfg input = some (r, o)) :
      Transition cfg capacity s (.runs input)
        { s with
          runner := r
          channel := closes ((broadcastEvents o).foldl Broadcast.send s.channel) r }
        (input.published.map .published ++ (broadcastEvents o).map .sent)
  | panics (hopen : s.channel.closed = false) :
      Transition cfg capacity s .panics
        { s with channel := { s.channel with closed := true } } []
  | subscribes (id) (hnew : s.sinks id = none) :
      Transition cfg capacity s (.subscribes id)
        (s.set id ⟨s.channel.sent.length, .receiving⟩) [.subscribed id]
  | notifies (id cursor event) (hsink : s.sinks id = some ⟨cursor, .receiving⟩)
      (hretained : s.channel.oldest capacity ≤ cursor)
      (hsent : s.channel.sent[cursor]? = some event) :
      Transition cfg capacity s (.receives id)
        (s.set id ⟨cursor + 1, .notifying event⟩) [.notifies id event]
  | lags (id cursor) (hsink : s.sinks id = some ⟨cursor, .receiving⟩)
      (hlost : cursor < s.channel.oldest capacity) :
      Transition cfg capacity s (.receives id)
        (s.set id ⟨s.channel.oldest capacity, .receiving⟩) []
  | finishes (id cursor) (hsink : s.sinks id = some ⟨cursor, .receiving⟩)
      (hend : s.channel.sent.length ≤ cursor) (hclosed : s.channel.closed = true) :
      Transition cfg capacity s (.receives id) (s.set id ⟨cursor, .finished⟩)
        [.finished id]
  | notified (id cursor event)
      (hsink : s.sinks id = some ⟨cursor, .notifying event⟩) :
      Transition cfg capacity s (.notified id) (s.set id ⟨cursor, .receiving⟩) []
  | notifyPanics (id cursor event)
      (hsink : s.sinks id = some ⟨cursor, .notifying event⟩) :
      Transition cfg capacity s (.notifyPanics id) (s.set id ⟨cursor, .panicked⟩) []

variable {cfg : RunnerConfig} {capacity : Nat} {s t : EventBus M Ev}
  {i : BusInput M Ev} {o : List (BusObs Ev)}

theorem step_transition (h : step cfg capacity s i = some (t, o)) :
    Transition cfg capacity s i t o := by
  cases i with
  | runs input =>
      simp only [step] at h
      split at h
      case isTrue => contradiction
      case isFalse hopen =>
        obtain ⟨⟨r, o'⟩, hstep, heq⟩ := Option.map_eq_some_iff.mp h
        cases heq
        exact .runs input r o' (by simpa using hopen) hstep
  | panics =>
      simp only [step] at h
      split at h
      · split at h
        case isTrue => contradiction
        case isFalse hopen =>
          cases h
          exact .panics (by simpa using hopen)
      · contradiction
  | subscribes id =>
      simp only [step] at h
      split at h
      case h_1 => contradiction
      case h_2 hnew =>
        cases h
        exact .subscribes id hnew
  | receives id =>
      simp only [step] at h
      split at h
      case h_1 cursor hsink =>
        obtain ⟨⟨received, cursor'⟩, hrecv, heq⟩ := Option.map_eq_some_iff.mp h
        cases Broadcast.recv_cases hrecv with
        | value event hretained hsent =>
            cases heq
            exact .notifies id cursor event hsink hretained hsent
        | lagged hlost =>
            cases heq
            exact .lags id cursor hsink hlost
        | closed hend hclosed =>
            cases heq
            exact .finishes id cursor hsink hend hclosed
      case h_2 => contradiction
  | notified id =>
      simp only [step] at h
      split at h
      case h_1 cursor event hsink =>
        cases h
        exact .notified id cursor event hsink
      case h_2 => contradiction
  | notifyPanics id =>
      simp only [step] at h
      split at h
      case h_1 cursor event hsink =>
        cases h
        exact .notifyPanics id cursor event hsink
      case h_2 => contradiction

end EventBus

end Actor
end Rush
