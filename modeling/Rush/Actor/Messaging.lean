import Rush.Actor.RunnerSpec
import Rush.Foundation.Linearizability
import Mathlib.Logic.Function.Basic

/-!
# Messages, requests and responses

`actor/src/handler.rs`: an `ActorMessage` carries the message, the path of its
sender and, for `ask`, a oneshot channel for the response.  The machine below is
a runner with its actor and any number of callers.  `tell` and `ask` put a
message into the mailbox and fail when it is closed; the runner hands one message
after the other to `handle_message` and sends the result back.  The mailbox is
dropped with everything in it when the task of the runner ends, by itself or by a
panic of the user's code, and then the callers that still wait get an error.
-/

namespace Rush
namespace Actor

open Foundation

/-- Internal actor message; `rsvp` has the number of the call that waits for the
response. -/
structure ActorMessage (Msg : Type) where
  message : Msg
  sender : ActorPath
  rsvp : Option Nat

/-- The user's code: `handle_message`, and what the other hooks do to the actor.
`χ` is what the code reads elsewhere, and `none` is a panic. -/
structure ActorCode (σ Msg Resp χ : Type) where
  handleMessage : σ → ActorPath → Msg → χ → Option (Except ActorError Resp) × σ
  hook : σ → Hook (ActorMessage Msg) → χ → Option Unit × σ

/-- The code panics in a hook and leaves the actor like this. -/
def ActorCode.Panics {σ Msg Resp χ : Type} (code : ActorCode σ Msg Resp χ)
    (a : σ) (oracle : χ) (b : σ) : Hook (ActorMessage Msg) → Prop
  | .handleMessage m =>
      code.handleMessage a m.sender m.message oracle = (none, b)
  | hook => code.hook a hook oracle = (none, b)

/-- Where a call of `ask` is. -/
inductive Ask (Resp : Type)
  /-- In `response_receiver`, with the channel open, answered or dropped. -/
  | waiting
  | answered (result : Except ActorError Resp)
  | dropped
  | returned (result : Except ActorError Resp)
  /-- Returned because the message or its channel was dropped. -/
  | failed
deriving DecidableEq

/-- The error of a send into a closed mailbox, and of a dropped response
channel. -/
def channelClosed : ActorError := .send "channel closed"

/-- What a call of `ask` has returned. -/
def Ask.result {Resp : Type} : Ask Resp → Option (Except ActorError Resp)
  | .returned result => some result
  | .failed => some (.error channelClosed)
  | _ => none

/-- A runner with its actor, and the calls of `ask` by their numbers. -/
structure Messaging (σ Msg Ev Resp : Type) where
  runner : Runner (ActorMessage Msg) Ev
  actor : σ
  panicked : Bool
  calls : Nat → Option (Ask Resp)

inductive MessagingInput (Msg Ev χ : Type)
  | tells (sender : ActorPath) (message : Msg)
  | asks (call : Nat) (sender : ActorPath) (message : Msg)
  | resumes (call : Nat)
  | runs (input : Input (ActorMessage Msg) Ev) (oracle : χ)

inductive MessagingObs (Msg Ev Resp χ : Type)
  | accepted (message : ActorMessage Msg)
  /-- `tell` returns an error. -/
  | refused (message : Msg)
  | handled (message : ActorMessage Msg) (result : Except ActorError Resp)
      (oracle : χ)
  | hooked (hook : Hook (ActorMessage Msg)) (oracle : χ)
  | panicked
  | returned (call : Nat) (result : Except ActorError Resp)
  | failed (call : Nat)
  | runner (obs : Obs (ActorMessage Msg) Ev)

/-- The hook that ends with an input. -/
def Runner.finishes {M Ev : Type} (r : Runner M Ev) : Input M Ev → Option (Hook M)
  | .choice (.returns _) =>
      match r.phase with
      | .inHook hook => some hook
      | _ => none
  | .choice (.answers _) =>
      match r.phase with
      | .inHook hook => some hook
      | _ => none
  | _ => none

/-- Messages come from `tell` and `ask` only. -/
def Input.isMessage {M Ev : Type} : Input M Ev → Bool
  | .arrival (.message _) => true
  | _ => false

namespace Messaging

variable {σ Msg Ev Resp χ : Type}

/-- `HandleHelper::is_closed`. -/
def isClosed (s : Messaging σ Msg Ev Resp) : Bool :=
  s.panicked || s.runner.phase.isEnded

def set (s : Messaging σ Msg Ev Resp) (call : Nat) (c : Ask Resp) :
    Messaging σ Msg Ev Resp :=
  { s with calls := Function.update s.calls call (some c) }

/-- The mailbox is dropped, and with it the channels of the responses. -/
def dropped (c : Ask Resp) : Ask Resp :=
  match c with
  | .waiting => .dropped
  | c => c

/-- The runner goes on; its mailbox is dropped when it ends. -/
def goesOn (s : Messaging σ Msg Ev Resp) (r : Runner (ActorMessage Msg) Ev) :
    Messaging σ Msg Ev Resp :=
  { s with
    runner := r
    calls :=
      if r.phase.isEnded then fun call => (s.calls call).map dropped
      else s.calls }

/-- The task of the runner is gone. -/
def panics (s : Messaging σ Msg Ev Resp) (actor : σ) : Messaging σ Msg Ev Resp :=
  { s with
    actor := actor
    panicked := true
    calls := fun call => (s.calls call).map dropped }

/-- The result is sent back if the message has a channel for it. -/
def answer (s : Messaging σ Msg Ev Resp) (rsvp : Option Nat)
    (result : Except ActorError Resp) : Messaging σ Msg Ev Resp :=
  match rsvp with
  | none => s
  | some call => s.set call (.answered result)

/-- The runner has made a step that ends a hook of the actor, or none. -/
def ran (code : ActorCode σ Msg Resp χ) (s : Messaging σ Msg Ev Resp)
    (oracle : χ) (r : Runner (ActorMessage Msg) Ev)
    (o : List (Obs (ActorMessage Msg) Ev)) :
    Option (Hook (ActorMessage Msg)) →
      Messaging σ Msg Ev Resp × List (MessagingObs Msg Ev Resp χ)
  | none => (s.goesOn r, o.map .runner)
  | some (.handleMessage m) =>
      match code.handleMessage s.actor m.sender m.message oracle with
      | (none, actor) => (s.panics actor, [.panicked])
      | (some result, actor) =>
          ({ s.goesOn r with actor := actor }.answer m.rsvp result,
            .handled m result oracle :: o.map .runner)
  | some hook =>
      match code.hook s.actor hook oracle with
      | (none, actor) => (s.panics actor, [.panicked])
      | (some (), actor) =>
          ({ s.goesOn r with actor := actor },
            .hooked hook oracle :: o.map .runner)

/-- A step of a caller or of the runner. -/
def step (cfg : RunnerConfig) (code : ActorCode σ Msg Resp χ)
    (s : Messaging σ Msg Ev Resp) : MessagingInput Msg Ev χ →
      Option (Messaging σ Msg Ev Resp × List (MessagingObs Msg Ev Resp χ))
  | .tells sender message =>
      if s.isClosed then some (s, [.refused message])
      else
        (s.runner.arrive (.message ⟨message, sender, none⟩)).map fun r =>
          ({ s with runner := r }, [.accepted ⟨message, sender, none⟩])
  | .asks call sender message =>
      match s.calls call with
      | some _ => none
      | none =>
          if s.isClosed then some (s.set call .failed, [.failed call])
          else
            (s.runner.arrive (.message ⟨message, sender, some call⟩)).map
              fun r =>
                ({ s.set call .waiting with runner := r },
                  [.accepted ⟨message, sender, some call⟩])
  | .resumes call =>
      match s.calls call with
      | some (.answered result) =>
          some (s.set call (.returned result), [.returned call result])
      | some .dropped => some (s.set call .failed, [.failed call])
      | _ => none
  | .runs input oracle =>
      if s.panicked || input.isMessage then none
      else
        (s.runner.step cfg input).map fun p =>
          s.ran code oracle p.1 p.2 (s.runner.finishes input)

/-- An actor that has just been created. -/
def start (actor : σ) : Messaging σ Msg Ev Resp :=
  ⟨Runner.create, actor, false, fun _ => none⟩

/-- The messages that were put into the mailbox. -/
def acceptedMessages (seen : List (MessagingObs Msg Ev Resp χ)) :
    List (ActorMessage Msg) :=
  seen.filterMap fun
    | .accepted message => some message
    | _ => none

/-- The messages that were handled, with the results. -/
def handledMessages (seen : List (MessagingObs Msg Ev Resp χ)) :
    List (ActorMessage Msg × Except ActorError Resp) :=
  seen.filterMap fun
    | .handled message result _ => some (message, result)
    | _ => none

/-- The calls of `ask` whose messages these are. -/
def askers (messages : List (ActorMessage Msg)) : List Nat :=
  messages.filterMap ActorMessage.rsvp

end Messaging

namespace Runner

variable {M Ev : Type}

/-- The message in `handle_message`, if there is one. -/
def inHand (r : Runner M Ev) : List M :=
  match r.phase with
  | .inHook (.handleMessage m) => [m]
  | _ => []

/-- The messages that are not handled yet. -/
def pendingMessages (r : Runner M Ev) : List M := r.inHand ++ r.mailbox

end Runner

namespace Messaging

variable {σ Msg Ev Resp χ : Type}

/-- The steps of the machine, by name. -/
inductive Transition (cfg : RunnerConfig) (code : ActorCode σ Msg Resp χ)
    (s : Messaging σ Msg Ev Resp) : MessagingInput Msg Ev χ →
      Messaging σ Msg Ev Resp → List (MessagingObs Msg Ev Resp χ) → Prop
  | tellRefused (sender message) (hclosed : s.isClosed = true) :
      Transition cfg code s (.tells sender message) s [.refused message]
  | tells (sender message r) (hopen : s.isClosed = false)
      (harrive : s.runner.arrive (.message ⟨message, sender, none⟩) = some r) :
      Transition cfg code s (.tells sender message) { s with runner := r }
        [.accepted ⟨message, sender, none⟩]
  | askRefused (call sender message) (hcall : s.calls call = none)
      (hclosed : s.isClosed = true) :
      Transition cfg code s (.asks call sender message) (s.set call .failed)
        [.failed call]
  | asks (call sender message r) (hcall : s.calls call = none)
      (hopen : s.isClosed = false)
      (harrive :
        s.runner.arrive (.message ⟨message, sender, some call⟩) = some r) :
      Transition cfg code s (.asks call sender message)
        { s.set call .waiting with runner := r }
        [.accepted ⟨message, sender, some call⟩]
  | answered (call result) (hcall : s.calls call = some (.answered result)) :
      Transition cfg code s (.resumes call) (s.set call (.returned result))
        [.returned call result]
  | lost (call) (hcall : s.calls call = some .dropped) :
      Transition cfg code s (.resumes call) (s.set call .failed) [.failed call]
  | handles (input oracle r o m result actor) (halive : s.panicked = false)
      (hstep : s.runner.step cfg input = some (r, o))
      (hinput : input.isMessage = false)
      (hfinish : s.runner.finishes input = some (.handleMessage m))
      (hcode : code.handleMessage s.actor m.sender m.message oracle =
        (some result, actor)) :
      Transition cfg code s (.runs input oracle)
        ({ s.goesOn r with actor := actor }.answer m.rsvp result)
        (.handled m result oracle :: o.map .runner)
  | hooks (input oracle r o hook actor) (halive : s.panicked = false)
      (hstep : s.runner.step cfg input = some (r, o))
      (hinput : input.isMessage = false)
      (hfinish : s.runner.finishes input = some hook)
      (hhook : ∀ m, hook ≠ .handleMessage m)
      (hcode : code.hook s.actor hook oracle = (some (), actor)) :
      Transition cfg code s (.runs input oracle)
        { s.goesOn r with actor := actor }
        (.hooked hook oracle :: o.map .runner)
  | panics (input oracle actor hook) (halive : s.panicked = false)
      (hfinish : s.runner.finishes input = some hook)
      (hcode : code.Panics s.actor oracle actor hook) :
      Transition cfg code s (.runs input oracle) (s.panics actor) [.panicked]
  | runs (input oracle r o) (halive : s.panicked = false)
      (hstep : s.runner.step cfg input = some (r, o))
      (hinput : input.isMessage = false)
      (hfinish : s.runner.finishes input = none) :
      Transition cfg code s (.runs input oracle) (s.goesOn r) (o.map .runner)

theorem ran_transition {cfg : RunnerConfig} {code : ActorCode σ Msg Resp χ}
    {s t : Messaging σ Msg Ev Resp} {input : Input (ActorMessage Msg) Ev}
    {oracle : χ} {r : Runner (ActorMessage Msg) Ev}
    {o : List (Obs (ActorMessage Msg) Ev)}
    {os : List (MessagingObs Msg Ev Resp χ)} (halive : s.panicked = false)
    (hinput : input.isMessage = false)
    (hstep : s.runner.step cfg input = some (r, o))
    (h : s.ran code oracle r o (s.runner.finishes input) = (t, os)) :
    Transition cfg code s (.runs input oracle) t os := by
  cases hfinish : s.runner.finishes input with
  | none =>
      rw [hfinish] at h
      cases h
      exact .runs input oracle r o halive hstep hinput hfinish
  | some hook =>
      rw [hfinish] at h
      unfold ran at h
      split at h
      case h_1 => contradiction
      case h_2 m heq =>
        cases heq
        split at h
        case h_1 actor hcode =>
          cases h
          exact .panics input oracle actor _ halive hfinish hcode
        case h_2 result actor hcode =>
          cases h
          exact .handles input oracle r o m result actor halive hstep hinput
            hfinish hcode
      case h_3 hook' hnot heq =>
        cases heq
        split at h
        case h_1 actor hcode =>
          cases h
          refine .panics input oracle actor hook halive hfinish ?_
          unfold ActorCode.Panics
          split
          · exact absurd rfl (hnot _)
          · exact hcode
        case h_2 actor hcode =>
          cases h
          refine .hooks input oracle r o hook actor halive hstep hinput hfinish
            ?_ hcode
          rintro m rfl
          exact hnot m rfl

theorem step_transition {cfg : RunnerConfig} {code : ActorCode σ Msg Resp χ}
    {s t : Messaging σ Msg Ev Resp} {i : MessagingInput Msg Ev χ}
    {o : List (MessagingObs Msg Ev Resp χ)}
    (h : step cfg code s i = some (t, o)) : Transition cfg code s i t o := by
  cases i with
  | tells sender message =>
      simp only [step] at h
      split at h
      case isTrue hclosed =>
        cases h
        exact .tellRefused sender message hclosed
      case isFalse hopen =>
        obtain ⟨r, harrive, heq⟩ := Option.map_eq_some_iff.mp h
        cases heq
        exact .tells sender message r (by simpa using hopen) harrive
  | asks call sender message =>
      simp only [step] at h
      split at h
      case h_1 => contradiction
      case h_2 hcall =>
        split at h
        case isTrue hclosed =>
          cases h
          exact .askRefused call sender message hcall hclosed
        case isFalse hopen =>
          obtain ⟨r, harrive, heq⟩ := Option.map_eq_some_iff.mp h
          cases heq
          exact .asks call sender message r hcall (by simpa using hopen) harrive
  | resumes call =>
      simp only [step] at h
      split at h
      case h_1 result hcall =>
        cases h
        exact .answered call result hcall
      case h_2 hcall =>
        cases h
        exact .lost call hcall
      case h_3 => contradiction
  | runs input oracle =>
      simp only [step] at h
      split at h
      case isTrue => contradiction
      case isFalse halive =>
        obtain ⟨⟨r, o'⟩, hstep, heq⟩ := Option.map_eq_some_iff.mp h
        simp only [Bool.or_eq_true, not_or, Bool.not_eq_true] at halive
        exact ran_transition halive.1 halive.2 hstep heq

end Messaging

end Actor
end Rush
