import Rush.Actor.Error
import Rush.Actor.Supervision
import Rush.Foundation.Execution

/-!
# The retry actor

`actor/src/retries.rs`.  A `RetryActor` sends a message to its child `target`
and spawns a task that sleeps and then tells the actor to retry.  The machine
below is the actor with its mailbox and the sleeping tasks: any task may wake up
at any time, and `End` may be told at any time.  A counter of type `usize` is a
number up to `usizeMax`.
-/

namespace Rush
namespace Actor

open Foundation

/-- `usize::MAX` of a 64-bit target. -/
def usizeMax : Nat := UInt64.size - 1

/-- `n + 1` on `usize`; `none` is the panic of a checked addition. -/
def usizeSucc (overflowChecks : Bool) (n : Nat) : Option Nat :=
  if n < usizeMax then some (n + 1)
  else if overflowChecks then none
  else some 0

theorem usizeSucc_of_lt {overflowChecks : Bool} {n : Nat} (h : n < usizeMax) :
    usizeSucc overflowChecks n = some (n + 1) := if_pos h

namespace Strategy

/-- The strategy that is left after `k` calls of `next_backoff`. -/
def after : Nat → Strategy → Strategy
  | 0, strategy => strategy
  | k + 1, strategy => (after k strategy).nextBackoff.2

/-- `next_backoff` gives a duration `n` times in a row. -/
def Yields (strategy : Strategy) (n : Nat) : Prop :=
  ∀ k < n, (strategy.after k).nextBackoff.1 ≠ none

theorem maxRetries_nextBackoff (strategy : Strategy) :
    strategy.nextBackoff.2.maxRetries = strategy.maxRetries := by
  cases strategy with
  | noInterval n => rfl
  | fixedInterval n d => rfl
  | customInterval ds n => cases ds <;> rfl

@[simp] theorem maxRetries_after (strategy : Strategy) (k : Nat) :
    (strategy.after k).maxRetries = strategy.maxRetries := by
  induction k with
  | zero => rfl
  | succ k ih => rw [after, maxRetries_nextBackoff, ih]

theorem after_noInterval (n k : Nat) :
    (noInterval n).after k = noInterval n := by
  induction k with
  | zero => rfl
  | succ k ih => rw [after, ih, nextBackoff]

theorem after_fixedInterval (n k : Nat) (d : Duration) :
    (fixedInterval n d).after k = fixedInterval n d := by
  induction k with
  | zero => rfl
  | succ k ih => rw [after, ih, nextBackoff]

theorem after_customInterval (n k : Nat) (ds : List Duration) :
    (customInterval ds n).after k = customInterval (ds.drop k) n := by
  induction k with
  | zero => rfl
  | succ k ih =>
      rw [after, ih, ← List.tail_drop]
      cases ds.drop k <;> rfl

/-- A strategy lasts when it has a delay after each of its retries: there are no
retries without delay, and as many delays left as retries with custom ones. -/
def Lasts : Strategy → Prop
  | noInterval n => n = 0
  | fixedInterval _ _ => True
  | customInterval ds n => n ≤ ds.length

theorem lasts_iff_yields (strategy : Strategy) :
    strategy.Lasts ↔ strategy.Yields strategy.maxRetries := by
  cases strategy with
  | noInterval n =>
      simp only [Lasts, Yields, maxRetries, after_noInterval, nextBackoff]
      constructor
      · rintro rfl k hk
        omega
      · intro h
        by_contra hpos
        exact h 0 (by omega) rfl
  | fixedInterval n d =>
      simp [Lasts, Yields, after_fixedInterval, nextBackoff]
  | customInterval ds n =>
      have hnext : ∀ k, (customInterval (ds.drop k) n).nextBackoff.1 ≠ none ↔
          k < ds.length := by
        intro k
        cases hdrop : ds.drop k with
        | nil => simpa [nextBackoff] using List.drop_eq_nil_iff.mp hdrop
        | cons d rest =>
            have hlt : k < ds.length := by
              by_contra hge
              rw [List.drop_eq_nil_of_le (by omega)] at hdrop
              contradiction
            simpa [nextBackoff] using hlt
      simp only [Lasts, Yields, maxRetries, after_customInterval, hnext]
      constructor
      · intro hle k hk
        omega
      · intro h
        by_contra hlt
        exact absurd (h ds.length (by omega)) (by omega)

end Strategy

/-- Retry message. -/
inductive RetryMessage
  | retry
  | endRetry
deriving DecidableEq

/-- Retry actor, without the `target` that `pre_start` gives to its child. -/
structure RetryActor (M : Type) where
  message : M
  retryStrategy : Strategy
  retries : Nat
  isEnd : Bool

/-- `RetryActor::new`. -/
def RetryActor.new {M : Type} (message : M) (strategy : Strategy) :
    RetryActor M :=
  ⟨message, strategy, 0, false⟩

/-- What the context of one call of the handler finds: the child `target` with
the answer of its `tell`, and whether there is a reference to the actor. -/
structure RetryContext where
  target : Option (Except ActorError Unit)
  reference : Bool

/-- The target is alive, and so is the retry actor itself. -/
def RetryContext.Live (ctx : RetryContext) : Prop :=
  ctx.target = some (.ok ()) ∧ ctx.reference = true

/-- What the retry actor does to the rest of the system. -/
inductive RetryObs (M : Type)
  | sent (message : M)
  | spawned (duration : Duration)
  | emitted (error : ActorError)
  | stop
deriving DecidableEq

section Handler

variable {M : Type} (overflowChecks : Bool)

/-- `child.tell(self.message.clone())`; a missing child or an error of the call
is only logged. -/
def RetryContext.tellTarget (ctx : RetryContext) (message : M) :
    List (RetryObs M) :=
  match ctx.target with
  | some (.ok ()) => [.sent message]
  | _ => []

/-- `handle_message`; `none` is the overflow of the counter. -/
def RetryActor.handleMessage (ctx : RetryContext) (actor : RetryActor M) :
    RetryMessage → Option (RetryActor M × List (RetryObs M))
  | .retry =>
      if actor.isEnd then some (actor, [])
      else
        match usizeSucc overflowChecks actor.retries with
        | none => none
        | some retries =>
            let actor := { actor with retries := retries }
            if retries ≤ actor.retryStrategy.maxRetries then
              let sent := ctx.tellTarget actor.message
              if ctx.reference then
                match actor.retryStrategy.nextBackoff with
                | (some duration, strategy) =>
                    some ({ actor with retryStrategy := strategy },
                      sent ++ [.spawned duration])
                | (none, strategy) =>
                    some ({ actor with retryStrategy := strategy }, sent)
              else
                some (actor,
                  sent ++ [.emitted (.send "Cannot get retry actor in")])
            else some (actor, [.emitted .reTry])
  | .endRetry => some ({ actor with isEnd := true }, [.stop])

/-- The actor runs, has stopped, or its task has panicked. -/
inductive RetryPhase
  | running
  | stopped
  | panicked
deriving DecidableEq

/-- A retry actor with its mailbox and the tasks that sleep for it. -/
structure RetryRun (M : Type) where
  actor : RetryActor M
  mailbox : List RetryMessage
  timers : List Duration
  stopping : Bool
  phase : RetryPhase

/-- A step of a run: a message is handled, a task wakes up, somebody tells the
actor to end, or the runner takes the stop request of the actor. -/
inductive RetryInput
  | handle (ctx : RetryContext)
  | fire (i : Nat)
  | tellEnd
  | stops

/-- The delay of a task that a handler has spawned. -/
def RetryObs.timer? : RetryObs M → Option Duration
  | .spawned duration => some duration
  | _ => none

namespace RetryRun

/-- A new retry actor that has been told to retry. -/
def start (message : M) (strategy : Strategy) : RetryRun M where
  actor := .new message strategy
  mailbox := [.retry]
  timers := []
  stopping := false
  phase := .running

/-- The run after a call of the handler with this outcome. -/
def afterHandler (run : RetryRun M) (rest : List RetryMessage) :
    Option (RetryActor M × List (RetryObs M)) → RetryRun M × List (RetryObs M)
  | none => ({ run with mailbox := rest, phase := .panicked }, [])
  | some (actor, obs) =>
      ({ run with
          actor := actor
          mailbox := rest
          timers := run.timers ++ obs.filterMap RetryObs.timer?
          stopping := run.stopping || actor.isEnd },
        obs)

def step (run : RetryRun M) :
    RetryInput → Option (RetryRun M × List (RetryObs M))
  | .handle ctx =>
      match run.phase, run.mailbox with
      | .running, message :: rest =>
          some (run.afterHandler rest
            (run.actor.handleMessage overflowChecks ctx message))
      | _, _ => none
  | .fire i =>
      match run.timers[i]?, run.phase with
      | none, _ => none
      | some _, .running =>
          some ({ run with
            timers := run.timers.eraseIdx i
            mailbox := run.mailbox ++ [.retry] }, [])
      | some _, _ => some ({ run with timers := run.timers.eraseIdx i }, [])
  | .tellEnd =>
      if run.phase = .running then
        some ({ run with mailbox := run.mailbox ++ [.endRetry] }, [])
      else none
  | .stops =>
      if run.phase = .running ∧ run.stopping then
        some ({ run with mailbox := [], phase := .stopped }, [])
      else none

end RetryRun

end Handler

end Actor
end Rush
