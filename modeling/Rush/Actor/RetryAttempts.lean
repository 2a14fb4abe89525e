import Rush.Actor.RetryActor
import Mathlib.Data.List.TakeWhile

/-!
# How often a retry actor sends

The attempts of a retry actor are driven by the tasks that it spawns, one after
each attempt for which the strategy has a delay.  The counter is compared with
the maximum of the strategy on its own.  The two agree exactly when the strategy
lasts: `NoInterval` has no delay, so the actor sends once and then waits for a
message that nobody sends.
-/

namespace Rush
namespace Actor

open Foundation

variable {M : Type}

/-- The handler of the step finds its target and itself. -/
def RetryInput.Live : RetryInput → Prop
  | .handle ctx => ctx.Live
  | _ => True

/-- The step handles a message or wakes a task up. -/
def RetryInput.works : RetryInput → Bool
  | .handle _ | .fire _ => true
  | _ => false

/-- A message to the target, or an error to the parent. -/
def RetryObs.isDelivery : RetryObs M → Bool
  | .sent _ | .emitted _ => true
  | _ => false

/-- `End` has been handled. -/
def RetryObs.isStop : RetryObs M → Bool
  | .stop => true
  | _ => false

/-- What the target and the parent get. -/
def deliveries (seen : List (RetryObs M)) : List (RetryObs M) :=
  seen.filter RetryObs.isDelivery

/-- What was seen before `End` was handled, if it was. -/
def beforeEnd (seen : List (RetryObs M)) : List (RetryObs M) :=
  seen.takeWhile fun obs => !obs.isStop

/-- `n` times the message, and then the report. -/
def report (message : M) (n : Nat) : List (RetryObs M) :=
  List.replicate n (.sent message) ++ [.emitted .reTry]

/-- Nothing is left to do, unless somebody tells the actor to end. -/
def RetryRun.Quiescent (overflowChecks : Bool) (run : RetryRun M) : Prop :=
  ∀ input, input ≠ .tellEnd → run.step overflowChecks input = none

/-- The promise of a retry actor: whatever the order of the steps, at most the
message `n` times and then the report, all of it once nothing is left to do and
`End` was not handled, after a bounded number of steps; and nothing after
`End`. -/
structure DeliversAll (overflowChecks : Bool) (strategy : Strategy) (message : M) :
    Prop where
  delivered : ∀ inputs run seen, (∀ input ∈ inputs, input.Live) →
    execute (RetryRun.step overflowChecks) (.start message strategy) inputs =
      some (run, seen) →
    deliveries seen <+: report message strategy.maxRetries
  complete : ∀ inputs run seen, (∀ input ∈ inputs, input.Live) →
    execute (RetryRun.step overflowChecks) (.start message strategy) inputs =
      some (run, seen) → .stop ∉ seen →
    (run.Quiescent overflowChecks →
      deliveries seen = report message strategy.maxRetries) ∧
    (inputs.filter RetryInput.works).length ≤ 2 * strategy.maxRetries + 1
  ended : ∀ inputs run seen, (∀ input ∈ inputs, input.Live) →
    execute (RetryRun.step overflowChecks) (.start message strategy) inputs =
      some (run, seen) →
    deliveries seen = deliveries (beforeEnd seen)

section Sufficient

variable {overflowChecks : Bool} {strategy : Strategy} {message : M}

/-- How far a run has got before `End` is handled: an attempt is due, or a task
sleeps after the attempt, or the report is out. -/
inductive RetryStage (strategy : Strategy) (message : M) :
    Nat → RetryRun M → List (RetryObs M) → Prop
  | due (k count mailbox seen) (hk : k ≤ strategy.maxRetries)
      (hmailbox : mailbox.count .retry = 1)
      (hseen : deliveries seen = List.replicate k (.sent message))
      (hcount : count = 2 * k) :
      RetryStage strategy message count
        ⟨⟨message, strategy.after k, k, false⟩, mailbox, [], false, .running⟩ seen
  | sleeps (k count mailbox duration seen) (hk : k < strategy.maxRetries)
      (hmailbox : mailbox.count .retry = 0)
      (hseen : deliveries seen = List.replicate (k + 1) (.sent message))
      (hcount : count = 2 * k + 1) :
      RetryStage strategy message count
        ⟨⟨message, strategy.after (k + 1), k + 1, false⟩, mailbox, [duration],
          false, .running⟩ seen
  | reported (actor count mailbox seen) (hactor : actor.isEnd = false)
      (hmailbox : mailbox.count .retry = 0)
      (hseen : deliveries seen = report message strategy.maxRetries)
      (hcount : count = 2 * strategy.maxRetries + 1) :
      RetryStage strategy message count
        ⟨actor, mailbox, [], false, .running⟩ seen

/-- The history of an actor that has handled `End`. -/
structure RetryEnded (strategy : Strategy) (message : M) (run : RetryRun M)
    (seen : List (RetryObs M)) : Prop where
  isEnd : run.actor.isEnd = true
  stop : .stop ∈ seen
  delivered : deliveries seen <+: report message strategy.maxRetries
  ended : deliveries seen = deliveries (beforeEnd seen)

/-- The message `k` times, for no more than all attempts, begins the report. -/
theorem replicate_prefix_report {k n : Nat} (hk : k ≤ n) (message : M) :
    List.replicate k (.sent message) <+: report message n := by
  obtain ⟨rest, rfl⟩ := Nat.exists_eq_add_of_le hk
  refine ⟨List.replicate rest (.sent message) ++ [.emitted .reTry], ?_⟩
  rw [report, List.replicate_add, List.append_assoc]

theorem RetryStage.delivered {count : Nat} {run : RetryRun M}
    {seen : List (RetryObs M)} (h : RetryStage strategy message count run seen) :
    deliveries seen <+: report message strategy.maxRetries := by
  cases h with
  | due k _ mailbox _ hk hmailbox hseen =>
      rw [hseen]
      exact replicate_prefix_report hk message
  | sleeps k _ mailbox duration _ hk hmailbox hseen =>
      rw [hseen]
      exact replicate_prefix_report hk message
  | reported _ _ _ _ _ _ hseen =>
      rw [hseen]

/-- Only at the report is there nothing left to do. -/
theorem RetryStage.complete {count : Nat} {run : RetryRun M}
    {seen : List (RetryObs M)} (h : RetryStage strategy message count run seen)
    (hquiet : run.Quiescent overflowChecks) :
    deliveries seen = report message strategy.maxRetries := by
  cases h with
  | due k _ mailbox _ hk hmailbox hseen =>
      cases mailbox with
      | nil => simp at hmailbox
      | cons first rest =>
          have hnone := hquiet (.handle ⟨none, false⟩) (by simp)
          simp [RetryRun.step] at hnone
  | sleeps k _ mailbox duration _ hk hmailbox hseen =>
      have hnone := hquiet (.fire 0) (by simp)
      simp [RetryRun.step] at hnone
  | reported _ _ _ _ _ _ hseen => exact hseen

theorem RetryStage.count_le {count : Nat} {run : RetryRun M}
    {seen : List (RetryObs M)} (h : RetryStage strategy message count run seen) :
    count ≤ 2 * strategy.maxRetries + 1 := by
  cases h <;> omega

theorem RetryObs.isStop_iff {obs : RetryObs M} : obs.isStop = true ↔ obs = .stop := by
  cases obs <;> simp [isStop]

theorem isStop_eq_false {seen : List (RetryObs M)} (h : .stop ∉ seen) :
    ∀ obs ∈ seen, (!obs.isStop) = true := by
  intro obs hobs
  rw [Bool.not_eq_true', Bool.eq_false_iff, Ne, RetryObs.isStop_iff]
  rintro rfl
  exact h hobs

/-- Before the first `End` everything counts. -/
theorem beforeEnd_eq_self {seen : List (RetryObs M)} (h : .stop ∉ seen) :
    beforeEnd seen = seen :=
  List.takeWhile_eq_self_iff.mpr (isStop_eq_false h)

theorem beforeEnd_append_stop {seen : List (RetryObs M)} (h : .stop ∉ seen) :
    beforeEnd (seen ++ [.stop]) = seen := by
  rw [beforeEnd, List.takeWhile_append_of_pos (isStop_eq_false h)]
  simp [RetryObs.isStop]

/-- After it, nothing does. -/
theorem beforeEnd_append {seen : List (RetryObs M)} (h : .stop ∈ seen)
    (o : List (RetryObs M)) : beforeEnd (seen ++ o) = beforeEnd seen := by
  rw [beforeEnd, List.takeWhile_append, if_neg, beforeEnd]
  intro hlength
  have hbegins := List.takeWhile_prefix (l := seen) fun x => !x.isStop
  have hall := List.takeWhile_eq_self_iff.mp (hbegins.eq_of_length hlength)
  simpa [RetryObs.isStop] using hall .stop h

theorem deliveries_append (seen o : List (RetryObs M)) :
    deliveries (seen ++ o) = deliveries seen ++ deliveries o :=
  List.filter_append seen o

/-- Handling `End` ends the attempts. -/
theorem RetryStage.ends (overflowChecks : Bool) {count : Nat} {run : RetryRun M}
    {seen : List (RetryObs M)} (h : RetryStage strategy message count run seen)
    (hstop : .stop ∉ seen) (rest : List RetryMessage) (ctx : RetryContext) :
    ∃ run', run.afterHandler rest
        (run.actor.handleMessage overflowChecks ctx .endRetry) =
          (run', [.stop]) ∧
      RetryEnded strategy message run' (seen ++ [.stop]) := by
  refine ⟨_, rfl, rfl, by simp, ?_, ?_⟩
  · rw [deliveries_append]
    simpa [deliveries, RetryObs.isDelivery] using h.delivered
  · rw [beforeEnd_append_stop hstop, deliveries_append]
    simp [deliveries, RetryObs.isDelivery]

/-- What the handler does with a `Retry` while attempts are left. -/
theorem handleMessage_retry (overflowChecks : Bool) (message : M)
    {ctx : RetryContext} (hctx : ctx.Live) {k : Nat}
    (hk : k < strategy.maxRetries) (hmax : strategy.maxRetries ≤ usizeMax) :
    RetryActor.handleMessage overflowChecks ctx
        ⟨message, strategy.after k, k, false⟩ .retry =
      some (⟨message, strategy.after (k + 1), k + 1, false⟩,
        .sent message ::
          ((strategy.after k).nextBackoff.1.map .spawned).toList) := by
  have hsucc : usizeSucc overflowChecks k = some (k + 1) :=
    usizeSucc_of_lt (by omega)
  simp only [RetryActor.handleMessage, hsucc, Strategy.maxRetries_after,
    RetryContext.tellTarget, hctx.1, hctx.2, Strategy.after]
  rw [if_neg Bool.false_ne_true, if_pos (by omega : k + 1 ≤ _), if_true]
  rcases (strategy.after k).nextBackoff with ⟨_ | d, left⟩ <;> rfl

/-- The last `Retry` is answered with the report. -/
theorem handleMessage_report (overflowChecks : Bool) (message : M)
    (ctx : RetryContext) {k : Nat}
    (hk : k = strategy.maxRetries) (hmax : k < usizeMax) :
    RetryActor.handleMessage overflowChecks ctx
        ⟨message, strategy.after k, k, false⟩ .retry =
      some (⟨message, strategy.after k, k + 1, false⟩,
        [.emitted .reTry]) := by
  have hsucc : usizeSucc overflowChecks k = some (k + 1) := usizeSucc_of_lt hmax
  simp only [RetryActor.handleMessage, hsucc, Strategy.maxRetries_after]
  rw [if_neg Bool.false_ne_true, if_neg (by omega)]

theorem RetryStage.phase {count : Nat} {run : RetryRun M}
    {seen : List (RetryObs M)} (h : RetryStage strategy message count run seen) :
    run.phase = .running ∧ run.stopping = false := by
  cases h <;> exact ⟨rfl, rfl⟩

/-- An `End` in the mailbox does not count before it is handled. -/
theorem RetryStage.tellEnd {count : Nat} {run : RetryRun M}
    {seen : List (RetryObs M)} (h : RetryStage strategy message count run seen) :
    RetryStage strategy message count
      { run with mailbox := run.mailbox ++ [.endRetry] } seen := by
  cases h with
  | due k _ mailbox _ hk hmailbox hseen hcount =>
      exact .due k _ _ _ hk (by simpa using hmailbox) hseen hcount
  | sleeps k _ mailbox duration _ hk hmailbox hseen hcount =>
      exact .sleeps k _ _ duration _ hk (by simpa using hmailbox) hseen hcount
  | reported actor _ mailbox _ hactor hmailbox hseen hcount =>
      exact .reported actor _ _ _ hactor (by simpa using hmailbox) hseen hcount

/-- A task that wakes up makes the next attempt due. -/
theorem RetryStage.fire {count : Nat} {run run' : RetryRun M}
    {seen o : List (RetryObs M)} {i : Nat}
    (h : RetryStage strategy message count run seen)
    (hstep : run.step overflowChecks (.fire i) = some (run', o)) :
    o = [] ∧ RetryStage strategy message (count + 1) run' seen := by
  cases h with
  | due => simp [RetryRun.step] at hstep
  | sleeps k _ mailbox duration _ hk hmailbox hseen hcount =>
      cases i with
      | zero =>
          simp only [RetryRun.step, List.getElem?_cons_zero, List.eraseIdx_cons_zero,
            Option.some.injEq, Prod.mk.injEq] at hstep
          obtain ⟨rfl, rfl⟩ := hstep
          exact ⟨rfl, .due (k + 1) _ _ _ hk (by simp [hmailbox]) hseen
            (by omega)⟩
      | succ i => simp [RetryRun.step] at hstep
  | reported => simp [RetryRun.step] at hstep

section Steps

variable (hlasts : strategy.Yields strategy.maxRetries)
  (hmax : strategy.maxRetries < usizeMax)

include hlasts hmax

/-- A `Retry` that is handled is an attempt, or the report after the last one. -/
theorem RetryStage.retry (overflowChecks : Bool) {count : Nat} {run : RetryRun M}
    {seen : List (RetryObs M)} {rest : List RetryMessage} {ctx : RetryContext}
    (hctx : ctx.Live) (h : RetryStage strategy message count run seen)
    (hmailbox : run.mailbox = .retry :: rest) :
    ∃ run' o, run.afterHandler rest
        (run.actor.handleMessage overflowChecks ctx .retry) = (run', o) ∧
      .stop ∉ o ∧ RetryStage strategy message (count + 1) run' (seen ++ o) := by
  cases h with
  | due k _ mailbox _ hk hcountRetry hseen hcount =>
      have hrest : rest.count .retry = 0 := by
        change mailbox = _ at hmailbox
        rw [hmailbox, List.count_cons_self] at hcountRetry
        omega
      by_cases hlt : k < strategy.maxRetries
      · obtain ⟨duration, hduration⟩ :=
          Option.ne_none_iff_exists'.mp (hlasts k hlt)
        have hhandle := handleMessage_retry overflowChecks message hctx hlt
          (Nat.le_of_lt hmax)
        rw [hduration] at hhandle
        refine ⟨_, [.sent message, .spawned duration], congrArg _ hhandle,
          by simp, ?_⟩
        refine .sleeps k _ rest duration _ hlt hrest ?_ (by omega)
        rw [deliveries_append, hseen, List.replicate_succ']
        rfl
      · have hlast : k = strategy.maxRetries := by omega
        have hhandle := handleMessage_report overflowChecks message ctx hlast
          (hlast ▸ hmax)
        refine ⟨_, [.emitted .reTry], congrArg _ hhandle, by simp, ?_⟩
        refine .reported _ _ rest _ rfl hrest ?_ (by omega)
        rw [deliveries_append, hseen, hlast, report]
        rfl
  | sleeps k _ mailbox duration _ hk hcountRetry =>
      change mailbox = _ at hmailbox
      simp [hmailbox] at hcountRetry
  | reported actor _ mailbox _ hactor hcountRetry =>
      change mailbox = _ at hmailbox
      simp [hmailbox] at hcountRetry

/-- A step before `End` is handled goes on with the attempts, or handles it. -/
theorem RetryStage.step {count : Nat} {run run' : RetryRun M}
    {seen o : List (RetryObs M)} {input : RetryInput} (hlive : input.Live)
    (h : RetryStage strategy message count run seen) (hstop : .stop ∉ seen)
    (hstep : run.step overflowChecks input = some (run', o)) :
    .stop ∉ o ∧ RetryStage strategy message
        (count + if input.works then 1 else 0) run' (seen ++ o) ∨
      RetryEnded strategy message run' (seen ++ o) := by
  obtain ⟨hphase, hstopping⟩ := h.phase
  cases input with
  | handle ctx =>
      cases hmailbox : run.mailbox with
      | nil => simp [RetryRun.step, hphase, hmailbox] at hstep
      | cons first rest =>
          simp only [RetryRun.step, hphase, hmailbox, Option.some.injEq] at hstep
          cases first with
          | retry =>
              obtain ⟨next, out, hnext, hnone, hstage⟩ :=
                h.retry hlasts hmax overflowChecks hlive hmailbox
              rw [hnext] at hstep
              cases hstep
              exact Or.inl ⟨hnone, hstage⟩
          | endRetry =>
              obtain ⟨next, hnext, hended⟩ :=
                h.ends overflowChecks hstop rest ctx
              rw [hnext] at hstep
              cases hstep
              exact Or.inr hended
  | fire i =>
      obtain ⟨rfl, hstage⟩ := h.fire hstep
      refine Or.inl ⟨by simp, ?_⟩
      rw [List.append_nil]
      exact hstage
  | tellEnd =>
      simp only [RetryRun.step, if_pos hphase, Option.some.injEq,
        Prod.mk.injEq] at hstep
      obtain ⟨rfl, rfl⟩ := hstep
      refine Or.inl ⟨by simp, ?_⟩
      rw [List.append_nil]
      exact h.tellEnd
  | stops => simp [RetryRun.step, hstopping] at hstep

end Steps

/-- After `End` nothing is delivered. -/
theorem RetryEnded.step {run run' : RetryRun M} {seen o : List (RetryObs M)}
    {input : RetryInput} (h : RetryEnded strategy message run seen)
    (hstep : run.step overflowChecks input = some (run', o)) :
    RetryEnded strategy message run' (seen ++ o) := by
  have hquiet : run'.actor.isEnd = true ∧ deliveries o = [] := by
    have hend := h.isEnd
    cases input with
    | handle ctx =>
        simp only [RetryRun.step] at hstep
        split at hstep
        · rename_i message' rest _ _
          cases message' <;>
            simp only [RetryActor.handleMessage, hend, if_true,
              RetryRun.afterHandler, Option.some.injEq, Prod.mk.injEq] at hstep <;>
            obtain ⟨rfl, rfl⟩ := hstep
          · exact ⟨hend, rfl⟩
          · exact ⟨rfl, rfl⟩
        · simp at hstep
    | fire i =>
        simp only [RetryRun.step] at hstep
        split at hstep <;> simp at hstep <;> obtain ⟨rfl, rfl⟩ := hstep <;>
          exact ⟨hend, rfl⟩
    | tellEnd =>
        simp only [RetryRun.step] at hstep
        split at hstep <;> simp at hstep
        obtain ⟨rfl, rfl⟩ := hstep
        exact ⟨hend, rfl⟩
    | stops =>
        simp only [RetryRun.step] at hstep
        split at hstep <;> simp at hstep
        obtain ⟨rfl, rfl⟩ := hstep
        exact ⟨hend, rfl⟩
  have hsame : deliveries (seen ++ o) = deliveries seen := by
    rw [deliveries_append, hquiet.2, List.append_nil]
  refine ⟨hquiet.1, List.mem_append_left o h.stop, ?_, ?_⟩
  · rw [hsame]
    exact h.delivered
  · rw [hsame, beforeEnd_append h.stop]
    exact h.ended

theorem deliversAll_of_yields (hlasts : strategy.Yields strategy.maxRetries)
    (hmax : strategy.maxRetries < usizeMax) (message : M) :
    DeliversAll overflowChecks strategy message := by
  have hrun : ∀ inputs run seen, (∀ input ∈ inputs, input.Live) →
      execute (RetryRun.step overflowChecks) (.start message strategy) inputs =
        some (run, seen) →
      .stop ∉ seen ∧ RetryStage strategy message
          (inputs.filter RetryInput.works).length run seen ∨
        RetryEnded strategy message run seen := by
    intro inputs run seen hlive hrun
    have hstart : RetryStage strategy message 0 (.start message strategy) [] :=
      .due 0 0 [.retry] [] (Nat.zero_le _) rfl rfl rfl
    exact execute_inputs_history
      (G := fun _ (input : RetryInput) => input.Live)
      (P := fun before run seen =>
        .stop ∉ seen ∧ RetryStage strategy message
            (before.filter RetryInput.works).length run seen ∨
          RetryEnded strategy message run seen)
      (by
        rintro before run seen input run' o (⟨hstop, hstage⟩ | hended) hlive hstep
        · rcases hstage.step hlasts hmax hlive hstop hstep with
            ⟨hnone, hnext⟩ | hnext
          · refine Or.inl ⟨by simp [hstop, hnone], ?_⟩
            rw [List.filter_append, List.length_append, List.filter_singleton]
            cases hworks : input.works <;> simpa [hworks] using hnext
          · exact Or.inr hnext
        · exact Or.inr (hended.step hstep))
      [] [] (Or.inl ⟨List.not_mem_nil, hstart⟩)
      (stepsMeet_of_forall (fun input hmem _ => hlive input hmem) _) hrun
  refine ⟨fun inputs run seen hlive hexec => ?_,
    fun inputs run seen hlive hexec hstop => ?_,
    fun inputs run seen hlive hexec => ?_⟩
  · rcases hrun inputs run seen hlive hexec with ⟨-, hstage⟩ | hended
    · exact hstage.delivered
    · exact hended.delivered
  · rcases hrun inputs run seen hlive hexec with ⟨-, hstage⟩ | hended
    · exact ⟨fun hquiet => hstage.complete hquiet, hstage.count_le⟩
    · exact absurd hended.stop hstop
  · rcases hrun inputs run seen hlive hexec with ⟨hstop, -⟩ | hended
    · rw [beforeEnd_eq_self hstop]
    · exact hended.ended

end Sufficient

section Necessary

variable {overflowChecks : Bool} {strategy : Strategy} {message : M}

/-- A run after `k` attempts, with the next one due. -/
def RetryRun.due (strategy : Strategy) (message : M) (k : Nat) : RetryRun M :=
  ⟨⟨message, strategy.after k, k, false⟩, [.retry], [], false, .running⟩

def liveContext : RetryContext := ⟨some (.ok ()), true⟩

theorem liveContext_live : liveContext.Live := ⟨rfl, rfl⟩

theorem live_append_handle {inputs : List RetryInput}
    (h : ∀ input ∈ inputs, input.Live) :
    ∀ input ∈ inputs ++ [.handle liveContext], RetryInput.Live input := by
  intro input hmem
  rcases List.mem_append.mp hmem with hold | hnew
  · exact h input hold
  · rw [List.mem_singleton.mp hnew]
    exact liveContext_live

/-- A run with an empty mailbox, no sleeping task and no stop to make. -/
theorem RetryRun.quiescent_of_idle {run : RetryRun M} (hmailbox : run.mailbox = [])
    (htimers : run.timers = []) (hstopping : run.stopping = false) :
    run.Quiescent overflowChecks := by
  intro input hinput
  cases input with
  | tellEnd => exact absurd rfl hinput
  | handle ctx => cases hphase : run.phase <;> simp [RetryRun.step, hmailbox, hphase]
  | fire i => simp [RetryRun.step, htimers]
  | stops => simp [RetryRun.step, hstopping]

/-- An attempt leaves the task for the next one, if the strategy has a delay. -/
theorem RetryRun.due_step (overflowChecks : Bool)
    (hmax : strategy.maxRetries ≤ usizeMax) (message : M) {k : Nat}
    (hk : k < strategy.maxRetries) :
    (RetryRun.due strategy message k).step overflowChecks (.handle liveContext) =
      some (⟨⟨message, strategy.after (k + 1), k + 1, false⟩, [],
          (strategy.after k).nextBackoff.1.toList, false, .running⟩,
        .sent message ::
          ((strategy.after k).nextBackoff.1.map .spawned).toList) := by
  have hhandle := handleMessage_retry overflowChecks message liveContext_live hk
    hmax
  simp only [RetryRun.step, RetryRun.due, hhandle]
  cases (strategy.after k).nextBackoff.1 <;> rfl

/-- As long as the strategy has a delay, attempts follow each other. -/
theorem exists_attempts (overflowChecks : Bool)
    (hmax : strategy.maxRetries ≤ usizeMax) (message : M) {k : Nat}
    (hk : k ≤ strategy.maxRetries) (hyields : strategy.Yields k) :
    ∃ inputs seen, (∀ input ∈ inputs, input.Live) ∧
      execute (RetryRun.step overflowChecks) (.start message strategy) inputs =
        some (.due strategy message k, seen) ∧
      .stop ∉ seen ∧ deliveries seen = List.replicate k (.sent message) := by
  induction k with
  | zero => exact ⟨[], [], by simp, rfl, by simp, rfl⟩
  | succ k ih =>
      obtain ⟨inputs, seen, hlive, hrun, hstop, hseen⟩ :=
        ih (by omega) (fun j hj => hyields j (by omega))
      obtain ⟨duration, hduration⟩ :=
        Option.ne_none_iff_exists'.mp (hyields k (Nat.lt_succ_self k))
      have hattempt := RetryRun.due_step overflowChecks hmax message hk
      rw [hduration] at hattempt
      refine ⟨inputs ++ [.handle liveContext, .fire 0],
        seen ++ [.sent message, .spawned duration], ?_, ?_, by simp [hstop], ?_⟩
      · intro input hmem
        rcases List.mem_append.mp hmem with hold | hnew
        · exact hlive input hold
        · simp only [List.mem_cons, List.not_mem_nil, or_false] at hnew
          rcases hnew with rfl | rfl
          · exact liveContext_live
          · trivial
      · refine execute_append.mpr ⟨_, _, _, hrun, ?_, rfl⟩
        refine execute_cons_eq_some.mpr ⟨_, _, [], hattempt, ?_, rfl⟩
        rfl
      · rw [deliveries_append, hseen, List.replicate_succ']
        rfl

/-- What is promised, read at the step after `k` attempts. -/
theorem DeliversAll.next (h : DeliversAll overflowChecks strategy message)
    (hmax : strategy.maxRetries ≤ usizeMax) {k : Nat}
    (hk : k ≤ strategy.maxRetries) (hyields : strategy.Yields k)
    {run : RetryRun M} {o : List (RetryObs M)}
    (hstep : (RetryRun.due strategy message k).step overflowChecks
      (.handle liveContext) = some (run, o)) :
    List.replicate k (.sent message) ++ deliveries o <+:
        report message strategy.maxRetries ∧
      (.stop ∉ o → run.Quiescent overflowChecks →
        List.replicate k (.sent message) ++ deliveries o =
          report message strategy.maxRetries) := by
  obtain ⟨inputs, seen, hlive, hrun, hstop, hseen⟩ :=
    exists_attempts overflowChecks hmax message hk hyields
  have hall := execute_append.mpr ⟨_, _, _, hrun, execute_single hstep, rfl⟩
  have hlive' := live_append_handle hlive
  rw [← hseen, ← deliveries_append]
  exact ⟨h.delivered _ _ _ hlive' hall, fun hnone hquiet =>
    (h.complete _ _ _ hlive' hall (by simp [hstop, hnone])).1 hquiet⟩

/-- Without the report the promise is not kept. -/
theorem replicate_ne_report (k n : Nat) (message : M) :
    List.replicate k (.sent message) ≠ report message n := by
  intro heq
  have hmem : RetryObs.emitted .reTry ∈ List.replicate k (.sent message) := by
    rw [heq, report]
    simp
  exact absurd (List.eq_of_mem_replicate hmem) (by simp)

theorem not_replicate_prefix_report (n : Nat) (message : M) :
    ¬ List.replicate (n + 1) (.sent message) <+: report message n := by
  intro hbegins
  refine replicate_ne_report (n + 1) n message (hbegins.eq_of_length ?_)
  simp [report]

/-- An attempt without a delay is the last thing that happens. -/
theorem yields_of_deliversAll (hmax : strategy.maxRetries ≤ usizeMax)
    (h : DeliversAll overflowChecks strategy message) {k : Nat}
    (hk : k ≤ strategy.maxRetries) : strategy.Yields k := by
  induction k with
  | zero =>
      intro j hj
      omega
  | succ k ih =>
      have hyields := ih (by omega)
      intro j hj hnone
      by_cases hlt : j < k
      · exact hyields j hlt hnone
      obtain rfl : j = k := by omega
      have hattempt := RetryRun.due_step overflowChecks hmax message
        (by omega : j < strategy.maxRetries)
      rw [hnone] at hattempt
      -- no message, no task and no stop request is left
      have hreport := (h.next hmax (by omega) hyields hattempt).2 (by simp)
        (RetryRun.quiescent_of_idle rfl rfl rfl)
      refine replicate_ne_report (j + 1) strategy.maxRetries message ?_
      rw [← hreport, List.replicate_succ']
      rfl

/-- At `usize::MAX` the counter overflows: the actor panics without the report,
or starts to count again. -/
theorem lt_usizeMax_of_deliversAll (hmax : strategy.maxRetries ≤ usizeMax)
    (h : DeliversAll overflowChecks strategy message) :
    strategy.maxRetries < usizeMax := by
  by_contra hge
  have heq : strategy.maxRetries = usizeMax := by omega
  have hyields := yields_of_deliversAll hmax h (Nat.le_refl _)
  cases overflowChecks with
  | true =>
      have hpanics : (RetryRun.due strategy message strategy.maxRetries).step true
          (.handle liveContext) =
          some ({ RetryRun.due strategy message strategy.maxRetries with
            mailbox := [], phase := .panicked }, []) := by
        simp [RetryRun.step, RetryRun.due, RetryActor.handleMessage, usizeSucc,
          heq, RetryRun.afterHandler]
      have hreport : List.replicate strategy.maxRetries (.sent message) ++ [] =
          report message strategy.maxRetries :=
        (h.next hmax (Nat.le_refl _) hyields hpanics).2 (by simp)
          (RetryRun.quiescent_of_idle rfl rfl rfl)
      rw [List.append_nil] at hreport
      exact replicate_ne_report _ _ message hreport
  | false =>
      -- the counter is 0 again, so this is one more attempt
      obtain ⟨actor, o, hhandle, hsent⟩ : ∃ actor o,
          RetryActor.handleMessage false liveContext
            ⟨message, strategy.after strategy.maxRetries, strategy.maxRetries,
              false⟩ .retry = some (actor, o) ∧ deliveries o = [.sent message] := by
        have hzero : usizeSucc false strategy.maxRetries = some 0 := by
          rw [usizeSucc, if_neg (by omega)]
          rfl
        simp only [RetryActor.handleMessage, hzero, Strategy.maxRetries_after,
          RetryContext.tellTarget, liveContext]
        rw [if_neg Bool.false_ne_true, if_pos (Nat.zero_le _), if_true]
        rcases (strategy.after strategy.maxRetries).nextBackoff with
          ⟨_ | d, left⟩
        · exact ⟨_, _, rfl, rfl⟩
        · exact ⟨_, _, rfl, rfl⟩
      have hstep : (RetryRun.due strategy message strategy.maxRetries).step false
          (.handle liveContext) =
          some ((RetryRun.due strategy message strategy.maxRetries).afterHandler
            [] (some (actor, o))) := by
        simp only [RetryRun.step, RetryRun.due, hhandle]
      have hbegins : List.replicate strategy.maxRetries (.sent message) ++
          deliveries o <+: report message strategy.maxRetries :=
        (h.next hmax (Nat.le_refl _) hyields hstep).1
      rw [hsent, ← List.replicate_succ'] at hbegins
      exact not_replicate_prefix_report _ message hbegins

/-- **The attempts of a retry actor.**  In every run with a live target, with
`End` told at any time or never, the target gets the message as often as the
strategy says and the parent gets the report, up to `End`, if and only if the
strategy has a delay after each retry and its maximum is not `usize::MAX`. -/
theorem deliversAll_iff (overflowChecks : Bool) (strategy : Strategy)
    (hmax : strategy.maxRetries ≤ usizeMax) (message : M) :
    DeliversAll overflowChecks strategy message ↔
      strategy.Lasts ∧ strategy.maxRetries < usizeMax := by
  rw [Strategy.lasts_iff_yields]
  constructor
  · intro h
    exact ⟨yields_of_deliversAll hmax h (Nat.le_refl _),
      lt_usizeMax_of_deliversAll hmax h⟩
  · rintro ⟨hyields, hlt⟩
    exact deliversAll_of_yields hyields hlt message

/-- Three attempts with a fixed delay. -/
theorem fixedInterval_deliversAll :
    (Strategy.fixedInterval 3 1000000000).maxRetries ≤ usizeMax ∧
      DeliversAll true (.fixedInterval 3 1000000000) "Hello from parent" := by
  have hmax : (Strategy.fixedInterval 3 1000000000).maxRetries ≤ usizeMax := by
    decide
  exact ⟨hmax, (deliversAll_iff true _ hmax _).mpr ⟨trivial, by decide⟩⟩

/-- Three attempts without delay: the message is sent once, nothing is left to do
then, and the report is missing. -/
theorem noInterval_sends_once :
    ∃ run, execute (RetryRun.step true) (.start "message" (.noInterval 3))
        [.handle liveContext] = some (run, [.sent "message"]) ∧
      run.Quiescent true ∧
      ¬ DeliversAll true (.noInterval 3) "message" := by
  have hquiet : RetryRun.Quiescent true
      ⟨⟨"message", .noInterval 3, 1, false⟩, [], [], false, .running⟩ :=
    RetryRun.quiescent_of_idle rfl rfl rfl
  refine ⟨_, rfl, hquiet, fun h => ?_⟩
  have hreport := (h.complete [.handle liveContext] _ _
    (by simpa [RetryInput.Live] using liveContext_live) rfl (by decide)).1 hquiet
  exact absurd hreport (by decide)

end Necessary

end Actor
end Rush
