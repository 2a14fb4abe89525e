import Rush.Actor.RunnerSpec

/-!
# When an acknowledged stop is final

After the stop branch has acknowledged a request, `init` decides how to go on
from `ctx.error`, the lifecycle and the presence of a parent.  An error that a
restart has already repaired is still set there, and a pending restart is still
pending: in both cases the stopped actor comes back.
-/

namespace Rush
namespace Actor

open Foundation

variable {M Ev : Type}

/-- What may still be observed of a stopped runner: no restart, no message, and
a lifecycle that goes through `Stopped` or `Failed` to `Terminated`. -/
def Obs.KeepsStopped : Obs M Ev → Prop
  | .called (.preRestart _) => False
  | .called (.handleMessage _) => False
  | .becomes lifecycle =>
      lifecycle = .stopped ∨ lifecycle = .failed ∨ lifecycle = .terminated
  | _ => True

namespace Runner

/-- The phases of `run`. -/
def InRun (r : Runner M Ev) : Prop :=
  match r.phase with
  | .inHook .preStart => False
  | .inHook (.preRestart _) => False
  | .inHook .postStop => False
  | .dispatch => False
  | .returned => False
  | .terminating => False
  | .ended => False
  | _ => True

/-- In `run`, the actor is started, or its restart is pending. -/
def RunsStarted (r : Runner M Ev) : Prop :=
  r.InRun → r.lifecycle = .started ∨ r.lifecycle = .restarted

theorem runsStarted_of_execute {cfg : RunnerConfig} {r : Runner M Ev}
    {inputs : List (Input M Ev)} {seen : List (Obs M Ev)}
    (hrun : execute (step cfg) create inputs = some (r, seen)) :
    r.RunsStarted := by
  intro hin
  have hplace := inPlace_of_execute hrun
  unfold InRun at hin
  unfold InPlace at hplace
  cases hphase : r.phase with
  | inHook hook => cases hook <;> simp_all
  | _ => simp_all

/-- A stop that is acknowledged in this state is final: a root actor has no
error left, and a pending restart is refused by the strategy. -/
def StopIsFinal (cfg : RunnerConfig) (r : Runner M Ev) : Prop :=
  if r.error.isSome then cfg.hasParent = true
  else r.lifecycle = .restarted → ¬ cfg.strategy.Restarts r.retries

/-- The states after an acknowledged stop that is final. -/
def Settled (cfg : RunnerConfig) (r : Runner M Ev) : Prop :=
  match r.phase with
  | .returned =>
      if r.error.isSome then cfg.hasParent = true
      else r.lifecycle = .stopped ∨
        r.lifecycle = .restarted ∧ ¬ cfg.strategy.Restarts r.retries
  | .dispatch =>
      r.lifecycle = .stopped ∨ r.lifecycle = .terminated ∨
        r.lifecycle = .failed ∧ cfg.hasParent = true ∨
        r.lifecycle = .restarted ∧ ¬ cfg.strategy.Restarts r.retries
  | .inHook .postStop => True
  | .terminating => True
  | .ended => True
  | _ => False

instance (cfg : RunnerConfig) (r : Runner M Ev) : Decidable (r.StopIsFinal cfg) :=
  inferInstanceAs (Decidable (if r.error.isSome then _ else _))

instance (cfg : RunnerConfig) (r : Runner M Ev) : Decidable (r.Settled cfg) :=
  match hphase : r.phase with
  | .returned =>
      decidable_of_iff
        (if r.error.isSome then cfg.hasParent = true
        else r.lifecycle = .stopped ∨
          r.lifecycle = .restarted ∧ ¬ cfg.strategy.Restarts r.retries)
        (by simp only [Settled, hphase])
  | .dispatch =>
      decidable_of_iff
        (r.lifecycle = .stopped ∨ r.lifecycle = .terminated ∨
          r.lifecycle = .failed ∧ cfg.hasParent = true ∨
          r.lifecycle = .restarted ∧ ¬ cfg.strategy.Restarts r.retries)
        (by simp only [Settled, hphase])
  | .inHook .postStop | .terminating | .ended => isTrue (by simp [Settled, hphase])
  | .inHook .preStart | .inHook (.preRestart _) | .inHook (.preStop _)
  | .inHook (.onChildError _) | .inHook (.onChildFault _ _)
  | .inHook (.handleMessage _) | .selecting | .awaitingAction | .stoppingItself
  | .stoppingChilds _ | .awaitingChild _ | .removing _ | .acknowledging _ =>
      isFalse (by simp [Settled, hphase])

theorem Settled.step {cfg : RunnerConfig} {r r' : Runner M Ev}
    {o : List (Obs M Ev)} (h : r.Settled cfg) (ht : Transition cfg r r' o) :
    r'.Settled cfg ∧ ∀ x ∈ o, x.KeepsStopped := by
  unfold Settled at *
  cases ht with
  | operates hook op r' hphase hop =>
      -- only `post_stop` can run here
      obtain ⟨hphase', -⟩ := operate_frame hop
      rw [hphase] at h
      rw [hphase', hphase]
      cases hook <;> simp_all
  | restarts strategy hphase hlife hstrategy hretries =>
      -- the strategy refuses the restart that is pending
      simp_all [SupervisionStrategy.Restarts]
  | handles hook hphase hhook =>
      rcases hhook with ⟨e, rfl⟩ | ⟨m, rfl⟩ <;> simp_all
  | ends hphase =>
      refine ⟨trivial, fun x hx => ?_⟩
      split at hx <;> simp_all [Obs.KeepsStopped]
  | returnsOk hphase herror =>
      simp only [hphase, herror, Option.isSome_none] at h
      simp only [List.not_mem_nil, false_implies, implies_true, and_true]
      exact h.elim Or.inl fun h => Or.inr (Or.inr (Or.inr h))
  | arrives => exact ⟨h, by simp⟩
  | _ => simp_all [Obs.KeepsStopped]

/-- The acknowledgement of a request is the next step. -/
theorem step_acknowledging (cfg : RunnerConfig) {r : Runner M Ev}
    {request : StopRequest} (hphase : r.phase = .acknowledging request) :
    step cfg r (.choice .proceed) =
      if r.lifecycle = .started then
        some ({ r with lifecycle := .stopped, phase := .returned },
          [.acknowledged request, .becomes .stopped])
      else some ({ r with phase := .returned }, [.acknowledged request]) := by
  simp only [step, advance, hphase]

/-- A root actor with an error goes on to `Restarted`. -/
theorem restarts_after_error {cfg : RunnerConfig} {r : Runner M Ev}
    {request : StopRequest} (hphase : r.phase = .acknowledging request)
    (hlife : r.lifecycle = .started ∨ r.lifecycle = .restarted)
    (herror : r.error.isSome) (hparent : cfg.hasParent = false) :
    ∃ t os, execute (step cfg) r [.choice .proceed, .choice .proceed,
        .choice .proceed] = some (t, os) ∧ Obs.becomes .restarted ∈ os := by
  obtain ⟨e, he⟩ := Option.isSome_iff_exists.mp herror
  rcases hlife with hlife | hlife <;>
    simp [execute, step, advance, dispatch, hphase, hlife, he, hparent]

/-- A pending restart is carried out if the strategy allows it. -/
theorem restarts_when_pending {cfg : RunnerConfig} {r : Runner M Ev}
    {request : StopRequest} (hphase : r.phase = .acknowledging request)
    (hlife : r.lifecycle = .restarted) (herror : r.error = none)
    (hrestarts : cfg.strategy.Restarts r.retries) :
    ∃ t os, execute (step cfg) r [.choice .proceed, .choice .proceed,
        .choice .proceed] = some (t, os) ∧
      Obs.called (.preRestart none) ∈ os := by
  cases hstrategy : cfg.strategy with
  | stop => simp [hstrategy, SupervisionStrategy.Restarts] at hrestarts
  | retry strategy =>
      have hretries : r.retries < strategy.maxRetries := by
        simpa [hstrategy, SupervisionStrategy.Restarts] using hrestarts
      simp [execute, step, advance, dispatch, applySupervisionStrategy,
        hphase, hlife, herror, hstrategy, hretries]

/-- The acknowledgement leads from a final state to a settled one. -/
theorem settled_of_stopIsFinal {cfg : RunnerConfig} {r s : Runner M Ev}
    {request : StopRequest} {o : List (Obs M Ev)}
    (hphase : r.phase = .acknowledging request)
    (hlife : r.lifecycle = .started ∨ r.lifecycle = .restarted)
    (hfinal : r.StopIsFinal cfg)
    (hstep : step cfg r (.choice .proceed) = some (s, o)) :
    s.Settled cfg ∧ ∀ x ∈ o, x.KeepsStopped := by
  rw [step_acknowledging cfg hphase] at hstep
  unfold StopIsFinal at hfinal
  rcases hlife with hlife | hlife
  · rw [if_pos hlife] at hstep
    cases hstep
    refine ⟨?_, by simp [Obs.KeepsStopped]⟩
    simp only [Settled]
    split
    · simpa [*] using hfinal
    · exact Or.inl trivial
  · rw [if_neg (by simp [hlife])] at hstep
    cases hstep
    refine ⟨?_, by simp [Obs.KeepsStopped]⟩
    simp only [Settled]
    split
    · simpa [*] using hfinal
    · simpa [*] using hfinal

/-- **A stop is final** after its acknowledgement, over every continuation of
every run, if and only if the runner acknowledges it in a final state. -/
theorem stop_final_iff (cfg : RunnerConfig) {inputs : List (Input M Ev)}
    {r : Runner M Ev} {seen : List (Obs M Ev)} {request : StopRequest}
    (hrun : execute (step cfg) create inputs = some (r, seen))
    (hphase : r.phase = .acknowledging request) :
    (∀ later t os,
      execute (step cfg) r (.choice .proceed :: later) = some (t, os) →
        ∀ x ∈ os, x.KeepsStopped) ↔
      r.StopIsFinal cfg := by
  have hlife : r.lifecycle = .started ∨ r.lifecycle = .restarted := by
    refine runsStarted_of_execute hrun ?_
    simp [InRun, hphase]
  constructor
  · intro hall
    by_contra hnot
    unfold StopIsFinal at hnot
    by_cases herror : r.error.isSome
    · have hparent : cfg.hasParent = false := by simpa [herror] using hnot
      obtain ⟨t, os, hexec, hmem⟩ :=
        restarts_after_error hphase hlife herror hparent
      -- `Restarted` is not on the way to `Terminated`
      have hkeeps := hall _ t os hexec _ hmem
      simp [Obs.KeepsStopped] at hkeeps
    · obtain ⟨hrestarted, hrestarts⟩ : r.lifecycle = .restarted ∧
          cfg.strategy.Restarts r.retries := by
        simpa [herror] using hnot
      obtain ⟨t, os, hexec, hmem⟩ := restarts_when_pending hphase hrestarted
        (by simpa using herror) hrestarts
      exact hall _ t os hexec _ hmem
  · intro hfinal later t os hexec
    obtain ⟨s, o, os', hstep, hrest, rfl⟩ := execute_cons_eq_some.mp hexec
    obtain ⟨hsettled, hkeeps⟩ :=
      settled_of_stopIsFinal hphase hlife hfinal hstep
    intro x hx
    rcases List.mem_append.mp hx with hx | hx
    · exact hkeeps x hx
    · exact execute_observations
        (fun _ _ _ _ hold hstep => hold.step (step_transition hstep))
        hsettled hrest x hx

/-- A root actor that is restarted up to three times. -/
def retryingRoot : RunnerConfig where
  hasParent := false
  strategy := .retry (.noInterval 3)

/-- The first `pre_start` fails, the restart succeeds, and the actor runs until
it is asked to stop; the request is about to be acknowledged. -/
def repairedStart : List (Input Unit Unit) :=
  [.choice .proceed, .choice (.returns (.error (.functional "start"))),
    .choice .proceed, .choice .proceed, .choice (.returns (.ok ())),
    .choice .proceed, .arrival (.stop ⟨.outside, some 0⟩), .choice .takeStop,
    .choice (.returns (.ok ())), .choice .proceed, .choice .proceed]

/-- The runner after `repairedStart`. -/
def repairedRunner : Runner Unit Unit :=
  { create with
    lifecycle := .started
    error := some (.functional "start")
    signal := false
    phase := .acknowledging ⟨.outside, some 0⟩ }

theorem repairedStart_runs :
    execute (step retryingRoot) create repairedStart =
      some (repairedRunner,
        [.called .preStart, .becomes .failed, .becomes .restarted,
          .called (.preRestart (some (.functional "start"))), .becomes .started,
          .signal true, .called (.preStop ⟨.outside, some 0⟩),
          .removeActor]) := by
  decide

/-- `pre_start` succeeds, and the actor runs until it is asked to stop. -/
def cleanStart : List (Input Unit Unit) :=
  [.choice .proceed, .choice (.returns (.ok ())), .choice .proceed,
    .arrival (.stop ⟨.outside, some 0⟩), .choice .takeStop,
    .choice (.returns (.ok ())), .choice .proceed, .choice .proceed]

/-- After a start without an error the acknowledged stop is final. -/
theorem cleanStart_stop_final :
    ∃ r seen, execute (step retryingRoot) create cleanStart = some (r, seen) ∧
      ∀ later t os,
        execute (step retryingRoot) r (.choice .proceed :: later) =
            some (t, os) → ∀ x ∈ os, x.KeepsStopped := by
  have hrun : execute (step retryingRoot) create cleanStart = some _ := rfl
  refine ⟨_, _, hrun, (stop_final_iff retryingRoot hrun rfl).mpr ?_⟩
  intro hrestarted
  contradiction

/-- The stop is acknowledged, and then the actor is restarted: `ctx.error` still
holds the error of the first start. -/
theorem acknowledged_stop_restarts :
    execute (step retryingRoot) create repairedStart ≠ none ∧
      (execute (step retryingRoot) repairedRunner
        [.choice .proceed, .choice .proceed, .choice .proceed,
          .choice .proceed]).map Prod.snd =
        some [.acknowledged ⟨.outside, some 0⟩, .becomes .stopped,
          .becomes .failed, .becomes .restarted,
          .called (.preRestart (some (.functional "start")))] ∧
      ¬ ∀ later t os,
        execute (step retryingRoot) repairedRunner (.choice .proceed :: later) =
            some (t, os) → ∀ x ∈ os, x.KeepsStopped := by
  refine ⟨by decide, by decide, fun hall => ?_⟩
  have hkeeps := hall [.choice .proceed, .choice .proceed, .choice .proceed]
    _ _ rfl (.called (.preRestart (some (.functional "start")))) (by decide)
  exact hkeeps

end Runner

end Actor
end Rush
