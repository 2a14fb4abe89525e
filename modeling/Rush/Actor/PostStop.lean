import Rush.Actor.StopFinality
import Mathlib.Data.List.Count

/-!
# The `post_stop` of a started actor

`Terminated` is entered from `Stopped`, after `post_stop`, and for a child also
from `Failed`, without it.  When `run` returns, `init` goes to `Failed` because
of what is left in `ctx.error`: by a `pre_stop` that has failed, by a fault
whose parent is gone, or by a start that a restart has repaired since.  A
started child misses its `post_stop` exactly if its `run` returns so.
-/

namespace Rush
namespace Actor

open Foundation

variable {M Ev : Type}

/-- A call of `post_stop`. -/
def Obs.isPostStop : Obs M Ev → Bool
  | .called .postStop => true
  | _ => false

namespace Runner

variable {cfg : RunnerConfig} {r r' : Runner M Ev} {seen o : List (Obs M Ev)}
  {i : Input M Ev}

/-- The step does not lead a child out of `run` with an error in its context. -/
def EndsRunClean (cfg : RunnerConfig) (r : Runner M Ev) : Input M Ev → Prop
  | .choice .proceed =>
      r.phase = .returned → cfg.hasParent = true → r.error = none
  | _ => True

instance [DecidableEq M] (cfg : RunnerConfig) (r : Runner M Ev) :
    DecidablePred (EndsRunClean cfg r)
  | .choice .proceed => inferInstanceAs (Decidable (_ → _ → _))
  | .arrival _ | .choice (.operation _) | .choice (.returns _)
  | .choice (.answers _) | .choice .takeStop | .choice .takeChildError
  | .choice .takeInner | .choice .takeMessage | .choice .mailboxClosed
  | .choice (.parentAction _) | .choice .childClosed | .choice .childSent
  | .choice .childAnswered => isTrue trivial

/-- A started actor that is terminated without its `post_stop`, or a child that
is about to be. -/
def SkipsPostStop (cfg : RunnerConfig) (r : Runner M Ev)
    (seen : List (Obs M Ev)) : Prop :=
  .signal true ∈ seen ∧ seen.countP Obs.isPostStop = 0 ∧
    (r.lifecycle = .terminated ∨
      r.lifecycle = .failed ∧ cfg.hasParent = true)

/-- What the history of a runner says about its start and its `post_stop`. -/
structure StopLog (r : Runner M Ev) (seen : List (Obs M Ev)) : Prop where
  inPlace : r.InPlace
  starting : r.lifecycle = .created → r.signal = true
  running : r.InRun ∨ r.phase = .returned → r.signal = false
  unsignalled : r.signal = true → .signal true ∉ seen
  signalled : r.signal = false → .signal true ∈ seen ∨ r.phase = .ended
  notCalled : r.lifecycle ≠ .terminated → r.phase ≠ .inHook .postStop →
    seen.countP Obs.isPostStop = 0
  called : r.phase = .inHook .postStop → seen.countP Obs.isPostStop = 1
  atMostOnce : seen.countP Obs.isPostStop ≤ 1

/-- The steps that are not calls of `post_stop`. -/
theorem Transition.isPostStop (ht : Transition cfg r r' o) :
    (r.phase = .dispatch ∧ r.lifecycle = .stopped ∧
        r'.phase = .inHook .postStop ∧ o.countP Obs.isPostStop = 1) ∨
      (r'.phase = .inHook .postStop → r.phase = .inHook .postStop) ∧
        o.countP Obs.isPostStop = 0 := by
  cases ht with
  | stops hphase hlife => exact Or.inl ⟨hphase, hlife, rfl, rfl⟩
  | operates hook op r' hphase hop =>
      exact Or.inr ⟨fun h => by rwa [← (operate_frame hop).1], rfl⟩
  | takesChildError error rest hook hphase hsignal hqueue hhook =>
      rcases hhook with ⟨e, rfl, rfl⟩ | ⟨e, sender, rfl, rfl⟩ <;>
        simp [Obs.isPostStop]
  | restarts strategy =>
      cases strategy.nextBackoff.1 <;> simp [Obs.isPostStop]
  | entersRun | takesError | ends =>
      refine Or.inr ⟨by simp, ?_⟩
      split <;> rfl
  | arrives => exact Or.inr ⟨id, rfl⟩
  | _ => exact Or.inr ⟨by simp, rfl⟩

/-- The steps that send the start signal. -/
theorem Transition.signal (ht : Transition cfg r r' o) :
    (r.phase = .dispatch ∧ r'.lifecycle = .started ∧ r'.signal = false ∧
        (.signal true ∈ o ↔ r.signal = true)) ∨
      (r'.signal = r.signal ∨ r'.phase = .ended ∧ r'.signal = false) ∧
        .signal true ∉ o := by
  cases ht with
  | entersRun hphase hlife =>
      refine Or.inl ⟨hphase, hlife, rfl, ?_⟩
      cases r.signal <;> simp
  | operates hook op r' hphase hop =>
      exact Or.inr ⟨Or.inl (operate_frame hop).2.2.2.2, by simp⟩
  | restarts strategy =>
      cases strategy.nextBackoff.1 <;> simp
  | ends =>
      refine Or.inr ⟨Or.inr ⟨rfl, rfl⟩, ?_⟩
      cases r.signal <;> simp
  | takesError => exact Or.inr ⟨Or.inl rfl, by cases cfg.hasParent <;> simp⟩
  | _ => exact Or.inr ⟨Or.inl rfl, by simp⟩

/-- An ended runner stays ended, and so does a terminated lifecycle. -/
theorem Transition.ended (ht : Transition cfg r r' o) (hphase : r.phase = .ended) :
    r'.phase = .ended := by
  cases ht with
  | arrives => exact hphase
  | operates hook op r' hphase' hop => simp_all
  | _ => simp_all

theorem Transition.terminated (hplace : r.InPlace) (ht : Transition cfg r r' o)
    (hlife : r.lifecycle = .terminated) : r'.lifecycle = .terminated := by
  unfold InPlace at hplace
  cases ht with
  | operates hook op r' hphase hop => rwa [(operate_frame hop).2.1]
  | arrives => exact hlife
  | _ => simp_all

/-- How a runner becomes terminated. -/
theorem Transition.of_terminated (ht : Transition cfg r r' o)
    (hlife : r'.lifecycle = .terminated) :
    r.lifecycle = .terminated ∨ r.phase = .inHook .postStop ∨
      r.lifecycle = .failed ∧ cfg.hasParent = true := by
  cases ht with
  | postStop hphase => exact Or.inr (Or.inl hphase)
  | failsAsChild hphase hfailed hparent => exact Or.inr (Or.inr ⟨hfailed, hparent⟩)
  | operates hook op r' hphase hop =>
      exact Or.inl (by rwa [(operate_frame hop).2.1] at hlife)
  | _ => simp_all [emitFail]

/-- How a runner becomes failed. -/
theorem Transition.of_failed (ht : Transition cfg r r' o)
    (hlife : r'.lifecycle = .failed) :
    r.lifecycle = .failed ∨ r.phase = .inHook .preStart ∨
      r.phase = .returned ∧ r.error.isSome ∧ r'.phase = .dispatch := by
  cases ht with
  | preStartErr e hphase => exact Or.inr (Or.inl hphase)
  | returnsError hphase herror => exact Or.inr (Or.inr ⟨hphase, herror, rfl⟩)
  | operates hook op r' hphase hop =>
      exact Or.inl (by rwa [(operate_frame hop).2.1] at hlife)
  | _ => simp_all [emitFail]

/-- A failed child is terminated next. -/
theorem Transition.failedChild (hplace : r.InPlace) (ht : Transition cfg r r' o)
    (hlife : r.lifecycle = .failed) (hparent : cfg.hasParent = true) :
    r'.lifecycle = .failed ∨ r'.lifecycle = .terminated := by
  unfold InPlace at hplace
  cases ht with
  | operates hook op r' hphase hop =>
      exact Or.inl (by rwa [(operate_frame hop).2.1])
  | arrives => exact Or.inl hlife
  | _ => simp_all

/-- `post_stop` is running until the runner is terminated. -/
theorem Transition.inPostStop (ht : Transition cfg r r' o)
    (hphase : r.phase = .inHook .postStop) :
    r'.phase = .inHook .postStop ∨ r'.lifecycle = .terminated := by
  cases ht with
  | operates hook op r' hphase' hop =>
      exact Or.inl (by rwa [(operate_frame hop).1])
  | arrives => exact Or.inl hphase
  | _ => simp_all

/-- The creator waits until the runner enters `run`. -/
theorem signal_of_step (hplace : r.InPlace)
    (hstarting : r.lifecycle = .created → r.signal = true)
    (hrunning : r.InRun ∨ r.phase = .returned → r.signal = false)
    (ht : Transition cfg r r' o) :
    (r'.lifecycle = .created → r'.signal = true) ∧
      (r'.InRun ∨ r'.phase = .returned → r'.signal = false) := by
  unfold InRun InPlace at *
  cases ht with
  | operates hook op r' hphase hop =>
      obtain ⟨hphase', hlife', -, -, hsignal⟩ := operate_frame hop
      rw [hphase', hlife', hsignal]
      exact ⟨hstarting, hrunning⟩
  | handles hook hphase hhook =>
      rcases hhook with ⟨e, rfl⟩ | ⟨m, rfl⟩ <;> simp_all
  | arrives => exact ⟨hstarting, hrunning⟩
  | _ => simp_all [emitFail]

theorem StopLog.create : StopLog (create : Runner M Ev) [] where
  inPlace := trivial
  starting _ := rfl
  running h := by simp [InRun, Runner.create] at h
  unsignalled _ := by simp
  signalled h := by simp [Runner.create] at h
  notCalled _ _ := rfl
  called h := by simp [Runner.create] at h
  atMostOnce := by simp

theorem StopLog.step (h : r.StopLog seen) (ht : Transition cfg r r' o) :
    r'.StopLog (seen ++ o) := by
  obtain ⟨hstarting, hrunning⟩ :=
    signal_of_step h.inPlace h.starting h.running ht
  refine
    { inPlace := h.inPlace.step ht
      starting := hstarting
      running := hrunning
      unsignalled := ?_
      signalled := ?_
      notCalled := ?_
      called := ?_
      atMostOnce := ?_ }
  · intro hsignal
    rcases ht.signal with ⟨-, -, hsent, -⟩ | ⟨hsame | ⟨-, hsent⟩, ho⟩
    · simp [hsent] at hsignal
    · have hseen := h.unsignalled (hsame ▸ hsignal)
      simp [hseen, ho]
    · simp [hsent] at hsignal
  · intro hsignal
    rcases ht.signal with ⟨hphase, -, -, ho⟩ | ⟨hsame | ⟨hended, -⟩, ho⟩
    · left
      cases hbefore : r.signal with
      | true => exact List.mem_append_right _ (ho.mpr hbefore)
      | false =>
          rcases h.signalled hbefore with hseen | hended
          · exact List.mem_append_left _ hseen
          · simp [hphase] at hended
    · rcases h.signalled (hsame ▸ hsignal) with hseen | hended
      · exact Or.inl (List.mem_append_left _ hseen)
      · exact Or.inr (ht.ended hended)
    · exact Or.inr hended
  · intro hlife hphase
    rcases ht.isPostStop with ⟨-, -, hcalled, -⟩ | ⟨-, ho⟩
    · contradiction
    · have hseen : seen.countP Obs.isPostStop = 0 := by
        refine h.notCalled (fun hold => hlife (ht.terminated h.inPlace hold))
          fun hold => ?_
        exact (ht.inPostStop hold).elim hphase hlife
      simp [List.countP_append, hseen, ho]
  · intro hphase
    rcases ht.isPostStop with ⟨hdispatch, hstopped, -, ho⟩ | ⟨hcalling, ho⟩
    · have hseen := h.notCalled (by simp [hstopped]) (by simp [hdispatch])
      simp [List.countP_append, hseen, ho]
    · simp [List.countP_append, h.called (hcalling hphase), ho]
  · rcases ht.isPostStop with ⟨hdispatch, hstopped, -, ho⟩ | ⟨-, ho⟩
    · have hseen := h.notCalled (by simp [hstopped]) (by simp [hdispatch])
      simp [List.countP_append, hseen, ho]
    · simpa [List.countP_append, ho] using h.atMostOnce

/-- A step that does not end `run` cleanly goes to `Failed`. -/
theorem step_of_not_endsRunClean (h : ¬ EndsRunClean cfg r i)
    (hstep : step cfg r i = some (r', o)) :
    r.phase = .returned ∧ cfg.hasParent = true ∧ r'.lifecycle = .failed ∧
      o = [.becomes .failed] := by
  cases i with
  | arrival arrival => exact absurd trivial h
  | choice choice =>
      cases choice with
      | proceed =>
          simp only [EndsRunClean, Classical.not_imp] at h
          obtain ⟨hphase, hparent, herror⟩ := h
          simp [step, advance, hphase, Option.isSome_iff_ne_none, herror] at hstep
          obtain ⟨rfl, rfl⟩ := hstep
          exact ⟨hphase, hparent, rfl, rfl⟩
      | _ => exact absurd trivial h

/-- Leaving `run` with an error is not clean for a child. -/
theorem not_endsRunClean (hphase : r.phase = .returned)
    (herror : r.error.isSome) (hparent : cfg.hasParent = true)
    (hphase' : r'.phase = .dispatch) (hstep : step cfg r i = some (r', o)) :
    ¬ EndsRunClean cfg r i := by
  cases i with
  | arrival arrival =>
      obtain ⟨_, harrive, heq⟩ := Option.map_eq_some_iff.mp hstep
      cases heq
      simp [(arrive_frame harrive).1, hphase] at hphase'
  | choice choice =>
      cases choice with
      | proceed =>
          intro hclean
          simp [hclean hphase hparent] at herror
      | _ => simp [step, advance, hphase] at hstep

/-- **The trap.**  From outside it is entered by just the steps that lead a
child out of `run` with an error. -/
theorem skipsPostStop_step (h : r.StopLog seen)
    (hstep : step cfg r i = some (r', o)) :
    SkipsPostStop cfg r' (seen ++ o) ↔
      SkipsPostStop cfg r seen ∨ ¬ EndsRunClean cfg r i := by
  have ht := step_transition hstep
  constructor
  · rintro ⟨hsignal, hcount, hlife⟩
    obtain ⟨hseen, ho⟩ : seen.countP Obs.isPostStop = 0 ∧
        o.countP Obs.isPostStop = 0 := by
      simpa [List.countP_append] using hcount
    have hstarted : .signal true ∈ seen := by
      rcases List.mem_append.mp hsignal with hmem | hmem
      · exact hmem
      · rcases ht.signal with ⟨-, hrunning, -⟩ | ⟨-, hnot⟩
        · simp [hrunning] at hlife
        · contradiction
    rcases hlife with hlife | ⟨hlife, hparent⟩
    · rcases ht.of_terminated hlife with hold | hpost | hfailed
      · exact Or.inl ⟨hstarted, hseen, Or.inl hold⟩
      · simp [h.called hpost] at hseen
      · exact Or.inl ⟨hstarted, hseen, Or.inr hfailed⟩
    · rcases ht.of_failed hlife with hold | hpre | ⟨hphase, herror, hphase'⟩
      · exact Or.inl ⟨hstarted, hseen, Or.inr ⟨hold, hparent⟩⟩
      · have hcreated : r.lifecycle = .created := by
          simpa [InPlace, hpre] using h.inPlace
        exact absurd hstarted (h.unsignalled (h.starting hcreated))
      · exact Or.inr (not_endsRunClean hphase herror hparent hphase' hstep)
  · rintro (⟨hsignal, hcount, hlife⟩ | hnot)
    · have ho : o.countP Obs.isPostStop = 0 := by
        rcases ht.isPostStop with ⟨-, hstopped, -⟩ | ⟨-, ho⟩
        · simp [hstopped] at hlife
        · exact ho
      refine ⟨List.mem_append_left _ hsignal,
        by simp [List.countP_append, hcount, ho], ?_⟩
      rcases hlife with hlife | ⟨hlife, hparent⟩
      · exact Or.inl (ht.terminated h.inPlace hlife)
      · rcases ht.failedChild h.inPlace hlife hparent with hnext | hnext
        · exact Or.inr ⟨hnext, hparent⟩
        · exact Or.inl hnext
    · obtain ⟨hphase, hparent, hfailed, rfl⟩ := step_of_not_endsRunClean hnot hstep
      have hsignal : .signal true ∈ seen := by
        have hsent := h.signalled (h.running (Or.inr hphase))
        simpa [hphase] using hsent
      have hcount : seen.countP Obs.isPostStop = 0 := by
        have hplace := h.inPlace
        refine h.notCalled ?_ (by simp [hphase])
        rcases (by simpa [InPlace, hphase] using hplace :
          r.lifecycle = .stopped ∨ r.lifecycle = .restarted) with hl | hl <;>
          simp [hl]
      exact ⟨List.mem_append_left _ hsignal,
        by simp [List.countP_append, hcount, Obs.isPostStop],
        Or.inr ⟨hfailed, hparent⟩⟩

theorem stopLog_of_execute {inputs : List (Input M Ev)}
    (hrun : execute (step cfg) create inputs = some (r, seen)) :
    r.StopLog seen :=
  execute_history (G := fun _ _ => True)
    (fun _ _ _ _ _ h _ hstep => h.step (step_transition hstep)) []
    StopLog.create (stepsMeet_true _ _) hrun

/-- A runner is not on the way past its `post_stop` if and only if all its steps
end `run` cleanly. -/
theorem not_skipsPostStop_iff {inputs : List (Input M Ev)}
    (hrun : execute (step cfg) create inputs = some (r, seen)) :
    ¬ SkipsPostStop cfg r seen ↔
      StepsMeet (step cfg) (EndsRunClean cfg) create inputs :=
  execute_history_avoids_iff (I := StopLog) (D := SkipsPostStop cfg)
    (fun _ _ _ _ _ h hstep =>
      ⟨h.step (step_transition hstep), skipsPostStop_step h hstep⟩)
    [] StopLog.create (by simp [SkipsPostStop]) hrun

/-- An actor that has been started and terminated has had its `post_stop` once,
or it has skipped it. -/
theorem postStop_once_of_terminated {inputs : List (Input M Ev)}
    (hrun : execute (step cfg) create inputs = some (r, seen))
    (hok : .signal true ∈ seen) (hlife : r.lifecycle = .terminated) :
    seen.countP Obs.isPostStop = 1 ↔ ¬ SkipsPostStop cfg r seen := by
  have hle := (stopLog_of_execute hrun).atMostOnce
  constructor
  · rintro hone ⟨-, hzero, -⟩
    omega
  · intro hnot
    have hne : seen.countP Obs.isPostStop ≠ 0 :=
      fun hzero => hnot ⟨hok, hzero, Or.inl hlife⟩
    omega

/-- **A started actor gets its `post_stop`** exactly once before it is
terminated, if and only if it is not a child whose `run` has returned with an
error in its context.  The state is any in which the lifecycle is `Terminated`,
so also the first one. -/
theorem postStop_once_iff (cfg : RunnerConfig) {inputs : List (Input M Ev)}
    {r : Runner M Ev} {seen : List (Obs M Ev)}
    (hrun : execute (step cfg) create inputs = some (r, seen))
    (hok : .signal true ∈ seen) (hlife : r.lifecycle = .terminated) :
    seen.countP Obs.isPostStop = 1 ↔
      StepsMeet (step cfg) (EndsRunClean cfg) create inputs := by
  rw [← not_skipsPostStop_iff hrun]
  exact postStop_once_of_terminated hrun hok hlife

/-- Root actors always get it: they have no parent to be failed for. -/
theorem root_postStop_once (hparent : cfg.hasParent = false)
    {inputs : List (Input M Ev)}
    (hrun : execute (step cfg) create inputs = some (r, seen))
    (hok : .signal true ∈ seen) (hlife : r.lifecycle = .terminated) :
    seen.countP Obs.isPostStop = 1 := by
  have hnot : ¬ SkipsPostStop cfg r seen := by
    refine (not_skipsPostStop_iff hrun).mpr
      (stepsMeet_of_forall (fun i _ s => ?_) _)
    cases i with
    | arrival arrival => trivial
    | choice choice =>
        cases choice with
        | proceed =>
            intro _ hchild
            simp [hparent] at hchild
        | _ => trivial
  exact (postStop_once_of_terminated hrun hok hlife).mpr hnot

/-- A child. -/
def stoppingChild : RunnerConfig where
  hasParent := true
  strategy := .stop

/-- A child is started and asked to stop, and its `pre_stop` returns `result`. -/
def stoppedWith (result : Except ActorError Unit) : List (Input Unit Unit) :=
  [.choice .proceed, .choice (.returns (.ok ())), .choice .proceed,
    .arrival (.stop ⟨.outside, some 0⟩), .choice .takeStop,
    .choice (.returns result), .choice .proceed, .choice .proceed,
    .choice .proceed, .choice .proceed]

/-- After a `pre_stop` that succeeds, `post_stop` runs. -/
def cleanStop : List (Input Unit Unit) :=
  stoppedWith (.ok ()) ++ [.choice .proceed, .choice (.returns (.ok ()))]

/-- After a `pre_stop` that fails, the child goes from `Failed` to
`Terminated`. -/
def failedStop : List (Input Unit Unit) :=
  stoppedWith (.error (.functional "stop")) ++ [.choice .proceed]

/-- The history of `failedStop`. -/
def failedStopSeen : List (Obs Unit Unit) :=
  [.called .preStart, .becomes .started, .signal true,
    .called (.preStop ⟨.outside, some 0⟩), .removeActor,
    .acknowledged ⟨.outside, some 0⟩, .becomes .stopped, .becomes .failed,
    .becomes .terminated]

/-- A child that stops cleanly has its `post_stop` once. -/
theorem cleanStop_postStop_once :
    ∃ r seen, execute (step stoppingChild) create cleanStop = some (r, seen) ∧
      seen.countP Obs.isPostStop = 1 := by
  have hrun : execute (step stoppingChild) create cleanStop = some _ := rfl
  refine ⟨_, _, hrun, ?_⟩
  refine (postStop_once_iff stoppingChild hrun (by decide) rfl).mpr ?_
  decide

/-- A child whose `pre_stop` fails is terminated without its `post_stop`. -/
theorem failedStop_without_postStop :
    (execute (step stoppingChild) create failedStop).map
        (fun p => (p.1.lifecycle, p.2)) =
      some (.terminated, failedStopSeen) ∧
    .signal true ∈ failedStopSeen ∧
    ¬ ∀ (cfg : RunnerConfig) (inputs : List (Input Unit Unit))
        (r : Runner Unit Unit) (seen : List (Obs Unit Unit)),
      execute (step cfg) create inputs = some (r, seen) →
        .signal true ∈ seen → r.lifecycle = .terminated →
          seen.countP Obs.isPostStop = 1 := by
  refine ⟨by decide, by decide, fun hall => ?_⟩
  have hone := hall stoppingChild failedStop _ _ rfl (by decide) rfl
  exact absurd hone (by decide)

end Runner
end Actor
end Rush
