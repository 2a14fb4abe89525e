import Rush.Actor.PostStop
import Rush.Foundation.History

/-!
# Handlers run inside a started window

A window opens when `pre_start` or `pre_restart` returns `Ok` and closes with
the next call of a start hook or of `pre_stop`.  The lifecycle alone does not
say that a window is open: `inner_handle` sets `Restarted` while `run` is still
looping.  From there on the stop signal keeps the handlers from running, and it
is never reset.
-/

namespace Rush
namespace Actor

open Foundation

variable {M Ev : Type}

/-- The functions that `run` calls for what it receives. -/
def Hook.IsHandler : Hook M → Prop
  | .onChildError _ => True
  | .onChildFault _ _ => True
  | .handleMessage _ => True
  | _ => False

def Hook.IsStart : Hook M → Prop
  | .preStart => True
  | .preRestart _ => True
  | _ => False

/-- What opens a window, and what closes it. -/
def Obs.window : Obs M Ev → Option Bool
  | .becomes .started => some true
  | .called .preStart => some false
  | .called (.preRestart _) => some false
  | .called (.preStop _) => some false
  | _ => none

/-- The last thing in the history that opens or closes a window has opened it. -/
def InWindow (seen : List (Obs M Ev)) : Prop :=
  ∃ before after, seen = before ++ .becomes .started :: after ∧
    ∀ x ∈ after, x.window = none

theorem inWindow_iff {seen : List (Obs M Ev)} :
    InWindow seen ↔ lastWrite Obs.window false seen = true := by
  rw [lastWrite_eq_iff (by simp)]
  constructor
  · rintro ⟨before, after, rfl, hafter⟩
    exact ⟨before, _, after, rfl, rfl, hafter⟩
  · rintro ⟨before, x, after, rfl, hx, hafter⟩
    cases x with
    | becomes lifecycle =>
        cases lifecycle with
        | started => exact ⟨before, after, rfl, hafter⟩
        | _ => simp [Obs.window] at hx
    | called hook => cases hook <;> simp [Obs.window] at hx
    | _ => simp [Obs.window] at hx

namespace Runner

variable {cfg : RunnerConfig} {r r' : Runner M Ev} {seen o : List (Obs M Ev)}
  {i : Input M Ev}

/-- While the stop signal is not set, `select!` runs with lifecycle `Started`. -/
def Gated (r : Runner M Ev) : Prop :=
  match r.phase with
  | .selecting => r.stopSignal = false → r.lifecycle = .started
  | .inHook (.onChildError _) => r.lifecycle = .started
  | .inHook (.onChildFault _ _) => r.lifecycle = .started
  | .inHook (.handleMessage _) => r.lifecycle = .started
  | _ => True

theorem Gated.step (h : r.Gated) (ht : Transition cfg r r' o) : r'.Gated := by
  unfold Gated at *
  cases ht with
  | operates hook op r' hphase hop =>
      obtain ⟨hphase', hlife', hsignal', -⟩ := operate_frame hop
      rwa [hphase', hlife', hsignal']
  | takesChildError error rest hook hphase hsignal hqueue hhook =>
      rcases hhook with ⟨e, rfl, rfl⟩ | ⟨e, sender, rfl, rfl⟩ <;> simp_all
  | handles hook hphase hhook =>
      rcases hhook with ⟨e, rfl⟩ | ⟨m, rfl⟩ <;> simp_all
  | arrives => exact h
  | _ => simp_all

/-- The runner is between the return of a start hook and the next `pre_stop`. -/
def Open (r : Runner M Ev) : Prop :=
  match r.phase with
  | .dispatch => r.lifecycle = .started
  | .selecting => True
  | .awaitingAction => True
  | .stoppingItself => True
  | .inHook (.onChildError _) => True
  | .inHook (.onChildFault _ _) => True
  | .inHook (.handleMessage _) => True
  | _ => False

/-- A step that leads to an open state opens the window, or it leaves the one
that is open alone. -/
theorem Transition.opens (hplace : r.InPlace) (ht : Transition cfg r r' o)
    (hopen : r'.Open) :
    o = [.becomes .started] ∨ r.Open ∧ ∀ x ∈ o, x.window = none := by
  unfold Open InPlace at *
  cases ht with
  | operates hook op r' hphase hop =>
      obtain ⟨hphase', hlife', -⟩ := operate_frame hop
      rw [hphase', hlife'] at hopen
      exact Or.inr ⟨hopen, by simp⟩
  | takesChildError error rest hook hphase hsignal hqueue hhook =>
      rcases hhook with ⟨e, rfl, rfl⟩ | ⟨e, sender, rfl, rfl⟩ <;>
        simp_all [Obs.window]
  | handles hook hphase hhook =>
      rcases hhook with ⟨e, rfl⟩ | ⟨m, rfl⟩ <;> simp_all
  | entersRun hphase hlife => cases r.signal <;> simp_all [Obs.window]
  | takesError => cases cfg.hasParent <;> simp_all [Obs.window]
  | arrives => exact Or.inr ⟨hopen, by simp⟩
  | _ => simp_all [Obs.window]

/-- In an open state the window is open. -/
def WindowLog (r : Runner M Ev) (seen : List (Obs M Ev)) : Prop :=
  r.Open → InWindow seen

theorem WindowLog.step (h : r.WindowLog seen) (hplace : r.InPlace)
    (ht : Transition cfg r r' o) : r'.WindowLog (seen ++ o) := by
  intro hopen
  rw [inWindow_iff, lastWrite_append]
  rcases ht.opens hplace hopen with rfl | ⟨hbefore, hnone⟩
  · rfl
  · rw [lastWrite_of_none hnone]
    exact inWindow_iff.mp (h hbefore)

/-- The steps that call a handler. -/
theorem Transition.handler {hook : Hook M} (ht : Transition cfg r r' o)
    (hcall : .called hook ∈ o) (hhandler : hook.IsHandler) :
    r.phase = .selecting ∧ r.stopSignal = false := by
  cases ht with
  | takesChildError error rest hook' hphase hsignal => exact ⟨hphase, hsignal⟩
  | takesMessage message rest hphase hsignal => exact ⟨hphase, hsignal⟩
  | restarts strategy =>
      cases hb : strategy.nextBackoff.1 <;> simp [hb] at hcall <;>
        simp [hcall, Hook.IsHandler] at hhandler
  | entersRun | takesError | ends => split at hcall <;> simp at hcall
  | _ => simp_all [Hook.IsHandler]

/-- The handlers are muted: a fail was dispatched and the stop signal is set, or
will be before `select!` is reached again. -/
def Muted (r : Runner M Ev) : Prop :=
  match r.phase with
  | .awaitingAction => True
  | .stoppingItself => True
  | .inHook (.onChildError _) => False
  | .inHook (.onChildFault _ _) => False
  | .inHook (.handleMessage _) => False
  | _ => r.stopSignal = true

theorem Muted.step (h : r.Muted) (ht : Transition cfg r r' o) : r'.Muted := by
  unfold Muted at *
  cases ht with
  | operates hook op r' hphase hop =>
      obtain ⟨hphase', -, hsignal', -⟩ := operate_frame hop
      rwa [hphase', hsignal']
  | handles hook hphase hhook =>
      rcases hhook with ⟨e, rfl⟩ | ⟨m, rfl⟩ <;> simp_all
  | arrives => exact h
  | _ => simp_all [emitFail]

theorem Muted.no_handler {hook : Hook M} (h : r.Muted)
    (ht : Transition cfg r r' o) (hcall : .called hook ∈ o) :
    ¬ hook.IsHandler := by
  intro hhandler
  obtain ⟨hphase, hsignal⟩ := ht.handler hcall hhandler
  simp [Muted, hphase, hsignal] at h

/-- Taking a fail from the inner queue mutes the handlers. -/
theorem muted_of_takeInner {e : ActorError} {rest : List (InnerAction Ev)}
    (hqueue : r.innerQueue = .fail e :: rest)
    (hstep : step cfg r (.choice .takeInner) = some (r', o)) :
    r'.Muted ∧ ∀ hook, .called hook ∉ o := by
  have hphase : r.phase = .selecting := by
    cases hphase : r.phase with
    | selecting => rfl
    | inHook hook => cases hook <;> simp [step, advance, hphase] at hstep
    | _ => simp [step, advance, hphase] at hstep
  have hsignal : r.stopSignal = false := by
    cases hsignal : r.stopSignal with
    | false => rfl
    | true => simp [step, advance, hphase, select, hsignal] at hstep
  cases hparent : cfg.hasParent <;>
    simp [step, advance, hphase, select, hsignal, hqueue, hparent] at hstep <;>
    obtain ⟨rfl, rfl⟩ := hstep <;>
    exact ⟨trivial, by simp⟩

/-- The steps after which the runner is started. -/
theorem Transition.becomesStarted (ht : Transition cfg r r' o)
    (hmem : .becomes .started ∈ o) :
    ∃ hook : Hook M, r.phase = .inHook hook ∧ hook.IsStart := by
  cases ht with
  | preStartOk hphase => exact ⟨_, hphase, trivial⟩
  | preRestartOk e hphase => exact ⟨_, hphase, trivial⟩
  | restarts strategy =>
      cases hb : strategy.nextBackoff.1 <;> simp [hb] at hmem
  | entersRun | takesError | ends => split at hmem <;> simp at hmem
  | _ => simp_all

/-- The runner becomes started exactly when a start hook returns `Ok`. -/
theorem becomes_started_iff (hstep : step cfg r i = some (r', o)) :
    .becomes .started ∈ o ↔
      (∃ hook : Hook M, r.phase = .inHook hook ∧ hook.IsStart) ∧
        i = .choice (.returns (.ok ())) := by
  constructor
  · intro hmem
    obtain ⟨hook, hphase, hstart⟩ := (step_transition hstep).becomesStarted hmem
    refine ⟨⟨hook, hphase, hstart⟩, ?_⟩
    cases i with
    | arrival arrival =>
        obtain ⟨_, -, heq⟩ := Option.map_eq_some_iff.mp hstep
        cases heq
        simp at hmem
    | choice choice =>
        cases choice with
        | returns result =>
            cases result with
            | ok => rfl
            | error e =>
                cases hook <;> simp only [Hook.IsStart] at hstart <;>
                  simp [step, advance, hphase, hookReturns] at hstep <;>
                  obtain ⟨-, rfl⟩ := hstep <;>
                  simp at hmem
        | operation op =>
            change r.advance cfg (.operation op) = some (r', o) at hstep
            simp only [advance, hphase] at hstep
            obtain ⟨_, -, heq⟩ := Option.map_eq_some_iff.mp hstep
            cases heq
            simp at hmem
        | _ =>
            cases hook <;> simp only [Hook.IsStart] at hstart <;>
              simp [step, advance, hphase] at hstep
  · rintro ⟨⟨hook, hphase, hstart⟩, rfl⟩
    cases hook <;> simp only [Hook.IsStart] at hstart <;>
      simp [step, advance, hphase, hookReturns] at hstep <;>
      simp [← hstep.2]

/-- No hook is called while `post_stop` runs or after it. -/
theorem Transition.calls_nothing (hplace : r.InPlace)
    (ht : Transition cfg r r' o)
    (hpast : r.phase = .inHook .postStop ∨ r.lifecycle = .terminated)
    (hook : Hook M) : .called hook ∉ o := by
  unfold InPlace at hplace
  cases ht with
  | entersRun | takesError | ends => split <;> simp_all
  | operates | arrives => simp
  | _ => simp_all

theorem StopLog.past_postStop (h : r.StopLog seen)
    (hcalled : .called .postStop ∈ seen) :
    r.phase = .inHook .postStop ∨ r.lifecycle = .terminated := by
  by_contra hnot
  rw [not_or] at hnot
  have hzero := h.notCalled hnot.2 hnot.1
  rw [List.countP_eq_zero] at hzero
  exact hzero _ hcalled rfl

theorem gated_of_execute {inputs : List (Input M Ev)}
    (hrun : execute (step cfg) create inputs = some (r, seen)) : r.Gated :=
  execute_invariant (fun _ _ _ _ hold hstep => hold.step (step_transition hstep))
    (by simp [Gated, create]) hrun

theorem windowLog_of_execute {inputs : List (Input M Ev)}
    (hrun : execute (step cfg) create inputs = some (r, seen)) :
    r.WindowLog seen :=
  execute_history_of_run (G := fun _ _ => True)
    (fun _ _ _ _ _ _ hbefore hold _ hstep =>
      hold.step (inPlace_of_execute hbefore) (step_transition hstep))
    (by simp [WindowLog, Open, create]) (stepsMeet_true _ _) hrun

/-- Muted handlers stay muted, in every continuation. -/
theorem muted_run {inputs : List (Input M Ev)} (h : r.Muted)
    (hrun : execute (step cfg) r inputs = some (r', o)) :
    ∀ x ∈ o, ∀ hook : Hook M, x = .called hook → ¬ hook.IsHandler :=
  execute_observations
    (fun _ _ _ _ hold hstep =>
      ⟨hold.step (step_transition hstep), fun _ hx _ heq =>
        hold.no_handler (step_transition hstep) (heq ▸ hx)⟩)
    h hrun

/-- `post_stop` is the last hook. -/
theorem past_postStop_run {inputs : List (Input M Ev)} (hplace : r.InPlace)
    (hpast : r.phase = .inHook .postStop ∨ r.lifecycle = .terminated)
    (hrun : execute (step cfg) r inputs = some (r', o)) :
    ∀ x ∈ o, ∀ hook : Hook M, x ≠ .called hook := by
  refine execute_observations
    (I := fun s : Runner M Ev =>
      s.InPlace ∧ (s.phase = .inHook .postStop ∨ s.lifecycle = .terminated))
    (fun s i t o hold hstep => ?_) ⟨hplace, hpast⟩ hrun
  have ht := step_transition hstep
  refine ⟨⟨hold.1.step ht, ?_⟩, fun x hx hook heq => ?_⟩
  · rcases hold.2 with hphase | hlife
    · exact ht.inPostStop hphase
    · exact Or.inr (ht.terminated hold.1 hlife)
  · exact ht.calls_nothing hold.1 hold.2 hook (heq ▸ hx)

/-- **Handlers run only inside a started window.**  In every run, a handler is
called with lifecycle `Started` and while the window is open that the last start
hook opened by returning `Ok`; once `inner_handle` has taken a fail no handler
is called any more, with or without a restart; and `post_stop` is called at most
once, with no hook or handler after it. -/
theorem handlers_in_window (cfg : RunnerConfig) {inputs : List (Input M Ev)}
    {r : Runner M Ev} {seen : List (Obs M Ev)}
    (hrun : execute (step cfg) create inputs = some (r, seen)) :
    (∀ i r' o, step cfg r i = some (r', o) →
      (∀ hook : Hook M, hook.IsHandler → .called hook ∈ o →
        r.lifecycle = .started ∧ InWindow seen) ∧
      (.becomes .started ∈ o ↔
        (∃ hook : Hook M, r.phase = .inHook hook ∧ hook.IsStart) ∧
          i = .choice (.returns (.ok ())))) ∧
    (∀ e rest later t os, r.innerQueue = .fail e :: rest →
      execute (step cfg) r (.choice .takeInner :: later) = some (t, os) →
        ∀ hook : Hook M, hook.IsHandler → .called hook ∉ os) ∧
    seen.countP Obs.isPostStop ≤ 1 ∧
    (.called .postStop ∈ seen → ∀ later t os,
      execute (step cfg) r later = some (t, os) →
        ∀ hook : Hook M, .called hook ∉ os) := by
  have hlog := stopLog_of_execute hrun
  refine ⟨?_, ?_, hlog.atMostOnce, ?_⟩
  · intro i r' o hstep
    refine ⟨fun hook hhandler hcall => ?_, becomes_started_iff hstep⟩
    obtain ⟨hphase, hsignal⟩ := (step_transition hstep).handler hcall hhandler
    have hopen : r.Open := by simp [Open, hphase]
    have hgated := gated_of_execute hrun
    simp only [Gated, hphase] at hgated
    exact ⟨hgated hsignal, windowLog_of_execute hrun hopen⟩
  · intro e rest later t os hqueue hlater hook hhandler hcall
    obtain ⟨s, o, os', hfirst, hrest, rfl⟩ := execute_cons_eq_some.mp hlater
    obtain ⟨hmuted, hnone⟩ := muted_of_takeInner hqueue hfirst
    rcases List.mem_append.mp hcall with hcall | hcall
    · exact hnone hook hcall
    · exact muted_run hmuted hrest _ hcall hook rfl hhandler
  · intro hcalled later t os hlater hook hcall
    exact past_postStop_run hlog.inPlace (hlog.past_postStop hcalled) hlater _
      hcall hook rfl

/-- A root actor is started and handles a message, and then the fault that it
has emitted. -/
def faultyHandler : List (Input Unit Unit) :=
  [.choice .proceed, .choice (.returns (.ok ())), .choice .proceed,
    .arrival (.message ()), .choice .takeMessage,
    .choice (.operation (.emitFail .stop)), .choice (.returns (.ok ()))]

/-- `handlers_in_window` at the state in which the fault is waiting. -/
theorem faultyHandler_in_window :
    ∃ r seen, execute (step retryingRoot) create faultyHandler =
        some (r, seen) ∧
      r.innerQueue = [.fail .stop] ∧
      ∀ later t os,
        execute (step retryingRoot) r (.choice .takeInner :: later) =
          some (t, os) →
          ∀ hook : Hook Unit, hook.IsHandler → .called hook ∉ os := by
  have hrun : execute (step retryingRoot) create faultyHandler = some _ := rfl
  refine ⟨_, _, hrun, rfl, fun later t os hlater => ?_⟩
  exact (handlers_in_window retryingRoot hrun).2.1 .stop [] later t os rfl hlater

end Runner
end Actor
end Rush
