import Rush.Actor.InnerActions
import Rush.Actor.StartedWindow

/-!
# Messages handled by a failed actor

`emit_fail` stores the error "to stop message handling" and puts a `Fail` into
the inner queue.  Nothing reads the stored error while `run` loops, so the
message branch of `select!` competes with the branch that takes the `Fail`.
Once the `Fail` has been taken the handlers are muted for good.  So a failed
actor handles no message, whatever branch is taken, if and only if the mailbox
is empty whenever `select!` is entered while a `Fail` of a handler is queued.
-/

namespace Rush
namespace Actor

open Foundation

variable {M Ev : Type}

/-- What a step does about faults: `emit_fail` is called by a handler or
elsewhere, a `Fail` goes to `inner_handle`, `pre_restart` succeeds, or a message
of the mailbox is handled. -/
inductive FailStep
  | failed (byHandler : Bool)
  | dispatched
  | restarted
  | handled
deriving DecidableEq

/-- The `Fail`s that are queued, each with whether a handler has emitted it, and
whether a handler's fault was dispatched since the last restart. -/
structure FailLog where
  queued : List Bool
  awaiting : Bool

/-- What a step adds to the log. -/
def FailLog.add (log : FailLog) : FailStep → FailLog
  | .failed byHandler => { log with queued := log.queued ++ [byHandler] }
  | .dispatched =>
      match log.queued with
      | [] => log
      | byHandler :: rest => ⟨rest, log.awaiting || byHandler⟩
  | .restarted => { log with awaiting := false }
  | .handled => log

/-- The faults at the end of a history. -/
def failLog (history : List FailStep) : FailLog :=
  history.foldl FailLog.add ⟨[], false⟩

/-- A handler has failed, and its fault has not yet been dispatched and followed
by a restart. -/
def FailLog.Failing (log : FailLog) : Prop :=
  true ∈ log.queued ∨ log.awaiting = true

/-- No message is handled in the failed state. -/
def HandlesNoneFailed (history : List FailStep) : Prop :=
  ∀ before after, history = before ++ .handled :: after →
    ¬ (failLog before).Failing

theorem failLog_append (history later : List FailStep) :
    failLog (history ++ later) = later.foldl FailLog.add (failLog history) :=
  List.foldl_append

theorem handlesNoneFailed_snoc {history : List FailStep} {x : FailStep} :
    HandlesNoneFailed (history ++ [x]) ↔
      HandlesNoneFailed history ∧
        (x = .handled → ¬ (failLog history).Failing) := by
  constructor
  · intro h
    refine ⟨fun before after heq => h before (after ++ [x]) ?_, ?_⟩
    · rw [heq, List.append_assoc, List.cons_append]
    · rintro rfl
      exact h history [] rfl
  · rintro ⟨hold, hlast⟩ before after heq
    rcases List.eq_nil_or_concat after with rfl | ⟨after', y, rfl⟩
    · obtain ⟨rfl, hx⟩ := List.append_inj' heq rfl
      exact hlast (List.singleton_inj.mp hx)
    · rw [List.concat_eq_append, ← List.cons_append, ← List.append_assoc] at heq
      obtain ⟨rfl, -⟩ := List.append_inj' heq rfl
      exact hold before after' rfl

/-- Steps that handle nothing keep the property. -/
theorem HandlesNoneFailed.append {history later : List FailStep}
    (h : HandlesNoneFailed history) (hnone : .handled ∉ later) :
    HandlesNoneFailed (history ++ later) := by
  induction later using List.reverseRecOn with
  | nil => simpa using h
  | append_singleton later x ih =>
      rw [List.mem_append, not_or] at hnone
      rw [← List.append_assoc, handlesNoneFailed_snoc]
      refine ⟨ih hnone.1, fun hx => absurd ?_ hnone.2⟩
      rw [hx]
      exact List.mem_singleton_self _

/-- A fault awaits its restart only after a `Fail` was dispatched. -/
theorem awaiting_foldl {later : List FailStep} {log : FailLog}
    (h : (later.foldl FailLog.add log).awaiting = true) :
    log.awaiting = true ∨ .dispatched ∈ later := by
  induction later generalizing log with
  | nil => exact Or.inl h
  | cons x later ih =>
      rcases ih h with hlog | hmem
      · cases x with
        | dispatched => exact Or.inr List.mem_cons_self
        | restarted => simp [FailLog.add] at hlog
        | failed byHandler => exact Or.inl hlog
        | handled => exact Or.inl hlog
      · exact Or.inr (List.mem_cons_of_mem x hmem)

/-- The step of the faults in a step of the inner queue. -/
def InnerStep.failStep? (byHandler : Bool) : InnerStep Ev → Option FailStep
  | .accepted (.fail _) => some (.failed byHandler)
  | .dispatched (.fail _) => some .dispatched
  | _ => none

namespace Runner

/-- A handler is running. -/
def handling (r : Runner M Ev) : Bool :=
  match r.phase with
  | .inHook (.handleMessage _) => true
  | .inHook (.onChildError _) => true
  | .inHook (.onChildFault _ _) => true
  | _ => false

/-- The steps of the faults in one step of the runner. -/
def failSteps (r : Runner M Ev) (i : Input M Ev) : List FailStep :=
  (r.innerSteps i).filterMap (InnerStep.failStep? r.handling) ++
    match i with
    | .arrival _ => []
    | .choice choice =>
        match r.phase, choice with
        | .selecting, .takeMessage => [.handled]
        | .inHook (.preRestart _), .returns (.ok ()) => [.restarted]
        | _, _ => []

/-- A run of the runner, observed at its faults. -/
abbrev failRun (cfg : RunnerConfig) (r : Runner M Ev)
    (inputs : List (Input M Ev)) : Option (Runner M Ev × List FailStep) :=
  execute (watched (step cfg) failSteps) r inputs

/-- If `select!` is entered while a `Fail` of a handler is queued, there is no
message. -/
def NoMessageBehindFail (r : Runner M Ev) (history : List FailStep) : Prop :=
  r.phase = .selecting → r.stopSignal = false →
    true ∈ (failLog history).queued → r.mailbox = []

variable {cfg : RunnerConfig} {r r' : Runner M Ev} {history o : List FailStep}
  {i : Input M Ev}

/-- A message is handled by the message branch of `select!` only. -/
theorem handled_mem_failSteps (h : .handled ∈ r.failSteps i) :
    i = .choice .takeMessage ∧ r.phase = .selecting := by
  unfold failSteps at h
  rcases List.mem_append.mp h with hinner | hother
  · obtain ⟨x, -, hx⟩ := List.mem_filterMap.mp hinner
    unfold InnerStep.failStep? at hx
    split at hx <;> simp at hx
  · split at hother
    · simp at hother
    · split at hother
      · exact ⟨rfl, ‹_›⟩
      · simp at hother
      · simp at hother

theorem failSteps_takeMessage (hphase : r.phase = .selecting) :
    r.failSteps (.choice .takeMessage) = [.handled] := by
  simp [failSteps, innerSteps, hphase]

/-- Only the head of the inner queue is dispatched. -/
theorem dispatched_mem_innerSteps {action : InnerAction Ev}
    (h : .dispatched action ∈ r.innerSteps i) :
    i = .choice .takeInner ∧ ∃ rest, r.innerQueue = action :: rest := by
  unfold innerSteps at h
  split at h
  · simp at h
  · split at h
    · simp at h
    · simp at h
    · simp at h
    · refine ⟨rfl, ?_⟩
      cases hqueue : r.innerQueue with
      | nil => simp [hqueue] at h
      | cons first rest => exact ⟨rest, by simp_all⟩
    · simp at h

/-- A fault is dispatched by the branch that takes a `Fail`. -/
theorem dispatched_mem_failSteps (h : .dispatched ∈ r.failSteps i) :
    i = .choice .takeInner ∧ ∃ e rest, r.innerQueue = .fail e :: rest := by
  unfold failSteps at h
  rcases List.mem_append.mp h with hinner | hother
  · obtain ⟨x, hmem, hx⟩ := List.mem_filterMap.mp hinner
    cases x with
    | accepted action => cases action <;> simp [InnerStep.failStep?] at hx
    | stopping queue => simp [InnerStep.failStep?] at hx
    | dispatched action =>
        cases action with
        | event event => simp [InnerStep.failStep?] at hx
        | error e => simp [InnerStep.failStep?] at hx
        | fail e =>
            obtain ⟨hi, rest, hqueue⟩ := dispatched_mem_innerSteps hmem
            exact ⟨hi, e, rest, hqueue⟩
  · split at hother
    · simp at hother
    · split at hother <;> simp at hother

/-- Once a fault was dispatched and not followed by a restart, the handlers are
muted. -/
def AwaitsMuted (r : Runner M Ev) (history : List FailStep) : Prop :=
  (failLog history).awaiting = true → r.Muted

theorem AwaitsMuted.step (h : r.AwaitsMuted history)
    (hstep : watched (step cfg) failSteps r i = some (r', o)) :
    r'.AwaitsMuted (history ++ o) := by
  obtain ⟨⟨os, hstep'⟩, rfl⟩ := watched_eq_some.mp hstep
  intro hawaiting
  rw [failLog_append] at hawaiting
  rcases awaiting_foldl hawaiting with hold | hdispatched
  · exact (h hold).step (step_transition hstep')
  · obtain ⟨rfl, e, rest, hqueue⟩ := dispatched_mem_failSteps hdispatched
    exact (muted_of_takeInner hqueue hstep').1

theorem awaitsMuted_of_run {inputs : List (Input M Ev)}
    (hrun : failRun cfg create inputs = some (r, history)) :
    r.AwaitsMuted history :=
  execute_history (G := fun _ _ => True) (P := AwaitsMuted)
    (fun _ _ _ _ _ hold _ hstep => hold.step hstep) []
    (fun h => by simp [failLog] at h) (stepsMeet_true _ _) hrun

/-- The message branch is ready when there is a message and no stop signal. -/
theorem takeMessage_isSome_iff (cfg : RunnerConfig) (hphase : r.phase = .selecting) :
    (step cfg r (.choice .takeMessage)).isSome ↔
      r.stopSignal = false ∧ r.mailbox ≠ [] := by
  cases hsignal : r.stopSignal <;> cases hqueue : r.mailbox <;>
    simp [step, advance, hphase, select, hsignal, hqueue]

/-- In the branch that takes a message no fault awaits its restart. -/
theorem AwaitsMuted.not_awaiting (h : r.AwaitsMuted history)
    (hphase : r.phase = .selecting) (hsignal : r.stopSignal = false) :
    (failLog history).awaiting ≠ true := by
  intro hawaiting
  have hmuted := h hawaiting
  simp [Muted, hphase, hsignal] at hmuted

/-- A step handles no message in the failed state if no message is behind a
`Fail`. -/
theorem handlesNoneFailed_step (h : HandlesNoneFailed history)
    (hmuted : r.AwaitsMuted history) (hnone : r.NoMessageBehindFail history)
    (hstep : watched (step cfg) failSteps r i = some (r', o)) :
    HandlesNoneFailed (history ++ o) := by
  obtain ⟨⟨os, hstep'⟩, rfl⟩ := watched_eq_some.mp hstep
  by_cases hhandled : .handled ∈ r.failSteps i
  · obtain ⟨rfl, hphase⟩ := handled_mem_failSteps hhandled
    have hready := (takeMessage_isSome_iff cfg hphase).mp
      (by rw [hstep']; rfl)
    rw [failSteps_takeMessage hphase, handlesNoneFailed_snoc]
    refine ⟨h, fun _ hfailing => ?_⟩
    rcases hfailing with hqueued | hawaiting
    · exact hready.2 (hnone hphase hready.1 hqueued)
    · exact hmuted.not_awaiting hphase hready.1 hawaiting
  · exact h.append hhandled

/-- What holds in every state of a run, with the faults seen up to it. -/
def Throughout (cfg : RunnerConfig) (inputs : List (Input M Ev))
    (P : Runner M Ev → List FailStep → Prop) : Prop :=
  ∀ before after, inputs = before ++ after →
    ∀ s history, failRun cfg create before = some (s, history) → P s history

theorem Throughout.of_append {P : Runner M Ev → List FailStep → Prop}
    {inputs later : List (Input M Ev)}
    (h : Throughout cfg (inputs ++ later) P) : Throughout cfg inputs P := by
  intro before after heq
  exact h before (after ++ later) (by rw [heq, List.append_assoc])

/-- Up to now and in the next step, whatever branch is taken, no message is
handled in the failed state. -/
def HandlesNone (cfg : RunnerConfig) (r : Runner M Ev)
    (history : List FailStep) : Prop :=
  HandlesNoneFailed history ∧
    ∀ choice r' o,
      watched (step cfg) failSteps r (.choice choice) = some (r', o) →
        HandlesNoneFailed (history ++ o)

theorem handlesNoneFailed_of_throughout {inputs : List (Input M Ev)}
    (hnone : Throughout cfg inputs NoMessageBehindFail)
    (hrun : failRun cfg create inputs = some (r, history)) :
    HandlesNoneFailed history := by
  induction inputs using List.reverseRecOn generalizing r history with
  | nil =>
      cases hrun
      intro before after heq
      simp at heq
  | append_singleton inputs i ih =>
      obtain ⟨s, earlier, o, hbefore, hlast, rfl⟩ := execute_append.mp hrun
      have hold := ih hnone.of_append hbefore
      obtain ⟨t, o', os, hstep, hnil, rfl⟩ := execute_cons_eq_some.mp hlast
      cases hnil
      rw [List.append_nil]
      exact handlesNoneFailed_step hold (awaitsMuted_of_run hbefore)
        (hnone inputs [i] rfl s earlier hbefore) hstep

/-- **A failed actor handles no message** in a run, whatever branch `select!`
takes in any state of it, if and only if the mailbox is empty whenever `select!`
is entered without the stop signal while a `Fail` of a handler is queued. -/
theorem handlesNone_iff (cfg : RunnerConfig) (inputs : List (Input M Ev)) :
    Throughout cfg inputs (HandlesNone cfg) ↔
      Throughout cfg inputs NoMessageBehindFail := by
  constructor
  · intro h before after heq s history hrun hphase hsignal hqueued
    by_contra hmailbox
    -- the message branch is ready
    have hready := (takeMessage_isSome_iff cfg hphase).mpr
      ⟨hsignal, hmailbox⟩
    obtain ⟨⟨t, os⟩, hstep⟩ := Option.isSome_iff_exists.mp hready
    have hnone := (h before after heq s history hrun).2 .takeMessage t _
      (watched_eq_some.mpr ⟨⟨os, hstep⟩, rfl⟩)
    rw [failSteps_takeMessage hphase, handlesNoneFailed_snoc] at hnone
    exact hnone.2 rfl (Or.inl hqueued)
  · intro h before after heq s history hrun
    subst heq
    have hold := handlesNoneFailed_of_throughout h.of_append hrun
    refine ⟨hold, fun choice r' o hstep => ?_⟩
    exact handlesNoneFailed_step hold (awaitsMuted_of_run hrun)
      (h before after rfl s history hrun) hstep

/-- Two messages arrive, and the handler of the first emits a fail and
returns. -/
def failsWithOneQueued : List (Input Nat Unit) :=
  [.choice .proceed, .choice (.returns (.ok ())), .choice .proceed,
    .arrival (.message 1), .arrival (.message 2), .choice .takeMessage,
    .choice (.operation (.emitFail .stop)), .choice (.returns (.ok ()))]

/-- The second message is handled before the fault is dispatched. -/
theorem message_handled_behind_fail :
    ∃ r history, failRun stoppedChild create
        (failsWithOneQueued ++ [.choice .takeMessage]) = some (r, history) ∧
      r.phase = .inHook (.handleMessage 2) ∧
      r.innerQueue = [.fail .stop] ∧
      ¬ HandlesNoneFailed history := by
  refine ⟨_, _, rfl, rfl, rfl, fun h => ?_⟩
  exact h [.handled, .failed true] [] rfl (Or.inl List.mem_cons_self)

end Runner

end Actor
end Rush
