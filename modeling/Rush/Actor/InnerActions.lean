import Rush.Actor.StopFinality

/-!
# What becomes of accepted inner actions

`publish_event`, `emit_error` and `emit_fail` put an action into the inner queue
of the runner, and `inner_handle` takes it out.  The stop branch competes with
the branch that takes inner actions and leaves `run` without draining the queue.
So an actor that terminates has dispatched what it has accepted if and only if
the last stop branch found the queue empty and nothing was accepted after it,
neither by a hook nor by the runner itself after a failed `pre_stop`.
-/

namespace Rush
namespace Actor

open Foundation

variable {M Ev : Type}

/-- What a step does to the inner queue: an action is accepted or handed to
`inner_handle`, or the stop branch is taken while the queue is as given. -/
inductive InnerStep (Ev : Type)
  | accepted (action : InnerAction Ev)
  | dispatched (action : InnerAction Ev)
  | stopping (queue : List (InnerAction Ev))
deriving DecidableEq

namespace InnerStep

def accepted? : InnerStep Ev → Option (InnerAction Ev)
  | .accepted action => some action
  | _ => none

def dispatched? : InnerStep Ev → Option (InnerAction Ev)
  | .dispatched action => some action
  | _ => none

end InnerStep

/-- The calls that returned `Ok`, in order. -/
def acceptedActions (history : List (InnerStep Ev)) : List (InnerAction Ev) :=
  history.filterMap InnerStep.accepted?

/-- The actions that `inner_handle` was called with, in order. -/
def dispatchedActions (history : List (InnerStep Ev)) : List (InnerAction Ev) :=
  history.filterMap InnerStep.dispatched?

/-- What the last stop branch has found in the queue, and what was accepted
since. -/
def leftBehind (history : List (InnerStep Ev)) : List (InnerAction Ev) :=
  history.foldl
    (fun queue x =>
      match x with
      | .accepted action => queue ++ [action]
      | .dispatched _ => queue
      | .stopping queue => queue)
    []

/-- The end of a history is quiet: nothing is accepted after the last stop
branch, which found the queue empty, or nothing at all without a stop branch. -/
def QuietEnd (history : List (InnerStep Ev)) : Prop :=
  ∃ before after, history = before ++ after ∧
    (before = [] ∨ ∃ earlier, before = earlier ++ [.stopping []]) ∧
    ∀ x ∈ after, ∃ action, x = .dispatched action

section History

variable (history : List (InnerStep Ev)) (actions : List (InnerAction Ev))

theorem acceptedActions_append (later : List (InnerStep Ev)) :
    acceptedActions (history ++ later) =
      acceptedActions history ++ acceptedActions later :=
  List.filterMap_append

theorem dispatchedActions_append (later : List (InnerStep Ev)) :
    dispatchedActions (history ++ later) =
      dispatchedActions history ++ dispatchedActions later :=
  List.filterMap_append

theorem acceptedActions_accepted :
    acceptedActions (history ++ actions.map .accepted) =
      acceptedActions history ++ actions := by
  rw [acceptedActions_append]
  congr 1
  unfold acceptedActions
  rw [List.filterMap_map]
  exact List.filterMap_some

theorem dispatchedActions_accepted :
    dispatchedActions (history ++ actions.map .accepted) =
      dispatchedActions history := by
  rw [dispatchedActions_append]
  have hnone : dispatchedActions (actions.map InnerStep.accepted) = [] := by
    unfold dispatchedActions
    rw [List.filterMap_map, List.filterMap_eq_nil_iff]
    exact fun _ _ => rfl
  rw [hnone, List.append_nil]

theorem leftBehind_accepted :
    leftBehind (history ++ actions.map .accepted) =
      leftBehind history ++ actions := by
  induction actions generalizing history with
  | nil => simp
  | cons action actions ih =>
      have hfirst := ih (history ++ [.accepted action])
      have hone : leftBehind (history ++ [.accepted action]) =
          leftBehind history ++ [action] := by
        simp [leftBehind]
      simpa [hone] using hfirst

theorem leftBehind_stopping (queue : List (InnerAction Ev)) :
    leftBehind (history ++ [.stopping queue]) = queue := by
  simp [leftBehind]

theorem leftBehind_dispatched {later : List (InnerStep Ev)}
    (h : ∀ x ∈ later, ∃ action, x = .dispatched action) :
    leftBehind (history ++ later) = leftBehind history := by
  induction later generalizing history with
  | nil => simp
  | cons x later ih =>
      obtain ⟨action, rfl⟩ := h x (by simp)
      have hrest := ih (history ++ [.dispatched action])
        fun y hy => h y (List.mem_cons_of_mem _ hy)
      have hone : leftBehind (history ++ [.dispatched action]) =
          leftBehind history := by
        simp [leftBehind]
      simpa [hone] using hrest

theorem quietEnd_iff : QuietEnd history ↔ leftBehind history = [] := by
  constructor
  · intro h
    obtain ⟨before, after, rfl, hbefore, hafter⟩ := h
    rw [leftBehind_dispatched before hafter]
    rcases hbefore with rfl | ⟨earlier, rfl⟩
    · rfl
    · exact leftBehind_stopping earlier []
  · intro h
    -- by the last step: only a stop branch empties what is left behind
    induction history using List.reverseRecOn with
    | nil => exact ⟨[], [], rfl, Or.inl rfl, by simp⟩
    | append_singleton history x ih =>
        cases x with
        | accepted action =>
            have hsome := leftBehind_accepted history [action]
            rw [List.map_singleton, h] at hsome
            simp at hsome
        | dispatched action =>
            rw [leftBehind_dispatched history (by simp)] at h
            obtain ⟨before, after, rfl, hbefore, hafter⟩ := ih h
            refine ⟨before, after ++ [.dispatched action], by simp, hbefore, ?_⟩
            intro x hx
            rcases List.mem_append.mp hx with hx | hx
            · exact hafter x hx
            · exact ⟨action, by simpa using hx⟩
        | stopping queue =>
            rw [leftBehind_stopping] at h
            subst h
            exact ⟨history ++ [.stopping []], [], by simp,
              Or.inr ⟨history, rfl⟩, by simp⟩

end History

/-- The action that an operation of a hook puts into the queue. -/
def ContextOp.innerAction : ContextOp Ev → Option (InnerAction Ev)
  | .publishEvent event => some (.event event)
  | .emitError error => some (.error error)
  | .emitFail error => some (.fail error)
  | .stop _ => none
  | .createChild _ => none

namespace Runner

/-- The steps of the inner queue in one step of the runner. -/
def innerSteps (r : Runner M Ev) : Input M Ev → List (InnerStep Ev)
  | .arrival _ => []
  | .choice choice =>
      match r.phase, choice with
      | .inHook _, .operation op =>
          (op.innerAction.map InnerStep.accepted).toList
      | .inHook (.preStop _), .returns (.error _) => [.accepted (.fail .stop)]
      | .selecting, .takeStop => [.stopping r.innerQueue]
      | .selecting, .takeInner =>
          (r.innerQueue.head?.map InnerStep.dispatched).toList
      | _, _ => []

/-- What `inner_handle` does with an action: the event is broadcast, an error or
a fault is sent to the parent if there is one. -/
def innerHandle (cfg : RunnerConfig) : InnerAction Ev → List (Obs M Ev)
  | .event event => [.event event]
  | .error e => if cfg.hasParent then [.sentError e] else []
  | .fail e => if cfg.hasParent then [.sentFault e] else []

/-- A dispatched action has been handled. -/
theorem obs_of_dispatched {cfg : RunnerConfig} {r r' : Runner M Ev}
    {i : Input M Ev} {o : List (Obs M Ev)} {action : InnerAction Ev}
    (hstep : step cfg r i = some (r', o))
    (hmem : .dispatched action ∈ r.innerSteps i) :
    o = innerHandle cfg action := by
  cases i with
  | arrival arrival => simp [innerSteps] at hmem
  | choice choice =>
      simp only [innerSteps] at hmem
      split at hmem
      case h_4 hphase =>
        have hselect : r.select cfg .takeInner = some (r', o) := by
          simpa [step, advance, hphase] using hstep
        unfold select at hselect
        cases hqueue : r.innerQueue with
        | nil => simp [hqueue] at hmem
        | cons first rest =>
            have hfirst : action = first := by simpa [hqueue] using hmem
            subst hfirst
            cases hsignal : r.stopSignal with
            | true => simp [hqueue, hsignal] at hselect
            | false =>
                cases action <;> cases hparent : cfg.hasParent <;>
                  simp_all [innerHandle]
      all_goals simp at hmem

/-- The phases from which `run` comes back to `select!`. -/
def InLoop (r : Runner M Ev) : Prop :=
  match r.phase with
  | .selecting => True
  | .awaitingAction => True
  | .stoppingItself => True
  | .inHook (.handleMessage _) => True
  | .inHook (.onChildError _) => True
  | .inHook (.onChildFault _ _) => True
  | _ => False

/-- What a step can do to the inner queue: outside the loop of `run` it only
accepts, and the loop is left through the stop branch. -/
inductive InnerEffect (r : Runner M Ev) :
    List (InnerStep Ev) → Runner M Ev → Prop
  | accepts (actions : List (InnerAction Ev)) (r' : Runner M Ev)
      (hqueue : r'.innerQueue = r.innerQueue ++ actions)
      (hloop : r.InLoop → r'.InLoop) :
      InnerEffect r (actions.map .accepted) r'
  | dispatches (action : InnerAction Ev) (r' : Runner M Ev)
      (hqueue : r.innerQueue = action :: r'.innerQueue) (hloop : r'.InLoop) :
      InnerEffect r [.dispatched action] r'
  | stops (r' : Runner M Ev) (hqueue : r'.innerQueue = r.innerQueue) :
      InnerEffect r [.stopping r.innerQueue] r'

namespace InnerEffect

variable {r r' : Runner M Ev}

theorem keeps (hqueue : r'.innerQueue = r.innerQueue)
    (hloop : r.InLoop → r'.InLoop) : InnerEffect r [] r' := by
  have h := accepts (r := r) [] r' (by rw [hqueue, List.append_nil]) hloop
  exact h

end InnerEffect

section Effects

variable {cfg : RunnerConfig} {r r' : Runner M Ev} {o : List (Obs M Ev)}

theorem operate_innerEffect {op : ContextOp Ev}
    (h : r.operate op = some r') :
    InnerEffect r (op.innerAction.map InnerStep.accepted).toList r' := by
  have hphase : r'.phase = r.phase := (operate_frame h).1
  have hloop : r.InLoop → r'.InLoop := by
    unfold InLoop
    rw [hphase]
    exact id
  cases op with
  | publishEvent event =>
      cases h
      exact .accepts [.event event] _ rfl hloop
  | emitError e =>
      cases h
      exact .accepts [.error e] _ rfl hloop
  | emitFail e =>
      cases h
      exact .accepts [.fail e] _ rfl hloop
  | stop reply =>
      simp only [operate] at h
      split at h
      · cases h
        exact .keeps rfl hloop
      · contradiction
  | createChild child =>
      cases h
      exact .keeps rfl hloop

theorem arrive_innerEffect {arrival : Arrival M}
    (h : r.arrive arrival = some r') : InnerEffect r [] r' := by
  -- arrivals go to the other queues
  obtain ⟨hphase, -, hqueue, -⟩ := arrive_frame h
  apply InnerEffect.keeps hqueue
  unfold InLoop
  rw [hphase]
  exact id

/-- A hook that returns accepts nothing, but a failed `pre_stop` makes the
runner emit a fail. -/
theorem hookReturns_innerEffect {hook : Hook M} {result : Except ActorError Unit}
    (hphase : r.phase = .inHook hook)
    (h : r.hookReturns hook result = some (r', o)) :
    InnerEffect r (r.innerSteps (.choice (.returns result))) r' := by
  simp only [innerSteps, hphase]
  cases hook with
  | preStop request =>
      cases result with
      | ok =>
          cases h
          exact .keeps rfl (by simp [InLoop, hphase])
      | error e =>
          cases h
          exact .accepts [.fail .stop] _ rfl (by simp [InLoop, hphase])
  -- its result is an action, which is not returned here
  | onChildFault e sender => cases result <;> contradiction
  | _ =>
      cases result <;> cases h <;> exact .keeps rfl (by simp [InLoop, hphase])

/-- The branch of `select!` that calls `inner_handle`. -/
theorem takeInner_innerEffect (hphase : r.phase = .selecting)
    (h : r.select cfg .takeInner = some (r', o)) :
    InnerEffect r (r.innerQueue.head?.map InnerStep.dispatched).toList r' := by
  simp only [select] at h
  split at h
  case h_1 _ _ event rest _ hqueue =>
    cases h
    rw [hqueue]
    exact .dispatches _ _ hqueue (by simp [InLoop, hphase])
  case h_2 _ _ e rest _ hqueue =>
    cases h
    rw [hqueue]
    exact .dispatches _ _ hqueue (by simp [InLoop, hphase])
  -- a fail suspends the runner in both cases, but inside the loop
  case h_3 _ _ e rest _ hqueue =>
    rw [hqueue]
    split at h
    · cases h
      exact .dispatches _ _ hqueue (by simp [InLoop])
    · cases h
      exact .dispatches _ _ hqueue (by simp [InLoop])
  case h_4 => contradiction

theorem select_innerEffect {choice : Choice Ev} (hphase : r.phase = .selecting)
    (h : r.select cfg choice = some (r', o)) :
    InnerEffect r (r.innerSteps (.choice choice)) r' := by
  simp only [innerSteps, hphase]
  cases choice with
  | takeStop =>
      simp only [select] at h
      split at h
      · contradiction
      · cases h
        exact .stops _ rfl
  | takeInner => exact takeInner_innerEffect hphase h
  | takeChildError =>
      simp only [select] at h
      split at h
      · cases h
        exact .keeps rfl (by simp [InLoop])
      · cases h
        exact .keeps rfl (by simp [InLoop])
      · contradiction
  | takeMessage =>
      simp only [select] at h
      split at h
      · cases h
        exact .keeps rfl (by simp [InLoop])
      · contradiction
  | mailboxClosed =>
      simp only [select] at h
      split at h
      · cases h
        exact .keeps rfl (by simp [InLoop])
      · contradiction
  | _ => contradiction

theorem dispatch_innerQueue (cfg : RunnerConfig) (r : Runner M Ev) :
    (r.dispatch cfg).1.innerQueue = r.innerQueue := by
  unfold dispatch
  cases r.lifecycle with
  | restarted =>
      simp only [applySupervisionStrategy]
      split
      · rfl
      · split <;> rfl
  | failed =>
      simp only
      split <;> rfl
  | _ => rfl

/-- Every step has an effect on the inner queue that is listed. -/
theorem step_innerEffect {i : Input M Ev} (h : step cfg r i = some (r', o)) :
    InnerEffect r (r.innerSteps i) r' := by
  cases i with
  | arrival arrival =>
      change (r.arrive arrival).map (fun r' => (r', [])) = some (r', o) at h
      obtain ⟨_, harrive, heq⟩ := Option.map_eq_some_iff.mp h
      cases heq
      exact arrive_innerEffect harrive
  | choice choice =>
      change r.advance cfg choice = some (r', o) at h
      unfold advance at h
      split at h
      case h_1 hphase =>
        have hpair : r.dispatch cfg = (r', o) := Option.some.inj h
        have hqueue := dispatch_innerQueue cfg r
        rw [hpair] at hqueue
        simp only [innerSteps, hphase]
        exact .keeps hqueue (by simp [InLoop, hphase])
      case h_2 hook op hphase =>
        obtain ⟨_, hop, heq⟩ := Option.map_eq_some_iff.mp h
        cases heq
        simp only [innerSteps, hphase]
        exact operate_innerEffect hop
      case h_4 hphase => exact hookReturns_innerEffect hphase h
      case h_5 hphase => exact select_innerEffect hphase h
      case h_18 => contradiction
      -- the other steps leave the queue alone
      case h_3 hphase | h_6 hphase | h_7 hphase | h_8 hphase | h_13 hphase
          | h_14 hphase | h_17 hphase =>
        cases h
        simp only [innerSteps, hphase]
        exact .keeps rfl (by simp [InLoop, hphase])
      case h_9 hphase | h_10 hphase =>
        simp only [innerSteps, hphase]
        split at h
        · cases h
          exact .keeps rfl (by simp [InLoop, hphase])
        · contradiction
      case h_11 hphase | h_12 hphase =>
        simp only [innerSteps, hphase]
        split at h
        · contradiction
        · cases h
          exact .keeps rfl (by simp [InLoop, hphase])
      case h_15 hphase | h_16 hphase =>
        simp only [innerSteps, hphase]
        split at h
        · cases h
          exact .keeps rfl (by simp [InLoop, hphase])
        · cases h
          exact .keeps rfl (by simp [InLoop, hphase])

end Effects

/-- The queue is what was accepted and not dispatched.  Outside the loop of
`run` it is what the last stop branch has left there, and what came since. -/
structure InnerHistory (r : Runner M Ev) (history : List (InnerStep Ev)) :
    Prop where
  fifo : acceptedActions history = dispatchedActions history ++ r.innerQueue
  outside : ¬ r.InLoop → r.innerQueue = leftBehind history

theorem InnerHistory.step {r r' : Runner M Ev} {history xs : List (InnerStep Ev)}
    (h : r.InnerHistory history) (heffect : r.InnerEffect xs r') :
    r'.InnerHistory (history ++ xs) := by
  cases heffect with
  | accepts actions _ hqueue hloop =>
      constructor
      · rw [acceptedActions_accepted, dispatchedActions_accepted, hqueue, h.fifo,
          List.append_assoc]
      · intro hout
        rw [leftBehind_accepted, hqueue, h.outside fun hin => hout (hloop hin)]
  | dispatches action _ hqueue hloop =>
      constructor
      · have haccepted : acceptedActions [InnerStep.dispatched action] = [] := rfl
        have hdispatched : dispatchedActions [InnerStep.dispatched action] =
            [action] := rfl
        rw [acceptedActions_append, dispatchedActions_append, haccepted,
          hdispatched, h.fifo, hqueue]
        simp
      -- only inside the loop is anything dispatched
      · exact fun hout => absurd hloop hout
  | stops _ hqueue =>
      constructor
      · have haccepted :
            acceptedActions [InnerStep.stopping r.innerQueue] = [] := rfl
        have hdispatched :
            dispatchedActions [InnerStep.stopping r.innerQueue] = [] := rfl
        rw [acceptedActions_append, dispatchedActions_append, haccepted,
          hdispatched, h.fifo, hqueue]
        simp
      · intro _
        rw [leftBehind_stopping, hqueue]

/-- A run of the runner, observed at its inner queue. -/
abbrev innerRun (cfg : RunnerConfig) (r : Runner M Ev)
    (inputs : List (Input M Ev)) :
    Option (Runner M Ev × List (InnerStep Ev)) :=
  execute (watched (step cfg) innerSteps) r inputs

theorem innerHistory_of_run {cfg : RunnerConfig} {inputs : List (Input M Ev)}
    {r : Runner M Ev} {history : List (InnerStep Ev)}
    (hrun : innerRun cfg create inputs = some (r, history)) :
    r.InnerHistory history := by
  have hstart : (create : Runner M Ev).InnerHistory [] := ⟨rfl, fun _ => rfl⟩
  refine execute_history (G := fun _ _ => True) (P := InnerHistory) ?_ []
    hstart (stepsMeet_true _ _) hrun
  intro s seen i t xs hseen _ hstep
  obtain ⟨⟨o, hstep'⟩, rfl⟩ := watched_eq_some.mp hstep
  exact hseen.step (step_innerEffect hstep')

/-- A terminated runner is out of the loop of `run`. -/
theorem not_inLoop_of_terminated {cfg : RunnerConfig}
    {inputs : List (Input M Ev)} {r : Runner M Ev}
    {history : List (InnerStep Ev)}
    (hrun : innerRun cfg create inputs = some (r, history))
    (hend : r.lifecycle = .terminated) : ¬ r.InLoop := by
  intro hloop
  obtain ⟨seen, hsteps⟩ := execute_watched_iff.mp ⟨history, hrun⟩
  have hin : r.InRun := by
    unfold InLoop at hloop
    unfold InRun
    split at hloop <;> simp_all
  rcases runsStarted_of_execute hsteps hin with hlife | hlife <;>
    · rw [hend] at hlife
      contradiction

/-- **No accepted inner action is lost** in a run that reaches `Terminated`, and
they are dispatched in order, if and only if the last stop branch has found the
queue empty and nothing was accepted since. -/
theorem all_dispatched_iff (cfg : RunnerConfig) (inputs : List (Input M Ev))
    (r : Runner M Ev) (history : List (InnerStep Ev))
    (hrun : innerRun cfg create inputs = some (r, history))
    (hend : r.lifecycle = .terminated) :
    acceptedActions history = dispatchedActions history ↔ QuietEnd history := by
  have hhistory := innerHistory_of_run hrun
  have hout := hhistory.outside (not_inLoop_of_terminated hrun hend)
  rw [quietEnd_iff, hhistory.fifo, List.append_right_eq_self, hout]

/-- A child that handles one message, in which it publishes an event, and then
takes a stop request. -/
def stoppedChild : RunnerConfig where
  hasParent := true
  strategy := .stop

/-- The handler publishes an event. -/
def publishing : List (Input Unit Unit) :=
  [.choice .proceed, .choice (.returns (.ok ())), .choice .proceed,
    .arrival (.message ()), .choice .takeMessage,
    .choice (.operation (.publishEvent ())), .choice (.returns (.ok ()))]

/-- The stop branch and the end of the actor. -/
def stopping (preStop : Except ActorError Unit) : List (Input Unit Unit) :=
  [.arrival (.stop ⟨.outside, none⟩), .choice .takeStop,
    .choice (.returns preStop), .choice .proceed, .choice .proceed,
    .choice .proceed, .choice .proceed, .choice .proceed]

/-- The event is broadcast before the stop branch is taken, and `post_stop`
publishes nothing: the run ends, and the one action that it has accepted was
dispatched. -/
theorem all_dispatched_quiet :
    ∃ r history, innerRun stoppedChild create
        (publishing ++ [.choice .takeInner] ++ stopping (.ok ()) ++
          [.choice (.returns (.ok ()))]) = some (r, history) ∧
      r.lifecycle = .terminated ∧
      acceptedActions history = [.event ()] ∧
      acceptedActions history = dispatchedActions history := by
  have hrun : innerRun stoppedChild create
      (publishing ++ [.choice .takeInner] ++ stopping (.ok ()) ++
        [.choice (.returns (.ok ()))]) = some _ := rfl
  refine ⟨_, _, hrun, rfl, rfl, ?_⟩
  refine (all_dispatched_iff stoppedChild _ _ _ hrun rfl).mpr ?_
  exact ⟨_, [], rfl, Or.inr ⟨[.accepted (.event ()), .dispatched (.event ())], rfl⟩,
    by simp⟩

/-- The stop branch is taken first and `pre_stop` fails: neither the event nor
the fail of the runner is ever dispatched. -/
theorem accepted_actions_lost :
    ∃ r history, innerRun stoppedChild create
        (publishing ++ stopping (.error (.functional "pre_stop"))) =
      some (r, history) ∧
      r.lifecycle = .terminated ∧
      acceptedActions history = [.event (), .fail .stop] ∧
      dispatchedActions history = [] :=
  ⟨_, _, rfl, rfl, rfl, rfl⟩

end Runner

end Actor
end Rush
