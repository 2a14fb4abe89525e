import Rush.Actor.Runner
import Mathlib.Tactic.Common

/-!
# What a step of the runner can do

`Transition` lists the steps with everything they change, and `step_transition`
says that there are no others.  Invariants of the runner are case analyses over
it and never unfold the step function.
-/

namespace Rush
namespace Actor
namespace Runner

open Foundation

variable {M Ev : Type}

/-- The steps of a runner, by name. -/
inductive Transition (cfg : RunnerConfig) (r : Runner M Ev) :
    Runner M Ev → List (Obs M Ev) → Prop
  | arrives (stops errors messages dropped) (hphase : r.phase = .ended →
        stops = r.stopQueue ∧ errors = r.errorQueue ∧ messages = r.mailbox) :
      Transition cfg r
        { r with
          stopQueue := stops
          errorQueue := errors
          mailbox := messages
          sendersDropped := dropped } []
  | starts (hphase : r.phase = .dispatch) (hlife : r.lifecycle = .created) :
      Transition cfg r { r with phase := .inHook .preStart } [.called .preStart]
  | entersRun (hphase : r.phase = .dispatch) (hlife : r.lifecycle = .started) :
      Transition cfg r { r with signal := false, phase := .selecting }
        (if r.signal then [.signal true] else [])
  | restartRefused (hphase : r.phase = .dispatch)
      (hlife : r.lifecycle = .restarted)
      (hrefused : ¬ cfg.strategy.Restarts r.retries) :
      Transition cfg r { r with lifecycle := .stopped } [.becomes .stopped]
  | restarts (strategy) (hphase : r.phase = .dispatch)
      (hlife : r.lifecycle = .restarted) (hstrategy : cfg.strategy = .retry strategy)
      (hretries : r.retries < strategy.maxRetries) :
      Transition cfg r
        { r with
          retries := r.retries + 1
          phase := .inHook (.preRestart r.error) }
        ((strategy.nextBackoff.1.map Obs.backoff).toList ++
          [.called (.preRestart r.error)])
  | stops (hphase : r.phase = .dispatch) (hlife : r.lifecycle = .stopped) :
      Transition cfg r { r with phase := .inHook .postStop } [.called .postStop]
  | failsAsChild (hphase : r.phase = .dispatch) (hlife : r.lifecycle = .failed)
      (hparent : cfg.hasParent = true) :
      Transition cfg r { r with lifecycle := .terminated } [.becomes .terminated]
  | failsAsRoot (hphase : r.phase = .dispatch) (hlife : r.lifecycle = .failed)
      (hparent : cfg.hasParent = false) :
      Transition cfg r { r with lifecycle := .restarted } [.becomes .restarted]
  | terminates (hphase : r.phase = .dispatch)
      (hlife : r.lifecycle = .terminated) :
      Transition cfg r { r with phase := .terminating } [.removeActor]
  | ends (hphase : r.phase = .terminating) :
      Transition cfg r { r with signal := false, phase := .ended }
        (if r.signal then [.signal false] else [])
  | operates (hook op r') (hphase : r.phase = .inHook hook)
      (hop : r.operate op = some r') : Transition cfg r r' []
  | preStartOk (hphase : r.phase = .inHook .preStart) :
      Transition cfg r { r with lifecycle := .started, phase := .dispatch }
        [.becomes .started]
  | preStartErr (e) (hphase : r.phase = .inHook .preStart) :
      Transition cfg r
        { r with error := some e, lifecycle := .failed, phase := .dispatch }
        [.becomes .failed]
  | preRestartOk (e) (hphase : r.phase = .inHook (.preRestart e)) :
      Transition cfg r
        { r with lifecycle := .started, retries := 0, phase := .dispatch }
        [.becomes .started]
  | preRestartErr (e e') (hphase : r.phase = .inHook (.preRestart e)) :
      Transition cfg r { r with error := some e', phase := .dispatch } []
  | preStopOk (request) (hphase : r.phase = .inHook (.preStop request)) :
      Transition cfg r { r with phase := .stoppingChilds request } []
  | preStopErr (request) (hphase : r.phase = .inHook (.preStop request)) :
      Transition cfg r { r.emitFail .stop with phase := .stoppingChilds request }
        []
  | postStop (hphase : r.phase = .inHook .postStop) :
      Transition cfg r { r with lifecycle := .terminated, phase := .dispatch }
        [.becomes .terminated]
  | handles (hook) (hphase : r.phase = .inHook hook)
      (hhook : (∃ e, hook = .onChildError e) ∨ ∃ m, hook = .handleMessage m) :
      Transition cfg r { r with phase := .selecting } []
  | answers (e sender action)
      (hphase : r.phase = .inHook (.onChildFault e sender)) :
      Transition cfg r { r with phase := .selecting }
        [.childAction sender action]
  | takesStop (request rest) (hphase : r.phase = .selecting)
      (hqueue : r.stopQueue = request :: rest) :
      Transition cfg r
        { r with stopQueue := rest, phase := .inHook (.preStop request) }
        [.called (.preStop request)]
  | takesChildError (error rest hook) (hphase : r.phase = .selecting)
      (hsignal : r.stopSignal = false) (hqueue : r.errorQueue = error :: rest)
      (hhook : (∃ e, error = .error e ∧ hook = .onChildError e) ∨
        ∃ e sender, error = .fault e sender ∧ hook = .onChildFault e sender) :
      Transition cfg r { r with errorQueue := rest, phase := .inHook hook }
        [.called hook]
  | takesEvent (event rest) (hphase : r.phase = .selecting)
      (hsignal : r.stopSignal = false)
      (hqueue : r.innerQueue = .event event :: rest) :
      Transition cfg r { r with innerQueue := rest } [.event event]
  | takesError (e rest) (hphase : r.phase = .selecting)
      (hsignal : r.stopSignal = false)
      (hqueue : r.innerQueue = .error e :: rest) :
      Transition cfg r { r with innerQueue := rest }
        (if cfg.hasParent then [.sentError e] else [])
  | takesFailAsChild (e rest) (hphase : r.phase = .selecting)
      (hsignal : r.stopSignal = false) (hqueue : r.innerQueue = .fail e :: rest)
      (hparent : cfg.hasParent = true) :
      Transition cfg r { r with innerQueue := rest, phase := .awaitingAction }
        [.sentFault e]
  | takesFailAsRoot (e rest) (hphase : r.phase = .selecting)
      (hsignal : r.stopSignal = false) (hqueue : r.innerQueue = .fail e :: rest)
      (hparent : cfg.hasParent = false) :
      Transition cfg r { r with innerQueue := rest, phase := .stoppingItself } []
  | takesMessage (message rest) (hphase : r.phase = .selecting)
      (hsignal : r.stopSignal = false) (hqueue : r.mailbox = message :: rest) :
      Transition cfg r
        { r with mailbox := rest, phase := .inHook (.handleMessage message) }
        [.called (.handleMessage message)]
  | mailboxClosed (hphase : r.phase = .selecting)
      (hsignal : r.stopSignal = false) (hqueue : r.mailbox = [])
      (hdropped : r.sendersDropped = true) :
      Transition cfg r { r with phase := .stoppingItself } []
  | actionLost (hphase : r.phase = .awaitingAction) :
      Transition cfg r { r with phase := .stoppingItself } []
  | actionStop (hphase : r.phase = .awaitingAction) :
      Transition cfg r { r with error := none, phase := .stoppingItself } []
  | actionRestart (hphase : r.phase = .awaitingAction) :
      Transition cfg r
        { r with
          error := none, lifecycle := .restarted, phase := .stoppingItself }
        [.becomes .restarted]
  | stopsItself (hphase : r.phase = .stoppingItself)
      (hspace : r.stopQueue.length < stopCapacity) :
      Transition cfg r
        { r with
          stopQueue := r.stopQueue ++ [⟨.own, none⟩]
          stopSignal := true
          phase := .selecting } []
  | noChilds (request) (hphase : r.phase = .stoppingChilds request)
      (hchilds : r.childSenders = []) :
      Transition cfg r { r with phase := .removing request } []
  | childClosed (request child rest)
      (hphase : r.phase = .stoppingChilds request)
      (hchilds : r.childSenders = child :: rest) :
      Transition cfg r { r with childSenders := rest } []
  | childSent (request child rest) (hphase : r.phase = .stoppingChilds request)
      (hchilds : r.childSenders = child :: rest) :
      Transition cfg r
        { r with childSenders := rest, phase := .awaitingChild request }
        [.stopChild child]
  | childAnswered (request) (hphase : r.phase = .awaitingChild request) :
      Transition cfg r { r with phase := .stoppingChilds request } []
  | removes (request) (hphase : r.phase = .removing request) :
      Transition cfg r { r with phase := .acknowledging request } [.removeActor]
  | acknowledgesStarted (request) (hphase : r.phase = .acknowledging request)
      (hlife : r.lifecycle = .started) :
      Transition cfg r { r with lifecycle := .stopped, phase := .returned }
        [.acknowledged request, .becomes .stopped]
  | acknowledgesOther (request) (hphase : r.phase = .acknowledging request)
      (hlife : r.lifecycle ≠ .started) :
      Transition cfg r { r with phase := .returned } [.acknowledged request]
  | returnsError (hphase : r.phase = .returned) (herror : r.error.isSome) :
      Transition cfg r { r with lifecycle := .failed, phase := .dispatch }
        [.becomes .failed]
  | returnsOk (hphase : r.phase = .returned) (herror : r.error = none) :
      Transition cfg r { r with phase := .dispatch } []

variable {cfg : RunnerConfig} {r r' : Runner M Ev} {o : List (Obs M Ev)}

theorem arrive_transition {arrival : Arrival M}
    (h : r.arrive arrival = some r') : Transition cfg r r' [] := by
  have hended : ∀ {p : Prop}, r.phase.isEnded = false → r.phase = .ended → p := by
    intro p hnot hphase
    rw [hphase] at hnot
    contradiction
  cases arrival with
  | stop request =>
      simp only [arrive] at h
      split at h
      · cases h
        exact .arrives _ r.errorQueue r.mailbox r.sendersDropped
          (hended (by tauto))
      · contradiction
  | message message =>
      simp only [arrive] at h
      split at h
      · cases h
        exact .arrives r.stopQueue r.errorQueue _ r.sendersDropped
          (hended (by tauto))
      · contradiction
  | childError error =>
      simp only [arrive] at h
      split at h
      · cases h
        exact .arrives r.stopQueue _ r.mailbox r.sendersDropped
          (hended (by assumption))
      · contradiction
  | sendersDropped =>
      cases h
      exact .arrives r.stopQueue r.errorQueue r.mailbox true
        fun _ => ⟨rfl, rfl, rfl⟩

theorem dispatch_transition (cfg : RunnerConfig) (hphase : r.phase = .dispatch) :
    Transition cfg r (r.dispatch cfg).1 (r.dispatch cfg).2 := by
  unfold dispatch
  split
  case h_1 hlife => exact .starts hphase hlife
  case h_2 hlife => exact .entersRun hphase hlife
  case h_3 hlife =>
    unfold applySupervisionStrategy
    split
    case h_1 hstrategy =>
      refine .restartRefused hphase hlife ?_
      simp [hstrategy, SupervisionStrategy.Restarts]
    case h_2 strategy hstrategy =>
      split
      case isTrue hretries =>
        exact .restarts strategy hphase hlife hstrategy hretries
      case isFalse hretries =>
        refine .restartRefused hphase hlife ?_
        simpa [hstrategy, SupervisionStrategy.Restarts] using hretries
  case h_4 hlife => exact .stops hphase hlife
  case h_5 hlife =>
    split
    case isTrue hparent => exact .failsAsChild hphase hlife hparent
    case isFalse hparent =>
      exact .failsAsRoot hphase hlife (by simpa using hparent)
  case h_6 hlife => exact .terminates hphase hlife

theorem hookReturns_transition {hook : Hook M} {result : Except ActorError Unit}
    (hphase : r.phase = .inHook hook)
    (h : r.hookReturns hook result = some (r', o)) : Transition cfg r r' o := by
  cases hook with
  | preStart =>
      cases result with
      | ok => cases h; exact .preStartOk hphase
      | error e => cases h; exact .preStartErr e hphase
  | preRestart e =>
      cases result with
      | ok => cases h; exact .preRestartOk e hphase
      | error e' => cases h; exact .preRestartErr e e' hphase
  | preStop request =>
      cases result with
      | ok => cases h; exact .preStopOk request hphase
      | error e => cases h; exact .preStopErr request hphase
  | postStop => cases result <;> cases h <;> exact .postStop hphase
  | onChildError e =>
      cases result <;> cases h <;> exact .handles _ hphase (Or.inl ⟨e, rfl⟩)
  | onChildFault e sender => cases result <;> contradiction
  | handleMessage m =>
      cases result <;> cases h <;> exact .handles _ hphase (Or.inr ⟨m, rfl⟩)

theorem select_transition {choice : Choice Ev} (hphase : r.phase = .selecting)
    (h : r.select cfg choice = some (r', o)) : Transition cfg r r' o := by
  unfold select at h
  split at h
  · split at h
    · contradiction
    · cases h
      exact .takesStop _ _ hphase (by assumption)
  · split at h
    · cases h
      exact .takesChildError _ _ _ hphase (by assumption) (by assumption)
        (Or.inl ⟨_, rfl, rfl⟩)
    · cases h
      exact .takesChildError _ _ _ hphase (by assumption) (by assumption)
        (Or.inr ⟨_, _, rfl, rfl⟩)
    · contradiction
  · split at h
    · cases h
      exact .takesEvent _ _ hphase (by assumption) (by assumption)
    · cases h
      exact .takesError _ _ hphase (by assumption) (by assumption)
    · cases hparent : cfg.hasParent with
      | true =>
          simp only [hparent, if_true] at h
          cases h
          exact .takesFailAsChild _ _ hphase (by assumption) (by assumption)
            hparent
      | false =>
          simp only [hparent] at h
          cases h
          exact .takesFailAsRoot _ _ hphase (by assumption) (by assumption)
            hparent
    · contradiction
  · split at h
    · cases h
      exact .takesMessage _ _ hphase (by assumption) (by assumption)
    · contradiction
  · split at h
    · cases h
      exact .mailboxClosed hphase (by tauto) (by tauto) (by tauto)
    · contradiction
  · contradiction

/-- Every step is one of the transitions. -/
theorem step_transition {i : Input M Ev} (h : step cfg r i = some (r', o)) :
    Transition cfg r r' o := by
  cases i with
  | arrival arrival =>
      change (r.arrive arrival).map (fun r' => (r', [])) = some (r', o) at h
      obtain ⟨_, harrive, heq⟩ := Option.map_eq_some_iff.mp h
      cases heq
      exact arrive_transition harrive
  | choice choice =>
      change r.advance cfg choice = some (r', o) at h
      unfold advance at h
      split at h
      case h_1 hphase =>
        have hpair : r.dispatch cfg = (r', o) := Option.some.inj h
        have htransition := dispatch_transition cfg hphase
        rwa [hpair] at htransition
      case h_2 hook op hphase =>
        obtain ⟨_, hop, heq⟩ := Option.map_eq_some_iff.mp h
        cases heq
        exact .operates hook op _ hphase hop
      case h_3 hphase =>
        cases h
        exact .answers _ _ _ hphase
      case h_4 hphase => exact hookReturns_transition hphase h
      case h_5 hphase => exact select_transition hphase h
      case h_6 hphase =>
        cases h
        exact .actionLost hphase
      case h_7 hphase =>
        cases h
        exact .actionStop hphase
      case h_8 hphase =>
        cases h
        exact .actionRestart hphase
      case h_9 hphase =>
        split at h
        · cases h
          exact .stopsItself hphase (by assumption)
        · contradiction
      case h_10 hphase =>
        split at h
        · cases h
          exact .noChilds _ hphase (by assumption)
        · contradiction
      case h_11 hphase =>
        split at h
        · contradiction
        · cases h
          exact .childClosed _ _ _ hphase (by assumption)
      case h_12 hphase =>
        split at h
        · contradiction
        · cases h
          exact .childSent _ _ _ hphase (by assumption)
      case h_13 hphase =>
        cases h
        exact .childAnswered _ hphase
      case h_14 hphase =>
        cases h
        exact .removes _ hphase
      case h_15 hphase =>
        split at h
        · cases h
          exact .acknowledgesStarted _ hphase (by assumption)
        · cases h
          exact .acknowledgesOther _ hphase (by assumption)
      case h_16 hphase =>
        split at h
        case isTrue herror =>
          cases h
          exact .returnsError hphase herror
        case isFalse herror =>
          cases h
          exact .returnsOk hphase (by simpa using herror)
      case h_17 hphase =>
        cases h
        exact .ends hphase
      case h_18 => contradiction

/-- An arrival changes neither the control of the runner nor its inner queue. -/
theorem arrive_frame {arrival : Arrival M} (h : r.arrive arrival = some r') :
    r'.phase = r.phase ∧ r'.lifecycle = r.lifecycle ∧
      r'.innerQueue = r.innerQueue ∧ r'.retries = r.retries ∧
      r'.signal = r.signal := by
  cases arrival with
  | sendersDropped =>
      cases h
      exact ⟨rfl, rfl, rfl, rfl, rfl⟩
  | _ =>
      simp only [arrive] at h
      split at h
      · cases h
        exact ⟨rfl, rfl, rfl, rfl, rfl⟩
      · contradiction

/-- An operation of a hook leaves the control of the runner alone. -/
theorem operate_frame {op : ContextOp Ev} (h : r.operate op = some r') :
    r'.phase = r.phase ∧ r'.lifecycle = r.lifecycle ∧
      r'.stopSignal = r.stopSignal ∧ r'.retries = r.retries ∧
      r'.signal = r.signal := by
  cases op with
  | stop reply =>
      simp only [operate] at h
      split at h
      · cases h
        exact ⟨rfl, rfl, rfl, rfl, rfl⟩
      · contradiction
  | _ =>
      cases h
      exact ⟨rfl, rfl, rfl, rfl, rfl⟩

/-- An operation belongs to the hook that is running. -/
theorem step_operation {op : ContextOp Ev}
    (h : step cfg r (.choice (.operation op)) = some (r', o)) :
    (∃ hook, r.phase = .inHook hook) ∧ r.operate op = some r' ∧ o = [] := by
  change r.advance cfg (.operation op) = some (r', o) at h
  cases hphase : r.phase with
  | inHook hook =>
      simp only [advance, hphase] at h
      obtain ⟨_, hop, heq⟩ := Option.map_eq_some_iff.mp h
      cases heq
      exact ⟨⟨hook, rfl⟩, hop, rfl⟩
  | _ => simp [advance, hphase, select] at h

/-- The lifecycle that a phase allows. -/
def InPlace (r : Runner M Ev) : Prop :=
  match r.phase with
  | .dispatch => True
  | .inHook .preStart => r.lifecycle = .created
  | .inHook (.preRestart _) => r.lifecycle = .restarted
  | .inHook .postStop => r.lifecycle = .stopped
  | .returned => r.lifecycle = .stopped ∨ r.lifecycle = .restarted
  | .terminating => r.lifecycle = .terminated
  | .ended => r.lifecycle = .terminated
  -- in `run`, the actor is started, or its restart is pending
  | _ => r.lifecycle = .started ∨ r.lifecycle = .restarted

theorem InPlace.step (h : r.InPlace) (ht : Transition cfg r r' o) :
    r'.InPlace := by
  unfold InPlace at *
  cases ht with
  | operates hook op r' hphase hop =>
      obtain ⟨hphase', hlife', -⟩ := operate_frame hop
      rwa [hphase', hlife']
  | takesChildError error rest hook hphase hsignal hqueue hhook =>
      rcases hhook with ⟨e, rfl, rfl⟩ | ⟨e, sender, rfl, rfl⟩ <;> simp_all
  | handles hook hphase hhook =>
      rcases hhook with ⟨e, rfl⟩ | ⟨m, rfl⟩ <;> simp_all
  | arrives => exact h
  | _ => simp_all [emitFail]

/-- In every run the lifecycle and the phase agree. -/
theorem inPlace_of_execute {inputs : List (Input M Ev)} {seen : List (Obs M Ev)}
    (hrun : execute (step cfg) create inputs = some (r, seen)) : r.InPlace :=
  execute_invariant (fun _ _ _ _ hold hstep => hold.step (step_transition hstep))
    (by simp [InPlace, create]) hrun

section Handshakes

attribute [local simp] advance select

variable {choice : Choice Ev}

/-- A child that waits for its action does nothing else. -/
theorem advance_awaitingAction (hphase : r.phase = .awaitingAction)
    (h : r.advance cfg choice = some (r', o)) :
    ∃ action, choice = .parentAction action := by
  cases choice with
  | parentAction action => exact ⟨action, rfl⟩
  | _ => simp [hphase] at h

/-- A parent that waits for an acknowledgement does nothing else. -/
theorem advance_awaitingChild {request : StopRequest}
    (hphase : r.phase = .awaitingChild request)
    (h : r.advance cfg choice = some (r', o)) : choice = .childAnswered := by
  cases choice with
  | childAnswered => rfl
  | _ => simp [hphase] at h

theorem advance_parentAction {action : Option ChildAction}
    (h : r.advance cfg (.parentAction action) = some (r', o)) :
    r.phase = .awaitingAction ∧ (o = [] ∨ o = [.becomes .restarted]) := by
  cases hphase : r.phase with
  | awaitingAction =>
      refine ⟨rfl, ?_⟩
      cases action with
      | none => simp_all
      | some action => cases action <;> simp_all
  | inHook hook => cases hook <;> simp [hphase] at h
  | _ => simp [hphase] at h

/-- In `stop_childs` a request goes to the child that was created last. -/
theorem advance_childSent (h : r.advance cfg .childSent = some (r', o)) :
    ∃ request child, r.phase = .stoppingChilds request ∧
      r.childSenders.head? = some child ∧ r'.phase = .awaitingChild request ∧
      o = [.stopChild child] := by
  cases hphase : r.phase with
  | stoppingChilds request =>
      cases hchilds : r.childSenders with
      | nil => simp [hphase, hchilds] at h
      | cons child rest =>
          simp only [advance, hphase, hchilds, Option.some.injEq,
            Prod.mk.injEq] at h
          obtain ⟨rfl, rfl⟩ := h
          exact ⟨request, child, rfl, rfl, rfl, rfl⟩
  | inHook hook => cases hook <;> simp [hphase] at h
  | _ => simp [hphase] at h

theorem Transition.stopChild {child : Nat} (ht : Transition cfg r r' o)
    (hmem : .stopChild child ∈ o) :
    ∃ request, r.phase = .stoppingChilds request := by
  cases ht with
  | childSent request _ _ hphase => exact ⟨request, hphase⟩
  | entersRun | takesError | ends => split at hmem <;> simp_all
  | _ => simp_all

theorem Transition.sentFault {e : ActorError} (ht : Transition cfg r r' o)
    (hmem : .sentFault e ∈ o) :
    r.phase = .selecting ∧ r'.phase = .awaitingAction ∧
      ∃ rest, r.innerQueue = .fail e :: rest := by
  cases ht with
  | takesFailAsChild e' rest hphase _ hqueue =>
      have he : e = e' := by simpa using hmem
      exact ⟨hphase, rfl, rest, he ▸ hqueue⟩
  | entersRun | takesError | ends => split at hmem <;> simp_all
  | _ => simp_all

/-- Only `stop_childs` sends stop requests to children. -/
theorem choice_of_stopChild {child : Nat}
    (h : r.advance cfg choice = some (r', o)) (hmem : .stopChild child ∈ o) :
    choice = .childSent := by
  have hstep : step cfg r (.choice choice) = some (r', o) := h
  obtain ⟨request, hphase⟩ := (step_transition hstep).stopChild hmem
  cases choice with
  | childSent => rfl
  | proceed | childClosed =>
      simp only [advance, hphase] at h
      split at h <;> cases h
      contradiction
  | _ => simp [hphase] at h

/-- Only `inner_handle` sends faults to the parent. -/
theorem choice_of_sentFault {e : ActorError}
    (h : r.advance cfg choice = some (r', o)) (hmem : .sentFault e ∈ o) :
    choice = .takeInner ∧ r.phase = .selecting ∧ r'.phase = .awaitingAction ∧
      ∃ rest, r.innerQueue = .fail e :: rest := by
  have hstep : step cfg r (.choice choice) = some (r', o) := h
  obtain ⟨hphase, hphase', hqueue⟩ := (step_transition hstep).sentFault hmem
  refine ⟨?_, hphase, hphase', hqueue⟩
  simp only [advance, hphase] at h
  cases choice with
  | takeInner => rfl
  | takeStop | takeChildError | takeMessage | mailboxClosed =>
      simp only [select] at h
      split at h <;> cases h <;> simp at hmem
  | _ => simp at h

end Handshakes

end Runner
end Actor
end Rush
