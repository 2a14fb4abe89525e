import Rush.Actor.ChildStops
import Rush.Actor.Orphans
import Rush.Actor.StopRequests

/-!
# What the actors of a hierarchy hear of each other

A step of a runner concerns its parent or one of its children in seven ways, and
every other step is its own affair.  `Handshake` says what each of them does to
the runner; from it follows who changes the channel of a fault, that of a stop
request and the queues of the others.
-/

namespace Rush
namespace Actor

open Foundation

variable {M Ev : Type}

/-- What no other actor hears. -/
def Obs.isPrivate : Obs M Ev → Bool
  | .sentError _ => false
  | .sentFault _ => false
  | .childAction _ _ => false
  | .stopChild _ => false
  | .acknowledged _ => false
  | _ => true

namespace Runner

/-- The fault lies in the error queue, or `on_child_fault` has been asked. -/
def HasFault (r : Runner M Ev) (error : ActorError) (sender : Nat) : Prop :=
  .fault error sender ∈ r.errorQueue ∨
    r.phase = .inHook (.onChildFault error sender)

/-- The runner waits for the action of its parent or the answer of a child. -/
def AwaitsOther (r : Runner M Ev) : Prop :=
  r.phase = .awaitingAction ∨ ∃ request, r.phase = .awaitingChild request

/-- The faults are the same, and no stop request is dropped. -/
structure Keeps (r r' : Runner M Ev) : Prop where
  faults : ∀ e sender, r'.HasFault e sender ↔ r.HasFault e sender
  requests : ∀ q ∈ r.openRequests, q ∈ r'.openRequests

/-- What a step of a runner is for its parent and its children. -/
inductive Handshake (r : Runner M Ev) :
    Choice Ev → Runner M Ev → List (Obs M Ev) → Prop
  | alone (choice r' os) (hchoice : choice ≠ .childAnswered)
      (hchoice' : ∀ action, choice ≠ .parentAction action)
      (hos : ∀ x ∈ os, x.isPrivate) (hwaits : ¬ r.AwaitsOther)
      (hwaits' : ¬ r'.AwaitsOther) (hkeeps : Keeps r r') :
      Handshake r choice r' os
  | sendsError (r' e) (hphase : r.phase = .selecting)
      (hphase' : r'.phase = .selecting) (hkeeps : Keeps r r') :
      Handshake r .takeInner r' [.sentError e]
  | sendsFault (r' e) (hphase : r.phase = .selecting)
      (hphase' : r'.phase = .awaitingAction) (hkeeps : Keeps r r') :
      Handshake r .takeInner r' [.sentFault e]
  | takesAction (action r' os) (hphase : r.phase = .awaitingAction)
      (hphase' : r'.phase = .stoppingItself) (hos : ∀ x ∈ os, x.isPrivate)
      (hkeeps : Keeps r r') : Handshake r (.parentAction action) r' os
  | answers (e sender action r')
      (hphase : r.phase = .inHook (.onChildFault e sender))
      (hphase' : r'.phase = .selecting) (herrors : r'.errorQueue = r.errorQueue)
      (hstops : r'.stopQueue = r.stopQueue) :
      Handshake r (.answers action) r' [.childAction sender action]
  | asks (request child r') (hphase : r.phase = .stoppingChilds request)
      (hphase' : r'.phase = .awaitingChild request)
      (hchilds : r.childSenders = child :: r'.childSenders) (hkeeps : Keeps r r') :
      Handshake r .childSent r' [.stopChild child]
  | hears (request r') (hphase : r.phase = .awaitingChild request)
      (hphase' : r'.phase = .stoppingChilds request) (hkeeps : Keeps r r') :
      Handshake r .childAnswered r' []
  | acknowledges (request r' os) (hphase : r.phase = .acknowledging request)
      (hphase' : r'.phase = .returned) (hstops : r'.stopQueue = r.stopQueue)
      (herrors : r'.errorQueue = r.errorQueue) (hos : ∀ x ∈ os, x.isPrivate) :
      Handshake r .proceed r' (.acknowledged request :: os)

variable {cfg : RunnerConfig} {r r' : Runner M Ev} {os : List (Obs M Ev)}
  {choice : Choice Ev}

theorem Keeps.of_queues (herrors : r'.errorQueue = r.errorQueue)
    (hhook : ∀ e sender, r'.phase = .inHook (.onChildFault e sender) ↔
      r.phase = .inHook (.onChildFault e sender))
    (hstops : r.stopQueue ⊆ r'.stopQueue) (hserved : r'.served = r.served) :
    Keeps r r' := by
  constructor
  · intro e sender
    unfold HasFault
    rw [herrors, hhook]
  · intro q hq
    unfold openRequests at *
    rw [hserved]
    rcases List.mem_append.mp hq with hq | hq
    · exact List.mem_append_left _ hq
    · exact List.mem_append_right _ (hstops hq)

section Steps

attribute [local simp] served AwaitsOther Obs.isPrivate

theorem dispatch_handshake (hphase : r.phase = .dispatch)
    (h : r.dispatch cfg = (r', os)) : Handshake r .proceed r' os := by
  unfold dispatch at h
  split at h
  case h_2 =>
    cases h
    exact .alone _ _ _ (by simp) (by simp) (by split <;> simp) (by simp [hphase])
      (by simp) (.of_queues rfl (by simp [hphase]) (by simp) (by simp [hphase]))
  case h_3 =>
    unfold applySupervisionStrategy at h
    split at h
    case h_1 =>
      cases h
      exact .alone _ _ _ (by simp) (by simp) (by simp) (by simp [hphase])
        (by simp [hphase]) (.of_queues rfl (by simp) (by simp) rfl)
    case h_2 strategy _ =>
      split at h
      case isTrue =>
        cases h
        refine .alone _ _ _ (by simp) (by simp) ?_ (by simp [hphase]) (by simp)
          (.of_queues rfl (by simp [hphase]) (by simp) (by simp [hphase]))
        cases strategy.nextBackoff.1 <;> simp
      case isFalse =>
        cases h
        exact .alone _ _ _ (by simp) (by simp) (by simp) (by simp [hphase])
          (by simp [hphase]) (.of_queues rfl (by simp) (by simp) rfl)
  case h_5 =>
    split at h <;> cases h <;>
      exact .alone _ _ _ (by simp) (by simp) (by simp) (by simp [hphase])
        (by simp [hphase]) (.of_queues rfl (by simp) (by simp) rfl)
  all_goals
    cases h
    exact .alone _ _ _ (by simp) (by simp) (by simp) (by simp [hphase])
      (by simp) (.of_queues rfl (by simp [hphase]) (by simp) (by simp [hphase]))

theorem operate_handshake {hook : Hook M} {op : ContextOp Ev}
    (hphase : r.phase = .inHook hook) (h : r.operate op = some r') :
    Handshake r (.operation op) r' [] := by
  have hphase' : r'.phase = .inHook hook := (operate_frame h).1.trans hphase
  refine .alone _ _ _ (by simp) (by simp) (by simp) (by simp [hphase])
    (by simp [hphase']) ?_
  cases op with
  | stop reply =>
      simp only [operate] at h
      split at h
      · cases h
        exact .of_queues rfl (by simp) (by simp) rfl
      · contradiction
  | _ =>
      cases h
      exact .of_queues rfl (by simp [emitFail]) (by simp [emitFail]) rfl

theorem hookReturns_handshake {hook : Hook M} {result : Except ActorError Unit}
    (hphase : r.phase = .inHook hook)
    (h : r.hookReturns hook result = some (r', os)) :
    Handshake r (.returns result) r' os := by
  cases hook with
  | onChildFault e sender => cases result <;> contradiction
  | _ =>
      cases result <;> cases h <;>
        exact .alone _ _ _ (by simp) (by simp) (by simp) (by simp [hphase])
          (by simp) (.of_queues rfl (by simp [hphase]) (by simp [emitFail])
            (by simp [hphase]))

theorem select_handshake (hphase : r.phase = .selecting)
    (h : r.select cfg choice = some (r', os)) : Handshake r choice r' os := by
  unfold select at h
  split at h
  case h_1 =>
    split at h
    case h_1 => contradiction
    case h_2 request rest hqueue =>
      cases h
      refine .alone _ _ _ (by simp) (by simp) (by simp) (by simp [hphase])
        (by simp) ⟨by simp [HasFault, hphase], ?_⟩
      simp [openRequests, hphase, hqueue]
  case h_2 =>
    split at h
    case h_1 e rest hsignal hqueue =>
      cases h
      refine .alone _ _ _ (by simp) (by simp) (by simp) (by simp [hphase])
        (by simp) ⟨?_, by simp [openRequests, hphase]⟩
      simp [HasFault, hphase, hqueue]
    case h_2 e sender rest hsignal hqueue =>
      -- the fault moves from the queue into the hook
      cases h
      refine .alone _ _ _ (by simp) (by simp) (by simp) (by simp [hphase])
        (by simp) ⟨fun e' sender' => ?_, by simp [openRequests, hphase]⟩
      simp [HasFault, hphase, hqueue, eq_comm, or_comm]
    case h_3 => contradiction
  case h_3 =>
    split at h
    case h_1 =>
      cases h
      exact .alone _ _ _ (by simp) (by simp) (by simp) (by simp [hphase])
        (by simp [hphase]) (.of_queues rfl (by simp) (by simp) rfl)
    case h_2 e rest hsignal hqueue =>
      cases hparent : cfg.hasParent with
      | true =>
          simp only [hparent, if_true] at h
          cases h
          exact .sendsError _ e hphase hphase
            (.of_queues rfl (by simp) (by simp) rfl)
      | false =>
          simp only [hparent] at h
          cases h
          exact .alone _ _ _ (by simp) (by simp) (by simp) (by simp [hphase])
            (by simp [hphase]) (.of_queues rfl (by simp) (by simp) rfl)
    case h_3 e rest hsignal hqueue =>
      split at h <;> cases h
      · exact .sendsFault _ e hphase rfl
          (.of_queues rfl (by simp [hphase]) (by simp) (by simp [hphase]))
      · exact .alone _ _ _ (by simp) (by simp) (by simp) (by simp [hphase])
          (by simp) (.of_queues rfl (by simp [hphase]) (by simp) (by simp [hphase]))
    case h_4 => contradiction
  case h_4 | h_5 =>
    split at h
    · cases h
      exact .alone _ _ _ (by simp) (by simp) (by simp) (by simp [hphase])
        (by simp) (.of_queues rfl (by simp [hphase]) (by simp) (by simp [hphase]))
    · contradiction
  case h_6 => contradiction

/-- Every choice is one of the handshakes. -/
theorem step_handshake (h : step cfg r (.choice choice) = some (r', os)) :
    Handshake r choice r' os := by
  change r.advance cfg choice = some (r', os) at h
  unfold advance at h
  split at h
  case h_1 hphase => exact dispatch_handshake hphase (Option.some.inj h)
  case h_2 hphase =>
    obtain ⟨_, hop, heq⟩ := Option.map_eq_some_iff.mp h
    cases heq
    exact operate_handshake hphase hop
  case h_3 hphase =>
    cases h
    exact .answers _ _ _ _ hphase rfl rfl rfl
  case h_4 hphase => exact hookReturns_handshake hphase h
  case h_5 hphase => exact select_handshake hphase h
  case h_6 hphase | h_7 hphase | h_8 hphase =>
    cases h
    exact .takesAction _ _ _ hphase rfl (by simp)
      (.of_queues rfl (by simp [hphase]) (by simp) (by simp [hphase]))
  case h_9 hphase =>
    split at h
    · cases h
      exact .alone _ _ _ (by simp) (by simp) (by simp) (by simp [hphase])
        (by simp) (.of_queues rfl (by simp [hphase]) (by simp) (by simp [hphase]))
    · contradiction
  case h_10 hphase =>
    split at h
    · cases h
      exact .alone _ _ _ (by simp) (by simp) (by simp) (by simp [hphase])
        (by simp) (.of_queues rfl (by simp [hphase]) (by simp) (by simp [hphase]))
    · contradiction
  case h_11 hphase =>
    split at h
    · contradiction
    · cases h
      exact .alone _ _ _ (by simp) (by simp) (by simp) (by simp [hphase])
        (by simp [hphase]) (.of_queues rfl (by simp) (by simp) (by simp [hphase]))
  case h_12 request hphase =>
    split at h
    case h_1 => contradiction
    case h_2 child rest hchilds =>
      cases h
      exact .asks request child _ hphase rfl hchilds
        (.of_queues rfl (by simp [hphase]) (by simp) (by simp [hphase]))
  case h_13 request hphase =>
    cases h
    exact .hears request _ hphase rfl
      (.of_queues rfl (by simp [hphase]) (by simp) (by simp [hphase]))
  case h_14 hphase =>
    cases h
    exact .alone _ _ _ (by simp) (by simp) (by simp) (by simp [hphase])
      (by simp) (.of_queues rfl (by simp [hphase]) (by simp) (by simp [hphase]))
  case h_15 request hphase =>
    split at h <;> cases h <;>
      exact .acknowledges request _ _ hphase rfl rfl rfl (by simp)
  case h_16 hphase =>
    split at h <;> cases h <;>
      exact .alone _ _ _ (by simp) (by simp) (by simp) (by simp [hphase])
        (by simp) (.of_queues rfl (by simp [hphase]) (by simp) (by simp [hphase]))
  case h_17 hphase =>
    cases h
    exact .alone _ _ _ (by simp) (by simp) (by split <;> simp) (by simp [hphase])
      (by simp) (.of_queues rfl (by simp [hphase]) (by simp) (by simp [hphase]))
  case h_18 => contradiction

end Steps

/-- Nothing but more in the queues, or a new child. -/
structure Grows (r r' : Runner M Ev) : Prop where
  phase : r'.phase = r.phase
  errors : r.errorQueue <+: r'.errorQueue
  stops : r.stopQueue <+: r'.stopQueue

theorem Grows.refl (r : Runner M Ev) : Grows r r :=
  ⟨rfl, List.prefix_rfl, List.prefix_rfl⟩

theorem Grows.of_arrive {arrival : Arrival M} (h : r.arrive arrival = some r') :
    Grows r r' := by
  cases arrival with
  | stop request =>
      obtain ⟨rfl, -⟩ := arrive_stop h
      exact ⟨rfl, List.prefix_rfl, List.prefix_append _ _⟩
  | sendersDropped =>
      cases h
      exact ⟨rfl, List.prefix_rfl, List.prefix_rfl⟩
  | _ =>
      simp only [arrive] at h
      split at h
      · cases h
        exact ⟨rfl, by simp, List.prefix_rfl⟩
      · contradiction

theorem Grows.hasFault {e : ActorError} {sender : Nat} (h : Grows r r')
    (hfault : r.HasFault e sender) : r'.HasFault e sender :=
  hfault.imp (fun hmem => h.errors.subset hmem) fun hphase => h.phase.trans hphase

theorem Grows.openRequests {q : StopRequest} (h : Grows r r')
    (hq : q ∈ r.openRequests) : q ∈ r'.openRequests := by
  unfold Runner.openRequests at *
  rw [served_congr h.phase]
  rcases List.mem_append.mp hq with hq | hq
  · exact List.mem_append_left _ hq
  · exact List.mem_append_right _ (h.stops.subset hq)

/-- Only the fault of a child is a new fault. -/
theorem hasFault_of_arrive {arrival : Arrival M} {e : ActorError} {sender : Nat}
    (h : r.arrive arrival = some r') (hfault : r'.HasFault e sender) :
    r.HasFault e sender ∨ arrival = .childError (.fault e sender) := by
  unfold HasFault at *
  cases arrival with
  | sendersDropped =>
      cases h
      exact Or.inl hfault
  | childError error =>
      simp only [arrive] at h
      split at h
      · cases h
        rcases hfault with hmem | hphase
        · rcases List.mem_append.mp hmem with hmem | hmem
          · exact Or.inl (Or.inl hmem)
          · exact Or.inr (by simp_all)
        · exact Or.inl (Or.inr hphase)
      · contradiction
  | _ =>
      simp only [arrive] at h
      split at h
      · cases h
        exact Or.inl hfault
      · contradiction

end Runner

/-- What a call makes of what is sent to it. -/
def Creation.receive (arrival : Arrival M) : Creation M Ev → Creation M Ev
  | .running path cfg r => .running path cfg ((r.arrive arrival).getD r)
  | creation => creation

/-- The call runs with more in its queues; faults are new from some senders. -/
def Creation.Yields (creation : Creation M Ev) (path : ActorPath)
    (cfg : RunnerConfig) (r' : Runner M Ev) (new : Nat → Prop) : Prop :=
  ∃ r, creation = .running path cfg r ∧ r.Grows r' ∧
    ∀ e sender, r'.HasFault e sender → r.HasFault e sender ∨ new sender

theorem Creation.Yields.refl {creation : Creation M Ev} {path : ActorPath}
    {cfg : RunnerConfig} {r : Runner M Ev} {new : Nat → Prop}
    (h : creation = .running path cfg r) : creation.Yields path cfg r new :=
  ⟨r, h, .refl r, fun _ _ hfault => Or.inl hfault⟩

theorem Creation.yields_of_receive {creation : Creation M Ev} {arrival : Arrival M}
    {path : ActorPath} {cfg : RunnerConfig} {r' : Runner M Ev} {new : Nat → Prop}
    (hnew : ∀ e sender, arrival = .childError (.fault e sender) → new sender)
    (h : creation.receive arrival = .running path cfg r') :
    creation.Yields path cfg r' new := by
  cases creation with
  | running path' cfg' r =>
      obtain ⟨rfl, rfl, rfl⟩ : path' = path ∧ cfg' = cfg ∧
          (r.arrive arrival).getD r = r' := by
        simpa [receive] using h
      cases harrive : r.arrive arrival with
      | none => exact .refl rfl
      | some r₁ =>
          refine ⟨r, rfl, .of_arrive harrive, fun e sender hfault => ?_⟩
          exact (Runner.hasFault_of_arrive harrive hfault).imp id (hnew e sender)
  | _ => contradiction

namespace Hierarchy

/-- The hierarchy after a step, as far as the handshakes go. -/
structure Becomes (h t : Hierarchy M Ev) (creations : Nat → Creation M Ev)
    (fault : Nat → FaultChannel) (stop : Nat → StopChannel)
    (awaited : Nat → Option Nat) : Prop where
  creations : t.system.creations = creations
  fault : t.fault = fault
  stop : t.stop = stop
  awaited : t.awaited = awaited

/-- A delivery changes one queue at most. -/
theorem deliver_becomes (h : Hierarchy M Ev) (call : Nat) (arrival : Arrival M) :
    Becomes h (h.deliver call arrival)
      (Function.update h.system.creations call
        ((h.system.creations call).receive arrival)) h.fault h.stop h.awaited := by
  obtain ⟨s, hdeliver, -⟩ := deliver_spec h call arrival
  refine ⟨?_, by rw [hdeliver], by rw [hdeliver], by rw [hdeliver]⟩
  unfold deliver
  cases hcall : h.system.creations call with
  | running path cfg r =>
      cases harrive : r.arrive arrival with
      | none =>
          simp only [System.step, hcall, Runner.step, harrive, Option.map_none,
            Creation.receive, Option.getD_none]
          rw [← hcall, Function.update_eq_self]
      | some r' =>
          simp [System.step, hcall, Runner.step, harrive, Creation.receive,
            System.ran]
  | _ =>
      simp only [System.step, hcall, Creation.receive]
      rw [← hcall, Function.update_eq_self]

/-- The calls after an error was sent to the parent. -/
def sent (h : Hierarchy M Ev) (call : Nat) (error : ChildError)
    (creations : Nat → Creation M Ev) : Nat → Creation M Ev :=
  match h.origin call with
  | some origin =>
      Function.update creations origin.parent
        ((creations origin.parent).receive (.childError error))
  | none => creations

theorem toParent_becomes (h : Hierarchy M Ev) (call : Nat) (error : ChildError) :
    Becomes h (h.toParent call error)
      (h.sent call error h.system.creations) h.fault h.stop h.awaited := by
  unfold toParent sent
  cases h.origin call with
  | none => exact ⟨rfl, rfl, rfl, rfl⟩
  | some origin => exact deliver_becomes ..

/-- What others do not hear changes at most what the creator is told. -/
theorem hear_private (call : Nat) (path : ActorPath) {os : List (Obs M Ev)}
    (hos : ∀ x ∈ os, x.isPrivate) (h : Hierarchy M Ev) :
    ∃ signalled, (os.map (.does call path)).foldl hear h =
      { h with signalled := signalled } := by
  induction os generalizing h with
  | nil => exact ⟨h.signalled, rfl⟩
  | cons x os ih =>
      obtain ⟨signalled, hrest⟩ :=
        ih (fun y hy => hos y (List.mem_cons_of_mem x hy)) (h.does call x)
      have hx : x.isPrivate := hos x (by simp)
      refine ⟨signalled, hrest.trans ?_⟩
      cases x <;> simp [does, Obs.isPrivate] at hx ⊢

/-- The calls after an actor has moved. -/
def moved (h : Hierarchy M Ev) (call : Nat) (path : ActorPath)
    (cfg : RunnerConfig) (r' : Runner M Ev) : Nat → Creation M Ev :=
  Function.update h.system.creations call (.running path cfg r')

/-- The step of an actor, with what it changes for the others. -/
inductive Act (h : Hierarchy M Ev) (call : Nat) (path : ActorPath)
    (cfg : RunnerConfig) (r r' : Runner M Ev) :
    Choice Ev → Hierarchy M Ev → Prop
  | alone (choice t) (hwaits : ¬ r.AwaitsOther) (hwaits' : ¬ r'.AwaitsOther)
      (hkeeps : r.Keeps r')
      (ht : Becomes h t (h.moved call path cfg r') h.fault h.stop h.awaited) :
      Act h call path cfg r r' choice t
  | sendsError (e t) (hphase : r.phase = .selecting)
      (hphase' : r'.phase = .selecting) (hkeeps : r.Keeps r')
      (ht : Becomes h t (h.sent call (.error e) (h.moved call path cfg r'))
        h.fault h.stop h.awaited) :
      Act h call path cfg r r' .takeInner t
  | sendsFault (e t) (hphase : r.phase = .selecting)
      (hphase' : r'.phase = .awaitingAction) (hkeeps : r.Keeps r')
      (ht : Becomes h t (h.sent call (.fault e call) (h.moved call path cfg r'))
        (Function.update h.fault call .waiting) h.stop h.awaited) :
      Act h call path cfg r r' .takeInner t
  | takesAction (action t) (hphase : r.phase = .awaitingAction)
      (hphase' : r'.phase = .stoppingItself) (hkeeps : r.Keeps r')
      (ht : Becomes h t (h.moved call path cfg r')
        (Function.update h.fault call .closed) h.stop h.awaited) :
      Act h call path cfg r r' (.parentAction action) t
  | answers (e sender action t)
      (hphase : r.phase = .inHook (.onChildFault e sender))
      (hphase' : r'.phase = .selecting) (herrors : r'.errorQueue = r.errorQueue)
      (hstops : r'.stopQueue = r.stopQueue)
      (ht : Becomes h t (h.moved call path cfg r')
        (if h.fault sender = .waiting then
          Function.update h.fault sender (.answered action) else h.fault)
        h.stop h.awaited) :
      Act h call path cfg r r' (.answers action) t
  | asks (request child t) (hphase : r.phase = .stoppingChilds request)
      (hphase' : r'.phase = .awaitingChild request)
      (hchilds : r.childSenders = child :: r'.childSenders) (hkeeps : r.Keeps r')
      (ht : Becomes h t
        (Function.update (h.moved call path cfg r') child
          ((h.moved call path cfg r' child).receive (.stop (stopRequest child))))
        h.fault (Function.update h.stop child .waiting)
        (Function.update h.awaited call (some child))) :
      Act h call path cfg r r' .childSent t
  | hears (request child t) (hphase : r.phase = .awaitingChild request)
      (hphase' : r'.phase = .stoppingChilds request) (hkeeps : r.Keeps r')
      (hawaited : h.awaited call = some child)
      (ht : Becomes h t (h.moved call path cfg r') h.fault
        (Function.update h.stop child .closed)
        (Function.update h.awaited call none)) :
      Act h call path cfg r r' .childAnswered t
  | acknowledges (request t) (hphase : r.phase = .acknowledging request)
      (hphase' : r'.phase = .returned) (hstops : r'.stopQueue = r.stopQueue)
      (herrors : r'.errorQueue = r.errorQueue)
      (ht : Becomes h t (h.moved call path cfg r') h.fault
        (if request = stopRequest call ∧ h.stop call = .waiting then
          Function.update h.stop call .answered else h.stop) h.awaited) :
      Act h call path cfg r r' .proceed t

variable {h t : Hierarchy M Ev} {i : HierarchyInput M Ev}
  {o : List (HierarchyObs M Ev)} {call : Nat} {path : ActorPath}
  {cfg : RunnerConfig} {r r' : Runner M Ev} {choice : Choice Ev}

/-- Every step of an actor is one of the acts. -/
theorem act_of_run {os : List (Obs M Ev)} (hmay : h.may call choice = true)
    (hrun : Runner.step cfg r (.choice choice) = some (r', os)) :
    Act h call path cfg r r' choice (h.ranTo call choice path cfg r' os) := by
  have hprivate : (∀ x ∈ os, x.isPrivate) → ∃ signalled,
      h.ranTo call choice path cfg r' os =
        { h.chose call choice with
          system := h.system.ran call path cfg r' os, signalled := signalled } :=
    fun hos => hear_private call path hos _
  cases Runner.step_handshake hrun with
  | alone _ _ _ hchoice hchoice' hos hwaits hwaits' hkeeps =>
      obtain ⟨signalled, heq⟩ := hprivate hos
      have hchose : h.chose call choice = h := by
        cases choice with
        | childAnswered => exact absurd rfl hchoice
        | parentAction action => exact absurd rfl (hchoice' action)
        | _ => rfl
      rw [heq, hchose]
      exact .alone _ _ hwaits hwaits' hkeeps ⟨rfl, rfl, rfl, rfl⟩
  | sendsError _ e hphase hphase' hkeeps =>
      have ht := toParent_becomes
        { h with system := h.system.ran call path cfg r' [.sentError e] }
        call (.error e)
      exact .sendsError e _ hphase hphase' hkeeps
        ⟨ht.creations, ht.fault, ht.stop, ht.awaited⟩
  | sendsFault _ e hphase hphase' hkeeps =>
      have ht := toParent_becomes
        { h with system := h.system.ran call path cfg r' [.sentFault e] }
        call (.fault e call)
      exact .sendsFault e _ hphase hphase' hkeeps
        ⟨ht.creations, rfl, ht.stop, ht.awaited⟩
  | takesAction action _ _ hphase hphase' hos hkeeps =>
      obtain ⟨signalled, heq⟩ := hprivate hos
      rw [heq]
      exact .takesAction action _ hphase hphase' hkeeps ⟨rfl, rfl, rfl, rfl⟩
  | answers e sender action _ hphase hphase' herrors hstops =>
      refine .answers e sender action _ hphase hphase' herrors hstops ?_
      by_cases hfault : h.fault sender = .waiting
      · rw [if_pos hfault]
        simp only [ranTo, List.map_cons, List.map_nil, List.foldl_cons,
          List.foldl_nil, hear, does, chose, if_pos hfault]
        exact ⟨rfl, rfl, rfl, rfl⟩
      · rw [if_neg hfault]
        simp only [ranTo, List.map_cons, List.map_nil, List.foldl_cons,
          List.foldl_nil, hear, does, chose, if_neg hfault]
        exact ⟨rfl, rfl, rfl, rfl⟩
  | asks request child _ hphase hphase' hchilds hkeeps =>
      have ht := deliver_becomes
        { h with system := h.system.ran call path cfg r' [.stopChild child] }
        child (.stop (stopRequest child))
      exact .asks request child _ hphase hphase' hchilds hkeeps
        ⟨ht.creations, ht.fault, rfl, rfl⟩
  | hears request _ hphase hphase' hkeeps =>
      cases hawaited : h.awaited call with
      | none => simp [may, hawaited] at hmay
      | some child =>
          refine .hears request child _ hphase hphase' hkeeps hawaited ?_
          simp only [ranTo, List.map_nil, List.foldl_nil, chose, hawaited]
          exact ⟨rfl, rfl, rfl, rfl⟩
  | acknowledges request _ os hphase hphase' hstops herrors hos =>
      refine .acknowledges request _ hphase hphase' hstops herrors ?_
      obtain ⟨signalled, heq⟩ := hear_private call path hos
        (does
          { h with
            system := h.system.ran call path cfg r' (.acknowledged request :: os) }
          call (.acknowledged request))
      refine (congrArg (fun u => Becomes h u (h.moved call path cfg r') h.fault
        (if request = stopRequest call ∧ h.stop call = .waiting then
          Function.update h.stop call .answered else h.stop) h.awaited) heq).mpr ?_
      by_cases hanswers : request = stopRequest call ∧ h.stop call = .waiting
      · rw [if_pos hanswers]
        simp only [does, if_pos hanswers]
        exact ⟨rfl, rfl, rfl, rfl⟩
      · rw [if_neg hanswers]
        simp only [does, if_neg hanswers]
        exact ⟨rfl, rfl, rfl, rfl⟩

/-- An actor after the act of one of them: what is sent gets into the queues. -/
theorem Act.runner (hact : Act h call path cfg r r' choice t) {x : Nat}
    {path' : ActorPath} {cfg' : RunnerConfig} {r₂ : Runner M Ev}
    (hx : t.system.creations x = .running path' cfg' r₂) :
    (h.moved call path cfg r' x).Yields path' cfg' r₂
      fun sender => sender = call ∧ h.CreatedBy x call := by
  have hsent : ∀ error, (∀ e sender, error = .fault e sender → sender = call) →
      h.sent call error (h.moved call path cfg r') x = .running path' cfg' r₂ →
      (h.moved call path cfg r' x).Yields path' cfg' r₂
        fun sender => sender = call ∧ h.CreatedBy x call := by
    intro error herror hmem
    cases horigin : h.origin call with
    | none => exact .refl (by simpa [sent, horigin] using hmem)
    | some origin =>
        by_cases heq : x = origin.parent
        · subst heq
          have hreceive : (h.moved call path cfg r' origin.parent).receive
              (.childError error) = .running path' cfg' r₂ := by
            simpa [sent, horigin] using hmem
          refine Creation.yields_of_receive (fun e sender harrival => ?_) hreceive
          exact ⟨herror e sender (Arrival.childError.inj harrival),
            origin.hook, horigin⟩
        · exact .refl (by simpa [sent, horigin, heq] using hmem)
  cases hact with
  | alone _ _ _ _ _ ht | takesAction _ _ _ _ _ ht | answers _ _ _ _ _ _ _ _ ht
  | hears _ _ _ _ _ _ _ ht | acknowledges _ _ _ _ _ _ ht =>
      exact .refl (ht.creations ▸ hx)
  | sendsError e _ _ _ _ ht => exact hsent (.error e) (by simp) (ht.creations ▸ hx)
  | sendsFault e _ _ _ _ ht =>
      refine hsent (.fault e call) ?_ (ht.creations ▸ hx)
      intro _ sender heq
      exact (ChildError.fault.inj heq).2.symm
  | asks request child _ _ _ _ _ ht =>
      rw [ht.creations] at hx
      by_cases heq : x = child
      · subst heq
        rw [Function.update_self] at hx
        exact Creation.yields_of_receive (by simp) hx
      · exact .refl (by simpa [heq] using hx)

/-- What other tasks send are no faults. -/
theorem foreign_not_childError {arrival : Arrival M}
    (hforeign : foreign call arrival = true) (error : ChildError) :
    arrival ≠ .childError error := by
  rintro rfl
  contradiction

/-- A step that no runner takes, or none of its own. -/
structure Rests (h t : Hierarchy M Ev) : Prop where
  fault : t.fault = h.fault
  stop : t.stop = h.stop
  awaited : t.awaited = h.awaited
  runners : ∀ x path cfg r', t.system.creations x = .running path cfg r' →
    h.system.creations x = .checked path cfg ∧ r' = Runner.create ∨
      (h.system.creations x).Yields path cfg r' fun _ => False

theorem Rests.of_creates {s : System M Ev} {os : List (SystemObs M Ev)}
    {input : SystemInput M Ev} (hsystem : h.system.step input = some (s, os))
    (hinput : ∀ call input', input ≠ .run call input') (hnext : t.system = s)
    (hfault : t.fault = h.fault) (hstop : t.stop = h.stop)
    (hawaited : t.awaited = h.awaited) : Rests h t := by
  refine ⟨hfault, hstop, hawaited, fun x path cfg r' hx => ?_⟩
  rw [hnext] at hx
  rcases running_of_creates hsystem hinput hx with hold | ⟨-, hnew, hchecked⟩
  · exact Or.inr (.refl hold)
  · exact Or.inl ⟨hchecked, hnew⟩

/-- Every step is an act of some actor, or all of them rest. -/
theorem step_acts (hstep : h.step i = some (t, o)) :
    (∃ call choice path cfg r r' os, i = .run call choice ∧
      h.system.creations call = .running path cfg r ∧
      h.may call choice = true ∧
      Runner.step cfg r (.choice choice) = some (r', os) ∧
      Act h call path cfg r r' choice t) ∨
    (∀ call choice, i ≠ .run call choice) ∧ Rests h t := by
  cases i with
  | run call choice =>
      left
      cases step_transition hstep with
      | runs _ _ path cfg r r' os hmay hcall hrun =>
          exact ⟨call, choice, path, cfg, r, r', os, rfl, hcall, hmay, hrun,
            act_of_run hmay hrun⟩
  | arrive call arrival =>
      refine Or.inr ⟨by simp, ?_⟩
      simp only [step] at hstep
      split at hstep
      case isFalse => contradiction
      case isTrue hforeign =>
        obtain ⟨⟨s, os⟩, hsystem, heq⟩ := Option.map_eq_some_iff.mp hstep
        cases heq
        refine ⟨rfl, rfl, rfl, fun x path cfg r' hx => Or.inr ?_⟩
        cases System.step_transition hsystem with
        | runs _ _ path' cfg' r r₁ os hcall hrun =>
            by_cases heq : x = call
            · subst heq
              obtain ⟨rfl, rfl, rfl⟩ : path' = path ∧ cfg' = cfg ∧ r₁ = r' := by
                simpa [System.ran] using hx
              obtain ⟨r₂, harrive, heq⟩ := Option.map_eq_some_iff.mp hrun
              cases heq
              refine ⟨r, hcall, .of_arrive harrive, fun e sender hfault => Or.inl ?_⟩
              exact (Runner.hasFault_of_arrive harrive hfault).resolve_right
                (foreign_not_childError hforeign _)
            · exact .refl (by simpa [System.ran, heq] using hx)
  | createRoot call name strategy =>
      refine Or.inr ⟨by simp, ?_⟩
      cases step_transition hstep with
      | createsRoot _ _ _ s os hsystem =>
          exact .of_creates hsystem (by simp) rfl rfl rfl rfl
  | createChild parent call name strategy =>
      refine Or.inr ⟨by simp, ?_⟩
      cases step_transition hstep with
      | createsChild _ _ _ _ _ _ _ _ s os _ _ _ hsystem =>
          exact .of_creates hsystem (by simp) rfl rfl rfl rfl
  | insert call =>
      refine Or.inr ⟨by simp, ?_⟩
      cases step_transition hstep with
      | inserts _ s os hsystem => exact .of_creates hsystem (by simp) rfl rfl rfl rfl
  | created parent =>
      refine Or.inr ⟨by simp, ?_⟩
      cases step_transition hstep with
      | createFails _ call hcreating =>
          exact ⟨rfl, rfl, rfl, fun x path cfg r' hx => Or.inr (.refl hx)⟩
      | creates _ call path' cfg' r r₁ hcreating hsignalled hparent hrun =>
          refine ⟨rfl, rfl, rfl, fun x path cfg r' hx => Or.inr ?_⟩
          by_cases heq : x = parent
          · subst heq
            obtain ⟨rfl, rfl, rfl⟩ : path' = path ∧ cfg' = cfg ∧ r₁ = r' := by
              simpa [System.ran] using hx
            obtain ⟨-, hop, -⟩ := Runner.step_operation hrun
            cases hop
            exact ⟨r, hparent, ⟨rfl, List.prefix_rfl, List.prefix_rfl⟩,
              fun _ _ hfault => Or.inl hfault⟩
          · exact .refl (by simpa [System.ran, heq] using hx)

end Hierarchy

end Actor
end Rush
