import Rush.Actor.System

/-!
# The shutdown of the system

The task that `SystemRef::new` starts, with the stop senders of the root actors
that `create_root_actor` collects for it.  When the token is cancelled the task
takes the lock of `root_senders` and holds it to its end: it pops the senders,
sends a request to each actor and waits for the reply.  A send fails if the
runner has ended, and then the task returns.
-/

namespace Rush
namespace Actor

open Foundation

variable {M Ev : Type}

/-- Where the shutdown task is. -/
inductive ShutdownTask
  /-- Waiting for the token to be cancelled. -/
  | waiting
  /-- Before `root_senders.pop()`. -/
  | stopping
  /-- Waiting for the reply of the actor of a call. -/
  | awaiting (call : Nat) (answered : Bool)
  /-- Returned because a send has failed. -/
  | returned
  /-- The event is sent. -/
  | finished
deriving DecidableEq

/-- The system with its shutdown task.  `created` has the root actors whose
`create_root_actor` has still to push the stop sender, and `rootSenders` has the
last pushed one first. -/
structure Shutdown (M Ev : Type) where
  system : System M Ev
  created : List Nat
  rootSenders : List Nat
  task : ShutdownTask

inductive ShutdownInput (M Ev : Type)
  | system (input : SystemInput M Ev)
  | push (call : Nat)
  | cancelled
  | pop
  | answered

inductive ShutdownObs (M Ev : Type)
  | system (obs : SystemObs M Ev)
  /-- `create_root_actor` has pushed the sender and returns `Ok`. -/
  | pushed (call : Nat)
  | requested (call : Nat)
  /-- The send has failed. -/
  | closed (call : Nat)
  | answered (call : Nat)
  /-- `SystemEvent::StopSystem` is sent. -/
  | stopSystem
deriving DecidableEq

/-- A request of the shutdown task. -/
def SystemInput.isShutdownRequest : SystemInput M Ev → Bool
  | .run _ (.arrival (.stop request)) => request.origin == .system
  | _ => false

/-- The reply of an actor to the request of the shutdown task. -/
def SystemObs.isReplyOf (call : Nat) : SystemObs M Ev → Bool
  | .does other _ (.acknowledged request) =>
      other == call && request.origin == .system
  | _ => false

namespace System

/-- The calls of `create_root_actor` that are told `true` in a step. -/
def startedRoots (s : System M Ev) (o : List (SystemObs M Ev)) : List Nat :=
  o.filterMap fun
    | .does call _ (.signal true) =>
        match s.creations call with
        | .running _ cfg _ => if cfg.hasParent then none else some call
        | _ => none
    | _ => none

end System

/-- The task hears the reply it waits for. -/
def ShutdownTask.hear (task : ShutdownTask) (o : List (SystemObs M Ev)) :
    ShutdownTask :=
  match task with
  | .awaiting call false => .awaiting call (o.any (SystemObs.isReplyOf call))
  | _ => task

/-- The task holds the lock of `root_senders`. -/
def ShutdownTask.holdsLock : ShutdownTask → Bool
  | .stopping => true
  | .awaiting _ _ => true
  | _ => false

namespace Shutdown

/-- `SystemRef::new`. -/
def new : Shutdown M Ev := ⟨System.empty, [], [], .waiting⟩

/-- The sender of a root actor is popped and the request is sent. -/
def pop (s : Shutdown M Ev) :
    Option (Shutdown M Ev × List (ShutdownObs M Ev)) :=
  match s.rootSenders with
  | [] => some ({ s with task := .finished }, [.stopSystem])
  | call :: rest =>
      if s.system.channelOpen call then
        (s.system.step (.run call (.arrival (.stop ⟨.system, some call⟩)))).map
          fun t => ({ s with
            system := t.1, rootSenders := rest, task := .awaiting call false },
              [.requested call])
      else
        -- `return`: neither the other actors nor the runner hear of it
        some ({ s with rootSenders := rest, task := .returned }, [.closed call])

/-- A step of the system, of a creation or of the task. -/
def step (s : Shutdown M Ev) :
    ShutdownInput M Ev → Option (Shutdown M Ev × List (ShutdownObs M Ev))
  | .system input =>
      if input.isShutdownRequest then none
      else (s.system.step input).map fun t =>
        ({ s with
            system := t.1
            created := s.created ++ t.1.startedRoots t.2
            task := s.task.hear t.2 },
          t.2.map .system)
  | .push call =>
      if call ∈ s.created ∧ s.task.holdsLock = false then
        some ({ s with
            created := s.created.erase call
            rootSenders := call :: s.rootSenders },
          [.pushed call])
      else none
  | .cancelled =>
      if s.task = .waiting then some ({ s with task := .stopping }, []) else none
  | .pop => if s.task = .stopping then s.pop else none
  | .answered =>
      match s.task with
      | .awaiting call answered =>
          -- a runner that ends drops the channel of the reply
          if answered ∨ s.system.channelOpen call = false then
            some ({ s with task := .stopping }, [.answered call])
          else none
      | _ => none

/-- The steps of the system with its task, by name. -/
inductive Transition (s : Shutdown M Ev) :
    ShutdownInput M Ev → Shutdown M Ev → List (ShutdownObs M Ev) → Prop
  | system (input t o) (hstep : s.system.step input = some (t, o)) :
      Transition s (.system input)
        { s with
          system := t
          created := s.created ++ t.startedRoots o
          task := s.task.hear o }
        (o.map .system)
  | pushes (call) (hcreated : call ∈ s.created)
      (hfree : s.task.holdsLock = false) :
      Transition s (.push call)
        { s with
          created := s.created.erase call
          rootSenders := call :: s.rootSenders }
        [.pushed call]
  | takesLock (htask : s.task = .waiting) :
      Transition s .cancelled { s with task := .stopping } []
  | finishes (htask : s.task = .stopping) (hsenders : s.rootSenders = []) :
      Transition s .pop { s with task := .finished } [.stopSystem]
  | requests (call rest t o) (htask : s.task = .stopping)
      (hsenders : s.rootSenders = call :: rest)
      (hopen : s.system.channelOpen call = true)
      (hsent : s.system.step (.run call (.arrival (.stop ⟨.system, some call⟩))) =
        some (t, o)) :
      Transition s .pop
        { s with
          system := t, rootSenders := rest, task := .awaiting call false }
        [.requested call]
  | returns (call rest) (htask : s.task = .stopping)
      (hsenders : s.rootSenders = call :: rest)
      (hclosed : s.system.channelOpen call = false) :
      Transition s .pop { s with rootSenders := rest, task := .returned }
        [.closed call]
  | goesOn (call answered) (htask : s.task = .awaiting call answered)
      (hanswered : answered = true ∨ s.system.channelOpen call = false) :
      Transition s .answered { s with task := .stopping } [.answered call]

theorem step_transition {s t : Shutdown M Ev} {i : ShutdownInput M Ev}
    {o : List (ShutdownObs M Ev)} (h : s.step i = some (t, o)) :
    Transition s i t o := by
  cases i with
  | system input =>
      simp only [step] at h
      split at h
      · contradiction
      · obtain ⟨⟨t', o'⟩, hstep, heq⟩ := Option.map_eq_some_iff.mp h
        cases heq
        exact .system input t' o' hstep
  | push call =>
      simp only [step] at h
      split at h
      case isTrue hpush =>
        cases h
        exact .pushes call hpush.1 hpush.2
      case isFalse => contradiction
  | cancelled =>
      simp only [step] at h
      split at h
      case isTrue htask =>
        cases h
        exact .takesLock htask
      case isFalse => contradiction
  | pop =>
      simp only [step] at h
      split at h
      case isTrue htask =>
        unfold pop at h
        split at h
        case h_1 hsenders =>
          cases h
          exact .finishes htask hsenders
        case h_2 call rest hsenders =>
          split at h
          case isTrue hopen =>
            obtain ⟨⟨t', o'⟩, hsent, heq⟩ := Option.map_eq_some_iff.mp h
            cases heq
            exact .requests call rest t' o' htask hsenders hopen hsent
          case isFalse hclosed =>
            cases h
            exact .returns call rest htask hsenders (by simpa using hclosed)
      case isFalse => contradiction
  | answered =>
      simp only [step] at h
      split at h
      case h_1 call answered htask =>
        split at h
        case isTrue hanswered =>
          cases h
          exact .goesOn call answered htask hanswered
        case isFalse => contradiction
      case h_2 => contradiction

end Shutdown

/-- What the shutdown task does itself. -/
def ShutdownObs.isTask : ShutdownObs M Ev → Bool
  | .system _ => false
  | .pushed _ => false
  | _ => true

namespace Shutdown

/-- What the task has done in a history. -/
def taskLog (seen : List (ShutdownObs M Ev)) : List (ShutdownObs M Ev) :=
  seen.filter ShutdownObs.isTask

/-- The root actors of a history whose senders were pushed, in that order. -/
def rootsCreated (seen : List (ShutdownObs M Ev)) : List Nat :=
  seen.filterMap fun
    | .pushed call => some call
    | _ => none

/-- **A complete shutdown** of a list of actors: each of them is sent a request
and its reply is waited for, or its channel is closed already; then the event
is sent, and nothing else is done. -/
inductive StopsAll : List Nat → List (ShutdownObs M Ev) → Prop
  | done : StopsAll [] [.stopSystem]
  | stops (call rest log) (hrest : StopsAll rest log) :
      StopsAll (call :: rest) (.requested call :: .answered call :: log)
  | skips (call rest log) (hrest : StopsAll rest log) :
      StopsAll (call :: rest) (.closed call :: log)

@[simp] theorem stopsAll_nil {log : List (ShutdownObs M Ev)} :
    StopsAll [] log ↔ log = [.stopSystem] := by
  constructor
  · rintro ⟨⟩
    rfl
  · rintro rfl
    exact .done

theorem not_stopsAll_nil (calls : List Nat) :
    ¬ StopsAll calls ([] : List (ShutdownObs M Ev)) := by
  rintro ⟨⟩

theorem stopsAll_requested {call other : Nat} {rest : List Nat}
    {log : List (ShutdownObs M Ev)} :
    StopsAll (call :: rest) (.requested other :: log) ↔
      other = call ∧ ∃ log', log = .answered call :: log' ∧ StopsAll rest log' := by
  constructor
  · rintro ⟨⟩
    exact ⟨rfl, _, rfl, by assumption⟩
  · rintro ⟨rfl, log', rfl, hrest⟩
    exact .stops _ _ _ hrest

theorem stopsAll_closed {call other : Nat} {rest : List Nat}
    {log : List (ShutdownObs M Ev)} :
    StopsAll (call :: rest) (.closed other :: log) ↔
      other = call ∧ StopsAll rest log := by
  constructor
  · rintro ⟨⟩
    exact ⟨rfl, by assumption⟩
  · rintro ⟨rfl, hrest⟩
    exact .skips _ _ _ hrest

/-- The sender that is popped belongs to an actor that still runs. -/
def PopsOpen (s : Shutdown M Ev) : ShutdownInput M Ev → Prop
  | .pop => ∀ call rest, s.rootSenders = call :: rest →
      s.system.channelOpen call = true
  | _ => True

/-- What is left to do for a complete shutdown. -/
def Completes (s : Shutdown M Ev) (log : List (ShutdownObs M Ev)) : Prop :=
  match s.task with
  | .waiting => False
  | .stopping => StopsAll s.rootSenders log
  | .awaiting call _ =>
      ∃ log', log = .answered call :: log' ∧ StopsAll s.rootSenders log'
  | .returned => False
  | .finished => log = []

theorem taskLog_append (xs ys : List (ShutdownObs M Ev)) :
    taskLog (xs ++ ys) = taskLog xs ++ taskLog ys :=
  List.filter_append xs ys

theorem taskLog_system (o : List (SystemObs M Ev)) :
    taskLog (o.map .system) = [] := by
  simp [taskLog, ShutdownObs.isTask]

/-- The task at the end of its life. -/
def Ended (s : Shutdown M Ev) : Prop :=
  s.task = .returned ∨ s.task = .finished

/-- What one step of the task does to a complete shutdown. -/
theorem completes_step {s t : Shutdown M Ev} {i : ShutdownInput M Ev}
    {o log : List (ShutdownObs M Ev)} (hstarted : s.task ≠ .waiting)
    (hpops : s.PopsOpen i) (ht : Transition s i t o) :
    s.Completes (taskLog o ++ log) ↔ t.Completes log := by
  cases ht with
  | system input t o hstep =>
      rw [taskLog_system, List.nil_append]
      unfold Completes ShutdownTask.hear
      cases htask : s.task with
      | awaiting call answered => cases answered <;> rfl
      | _ => rfl
  | pushes call hcreated hfree =>
      show s.Completes log ↔ _
      unfold Completes
      cases htask : s.task <;> simp_all [ShutdownTask.holdsLock]
  | takesLock htask => contradiction
  | finishes htask hsenders =>
      show s.Completes (.stopSystem :: log) ↔ _
      simp [Completes, htask, hsenders]
  | requests call rest t o htask hsenders hopen hsent =>
      show s.Completes (.requested call :: log) ↔ _
      simp [Completes, htask, hsenders, stopsAll_requested]
  | returns call rest htask hsenders hclosed =>
      rw [hpops call rest hsenders] at hclosed
      contradiction
  | goesOn call answered htask hanswered =>
      show s.Completes (.answered call :: log) ↔ _
      simp [Completes, htask]

/-- The task returns early only at a closed sender. -/
theorem task_step {s t : Shutdown M Ev} {i : ShutdownInput M Ev}
    {o : List (ShutdownObs M Ev)} (hstarted : s.task ≠ .waiting)
    (hreturned : s.task ≠ .returned) (hpops : s.PopsOpen i)
    (ht : Transition s i t o) : t.task ≠ .waiting ∧ t.task ≠ .returned := by
  cases ht with
  | system input t o hstep =>
      unfold ShutdownTask.hear
      cases htask : s.task with
      | awaiting call answered => cases answered <;> simp
      | waiting => contradiction
      | returned => contradiction
      | _ => simp
  | pushes => exact ⟨hstarted, hreturned⟩
  | returns call rest htask hsenders hclosed =>
      rw [hpops call rest hsenders] at hclosed
      contradiction
  | _ => simp

/-- As long as no closed sender is popped, the task does not return early, and
what it has done is the beginning of a complete shutdown. -/
theorem completes_run {s t : Shutdown M Ev} {is : List (ShutdownInput M Ev)}
    {os : List (ShutdownObs M Ev)} (hstarted : s.task ≠ .waiting)
    (hreturned : s.task ≠ .returned) (hmeet : StepsMeet step PopsOpen s is)
    (hrun : execute step s is = some (t, os)) :
    t.task ≠ .waiting ∧ t.task ≠ .returned ∧
      ∀ log, s.Completes (taskLog os ++ log) ↔ t.Completes log := by
  have hboth := execute_history (G := PopsOpen)
    (P := fun (t : Shutdown M Ev) os => t.task ≠ .waiting ∧ t.task ≠ .returned ∧
      ∀ log, s.Completes (taskLog os ++ log) ↔ t.Completes log)
    (by
      rintro t os i u o ⟨hstarted, hreturned, hlog⟩ hpops hstep
      have ht := step_transition hstep
      obtain ⟨hstarted', hreturned'⟩ := task_step hstarted hreturned hpops ht
      refine ⟨hstarted', hreturned', fun log => ?_⟩
      rw [taskLog_append, List.append_assoc, hlog, completes_step hstarted hpops ht])
    [] ⟨hstarted, hreturned, fun _ => Iff.rfl⟩ hmeet hrun
  simpa using hboth

/-- The senders are those pushed so far, the last one first. -/
theorem rootSenders_of_execute {s : Shutdown M Ev}
    {inputs : List (ShutdownInput M Ev)} {seen : List (ShutdownObs M Ev)}
    (hrun : execute step new inputs = some (s, seen)) (htask : s.task = .waiting) :
    s.rootSenders = (rootsCreated seen).reverse := by
  refine execute_history (G := fun _ _ => True)
    (P := fun (s : Shutdown M Ev) seen => s.task = .waiting →
      s.rootSenders = (rootsCreated seen).reverse)
    ?_ [] (fun _ => rfl) (stepsMeet_true _ inputs) hrun htask
  intro s seen i t o hold _ hstep htask
  cases step_transition hstep with
  | system input t o hstep =>
      have hwaiting : s.task = .waiting := by
        simp only [ShutdownTask.hear] at htask
        split at htask
        · contradiction
        · exact htask
      simpa [rootsCreated] using hold hwaiting
  | pushes call =>
      simpa [rootsCreated] using hold htask
  | _ => contradiction

end Shutdown

end Actor
end Rush
