import Rush.Actor.ShutdownRoots
import Rush.Foundation.Interleaving

/-!
# The runner of the system

`SystemRunner::run` of `actor/src/system.rs`: one `select!` with a single branch
that waits for `StopSystem`.  The sender of the channel is owned by the shutdown
task; when that task is gone without having sent the event, the pattern of the
branch does not match, no branch is left, and `select!` panics.
-/

namespace Rush
namespace Actor

open Foundation

variable {M Ev : Type}

/-- System-level events. -/
inductive SystemEvent
  | stopSystem
deriving DecidableEq

/-- Where `SystemRunner::run` is. -/
inductive SystemRunnerPhase
  /-- `run` has not been called. -/
  | created
  | receiving
  | returned
  | panicked
deriving DecidableEq

/-- The system with its shutdown task and its runner. -/
structure SystemRunner (M Ev : Type) where
  shutdown : Shutdown M Ev
  events : List SystemEvent
  phase : SystemRunnerPhase

inductive SystemRunnerInput (M Ev : Type)
  | shutdown (input : ShutdownInput M Ev)
  | run
  | receive

inductive SystemRunnerObs (M Ev : Type)
  | shutdown (obs : ShutdownObs M Ev)
  | returned
  | panicked

/-- The events that the shutdown task sends. -/
def ShutdownObs.event? : ShutdownObs M Ev → Option SystemEvent
  | .stopSystem => some .stopSystem
  | _ => none

namespace SystemRunner

/-- `ActorSystem::create`. -/
def create : SystemRunner M Ev := ⟨Shutdown.new, [], .created⟩

/-- The shutdown task is gone, and with it the sender of the events. -/
def senderDropped (s : SystemRunner M Ev) : Bool :=
  s.shutdown.task == .returned || s.shutdown.task == .finished

def step (s : SystemRunner M Ev) :
    SystemRunnerInput M Ev →
      Option (SystemRunner M Ev × List (SystemRunnerObs M Ev))
  | .shutdown input =>
      (s.shutdown.step input).map fun (shutdown, o) =>
        ({ s with
            shutdown := shutdown
            events := s.events ++ o.filterMap ShutdownObs.event? },
          o.map .shutdown)
  | .run =>
      if s.phase = .created then some ({ s with phase := .receiving }, []) else none
  | .receive =>
      match s.phase, s.events with
      | .receiving, .stopSystem :: rest =>
          some ({ s with events := rest, phase := .returned }, [.returned])
      | .receiving, [] =>
          if s.senderDropped then
            some ({ s with phase := .panicked }, [.panicked])
          else none
      | _, _ => none

/-- The steps of the machine, by name. -/
inductive Transition (s : SystemRunner M Ev) :
    SystemRunnerInput M Ev → SystemRunner M Ev → List (SystemRunnerObs M Ev) → Prop
  | shutdown (input t o) (hstep : s.shutdown.step input = some (t, o)) :
      Transition s (.shutdown input)
        { s with
          shutdown := t
          events := s.events ++ o.filterMap ShutdownObs.event? }
        (o.map .shutdown)
  | runs (hphase : s.phase = .created) :
      Transition s .run { s with phase := .receiving } []
  | returns (rest) (hphase : s.phase = .receiving)
      (hevents : s.events = .stopSystem :: rest) :
      Transition s .receive { s with events := rest, phase := .returned } [.returned]
  | panics (hphase : s.phase = .receiving) (hevents : s.events = [])
      (hdropped : s.senderDropped = true) :
      Transition s .receive { s with phase := .panicked } [.panicked]

theorem step_transition {s t : SystemRunner M Ev} {i : SystemRunnerInput M Ev}
    {o : List (SystemRunnerObs M Ev)} (h : s.step i = some (t, o)) :
    Transition s i t o := by
  cases i with
  | shutdown input =>
      obtain ⟨⟨t', o'⟩, hstep, heq⟩ := Option.map_eq_some_iff.mp h
      cases heq
      exact .shutdown input t' o' hstep
  | run =>
      simp only [step] at h
      split at h
      case isTrue hphase =>
        cases h
        exact .runs hphase
      case isFalse => contradiction
  | receive =>
      simp only [step] at h
      split at h
      case h_1 rest hphase hevents =>
        cases h
        exact .returns rest hphase hevents
      case h_2 hphase hevents =>
        split at h
        case isTrue hdropped =>
          cases h
          exact .panics hphase hevents hdropped
        case isFalse => contradiction
      case h_3 => contradiction

/-- The shutdown task as a part of the system. -/
def shutdownTask : Component (SystemRunner M Ev) (Shutdown M Ev)
    (SystemRunnerInput M Ev) (ShutdownInput M Ev)
    (SystemRunnerObs M Ev) (ShutdownObs M Ev) where
  view s := s.shutdown
  input
    | .shutdown input => some input
    | _ => none
  observation
    | .shutdown obs => some obs
    | _ => none
  step := Shutdown.step

theorem follows_shutdown {s t : SystemRunner M Ev} {i : SystemRunnerInput M Ev}
    {o : List (SystemRunnerObs M Ev)} (h : s.step i = some (t, o)) :
    shutdownTask.Follows s i t o := by
  cases step_transition h with
  | shutdown input t' o' hstep =>
      have hobs : (o'.map SystemRunnerObs.shutdown).filterMap
          (shutdownTask (M := M)).observation = o' := by
        rw [List.filterMap_map]
        exact List.filterMap_some
      show Shutdown.step s.shutdown input = some (t', _)
      rw [hobs, hstep]
  | runs | returns | panics => exact ⟨rfl, rfl⟩

end SystemRunner

namespace Shutdown

variable {s t : Shutdown M Ev} {i : ShutdownInput M Ev} {o : List (ShutdownObs M Ev)}

/-- The event is sent when the task finishes, and a task that is gone stays so. -/
theorem event_of_transition (h : Transition s i t o) :
    (o.filterMap ShutdownObs.event? = [.stopSystem] ∧ s.task = .stopping ∧
        t.task = .finished) ∨
      (o.filterMap ShutdownObs.event? = [] ∧
        (t.task = .finished ↔ s.task = .finished) ∧
        (s.task = .returned → t.task = .returned)) := by
  cases h with
  | system input t' o' hstep =>
      right
      refine ⟨by simp [ShutdownObs.event?], ?_⟩
      unfold ShutdownTask.hear
      cases htask : s.task with
      | awaiting call answered => cases answered <;> simp
      | _ => simp
  | pushes call => exact Or.inr ⟨rfl, Iff.rfl, fun htask => htask⟩
  | takesLock htask => exact Or.inr ⟨rfl, by simp [htask], by simp [htask]⟩
  | finishes htask => exact Or.inl ⟨rfl, htask, rfl⟩
  | requests call rest t' o' htask => exact Or.inr ⟨rfl, by simp [htask], by simp [htask]⟩
  | returns call rest htask => exact Or.inr ⟨rfl, by simp [htask], by simp [htask]⟩
  | goesOn call answered htask => exact Or.inr ⟨rfl, by simp [htask], by simp [htask]⟩

/-- Once the token is cancelled the task returns early just when it pops a closed
sender. -/
theorem returned_step (hstarted : s.task ≠ .waiting) (h : Transition s i t o) :
    t.task ≠ .waiting ∧ (t.task = .returned ↔ s.task = .returned ∨ ¬ s.PopsOpen i) := by
  by_cases hpops : s.PopsOpen i
  · by_cases hreturned : s.task = .returned
    · rcases event_of_transition h with ⟨-, hstopping, -⟩ | ⟨-, -, hkept⟩
      · rw [hstopping] at hreturned
        contradiction
      · simp [hreturned, hkept hreturned]
    · obtain ⟨hwaiting, hnot⟩ := task_step hstarted hreturned hpops h
      simp [hwaiting, hnot, hreturned, hpops]
  · cases h with
    | returns => simp [hpops]
    | finishes htask hsenders => simp [PopsOpen, hsenders] at hpops
    | requests call rest t' o' htask hsenders hopen =>
        simp [PopsOpen, hsenders, hopen] at hpops
    | _ => exact absurd trivial hpops

/-- From the cancellation on: the task has not returned early if and only if all
senders that it popped were open, and then, when it has ended, every root actor
whose sender it found was asked to stop and heard. -/
theorem shutdown_of_execute {inputs later : List (ShutdownInput M Ev)}
    {seen os : List (ShutdownObs M Ev)}
    (hrun : execute step new inputs = some (s, seen))
    (hlater : execute step s (.cancelled :: later) = some (t, os)) :
    (t.task ≠ .returned ↔ StepsMeet step PopsOpen s (.cancelled :: later)) ∧
      (t.task = .finished → StopsAll (rootsCreated seen).reverse (taskLog os)) := by
  obtain ⟨s', o, os', hstep, hrest, rfl⟩ := execute_cons_eq_some.mp hlater
  rw [stepsMeet_cons hstep]
  cases step_transition hstep with
  | takesLock htask =>
      have hreturned := execute_avoids_iff (G := PopsOpen)
        (I := fun s : Shutdown M Ev => s.task ≠ .waiting)
        (D := fun s : Shutdown M Ev => s.task = .returned)
        (fun s i t o hstarted hmove =>
          returned_step hstarted (step_transition hmove))
        (by simp) (by simp) hrest
      refine ⟨?_, fun hfinished => ?_⟩
      · simp [hreturned, PopsOpen]
      · have hopen := hreturned.mp (by simp [hfinished])
        obtain ⟨-, -, hcompletes⟩ := completes_run
          (s := { s with task := .stopping }) (by simp) (by simp) hopen hrest
        have hlog := (hcompletes []).mpr (by simp [Completes, hfinished])
        rw [← rootSenders_of_execute hrun htask]
        simpa [Completes, taskLog] using hlog

end Shutdown

namespace SystemRunner

variable {s t : SystemRunner M Ev} {i : SystemRunnerInput M Ev}
  {o seen : List (SystemRunnerObs M Ev)}

/-- The event is in the channel from the end of the task until it is taken, and a
panic comes after an early return. -/
structure Coupled (s : SystemRunner M Ev) : Prop where
  queued : s.events =
    if s.shutdown.task = .finished ∧ (s.phase = .created ∨ s.phase = .receiving)
    then [.stopSystem] else []
  returned : s.phase = .returned → s.shutdown.task = .finished
  panicked : s.phase = .panicked → s.shutdown.task = .returned

theorem Coupled.step (h : s.Coupled) (hmove : s.step i = some (t, o)) :
    t.Coupled := by
  obtain ⟨hqueued, hreturned, hpanicked⟩ := h
  cases step_transition hmove with
  | shutdown input t' o' hstep =>
      rcases Shutdown.event_of_transition (Shutdown.step_transition hstep) with
        ⟨hevent, hstopping, hfinished⟩ | ⟨hnone, hsame, hkept⟩
      · -- the runner has neither returned nor panicked before
        have hphase : s.phase = .created ∨ s.phase = .receiving := by
          cases hphase : s.phase with
          | created => exact Or.inl rfl
          | receiving => exact Or.inr rfl
          | returned =>
              have htask := hreturned hphase
              rw [hstopping] at htask
              contradiction
          | panicked =>
              have htask := hpanicked hphase
              rw [hstopping] at htask
              contradiction
        refine ⟨?_, fun _ => hfinished, fun hp => ?_⟩
        · rw [hevent, hqueued]
          simp [hstopping, hfinished, hphase]
        · rcases hphase with hphase | hphase <;> simp [hphase] at hp
      · refine ⟨?_, fun hp => hsame.mpr (hreturned hp), fun hp => hkept (hpanicked hp)⟩
        rw [hnone, List.append_nil, hqueued]
        simp only [hsame]
  | runs hphase =>
      refine ⟨?_, by simp, by simp⟩
      rw [hqueued]
      simp [hphase]
  | returns rest hphase hevents =>
      rw [hqueued] at hevents
      split at hevents
      case isTrue hboth =>
        cases hevents
        exact ⟨by simp, fun _ => hboth.1, by simp⟩
      case isFalse => contradiction
  | panics hphase hevents hdropped =>
      rw [hqueued] at hevents
      refine ⟨by simp [hqueued, hevents], by simp, fun _ => ?_⟩
      have hnot : s.shutdown.task ≠ .finished := by
        intro hfinished
        simp [hfinished, hphase] at hevents
      simpa [senderDropped, hnot] using hdropped

theorem coupled_of_execute {inputs : List (SystemRunnerInput M Ev)}
    (hrun : execute step create inputs = some (s, seen)) : s.Coupled :=
  execute_invariant (fun _ _ _ _ h hmove => h.step hmove)
    ⟨by simp [create, Shutdown.new], by simp [create], by simp [create]⟩ hrun

/-- What the shutdown task has done in a run. -/
abbrev shutdownObs (seen : List (SystemRunnerObs M Ev)) : List (ShutdownObs M Ev) :=
  seen.filterMap shutdownTask.observation

/-- The inputs of the shutdown task in a run. -/
abbrev shutdownInputs (inputs : List (SystemRunnerInput M Ev)) :
    List (ShutdownInput M Ev) :=
  inputs.filterMap shutdownTask.input

theorem execute_shutdown {inputs : List (SystemRunnerInput M Ev)}
    (hrun : execute step s inputs = some (t, seen)) :
    execute Shutdown.step s.shutdown (shutdownInputs inputs) =
      some (t.shutdown, shutdownObs seen) :=
  shutdownTask.execute_project (G := fun _ => True)
    (fun _ _ _ _ _ h => follows_shutdown h) (fun _ _ => trivial) hrun

/-- The runner of the system waits for the end of the task, and then goes on. -/
theorem receive_isSome (h : s.Coupled) (hphase : s.phase = .receiving) :
    (s.step .receive).isSome ↔ s.shutdown.Ended := by
  unfold Shutdown.Ended
  have hqueued := h.queued
  by_cases hfinished : s.shutdown.task = .finished
  · simp [step, hphase, hqueued, hfinished]
  · have hempty : s.events = [] := by simp [hqueued, hfinished]
    by_cases hreturned : s.shutdown.task = .returned
    · simp [step, hphase, hempty, senderDropped, hreturned]
    · simp [step, hphase, hempty, senderDropped, hfinished, hreturned]

/-- **The end of `SystemRunner::run`.**  In every run in which the token is
cancelled: `run` returns only when every root actor whose sender was pushed before
the task took the lock was asked to stop, the last one first, and was heard; it
panics only when the shutdown task has popped the sender of an actor that had
ended, so that it has left the others running; and while it waits it can go on if
and only if that task has ended. -/
theorem system_runner_ends {inputs later : List (SystemRunnerInput M Ev)}
    {earlier : List (SystemRunnerObs M Ev)}
    (hrun : execute step create inputs = some (s, earlier))
    (hlater : execute step s (.shutdown .cancelled :: later) = some (t, seen)) :
    (t.phase = .returned →
      Shutdown.StopsAll (Shutdown.rootsCreated (shutdownObs earlier)).reverse
          (Shutdown.taskLog (shutdownObs seen)) ∧
        StepsMeet Shutdown.step Shutdown.PopsOpen s.shutdown
          (.cancelled :: shutdownInputs later)) ∧
    (t.phase = .panicked →
      ¬ StepsMeet Shutdown.step Shutdown.PopsOpen s.shutdown
          (.cancelled :: shutdownInputs later)) ∧
    (t.phase = .receiving → ((t.step .receive).isSome ↔ t.shutdown.Ended)) := by
  have hcoupled := coupled_of_execute
    (execute_append.mpr ⟨s, earlier, seen, hrun, hlater, rfl⟩)
  obtain ⟨hopen, hcomplete⟩ :=
    Shutdown.shutdown_of_execute (execute_shutdown hrun) (execute_shutdown hlater)
  refine ⟨fun hphase => ?_, fun hphase hmeet => ?_, receive_isSome hcoupled⟩
  · have hfinished := hcoupled.returned hphase
    exact ⟨hcomplete hfinished, hopen.mp (by simp [hfinished])⟩
  · exact hopen.mpr hmeet (hcoupled.panicked hphase)

/-- Two root actors run, and `run` has been called. -/
def twoRunning : List (SystemRunnerInput Unit Unit) :=
  Shutdown.twoRoots.map .shutdown ++ [.run]

/-- Both actors are stopped, and `run` returns. -/
def bothStop : List (SystemRunnerInput Unit Unit) :=
  (Shutdown.popped 1 ++ Shutdown.popped 0).map .shutdown ++ [.shutdown .pop, .receive]

/-- The actor created last ends before the token is cancelled. -/
def lastEnds : List (SystemRunnerInput Unit Unit) :=
  (System.stopping 1 ++ System.terminating 1).map fun input =>
    .shutdown (.system input)

/-- Cancelled with both actors running, `run` returns; cancelled with the last one
gone, it panics. -/
theorem twoRunning_ends :
    (∃ s earlier t seen, execute step create twoRunning = some (s, earlier) ∧
      execute step s (.shutdown .cancelled :: bothStop) = some (t, seen) ∧
      t.phase = .returned ∧
      Shutdown.StopsAll [1, 0] (Shutdown.taskLog (shutdownObs seen))) ∧
    ∃ s earlier t seen,
      execute step create (twoRunning ++ lastEnds) = some (s, earlier) ∧
      execute step s (.shutdown .cancelled :: [.shutdown .pop, .receive]) =
        some (t, seen) ∧
      t.phase = .panicked ∧
      ¬ StepsMeet Shutdown.step Shutdown.PopsOpen s.shutdown [.cancelled, .pop] := by
  constructor
  · obtain ⟨⟨t, all⟩, hall⟩ := Option.isSome_iff_exists.mp
      (show (execute step create
        (twoRunning ++ .shutdown .cancelled :: bothStop)).isSome from rfl)
    have hphase : t.phase = .returned := by
      have hend : (execute step create
          (twoRunning ++ .shutdown .cancelled :: bothStop)).map (·.1.phase) =
        some .returned := rfl
      rw [hall] at hend
      exact Option.some.inj hend
    obtain ⟨s, earlier, seen, hrun, hlater, rfl⟩ := execute_append.mp hall
    have hroots : Shutdown.rootsCreated (shutdownObs earlier) = [0, 1] := by
      cases hrun
      rfl
    have hstops := ((system_runner_ends hrun hlater).1 hphase).1
    rw [hroots] at hstops
    exact ⟨s, earlier, t, seen, hrun, hlater, hphase, hstops⟩
  · obtain ⟨⟨t, all⟩, hall⟩ := Option.isSome_iff_exists.mp
      (show (execute step create ((twoRunning ++ lastEnds) ++
        .shutdown .cancelled :: [.shutdown .pop, .receive])).isSome from rfl)
    have hphase : t.phase = .panicked := by
      have hend : (execute step create ((twoRunning ++ lastEnds) ++
          .shutdown .cancelled :: [.shutdown .pop, .receive])).map (·.1.phase) =
        some .panicked := rfl
      rw [hall] at hend
      exact Option.some.inj hend
    obtain ⟨s, earlier, seen, hrun, hlater, rfl⟩ := execute_append.mp hall
    exact ⟨s, earlier, t, seen, hrun, hlater, hphase,
      (system_runner_ends hrun hlater).2.1 hphase⟩

end SystemRunner

end Actor
end Rush
