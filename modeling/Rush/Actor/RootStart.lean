import Rush.Actor.StartSteps
import Rush.Actor.RestartLiveness

/-!
# The start of a root actor

What `create_root_actor` returns, and what has happened then.  The runner that
the call has started goes its way to the start signal; the registry entry is
there until the runner removes it, provided that no other creation uses the
path.
-/

namespace Rush
namespace Actor

open Foundation

variable {M Ev : Type}

/-- A step that takes the start of a call further. -/
def SystemInput.isStartStep (call : Nat) : SystemInput M Ev → Bool
  | .run id input => id == call && input.isStartStep
  | _ => false

namespace System

/-- The start hooks of a call return these results. -/
def ReturnsResults (call : Nat) (results : Nat → Except ActorError Unit)
    (s : System M Ev) : SystemInput M Ev → Prop
  | .run id input => id = call → ∀ path cfg r,
      s.creations call = .running path cfg r → r.ReturnsResults results input
  | _ => True

variable {s t : System M Ev} {inputs before : List (SystemInput M Ev)}
  {i : SystemInput M Ev} {seen o : List (SystemObs M Ev)} {call : Nat}
  {path : ActorPath} {cfg : RunnerConfig} {r : Runner M Ev}
  {results : Nat → Except ActorError Unit}

/-- The start of a root actor, with the steps that it has taken. -/
structure RootLog (call : Nat) (results : Nat → Except ActorError Unit)
    (before : List (SystemInput M Ev)) (s : System M Ev)
    (seen : List (SystemObs M Ev)) : Prop where
  idle : (∀ path cfg r, s.creations call ≠ .running path cfg r) →
    before.countP (SystemInput.isStartStep call) = 0
  running : ∀ path cfg r, s.creations call = .running path cfg r →
    cfg.hasParent = false →
      r.StartLog cfg results (observed call seen)
        (before.countP (SystemInput.isStartStep call))

/-- A call that does not run has no observations. -/
theorem observed_of_idle (hrun : execute step empty inputs = some (s, seen))
    (hidle : ∀ path cfg r, s.creations call ≠ .running path cfg r) :
    observed call seen = [] := by
  rw [List.eq_nil_iff_forall_not_mem]
  intro x hx
  obtain ⟨path, hmem⟩ := mem_observed.mp hx
  exact (runsIn_of_execute hrun call).not_does hidle path x hmem

/-- A step of another call does not matter for the log of a call. -/
theorem RootLog.of_other (h : RootLog call results before s seen)
    (hcall : t.creations call = s.creations call)
    (hobserved : observed call o = []) (hother : i.isStartStep call = false) :
    RootLog call results (before ++ [i]) t (seen ++ o) := by
  have hcount : (before ++ [i]).countP (SystemInput.isStartStep call) =
      before.countP (SystemInput.isStartStep call) := by
    simp [List.countP_append, hother]
  refine ⟨fun hidle => ?_, fun path cfg r hrunning hroot => ?_⟩
  · rw [hcount]
    exact h.idle (by simpa [hcall] using hidle)
  · rw [hcount, observed_append, hobserved, List.append_nil]
    exact h.running path cfg r (hcall ▸ hrunning) hroot

/-- Nor does the step of a call that does not run before or after it. -/
theorem RootLog.of_idle (h : RootLog call results before s seen)
    (hidle : ∀ path cfg r, s.creations call ≠ .running path cfg r)
    (hidle' : ∀ path cfg r, t.creations call ≠ .running path cfg r)
    (hother : i.isStartStep call = false) :
    RootLog call results (before ++ [i]) t (seen ++ o) :=
  ⟨fun _ => by simp [List.countP_append, hother, h.idle hidle],
    fun path cfg r hrunning => absurd hrunning (hidle' path cfg r)⟩

theorem RootLog.step (hbefore : execute step empty before = some (s, seen))
    (h : RootLog call results before s seen)
    (hmeet : s.ReturnsResults call results i) (hstep : s.step i = some (t, o)) :
    RootLog call results (before ++ [i]) t (seen ++ o) := by
  cases step_transition hstep with
  | refuses id path cfg hid hexists =>
      by_cases heq : id = call
      · subst heq
        exact h.of_idle (by simp [hid]) (by simp) rfl
      · exact h.of_other (by simp [Ne.symm heq]) rfl rfl
  | checks id path cfg hid hfree =>
      by_cases heq : id = call
      · subst heq
        exact h.of_idle (by simp [hid]) (by simp) rfl
      · exact h.of_other (by simp [Ne.symm heq]) rfl rfl
  | inserts id path cfg hid =>
      by_cases heq : id = call
      · subst heq
        have hidle : ∀ path' cfg' r', s.creations id ≠ .running path' cfg' r' := by
          simp [hid]
        refine ⟨fun hnone => absurd (by simp [insert]) (hnone path cfg Runner.create),
          fun path' cfg' r hrunning _ => ?_⟩
        obtain ⟨rfl, rfl, rfl⟩ : path = path' ∧ cfg = cfg' ∧ Runner.create = r := by
          simpa [insert] using hrunning
        have hcount : (before ++ [SystemInput.insert id]).countP
            (SystemInput.isStartStep id) = 0 := by
          simp [List.countP_append, h.idle hidle, SystemInput.isStartStep]
        rw [hcount, observed_append, observed_of_idle hbefore hidle]
        exact Runner.StartLog.create
      · exact h.of_other (by simp [insert, Ne.symm heq]) rfl rfl
  | runs id input path cfg r r' os hid hrun =>
      by_cases heq : id = call
      · subst heq
        refine ⟨fun hnone => absurd (by simp [ran]) (hnone path cfg r'),
          fun path' cfg' r'' hrunning hroot => ?_⟩
        obtain ⟨rfl, rfl, rfl⟩ : path = path' ∧ cfg = cfg' ∧ r' = r'' := by
          simpa [ran] using hrunning
        have hcount : (before ++ [SystemInput.run id input]).countP
            (SystemInput.isStartStep id) =
            before.countP (SystemInput.isStartStep id) +
              if input.isStartStep then 1 else 0 := by
          simp [List.countP_append, List.countP_cons, SystemInput.isStartStep]
        rw [hcount, observed_append, observed_own]
        exact (h.running path cfg r hid hroot).step hroot
          (hmeet rfl path cfg r hid) hrun
      · refine h.of_other (by simp [ran, Ne.symm heq]) ?_ ?_
        · rw [List.eq_nil_iff_forall_not_mem]
          intro x hx
          obtain ⟨other, hmem⟩ := mem_observed.mp hx
          exact heq (does_mem_map.mp hmem).1.symm
        · simp [SystemInput.isStartStep, heq]

theorem rootLog_of_execute
    (hmeet : StepsMeet step (fun s i => s.ReturnsResults call results i) empty
      inputs)
    (hrun : execute step empty inputs = some (s, seen)) :
    RootLog call results inputs s seen := by
  have hboth := execute_inputs_history
    (P := fun before s seen => execute step empty before = some (s, seen) ∧
      RootLog call results before s seen)
    (by
      rintro before s seen i t o ⟨hbefore, hlog⟩ hg hstep
      exact ⟨execute_append.mpr ⟨s, seen, o, hbefore, execute_single hstep, rfl⟩,
        hlog.step hbefore hg hstep⟩)
    [] [] ⟨rfl, ⟨fun _ => rfl, by simp [empty]⟩⟩ hmeet hrun
  exact hboth.2

/-- A call that runs was registered at its path. -/
theorem registered_of_running (hrun : execute step empty inputs = some (s, seen))
    (hcall : s.creations call = .running path cfg r) :
    .registered call path ∈ seen := by
  have hall := execute_history (G := fun _ _ => True)
    (P := fun s seen => ∀ path cfg r, s.creations call = .running path cfg r →
      .registered call path ∈ seen)
    (by
      intro s seen i t o hold _ hstep path cfg r hrunning
      rcases running_origin (step_transition hstep) hrunning with
        ⟨-, -, -, rfl⟩ | ⟨r₀, -, -, -, hold', -⟩ | ⟨hold', -⟩
      · simp
      · exact List.mem_append_left o (hold path cfg r₀ hold')
      · exact List.mem_append_left o (hold path cfg r hold'))
    [] (by simp [empty]) (stepsMeet_true empty inputs) hrun
  exact hall path cfg r hcall

/-- What was done at a path was done by a call that was registered there. -/
theorem registered_of_does (hrun : execute step empty inputs = some (s, seen))
    {x : Obs M Ev} (hmem : .does call path x ∈ seen) :
    .registered call path ∈ seen := by
  have hruns := runsIn_of_execute hrun call
  cases hcall : s.creations call with
  | running other cfg r =>
      rw [hcall] at hruns
      obtain rfl := hruns.2 path x hmem
      exact registered_of_running hrun hcall
  | _ =>
      rw [hcall] at hruns
      exact absurd hmem (hruns path x)

/-- A path at which no other call was registered belongs to the call until its
runner removes it. -/
theorem actors_of_alone (hrun : execute step empty inputs = some (s, seen))
    (hcall : s.creations call = .running path cfg r)
    (halone : ∀ other, .registered other path ∈ seen → other = call) :
    (.removeActor ∉ observed call seen → s.actors path = some call) ∧
      (.removeActor ∈ observed call seen → s.actors path = none) := by
  have hregistered := registered_of_running hrun hcall
  constructor
  · intro hnot
    rcases exists_last_write (SystemObs.write path) seen with
      hnone | ⟨before, x, after, entry, hseen, hx, hafter⟩
    · have hwrite := hnone _ hregistered
      simp [SystemObs.write] at hwrite
    · have hmem : x ∈ seen := by simp [hseen]
      rcases SystemObs.write_eq_some hx with ⟨id, rfl, rfl⟩ | ⟨id, rfl, rfl⟩
      · -- the last write at the path is the registration of the call
        obtain rfl := halone id hmem
        exact (actors_eq_some_iff hrun).mpr ⟨before, after, hseen, hafter⟩
      · obtain rfl := halone id (registered_of_does hrun hmem)
        exact absurd ((mem_observed_iff hrun hcall).mpr hmem) hnot
  · intro hremoved
    cases hentry : s.actors path with
    | none => rfl
    | some id =>
        obtain ⟨⟨cfg', r', hid⟩, hnot⟩ := entriesOwned_of_execute hrun path id hentry
        obtain rfl := halone id (registered_of_running hrun hid)
        exact absurd ((mem_observed_iff hrun hcall).mp hremoved) hnot

/-- What holds when the creator of a root actor is told `b`. -/
structure StartOutcome (call : Nat) (path : ActorPath) (cfg : RunnerConfig)
    (results : Nat → Except ActorError Unit) (t : System M Ev)
    (seen : List (Obs M Ev)) (b : Bool) : Prop where
  result : b = true ↔ ∃ j ≤ cfg.strategy.attempts, results j = .ok ()
  preStart : seen.countP Obs.isPreStart = 1
  preRestart : ∃ attempt ≤ cfg.strategy.attempts,
    seen.countP Obs.isPreRestart = attempt ∧
      (∀ j < attempt, results j ≠ .ok ()) ∧
      (results attempt = .ok () ∨ attempt = cfg.strategy.attempts)
  notSignalled : seen.countP Obs.isSignal = 0
  ofOk : b = true → t.actors path = some call ∧
    ∃ r', t.creations call = .running path cfg r' ∧ r'.lifecycle = .started
  ofErr : b = false → t.actors path = none ∧
    seen.countP Obs.isPostStop = 1 ∧
    ∃ r', t.creations call = .running path cfg r' ∧ r'.lifecycle = .terminated

/-- The outcome, from the calls up to the signal. -/
theorem startOutcome_of_signalled {b : Bool} {calls : List (Obs M Ev)}
    {r' : Runner M Ev}
    (h : Runner.Signalled cfg results r' calls b)
    (htold : calls.countP Obs.isSignal = 0)
    (ht : t = s.ran call path cfg r' [.signal b])
    (hactors : (.removeActor ∉ calls → s.actors path = some call) ∧
      (.removeActor ∈ calls → s.actors path = none)) :
    StartOutcome call path cfg results t calls b := by
  have hentry : t.actors = s.actors := by simp [ht, ran, Obs.isRemoveActor]
  have hrunning : t.creations call = .running path cfg r' := by simp [ht, ran]
  cases h with
  | ok attempt hlife hbound hcalls hfailed hok =>
      refine
        { result := by simpa using ⟨attempt, hbound, hok⟩
          preStart := hcalls.preStart
          preRestart := ⟨attempt, hbound, hcalls.preRestart, hfailed, Or.inl hok⟩
          notSignalled := htold
          ofOk := fun _ => ⟨?_, r', hrunning, hlife⟩
          ofErr := by simp }
      rw [hentry]
      refine hactors.1 fun hmem => ?_
      have hnone := hcalls.removeActor
      rw [List.countP_eq_zero] at hnone
      exact hnone _ hmem rfl
  | err hlife hcalls hfailed =>
      refine
        { result := ?_
          preStart := hcalls.preStart
          preRestart := ⟨_, Nat.le_refl _, hcalls.preRestart,
            fun j hj => hfailed j (by omega), Or.inr rfl⟩
          notSignalled := htold
          ofOk := by simp
          ofErr := fun _ => ⟨?_, hcalls.postStop, r', hrunning, hlife⟩ }
      · constructor
        · simp
        · rintro ⟨j, hj, hok⟩
          exact absurd hok (hfailed j (by omega))
      · rw [hentry]
        refine hactors.2 ?_
        have hone : 0 < calls.countP Obs.isRemoveActor := by
          simp [hcalls.removeActor]
        obtain ⟨x, hx, hremove⟩ := List.countP_pos_iff.mp hone
        cases x with
        | removeActor => exact hx
        | _ => simp [Obs.isRemoveActor] at hremove

theorem returnsResults_run {input : Input M Ev}
    (hcall : s.creations call = .running path cfg r)
    (h : r.ReturnsResults results input) :
    s.ReturnsResults call results (.run call input) := by
  intro _ path' cfg' r' hrunning
  obtain ⟨-, -, rfl⟩ : path = path' ∧ cfg = cfg' ∧ r = r' := by
    simpa [hcall] using hrunning
  exact h

theorem run_isSome {input : Input M Ev}
    (hcall : s.creations call = .running path cfg r)
    (h : (Runner.step cfg r input).isSome) : (s.step (.run call input)).isSome := by
  obtain ⟨⟨r', os⟩, hrunner⟩ := Option.isSome_iff_exists.mp h
  simp [step, hcall, hrunner]

/-- **The start of a root actor**, with the results that its start hooks return
and no other creation at its path: the creator is told at most once, and `Ok` if
and only if the start or one of the restarts that the strategy allows succeeds;
while it waits, a step of the start is always possible, and at most `2 m + 8` of
them are taken. -/
theorem root_start_outcome (call : Nat) (results : Nat → Except ActorError Unit)
    {inputs : List (SystemInput M Ev)} {s : System M Ev}
    {seen : List (SystemObs M Ev)} {path : ActorPath} {cfg : RunnerConfig}
    {r : Runner M Ev}
    (hrun : execute step empty inputs = some (s, seen))
    (hmeet : StepsMeet step (fun s i => s.ReturnsResults call results i) empty
      inputs)
    (hcall : s.creations call = .running path cfg r)
    (hroot : cfg.hasParent = false)
    (halone : ∀ other, .registered other path ∈ seen → other = call) :
    (r.signal = true →
      inputs.countP (SystemInput.isStartStep call) <
          2 * cfg.strategy.attempts + 8 ∧
        ∃ i, SystemInput.isStartStep call i = true ∧
          s.ReturnsResults call results i ∧ (s.step i).isSome) ∧
    (observed call seen).countP Obs.isSignal = (if r.signal then 0 else 1) ∧
    ∀ i t o b, s.ReturnsResults call results i → s.step i = some (t, o) →
      .does call path (.signal b) ∈ o →
        StartOutcome call path cfg results t (observed call seen) b := by
  have hlog := (rootLog_of_execute hmeet hrun).running path cfg r hcall hroot
  refine ⟨fun hsignal => ⟨?_, ?_⟩, hlog.told, ?_⟩
  · have hrank := hlog.rank hsignal
    have hpos := (hlog.waiting hsignal).rank_pos
    omega
  · obtain ⟨input, hstart, hresult, hpossible⟩ := (hlog.waiting hsignal).exists_step
    exact ⟨.run call input, by simp [SystemInput.isStartStep, hstart],
      returnsResults_run hcall hresult, run_isSome hcall hpossible⟩
  · intro i t o b hguard hstep hmem
    obtain ⟨input, cfg', r₀, r', os, rfl, hcall', hrunner, hsignal⟩ :=
      run_of_does (step_transition hstep) hmem
    obtain ⟨-, rfl, rfl⟩ : path = path ∧ cfg = cfg' ∧ r = r₀ := by
      simpa [hcall] using hcall'
    obtain ⟨rfl, hsignalled⟩ :=
      hlog.signals hroot (hguard rfl path cfg r hcall) hrunner hsignal
    have ht : t = s.ran call path cfg r' [.signal b] := by
      simp only [step, hcall, hrunner, Option.some.injEq, Prod.mk.injEq] at hstep
      exact hstep.1.symm
    subst ht
    refine startOutcome_of_signalled hsignalled ?_ rfl
      (actors_of_alone hrun hcall halone)
    simp [hlog.told, Runner.signal_of_signals hrunner hsignal]

/-- `pre_start` fails, and all restarts succeed. -/
def failsOnce : Nat → Except ActorError Unit
  | 0 => .error (.functional "start")
  | _ + 1 => .ok ()

/-- The history of `failedStartRestarted`. -/
def failedStartRestartedSeen : List (SystemObs Unit Unit) :=
  .registered 0 userPath ::
    [.called .preStart, .becomes .failed, .becomes .restarted,
      .called (.preRestart (some (.functional "start"))),
      .becomes .started].map (.does 0 userPath)

theorem failedStartRestarted_returnsResults :
    StepsMeet step (fun s i => s.ReturnsResults 0 failsOnce i) empty
      failedStartRestarted := by
  -- the guard speaks of the two steps in which a start hook returns
  refine (stepsMeet_cons rfl).mpr ⟨trivial, (stepsMeet_cons rfl).mpr ⟨trivial,
    (stepsMeet_cons rfl).mpr ⟨fun _ _ _ _ _ => trivial,
    (stepsMeet_cons rfl).mpr ⟨?_,
    (stepsMeet_cons rfl).mpr ⟨fun _ _ _ _ _ => trivial,
    (stepsMeet_cons rfl).mpr ⟨fun _ _ _ _ _ => trivial,
    (stepsMeet_cons rfl).mpr ⟨?_, trivial⟩⟩⟩⟩⟩⟩⟩
  · intro _ path cfg r hrunning
    cases hrunning
    rfl
  · intro _ path cfg r hrunning
    cases hrunning
    exact fun _ => rfl

/-- `root_start_outcome` at the actor whose restart has succeeded: its creator
is told `Ok` next. -/
theorem failedStartRestarted_outcome :
    ∃ s seen t o, execute step empty failedStartRestarted = some (s, seen) ∧
      s.step (.run 0 (.choice .proceed)) = some (t, o) ∧
      .does 0 userPath (.signal true) ∈ o ∧
      StartOutcome 0 userPath restartingRoot failsOnce t (observed 0 seen)
        true := by
  refine ⟨_, _, _, _, rfl, rfl, by decide, ?_⟩
  have hrun : execute step empty failedStartRestarted = some _ := rfl
  refine (root_start_outcome 0 failsOnce hrun failedStartRestarted_returnsResults
    rfl rfl ?_).2.2 (.run 0 (.choice .proceed)) _ _ true
    (fun _ _ _ _ _ => trivial) rfl (by decide)
  intro other hmem
  change SystemObs.registered other userPath ∈ failedStartRestartedSeen at hmem
  simpa [failedStartRestartedSeen] using hmem

end System
end Actor
end Rush
