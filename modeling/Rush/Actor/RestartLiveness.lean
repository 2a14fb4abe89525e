import Rush.Actor.Unregistration

/-!
# When a restarted actor is alive

A runner that enters `run` is alive if all branches of `select!` are enabled
and the registry maps its path to it.  The stop branch ends with the stop
signal set and the path removed, and no restart undoes either: only a runner
that has never been through it, and whose entry nobody else has touched, is
alive.
-/

namespace Rush
namespace Actor

open Foundation

variable {M Ev : Type}

namespace Runner

/-- In the stop branch of `run`, up to the removal of the path. -/
def InStopBranch (r : Runner M Ev) : Prop :=
  match r.phase with
  | .inHook (.preStop _) => True
  | .stoppingChilds _ => True
  | .awaitingChild _ => True
  | .removing _ => True
  | _ => False

/-- While the stop signal is set, only the stop branch can be taken. -/
def SignalSettled (r : Runner M Ev) : Prop :=
  r.stopSignal = true → r.phase = .selecting ∨ r.InStopBranch

variable {cfg : RunnerConfig} {r r' : Runner M Ev} {o : List (Obs M Ev)}

/-- The stop branch is left by the removal of the path. -/
theorem InStopBranch.step (h : r.InStopBranch) (ht : Transition cfg r r' o) :
    r'.InStopBranch ∨ .removeActor ∈ o := by
  unfold InStopBranch at *
  cases ht with
  | arrives => exact Or.inl h
  | operates hook op r' hphase hop =>
      rw [(operate_frame hop).1]
      exact Or.inl h
  | handles hook hphase hhook =>
      rcases hhook with ⟨e, rfl⟩ | ⟨m, rfl⟩ <;> simp [hphase] at h
  | _ => simp_all

/-- The stop branch is entered by a call of `pre_stop`. -/
theorem inStopBranch_origin (h : r'.InStopBranch) (ht : Transition cfg r r' o) :
    r.InStopBranch ∨ ∃ request, .called (.preStop request) ∈ o := by
  unfold InStopBranch at *
  cases ht with
  | arrives => exact Or.inl h
  | operates hook op r' hphase hop =>
      rw [(operate_frame hop).1] at h
      exact Or.inl h
  | takesStop request => exact Or.inr ⟨request, by simp⟩
  | takesChildError error rest hook hphase hsignal hqueue hhook =>
      rcases hhook with ⟨e, -, rfl⟩ | ⟨e, sender, -, rfl⟩ <;> exact h.elim
  | _ => simp_all

theorem inStopBranch_of_preStop {request : StopRequest}
    (ht : Transition cfg r r' o) (hmem : .called (.preStop request) ∈ o) :
    r'.InStopBranch := by
  cases ht with
  | takesStop => trivial
  | entersRun => split at hmem <;> simp at hmem
  | ends => split at hmem <;> simp at hmem
  | takesError => split at hmem <;> simp at hmem
  | takesChildError error rest hook hphase hsignal hqueue hhook =>
      rcases hhook with ⟨e, -, rfl⟩ | ⟨e, sender, -, rfl⟩ <;> simp at hmem
  | restarts strategy =>
      cases hbackoff : strategy.nextBackoff.1 <;> simp [hbackoff] at hmem
  | _ => simp at hmem

/-- The path is removed in the stop branch or at the end. -/
theorem inStopBranch_of_removes (ht : Transition cfg r r' o)
    (hmem : .removeActor ∈ o) : r.InStopBranch ∨ r'.LeftRegistry := by
  cases ht with
  | terminates => exact Or.inr trivial
  | removes request hphase => exact Or.inl (by simp [InStopBranch, hphase])
  | entersRun => split at hmem <;> simp at hmem
  | ends => exact Or.inr trivial
  | takesError => split at hmem <;> simp at hmem
  | restarts strategy =>
      cases hbackoff : strategy.nextBackoff.1 <;> simp [hbackoff] at hmem
  | _ => simp at hmem

theorem SignalSettled.step (h : r.SignalSettled) (ht : Transition cfg r r' o) :
    r'.SignalSettled ∨ .removeActor ∈ o := by
  unfold SignalSettled InStopBranch at *
  cases ht with
  | arrives => exact Or.inl h
  | operates hook op r' hphase hop =>
      obtain ⟨hphase', -, hsignal', -⟩ := operate_frame hop
      rw [hphase', hsignal']
      exact Or.inl h
  | removes => exact Or.inr (by simp)
  | handles hook hphase hhook =>
      rcases hhook with ⟨e, rfl⟩ | ⟨m, rfl⟩ <;> exact Or.inl fun _ => Or.inl rfl
  | _ => simp_all [emitFail]

/-- What the state of a runner says about its history. -/
structure StopHistory (r : Runner M Ev) (seen : List (Obs M Ev)) : Prop where
  stopSignal : r.SignalSettled ∨ .removeActor ∈ seen
  preStop : (∃ request, .called (.preStop request) ∈ seen) →
    r.InStopBranch ∨ .removeActor ∈ seen
  inStopBranch : r.InStopBranch → ∃ request, .called (.preStop request) ∈ seen
  removed : .removeActor ∈ seen →
    (∃ request, .called (.preStop request) ∈ seen) ∨ r.LeftRegistry

theorem StopHistory.step {seen : List (Obs M Ev)} (h : r.StopHistory seen)
    (ht : Transition cfg r r' o) : r'.StopHistory (seen ++ o) where
  stopSignal := by
    rcases h.stopSignal with hsettled | hremoved
    · exact (hsettled.step ht).imp id fun h => List.mem_append_right seen h
    · exact Or.inr (List.mem_append_left o hremoved)
  preStop := by
    rintro ⟨request, hmem⟩
    rcases List.mem_append.mp hmem with hmem | hmem
    · rcases h.preStop ⟨request, hmem⟩ with hbranch | hremoved
      · exact (hbranch.step ht).imp id fun h => List.mem_append_right seen h
      · exact Or.inr (List.mem_append_left o hremoved)
    · exact Or.inl (inStopBranch_of_preStop ht hmem)
  inStopBranch := by
    intro hbranch
    rcases inStopBranch_origin hbranch ht with hbranch | ⟨request, hmem⟩
    · obtain ⟨request, hmem⟩ := h.inStopBranch hbranch
      exact ⟨request, List.mem_append_left o hmem⟩
    · exact ⟨request, List.mem_append_right seen hmem⟩
  removed := by
    intro hmem
    have hbefore : (∃ request, .called (.preStop request) ∈ seen) →
        ∃ request, .called (.preStop request) ∈ seen ++ o :=
      fun ⟨request, h⟩ => ⟨request, List.mem_append_left o h⟩
    rcases List.mem_append.mp hmem with hmem | hmem
    · exact (h.removed hmem).imp hbefore fun hleft => (hleft.step ht).1
    · exact (inStopBranch_of_removes ht hmem).imp
        (fun hbranch => hbefore (h.inStopBranch hbranch)) id

theorem stopHistory_of_execute {inputs : List (Input M Ev)}
    {seen : List (Obs M Ev)}
    (hrun : execute (Runner.step cfg) create inputs = some (r, seen)) :
    r.StopHistory seen := by
  refine execute_history (G := fun _ _ => True) (P := StopHistory)
    (fun _ _ _ _ _ hold _ hstep => hold.step (step_transition hstep)) []
    ⟨?_, ?_, ?_, ?_⟩ (stepsMeet_true _ inputs) hrun
  all_goals simp [SignalSettled, InStopBranch, create]

end Runner

namespace System

/-- The branches of `select!` are enabled, and the registry maps the path of the
runner to its reference. -/
def Alive (s : System M Ev) (call : Nat) : Prop :=
  ∃ path cfg r, s.creations call = .running path cfg r ∧
    r.stopSignal = false ∧ s.actors path = some call

/-- Since the call was registered at the path, no other call was, and no other
runner has removed the path. -/
def Undisturbed (call : Nat) (path : ActorPath) (seen : List (SystemObs M Ev)) :
    Prop :=
  ∃ before after, seen = before ++ .registered call path :: after ∧
    (∀ other, .registered other path ∉ after) ∧
    ∀ other, other ≠ call → .does other path .removeActor ∉ after

variable {s : System M Ev} {inputs : List (SystemInput M Ev)}
  {seen : List (SystemObs M Ev)} {call : Nat} {path : ActorPath}
  {cfg : RunnerConfig} {r : Runner M Ev}

/-- The entry of a path is that of a call if the call was registered and the
path was neither registered nor removed since. -/
theorem actors_eq_some_iff (hrun : execute step empty inputs = some (s, seen)) :
    s.actors path = some call ↔
      ∃ before after, seen = before ++ .registered call path :: after ∧
        ∀ x ∈ after, x.write path = none := by
  rw [actors_eq_lastWrite hrun path, lastWrite_eq_iff (by simp)]
  constructor
  · rintro ⟨before, x, after, rfl, hx, hafter⟩
    rcases SystemObs.write_eq_some hx with ⟨id, rfl, heq⟩ | ⟨id, rfl, heq⟩
    · obtain rfl : call = id := Option.some.inj heq
      exact ⟨before, after, rfl, hafter⟩
    · contradiction
  · rintro ⟨before, after, rfl, hafter⟩
    exact ⟨before, _, after, rfl, by simp [SystemObs.write], hafter⟩

/-- A runner that is between two rounds of its loop has removed its path if and
only if it has been through the stop branch. -/
theorem removed_iff_preStop (hrun : execute step empty inputs = some (s, seen))
    (hcall : s.creations call = .running path cfg r) (hphase : r.phase = .dispatch) :
    Removed call path seen ↔
      ∃ request, .does call path (.called (.preStop request)) ∈ seen := by
  obtain ⟨is, hexec⟩ := runner_of_execute hrun hcall
  have hhistory := Runner.stopHistory_of_execute hexec
  have hbranch : ¬ r.InStopBranch := by simp [Runner.InStopBranch, hphase]
  have hleft : ¬ r.LeftRegistry := by simp [Runner.LeftRegistry, hphase]
  have hpreStop := hhistory.preStop
  have hremoved := hhistory.removed
  simp only [mem_observed_iff hrun hcall] at hpreStop hremoved
  exact ⟨fun h => (hremoved h).resolve_right hleft,
    fun h => (hpreStop h).resolve_left hbranch⟩

/-- To enter `run` changes neither the stop signal nor the registry. -/
theorem alive_after_entersRun (hcall : s.creations call = .running path cfg r)
    (hphase : r.phase = .dispatch) (hlife : r.lifecycle = .started)
    {t : System M Ev} {o : List (SystemObs M Ev)}
    (hstep : s.step (.run call (.choice .proceed)) = some (t, o)) :
    t.Alive call ↔ r.stopSignal = false ∧ s.actors path = some call := by
  have hrunner : Runner.step cfg r (.choice .proceed) =
      some ({ r with signal := false, phase := .selecting },
        if r.signal then [.signal true] else []) := by
    simp only [Runner.step, Runner.advance, hphase, Runner.dispatch, hlife]
  simp only [step, hcall, hrunner, Option.some.injEq, Prod.mk.injEq] at hstep
  obtain ⟨rfl, -⟩ := hstep
  have hkept : (s.ran call path cfg { r with signal := false, phase := .selecting }
      (if r.signal then [.signal true] else [])).actors = s.actors := by
    cases hsignal : r.signal <;> simp [ran, Obs.isRemoveActor]
  unfold Alive
  rw [hkept]
  constructor
  · rintro ⟨other, cfg', r', hrunning, hsignal, hentry⟩
    obtain ⟨rfl, rfl, rfl⟩ : path = other ∧ cfg = cfg' ∧
        { r with signal := false, phase := .selecting } = r' := by
      simpa [ran] using hrunning
    exact ⟨hsignal, hentry⟩
  · rintro ⟨hsignal, hentry⟩
    exact ⟨path, cfg, _, Function.update_self _ _ _, hsignal, hentry⟩

/-- **A restarted actor is alive**, and so is a started one, if and only if its
runner has never been through the stop branch and nobody else has touched its
entry. -/
theorem enters_run_alive_iff (hrun : execute step empty inputs = some (s, seen))
    (hcall : s.creations call = .running path cfg r)
    (hphase : r.phase = .dispatch) (hlife : r.lifecycle = .started)
    {t : System M Ev} {o : List (SystemObs M Ev)}
    (hstep : s.step (.run call (.choice .proceed)) = some (t, o)) :
    t.Alive call ↔
      (∀ request, .does call path (.called (.preStop request)) ∉ seen) ∧
        Undisturbed call path seen := by
  have hentered := alive_after_entersRun hcall hphase hlife hstep
  have hremoved := removed_iff_preStop hrun hcall hphase
  rw [hentered]
  constructor
  · rintro ⟨-, hentry⟩
    refine ⟨fun request hmem => ?_, ?_⟩
    · have hnot := (entriesOwned_of_execute hrun path call hentry).2
      exact hnot (hremoved.mpr ⟨request, hmem⟩)
    · obtain ⟨before, after, hseen, hafter⟩ := (actors_eq_some_iff hrun).mp hentry
      have hwrite := fun x hx => SystemObs.write_eq_none_iff.mp (hafter x hx)
      exact ⟨before, after, hseen, fun other hmem => (hwrite _ hmem).1 other rfl,
        fun other _ hmem => (hwrite _ hmem).2 other rfl⟩
  · rintro ⟨hnever, before, after, hseen, hregistered, hremoves⟩
    have hnot : ¬ Removed call path seen := by
      rw [hremoved]
      rintro ⟨request, hmem⟩
      exact hnever request hmem
    constructor
    · obtain ⟨is, hexec⟩ := runner_of_execute hrun hcall
      have hsettled : r.SignalSettled :=
        (Runner.stopHistory_of_execute hexec).stopSignal.resolve_right fun h =>
          hnot ((mem_observed_iff hrun hcall).mp h)
      rw [Bool.eq_false_iff]
      -- a signal that is set belongs to `select!` or to the stop branch
      intro hsignal
      simpa [Runner.InStopBranch, hphase] using hsettled hsignal
    · refine (actors_eq_some_iff hrun).mpr ⟨before, after, hseen, fun x hx => ?_⟩
      rw [SystemObs.write_eq_none_iff]
      constructor
      · rintro other rfl
        exact hregistered other hx
      · -- its own removal is excluded by `hnot`, all others by the condition
        rintro other rfl
        by_cases heq : other = call
        · subst heq
          refine hnot ?_
          rw [hseen]
          exact List.mem_append_right before (List.mem_cons_of_mem _ hx)
        · exact hremoves other heq hx

/-- A root actor that is restarted once. -/
def restartingRoot : RunnerConfig where
  hasParent := false
  strategy := .retry (.noInterval 1)

/-- The start fails, and `pre_restart` succeeds. -/
def failedStartRestarted : List (SystemInput Unit Unit) :=
  [.check 0 userPath restartingRoot, .insert 0, .run 0 (.choice .proceed),
    .run 0 (.choice (.returns (.error (.functional "start")))),
    .run 0 (.choice .proceed), .run 0 (.choice .proceed),
    .run 0 (.choice (.returns (.ok ())))]

/-- A root actor that is restarted after a failed start is alive. -/
theorem failedStartRestarted_alive :
    ∃ s seen t o, execute step empty failedStartRestarted = some (s, seen) ∧
      s.step (.run 0 (.choice .proceed)) = some (t, o) ∧ t.Alive 0 := by
  refine ⟨_, _, _, _, rfl, rfl, ?_⟩
  have hrun : execute step empty failedStartRestarted = some _ := rfl
  refine (enters_run_alive_iff hrun rfl rfl rfl rfl).mpr ⟨?_, [], _, rfl, ?_⟩
  · simp
  · simp

/-- A handler emits a fail, the runner stops itself, and `pre_restart`
succeeds. -/
def emittedFailRestarted : List (SystemInput Unit Unit) :=
  starting 0 userPath restartingRoot ++
    [.run 0 (.arrival (.message ())), .run 0 (.choice .takeMessage),
      .run 0 (.choice (.operation (.emitFail (.functional "fail")))),
      .run 0 (.choice (.returns (.ok ()))), .run 0 (.choice .takeInner),
      .run 0 (.choice .proceed), .run 0 (.choice .takeStop),
      .run 0 (.choice (.returns (.ok ()))), .run 0 (.choice .proceed),
      .run 0 (.choice .proceed), .run 0 (.choice .proceed),
      .run 0 (.choice .proceed), .run 0 (.choice .proceed),
      .run 0 (.choice .proceed), .run 0 (.choice (.returns (.ok ())))]

/-- The actor is restarted with the stop signal still set and without an
entry. -/
theorem restarted_after_emit_fail_not_alive :
    (∃ s seen t o r, execute step empty emittedFailRestarted = some (s, seen) ∧
      .does 0 userPath (.called (.preRestart (some (.functional "fail")))) ∈ seen ∧
      s.step (.run 0 (.choice .proceed)) = some (t, o) ∧
      t.creations 0 = .running userPath restartingRoot r ∧
      r.lifecycle = .started ∧ r.phase = .selecting ∧
      r.stopSignal = true ∧ t.actors userPath = none) ∧
      ¬ ∀ (inputs : List (SystemInput Unit Unit)) s seen,
        execute step empty inputs = some (s, seen) →
          ∀ call path cfg r error t o, s.creations call = .running path cfg r →
            r.phase = .dispatch → r.lifecycle = .started →
            .does call path (.called (.preRestart error)) ∈ seen →
            s.step (.run call (.choice .proceed)) = some (t, o) → t.Alive call := by
  refine ⟨⟨_, _, _, _, _, rfl, by decide, rfl, rfl, rfl, rfl, rfl, rfl⟩,
    fun hall => ?_⟩
  obtain ⟨path, cfg, r, hcall, hsignal, -⟩ :=
    hall emittedFailRestarted _ _ rfl 0 userPath restartingRoot _
      (some (.functional "fail")) _ _ rfl rfl rfl (by decide) rfl
  cases hcall
  contradiction

end System

end Actor
end Rush
