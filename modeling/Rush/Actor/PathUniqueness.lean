import Rush.Actor.StopFinality
import Rush.Actor.Unregistration

/-!
# One live actor at a path

The check of `create_actor_path` and its insertion are two critical sections,
so two creations may both find the path free.  Likewise a runner that is
restarted after its stop branch is live again without an entry.  In a run
whose insertions find nobody at the path and whose restarts find their own
entry, a live actor is alone at its path and is the entry of it.
-/

namespace Rush
namespace Actor

open Foundation

variable {M Ev : Type}

namespace Runner

/-- The actor has started and has not begun to stop. -/
def Live (r : Runner M Ev) : Prop :=
  match r.phase with
  | .dispatch => r.lifecycle = .started
  | .inHook (.onChildError _) => True
  | .inHook (.onChildFault _ _) => True
  | .inHook (.handleMessage _) => True
  | .selecting => True
  | .awaitingAction => True
  | .stoppingItself => True
  | _ => False

/-- The states from a removal of the path to the end or to a restart. -/
def AfterRemoval (r : Runner M Ev) : Prop :=
  match r.phase with
  | .acknowledging _ => r.lifecycle = .started ∨ r.lifecycle = .restarted
  | .returned => r.lifecycle = .stopped ∨ r.lifecycle = .restarted
  | .dispatch => r.lifecycle ≠ .created ∧ r.lifecycle ≠ .started
  | .inHook (.preRestart _) => r.lifecycle = .restarted
  | .inHook .postStop => True
  | .terminating => True
  | .ended => True
  | _ => False

theorem AfterRemoval.not_live {r : Runner M Ev} (h : r.AfterRemoval) :
    ¬ r.Live := by
  unfold AfterRemoval at h
  unfold Live
  split at h <;> simp_all

/-- The input lets `pre_restart` return `Ok`. -/
def Restarting (r : Runner M Ev) : Input M Ev → Prop
  | .choice (.returns (.ok ())) => ∃ error, r.phase = .inHook (.preRestart error)
  | _ => False

variable {cfg : RunnerConfig} {r r' : Runner M Ev} {i : Input M Ev}
  {o : List (Obs M Ev)}

/-- The lifecycle leaves `pre_restart` only with its successful return. -/
theorem preRestart_step {error : Option ActorError}
    (hphase : r.phase = .inHook (.preRestart error))
    (hstep : step cfg r i = some (r', o)) :
    r.Restarting i ∨
      (r'.phase = .dispatch ∨ r'.phase = r.phase) ∧
        r'.lifecycle = r.lifecycle := by
  cases i with
  | arrival arrival =>
      obtain ⟨_, harrive, heq⟩ := Option.map_eq_some_iff.mp hstep
      cases heq
      exact Or.inr ((arrive_frame harrive).imp Or.inr And.left)
  | choice choice =>
      cases choice with
      | operation op =>
          simp only [step, advance, hphase, Option.map_eq_some_iff] at hstep
          obtain ⟨_, hop, heq⟩ := hstep
          cases heq
          obtain ⟨hphase', hlife', -⟩ := operate_frame hop
          exact Or.inr ⟨Or.inr hphase', hlife'⟩
      | returns result =>
          cases result with
          | ok => exact Or.inl ⟨error, hphase⟩
          | error e =>
              simp only [step, advance, hphase, hookReturns] at hstep
              cases hstep
              exact Or.inr ⟨Or.inl rfl, rfl⟩
      | _ => simp [step, advance, hphase] at hstep

/-- A runner that has removed its path is not live again before a restart. -/
theorem AfterRemoval.step (h : r.AfterRemoval)
    (hstep : Runner.step cfg r i = some (r', o)) (hnot : ¬ r.Restarting i) :
    r'.AfterRemoval := by
  by_cases hrestart : ∃ error, r.phase = .inHook (.preRestart error)
  · obtain ⟨error, hphase⟩ := hrestart
    have hlife : r.lifecycle = .restarted := by simpa [AfterRemoval, hphase] using h
    obtain ⟨hphase' | hphase', hlife'⟩ := (preRestart_step hphase hstep).resolve_left hnot
    · simp [AfterRemoval, hphase', hlife', hlife]
    · simp [AfterRemoval, hphase', hlife', hlife, hphase]
  · -- every other step keeps the lifecycle away from `Started`
    have ht := step_transition hstep
    unfold AfterRemoval at *
    cases ht with
    | operates hook op r' hphase hop =>
        obtain ⟨hphase', hlife', -⟩ := operate_frame hop
        rwa [hphase', hlife']
    | preRestartOk error hphase => exact absurd ⟨error, hphase⟩ hrestart
    | preRestartErr error e hphase => exact absurd ⟨error, hphase⟩ hrestart
    | handles hook hphase hhook =>
        rcases hhook with ⟨e, rfl⟩ | ⟨m, rfl⟩ <;> simp [hphase] at h
    | arrives => exact h
    | returnsOk hphase =>
        rw [hphase] at h
        rcases h with hlife | hlife <;> simp [hlife]
    | _ => simp_all

/-- A removal is followed by the acknowledgement or by the end. -/
theorem afterRemoval_of_removes (hstarted : r.RunsStarted)
    (ht : Transition cfg r r' o) (hmem : .removeActor ∈ o) : r'.AfterRemoval := by
  cases ht with
  | terminates => trivial
  | removes request hphase =>
      refine hstarted ?_
      simp [InRun, hphase]
  | entersRun => split at hmem <;> simp at hmem
  | ends => split at hmem <;> simp at hmem
  | takesError => split at hmem <;> simp at hmem
  | restarts strategy =>
      cases hbackoff : strategy.nextBackoff.1 <;> simp [hbackoff] at hmem
  | _ => simp at hmem

end Runner

namespace System

/-- A restart finds the entry of its own runner. -/
def RestartsRegistered (s : System M Ev) : SystemInput M Ev → Prop
  | .run call input =>
      ∀ path cfg r, s.creations call = .running path cfg r →
        r.Restarting input → s.actors path = some call
  | _ => True

/-- Insertions find nobody at their path, and restarts find their own entry. -/
def KeepsPath (s : System M Ev) (i : SystemInput M Ev) : Prop :=
  s.InsertsAlone i ∧ s.RestartsRegistered i

/-- A runner that has removed its path is on its way to the end. -/
def RemovedEnds (s : System M Ev) (seen : List (SystemObs M Ev)) : Prop :=
  ∀ call path cfg r, s.creations call = .running path cfg r →
    Removed call path seen → r.AfterRemoval

section Reached

variable {s : System M Ev} {inputs : List (SystemInput M Ev)}
  {seen : List (SystemObs M Ev)}

theorem RemovedEnds.step {t : System M Ev} {i : SystemInput M Ev}
    {o : List (SystemObs M Ev)}
    (hrun : execute System.step empty inputs = some (s, seen))
    (hold : RemovedEnds s seen) (hguard : s.RestartsRegistered i)
    (ht : Transition s i t o) : RemovedEnds t (seen ++ o) := by
  intro call path cfg r' hcall hremoved
  rcases running_origin ht hcall with
    ⟨rfl, hchecked, -, rfl⟩ | ⟨r, input, os, rfl, hran, hstep, rfl⟩ | ⟨hkept, hidle⟩
  · have hnot := not_does_of_checked hrun hchecked path .removeActor
    simp [Removed, hnot] at hremoved
  · rcases List.mem_append.mp hremoved with hbefore | hnow
    · -- an entry of its own would say that it has not removed its path
      refine (hold call path cfg r hran hbefore).step hstep fun hrestart => ?_
      have hentry := hguard path cfg r hran hrestart
      exact (entriesOwned_of_execute hrun path call hentry).2 hbefore
    · obtain ⟨is, hexec⟩ := runner_of_execute hrun hran
      exact Runner.afterRemoval_of_removes (Runner.runsStarted_of_execute hexec)
        (Runner.step_transition hstep) (does_mem_map.mp hnow).2.2
  · rcases List.mem_append.mp hremoved with hbefore | hnow
    · exact hold call path cfg r' hkept hbefore
    · exact absurd hnow (hidle path .removeActor)

theorem removedEnds_of_execute
    (hmeet : StepsMeet System.step RestartsRegistered empty inputs)
    (hrun : execute System.step empty inputs = some (s, seen)) :
    RemovedEnds s seen :=
  execute_history_of_run
    (fun _ _ _ _ _ _ hbefore hold hguard hstep =>
      hold.step hbefore hguard (step_transition hstep))
    (by simp [RemovedEnds, empty]) hmeet hrun

/-- **At most one live actor per path.**  In every run whose insertions find
nobody at their path and whose restarts find their own entry: two live actors at
a path are the same; the entry of the path refers to the live actor; a creation
that checks the path is refused with `Exists`, and none gets in at the path. -/
theorem live_alone_at_path
    (hmeet : StepsMeet System.step KeepsPath empty inputs)
    (hrun : execute System.step empty inputs = some (s, seen))
    {path : ActorPath} {call : Nat} {cfg : RunnerConfig} {r : Runner M Ev}
    (hcall : s.creations call = .running path cfg r) (hlive : r.Live) :
    (∀ other cfg' r', s.creations other = .running path cfg' r' → r'.Live →
      other = call) ∧
      s.actors path = some call ∧
      (∀ other cfg', s.creations other = .absent →
        (s.step (.check other path cfg')).map Prod.snd =
          some [.exists other path]) ∧
      ∀ i t o other, s.KeepsPath i → s.step i = some (t, o) →
        .registered other path ∉ o := by
  have hends := removedEnds_of_execute (hmeet.mono fun _ _ h => h.2) hrun
  obtain ⟨hone, hregistered⟩ :=
    registered_of_execute (hmeet.mono fun _ _ h => h.1) hrun
  -- a live actor has not removed its path, by the guard on restarts
  have hnot : ∀ {id cfg' r'}, s.creations id = .running path cfg' r' → r'.Live →
      ¬ Removed id path seen := fun hid hlive hremoved =>
    (hends _ path _ _ hid hremoved).not_live hlive
  have hleft : ∀ {id cfg' r'}, s.creations id = .running path cfg' r' → r'.Live →
      ¬ r'.LeftRegistry := fun hid hlive =>
    not_leftRegistry_of_not_removed hrun hid (hnot hid hlive)
  have hentry : s.actors path = some call :=
    hregistered call path cfg r hcall (hnot hcall hlive)
  refine ⟨fun other cfg' r' hother hlive' => ?_, hentry, ?_, ?_⟩
  · exact hone path other cfg' r' call cfg r hother hcall (hleft hother hlive')
      (hleft hcall hlive)
  · intro other cfg' habsent
    simp [System.step, check, habsent, hentry]
  · intro i t o other hguard hstep hmem
    obtain ⟨rfl, cfg', hother⟩ :=
      insert_of_registered (step_transition hstep) hmem
    exact hleft hcall hlive (hguard.1 path cfg' hother call cfg r hcall)

end Reached

/-- The first start fails and the restart succeeds; then a second creation
checks the path. -/
def repairedThenChecked : List (SystemInput Unit Unit) :=
  [.check 0 userPath Runner.retryingRoot, .insert 0] ++
    [.run 0 (.choice .proceed),
      .run 0 (.choice (.returns (.error (.functional "start")))),
      .run 0 (.choice .proceed), .run 0 (.choice .proceed)] ++
    [.run 0 (.choice (.returns (.ok ()))), .run 0 (.choice .proceed),
      .check 1 userPath plainRoot]

theorem repairedThenChecked_keepsPath :
    StepsMeet System.step KeepsPath empty repairedThenChecked := by
  refine stepsMeet_append.mpr
    ⟨stepsMeet_append.mpr ⟨?_, fun t os _ => ?_⟩, fun t os hrun => ?_⟩
  · refine ⟨⟨trivial, trivial⟩, fun t o hcheck =>
      ⟨⟨?_, trivial⟩, fun _ _ _ => trivial⟩⟩
    cases hcheck
    intro path cfg hchecked other cfg' r hrunning
    rcases other with _ | n <;> contradiction
  · -- none of these steps is the end of a restart
    refine stepsMeet_of_forall (fun i hi s => ?_) _
    simp only [List.mem_cons, List.not_mem_nil, or_false] at hi
    rcases hi with rfl | rfl | rfl | rfl <;>
      exact ⟨trivial, fun _ _ _ _ hrestart => hrestart.elim⟩
  · cases hrun
    refine ⟨⟨trivial, fun path cfg r hrunning _ => ?_⟩, fun _ _ _ =>
      ⟨⟨trivial, fun _ _ _ _ hrestart => hrestart.elim⟩, fun _ _ _ =>
        ⟨⟨trivial, trivial⟩, fun _ _ _ => trivial⟩⟩⟩
    cases hrunning
    rfl

/-- `live_alone_at_path` for the restarted actor. -/
theorem repairedThenChecked_live_alone :
    ∃ s seen, execute System.step empty repairedThenChecked = some (s, seen) ∧
      (∀ other cfg' r', s.creations other = .running userPath cfg' r' →
        r'.Live → other = 0) ∧
      s.actors userPath = some 0 ∧
      (∀ other cfg', s.creations other = .absent →
        (s.step (.check other userPath cfg')).map Prod.snd =
          some [.exists other userPath]) ∧
      ∀ i t o other, s.KeepsPath i → s.step i = some (t, o) →
        .registered other userPath ∉ o :=
  ⟨_, _, rfl,
    live_alone_at_path repairedThenChecked_keepsPath rfl rfl trivial⟩

/-- Two creations check the path before either of them inserts. -/
def bothCheckFirst : List (SystemInput Unit Unit) :=
  [.check 0 userPath plainRoot] ++ starting 1 userPath plainRoot ++
    (starting 0 userPath plainRoot).tail

/-- Both creations succeed: two actors are live at the path, and the entry of
the path refers to one of them only. -/
theorem two_live_at_path :
    (∃ s seen, execute System.step empty bothCheckFirst = some (s, seen) ∧
      (∃ r, s.creations 0 = .running userPath plainRoot r ∧ r.Live) ∧
      (∃ r, s.creations 1 = .running userPath plainRoot r ∧ r.Live) ∧
      s.actors userPath = some 0 ∧ SystemObs.does 0 userPath (.signal true) ∈ seen ∧
      SystemObs.does 1 userPath (.signal true) ∈ seen) ∧
      ¬ ∀ (inputs : List (SystemInput Unit Unit)) s seen,
        execute System.step empty inputs = some (s, seen) →
          ∀ path a cfg r b cfg' r', s.creations a = .running path cfg r →
            s.creations b = .running path cfg' r' → r.Live → r'.Live → a = b := by
  refine ⟨⟨_, _, rfl, ⟨_, rfl, trivial⟩, ⟨_, rfl, trivial⟩, rfl, by decide,
    by decide⟩, fun hall => ?_⟩
  have heq : 0 = 1 := hall bothCheckFirst _ _ rfl userPath 0 _ _ 1 _ _ rfl rfl
    trivial trivial
  contradiction

end System

end Actor
end Rush
