import Rush.Actor.HierarchySpec
import Rush.Actor.StartedWindow
import Rush.Actor.Unregistration

/-!
# The children of a failed start

The children of an actor are stopped by `stop_childs`, in the stop branch of
`run` only.  An actor that never starts does not get there: what its start hooks
have created is still running and registered when its creator is told that it
has not started, and when the next attempt begins.  Nothing is left behind if
every start hook that fails has seen to it that the actors it has created are
over.
-/

namespace Rush
namespace Actor

open Foundation

variable {M Ev : Type}

namespace Runner

/-- A start hook has failed, and the creator still waits. -/
def StartFailed (r : Runner M Ev) : Prop :=
  r.signal = true ∧
    match r.phase with
    | .dispatch => r.lifecycle ≠ .created ∧ r.lifecycle ≠ .started
    | .inHook .postStop => True
    | .terminating => True
    | _ => False

variable {cfg : RunnerConfig} {r r' : Runner M Ev} {o : List (Obs M Ev)}
  {i : Input M Ev}

theorem StartFailed.of_core (h : r'.StartFailed) (hcore : r'.core = r.core) :
    r.StartFailed := by
  unfold StartFailed at *
  rwa [signal_of_core hcore, phase_of_core hcore, lifecycle_of_core hcore] at h

/-- While the creator waits, only the start hooks and `post_stop` run. -/
def StartPhase (r : Runner M Ev) : Prop :=
  r.signal = true → ¬ r.InRun ∧ r.phase ≠ .returned

theorem startPhase_of_execute {inputs : List (Input M Ev)}
    {seen : List (Obs M Ev)}
    (hrun : execute (step cfg) create inputs = some (r, seen)) : r.StartPhase := by
  intro hsignal
  have hrunning := (stopLog_of_execute hrun).running
  constructor
  · intro hin
    simp [hrunning (Or.inl hin)] at hsignal
  · intro hreturned
    simp [hrunning (Or.inr hreturned)] at hsignal

/-- A start hook goes on or returns. -/
theorem startHook_step {hook : Hook M} (hphase : r.phase = .inHook hook)
    (hhook : hook.IsStart) (hstep : step cfg r i = some (r', o)) :
    r'.phase = r.phase ∨ (r'.phase = .dispatch ∧ r'.lifecycle = .started) ∨
      ∃ e, i = .choice (.returns (.error e)) := by
  cases i with
  | arrival arrival =>
      obtain ⟨_, harrive, heq⟩ := Option.map_eq_some_iff.mp hstep
      cases heq
      exact Or.inl (arrive_frame harrive).1
  | choice choice =>
      cases choice with
      | operation op =>
          obtain ⟨-, hop, -⟩ := step_operation hstep
          exact Or.inl (operate_frame hop).1
      | returns result =>
          cases result with
          | ok =>
              refine Or.inr (Or.inl ?_)
              cases hook <;> simp only [Hook.IsStart] at hhook <;>
                simp [step, advance, hphase, hookReturns] at hstep <;>
                simp [← hstep.1]
          | error e => exact Or.inr (Or.inr ⟨e, rfl⟩)
      | _ =>
          cases hook <;> simp only [Hook.IsStart] at hhook <;>
            simp [step, advance, hphase] at hstep

/-- Before a start has failed, the runner is in a start hook. -/
theorem Transition.startFailed (hstart : r.StartPhase)
    (ht : Transition cfg r r' o) (h : r'.StartFailed) :
    r.StartFailed ∨
      r.signal = true ∧ ∃ hook : Hook M, r.phase = .inHook hook ∧ hook.IsStart := by
  have hsignal : r.signal = true := by
    cases hsignal : r.signal with
    | true => rfl
    | false => simp [StartFailed, (ht.told hsignal).1] at h
  have hphases := hstart hsignal
  unfold StartFailed InRun at *
  cases ht with
  | preStartOk hphase | preStartErr _ hphase =>
      exact Or.inr ⟨hsignal, .preStart, hphase, trivial⟩
  | preRestartOk e hphase | preRestartErr e _ hphase =>
      exact Or.inr ⟨hsignal, .preRestart e, hphase, trivial⟩
  | operates hook op r' hphase hop =>
      obtain ⟨hphase', hlife', -, -, hsignal'⟩ := operate_frame hop
      rw [hphase', hlife', hsignal'] at h
      exact Or.inl h
  | arrives => exact Or.inl h
  | _ => simp_all

/-- The creator is told of a failure by a runner that ends. -/
theorem Transition.failureTold (ht : Transition cfg r r' o)
    (hmem : .signal false ∈ o) :
    r.phase = .terminating ∧ r.signal = true ∧ r'.phase = .ended := by
  cases ht with
  | ends hphase => exact ⟨hphase, by simpa using hmem, rfl⟩
  | entersRun => simp at hmem
  | takesError => split at hmem <;> simp at hmem
  | restarts strategy =>
      cases hbackoff : strategy.nextBackoff.1 <;> simp [hbackoff] at hmem
  | _ => simp at hmem

/-- `pre_restart` is called at a restart. -/
theorem restarted_of_preRestart {e : Option ActorError}
    (hstep : step cfg r i = some (r', o)) (hmem : .called (.preRestart e) ∈ o) :
    r.phase = .dispatch ∧ r.lifecycle = .restarted := by
  cases step_transition hstep with
  | restarts strategy hphase hlife => exact ⟨hphase, hlife⟩
  | takesChildError error rest hook hphase hsignal hqueue hhook =>
      rcases hhook with ⟨e, rfl, rfl⟩ | ⟨e, sender, rfl, rfl⟩ <;> simp at hmem
  | takesError | entersRun | ends => split at hmem <;> simp at hmem
  | _ => simp at hmem

/-- A start fails when a start hook returns `Err`. -/
theorem startFailed_origin (hstart : r.StartPhase)
    (hstep : step cfg r i = some (r', o)) (h : r'.StartFailed) :
    r.StartFailed ∨ (r.signal = true ∧
      (∃ hook : Hook M, r.phase = .inHook hook ∧ hook.IsStart) ∧
        ∃ e, i = .choice (.returns (.error e))) := by
  rcases (step_transition hstep).startFailed hstart h with
    hold | ⟨hsignal, hook, hphase, hhook⟩
  · exact Or.inl hold
  · refine Or.inr ⟨hsignal, ⟨hook, hphase, hhook⟩, ?_⟩
    rcases startHook_step hphase hhook hstep with hsame | ⟨hdispatch, hlife⟩ | herror
    · rw [hphase] at hsame
      cases hook <;> simp only [Hook.IsStart] at hhook <;>
        simp [StartFailed, hsame] at h
    · simp [StartFailed, hdispatch, hlife] at h
    · exact herror

end Runner

namespace System

/-- What is over is not registered. -/
theorem Over.not_registered {s : System M Ev} {inputs : List (SystemInput M Ev)}
    {seen : List (SystemObs M Ev)} {call : Nat} (h : s.Over call)
    (hrun : execute System.step empty inputs = some (s, seen)) (path : ActorPath) :
    s.actors path ≠ some call := by
  intro hentry
  obtain ⟨⟨cfg, r, hcall⟩, -⟩ := entriesOwned_of_execute hrun path call hentry
  obtain ⟨is, hexec⟩ := runner_of_execute hrun hcall
  have hended : r.phase = .ended := by simpa [Over, hcall] using h
  have hleft : r.LeftRegistry := by simp [Runner.LeftRegistry, hended]
  exact not_registered_of_removed hrun (hleft.removed hexec) path hentry

end System

namespace Hierarchy

variable {h t : Hierarchy M Ev} {i : HierarchyInput M Ev}
  {o seen : List (HierarchyObs M Ev)}

/-- The actor was created by a hook of the other one. -/
def CreatedBy (h : Hierarchy M Ev) (parent child : Nat) : Prop :=
  ∃ hook, h.origin child = some ⟨parent, hook⟩

/-- All that the start hooks of an actor have created is over, at any depth. -/
def NoOrphans (h : Hierarchy M Ev) (x : Nat) : Prop :=
  ∀ child hook, h.origin child = some ⟨x, hook⟩ → hook.IsStart →
    ∀ d, Relation.ReflTransGen h.CreatedBy child d → h.system.Over d

/-- A start hook that fails leaves nothing behind. -/
def FailsAlone (h : Hierarchy M Ev) : HierarchyInput M Ev → Prop
  | .run x (.returns (.error _)) => ∀ path cfg r,
      h.system.creations x = .running path cfg r → r.signal = true →
        (∃ hook : Hook M, r.phase = .inHook hook ∧ hook.IsStart) → h.NoOrphans x
  | _ => True

/-- A creation starts in a running hook; all other steps keep the origins. -/
theorem origin_cases (ht : Transition h i t o) :
    t.origin = h.origin ∨
      ∃ parent child name strategy path cfg r hook,
        i = .createChild parent child name strategy ∧
        h.system.creations parent = .running path cfg r ∧
        r.phase = .inHook hook ∧
        t.origin = Function.update h.origin child (some ⟨parent, hook⟩) := by
  cases ht with
  | createsChild parent call name strategy path cfg r hook s os hparent hphase =>
      exact Or.inr ⟨parent, call, name, strategy, path, cfg, r, hook, rfl, hparent,
        hphase, rfl⟩
  | runs call choice path cfg r r₁ os hmay hcall hrun =>
      left
      rw [origin_hear]
      exact chose_origin h call choice
  | _ => exact Or.inl rfl

/-- No actor is created by one that is over. -/
theorem noOrphans_of_step {x : Nat} (hstep : h.step i = some (t, o))
    (hclean : h.NoOrphans x)
    (hidle : ∀ call name strategy path cfg r (hook : Hook M),
      i = .createChild x call name strategy →
      h.system.creations x = .running path cfg r → r.phase = .inHook hook →
        ¬ hook.IsStart) : t.NoOrphans x := by
  intro child hook hchild hhook d hd
  rcases origin_cases (step_transition hstep) with hsame |
    ⟨parent, new, name, strategy, path, cfg, r, hook', rfl, hparent, hphase, hnew⟩
  · have hcreated : t.CreatedBy = h.CreatedBy := by
      unfold CreatedBy
      rw [hsame]
    rw [hcreated] at hd
    rw [hsame] at hchild
    exact over_of_step hstep (hclean child hook hchild hhook d hd)
  · by_cases heq : child = new
    · subst heq
      obtain ⟨rfl, rfl⟩ : parent = x ∧ hook' = hook := by
        simpa [hnew] using hchild
      exact absurd hhook (hidle child name strategy path cfg r hook' rfl hparent hphase)
    · have hchild' : h.origin child = some ⟨x, hook⟩ := by
        simpa [hnew, heq] using hchild
      have hpath : Relation.ReflTransGen h.CreatedBy child d := by
        induction hd with
        | refl => exact .refl
        | @tail b c hfirst hedge ih =>
            refine ih.tail ?_
            obtain ⟨hook'', hedge⟩ := hedge
            by_cases hc : c = new
            · -- its parent is running a hook, so it is not over
              subst hc
              obtain ⟨rfl, rfl⟩ : parent = b ∧ hook' = hook'' := by
                simpa [hnew] using hedge
              have hover := hclean child hook hchild' hhook parent ih
              simp [System.Over, hparent, hphase] at hover
            · exact ⟨hook'', by simpa [hnew, hc] using hedge⟩
      exact over_of_step hstep (hclean child hook hchild' hhook d hpath)

/-- An actor whose start has failed has no orphans. -/
structure OrphanLog (h : Hierarchy M Ev) : Prop where
  told : ∀ x path cfg r, h.signalled x = some false →
    h.system.creations x = .running path cfg r → r.phase = .ended
  clean : ∀ x path cfg r, h.system.creations x = .running path cfg r →
    r.StartFailed ∨ h.signalled x = some false → h.NoOrphans x

/-- A creator that is told of a failure is told by a runner that ends. -/
theorem OrphanLog.ended_of_step (hlog : OrphanLog h) (hsignals : SignalLog h)
    (hstep : h.step i = some (t, o)) {x : Nat} {path : ActorPath}
    {cfg : RunnerConfig} {r' : Runner M Ev} (htold : t.signalled x = some false)
    (hx' : t.system.creations x = .running path cfg r') : r'.phase = .ended := by
  have ht := step_transition hstep
  rcases (signalled_cases ht x).1 false htold with hold |
    ⟨choice, path₀, cfg₀, r, r₁, os, rfl, hx, hrun, hmem⟩
  · obtain ⟨path₀, cfg₀, r, hx, -⟩ := hsignals.told x false hold
    have hended := hlog.told x path₀ cfg₀ r hold hx
    rcases running_moves ht hx hx' with ⟨hcore, -⟩ | ⟨choice, r₁, os, hrun, hcore, -⟩
    · exact (Runner.phase_of_core hcore).trans hended
    · exact (Runner.phase_of_core hcore).trans
        ((Runner.step_transition hrun).ended hended)
  · rw [Runner.phase_of_core (running_of_run ht hx hrun hx')]
    exact ((Runner.step_transition hrun).failureTold hmem).2.2

/-- What a start that has failed has created was over before the step. -/
theorem OrphanLog.clean_before (hlog : OrphanLog h) (hsignals : SignalLog h)
    (hphases : ∀ x path cfg r, h.system.creations x = .running path cfg r →
      r.StartPhase)
    (hguard : h.FailsAlone i) (hstep : h.step i = some (t, o)) {x : Nat}
    {path : ActorPath} {cfg : RunnerConfig} {r' : Runner M Ev}
    (hx' : t.system.creations x = .running path cfg r')
    (hfailed : r'.StartFailed ∨ t.signalled x = some false) : h.NoOrphans x := by
  have ht := step_transition hstep
  rcases hfailed with hfailed | htold
  · rcases running_cases ht hx' with ⟨-, rfl, -⟩ | ⟨r, hx, hcore, -⟩ |
      ⟨r, choice, r₁, os, hx, hrun, hcore, hchoice⟩
    · simp [Runner.StartFailed, Runner.create] at hfailed
    · exact hlog.clean x path cfg r hx (Or.inl (hfailed.of_core hcore))
    · rcases Runner.startFailed_origin (hphases x path cfg r hx) hrun
        (hfailed.of_core hcore) with hold | ⟨hsignal, hhook, e, heq⟩
      · exact hlog.clean x path cfg r hx (Or.inl hold)
      · cases heq
        rcases hchoice with rfl | ⟨child, -, hno⟩
        · exact hguard path cfg r hx hsignal hhook
        · contradiction
  · rcases (signalled_cases ht x).1 false htold with hold |
      ⟨choice, path₀, cfg₀, r, r₁, os, -, hx, hrun, hmem⟩
    · obtain ⟨path₀, cfg₀, r, hx, -⟩ := hsignals.told x false hold
      exact hlog.clean x path₀ cfg₀ r hx (Or.inr hold)
    · obtain ⟨hphase, hsignal, -⟩ := (Runner.step_transition hrun).failureTold hmem
      refine hlog.clean x path₀ cfg₀ r hx (Or.inl ⟨hsignal, ?_⟩)
      simp [hphase]

theorem OrphanLog.step (hlog : OrphanLog h) (hsignals : SignalLog h)
    (hphases : ∀ x path cfg r, h.system.creations x = .running path cfg r →
      r.StartPhase)
    (hguard : h.FailsAlone i) (hstep : h.step i = some (t, o)) : OrphanLog t := by
  have htold : ∀ x path cfg r', t.signalled x = some false →
      t.system.creations x = .running path cfg r' → r'.phase = .ended :=
    fun x path cfg r' htold hx' => hlog.ended_of_step hsignals hstep htold hx'
  refine ⟨htold, fun x path cfg r' hx' hfailed => ?_⟩
  refine noOrphans_of_step hstep
    (hlog.clean_before hsignals hphases hguard hstep hx' hfailed) ?_
  -- an actor that creates runs a hook, in which its start has not failed
  rintro call name strategy path₀ cfg₀ r hook rfl hx hphase hhook
  have hphase' : r'.phase = .inHook hook := by
    rcases running_moves (step_transition hstep) hx hx' with ⟨hcore, -⟩ |
      ⟨choice, r₁, os, -, -, hno | ⟨child, hno, -⟩⟩
    · exact (Runner.phase_of_core hcore).trans hphase
    · contradiction
    · contradiction
  rcases hfailed with ⟨-, hfailed⟩ | hfailed
  · cases hook <;> simp only [Hook.IsStart] at hhook <;> simp [hphase'] at hfailed
  · simp [htold x path cfg r' hfailed hx'] at hphase'

theorem orphanLog_of_execute {inputs : List (HierarchyInput M Ev)}
    (hrun : execute step empty inputs = some (h, seen))
    (hmeet : StepsMeet step FailsAlone empty inputs) : OrphanLog h := by
  refine execute_history_of_run (G := FailsAlone) (P := fun h _ => OrphanLog h)
    ?_ ⟨by simp [empty], by simp [empty, System.empty]⟩ hmeet hrun
  intro before h seen i t o hbefore hlog hguard hstep
  refine hlog.step (signalLog_of_execute hbefore) ?_ hguard hstep
  intro x path cfg r hx
  obtain ⟨is, hrunner⟩ := runner_of_execute hbefore hx
  exact Runner.startPhase_of_execute hrunner

/-- Nothing that the start hooks of an actor have created is running or
registered, at any depth. -/
def NothingLeft (h : Hierarchy M Ev) (x : Nat) : Prop :=
  ∀ child hook, h.origin child = some ⟨x, hook⟩ → hook.IsStart →
    ∀ d, Relation.ReflTransGen h.CreatedBy child d →
      h.system.Over d ∧ ∀ path, h.system.actors path ≠ some d

theorem NoOrphans.nothingLeft {inputs : List (HierarchyInput M Ev)} {x : Nat}
    (hclean : h.NoOrphans x)
    (hrun : execute step empty inputs = some (h, seen)) : h.NothingLeft x := by
  intro child hook hchild hhook d hd
  obtain ⟨is, hsystem⟩ := system_of_execute hrun
  have hover := hclean child hook hchild hhook d hd
  exact ⟨hover, fun path => hover.not_registered hsystem path⟩

/-- **No orphans.**  Let every start hook that fails leave nothing behind.  Once
a creator is told of a failed start, nothing that the start hooks have created
is running or registered, and so it is at the beginning of each further attempt. -/
theorem failed_start_leaves_nothing {inputs : List (HierarchyInput M Ev)}
    (hrun : execute step empty inputs = some (h, seen))
    (hmeet : StepsMeet step FailsAlone empty inputs) :
    (∀ x, h.signalled x = some false → h.NothingLeft x) ∧
      ∀ i t o x path e, h.step i = some (t, o) →
        .system (.does x path (.called (.preRestart e))) ∈ o →
        h.signalled x = none → t.NothingLeft x := by
  have hlog := orphanLog_of_execute hrun hmeet
  have hsignals := signalLog_of_execute hrun
  constructor
  · intro x htold
    obtain ⟨path, cfg, r, hx, -⟩ := hsignals.told x false htold
    exact (hlog.clean x path cfg r hx (Or.inr htold)).nothingLeft hrun
  · intro i t o x path e hstep hmem hnone
    obtain ⟨choice, cfg, r, r', os, rfl, hx, hrunner, hcalled⟩ :=
      run_of_does (step_transition hstep) hmem
    have hfailed : r.StartFailed := by
      refine ⟨hsignals.waiting x path cfg r hx hnone, ?_⟩
      obtain ⟨hphase, hlife⟩ := Runner.restarted_of_preRestart hrunner hcalled
      simp [hphase, hlife]
    have hclean := noOrphans_of_step hstep
      (hlog.clean x path cfg r hx (Or.inl hfailed)) (by simp)
    have hafter : execute step empty (inputs ++ [.run x choice]) =
        some (t, seen ++ o) :=
      execute_append.mpr ⟨h, seen, o, hrun, execute_single hstep, rfl⟩
    exact hclean.nothingLeft hafter

/-- A hook succeeds or fails. -/
def startResult : Bool → Choice Unit
  | true => .returns (.ok ())
  | false => .returns (.error (.functional "start"))

/-- A root actor whose `pre_start` creates a child. -/
def createsInPreStart (strategy : SupervisionStrategy) :
    List (HierarchyInput Unit Unit) :=
  [.createRoot 0 ['a'] strategy, .insert 0, .run 0 .proceed,
    .createChild 0 1 ['c'] .stop, .insert 1, .run 1 .proceed,
    .run 1 (startResult true), .run 1 .proceed, .created 0]

/-- The child stops. -/
def stopsChild : List (HierarchyInput Unit Unit) :=
  [.arrive 1 (.stop ⟨.outside, none⟩), .run 1 .takeStop,
    .run 1 (startResult true), .run 1 .proceed, .run 1 .proceed, .run 1 .proceed,
    .run 1 .proceed, .run 1 .proceed, .run 1 (startResult true), .run 1 .proceed,
    .run 1 .proceed]

/-- `pre_restart` creates a child of the same name, and fails again. -/
def failsOnRetry : List (HierarchyInput Unit Unit) :=
  [.run 0 .proceed, .run 0 .proceed, .createChild 0 2 ['c'] .stop, .created 0,
    .run 0 (startResult false), .run 0 .proceed, .run 0 .proceed,
    .run 0 (startResult true), .run 0 .proceed, .run 0 .proceed]

/-- A start that fails with its child running, with one more attempt. -/
def failsWithChild : List (HierarchyInput Unit Unit) :=
  createsInPreStart (.retry (.noInterval 1)) ++ .run 0 (startResult false) :: failsOnRetry

/-- A start that stops its child before it fails. -/
def failsAlone : List (HierarchyInput Unit Unit) :=
  createsInPreStart .stop ++ stopsChild ++ .run 0 (startResult false) ::
    [.run 0 .proceed, .run 0 .proceed, .run 0 .proceed,
      .run 0 (startResult true), .run 0 .proceed, .run 0 .proceed]

/-- The only actor that a hook has created, and it is over. -/
theorem noOrphans_of_single {parent : Nat} (child : Nat) (hook : Hook M)
    (horigin : h.origin = Function.update (fun _ => none) child (some ⟨parent, hook⟩))
    (hne : parent ≠ child) (hover : h.system.Over child) : h.NoOrphans parent := by
  have honly : ∀ {x y : Nat}, h.CreatedBy x y → x = parent ∧ y = child := by
    rintro x y ⟨hook', hedge⟩
    by_cases heq : y = child
    · subst heq
      have hboth : parent = x ∧ hook = hook' := by simpa [horigin] using hedge
      exact ⟨hboth.1.symm, rfl⟩
    · simp [horigin, heq] at hedge
  intro child' hook' hchild _ d hd
  obtain ⟨-, rfl⟩ := honly ⟨hook', hchild⟩
  rcases hd.cases_head with rfl | ⟨c, hedge, -⟩
  · exact hover
  · exact absurd (honly hedge).1.symm hne

/-- A hook returns `Err`. -/
def failsHook : HierarchyInput M Ev → Bool
  | .run _ (.returns (.error _)) => true
  | _ => false

theorem failsAlone_of_not_failsHook (hi : failsHook i = false) : h.FailsAlone i := by
  unfold FailsAlone
  split
  · contradiction
  · trivial

theorem failsAlone_meets : StepsMeet step FailsAlone empty failsAlone := by
  refine stepsMeet_append.mpr ⟨stepsMeet_of_forall (fun i hi s => ?_) empty,
    fun t os hrun => ?_⟩
  · have hquiet : ∀ i ∈ createsInPreStart .stop ++ stopsChild,
        failsHook i = false := by decide
    exact failsAlone_of_not_failsHook (hquiet i hi)
  · cases hrun
    refine (stepsMeet_cons rfl).mpr
      ⟨fun _ _ _ _ _ _ => ?_, stepsMeet_of_forall (fun i hi s => ?_) _⟩
    · exact noOrphans_of_single 1 .preStart rfl (by decide) rfl
    · have hquiet : failsHook i = false := by
        revert i
        decide
      exact failsAlone_of_not_failsHook hquiet

/-- `failed_start_leaves_nothing` at a start that stops its child first. -/
theorem failsAlone_leaves_nothing :
    ∃ h seen, execute step empty failsAlone = some (h, seen) ∧
      h.origin 1 = some ⟨0, .preStart⟩ ∧ h.NothingLeft 0 :=
  ⟨_, _, rfl, rfl, (failed_start_leaves_nothing rfl failsAlone_meets).1 0 rfl⟩

/-- The path of the child. -/
def childPath : ActorPath := ⟨[['u', 's', 'e', 'r'], ['a'], ['c']]⟩

/-- The child of a failed start is left running and registered, and the retry
that creates it again is refused. -/
theorem failsWithChild_leaves_child :
    (execute step empty failsWithChild).map
        (fun p => (p.1.signalled 0, p.1.origin 1, p.1.system.actors childPath,
          p.1.system.channelOpen 1)) =
      some (some false, some ⟨0, .preStart⟩, some 1, true) ∧
    (execute step empty failsWithChild).map
        (fun p => decide (.system (.exists 2 childPath) ∈ p.2)) = some true ∧
    ¬ ∀ (inputs : List (HierarchyInput Unit Unit)) (h : Hierarchy Unit Unit)
        (seen : List (HierarchyObs Unit Unit)),
      execute step empty inputs = some (h, seen) →
        ∀ x, h.signalled x = some false → h.NothingLeft x := by
  refine ⟨by decide, by decide, fun hall => ?_⟩
  have hleft := hall failsWithChild _ _ rfl 0 rfl
  exact (hleft 1 .preStart rfl trivial 1 .refl).2 childPath rfl

end Hierarchy

end Actor
end Rush
