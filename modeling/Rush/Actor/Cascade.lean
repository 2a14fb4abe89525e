import Rush.Actor.Orphans
import Rush.Actor.StopFinality
import Rush.Actor.StopOrder

/-!
# A stop cascades over the tree

When a stop is acknowledged, the children of the actor are settled: they have
acknowledged for good, or they have ended.  A settled child has settled its own
children before, unless it has got there without the stop branch of `run`: by a
restart that fails for the last time.  If such a restart leaves no child behind,
and no `post_stop` creates one, nobody below an actor that has acknowledged is
registered.
-/

namespace Rush
namespace Actor

open Foundation

variable {M Ev : Type}

namespace Runner

variable {cfg : RunnerConfig} {r r' : Runner M Ev} {o seen : List (Obs M Ev)}
  {i : Input M Ev}

/-- The control of a runner decides whether it is settled. -/
theorem settled_of_core (h : r'.core = r.core) : r'.Settled cfg ↔ r.Settled cfg := by
  have herror := congrArg Runner.error h
  have hretries := congrArg Runner.retries h
  simp only [core] at herror hretries
  unfold Settled
  rw [phase_of_core h, lifecycle_of_core h, herror, hretries]

/-- A started runner that has removed its path. -/
def PastRemoval (r : Runner M Ev) : Prop :=
  match r.phase with
  | .dispatch => r.signal = false
  | .inHook .preStart => r.signal = false
  | .inHook (.preRestart _) => r.signal = false
  | .inHook .postStop => r.signal = false
  | .acknowledging _ => True
  | .returned => True
  | .terminating => True
  | .ended => True
  | _ => False

theorem pastRemoval_origin (h : r'.PastRemoval) (ht : Transition cfg r r' o) :
    r.PastRemoval ∨ .removeActor ∈ o := by
  unfold PastRemoval at *
  cases ht with
  | operates hook op r' hphase hop =>
      obtain ⟨hphase', -, -, -, hsignal⟩ := operate_frame hop
      rw [hphase', hsignal] at h
      exact Or.inl h
  | arrives => exact Or.inl h
  | takesChildError error rest hook hphase hsignal hqueue hhook =>
      rcases hhook with ⟨e, rfl, rfl⟩ | ⟨e, sender, rfl, rfl⟩ <;> simp at h
  | _ => simp_all

theorem PastRemoval.removed {inputs : List (Input M Ev)} (h : r.PastRemoval)
    (hrun : execute (Runner.step cfg) create inputs = some (r, seen)) :
    .removeActor ∈ seen := by
  refine execute_history (G := fun _ _ => True)
    (P := fun r seen => r.PastRemoval → Obs.removeActor ∈ seen) ?_ []
    (by simp [PastRemoval, create]) (stepsMeet_true _ inputs) hrun h
  intro s seen i t o hold _ hstep hpast
  rw [List.mem_append]
  exact (pastRemoval_origin hpast (step_transition hstep)).imp hold id

theorem Settled.pastRemoval (h : r.Settled cfg) (hsignal : r.signal = false) :
    r.PastRemoval := by
  unfold Settled at h
  unfold PastRemoval
  split at h <;> simp_all

/-- The creator is told of a success by a runner that enters `run`. -/
theorem Transition.successTold (ht : Transition cfg r r' o)
    (hmem : .signal true ∈ o) : r'.phase = .selecting := by
  cases ht with
  | entersRun => rfl
  | ends => simp at hmem
  | takesError => split at hmem <;> simp at hmem
  | restarts strategy =>
      cases hbackoff : strategy.nextBackoff.1 <;> simp [hbackoff] at hmem
  | _ => simp at hmem

/-- A started child gets settled by its acknowledgement, or by a restart that
fails for the last time. -/
theorem settled_origin (hparent : cfg.hasParent = true) (hlog : r.StopLog seen)
    (hsignal : r.signal = false) (hnot : ¬ r.Settled cfg) (h : r'.Settled cfg)
    (hstep : step cfg r i = some (r', o)) :
    (∃ request, r.phase = .acknowledging request) ∨
      ((∃ e, r.phase = .inHook (.preRestart e)) ∧
        ¬ cfg.strategy.Restarts r.retries ∧
        ∃ e, i = .choice (.returns (.error e))) := by
  have hplace := hlog.inPlace
  have hcreated : r.lifecycle ≠ .created := fun hlife => by
    simp [hlog.starting hlife] at hsignal
  have ht := step_transition hstep
  unfold Settled InPlace at *
  cases ht with
  | operates hook op r' hphase hop =>
      obtain ⟨hphase', -⟩ := operate_frame hop
      rw [hphase', hphase] at h
      rw [hphase] at hnot
      cases hook <;> simp_all
  | preRestartErr e e' hphase =>
      refine Or.inr ⟨⟨e, hphase⟩, ?_, ?_⟩
      · simp_all
      · rcases startHook_step hphase trivial hstep with hsame | ⟨-, hlife⟩ | herror
        · simp [hphase] at hsame
        · simp_all
        · exact herror
  | takesChildError error rest hook hphase hsignal hqueue hhook =>
      rcases hhook with ⟨e, rfl, rfl⟩ | ⟨e, sender, rfl, rfl⟩ <;> simp_all
  | handles hook hphase hhook =>
      rcases hhook with ⟨e, rfl⟩ | ⟨m, rfl⟩ <;> simp_all
  | arrives => exact absurd h hnot
  | _ => simp_all

end Runner

/-- A stop that the parent has asked for is final: no restart is pending. -/
def Creation.StopsForGood (call : Nat) : Creation M Ev → Prop
  | .running _ cfg r =>
      r.phase = .acknowledging (stopRequest call) → r.StopIsFinal cfg
  | _ => True

instance [DecidableEq M] (call : Nat) :
    (creation : Creation M Ev) → Decidable (creation.StopsForGood call)
  | .running _ cfg r =>
      inferInstanceAs (Decidable (r.phase = _ → r.StopIsFinal cfg))
  | .absent | .checked _ _ | .refused _ => isTrue trivial

/-- The restart that is about to fail is the last one. -/
def Runner.LastRestart (cfg : RunnerConfig) (r : Runner M Ev) : Prop :=
  (∃ error, r.phase = .inHook (.preRestart error)) ∧
    ¬ cfg.strategy.Restarts r.retries

instance (cfg : RunnerConfig) (r : Runner M Ev) : Decidable (r.LastRestart cfg) :=
  have : Decidable (∃ error, r.phase = .inHook (.preRestart error)) :=
    match hphase : r.phase with
    | .inHook (.preRestart error) => isTrue ⟨error, rfl⟩
    | .inHook .preStart | .inHook (.preStop _) | .inHook .postStop
    | .inHook (.onChildError _) | .inHook (.onChildFault _ _)
    | .inHook (.handleMessage _) | .dispatch | .selecting | .awaitingAction
    | .stoppingItself | .stoppingChilds _ | .awaitingChild _ | .removing _
    | .acknowledging _ | .returned | .terminating | .ended =>
        isFalse (by simp)
  inferInstanceAs (Decidable (_ ∧ _))

namespace System

/-- The runner of the call is settled. -/
def SettledIn (s : System M Ev) (call : Nat) : Prop :=
  match s.creations call with
  | .running _ cfg r => r.Settled cfg
  | _ => False

instance (s : System M Ev) (call : Nat) : Decidable (s.SettledIn call) :=
  match hcall : s.creations call with
  | .running path cfg r =>
      decidable_of_iff (r.Settled cfg) (by simp only [SettledIn, hcall])
  | .absent | .checked _ _ | .refused _ => isFalse (by simp [SettledIn, hcall])

theorem SettledIn.step {s t : System M Ev} {i : SystemInput M Ev}
    {o : List (SystemObs M Ev)} {call : Nat} (h : s.SettledIn call)
    (hstep : s.step i = some (t, o)) : t.SettledIn call := by
  unfold SettledIn at *
  rcases creation_cases hstep call with hsame | habsent |
    ⟨path, cfg, hchecked, -⟩ | ⟨path, cfg, r, r', os, hcall, hcall', ht⟩
  · rwa [hsame]
  · simp [habsent] at h
  · simp [hchecked] at h
  · simp only [hcall] at h
    simpa only [hcall'] using (h.step ht).1

/-- The call was made by `create_child`. -/
def ChildCall (s : System M Ev) (call : Nat) : Prop :=
  match s.creations call with
  | .absent => False
  | .checked _ cfg => cfg.hasParent = true
  | .refused _ => True
  | .running _ cfg _ => cfg.hasParent = true

theorem ChildCall.step {s t : System M Ev} {i : SystemInput M Ev}
    {o : List (SystemObs M Ev)} {call : Nat} (h : s.ChildCall call)
    (hstep : s.step i = some (t, o)) : t.ChildCall call := by
  unfold ChildCall at *
  rcases creation_cases hstep call with hsame | habsent |
    ⟨path, cfg, hchecked, hinserted⟩ | ⟨path, cfg, r, r', os, hcall, hcall', -⟩
  · rwa [hsame]
  · simp [habsent] at h
  · simpa only [hchecked, hinserted] using h
  · simpa only [hcall, hcall'] using h

end System

namespace Hierarchy

variable {h t : Hierarchy M Ev} {i : HierarchyInput M Ev}
  {o seen : List (HierarchyObs M Ev)} {x c : Nat}

/-- No actor acknowledges the request of its parent with a restart pending that
the action of the parent has asked for. -/
def StopsForGood (h : Hierarchy M Ev) : HierarchyInput M Ev → Prop
  | .run x .proceed => (h.system.creations x).StopsForGood x
  | _ => True

/-- No child actor is left by a child of its own: its `post_stop` creates none,
and when its last restart fails, those that it has created are settled. -/
def LeavesNoChild (h : Hierarchy M Ev) : HierarchyInput M Ev → Prop
  | .created x =>
      match h.system.creations x, h.creating x with
      | .running _ cfg r, some c =>
          cfg.hasParent = true → r.phase = .inHook .postStop →
            h.signalled c ≠ some true
      | _, _ => True
  | .run x (.returns (.error _)) =>
      match h.system.creations x with
      | .running _ cfg r =>
          cfg.hasParent = true → h.signalled x = some true → r.LastRestart cfg →
            ∀ c ∈ r.childSenders, h.system.SettledIn c
      | _ => True
  | _ => True

theorem settledIn_of_step (hstep : h.step i = some (t, o))
    (hc : h.system.SettledIn c) : t.system.SettledIn c :=
  system_keeps (fun _ _ _ _ hold hs => System.SettledIn.step hold hs) hstep hc

theorem childCall_of_step (hstep : h.step i = some (t, o))
    (hc : h.system.ChildCall c) : t.system.ChildCall c :=
  system_keeps (fun _ _ _ _ hold hs => System.ChildCall.step hold hs) hstep hc

/-- The children of an actor were created by `create_child`. -/
structure ParentLog (h : Hierarchy M Ev) (seen : List (HierarchyObs M Ev)) :
    Prop where
  creating : ∀ x c, h.creating x = some c → h.system.ChildCall c
  created : ∀ x c, c ∈ createdBy x seen → h.system.ChildCall c

theorem ParentLog.step (hlog : ParentLog h seen) (hstep : h.step i = some (t, o)) :
    ParentLog t (seen ++ o) := by
  have ht := step_transition hstep
  constructor
  · intro x c hx
    cases ht with
    | createsChild parent call name strategy path cfg r hook s os hparent hphase
        hcreating hsystem =>
        by_cases heq : x = parent
        · subst heq
          obtain rfl : call = c := by simpa using hx
          cases System.step_transition hsystem with
          | refuses | checks => simp [System.ChildCall]
        · exact childCall_of_step hstep (hlog.creating x c (by simpa [heq] using hx))
    | createFails parent call hcreating | creates parent call _ _ _ _ hcreating =>
        by_cases heq : x = parent
        · simp [heq] at hx
        · exact childCall_of_step hstep (hlog.creating x c (by simpa [heq] using hx))
    | runs call choice path cfg r r' os hmay hcall hrun =>
        refine childCall_of_step hstep (hlog.creating x c ?_)
        rw [← ranTo_creating h call choice path cfg r' os]
        exact hx
    | _ => exact childCall_of_step hstep (hlog.creating x c hx)
  · intro x c hc
    refine childCall_of_step hstep ?_
    rw [createdBy_append, List.mem_append] at hc
    rcases hc with hc | hc
    · exact hlog.created x c hc
    · exact hlog.creating x c ((senders_step ht x).of_created hc).2.1

theorem parentLog_of_execute {inputs : List (HierarchyInput M Ev)}
    (hrun : execute step empty inputs = some (h, seen)) : ParentLog h seen :=
  execute_history (G := fun _ _ => True) (P := ParentLog)
    (fun _ _ _ _ _ hlog _ hstep => hlog.step hstep) []
    ⟨by simp [empty], by simp [createdBy]⟩ (stepsMeet_true empty inputs) hrun

/-- Who of the children of an actor is settled. -/
structure CascadeLog (h : Hierarchy M Ev) (seen : List (HierarchyObs M Ev)) :
    Prop where
  child : ∀ x c, c ∈ createdBy x seen → c ∈ h.system.childSenders x ∨
    h.awaited x = some c ∨ h.system.SettledIn c
  cascade : ∀ x path cfg r, h.system.creations x = .running path cfg r →
    cfg.hasParent = true → h.signalled x = some true → r.Settled cfg →
      ∀ c ∈ createdBy x seen, h.system.SettledIn c
  answered : ∀ c, h.stop c = .answered → h.system.SettledIn c

/-- A child that is over is settled. -/
theorem ChildLog.settled_of_over (hlog : ChildLog h seen) (hsignals : SignalLog h)
    (hc : c ∈ createdBy x seen) (hover : h.system.Over c) :
    h.system.SettledIn c := by
  obtain ⟨path, cfg, r, hrunning, -⟩ := hsignals.told c true (hlog.signalled x c hc)
  have hended : r.phase = .ended := by simpa [System.Over, hrunning] using hover
  simp [System.SettledIn, hrunning, Runner.Settled, hended]

section Step

variable {inputs : List (HierarchyInput M Ev)}
  (hbefore : execute step empty inputs = some (h, seen))
  (hlog : CascadeLog h seen) (hstep : h.step i = some (t, o))

include hbefore hlog hstep

theorem CascadeLog.child_step (hc : c ∈ createdBy x (seen ++ o)) :
    c ∈ t.system.childSenders x ∨ t.awaited x = some c ∨ t.system.SettledIn c := by
  have hchilds := childLog_of_execute hbefore
  have hsignals := signalLog_of_execute hbefore
  have hclosed : c ∈ createdBy x seen → h.system.channelOpen c = false →
      t.system.SettledIn c := fun hmem hclosed =>
    settledIn_of_step hstep (hchilds.settled_of_over hsignals hmem
      (hchilds.over_of_closed hsignals hmem hclosed))
  rw [createdBy_append, List.mem_append] at hc
  cases senders_step (step_transition hstep) x with
  | keeps hsenders hcreated _ _ hawaited =>
      have hmem : c ∈ createdBy x seen := by simpa [hcreated] using hc
      rcases hlog.child x c hmem with hold | hold | hold
      · exact Or.inl (hsenders ▸ hold)
      · rcases hawaited with ⟨hsame, -⟩ | ⟨-, hanswer⟩
        · exact Or.inr (Or.inl (hsame.trans hold))
        · refine Or.inr (Or.inr ?_)
          rcases hanswer c hold with hanswered | hchannel
          · exact settledIn_of_step hstep (hlog.answered c hanswered)
          · exact hclosed hmem hchannel
      · exact Or.inr (Or.inr (settledIn_of_step hstep hold))
  | creates child _ _ _ _ _ _ _ _ _ hsenders hcreated _ _ hawaited =>
      rw [hsenders]
      rcases hc with hmem | hnew
      · rcases hlog.child x c hmem with hold | hold | hold
        · exact Or.inl (List.mem_cons_of_mem child hold)
        · exact Or.inr (Or.inl (hawaited.trans hold))
        · exact Or.inr (Or.inr (settledIn_of_step hstep hold))
      · exact Or.inl (by simp_all)
  | asks child path cfg r request _ hx hphase _ hsenders hcreated _ _ hawaited =>
      have hmem : c ∈ createdBy x seen := by simpa [hcreated] using hc
      rcases hlog.child x c hmem with hold | hold | hold
      · rw [hsenders, List.mem_cons] at hold
        rcases hold with rfl | hold
        · exact Or.inr (Or.inl hawaited)
        · exact Or.inl hold
      · exact absurd hold (hchilds.not_awaited hx (by simp [hphase]))
      · exact Or.inr (Or.inr (settledIn_of_step hstep hold))
  | closes child _ hsenders hcreated _ _ hawaited hchannel =>
      have hmem : c ∈ createdBy x seen := by simpa [hcreated] using hc
      rcases hlog.child x c hmem with hold | hold | hold
      · rw [hsenders, List.mem_cons] at hold
        rcases hold with rfl | hold
        · exact Or.inr (Or.inr (hclosed hmem hchannel))
        · exact Or.inl hold
      · exact Or.inr (Or.inl (hawaited.trans hold))
      · exact Or.inr (Or.inr (settledIn_of_step hstep hold))

theorem CascadeLog.answered_step (hguard : h.StopsForGood i)
    (hc : t.stop c = .answered) : t.system.SettledIn c := by
  have ht := step_transition hstep
  rcases answered_cases ht hc with hold | ⟨path, hmem⟩
  · exact settledIn_of_step hstep (hlog.answered c hold)
  · obtain ⟨choice, cfg, r, r', os, rfl, hx, hrunner, hacked⟩ := run_of_does ht hmem
    obtain ⟨hphase, rfl, -⟩ := Runner.acknowledging_of_acknowledged hrunner hacked
    have hfinal : r.StopIsFinal cfg := by
      have hstops : (h.system.creations c).StopsForGood c := hguard
      rw [hx] at hstops
      exact hstops hphase
    obtain ⟨is, hexec⟩ := runner_of_execute hbefore hx
    have hlife : r.lifecycle = .started ∨ r.lifecycle = .restarted :=
      Runner.runsStarted_of_execute hexec (by simp [Runner.InRun, hphase])
    have hsettled := (Runner.settled_of_stopIsFinal hphase hlife hfinal hrunner).1
    obtain ⟨r'', hx'⟩ := running_of_step hstep hx
    have hcore := running_of_run ht hx hrunner hx'
    simpa [System.SettledIn, hx'] using (Runner.settled_of_core hcore).mpr hsettled

omit hbefore hlog in
/-- A settled child creates no child of its own. -/
theorem created_of_settled (hguard : h.LeavesNoChild i) {path : ActorPath}
    {cfg : RunnerConfig} {r' : Runner M Ev} (hparent : cfg.hasParent = true)
    (hx' : t.system.creations x = .running path cfg r') (hsettled : r'.Settled cfg) :
    createdBy x o = [] := by
  have ht := step_transition hstep
  rw [List.eq_nil_iff_forall_not_mem]
  intro c hc
  obtain ⟨rfl, hcreating, hsignalled, path₀, cfg₀, r, hook, hx, hphase⟩ :=
    (senders_step ht x).of_created hc
  obtain ⟨r₀, hx₀⟩ := running_of_step hstep hx
  obtain ⟨rfl, rfl, rfl⟩ : path₀ = path ∧ cfg₀ = cfg ∧ r₀ = r' := by
    simpa [hx'] using hx₀.symm
  have hphase' : r₀.phase = .inHook hook := by
    rcases running_moves ht hx hx' with ⟨hcore, -⟩ |
      ⟨choice, r₁, os, hrunner, hcore, hno | ⟨call, -, rfl⟩⟩
    · exact (Runner.phase_of_core hcore).trans hphase
    · contradiction
    · obtain ⟨-, hop, -⟩ := Runner.step_operation hrunner
      rw [Runner.phase_of_core hcore, (Runner.operate_frame hop).1, hphase]
  -- only `post_stop` runs in a settled child
  have hhook : hook = .postStop := by
    cases hook <;> simp_all [Runner.Settled]
  subst hhook
  simp only [LeavesNoChild, hx, hcreating] at hguard
  exact hguard hparent hphase hsignalled

/-- The children of a child that gets settled have been settled before. -/
theorem CascadeLog.settled_before (hguard : h.LeavesNoChild i) {path : ActorPath}
    {cfg : RunnerConfig} {r r' : Runner M Ev} (hparent : cfg.hasParent = true)
    (hx : h.system.creations x = .running path cfg r)
    (hx' : t.system.creations x = .running path cfg r')
    (htold : h.signalled x = some true) (hsignal : r.signal = false)
    (hsettled : r'.Settled cfg) (hc : c ∈ createdBy x seen) :
    h.system.SettledIn c := by
  have hchilds := childLog_of_execute hbefore
  obtain ⟨is, hexec⟩ := runner_of_execute hbefore hx
  have hsenders : h.system.childSenders x = r.childSenders := by
    simp [System.childSenders, hx]
  by_cases hr : r.Settled cfg
  · exact hlog.cascade x path cfg r hx hparent htold hr c hc
  · rcases running_moves (step_transition hstep) hx hx' with ⟨hcore, -⟩ |
      ⟨choice, r₁, os, hrunner, hcore, hchoice⟩
    · exact absurd ((Runner.settled_of_core hcore).mp hsettled) hr
    · rcases Runner.settled_origin hparent (Runner.stopLog_of_execute hexec) hsignal hr
        ((Runner.settled_of_core hcore).mp hsettled) hrunner with
        ⟨request, hphase⟩ | ⟨⟨e, hphase⟩, hlast, e', heq⟩
      · have hnone : r.childSenders = [] := by
          simpa [Runner.ChildsStopped, hphase] using
            Runner.childsStopped_of_execute hexec
        rcases hlog.child x c hc with hmem | hawaited | hold
        · simp [hsenders, hnone] at hmem
        · exact absurd hawaited (hchilds.not_awaited hx (by simp [hphase]))
        · exact hold
      · cases heq
        rcases hchoice with rfl | ⟨child, -, hno⟩
        · rcases hlog.child x c hc with hmem | hawaited | hold
          · simp only [LeavesNoChild, hx] at hguard
            exact hguard hparent htold ⟨⟨e, hphase⟩, hlast⟩ c (hsenders ▸ hmem)
          · exact absurd hawaited (hchilds.not_awaited hx (by simp [hphase]))
          · exact hold
        · contradiction

theorem CascadeLog.cascade_step (hguard : h.LeavesNoChild i) {path : ActorPath}
    {cfg : RunnerConfig} {r' : Runner M Ev}
    (hx' : t.system.creations x = .running path cfg r')
    (hparent : cfg.hasParent = true) (htold : t.signalled x = some true)
    (hsettled : r'.Settled cfg) (hc : c ∈ createdBy x (seen ++ o)) :
    t.system.SettledIn c := by
  have ht := step_transition hstep
  rw [createdBy_append, created_of_settled hstep hguard hparent hx' hsettled,
    List.append_nil] at hc
  rcases (signalled_cases ht x).1 true htold with hold |
    ⟨choice, path₀, cfg₀, r, r₁, os, rfl, hx, hrunner, hmem⟩
  · obtain ⟨path₀, cfg₀, r, hx, hsignal⟩ :=
      (signalLog_of_execute hbefore).told x true hold
    obtain ⟨r₀, hx₀⟩ := running_of_step hstep hx
    obtain ⟨rfl, rfl, rfl⟩ : path₀ = path ∧ cfg₀ = cfg ∧ r₀ = r' := by
      simpa [hx'] using hx₀.symm
    exact settledIn_of_step hstep (hlog.settled_before hbefore hstep hguard hparent hx
      hx' hold hsignal hsettled hc)
  · -- a child that has just been started is not settled
    have hcore := running_of_run ht hx hrunner hx'
    have hphase := (Runner.step_transition hrunner).successTold hmem
    simp [Runner.Settled, Runner.phase_of_core hcore, hphase] at hsettled

end Step

theorem cascadeLog_of_execute {inputs : List (HierarchyInput M Ev)}
    (hrun : execute step empty inputs = some (h, seen))
    (hfinal : StepsMeet step StopsForGood empty inputs)
    (hmeet : StepsMeet step LeavesNoChild empty inputs) : CascadeLog h seen := by
  have hstart : CascadeLog (empty : Hierarchy M Ev) [] := by
    constructor <;> simp [empty, createdBy, System.empty]
  refine execute_history_of_run ?_ hstart (stepsMeet_and.mpr ⟨hfinal, hmeet⟩) hrun
  rintro before h seen i t o hbefore hlog ⟨hfinal, hguard⟩ hstep
  exact
    { child := fun _ _ hc => hlog.child_step hbefore hstep hc
      cascade := fun _ _ _ _ hx hparent htold hsettled _ hc =>
        hlog.cascade_step hbefore hstep hguard hx hparent htold hsettled hc
      answered := fun _ hc => hlog.answered_step hbefore hstep hfinal hc }

/-- A started actor that has removed its path is not registered. -/
theorem not_registered_of_pastRemoval {inputs : List (HierarchyInput M Ev)}
    {path : ActorPath} {cfg : RunnerConfig} {r : Runner M Ev}
    (hrun : execute step empty inputs = some (h, seen))
    (hx : h.system.creations x = .running path cfg r) (hpast : r.PastRemoval)
    (other : ActorPath) : h.system.actors other ≠ some x := by
  obtain ⟨is, hsystem⟩ := system_of_execute hrun
  obtain ⟨js, hexec⟩ := System.runner_of_execute hsystem hx
  exact System.not_registered_of_removed hsystem (hpast.removed hexec) other

/-- The second actor is the first one, or it was created below it. -/
def Below (seen : List (HierarchyObs M Ev)) : Nat → Nat → Prop :=
  Relation.ReflTransGen fun parent child => child ∈ createdBy parent seen

/-- All below an actor whose children are settled are settled. -/
theorem CascadeLog.settled_below (hlog : CascadeLog h seen)
    (hchilds : ChildLog h seen) (hparents : ParentLog h seen)
    (hx : ∀ c ∈ createdBy x seen, h.system.SettledIn c) {d : Nat}
    (hd : Below seen x d) :
    d = x ∨ (∃ parent, d ∈ createdBy parent seen) ∧ h.system.SettledIn d := by
  induction hd with
  | refl => exact Or.inl rfl
  | @tail d c _ hc ih =>
      refine Or.inr ⟨⟨d, hc⟩, ?_⟩
      rcases ih with rfl | ⟨⟨parent, hd⟩, hsettled⟩
      · exact hx c hc
      · have htold := hchilds.signalled parent d hd
        have hchild := hparents.created parent d hd
        cases hcreation : h.system.creations d with
        | running path cfg r =>
            simp only [System.SettledIn, hcreation] at hsettled
            simp only [System.ChildCall, hcreation] at hchild
            exact hlog.cascade d path cfg r hcreation hchild htold hsettled c hc
        | _ => simp [System.SettledIn, hcreation] at hsettled

/-- At its acknowledgement all children of an actor are settled. -/
theorem CascadeLog.settled_of_acknowledging (hlog : CascadeLog h seen)
    {inputs : List (HierarchyInput M Ev)}
    (hrun : execute step empty inputs = some (h, seen)) {path : ActorPath}
    {cfg : RunnerConfig} {r : Runner M Ev} {request : StopRequest}
    (hx : h.system.creations x = .running path cfg r)
    (hphase : r.phase = .acknowledging request) (hc : c ∈ createdBy x seen) :
    h.system.SettledIn c := by
  obtain ⟨is, hexec⟩ := runner_of_execute hrun hx
  have hnone : r.childSenders = [] := by
    simpa [Runner.ChildsStopped, hphase] using Runner.childsStopped_of_execute hexec
  rcases hlog.child x c hc with hmem | hawaited | hsettled
  · simp [System.childSenders, hx, hnone] at hmem
  · exact absurd hawaited
      ((childLog_of_execute hrun).not_awaited hx (by simp [hphase]))
  · exact hsettled

/-- **A stop cascades.**  Let no restart be pending at a stop that the parent has
asked for, and let no child be left by a child of its own.  Children are asked in
the reverse order of their creation, or found closed, and one after the other;
and when the stop of an actor is acknowledged, all its children have been handled
and neither the actor nor anybody below it is registered. -/
theorem stop_cascades {inputs : List (HierarchyInput M Ev)}
    (hrun : execute step empty inputs = some (h, seen))
    (hfinal : StepsMeet step StopsForGood empty inputs)
    (hmeet : StepsMeet step LeavesNoChild empty inputs)
    (hstep : h.step i = some (t, o)) :
    (∀ x c, c ∈ asked x o → InTurn x c seen ∧ ∀ d ∈ asked x seen, h.Finished seen d) ∧
      (∀ x c, .childClosed x c ∈ o → InTurn x c seen ∧ h.system.Over c) ∧
      ∀ x path request, .system (.does x path (.acknowledged request)) ∈ o →
        (∀ c ∈ createdBy x seen, c ∈ handled x seen) ∧
          (∀ c ∈ asked x seen, h.Finished seen c) ∧
          ∀ d, Below seen x d → ∀ other, t.system.actors other ≠ some d := by
  have hlog := cascadeLog_of_execute hrun hfinal hmeet
  have hafter : execute step empty (inputs ++ [i]) = some (t, seen ++ o) :=
    execute_append.mpr ⟨h, seen, o, hrun, execute_single hstep, rfl⟩
  obtain ⟨hasks, hcloses, hacks⟩ := stops_in_order hrun hstep
  refine ⟨hasks, hcloses, fun x path request hmem => ?_⟩
  obtain ⟨hall, hfinished⟩ := hacks x path request hmem
  refine ⟨hall, hfinished, fun d hd other => ?_⟩
  obtain ⟨choice, cfg, r, r', os, rfl, hx, hrunner, hacked⟩ :=
    run_of_does (step_transition hstep) hmem
  obtain ⟨hphase, -, hphase'⟩ := Runner.acknowledging_of_acknowledged hrunner hacked
  have hchilds := childLog_of_execute hrun
  rcases hlog.settled_below hchilds (parentLog_of_execute hrun)
    (fun c hc => hlog.settled_of_acknowledging hrun hx hphase hc) hd with
    rfl | ⟨⟨parent, hcreated⟩, hsettled⟩
  · obtain ⟨r'', hx'⟩ := running_of_step hstep hx
    have hreturned : r''.phase = .returned := by
      rw [Runner.phase_of_core (running_of_run (step_transition hstep) hx hrunner hx'),
        hphase']
    have hpast : r''.PastRemoval := by simp [Runner.PastRemoval, hreturned]
    exact not_registered_of_pastRemoval hafter hx' hpast other
  · obtain ⟨path', cfg', r'', hd', hsignal⟩ :=
      (signalLog_of_execute hafter).told d true (signalled_of_step
        (signalLog_of_execute hrun) (step_transition hstep)
        (hchilds.signalled parent d hcreated))
    have hsettled' := settledIn_of_step hstep hsettled
    simp only [System.SettledIn, hd'] at hsettled'
    exact not_registered_of_pastRemoval hafter hd' (hsettled'.pastRemoval hsignal) other

section Decide

variable [DecidableEq M]

instance (h : Hierarchy M Ev) :
    (i : HierarchyInput M Ev) → Decidable (h.StopsForGood i)
  | .run x .proceed =>
      inferInstanceAs (Decidable ((h.system.creations x).StopsForGood x))
  | .run _ (.operation _) | .run _ (.returns _) | .run _ (.answers _)
  | .run _ .takeStop | .run _ .takeChildError | .run _ .takeInner
  | .run _ .takeMessage | .run _ .mailboxClosed | .run _ (.parentAction _)
  | .run _ .childClosed | .run _ .childSent | .run _ .childAnswered
  | .createRoot _ _ _ | .createChild _ _ _ _ | .insert _ | .created _
  | .arrive _ _ => isTrue trivial

instance (h : Hierarchy M Ev) :
    (i : HierarchyInput M Ev) → Decidable (h.LeavesNoChild i)
  | .created x =>
      match hx : h.system.creations x, hcreating : h.creating x with
      | .running _ cfg r, some c =>
          decidable_of_iff
            (cfg.hasParent = true → r.phase = .inHook .postStop →
              h.signalled c ≠ some true)
            (by simp only [LeavesNoChild, hx, hcreating])
      | .running _ _ _, none => isTrue (by simp only [LeavesNoChild, hx, hcreating])
      | .absent, _ | .checked _ _, _ | .refused _, _ =>
          isTrue (by simp only [LeavesNoChild, hx])
  | .run x (.returns (.error _)) =>
      match hx : h.system.creations x with
      | .running _ cfg r =>
          decidable_of_iff
            (cfg.hasParent = true → h.signalled x = some true →
              r.LastRestart cfg → ∀ c ∈ r.childSenders, h.system.SettledIn c)
            (by simp only [LeavesNoChild, hx])
      | .absent | .checked _ _ | .refused _ =>
          isTrue (by simp only [LeavesNoChild, hx])
  | .run _ (.returns (.ok _)) | .run _ .proceed | .run _ (.operation _)
  | .run _ (.answers _) | .run _ .takeStop | .run _ .takeChildError
  | .run _ .takeInner | .run _ .takeMessage | .run _ .mailboxClosed
  | .run _ (.parentAction _) | .run _ .childClosed | .run _ .childSent
  | .run _ .childAnswered | .createRoot _ _ _ | .createChild _ _ _ _
  | .insert _ | .arrive _ _ => isTrue trivial

end Decide

/-- A hook of the actor succeeds. -/
def succeeds (call : Nat) : HierarchyInput Unit Unit := .run call (.returns (.ok ()))

def fails (call : Nat) : HierarchyInput Unit Unit :=
  .run call (.returns (.error (.functional "start")))

/-- A hook of the parent creates a child. -/
def createsChild (parent call : Nat) (strategy : SupervisionStrategy)
    (inPreStart : List (HierarchyInput Unit Unit)) :
    List (HierarchyInput Unit Unit) :=
  [.createChild parent call ['c'] strategy, .insert call, .run call .proceed] ++
    inPreStart ++ [succeeds call, .run call .proceed, .created parent]

/-- A root actor whose `pre_start` creates a child. -/
def startsTree (strategy : SupervisionStrategy)
    (inPreStart : List (HierarchyInput Unit Unit)) :
    List (HierarchyInput Unit Unit) :=
  [.createRoot 0 ['a'] .stop, .insert 0, .run 0 .proceed] ++
    createsChild 0 1 strategy inPreStart ++ [succeeds 0, .run 0 .proceed]

/-- The stop branch up to the children, and from there to the reply. -/
def beginsStop (call : Nat) : List (HierarchyInput Unit Unit) :=
  [.run call .takeStop, succeeds call]

def endsStop (call : Nat) : List (HierarchyInput Unit Unit) :=
  [.run call .proceed, .run call .proceed]

/-- The root, a child and a grandchild are stopped, up to the last reply. -/
def stopsTree : List (HierarchyInput Unit Unit) :=
  startsTree .stop (createsChild 1 2 .stop []) ++
    .arrive 0 (.stop ⟨.outside, some 1⟩) :: beginsStop 0 ++ .run 0 .childSent ::
    beginsStop 1 ++ .run 1 .childSent ::
    beginsStop 2 ++ endsStop 2 ++ [.run 2 .proceed, .run 1 .childAnswered] ++
    endsStop 1 ++ [.run 1 .proceed, .run 0 .childAnswered] ++ endsStop 0

/-- A child faults, is restarted by its parent, creates a child of its own in
`pre_restart` and fails; then the root is stopped, up to the reply. -/
def leavesGrandchild : List (HierarchyInput Unit Unit) :=
  startsTree (.retry (.noInterval 1)) [] ++
    [.arrive 1 (.message ()), .run 1 .takeMessage,
      .run 1 (.operation (.emitFail (.functional "fault"))), succeeds 1,
      .run 1 .takeInner, .run 0 .takeChildError, .run 0 (.answers .restart),
      .run 1 (.parentAction (some .restart)), .run 1 .proceed] ++
    beginsStop 1 ++ endsStop 1 ++
    [.run 1 .proceed, .run 1 .proceed, .run 1 .proceed] ++
    createsChild 1 2 .stop [] ++
    [fails 1, .run 1 .proceed, .run 1 .proceed, succeeds 1, .run 1 .proceed,
      .run 1 .proceed, .arrive 0 (.stop ⟨.outside, some 1⟩)] ++
    beginsStop 0 ++ .run 0 .childClosed :: endsStop 0

theorem below_grandchild (x c d : Nat) (hc : c ∈ createdBy x seen)
    (hd : d ∈ createdBy c seen) : Below seen x d :=
  (Relation.ReflTransGen.single hc).tail hd

/-- The paths of the root and of the grandchild. -/
def rootPath : ActorPath := ⟨[['u', 's', 'e', 'r'], ['a']]⟩

def grandchildPath : ActorPath := ⟨[['u', 's', 'e', 'r'], ['a'], ['c'], ['c']]⟩

/-- `stop_cascades` at the acknowledgement of the root. -/
theorem stopsTree_cascades :
    ∃ h seen t o, execute step empty stopsTree = some (h, seen) ∧
      h.step (.run 0 .proceed) = some (t, o) ∧
      .system (.does 0 rootPath (.acknowledged ⟨.outside, some 1⟩)) ∈ o ∧
      Below seen 0 2 ∧ ∀ other, t.system.actors other ≠ some 2 := by
  have hrun : execute step empty stopsTree = some _ := rfl
  refine ⟨_, _, _, _, hrun, rfl, by decide,
    below_grandchild 0 1 2 (by decide) (by decide), ?_⟩
  have hcascade := stop_cascades hrun (by decide +kernel) (by decide +kernel)
    (i := .run 0 .proceed) rfl
  exact (hcascade.2.2 0 rootPath ⟨.outside, some 1⟩ (by decide)).2.2 2
    (below_grandchild 0 1 2 (by decide) (by decide))

/-- The root acknowledges, and the child of its child is registered. -/
theorem leavesGrandchild_registered :
    ¬ ∀ (inputs : List (HierarchyInput Unit Unit)) (h t : Hierarchy Unit Unit)
        (seen o : List (HierarchyObs Unit Unit)) (i : HierarchyInput Unit Unit),
      execute step empty inputs = some (h, seen) →
      StepsMeet step StopsForGood empty inputs → h.step i = some (t, o) →
        ∀ x path request, .system (.does x path (.acknowledged request)) ∈ o →
          ∀ d, Below seen x d → ∀ other, t.system.actors other ≠ some d := by
  intro hall
  have hleft := hall leavesGrandchild _ _ _ _ (.run 0 .proceed) rfl
    (by decide +kernel) rfl 0 rootPath ⟨.outside, some 1⟩ (by decide) 2
    (below_grandchild 0 1 2 (by decide) (by decide))
  exact hleft grandchildPath rfl

end Hierarchy

end Actor
end Rush
