import Rush.Actor.Channels
import Rush.Actor.RootStart

/-!
# Errors and faults on their way to the parent

What a child sends with `emit_error` and `emit_fail` ends in the error queue of
its parent, whose runner hands it to `on_child_error` or `on_child_fault`.  In
whatever order the children send and the parent takes, the hooks are told what
was reported, in the order of the reports and each once, up to what still lies in
the queue.  Only what is reported to a parent that has ended is lost.
-/

namespace Rush
namespace Actor

open Foundation

variable {M Ev : Type}

/-- What an actor reports to its parent. -/
def Obs.report (call : Nat) : Obs M Ev → Option ChildError
  | .sentError e => some (.error e)
  | .sentFault e => some (.fault e call)
  | _ => none

/-- What a hook of an actor is told of its children. -/
def Obs.told : Obs M Ev → Option ChildError
  | .called (.onChildError e) => some (.error e)
  | .called (.onChildFault e sender) => some (.fault e sender)
  | _ => none

namespace Runner

variable {cfg : RunnerConfig} {r r' : Runner M Ev} {os : List (Obs M Ev)}
  {choice : Choice Ev}

section Steps

attribute [local simp] Obs.told

theorem errorQueue_of_dispatch (h : r.dispatch cfg = (r', os)) :
    r.errorQueue = os.filterMap Obs.told ++ r'.errorQueue := by
  unfold dispatch at h
  split at h
  case h_2 =>
    cases h
    split <;> simp
  case h_3 =>
    unfold applySupervisionStrategy at h
    split at h
    case h_1 =>
      cases h
      simp
    case h_2 strategy _ =>
      split at h <;> cases h
      · cases strategy.nextBackoff.1 <;> simp
      · simp
  case h_5 => split at h <;> cases h <;> simp
  all_goals
    cases h
    simp

theorem errorQueue_of_hookReturns {hook : Hook M}
    {result : Except ActorError Unit}
    (h : r.hookReturns hook result = some (r', os)) :
    r.errorQueue = os.filterMap Obs.told ++ r'.errorQueue := by
  cases hook with
  | onChildFault e sender => cases result <;> contradiction
  | _ => cases result <;> cases h <;> simp [emitFail]

/-- The branch of the error queue takes its first report. -/
theorem errorQueue_of_select (h : r.select cfg choice = some (r', os)) :
    r.errorQueue = os.filterMap Obs.told ++ r'.errorQueue := by
  unfold select at h
  split at h
  case h_2 =>
    split at h
    case h_1 hqueue | h_2 hqueue =>
      cases h
      simp [hqueue]
    case h_3 => contradiction
  case h_3 =>
    split at h
    case h_2 | h_3 => split at h <;> cases h <;> simp
    case h_1 =>
      cases h
      simp
    case h_4 => contradiction
  case h_6 => contradiction
  all_goals
    split at h
    all_goals first | contradiction | (cases h; simp)

/-- What a step takes out of the error queue is what the hooks are told. -/
theorem errorQueue_of_step (h : step cfg r (.choice choice) = some (r', os)) :
    r.errorQueue = os.filterMap Obs.told ++ r'.errorQueue := by
  change r.advance cfg choice = some (r', os) at h
  unfold advance at h
  split at h
  case h_1 => exact errorQueue_of_dispatch (Option.some.inj h)
  case h_2 op _ =>
    obtain ⟨r₁, hop, heq⟩ := Option.map_eq_some_iff.mp h
    cases heq
    cases op with
    | stop reply =>
        simp only [operate] at hop
        split at hop
        · cases hop
          rfl
        · contradiction
    | _ =>
        cases hop
        rfl
  case h_4 => exact errorQueue_of_hookReturns h
  case h_5 => exact errorQueue_of_select h
  case h_18 => contradiction
  case h_3 | h_6 | h_7 | h_8 | h_13 | h_14 =>
    cases h
    simp
  case h_17 =>
    cases h
    split <;> simp
  case h_9 | h_10 =>
    split at h
    · cases h
      simp
    · contradiction
  case h_11 | h_12 =>
    split at h
    · contradiction
    · cases h
      simp
  case h_15 | h_16 => split at h <;> cases h <;> simp

end Steps

/-- Only the error of a child gets into the error queue. -/
theorem errorQueue_of_arrive {arrival : Arrival M} (h : r.arrive arrival = some r')
    (harrival : ∀ error, arrival ≠ .childError error) :
    r'.phase = r.phase ∧ r'.errorQueue = r.errorQueue := by
  cases arrival with
  | childError error => exact absurd rfl (harrival error)
  | sendersDropped =>
      cases h
      exact ⟨rfl, rfl⟩
  | _ =>
      simp only [arrive] at h
      split at h
      · cases h
        exact ⟨rfl, rfl⟩
      · contradiction

end Runner

namespace Hierarchy

variable {h t : Hierarchy M Ev} {i : HierarchyInput M Ev}
  {o seen : List (HierarchyObs M Ev)} {p call : Nat} {path : ActorPath}
  {cfg : RunnerConfig} {r r' : Runner M Ev} {choice : Choice Ev}
  {os : List (Obs M Ev)}

/-- The second call was made by `create_child` in a hook of the first one. -/
def isParent (h : Hierarchy M Ev) (p c : Nat) : Bool :=
  (h.origin c).any fun origin => origin.parent == p

theorem isParent_iff {c : Nat} : h.isParent p c = true ↔ h.CreatedBy p c := by
  unfold isParent CreatedBy
  cases h.origin c with
  | none => simp
  | some origin =>
      obtain ⟨parent, hook⟩ := origin
      simp

/-- What the children of an actor have reported to it, in order. -/
def reported (h : Hierarchy M Ev) (p : Nat) (seen : List (HierarchyObs M Ev)) :
    List ChildError :=
  seen.filterMap fun
    | .system (.does c _ obs) => if h.isParent p c then obs.report c else none
    | _ => none

/-- What the hooks of an actor were told of its children, in order. -/
def told (p : Nat) (seen : List (HierarchyObs M Ev)) : List ChildError :=
  seen.filterMap fun
    | .system (.does x _ obs) => if x = p then obs.told else none
    | _ => none

@[simp] theorem reported_append (h : Hierarchy M Ev) (p : Nat)
    (xs ys : List (HierarchyObs M Ev)) :
    h.reported p (xs ++ ys) = h.reported p xs ++ h.reported p ys :=
  List.filterMap_append

@[simp] theorem told_append (p : Nat) (xs ys : List (HierarchyObs M Ev)) :
    told p (xs ++ ys) = told p xs ++ told p ys :=
  List.filterMap_append

theorem told_eq (x : Nat) (seen : List (HierarchyObs M Ev)) :
    told x seen = (System.observed x (systemSeen seen)).filterMap Obs.told := by
  unfold told System.observed systemSeen
  rw [List.filterMap_filterMap, List.filterMap_filterMap]
  refine List.filterMap_congr fun y _ => ?_
  rcases y with y | _ | _
  · cases y with
    | does x' path obs =>
        by_cases heq : x' = x <;> simp [HierarchyObs.toSystem, SystemObs.ofCall, heq]
    | _ => rfl
  · rfl
  · rfl

section Ran

variable (h t : Hierarchy M Ev) (p call : Nat) (choice : Choice Ev)
  (path : ActorPath) (os : List (Obs M Ev))

theorem observed_ran :
    System.observed p (systemSeen ((os.map (.does call path)).map .system ++
      h.closes call choice)) = if call = p then os else [] := by
  rw [systemSeen_append, systemSeen_map, systemSeen_closes, List.append_nil]
  split
  case isTrue heq =>
    subst heq
    exact System.observed_own call path os
  case isFalse hne =>
    refine List.eq_nil_iff_forall_not_mem.mpr fun obs hobs => ?_
    obtain ⟨path', hmem⟩ := System.mem_observed.mp hobs
    exact hne (System.does_mem_map.mp hmem).1.symm

/-- The hooks of an actor are told something in its own steps. -/
theorem told_ran :
    told p ((os.map (.does call path)).map .system ++ h.closes call choice) =
      if call = p then os.filterMap Obs.told else [] := by
  rw [told_eq, observed_ran]
  split <;> rfl

/-- What an actor does is reported to its parent only. -/
theorem reported_ran :
    t.reported p ((os.map (.does call path)).map .system ++ h.closes call choice) =
      if t.isParent p call then os.filterMap (Obs.report call) else [] := by
  have hcloses : t.reported p (h.closes call choice) = [] := by
    refine List.filterMap_eq_nil_iff.mpr fun x hx => ?_
    cases choice with
    | childClosed =>
        obtain ⟨child, -, rfl⟩ := List.mem_map.mp hx
        rfl
    | _ => simp [closes] at hx
  rw [reported_append, hcloses, List.append_nil]
  simp only [reported, List.filterMap_map, Function.comp_def]
  split
  · rfl
  · exact List.filterMap_eq_nil_iff.mpr fun _ _ => rfl

theorem isParent_ranTo (path : ActorPath) (cfg : RunnerConfig) (r : Runner M Ev)
    (os : List (Obs M Ev)) :
    (h.ranTo call choice path cfg r os).isParent p = h.isParent p := by
  funext c
  unfold isParent ranTo
  rw [origin_hear, chose_origin]

end Ran

section Hear

theorem errors_receive (r : Runner M Ev) (error : ChildError) :
    ((r.arrive (.childError error)).getD r).phase = r.phase ∧
      ((r.arrive (.childError error)).getD r).errorQueue =
        r.errorQueue ++ if r.phase.isEnded then [] else [error] := by
  cases hended : r.phase.isEnded with
  | true => simp [Runner.arrive, hended]
  | false => simp [Runner.arrive, hended]

/-- A report gets into the queue of the parent, unless the parent has ended. -/
theorem errors_sent (h : Hierarchy M Ev) (call : Nat) (error : ChildError)
    (hp : h.system.creations p = .running path cfg r) :
    ∃ r₁, h.sent call error h.system.creations p = .running path cfg r₁ ∧
      r₁.phase = r.phase ∧ r₁.errorQueue = r.errorQueue ++
        if r.phase.isEnded = false ∧ h.isParent p call then [error] else [] := by
  unfold sent isParent
  cases h.origin call with
  | none => exact ⟨r, hp, rfl, by simp⟩
  | some origin =>
      by_cases heq : p = origin.parent
      · subst heq
        obtain ⟨hphase, hqueue⟩ := errors_receive r error
        refine ⟨_, by simp [hp, Creation.receive], hphase, hqueue.trans ?_⟩
        cases r.phase.isEnded <;> simp
      · exact ⟨r, by simp [heq, hp], rfl, by simp [Ne.symm heq]⟩

/-- What one observation of an actor does to the error queues. -/
theorem errors_does (h : Hierarchy M Ev) (call : Nat) (x : Obs M Ev)
    (hp : h.system.creations p = .running path cfg r) :
    ∃ r₁, (h.does call x).system.creations p = .running path cfg r₁ ∧
      r₁.phase = r.phase ∧ r₁.errorQueue = r.errorQueue ++
        if r.phase.isEnded = false ∧ h.isParent p call then (x.report call).toList
        else [] := by
  cases x with
  | sentError e =>
      rw [does, (toParent_becomes h call (.error e)).creations]
      exact errors_sent h call (.error e) hp
  | sentFault e =>
      simp only [does]
      rw [(toParent_becomes h call (.fault e call)).creations]
      exact errors_sent h call (.fault e call) hp
  | stopChild child =>
      simp only [does]
      rw [(deliver_becomes h child (.stop (stopRequest child))).creations]
      by_cases heq : p = child
      · subst heq
        refine ⟨(r.arrive (.stop (stopRequest p))).getD r,
          by simp [hp, Creation.receive], ?_, ?_⟩
        · simp only [Runner.arrive]
          split <;> rfl
        · simp only [Runner.arrive]
          split <;> simp [Obs.report]
      · exact ⟨r, by simp [heq, hp], rfl, by simp [Obs.report]⟩
  | childAction sender action =>
      simp only [does]
      split <;> exact ⟨r, hp, rfl, by simp [Obs.report]⟩
  | acknowledged request =>
      simp only [does]
      split <;> exact ⟨r, hp, rfl, by simp [Obs.report]⟩
  | _ => exact ⟨r, hp, rfl, by simp [Obs.report]⟩

/-- What an actor does gets into the error queue of its parent, in order. -/
theorem errors_hear (call : Nat) (path' : ActorPath) (os : List (Obs M Ev))
    (h : Hierarchy M Ev) {r : Runner M Ev}
    (hp : h.system.creations p = .running path cfg r) :
    ∃ r₁, ((os.map (.does call path')).foldl hear h).system.creations p =
        .running path cfg r₁ ∧
      r₁.phase = r.phase ∧ r₁.errorQueue = r.errorQueue ++
        if r.phase.isEnded = false ∧ h.isParent p call then
          os.filterMap (Obs.report call) else [] := by
  induction os generalizing h r with
  | nil => exact ⟨r, hp, rfl, by simp⟩
  | cons x os ih =>
      obtain ⟨r₁, hp₁, hphase₁, hqueue₁⟩ := errors_does h call x hp
      obtain ⟨r₂, hp₂, hphase₂, hqueue₂⟩ := ih (h.does call x) hp₁
      have hparent : (h.does call x).isParent p call = h.isParent p call := by
        unfold isParent
        rw [(heard h call x).origin]
      refine ⟨r₂, hp₂, hphase₂.trans hphase₁, ?_⟩
      rw [hqueue₂, hqueue₁, hphase₁, hparent]
      split
      · cases hreport : x.report call <;> simp [hreport]
      · simp

theorem errors_ranTo (choice : Choice Ev) {path' : ActorPath} {cfg' : RunnerConfig}
    (hp : (h.system.ran call path' cfg' r' os).creations p = .running path cfg r) :
    ∃ r₁, (h.ranTo call choice path' cfg' r' os).system.creations p =
        .running path cfg r₁ ∧
      r₁.phase = r.phase ∧ r₁.errorQueue = r.errorQueue ++
        if r.phase.isEnded = false ∧ h.isParent p call then
          os.filterMap (Obs.report call) else [] := by
  have hparent : isParent
      { h.chose call choice with system := h.system.ran call path' cfg' r' os }
        p call = h.isParent p call := by
    unfold isParent
    rw [chose_origin]
  rw [← hparent]
  exact errors_hear call path' os _ hp

end Hear

section Step

variable {p : Nat} {path : ActorPath} {cfg : RunnerConfig} {r' : Runner M Ev}

section Rests

variable (hstep : h.step i = some (t, o)) (hi : ∀ call choice, i ≠ .run call choice)

include hstep hi

/-- Only the step of an actor does something. -/
theorem not_does_of_rests (x : Nat) (path : ActorPath) (obs : Obs M Ev) :
    .system (.does x path obs) ∉ o := by
  intro hmem
  obtain ⟨choice, _, _, _, _, rfl, -⟩ := run_of_does (step_transition hstep) hmem
  exact hi x choice rfl

theorem observed_of_rests (x : Nat) : System.observed x (systemSeen o) = [] := by
  refine List.eq_nil_iff_forall_not_mem.mpr fun obs hobs => ?_
  obtain ⟨path, hmem⟩ := System.mem_observed.mp hobs
  exact not_does_of_rests hstep hi x path obs (mem_systemSeen.mp hmem)

theorem reported_of_rests (h' : Hierarchy M Ev) (p : Nat) : h'.reported p o = [] := by
  refine List.filterMap_eq_nil_iff.mpr fun x hx => ?_
  split
  case h_1 c path obs => exact absurd hx (not_does_of_rests hstep hi c path obs)
  case h_2 => rfl

end Rests

/-- The check of a path or the creation of an actor leaves the others alone. -/
theorem errors_of_creates {s : System M Ev} {os' : List (SystemObs M Ev)}
    {input : SystemInput M Ev} (hsystem : h.system.step input = some (s, os'))
    (hinput : ∀ call input', input ≠ .run call input')
    (hp : s.creations p = .running path cfg r') :
    h.system.creations p = .checked path cfg ∧ r' = Runner.create ∨
      ∃ r, h.system.creations p = .running path cfg r ∧ r'.phase = r.phase ∧
        r'.errorQueue = r.errorQueue := by
  rcases running_of_creates hsystem hinput hp with hold | ⟨-, hnew, hchecked⟩
  · exact Or.inr ⟨r', hold, rfl, rfl⟩
  · exact Or.inl ⟨hchecked, hnew⟩

/-- Without a step of an actor the error queues stay, and those of new actors are
empty. -/
theorem errors_of_rests (hstep : h.step i = some (t, o))
    (hi : ∀ call choice, i ≠ .run call choice)
    (hp : t.system.creations p = .running path cfg r') :
    h.system.creations p = .checked path cfg ∧ r' = Runner.create ∨
      ∃ r, h.system.creations p = .running path cfg r ∧ r'.phase = r.phase ∧
        r'.errorQueue = r.errorQueue := by
  cases i with
  | run call choice => exact absurd rfl (hi call choice)
  | arrive call arrival =>
      simp only [step] at hstep
      split at hstep
      case isFalse => contradiction
      case isTrue hforeign =>
        obtain ⟨⟨s, os⟩, hsystem, heq⟩ := Option.map_eq_some_iff.mp hstep
        cases heq
        cases System.step_transition hsystem with
        | runs _ _ path' cfg' r r₁ os hcall hrun =>
            by_cases heq : p = call
            · subst heq
              obtain ⟨rfl, rfl, rfl⟩ : path' = path ∧ cfg' = cfg ∧ r₁ = r' := by
                simpa [System.ran] using hp
              obtain ⟨r₂, harrive, heq⟩ := Option.map_eq_some_iff.mp hrun
              cases heq
              obtain ⟨hphase, hqueue⟩ := Runner.errorQueue_of_arrive harrive
                (foreign_not_childError hforeign)
              exact Or.inr ⟨r, hcall, hphase, hqueue⟩
            · exact Or.inr ⟨r', by simpa [System.ran, heq] using hp, rfl, rfl⟩
  | createRoot call name strategy =>
      cases step_transition hstep with
      | createsRoot _ _ _ s os hsystem =>
          exact errors_of_creates hsystem (by simp) hp
  | createChild parent call name strategy =>
      cases step_transition hstep with
      | createsChild _ _ _ _ _ _ _ _ s os _ _ _ hsystem =>
          exact errors_of_creates hsystem (by simp) hp
  | insert call =>
      cases step_transition hstep with
      | inserts _ s os hsystem => exact errors_of_creates hsystem (by simp) hp
  | created parent =>
      cases step_transition hstep with
      | createFails _ call hcreating => exact Or.inr ⟨r', hp, rfl, rfl⟩
      | creates _ call path' cfg' r r₁ hcreating hsignalled hparent hrun =>
          by_cases heq : p = parent
          · subst heq
            obtain ⟨rfl, rfl, rfl⟩ : path' = path ∧ cfg' = cfg ∧ r₁ = r' := by
              simpa [System.ran] using hp
            obtain ⟨-, hop, -⟩ := Runner.step_operation hrun
            cases hop
            exact Or.inr ⟨r, hparent, rfl, rfl⟩
          · exact Or.inr ⟨r', by simpa [System.ran, heq] using hp, rfl, rfl⟩

/-- The error queues after the step of an actor: it takes from its own, and what
it reports comes into that of its parent. -/
theorem errors_of_run (hstep : h.step (.run call choice) = some (t, o))
    (hp : t.system.creations p = .running path cfg r') :
    ∃ r r₁, ∃ os : List (Obs M Ev), h.system.creations p = .running path cfg r ∧
      r'.phase = r₁.phase ∧
      r'.errorQueue = r₁.errorQueue ++
        (if r₁.phase.isEnded = false ∧ h.isParent p call then
          os.filterMap (Obs.report call) else []) ∧
      t.reported p o =
        (if h.isParent p call then os.filterMap (Obs.report call) else []) ∧
      told p o = (if call = p then os.filterMap Obs.told else []) ∧
      (p = call ∧ r.errorQueue = os.filterMap Obs.told ++ r₁.errorQueue ∨
        p ≠ call ∧ r = r₁) := by
  have hbefore : ∃ r, h.system.creations p = .running path cfg r := by
    rcases running_cases (step_transition hstep) hp with ⟨hno, -⟩ | ⟨r, hold, -⟩ |
      ⟨r, -, -, -, hold, -⟩
    · contradiction
    · exact ⟨r, hold⟩
    · exact ⟨r, hold⟩
  obtain ⟨r, hold⟩ := hbefore
  cases step_transition hstep with
  | runs _ _ path' cfg' r₀ r₁ os hmay hcall hrunner =>
      have hreported :=
        reported_ran h (h.ranTo call choice path' cfg' r₁ os) p call choice path' os
      rw [isParent_ranTo] at hreported
      have htold := told_ran h p call choice path' os
      by_cases heq : p = call
      · subst heq
        obtain ⟨rfl, rfl, rfl⟩ : path' = path ∧ cfg' = cfg ∧ r₀ = r := by
          simpa [hcall] using hold
        have hran : (h.system.ran p path' cfg' r₁ os).creations p =
            .running path' cfg' r₁ := Function.update_self ..
        obtain ⟨r₂, hp₂, hphase, hqueue⟩ := errors_ranTo choice hran
        obtain rfl : r' = r₂ := by simpa using hp.symm.trans hp₂
        exact ⟨r₀, r₁, os, hcall, hphase, hqueue, hreported, htold,
          Or.inl ⟨rfl, Runner.errorQueue_of_step hrunner⟩⟩
      · have hran : (h.system.ran call path' cfg' r₁ os).creations p =
            .running path cfg r := (Function.update_of_ne heq _ _).trans hold
        obtain ⟨r₂, hp₂, hphase, hqueue⟩ := errors_ranTo choice hran
        obtain rfl : r' = r₂ := by simpa using hp.symm.trans hp₂
        exact ⟨r, r, os, hold, hphase, hqueue, hreported, htold,
          Or.inr ⟨heq, rfl⟩⟩

/-- The reports so far are those of calls that were made before the step. -/
theorem reported_of_step {inputs : List (HierarchyInput M Ev)}
    (hrun : execute step empty inputs = some (h, seen))
    (hstep : h.step i = some (t, o)) (p : Nat) :
    t.reported p seen = h.reported p seen := by
  refine List.filterMap_congr fun x hx => ?_
  split
  case h_1 c path obs =>
    have hmade : h.system.creations c ≠ .absent := by
      obtain ⟨is, hsystem⟩ := system_of_execute hrun
      intro habsent
      exact (System.runsIn_of_execute hsystem c).not_does (by simp [habsent]) path
        obs (mem_systemSeen.mpr hx)
    unfold isParent
    rw [origin_of_made (step_transition hstep) hmade]
  case h_2 => rfl

/-- Before an actor runs nothing is reported to it. -/
theorem reported_of_idle (hfamily : Family h)
    (hp : ∀ path cfg r, h.system.creations p ≠ .running path cfg r) :
    h.reported p seen = [] := by
  refine List.filterMap_eq_nil_iff.mpr fun x hx => ?_
  split
  case h_1 c path obs =>
    split
    case isTrue hparent =>
      obtain ⟨path, cfg, r, hrunning⟩ := hfamily.parent p c (isParent_iff.mp hparent)
      exact absurd hrunning (hp path cfg r)
    case isFalse => rfl
  case h_2 => rfl

end Step

/-- The reports to a runner: those its hooks were told of, those in its queue, and
those that came after its end. -/
structure Reports (h : Hierarchy M Ev) (seen : List (HierarchyObs M Ev)) (p : Nat)
    (r : Runner M Ev) : Prop where
  order : told p seen ++ r.errorQueue <+: h.reported p seen
  all : r.phase ≠ .ended → h.reported p seen = told p seen ++ r.errorQueue

theorem Reports.create (htold : told p seen = [])
    (hreported : h.reported p seen = []) :
    Reports h seen p (Runner.create : Runner M Ev) where
  order := by simp [htold, hreported, Runner.create]
  all _ := by simp [htold, hreported, Runner.create]

section Run

variable {inputs : List (HierarchyInput M Ev)}

/-- A call that does not run has no observations. -/
theorem observed_of_idle (hrun : execute step empty inputs = some (h, seen))
    (hp : ∀ path cfg r, h.system.creations p ≠ .running path cfg r) :
    System.observed p (systemSeen seen) = [] := by
  obtain ⟨is, hsystem⟩ := system_of_execute hrun
  exact System.observed_of_idle hsystem hp

/-- What an actor has done is a run of its runner, or nothing. -/
theorem observed_cases (hrun : execute step empty inputs = some (h, seen)) (p : Nat) :
    (∃ path cfg r is, h.system.creations p = .running path cfg r ∧
      execute (Runner.step cfg) Runner.create is =
        some (r, System.observed p (systemSeen seen))) ∨
      System.observed p (systemSeen seen) = [] := by
  by_cases hp : ∃ path cfg r, h.system.creations p = .running path cfg r
  · obtain ⟨path, cfg, r, hp⟩ := hp
    obtain ⟨is, hrunner⟩ := runner_of_execute hrun hp
    exact Or.inl ⟨path, cfg, r, is, hp, hrunner⟩
  · refine Or.inr (observed_of_idle hrun fun path cfg r hp' => ?_)
    exact hp ⟨path, cfg, r, hp'⟩

variable (hrun : execute step empty inputs = some (h, seen))
  (hstep : h.step i = some (t, o))

include hrun hstep

/-- A step of another kind reports nothing and takes nothing. -/
theorem Reports.rests (hi : ∀ call choice, i ≠ .run call choice)
    (hreports : ∀ p path cfg r, h.system.creations p = .running path cfg r →
      Reports h seen p r)
    (hp : t.system.creations p = .running path cfg r') :
    Reports t (seen ++ o) p r' := by
  have hsame : t.reported p (seen ++ o) = h.reported p seen := by
    rw [reported_append, reported_of_rests hstep hi, List.append_nil,
      reported_of_step hrun hstep]
  have hknown : told p (seen ++ o) = told p seen := by
    rw [told_append, told_eq p o, observed_of_rests hstep hi, List.filterMap_nil,
      List.append_nil]
  rcases errors_of_rests hstep hi hp with ⟨hchecked, rfl⟩ |
    ⟨r, hold, hphase, hqueue⟩
  · have hidle : ∀ path cfg r, h.system.creations p ≠ .running path cfg r := by
      simp [hchecked]
    refine .create (hknown.trans ?_)
      (hsame.trans (reported_of_idle (family_of_execute hrun) hidle))
    rw [told_eq, observed_of_idle hrun hidle]
    rfl
  · obtain ⟨horder, hall⟩ := hreports p path cfg r hold
    constructor
    · rwa [hsame, hknown, hqueue]
    · rwa [hsame, hknown, hqueue, hphase]

/-- A step of an actor takes from its own queue and reports to its parent. -/
theorem Reports.run (hi : i = .run call choice)
    (hreports : ∀ p path cfg r, h.system.creations p = .running path cfg r →
      Reports h seen p r)
    (hp : t.system.creations p = .running path cfg r') :
    Reports t (seen ++ o) p r' := by
  subst hi
  obtain ⟨r, r₁, os, hold, hphase, hqueue, hreported, htold, hwho⟩ :=
    errors_of_run hstep hp
  obtain ⟨horder, hall⟩ := hreports p path cfg r hold
  have hsame : t.reported p (seen ++ o) = h.reported p seen ++ t.reported p o := by
    rw [reported_append, reported_of_step hrun hstep]
  rcases hwho with ⟨rfl, htaken⟩ | ⟨hne, rfl⟩
  -- the actor takes a report, and reports nothing to itself
  · have hself : h.isParent p p = false := by
      rw [Bool.eq_false_iff, Ne, isParent_iff]
      exact (family_of_execute hrun).irrefl
    simp only [hself, Bool.false_eq_true, and_false, if_false, List.append_nil,
      if_true] at hqueue hreported htold
    have hknown : told p (seen ++ o) ++ r'.errorQueue =
        told p seen ++ r.errorQueue := by
      rw [told_append, htold, hqueue, htaken, List.append_assoc]
    rw [hreported, List.append_nil] at hsame
    constructor
    · rwa [hknown, hsame]
    · intro hlive
      rw [hknown, hsame]
      exact hall (not_ended_before hstep hold hp hlive)
  · rw [if_neg (Ne.symm hne)] at htold
    have hknown : told p (seen ++ o) = told p seen := by
      rw [told_append, htold, List.append_nil]
    cases hended : r.phase.isEnded with
    | true =>
        -- what comes after the end is dropped
        simp only [hended, Bool.true_eq_false, false_and, if_false,
          List.append_nil] at hqueue
        constructor
        · rw [hknown, hqueue, hsame]
          exact horder.trans (List.prefix_append _ _)
        · intro hlive
          rw [hphase] at hlive
          exact absurd (Runner.isEnded_iff.mp hended) hlive
    | false =>
        have hlive : r.phase ≠ .ended := by
          rw [Ne, ← Runner.isEnded_iff, hended]
          simp
        have hequal : t.reported p (seen ++ o) =
            told p (seen ++ o) ++ r'.errorQueue := by
          rw [hsame, hknown, hall hlive, hqueue, hreported, List.append_assoc]
          simp [hended]
        exact ⟨hequal ▸ List.prefix_rfl, fun _ => hequal⟩

omit hstep in
theorem reports_of_execute (hp : h.system.creations p = .running path cfg r) :
    Reports h seen p r := by
  refine execute_history_of_run (G := fun _ _ => True)
    (P := fun h seen => ∀ p path cfg r, h.system.creations p =
      .running path cfg r → Reports h seen p r) ?_
    (fun _ _ _ _ hp => by simp [empty, System.empty] at hp)
    (stepsMeet_true empty inputs) hrun p path cfg r hp
  intro before h seen i t o hrun hreports _ hstep p path cfg r hp
  by_cases hi : ∃ call choice, i = .run call choice
  · obtain ⟨call, choice, hi⟩ := hi
    exact Reports.run hrun hstep hi hreports hp
  · refine Reports.rests hrun hstep (fun call choice heq => ?_) hreports hp
    exact hi ⟨call, choice, heq⟩

omit hstep in
/-- **Reports are heard in order.**  In every run of the hierarchy the hooks of an
actor were told what its children have reported, in the order of the reports and
each once, up to what lies in its error queue; unless it has ended this is all. -/
theorem reports_heard_in_order (hp : h.system.creations p = .running path cfg r) :
    told p seen ++ r.errorQueue <+: h.reported p seen ∧
      (r.phase ≠ .ended → h.reported p seen = told p seen ++ r.errorQueue) :=
  have hreports := reports_of_execute hrun hp
  ⟨hreports.order, hreports.all⟩

end Run

/-- The error queue of an actor that has not ended. -/
def errorsOf (h : Hierarchy M Ev) (p : Nat) : Option (List ChildError) :=
  match h.system.creations p with
  | .running _ _ r => if r.phase.isEnded then none else some r.errorQueue
  | _ => none

theorem errorsOf_eq_some {queue : List ChildError} (hp : h.errorsOf p = some queue) :
    ∃ path cfg r, h.system.creations p = .running path cfg r ∧ r.phase ≠ .ended ∧
      r.errorQueue = queue := by
  unfold errorsOf at hp
  split at hp
  case h_1 path cfg r hrunning =>
    split at hp
    case isTrue => contradiction
    case isFalse hlive =>
      rw [Runner.isEnded_iff] at hlive
      exact ⟨path, cfg, r, hrunning, hlive, Option.some.inj hp⟩
  case h_2 => contradiction

/-- A child emits an error and fails, and its parent takes the error. -/
def emitsBoth : List (HierarchyInput Unit Unit) :=
  createsInPreStart .stop ++
    [.run 0 (.returns (.ok ())), .run 0 .proceed, .arrive 1 (.message ()),
      .run 1 .takeMessage, .run 1 (.operation (.emitError .reTry)),
      .run 1 (.operation (.emitFail (.functional "child"))),
      .run 1 (.returns (.ok ())), .run 1 .takeInner, .run 1 .takeInner,
      .run 0 .takeChildError]

/-- `reports_heard_in_order` where the fault still lies in the queue. -/
theorem emitsBoth_heard_in_order :
    ∃ h seen, execute step empty emitsBoth = some (h, seen) ∧
      told 0 seen = [.error .reTry] ∧
      h.reported 0 seen = [.error .reTry, .fault (.functional "child") 1] := by
  have hstate : (execute step empty emitsBoth).any
      (fun p => decide (p.1.errorsOf 0 = some [.fault (.functional "child") 1] ∧
        told 0 p.2 = [.error .reTry])) = true := by
    decide +kernel
  obtain ⟨⟨h, seen⟩, hrun, hstate⟩ := (Option.any_eq_true _ _).mp hstate
  obtain ⟨hqueue, htold⟩ := of_decide_eq_true hstate
  obtain ⟨path, cfg, r, hp, hlive, hqueue⟩ := errorsOf_eq_some hqueue
  have hall := (reports_heard_in_order hrun hp).2 hlive
  rw [htold, hqueue] at hall
  exact ⟨h, seen, hrun, htold, hall⟩

end Hierarchy

end Actor
end Rush
