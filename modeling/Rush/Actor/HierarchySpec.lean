import Rush.Actor.Hierarchy
import Rush.Actor.StartSteps

/-!
# What a step of the hierarchy can do

`Transition` lists the steps.  What actors send each other gets into queues
only, so a step changes the control of one runner at most: two systems that
agree up to queues are told apart by `core`.  A run of the hierarchy is a run of
its system, and what holds of all runs of the system holds here.
-/

namespace Rush
namespace Actor

open Foundation

variable {M Ev : Type}

/-- A runner with empty queues. -/
def Runner.core (r : Runner M Ev) : Runner M Ev :=
  { r with stopQueue := [], errorQueue := [], mailbox := [], sendersDropped := false }

section Core

variable {r r' : Runner M Ev}

theorem Runner.signal_of_core (h : r'.core = r.core) : r'.signal = r.signal :=
  have hcore := congrArg Runner.signal h
  hcore

theorem Runner.phase_of_core (h : r'.core = r.core) : r'.phase = r.phase :=
  have hcore := congrArg Runner.phase h
  hcore

theorem Runner.lifecycle_of_core (h : r'.core = r.core) :
    r'.lifecycle = r.lifecycle :=
  have hcore := congrArg Runner.lifecycle h
  hcore

theorem Runner.childSenders_of_core (h : r'.core = r.core) :
    r'.childSenders = r.childSenders :=
  have hcore := congrArg Runner.childSenders h
  hcore

end Core

theorem Runner.arrive_core {r r' : Runner M Ev} {arrival : Arrival M}
    (h : r.arrive arrival = some r') : r'.core = r.core := by
  cases arrival with
  | sendersDropped =>
      cases h
      rfl
  | _ =>
      simp only [arrive] at h
      split at h
      · cases h
        rfl
      · contradiction

def Creation.core : Creation M Ev → Creation M Ev
  | .running path cfg r => .running path cfg r.core
  | creation => creation

theorem Creation.running_of_core {x y : Creation M Ev} (h : x.core = y.core)
    {path : ActorPath} {cfg : RunnerConfig} {r : Runner M Ev}
    (hx : x = .running path cfg r) :
    ∃ r', y = .running path cfg r' ∧ r'.core = r.core := by
  subst hx
  cases y with
  | running path' cfg' r' =>
      obtain ⟨rfl, rfl, hcore⟩ : path = path' ∧ cfg = cfg' ∧ r.core = r'.core := by
        simpa [core] using h
      exact ⟨r', rfl, hcore.symm⟩
  | _ => simp [core] at h

namespace System

/-- The second system is the first one after some arrivals. -/
structure Arrivals (s t : System M Ev) : Prop where
  actors : t.actors = s.actors
  core : ∀ call, (t.creations call).core = (s.creations call).core
  run : ∃ is, execute step s is = some (t, [])

theorem Arrivals.refl (s : System M Ev) : Arrivals s s :=
  ⟨rfl, fun _ => rfl, [], rfl⟩

theorem Arrivals.trans {s t u : System M Ev} (h : Arrivals s t)
    (h' : Arrivals t u) : Arrivals s u := by
  obtain ⟨is, hfirst⟩ := h.run
  obtain ⟨js, hsecond⟩ := h'.run
  exact ⟨h'.actors.trans h.actors, fun call => (h'.core call).trans (h.core call),
    is ++ js, execute_append.mpr ⟨t, [], [], hfirst, hsecond, rfl⟩⟩

/-- An arrival is a step of the system that changes one queue. -/
theorem arrivals_of_step {s t : System M Ev} {call : Nat} {arrival : Arrival M}
    {o : List (SystemObs M Ev)}
    (hstep : s.step (.run call (.arrival arrival)) = some (t, o)) :
    o = [] ∧ Arrivals s t := by
  have hrun := execute_single hstep
  cases step_transition hstep with
  | runs _ _ path cfg r r' os hcall harrive =>
      obtain ⟨r'', harrive', heq⟩ := Option.map_eq_some_iff.mp harrive
      cases heq
      refine ⟨rfl, rfl, fun id => ?_, _, hrun⟩
      by_cases hid : id = call
      · subst hid
        simp [ran, hcall, Creation.core, Runner.arrive_core harrive']
      · simp [ran, hid]

/-- The call has failed at the check, or its runner has ended. -/
def Over (s : System M Ev) (call : Nat) : Prop :=
  match s.creations call with
  | .refused _ => True
  | .running _ _ r => r.phase = .ended
  | _ => False

/-- What a step does to a call that has been made. -/
theorem creation_cases {s t : System M Ev} {i : SystemInput M Ev}
    {o : List (SystemObs M Ev)} (hstep : s.step i = some (t, o)) (call : Nat) :
    t.creations call = s.creations call ∨ s.creations call = .absent ∨
      (∃ path cfg, s.creations call = .checked path cfg ∧
        t.creations call = .running path cfg Runner.create) ∨
      ∃ path cfg r r' os, s.creations call = .running path cfg r ∧
        t.creations call = .running path cfg r' ∧ Runner.Transition cfg r r' os := by
  cases step_transition hstep with
  | refuses id path cfg hid | checks id path cfg hid =>
      by_cases heq : call = id
      · exact Or.inr (Or.inl (heq ▸ hid))
      · exact Or.inl (by simp [heq])
  | inserts id path cfg hid =>
      by_cases heq : call = id
      · subst heq
        exact Or.inr (Or.inr (Or.inl ⟨path, cfg, hid, by simp [insert]⟩))
      · exact Or.inl (by simp [insert, heq])
  | runs id input path cfg r r' os hid hrun =>
      by_cases heq : call = id
      · subst heq
        exact Or.inr (Or.inr (Or.inr ⟨path, cfg, r, r', os, hid, by simp [ran],
          Runner.step_transition hrun⟩))
      · exact Or.inl (by simp [ran, heq])

theorem Over.step {s t : System M Ev} {i : SystemInput M Ev}
    {o : List (SystemObs M Ev)} {call : Nat} (h : s.Over call)
    (hstep : s.step i = some (t, o)) : t.Over call := by
  unfold Over at *
  rcases creation_cases hstep call with hsame | habsent |
    ⟨path, cfg, hchecked, -⟩ | ⟨path, cfg, r, r', os, hcall, hcall', ht⟩
  · rwa [hsame]
  · simp [habsent] at h
  · simp [hchecked] at h
  · simp only [hcall] at h
    simpa only [hcall'] using ht.ended h

end System

namespace HierarchyObs

/-- What the system contributes to a history. -/
def toSystem : HierarchyObs M Ev → Option (SystemObs M Ev)
  | .system obs => some obs
  | _ => none

end HierarchyObs

namespace Hierarchy

/-- The history of the system in a history of the hierarchy. -/
def systemSeen (seen : List (HierarchyObs M Ev)) : List (SystemObs M Ev) :=
  seen.filterMap HierarchyObs.toSystem

@[simp] theorem systemSeen_append (xs ys : List (HierarchyObs M Ev)) :
    systemSeen (xs ++ ys) = systemSeen xs ++ systemSeen ys :=
  List.filterMap_append

@[simp] theorem systemSeen_map (o : List (SystemObs M Ev)) :
    systemSeen (o.map .system) = o := by
  induction o with
  | nil => rfl
  | cons x o ih => simpa [systemSeen, HierarchyObs.toSystem] using ih

@[simp] theorem mem_systemSeen {seen : List (HierarchyObs M Ev)}
    {x : SystemObs M Ev} : x ∈ systemSeen seen ↔ .system x ∈ seen := by
  rw [systemSeen, List.mem_filterMap]
  constructor
  · rintro ⟨y, hy, heq⟩
    cases y with
    | system z =>
        obtain rfl : z = x := Option.some.inj heq
        exact hy
    | _ => simp [HierarchyObs.toSystem] at heq
  · exact fun h => ⟨_, h, rfl⟩

variable {h t : Hierarchy M Ev} {i : HierarchyInput M Ev}
  {o seen : List (HierarchyObs M Ev)}

@[simp] theorem systemSeen_closes (call : Nat) (choice : Choice Ev) :
    systemSeen (h.closes call choice) = [] := by
  cases choice with
  | childClosed =>
      cases hchilds : h.system.childSenders call <;>
        simp [closes, hchilds, systemSeen, HierarchyObs.toSystem]
  | _ => rfl

section Hear

/-- A delivery is an arrival in the system, or nothing. -/
theorem deliver_spec (h : Hierarchy M Ev) (call : Nat) (arrival : Arrival M) :
    ∃ s, h.deliver call arrival = { h with system := s } ∧
      h.system.Arrivals s := by
  unfold deliver
  split
  case h_1 s os hstep => exact ⟨s, rfl, (System.arrivals_of_step hstep).2⟩
  case h_2 => exact ⟨h.system, rfl, .refl _⟩

/-- What one observation of an actor does to the rest of the hierarchy. -/
structure Heard (h t : Hierarchy M Ev) (call : Nat) (x : Obs M Ev) : Prop where
  system : h.system.Arrivals t.system
  origin : t.origin = h.origin
  creating : t.creating = h.creating
  signalled : t.signalled =
    match x with
    | .signal started => Function.update h.signalled call (some started)
    | _ => h.signalled
  awaited : t.awaited =
    match x with
    | .stopChild child => Function.update h.awaited call (some child)
    | _ => h.awaited
  stop : t.stop =
    match x with
    | .stopChild child => Function.update h.stop child .waiting
    | .acknowledged request =>
        if request = stopRequest call ∧ h.stop call = .waiting then
          Function.update h.stop call .answered
        else h.stop
    | _ => h.stop

theorem toParent_spec (h : Hierarchy M Ev) (call : Nat) (error : ChildError) :
    ∃ s, h.toParent call error = { h with system := s } ∧
      h.system.Arrivals s := by
  unfold toParent
  split
  case h_1 origin _ => exact deliver_spec h origin.parent (.childError error)
  case h_2 => exact ⟨h.system, rfl, .refl _⟩

theorem heard (h : Hierarchy M Ev) (call : Nat) (x : Obs M Ev) :
    Heard h (h.does call x) call x := by
  cases x with
  | sentError e =>
      obtain ⟨s, heq, hsystem⟩ := toParent_spec h call (.error e)
      simp only [does, heq]
      exact ⟨hsystem, rfl, rfl, rfl, rfl, rfl⟩
  | sentFault e =>
      obtain ⟨s, heq, hsystem⟩ := toParent_spec h call (.fault e call)
      simp only [does, heq]
      exact ⟨hsystem, rfl, rfl, rfl, rfl, rfl⟩
  | childAction sender action =>
      simp only [does]
      split <;> exact ⟨.refl _, rfl, rfl, rfl, rfl, rfl⟩
  | stopChild child =>
      obtain ⟨s, heq, hsystem⟩ := deliver_spec h child (.stop (stopRequest child))
      simp only [does, heq]
      exact ⟨hsystem, rfl, rfl, rfl, rfl, rfl⟩
  | acknowledged request =>
      simp only [does]
      split
      case isTrue hreply => exact ⟨.refl _, rfl, rfl, rfl, rfl, (if_pos hreply).symm⟩
      case isFalse hreply =>
        exact ⟨.refl _, rfl, rfl, rfl, rfl, (if_neg hreply).symm⟩
  | _ => exact ⟨.refl _, rfl, rfl, rfl, rfl, rfl⟩

theorem arrivals_hear (call : Nat) (path : ActorPath) (os : List (Obs M Ev))
    (h : Hierarchy M Ev) :
    h.system.Arrivals ((os.map (.does call path)).foldl hear h).system := by
  induction os generalizing h with
  | nil => exact .refl _
  | cons x os ih => exact (heard h call x).system.trans (ih (h.does call x))

end Hear

/-- The steps of the hierarchy, by name. -/
inductive Transition (h : Hierarchy M Ev) :
    HierarchyInput M Ev → Hierarchy M Ev → List (HierarchyObs M Ev) → Prop
  | createsRoot (call name strategy s os)
      (hsystem : h.system.step (.check call
        ((ActorPath.ofText ['/', 'u', 's', 'e', 'r']).div name)
        ⟨false, strategy⟩) = some (s, os)) :
      Transition h (.createRoot call name strategy) { h with system := s }
        (os.map .system)
  | createsChild (parent call name strategy path cfg r hook s os)
      (hparent : h.system.creations parent = .running path cfg r)
      (hphase : r.phase = .inHook hook) (hcreating : h.creating parent = none)
      (hsystem : h.system.step (.check call (path.div name) ⟨true, strategy⟩) =
        some (s, os)) :
      Transition h (.createChild parent call name strategy)
        { h with
          system := s
          origin := Function.update h.origin call (some ⟨parent, hook⟩)
          creating := Function.update h.creating parent (some call) }
        (os.map .system)
  | inserts (call s os) (hsystem : h.system.step (.insert call) = some (s, os)) :
      Transition h (.insert call) { h with system := s } (os.map .system)
  | createFails (parent call) (hcreating : h.creating parent = some call) :
      Transition h (.created parent)
        { h with creating := Function.update h.creating parent none } []
  | creates (parent call path cfg r r')
      (hcreating : h.creating parent = some call)
      (hsignalled : h.signalled call = some true)
      (hparent : h.system.creations parent = .running path cfg r)
      (hrun : Runner.step cfg r (.choice (.operation (.createChild call))) =
        some (r', [])) :
      Transition h (.created parent)
        { h with
          system := h.system.ran parent path cfg r' []
          creating := Function.update h.creating parent none }
        [.childCreated parent call]
  | arrives (call arrival s) (harrivals : h.system.Arrivals s) :
      Transition h (.arrive call arrival) { h with system := s } []
  | runs (call choice path cfg r r' os) (hmay : h.may call choice = true)
      (hcall : h.system.creations call = .running path cfg r)
      (hrun : Runner.step cfg r (.choice choice) = some (r', os)) :
      Transition h (.run call choice)
        ((os.map (.does call path)).foldl hear
          { h.chose call choice with system := h.system.ran call path cfg r' os })
        ((os.map (.does call path)).map .system ++ h.closes call choice)

theorem step_transition (hstep : h.step i = some (t, o)) : Transition h i t o := by
  cases i with
  | createRoot call name strategy =>
      obtain ⟨⟨s, os⟩, hsystem, heq⟩ := Option.map_eq_some_iff.mp hstep
      cases heq
      exact .createsRoot call name strategy s os hsystem
  | createChild parent call name strategy =>
      simp only [step] at hstep
      split at hstep
      case h_1 path cfg r hparent =>
        split at hstep
        case h_1 hook hphase hcreating =>
          obtain ⟨⟨s, os⟩, hsystem, heq⟩ := Option.map_eq_some_iff.mp hstep
          cases heq
          exact .createsChild parent call name strategy path cfg r hook s os hparent
            hphase hcreating hsystem
        case h_2 => contradiction
      case h_2 => contradiction
  | insert call =>
      obtain ⟨⟨s, os⟩, hsystem, heq⟩ := Option.map_eq_some_iff.mp hstep
      cases heq
      exact .inserts call s os hsystem
  | created parent =>
      simp only [step] at hstep
      split at hstep
      case h_1 => contradiction
      case h_2 call hcreating =>
        split at hstep
        case h_1 =>
          cases hstep
          exact .createFails parent call hcreating
        case h_2 =>
          cases hstep
          exact .createFails parent call hcreating
        case h_3 hcall hsignalled =>
          obtain ⟨⟨s, os⟩, hsystem, heq⟩ := Option.map_eq_some_iff.mp hstep
          cases heq
          cases System.step_transition hsystem with
          | runs _ _ path cfg r r' os hparent hrun =>
              obtain ⟨-, -, rfl⟩ := Runner.step_operation hrun
              exact .creates parent call path cfg r r' hcreating hsignalled hparent
                hrun
        case h_4 => contradiction
  | arrive call arrival =>
      simp only [step] at hstep
      split at hstep
      case isTrue =>
        obtain ⟨⟨s, os⟩, hsystem, heq⟩ := Option.map_eq_some_iff.mp hstep
        obtain ⟨rfl, harrivals⟩ := System.arrivals_of_step hsystem
        cases heq
        exact .arrives call arrival s harrivals
      case isFalse => contradiction
  | run call choice =>
      simp only [step] at hstep
      split at hstep
      case isTrue hmay =>
        obtain ⟨⟨s, os⟩, hsystem, heq⟩ := Option.map_eq_some_iff.mp hstep
        cases heq
        cases System.step_transition hsystem with
        | runs _ _ path cfg r r' os hcall hrun =>
            exact .runs call choice path cfg r r' os hmay hcall hrun
      case isFalse => contradiction

/-- Only the step of an actor does something. -/
theorem run_of_does {x : Nat} {path : ActorPath} {obs : Obs M Ev}
    (ht : Transition h i t o) (hmem : .system (.does x path obs) ∈ o) :
    ∃ choice cfg r r' os, i = .run x choice ∧
      h.system.creations x = .running path cfg r ∧
      Runner.step cfg r (.choice choice) = some (r', os) ∧ obs ∈ os := by
  have hseen := mem_systemSeen.mpr hmem
  cases ht with
  | createsRoot _ _ _ _ _ hsystem | createsChild _ _ _ _ _ _ _ _ _ _ _ _ _ hsystem
  | inserts _ _ _ hsystem =>
      rw [systemSeen_map] at hseen
      obtain ⟨input, -, -, -, -, hno, -⟩ :=
        System.run_of_does (System.step_transition hsystem) hseen
      contradiction
  | createFails | creates | arrives => simp at hmem
  | runs call choice path' cfg r r' os hmay hcall hrun =>
      rw [systemSeen_append, systemSeen_map, systemSeen_closes,
        List.append_nil] at hseen
      obtain ⟨rfl, rfl, hobs⟩ := System.does_mem_map.mp hseen
      exact ⟨choice, cfg, r, r', os, rfl, hcall, hrun, hobs⟩

/-- A step of the hierarchy is some steps of its system. -/
theorem system_of_step (hstep : h.step i = some (t, o)) :
    ∃ is, execute System.step h.system is = some (t.system, systemSeen o) := by
  cases step_transition hstep with
  | createsRoot call name strategy s os hsystem =>
      exact ⟨_, by simpa using execute_single hsystem⟩
  | createsChild parent call name strategy path cfg r hook s os _ _ _ hsystem =>
      exact ⟨_, by simpa using execute_single hsystem⟩
  | inserts call s os hsystem => exact ⟨_, by simpa using execute_single hsystem⟩
  | createFails parent call hcreating => exact ⟨[], rfl⟩
  | creates parent call path cfg r r' hcreating hsignalled hparent hrun =>
      refine ⟨[.run parent (.choice (.operation (.createChild call)))],
        execute_single ?_⟩
      simp [System.step, hparent, hrun, systemSeen, HierarchyObs.toSystem]
  | arrives call arrival s harrivals =>
      obtain ⟨is, hrun⟩ := harrivals.run
      exact ⟨is, hrun⟩
  | runs call choice path cfg r r' os hmay hcall hrun =>
      have hsystem : h.system.step (.run call (.choice choice)) =
          some (h.system.ran call path cfg r' os, os.map (.does call path)) := by
        simp [System.step, hcall, hrun]
      obtain ⟨is, harrivals⟩ := (arrivals_hear call path os
        { h.chose call choice with system := h.system.ran call path cfg r' os }).run
      refine ⟨.run call (.choice choice) :: is, execute_cons_eq_some.mpr
        ⟨_, _, [], hsystem, harrivals, ?_⟩⟩
      rw [systemSeen_append, systemSeen_map, systemSeen_closes]

/-- **Projection.**  Every run of the hierarchy is a run of its system. -/
theorem system_of_execute {inputs : List (HierarchyInput M Ev)}
    (hrun : execute step empty inputs = some (h, seen)) :
    ∃ is, execute System.step System.empty is =
      some (h.system, systemSeen seen) := by
  refine execute_history (G := fun _ _ => True)
    (P := fun h seen => ∃ is, execute System.step System.empty is =
      some (h.system, systemSeen seen))
    ?_ [] ⟨[], rfl⟩ (stepsMeet_true empty inputs) hrun
  rintro h seen i t o ⟨is, hbefore⟩ - hstep
  obtain ⟨js, hafter⟩ := system_of_step hstep
  exact ⟨is ++ js, execute_append.mpr ⟨h.system, _, _, hbefore, hafter, by simp⟩⟩

/-- What the steps of the system keep, a step of the hierarchy keeps. -/
theorem system_keeps {I : System M Ev → Prop}
    (hkeeps : ∀ s i t o, I s → s.step i = some (t, o) → I t)
    (hstep : h.step i = some (t, o)) (hold : I h.system) : I t.system := by
  obtain ⟨is, hrun⟩ := system_of_step hstep
  exact execute_invariant hkeeps hold hrun

theorem over_of_step {d : Nat} (hstep : h.step i = some (t, o))
    (hover : h.system.Over d) : t.system.Over d :=
  system_keeps (fun _ _ _ _ hold hs => System.Over.step hold hs) hstep hover

/-- What a runner of the hierarchy has done is a run of the runner. -/
theorem runner_of_execute {inputs : List (HierarchyInput M Ev)} {x : Nat}
    {path : ActorPath} {cfg : RunnerConfig} {r : Runner M Ev}
    (hrun : execute step empty inputs = some (h, seen))
    (hx : h.system.creations x = .running path cfg r) :
    ∃ is, execute (Runner.step cfg) Runner.create is =
      some (r, System.observed x (systemSeen seen)) := by
  obtain ⟨is, hsystem⟩ := system_of_execute hrun
  exact System.runner_of_execute hsystem hx

/-- The system after the creation of an actor or its check. -/
theorem running_of_creates {s s' : System M Ev} {input : SystemInput M Ev}
    {os : List (SystemObs M Ev)} {x : Nat} {path : ActorPath} {cfg : RunnerConfig}
    {r' : Runner M Ev} (hstep : s.step input = some (s', os))
    (hinput : ∀ call input', input ≠ .run call input')
    (hx : s'.creations x = .running path cfg r') :
    s.creations x = .running path cfg r' ∨
      input = .insert x ∧ r' = Runner.create ∧ s.creations x = .checked path cfg := by
  rcases System.running_origin (System.step_transition hstep) hx with
    ⟨rfl, hchecked, rfl, -⟩ | ⟨r, input', os', rfl, -⟩ | ⟨hold, -⟩
  · exact Or.inr ⟨rfl, rfl, hchecked⟩
  · exact absurd rfl (hinput x input')
  · exact Or.inl hold

section Running

variable {x : Nat} {path : ActorPath} {cfg : RunnerConfig} {r' : Runner M Ev}

/-- Where a running actor comes from: it is new, or nobody has moved it, or it
has taken the step. -/
theorem running_cases (ht : Transition h i t o)
    (hx : t.system.creations x = .running path cfg r') :
    (i = .insert x ∧ r' = Runner.create ∧
        h.system.creations x = .checked path cfg) ∨
      (∃ r, h.system.creations x = .running path cfg r ∧ r'.core = r.core ∧
        ∀ choice, i ≠ .run x choice) ∨
      ∃ r choice r₁ os, h.system.creations x = .running path cfg r ∧
        Runner.step cfg r (.choice choice) = some (r₁, os) ∧ r'.core = r₁.core ∧
        (i = .run x choice ∨
          ∃ child, i = .created x ∧ choice = .operation (.createChild child)) := by
  cases ht with
  | createsRoot call name strategy s os hsystem =>
      rcases running_of_creates hsystem (by simp) hx with hold | ⟨hno, -⟩
      · exact Or.inr (Or.inl ⟨r', hold, rfl, by simp⟩)
      · contradiction
  | createsChild parent call name strategy path' cfg' r hook s os _ _ _ hsystem =>
      rcases running_of_creates hsystem (by simp) hx with hold | ⟨hno, -⟩
      · exact Or.inr (Or.inl ⟨r', hold, rfl, by simp⟩)
      · contradiction
  | inserts call s os hsystem =>
      rcases running_of_creates hsystem (by simp) hx with hold | ⟨heq, hnew⟩
      · exact Or.inr (Or.inl ⟨r', hold, rfl, by simp⟩)
      · cases heq
        exact Or.inl ⟨rfl, hnew⟩
  | createFails parent call hcreating =>
      exact Or.inr (Or.inl ⟨r', hx, rfl, by simp⟩)
  | creates parent call path' cfg' r r₁ hcreating hsignalled hparent hrun =>
      by_cases heq : x = parent
      · subst heq
        obtain ⟨rfl, rfl, rfl⟩ : path' = path ∧ cfg' = cfg ∧ r₁ = r' := by
          simpa [System.ran] using hx
        exact Or.inr (Or.inr
          ⟨r, _, r₁, [], hparent, hrun, rfl, Or.inr ⟨call, rfl, rfl⟩⟩)
      · refine Or.inr (Or.inl ⟨r', ?_, rfl, by simp⟩)
        simpa [System.ran, heq] using hx
  | arrives call arrival s harrivals =>
      obtain ⟨r, hold, hcore⟩ :=
        Creation.running_of_core (harrivals.core x) hx
      exact Or.inr (Or.inl ⟨r, hold, hcore.symm, by simp⟩)
  | runs call choice path' cfg' r r₁ os hmay hcall hrun =>
      have harrivals := arrivals_hear call path' os
        { h.chose call choice with system := h.system.ran call path' cfg' r₁ os }
      obtain ⟨r₂, hran, hcore⟩ := Creation.running_of_core (harrivals.core x) hx
      by_cases heq : x = call
      · subst heq
        obtain ⟨rfl, rfl, rfl⟩ : path' = path ∧ cfg' = cfg ∧ r₁ = r₂ := by
          simpa [System.ran] using hran
        exact Or.inr (Or.inr
          ⟨r, choice, r₁, os, hcall, hrun, hcore.symm, Or.inl rfl⟩)
      · refine Or.inr (Or.inl ⟨r₂, ?_, hcore.symm, ?_⟩)
        · simpa [System.ran, heq] using hran
        · rintro choice' heq'
          cases heq'
          exact heq rfl

/-- A running actor after a step: nobody has moved it, or it has taken the step. -/
theorem running_moves {path' : ActorPath} {cfg' : RunnerConfig} {r : Runner M Ev}
    (ht : Transition h i t o) (hx : h.system.creations x = .running path cfg r)
    (hx' : t.system.creations x = .running path' cfg' r') :
    (r'.core = r.core ∧ ∀ choice, i ≠ .run x choice) ∨
      ∃ choice r₁ os, Runner.step cfg r (.choice choice) = some (r₁, os) ∧
        r'.core = r₁.core ∧
        (i = .run x choice ∨
          ∃ child, i = .created x ∧ choice = .operation (.createChild child)) := by
  rcases running_cases ht hx' with ⟨-, -, hchecked⟩ | ⟨r₀, hx₀, hcore, hother⟩ |
    ⟨r₀, choice, r₁, os, hx₀, hrun, hcore, hchoice⟩
  · simp [hx] at hchecked
  · obtain ⟨rfl, rfl, rfl⟩ : path = path' ∧ cfg = cfg' ∧ r = r₀ := by
      simpa [hx] using hx₀
    exact Or.inl ⟨hcore, hother⟩
  · obtain ⟨rfl, rfl, rfl⟩ : path = path' ∧ cfg = cfg' ∧ r = r₀ := by
      simpa [hx] using hx₀
    exact Or.inr ⟨choice, r₁, os, hrun, hcore, hchoice⟩

/-- The actor that takes the step is where its runner takes it. -/
theorem running_of_run {choice : Choice Ev} {path' : ActorPath}
    {cfg' : RunnerConfig} {r r₁ : Runner M Ev} {os : List (Obs M Ev)}
    (ht : Transition h (.run x choice) t o)
    (hx : h.system.creations x = .running path cfg r)
    (hrun : Runner.step cfg r (.choice choice) = some (r₁, os))
    (hx' : t.system.creations x = .running path' cfg' r') : r'.core = r₁.core := by
  rcases running_moves ht hx hx' with ⟨-, hother⟩ |
    ⟨choice', r₂, os', hrun', hcore, hchoice | ⟨child, hno, -⟩⟩
  · exact absurd rfl (hother choice)
  · cases hchoice
    obtain ⟨rfl, rfl⟩ : r₁ = r₂ ∧ os = os' := by simpa [hrun] using hrun'
    exact hcore
  · contradiction

end Running

@[simp] theorem chose_origin (h : Hierarchy M Ev) (call : Nat)
    (choice : Choice Ev) : (h.chose call choice).origin = h.origin := by
  unfold chose
  split
  · split <;> rfl
  · rfl
  · rfl

theorem origin_hear (call : Nat) (path : ActorPath) (os : List (Obs M Ev))
    (h : Hierarchy M Ev) :
    ((os.map (.does call path)).foldl hear h).origin = h.origin := by
  induction os generalizing h with
  | nil => rfl
  | cons x os ih => exact (ih (h.does call x)).trans (heard h call x).origin

section Signals

@[simp] theorem chose_signalled (h : Hierarchy M Ev) (call : Nat)
    (choice : Choice Ev) : (h.chose call choice).signalled = h.signalled := by
  unfold chose
  split
  · split <;> rfl
  · rfl
  · rfl

/-- The signals among the observations of a call are heard. -/
theorem signalled_hear (call : Nat) (path : ActorPath) (os : List (Obs M Ev))
    (h : Hierarchy M Ev) (x : Nat) :
    (∀ b, ((os.map (.does call path)).foldl hear h).signalled x = some b →
      h.signalled x = some b ∨ x = call ∧ .signal b ∈ os) ∧
    (((os.map (.does call path)).foldl hear h).signalled x = none →
      h.signalled x = none ∧ (x = call → ∀ b, .signal b ∉ os)) := by
  induction os generalizing h with
  | nil => exact ⟨fun b hb => Or.inl hb, fun hnone => ⟨hnone, by simp⟩⟩
  | cons y os ih =>
      have hsignalled := (heard h call y).signalled
      obtain ⟨hsome, hnone⟩ := ih (h.does call y)
      constructor
      · intro b hb
        rcases hsome b hb with hb | ⟨rfl, hmem⟩
        · cases y with
          | signal started =>
              simp only at hsignalled
              rw [hsignalled] at hb
              by_cases heq : x = call
              · subst heq
                obtain rfl : started = b := by simpa using hb
                exact Or.inr ⟨rfl, by simp⟩
              · exact Or.inl (by simpa [heq] using hb)
          | _ => exact Or.inl (by simpa [hsignalled] using hb)
        · exact Or.inr ⟨rfl, List.mem_cons_of_mem y hmem⟩
      · intro hb
        obtain ⟨hb, hos⟩ := hnone hb
        cases y with
        | signal started =>
            simp only at hsignalled
            rw [hsignalled] at hb
            by_cases heq : x = call
            · simp [heq] at hb
            · exact ⟨by simpa [heq] using hb, fun h => absurd h heq⟩
        | _ => exact ⟨by simpa [hsignalled] using hb, fun h b => by simpa using hos h b⟩

/-- Who is told what: only the step of an actor tells its creator. -/
theorem signalled_cases (ht : Transition h i t o) (x : Nat) :
    (∀ b, t.signalled x = some b → h.signalled x = some b ∨
      ∃ choice path cfg r r₁ os, i = .run x choice ∧
        h.system.creations x = .running path cfg r ∧
        Runner.step cfg r (.choice choice) = some (r₁, os) ∧ .signal b ∈ os) ∧
    (t.signalled x = none → h.signalled x = none ∧
      ∀ choice path cfg r r₁ os, i = .run x choice →
        h.system.creations x = .running path cfg r →
        Runner.step cfg r (.choice choice) = some (r₁, os) →
        ∀ b, .signal b ∉ os) := by
  cases ht with
  | runs call choice path cfg r r₁ os hmay hcall hrun =>
      obtain ⟨hsome, hnone⟩ := signalled_hear call path os
        { h.chose call choice with system := h.system.ran call path cfg r₁ os } x
      rw [chose_signalled] at hsome hnone
      constructor
      · intro b hb
        rcases hsome b hb with hb | ⟨rfl, hmem⟩
        · exact Or.inl hb
        · exact Or.inr ⟨choice, path, cfg, r, r₁, os, rfl, hcall, hrun, hmem⟩
      · intro hb
        obtain ⟨hb, hos⟩ := hnone hb
        refine ⟨hb, ?_⟩
        intro choice' path' cfg' r' r₁' os' heq hcall' hrun'
        cases heq
        obtain ⟨rfl, rfl, rfl⟩ : path = path' ∧ cfg = cfg' ∧ r = r' := by
          simpa [hcall] using hcall'
        obtain ⟨rfl, rfl⟩ : r₁ = r₁' ∧ os = os' := by simpa [hrun] using hrun'
        exact hos rfl
  | _ => exact ⟨fun b hb => Or.inl hb, fun hb => ⟨hb, by simp⟩⟩

/-- What a creator has been told agrees with the runner of the actor. -/
structure SignalLog (h : Hierarchy M Ev) : Prop where
  told : ∀ x b, h.signalled x = some b → ∃ path cfg r,
    h.system.creations x = .running path cfg r ∧ r.signal = false
  waiting : ∀ x path cfg r, h.system.creations x = .running path cfg r →
    h.signalled x = none → r.signal = true

/-- A call that runs keeps running, with its path and its configuration. -/
theorem running_of_step {x : Nat} {path : ActorPath} {cfg : RunnerConfig}
    {r : Runner M Ev} (hstep : h.step i = some (t, o))
    (hx : h.system.creations x = .running path cfg r) :
    ∃ r', t.system.creations x = .running path cfg r' := by
  refine system_keeps (I := fun s => ∃ r', s.creations x = .running path cfg r')
    ?_ hstep ⟨r, hx⟩
  rintro s i t o ⟨r', hold⟩ hs
  exact System.running_step (System.step_transition hs) hold

theorem SignalLog.step (hlog : SignalLog h) (hstep : h.step i = some (t, o)) :
    SignalLog t := by
  have ht := step_transition hstep
  constructor
  · intro x b hb
    rcases (signalled_cases ht x).1 b hb with hb |
      ⟨choice, path, cfg, r, r₁, os, rfl, hcall, hrun, hmem⟩
    · obtain ⟨path, cfg, r, hx, hsignal⟩ := hlog.told x b hb
      obtain ⟨r', hx'⟩ := running_of_step hstep hx
      refine ⟨path, cfg, r', hx', ?_⟩
      rw [← hsignal]
      rcases running_moves ht hx hx' with ⟨hcore, -⟩ |
        ⟨choice, r₁, os, hrun, hcore, -⟩
      · exact Runner.signal_of_core hcore
      · rw [Runner.signal_of_core hcore, hsignal]
        exact ((Runner.step_transition hrun).told hsignal).1
    · obtain ⟨r', hx'⟩ := running_of_step hstep hcall
      refine ⟨path, cfg, r', hx', ?_⟩
      have hsignal := Runner.signal_of_signals hrun hmem
      have hafter : r₁.signal = false := by
        rcases (Runner.step_transition hrun).tells hsignal with ⟨-, hno⟩ | ⟨htold, -⟩
        · exact absurd hmem (hno b)
        · exact htold
      rw [← hafter]
      exact Runner.signal_of_core (running_of_run ht hcall hrun hx')
  · intro x path cfg r' hx' hnone
    obtain ⟨hbefore, hsilent⟩ := (signalled_cases ht x).2 hnone
    rcases running_cases ht hx' with ⟨-, rfl, -⟩ | ⟨r, hx, hcore, -⟩ |
      ⟨r, choice, r₁, os, hx, hrun, hcore, hchoice⟩
    · rfl
    · rw [← hlog.waiting x path cfg r hx hbefore]
      exact Runner.signal_of_core hcore
    · have hsignal := hlog.waiting x path cfg r hx hbefore
      have hafter : r₁.signal = true := by
        rcases (Runner.step_transition hrun).tells hsignal with ⟨hkept, -⟩ |
          ⟨-, b, rfl⟩
        · exact hkept
        · rcases hchoice with rfl | ⟨child, rfl, rfl⟩
          · exact absurd (by simp) (hsilent choice path cfg r r₁ _ rfl hx hrun b)
          · obtain ⟨-, -, hno⟩ := Runner.step_operation hrun
            contradiction
      rw [← hafter]
      exact Runner.signal_of_core hcore

theorem signalLog_of_execute {inputs : List (HierarchyInput M Ev)}
    (hrun : execute step empty inputs = some (h, seen)) : SignalLog h :=
  execute_invariant (fun _ _ _ _ hold hstep => hold.step hstep)
    ⟨by simp [empty], by simp [empty, System.empty]⟩ hrun

end Signals

end Hierarchy

end Actor
end Rush
