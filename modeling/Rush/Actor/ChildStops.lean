import Rush.Actor.HierarchySpec
import Rush.Foundation.LastInFirstOut

/-!
# How an actor stops its children

`create_child` puts the stop sender of a new child in front of the others, and
`stop_childs` works them off from the front: it asks a child and waits for the
answer, or it finds the channel closed.  The history says which children there
are and which of them have been handled, and `child_senders` is what is pending.
-/

namespace Rush
namespace Actor

open Foundation

variable {M Ev : Type}

namespace Runner

variable {cfg : RunnerConfig} {r r' : Runner M Ev} {o : List (Obs M Ev)}
  {choice : Choice Ev}

/-- A running hook goes on or comes back. -/
theorem choice_of_inHook {hook : Hook M} (hphase : r.phase = .inHook hook)
    (hstep : step cfg r (.choice choice) = some (r', o)) :
    (∃ op, choice = .operation op) ∨ (∃ result, choice = .returns result) ∨
      ∃ action, choice = .answers action := by
  change r.advance cfg choice = some (r', o) at hstep
  cases choice with
  | operation op => exact Or.inl ⟨op, rfl⟩
  | returns result => exact Or.inr (Or.inl ⟨result, rfl⟩)
  | answers action => exact Or.inr (Or.inr ⟨action, rfl⟩)
  | _ => cases hook <;> simp [advance, hphase] at hstep

/-- Only `create_child` adds a stop sender. -/
theorem operate_senders {op : ContextOp Ev} (hop : r.operate op = some r') :
    r'.childSenders =
      match op with
      | .createChild child => child :: r.childSenders
      | _ => r.childSenders := by
  cases op with
  | stop reply =>
      simp only [operate] at hop
      split at hop
      · cases hop
        rfl
      · contradiction
  | _ =>
      cases hop
      rfl

/-- What a step does to the stop senders is decided by the choice. -/
theorem senders_of_step (hstep : step cfg r (.choice choice) = some (r', o)) :
    match choice with
    | .operation (.createChild child) =>
        r'.childSenders = child :: r.childSenders ∧ o = []
    | .childClosed => ∃ child, r.childSenders = child :: r'.childSenders ∧ o = []
    | .childSent =>
        ∃ child request, r.childSenders = child :: r'.childSenders ∧
          o = [.stopChild child] ∧ r.phase = .stoppingChilds request ∧
          r'.phase = .awaitingChild request
    | _ => r'.childSenders = r.childSenders ∧ ∀ child, .stopChild child ∉ o := by
  cases choice with
  | operation op =>
      obtain ⟨-, hop, rfl⟩ := step_operation hstep
      have hsenders := operate_senders hop
      cases op with
      | createChild child => exact ⟨hsenders, rfl⟩
      | _ => exact ⟨hsenders, by simp⟩
  | childClosed =>
      cases hphase : r.phase with
      | stoppingChilds request =>
          cases hsenders : r.childSenders with
          | nil => simp [step, advance, hphase, hsenders] at hstep
          | cons child rest =>
              simp only [step, advance, hphase, hsenders] at hstep
              cases hstep
              exact ⟨child, rfl, rfl⟩
      | _ => simp [step, advance, hphase, select] at hstep
  | childSent =>
      cases hphase : r.phase with
      | stoppingChilds request =>
          cases hsenders : r.childSenders with
          | nil => simp [step, advance, hphase, hsenders] at hstep
          | cons child rest =>
              simp only [step, advance, hphase, hsenders] at hstep
              cases hstep
              exact ⟨child, request, rfl, rfl, rfl, rfl⟩
      | _ => simp [step, advance, hphase, select] at hstep
  | returns result =>
      cases hphase : r.phase with
      | inHook hook =>
          cases hook <;> cases result <;>
            simp [step, advance, hphase, hookReturns] at hstep <;>
            obtain ⟨rfl, rfl⟩ := hstep <;> simp [emitFail]
      | _ => simp [step, advance, hphase, select] at hstep
  | answers action =>
      cases hphase : r.phase with
      | inHook hook =>
          cases hook <;> simp [step, advance, hphase] at hstep
          obtain ⟨rfl, rfl⟩ := hstep
          simp
      | _ => simp [step, advance, hphase, select] at hstep
  | _ =>
      cases step_transition hstep with
      | childClosed request child rest hphase hsenders
      | childSent request child rest hphase hsenders =>
          simp [step, advance, hphase, hsenders] at hstep
      | operates hook op r' hphase hop =>
          rcases choice_of_inHook hphase hstep with ⟨_, hno⟩ | ⟨_, hno⟩ | ⟨_, hno⟩ <;>
            contradiction
      | entersRun | ends | takesError => exact ⟨rfl, fun child => by split <;> simp⟩
      | restarts strategy =>
          refine ⟨rfl, fun child => ?_⟩
          cases hbackoff : strategy.nextBackoff.1 <;> simp
      | _ => exact ⟨rfl, by simp⟩

end Runner

namespace System

/-- Arrivals do not touch the stop senders. -/
theorem Arrivals.childSenders {s t : System M Ev} (h : Arrivals s t) (x : Nat) :
    t.childSenders x = s.childSenders x := by
  have hcore := h.core x
  unfold System.childSenders
  cases hx : t.creations x with
  | running path cfg r =>
      obtain ⟨r', hx', heq⟩ := Creation.running_of_core hcore hx
      rw [hx']
      exact (Runner.childSenders_of_core heq).symm
  | _ =>
      cases hx' : s.creations x with
      | running path cfg r => simp [hx, hx', Creation.core] at hcore
      | _ => rfl

/-- A creation starts without children. -/
theorem childSenders_of_creates {s t : System M Ev} {i : SystemInput M Ev}
    {o : List (SystemObs M Ev)} (hstep : s.step i = some (t, o))
    (hinput : ∀ call input, i ≠ .run call input) (x : Nat) :
    t.childSenders x = s.childSenders x := by
  unfold childSenders
  cases step_transition hstep with
  | refuses call path cfg hcall | checks call path cfg hcall
  | inserts call path cfg hcall =>
      by_cases heq : x = call
      · subst heq
        simp [insert, hcall, Runner.create]
      · simp [insert, heq]
  | runs call input => exact absurd rfl (hinput call input)

theorem childSenders_ran (s : System M Ev) (call : Nat) (path : ActorPath)
    (cfg : RunnerConfig) (r : Runner M Ev) (os : List (Obs M Ev)) (x : Nat) :
    (s.ran call path cfg r os).childSenders x =
      if x = call then r.childSenders else s.childSenders x := by
  by_cases heq : x = call <;> simp [childSenders, ran, heq]

end System

namespace HierarchyObs

/-- The child that an actor has created. -/
def creates (x : Nat) : HierarchyObs M Ev → Option Nat
  | .childCreated parent child => if parent = x then some child else none
  | _ => none

/-- The child that an actor has asked to stop. -/
def asks (x : Nat) : HierarchyObs M Ev → Option Nat
  | .system (.does call _ (.stopChild child)) =>
      if call = x then some child else none
  | _ => none

/-- The child that an actor has asked to stop or found closed. -/
def handles (x : Nat) : HierarchyObs M Ev → Option Nat
  | .system (.does call _ (.stopChild child)) =>
      if call = x then some child else none
  | .childClosed parent child => if parent = x then some child else none
  | _ => none

end HierarchyObs

namespace Hierarchy

/-- The children of an actor, in the order of their creation. -/
def createdBy (x : Nat) (seen : List (HierarchyObs M Ev)) : List Nat :=
  seen.filterMap (HierarchyObs.creates x)

/-- The children that an actor has asked to stop, in this order. -/
def asked (x : Nat) (seen : List (HierarchyObs M Ev)) : List Nat :=
  seen.filterMap (HierarchyObs.asks x)

/-- The children that an actor has asked to stop or found closed. -/
def handled (x : Nat) (seen : List (HierarchyObs M Ev)) : List Nat :=
  seen.filterMap (HierarchyObs.handles x)

section Histories

variable {x child : Nat} {seen o : List (HierarchyObs M Ev)}

@[simp] theorem createdBy_append :
    createdBy x (seen ++ o) = createdBy x seen ++ createdBy x o :=
  List.filterMap_append

@[simp] theorem asked_append : asked x (seen ++ o) = asked x seen ++ asked x o :=
  List.filterMap_append

@[simp] theorem handled_append :
    handled x (seen ++ o) = handled x seen ++ handled x o :=
  List.filterMap_append

theorem mem_createdBy : child ∈ createdBy x seen ↔ .childCreated x child ∈ seen := by
  rw [createdBy, List.mem_filterMap]
  constructor
  · rintro ⟨y, hy, heq⟩
    unfold HierarchyObs.creates at heq
    split at heq
    · split at heq
      · simp_all
      · contradiction
    · contradiction
  · exact fun hmem => ⟨_, hmem, by simp [HierarchyObs.creates]⟩

theorem mem_asked : child ∈ asked x seen ↔
    ∃ path, .system (.does x path (.stopChild child)) ∈ seen := by
  rw [asked, List.mem_filterMap]
  constructor
  · rintro ⟨y, hy, heq⟩
    unfold HierarchyObs.asks at heq
    split at heq
    · rename_i call path other
      split at heq
      · refine ⟨path, ?_⟩
        simp_all
      · contradiction
    · contradiction
  · rintro ⟨path, hmem⟩
    exact ⟨_, hmem, by simp [HierarchyObs.asks]⟩

/-- A child that was handled was asked, or it was found closed. -/
theorem mem_handled : child ∈ handled x seen ↔
    child ∈ asked x seen ∨ .childClosed x child ∈ seen := by
  rw [mem_asked, handled, List.mem_filterMap]
  constructor
  · rintro ⟨y, hy, heq⟩
    unfold HierarchyObs.handles at heq
    split at heq
    · rename_i call path other
      split at heq
      · refine Or.inl ⟨path, ?_⟩
        simp_all
      · contradiction
    · split at heq
      · refine Or.inr ?_
        simp_all
      · contradiction
    · contradiction
  · rintro (⟨path, hmem⟩ | hmem)
    · exact ⟨_, hmem, by simp [HierarchyObs.handles]⟩
    · exact ⟨_, hmem, by simp [HierarchyObs.handles]⟩

end Histories

variable {h t : Hierarchy M Ev} {i : HierarchyInput M Ev}
  {o seen : List (HierarchyObs M Ev)} {x : Nat}

/-- A child is created by the step in which `create_child` returns. -/
theorem created_of_childCreated {child : Nat} (ht : Transition h i t o)
    (hmem : .childCreated x child ∈ o) : i = .created x := by
  cases ht with
  | creates parent call => simp_all
  | createFails | arrives => simp at hmem
  | runs call choice =>
      cases choice with
      | childClosed =>
          cases hsenders : h.system.childSenders call <;>
            simp [closes, hsenders] at hmem
      | _ => simp [closes] at hmem
  | _ => simp at hmem

/-- A child is found closed by the step that does so. -/
theorem run_of_childClosed {child : Nat} (ht : Transition h i t o)
    (hmem : .childClosed x child ∈ o) : i = .run x .childClosed := by
  cases ht with
  | runs call choice =>
      cases choice with
      | childClosed =>
          cases hsenders : h.system.childSenders call <;>
            simp [closes, hsenders] at hmem
          rw [hmem.1]
      | _ => simp [closes] at hmem
  | _ => simp at hmem

/-- An actor creates and handles children in its own steps only. -/
theorem nothing_of_other (ht : Transition h i t o) (hcreated : i ≠ .created x)
    (hother : ∀ choice, i ≠ .run x choice) :
    createdBy x o = [] ∧ asked x o = [] ∧ handled x o = [] := by
  have hasked : asked x o = [] := by
    rw [List.eq_nil_iff_forall_not_mem]
    intro child hmem
    obtain ⟨path, hmem⟩ := mem_asked.mp hmem
    obtain ⟨choice, -, -, -, -, hno, -⟩ := run_of_does ht hmem
    exact hother choice hno
  refine ⟨?_, hasked, ?_⟩
  · rw [List.eq_nil_iff_forall_not_mem]
    intro child hmem
    exact hcreated (created_of_childCreated ht (mem_createdBy.mp hmem))
  · rw [List.eq_nil_iff_forall_not_mem]
    intro child hmem
    rcases mem_handled.mp hmem with hmem | hmem
    · simp [hasked] at hmem
    · exact hother _ (run_of_childClosed ht hmem)

/-- A request to a child is all that an actor waits for anew. -/
theorem awaited_hear (call : Nat) (path : ActorPath) {os : List (Obs M Ev)}
    (h : Hierarchy M Ev) (hos : x = call → ∀ child, .stopChild child ∉ os) :
    ((os.map (.does call path)).foldl hear h).awaited x = h.awaited x := by
  induction os generalizing h with
  | nil => rfl
  | cons y os ih =>
      have hrest := ih (h.does call y)
        fun heq child hmem => hos heq child (List.mem_cons_of_mem y hmem)
      refine hrest.trans ?_
      rw [(heard h call y).awaited]
      cases y with
      | stopChild child =>
          have hne : x ≠ call := fun heq => hos heq child (by simp)
          simp [hne]
      | _ => rfl

/-- What one step does to the children of an actor. -/
inductive SendersStep (h : Hierarchy M Ev) (i : HierarchyInput M Ev)
    (t : Hierarchy M Ev) (o : List (HierarchyObs M Ev)) (x : Nat) : Prop
  | keeps (hsenders : t.system.childSenders x = h.system.childSenders x)
      (hcreated : createdBy x o = []) (hasked : asked x o = [])
      (hhandled : handled x o = [])
      (hawaited : (t.awaited x = h.awaited x ∧ i ≠ .run x .childAnswered) ∨
        t.awaited x = none ∧ ∀ child, h.awaited x = some child →
          h.stop child = .answered ∨ h.system.channelOpen child = false)
  | creates (child path cfg r hook) (hi : i = .created x)
      (hx : h.system.creations x = .running path cfg r)
      (hphase : r.phase = .inHook hook)
      (hcreating : h.creating x = some child)
      (hsignalled : h.signalled child = some true)
      (hsenders : t.system.childSenders x = child :: h.system.childSenders x)
      (hcreated : createdBy x o = [child]) (hasked : asked x o = [])
      (hhandled : handled x o = []) (hawaited : t.awaited x = h.awaited x)
  | asks (child path cfg r request) (hi : i = .run x .childSent)
      (hx : h.system.creations x = .running path cfg r)
      (hphase : r.phase = .stoppingChilds request)
      (hphase' : ∀ path' cfg' r', t.system.creations x = .running path' cfg' r' →
        r'.phase = .awaitingChild request)
      (hsenders : h.system.childSenders x = child :: t.system.childSenders x)
      (hcreated : createdBy x o = []) (hasked : asked x o = [child])
      (hhandled : handled x o = [child]) (hawaited : t.awaited x = some child)
  | closes (child) (hi : i = .run x .childClosed)
      (hsenders : h.system.childSenders x = child :: t.system.childSenders x)
      (hcreated : createdBy x o = []) (hasked : asked x o = [])
      (hhandled : handled x o = [child]) (hawaited : t.awaited x = h.awaited x)
      (hclosed : h.system.channelOpen child = false)

namespace SendersStep

variable {c : Nat}

/-- A child is created when the call of its creator returns. -/
theorem of_created (hs : SendersStep h i t o x) (hc : c ∈ createdBy x o) :
    i = .created x ∧ h.creating x = some c ∧ h.signalled c = some true ∧
      ∃ path cfg r hook, h.system.creations x = .running path cfg r ∧
        r.phase = .inHook hook := by
  cases hs with
  | creates child path cfg r hook hi hx hphase hcreating hsignalled _ hcreated =>
      obtain rfl : c = child := by simpa [hcreated] using hc
      exact ⟨hi, hcreating, hsignalled, path, cfg, r, hook, hx, hphase⟩
  | keeps _ hcreated | asks _ _ _ _ _ _ _ _ _ _ hcreated
  | closes _ _ _ hcreated => simp [hcreated] at hc

/-- A child is handled when it is the first of the stop senders. -/
theorem of_handled (hs : SendersStep h i t o x) (hc : c ∈ handled x o) :
    h.system.childSenders x = c :: t.system.childSenders x := by
  cases hs with
  | asks child _ _ _ _ _ _ _ _ hsenders _ _ hhandled
  | closes child _ hsenders _ _ hhandled =>
      obtain rfl : c = child := by simpa [hhandled] using hc
      exact hsenders
  | keeps _ _ _ hhandled | creates _ _ _ _ _ _ _ _ _ _ _ _ _ hhandled =>
      simp [hhandled] at hc

/-- An actor asks a child in `stop_childs`, and waits for it. -/
theorem of_asked (hs : SendersStep h i t o x) (hc : c ∈ asked x o) :
    h.system.childSenders x = c :: t.system.childSenders x ∧
      t.awaited x = some c ∧
      ∃ path cfg r request, h.system.creations x = .running path cfg r ∧
        r.phase = .stoppingChilds request := by
  cases hs with
  | asks child path cfg r request _ hx hphase _ hsenders _ hasked _ hawaited =>
      obtain rfl : c = child := by simpa [hasked] using hc
      exact ⟨hsenders, hawaited, path, cfg, r, request, hx, hphase⟩
  | keeps _ _ hasked | creates _ _ _ _ _ _ _ _ _ _ _ _ hasked
  | closes _ _ _ _ hasked => simp [hasked] at hc

/-- A child is found closed when its channel is. -/
theorem of_closed (hs : SendersStep h i t o x) (hi : i = .run x .childClosed)
    (hc : c ∈ handled x o) : h.system.channelOpen c = false := by
  cases hs with
  | closes child _ _ _ _ hhandled _ hclosed =>
      obtain rfl : c = child := by simpa [hhandled] using hc
      exact hclosed
  | asks _ _ _ _ _ hno => simp [hi] at hno
  | keeps _ _ _ hhandled | creates _ _ _ _ _ _ _ _ _ _ _ _ _ hhandled =>
      simp [hhandled] at hc

end SendersStep

theorem chose_awaited (call : Nat) (choice : Choice Ev)
    (hchoice : x = call → choice ≠ .childAnswered) :
    (h.chose call choice).awaited x = h.awaited x := by
  unfold chose
  split
  · split
    · rfl
    · have hne : x ≠ call := fun heq => hchoice heq rfl
      simp [hne]
  · rfl
  · rfl

theorem chose_childAnswered (call : Nat) :
    (h.chose call .childAnswered).awaited call = none := by
  unfold chose
  cases hawaited : h.awaited call <;> simp [hawaited]

/-- An actor that is not taking the step keeps its children. -/
theorem senders_of_other (ht : Transition h i t o) (hcreated : i ≠ .created x)
    (hother : ∀ choice, i ≠ .run x choice)
    (hsenders : t.system.childSenders x = h.system.childSenders x)
    (hawaited : t.awaited x = h.awaited x) : SendersStep h i t o x := by
  obtain ⟨hnone, hasked, hhandled⟩ := nothing_of_other ht hcreated hother
  exact .keeps hsenders hnone hasked hhandled (Or.inl ⟨hawaited, hother _⟩)

/-- Without a request to a child there is nothing to record. -/
theorem nothing_of_idle (x call : Nat) (path : ActorPath) {os : List (Obs M Ev)}
    (hos : ∀ child, .stopChild child ∉ os) :
    createdBy x ((os.map (.does call path)).map .system) = [] ∧
      asked x ((os.map (.does call path)).map .system) = [] ∧
      handled x ((os.map (.does call path)).map .system) = [] := by
  have hasked : asked x ((os.map (.does call path)).map .system) = [] := by
    rw [List.eq_nil_iff_forall_not_mem]
    intro child hmem
    obtain ⟨path', hmem⟩ := mem_asked.mp hmem
    have hdoes := mem_systemSeen.mpr hmem
    rw [systemSeen_map] at hdoes
    exact hos child (System.does_mem_map.mp hdoes).2.2
  refine ⟨?_, hasked, ?_⟩
  · rw [List.eq_nil_iff_forall_not_mem]
    intro child hmem
    simp [mem_createdBy] at hmem
  · rw [List.eq_nil_iff_forall_not_mem]
    intro child hmem
    rcases mem_handled.mp hmem with hmem | hmem
    · rw [hasked] at hmem
      contradiction
    · simp at hmem

/-- The hierarchy after the step of an actor, with what the others hear of it. -/
def ranTo (h : Hierarchy M Ev) (call : Nat) (choice : Choice Ev)
    (path : ActorPath) (cfg : RunnerConfig) (r : Runner M Ev)
    (os : List (Obs M Ev)) : Hierarchy M Ev :=
  (os.map (.does call path)).foldl hear
    { h.chose call choice with system := h.system.ran call path cfg r os }

section Ran

variable {choice : Choice Ev} {path : ActorPath} {cfg : RunnerConfig}
  {r r' : Runner M Ev} {os : List (Obs M Ev)}

theorem ranTo_childSenders (h : Hierarchy M Ev) (call : Nat) (x : Nat) :
    (h.ranTo call choice path cfg r os).system.childSenders x =
      if x = call then r.childSenders else h.system.childSenders x :=
  ((arrivals_hear call path os _).childSenders x).trans
    (System.childSenders_ran h.system call path cfg r os x)

theorem ranTo_awaited (h : Hierarchy M Ev) (call : Nat)
    (hos : x = call → ∀ child, .stopChild child ∉ os) :
    (h.ranTo call choice path cfg r os).awaited x =
      (h.chose call choice).awaited x :=
  awaited_hear call path _ hos

/-- A step of an actor that sends no request to a child. -/
theorem senders_of_idle (hx : h.system.creations x = .running path cfg r)
    (hsenders : r'.childSenders = r.childSenders)
    (hos : ∀ child, .stopChild child ∉ os) (hcloses : h.closes x choice = [])
    (hawaited : choice ≠ .childAnswered ∨ (h.chose x choice).awaited x = none ∧
      ∀ child, h.awaited x = some child →
        h.stop child = .answered ∨ h.system.channelOpen child = false) :
    SendersStep h (.run x choice) (h.ranTo x choice path cfg r' os)
      ((os.map (.does x path)).map .system ++ h.closes x choice) x := by
  obtain ⟨hcreated, hasked, hhandled⟩ := nothing_of_idle x x path hos
  rw [hcloses, List.append_nil]
  refine .keeps ?_ hcreated hasked hhandled ?_
  · rw [ranTo_childSenders, if_pos rfl, hsenders]
    simp [System.childSenders, hx]
  · rw [ranTo_awaited h x fun _ => hos]
    refine hawaited.imp (fun hchoice => ⟨?_, by simpa using hchoice⟩) id
    exact chose_awaited x choice fun _ => hchoice

/-- The part of `senders_step` for the actor that takes the step. -/
theorem senders_of_run (hmay : h.may x choice = true)
    (hx : h.system.creations x = .running path cfg r)
    (hrun : Runner.step cfg r (.choice choice) = some (r', os))
    (ht : Transition h (.run x choice) (h.ranTo x choice path cfg r' os)
      ((os.map (.does x path)).map .system ++ h.closes x choice)) :
    SendersStep h (.run x choice) (h.ranTo x choice path cfg r' os)
      ((os.map (.does x path)).map .system ++ h.closes x choice) x := by
  have hbefore : h.system.childSenders x = r.childSenders := by
    simp [System.childSenders, hx]
  have hafter : (h.ranTo x choice path cfg r' os).system.childSenders x =
      r'.childSenders := by
    rw [ranTo_childSenders, if_pos rfl]
  have hsenders := Runner.senders_of_step hrun
  cases choice with
  | childClosed =>
      obtain ⟨child, hsenders, rfl⟩ := hsenders
      have hhead : h.system.childSenders x = child :: r'.childSenders :=
        hbefore.trans hsenders
      have hcloses : h.closes x .childClosed = [.childClosed x child] := by
        simp [closes, hhead]
      refine .closes child rfl (by rw [hafter, hhead]) ?_ ?_ ?_ ?_ ?_
      · simp [hcloses, createdBy, HierarchyObs.creates]
      · simp [hcloses, asked, HierarchyObs.asks]
      · simp [hcloses, handled, HierarchyObs.handles]
      · exact (ranTo_awaited h x (by simp)).trans (chose_awaited x _ (by simp))
      · simpa [may, hhead] using hmay
  | childSent =>
      obtain ⟨child, request, hsenders, rfl, hphase, hphase'⟩ := hsenders
      refine .asks child path cfg r request rfl hx hphase ?_
        (by rw [hafter, hbefore, hsenders]) ?_ ?_ ?_ ?_
      · intro path' cfg' r'' hx'
        rw [Runner.phase_of_core (running_of_run ht hx hrun hx'), hphase']
      · simp [closes, createdBy, HierarchyObs.creates]
      · simp [closes, asked, HierarchyObs.asks]
      · simp [closes, handled, HierarchyObs.handles]
      · simp [ranTo, hear, does]
  | childAnswered =>
      refine senders_of_idle hx hsenders.1 hsenders.2 rfl
        (Or.inr ⟨chose_childAnswered x, fun child hawaited => ?_⟩)
      simpa [may, hawaited] using hmay
  | operation op =>
      cases op with
      | createChild child => simp [may] at hmay
      | _ => exact senders_of_idle hx hsenders.1 hsenders.2 rfl (Or.inl (by simp))
  | _ => exact senders_of_idle hx hsenders.1 hsenders.2 rfl (Or.inl (by simp))

end Ran

theorem senders_step (ht : Transition h i t o) (x : Nat) :
    SendersStep h i t o x := by
  have ht' := ht
  cases ht with
  | createsRoot _ _ _ _ _ hsystem | createsChild _ _ _ _ _ _ _ _ _ _ _ _ _ hsystem
  | inserts _ _ _ hsystem =>
      exact senders_of_other ht' (by simp) (by simp)
        (System.childSenders_of_creates hsystem (by simp) x) rfl
  | createFails parent call hcreating =>
      exact .keeps rfl rfl rfl rfl (Or.inl ⟨rfl, by simp⟩)
  | creates parent call path cfg r r' hcreating hsignalled hparent hrun =>
      by_cases heq : x = parent
      · subst heq
        obtain ⟨⟨hook, hphase⟩, -, -⟩ := Runner.step_operation hrun
        obtain ⟨hsenders, -⟩ := Runner.senders_of_step hrun
        refine .creates call path cfg r hook rfl hparent hphase hcreating hsignalled
          ?_ ?_ rfl rfl rfl
        · rw [System.childSenders_ran, if_pos rfl, hsenders]
          simp [System.childSenders, hparent]
        · simp [createdBy, HierarchyObs.creates]
      · refine senders_of_other ht' (by simpa using Ne.symm heq) (by simp) ?_ rfl
        rw [System.childSenders_ran, if_neg heq]
  | arrives call arrival s harrivals =>
      exact senders_of_other ht' (by simp) (by simp) (harrivals.childSenders x) rfl
  | runs call choice path cfg r r' os hmay hcall hrun =>
      by_cases heq : x = call
      · subst heq
        exact senders_of_run hmay hcall hrun ht'
      · have hne : ∀ {p : Prop}, x = call → p := fun h => absurd h heq
        refine senders_of_other ht' (by simp) ?_ ?_ ?_
        · rintro choice' hno
          cases hno
          exact heq rfl
        · exact (ranTo_childSenders h call x).trans (if_neg heq)
        · exact (ranTo_awaited h call hne).trans (chose_awaited call choice hne)

end Hierarchy

end Actor
end Rush
