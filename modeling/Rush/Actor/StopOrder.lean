import Rush.Actor.ChildStops

/-!
# The order in which children are stopped

Over every run, the stop senders of an actor are the children that it has
created and not handled, the last one first.  So a child is asked when all that
were created after it have been handled, and it is asked alone: those asked
before have acknowledged, or their runners have ended.
-/

namespace Rush
namespace Actor

open Foundation

variable {M Ev : Type}

namespace Hierarchy

variable {h t : Hierarchy M Ev} {i : HierarchyInput M Ev}
  {o seen : List (HierarchyObs M Ev)} {x c : Nat}

/-- The actor has acknowledged the request of its parent. -/
def Acknowledged (c : Nat) (seen : List (HierarchyObs M Ev)) : Prop :=
  ∃ path, .system (.does c path (.acknowledged (stopRequest c))) ∈ seen

/-- A channel is answered by the acknowledgement of the request. -/
theorem answered_hear (call : Nat) (path : ActorPath) (os : List (Obs M Ev))
    (h : Hierarchy M Ev)
    (hc : ((os.map (.does call path)).foldl hear h).stop c = .answered) :
    h.stop c = .answered ∨ c = call ∧ .acknowledged (stopRequest c) ∈ os := by
  induction os generalizing h with
  | nil => exact Or.inl hc
  | cons y os ih =>
      rcases ih (h.does call y) hc with hc | ⟨rfl, hmem⟩
      · rw [(heard h call y).stop] at hc
        cases y with
        | stopChild child =>
            by_cases heq : c = child
            · simp [heq] at hc
            · exact Or.inl (by simpa [heq] using hc)
        | acknowledged request =>
            simp only at hc
            split at hc
            · by_cases heq : c = call
              · subst heq
                exact Or.inr ⟨rfl, by simp_all⟩
              · exact Or.inl (by simpa [heq] using hc)
            · exact Or.inl hc
        | _ => exact Or.inl hc
      · exact Or.inr ⟨rfl, List.mem_cons_of_mem y hmem⟩

theorem answered_chose {call : Nat} {choice : Choice Ev}
    (hc : (h.chose call choice).stop c = .answered) : h.stop c = .answered := by
  unfold chose at hc
  split at hc
  · split at hc
    · exact hc
    · rename_i child _
      by_cases heq : c = child
      · simp [heq] at hc
      · simpa [heq] using hc
  · exact hc
  · exact hc

/-- Only the acknowledgement of an actor answers its channel. -/
theorem answered_cases (ht : Transition h i t o) (hc : t.stop c = .answered) :
    h.stop c = .answered ∨ Acknowledged c o := by
  cases ht with
  | runs call choice path cfg r r' os hmay hcall hrun =>
      rcases answered_hear call path os _ hc with hc | ⟨rfl, hmem⟩
      · exact Or.inl (answered_chose hc)
      · exact Or.inr ⟨path, by simp [hmem]⟩
  | _ => exact Or.inl hc

theorem ranTo_creating (h : Hierarchy M Ev) (call : Nat) (choice : Choice Ev)
    (path : ActorPath) (cfg : RunnerConfig) (r : Runner M Ev)
    (os : List (Obs M Ev)) :
    (h.ranTo call choice path cfg r os).creating = h.creating := by
  have hhear : ∀ h' : Hierarchy M Ev,
      ((os.map (.does call path)).foldl hear h').creating = h'.creating := by
    induction os with
    | nil => exact fun _ => rfl
    | cons y os ih => exact fun h' => (ih _).trans (heard h' call y).creating
  refine (hhear _).trans ?_
  unfold chose
  split
  · split <;> rfl
  · rfl
  · rfl

/-- A hook waits for the call that it has made, until the call returns. -/
theorem creating_cases (ht : Transition h i t o) (hx : t.creating x = some c) :
    i ≠ .created x ∧ (h.creating x = some c ∨
      ∀ path cfg r, h.system.creations c ≠ .running path cfg r) := by
  cases ht with
  | createsChild parent call name strategy path cfg r hook s os hparent hphase
      hcreating hsystem =>
      refine ⟨by simp, ?_⟩
      by_cases heq : x = parent
      · subst heq
        obtain rfl : call = c := by simpa using hx
        right
        cases System.step_transition hsystem with
        | refuses _ _ _ habsent | checks _ _ _ habsent => simp [habsent]
      · exact Or.inl (by simpa [heq] using hx)
  | createFails parent call hcreating | creates parent call _ _ _ _ hcreating =>
      by_cases heq : x = parent
      · simp [heq] at hx
      · exact ⟨by simpa using Ne.symm heq, Or.inl (by simpa [heq] using hx)⟩
  | runs call choice path cfg r r' os hmay hcall hrun =>
      refine ⟨by simp, Or.inl ?_⟩
      rw [← ranTo_creating h call choice path cfg r' os]
      exact hx
  | _ => exact ⟨by simp, Or.inl hx⟩

/-- What a creator has been told stays. -/
theorem signalled_of_step {b : Bool} (hsignals : SignalLog h)
    (ht : Transition h i t o) (hc : h.signalled c = some b) :
    t.signalled c = some b := by
  cases hafter : t.signalled c with
  | none => simp [((signalled_cases ht c).2 hafter).1] at hc
  | some b' =>
      rcases (signalled_cases ht c).1 b' hafter with hold |
        ⟨choice, path, cfg, r, r₁, os, -, hcall, hrun, hmem⟩
      · rw [← hold, hc]
      · obtain ⟨path', cfg', r', hcall', htold⟩ := hsignals.told c b hc
        obtain ⟨rfl, rfl, rfl⟩ : path = path' ∧ cfg = cfg' ∧ r = r' := by
          simpa [hcall] using hcall'
        simp [Runner.signal_of_signals hrun hmem] at htold

/-- The actor has acknowledged, or its runner has ended. -/
def Finished (h : Hierarchy M Ev) (seen : List (HierarchyObs M Ev)) (c : Nat) :
    Prop :=
  Acknowledged c seen ∨ h.system.Over c

theorem Acknowledged.append (hc : Acknowledged c seen)
    (o : List (HierarchyObs M Ev)) : Acknowledged c (seen ++ o) := by
  obtain ⟨path, hmem⟩ := hc
  exact ⟨path, List.mem_append_left o hmem⟩

theorem Finished.step (hc : h.Finished seen c) (hstep : h.step i = some (t, o)) :
    t.Finished (seen ++ o) c :=
  hc.imp (fun hacked => hacked.append o) fun hover => over_of_step hstep hover

/-- What the history says about the children of the actors. -/
structure ChildLog (h : Hierarchy M Ev) (seen : List (HierarchyObs M Ev)) :
    Prop where
  signalled : ∀ x c, c ∈ createdBy x seen → h.signalled c = some true
  creating : ∀ x c, h.creating x = some c → c ∉ createdBy x seen
  nodup : ∀ x, (createdBy x seen).Nodup
  handled : ∀ x c, c ∈ handled x seen → c ∈ createdBy x seen
  senders : ∀ x, h.system.childSenders x =
    pending (createdBy x seen) (Hierarchy.handled x seen)
  awaited : ∀ x c, h.awaited x = some c → ∃ path cfg r request,
    h.system.creations x = .running path cfg r ∧ r.phase = .awaitingChild request
  asked : ∀ x c, c ∈ asked x seen → h.awaited x = some c ∨ h.Finished seen c
  answered : ∀ c, h.stop c = .answered → Acknowledged c seen

/-- A child whose channel is closed has ended. -/
theorem ChildLog.over_of_closed (hlog : ChildLog h seen) (hsignals : SignalLog h)
    (hc : c ∈ createdBy x seen) (hclosed : h.system.channelOpen c = false) :
    h.system.Over c := by
  obtain ⟨path, cfg, r, hx, -⟩ := hsignals.told c true (hlog.signalled x c hc)
  unfold System.channelOpen at hclosed
  rw [hx] at hclosed
  simp only [System.Over, hx]
  cases hphase : r.phase <;> simp_all [Phase.isEnded]

/-- In another phase an actor waits for nobody. -/
theorem ChildLog.not_awaited (hlog : ChildLog h seen) {path : ActorPath}
    {cfg : RunnerConfig} {r : Runner M Ev}
    (hx : h.system.creations x = .running path cfg r)
    (hphase : ∀ request, r.phase ≠ .awaitingChild request) :
    h.awaited x ≠ some c := by
  intro hawaited
  obtain ⟨path', cfg', r', request, hx', hwaits⟩ := hlog.awaited x c hawaited
  obtain ⟨rfl, rfl, rfl⟩ : path = path' ∧ cfg = cfg' ∧ r = r' := by
    simpa [hx] using hx'
  exact hphase request hwaits

/-- While an actor waits for an answer, that is the only step it takes. -/
theorem awaited_of_step (ht : Transition h i t o) {path : ActorPath}
    {cfg : RunnerConfig} {r : Runner M Ev} {request : StopRequest}
    (hx : h.system.creations x = .running path cfg r)
    (hphase : r.phase = .awaitingChild request) (hi : i ≠ .run x .childAnswered)
    {path' : ActorPath} {cfg' : RunnerConfig} {r' : Runner M Ev}
    (hx' : t.system.creations x = .running path' cfg' r') :
    r'.phase = .awaitingChild request := by
  rcases running_moves ht hx hx' with ⟨hcore, -⟩ |
    ⟨choice, r₁, os, hrun, -, hchoice⟩
  · rw [Runner.phase_of_core hcore, hphase]
  · have hanswered : choice = .childAnswered := by
      change r.advance cfg choice = some (r₁, os) at hrun
      cases choice with
      | childAnswered => rfl
      | _ => simp [Runner.advance, hphase] at hrun
    subst hanswered
    rcases hchoice with rfl | ⟨child, -, hno⟩
    · exact absurd rfl hi
    · contradiction

section Step

variable (hlog : ChildLog h seen) (hsignals : SignalLog h)
  (hstep : h.step i = some (t, o))

include hlog hsignals hstep

theorem ChildLog.signalled_step (hc : c ∈ createdBy x (seen ++ o)) :
    t.signalled c = some true := by
  have ht := step_transition hstep
  rw [createdBy_append, List.mem_append] at hc
  refine signalled_of_step hsignals ht ?_
  rcases hc with hc | hc
  · exact hlog.signalled x c hc
  · exact ((senders_step ht x).of_created hc).2.2.1

theorem ChildLog.creating_step (hx : t.creating x = some c) :
    c ∉ createdBy x (seen ++ o) := by
  have ht := step_transition hstep
  obtain ⟨hother, hold⟩ := creating_cases ht hx
  rw [createdBy_append, List.mem_append]
  rintro (hmem | hmem)
  · rcases hold with hold | hnot
    · exact hlog.creating x c hold hmem
    · obtain ⟨path, cfg, r, hrunning, -⟩ :=
        hsignals.told c true (hlog.signalled x c hmem)
      exact hnot path cfg r hrunning
  · exact hother ((senders_step ht x).of_created hmem).1

omit hsignals in
theorem ChildLog.nodup_step (x : Nat) : (createdBy x (seen ++ o)).Nodup := by
  rw [createdBy_append]
  cases senders_step (step_transition hstep) x with
  | creates child path cfg r hook hi hx hphase hcreating hsignalled _ hcreated =>
      rw [hcreated, ← List.concat_eq_append]
      exact (hlog.nodup x).concat (hlog.creating x child hcreating)
  | keeps _ hcreated | asks _ _ _ _ _ _ _ _ _ _ hcreated
  | closes _ _ _ hcreated =>
      rw [hcreated, List.append_nil]
      exact hlog.nodup x

omit hsignals in
theorem ChildLog.handled_step (hc : c ∈ Hierarchy.handled x (seen ++ o)) :
    c ∈ createdBy x (seen ++ o) := by
  rw [handled_append, List.mem_append] at hc
  rw [createdBy_append, List.mem_append]
  left
  rcases hc with hc | hc
  · exact hlog.handled x c hc
  · have hsenders :=
      (Hierarchy.senders_step (step_transition hstep) x).of_handled hc
    rw [hlog.senders x] at hsenders
    have hmem : c ∈ pending (createdBy x seen) (Hierarchy.handled x seen) := by
      simp [hsenders]
    exact (mem_pending.mp hmem).1

omit hsignals in
theorem ChildLog.senders_step (x : Nat) : t.system.childSenders x =
    pending (createdBy x (seen ++ o)) (Hierarchy.handled x (seen ++ o)) := by
  rw [createdBy_append, handled_append]
  cases Hierarchy.senders_step (step_transition hstep) x with
  | keeps hsenders hcreated _ hhandled =>
      rw [hcreated, hhandled, List.append_nil, List.append_nil, hsenders]
      exact hlog.senders x
  | creates child path cfg r hook _ _ _ hcreating _ hsenders hcreated _ hhandled =>
      have hnew : child ∉ Hierarchy.handled x seen := fun hmem =>
        hlog.creating x child hcreating (hlog.handled x child hmem)
      rw [hcreated, hhandled, List.append_nil, hsenders, pending_open hnew,
        hlog.senders x]
  | asks child _ _ _ _ _ _ _ _ hsenders hcreated _ hhandled
  | closes child _ hsenders hcreated _ hhandled =>
      rw [hcreated, hhandled, List.append_nil]
      rw [hlog.senders x] at hsenders
      exact (pending_close (hlog.nodup x) hsenders).symm

omit hsignals in
theorem ChildLog.awaited_step (hc : t.awaited x = some c) :
    ∃ path cfg r request, t.system.creations x = .running path cfg r ∧
      r.phase = .awaitingChild request := by
  have ht := step_transition hstep
  have hkept : h.awaited x = some c → i ≠ .run x .childAnswered →
      ∃ path cfg r request, t.system.creations x = .running path cfg r ∧
        r.phase = .awaitingChild request := by
    intro hold hi
    obtain ⟨path, cfg, r, request, hx, hphase⟩ := hlog.awaited x c hold
    obtain ⟨r', hx'⟩ := running_of_step hstep hx
    exact ⟨path, cfg, r', request, hx', awaited_of_step ht hx hphase hi hx'⟩
  cases Hierarchy.senders_step ht x with
  | keeps _ _ _ _ hawaited =>
      rcases hawaited with ⟨hsame, hi⟩ | ⟨hnone, -⟩
      · exact hkept (hsame ▸ hc) hi
      · simp [hnone] at hc
  | creates _ _ _ _ _ hi _ _ _ _ _ _ _ _ hawaited =>
      exact hkept (hawaited ▸ hc) (by simp [hi])
  | closes _ hi _ _ _ _ hawaited => exact hkept (hawaited ▸ hc) (by simp [hi])
  | asks child path cfg r request hi hx hphase hphase' =>
      obtain ⟨r', hx'⟩ := running_of_step hstep hx
      exact ⟨path, cfg, r', request, hx', hphase' path cfg r' hx'⟩

theorem ChildLog.asked_step (hc : c ∈ Hierarchy.asked x (seen ++ o)) :
    t.awaited x = some c ∨ t.Finished (seen ++ o) c := by
  have ht := step_transition hstep
  rw [asked_append, List.mem_append] at hc
  rcases hc with hc | hc
  · rcases hlog.asked x c hc with hold | hfinished
    · cases Hierarchy.senders_step ht x with
      | keeps _ _ _ _ hawaited =>
          rcases hawaited with ⟨hsame, -⟩ | ⟨-, hanswer⟩
          · exact Or.inl (hsame.trans hold)
          · right
            rcases hanswer c hold with hanswered | hclosed
            · exact Or.inl ((hlog.answered c hanswered).append o)
            · have hcreated := hlog.handled x c (mem_handled.mpr (Or.inl hc))
              exact Or.inr (over_of_step hstep
                (hlog.over_of_closed hsignals hcreated hclosed))
      | creates _ _ _ _ _ _ _ _ _ _ _ _ _ _ hawaited
      | closes _ _ _ _ _ _ hawaited => exact Or.inl (hawaited.trans hold)
      | asks child path cfg r request hi hx hphase =>
          -- who waits for an answer does not ask
          exact absurd hold (hlog.not_awaited hx (by simp [hphase]))
    · exact Or.inr (hfinished.step hstep)
  · exact Or.inl ((Hierarchy.senders_step ht x).of_asked hc).2.1

theorem ChildLog.step : ChildLog t (seen ++ o) where
  signalled _ _ hc := hlog.signalled_step hsignals hstep hc
  creating _ _ hx := hlog.creating_step hsignals hstep hx
  nodup x := hlog.nodup_step hstep x
  handled _ _ hc := hlog.handled_step hstep hc
  senders x := hlog.senders_step hstep x
  awaited _ _ hc := hlog.awaited_step hstep hc
  asked _ _ hc := hlog.asked_step hsignals hstep hc
  answered c hc := by
    rcases answered_cases (step_transition hstep) hc with hold | ⟨path, hmem⟩
    · exact (hlog.answered c hold).append o
    · exact ⟨path, List.mem_append_right seen hmem⟩

end Step

theorem childLog_of_execute {inputs : List (HierarchyInput M Ev)}
    (hrun : execute step empty inputs = some (h, seen)) : ChildLog h seen := by
  have hstart : ChildLog (empty : Hierarchy M Ev) [] := by
    constructor <;> simp [empty, createdBy, Hierarchy.handled, Hierarchy.asked,
      System.childSenders, System.empty]
  refine execute_history_of_run (G := fun _ _ => True) ?_ hstart
    (stepsMeet_true empty inputs) hrun
  intro before h seen i t o hbefore hlog _ hstep
  exact hlog.step (signalLog_of_execute hbefore) hstep

/-- It is the turn of a child: it was created and has not been handled, and all
that were created after it have been. -/
structure InTurn (x c : Nat) (seen : List (HierarchyObs M Ev)) : Prop where
  created : c ∈ createdBy x seen
  unhandled : c ∉ handled x seen
  later : ∀ before after, createdBy x seen = before ++ c :: after →
    ∀ d ∈ after, d ∈ handled x seen

theorem ChildLog.inTurn (hlog : ChildLog h seen) {rest : List Nat}
    (hhead : h.system.childSenders x = c :: rest) : InTurn x c seen := by
  rw [hlog.senders x] at hhead
  have hmem : c ∈ pending (createdBy x seen) (Hierarchy.handled x seen) := by
    simp [hhead]
  refine ⟨(mem_pending.mp hmem).1, (mem_pending.mp hmem).2, ?_⟩
  intro before after heq
  have hnodup := hlog.nodup x
  rw [heq] at hhead hnodup
  exact closed_of_later hnodup hhead

end Hierarchy

namespace Runner

variable {cfg : RunnerConfig} {r r' : Runner M Ev} {o : List (Obs M Ev)}

/-- The stop branch goes on when all children have been handled. -/
def ChildsStopped (r : Runner M Ev) : Prop :=
  match r.phase with
  | .removing _ => r.childSenders = []
  | .acknowledging _ => r.childSenders = []
  | _ => True

theorem ChildsStopped.step (h : r.ChildsStopped) (ht : Transition cfg r r' o) :
    r'.ChildsStopped := by
  unfold ChildsStopped at *
  cases ht with
  | operates hook op r' hphase hop => simp [(operate_frame hop).1, hphase]
  | takesChildError | handles => trivial
  | arrives => exact h
  | _ => simp_all

theorem childsStopped_of_execute {inputs : List (Input M Ev)}
    {seen : List (Obs M Ev)}
    (hrun : execute (Runner.step cfg) create inputs = some (r, seen)) :
    r.ChildsStopped :=
  execute_invariant (fun _ _ _ _ hold hstep => hold.step (step_transition hstep))
    (by simp [ChildsStopped, create]) hrun

/-- A request is acknowledged in its phase. -/
theorem acknowledging_of_acknowledged {choice : Choice Ev} {request : StopRequest}
    (hstep : Runner.step cfg r (.choice choice) = some (r', o))
    (hmem : .acknowledged request ∈ o) :
    r.phase = .acknowledging request ∧ choice = .proceed ∧ r'.phase = .returned := by
  have hphases : r.phase = .acknowledging request ∧ r'.phase = .returned := by
    cases step_transition hstep with
    | acknowledgesStarted _ hphase | acknowledgesOther _ hphase => simp_all
    | entersRun | ends | takesError => split at hmem <;> simp at hmem
    | restarts strategy =>
        cases hbackoff : strategy.nextBackoff.1 <;> simp [hbackoff] at hmem
    | _ => simp at hmem
  refine ⟨hphases.1, ?_, hphases.2⟩
  change r.advance cfg choice = some (r', o) at hstep
  cases choice with
  | proceed => rfl
  | _ => simp [advance, hphases.1] at hstep

end Runner

namespace Hierarchy

variable {h t : Hierarchy M Ev} {i : HierarchyInput M Ev}
  {o seen : List (HierarchyObs M Ev)} {x c : Nat}

/-- While an actor is in another phase, nobody is asked and has not finished. -/
theorem ChildLog.finished (hlog : ChildLog h seen) {path : ActorPath}
    {cfg : RunnerConfig} {r : Runner M Ev}
    (hx : h.system.creations x = .running path cfg r)
    (hphase : ∀ request, r.phase ≠ .awaitingChild request)
    (hc : c ∈ Hierarchy.asked x seen) : h.Finished seen c := by
  rcases hlog.asked x c hc with hawaited | hfinished
  · exact absurd hawaited (hlog.not_awaited hx hphase)
  · exact hfinished

/-- **Stops in order.**  In every step from every reachable state: a child is
asked or found closed in its turn, and it is asked when all asked before have
finished; and when a stop is acknowledged, all children have been handled, and
those that were asked have finished. -/
theorem stops_in_order {inputs : List (HierarchyInput M Ev)}
    (hrun : execute step empty inputs = some (h, seen))
    (hstep : h.step i = some (t, o)) :
    (∀ x c, c ∈ asked x o → InTurn x c seen ∧ ∀ d ∈ asked x seen, h.Finished seen d) ∧
      (∀ x c, .childClosed x c ∈ o → InTurn x c seen ∧ h.system.Over c) ∧
      ∀ x path request, .system (.does x path (.acknowledged request)) ∈ o →
        (∀ c ∈ createdBy x seen, c ∈ handled x seen) ∧
          ∀ c ∈ asked x seen, h.Finished seen c := by
  have hlog := childLog_of_execute hrun
  have hsignals := signalLog_of_execute hrun
  have ht := step_transition hstep
  refine ⟨fun x c hc => ?_, fun x c hc => ?_, fun x path request hmem => ?_⟩
  · obtain ⟨hsenders, -, path, cfg, r, request, hx, hphase⟩ :=
      (senders_step ht x).of_asked hc
    exact ⟨hlog.inTurn hsenders,
      fun d hd => hlog.finished hx (by simp [hphase]) hd⟩
  · have hhandled : c ∈ handled x o := mem_handled.mpr (Or.inr hc)
    have hchilds := senders_step ht x
    have hturn := hlog.inTurn (hchilds.of_handled hhandled)
    have hclosed := hchilds.of_closed (run_of_childClosed ht hc) hhandled
    exact ⟨hturn, hlog.over_of_closed hsignals hturn.created hclosed⟩
  · obtain ⟨choice, cfg, r, r', os, rfl, hx, hrunner, hacked⟩ := run_of_does ht hmem
    obtain ⟨hphase, -⟩ := Runner.acknowledging_of_acknowledged hrunner hacked
    obtain ⟨is, hexec⟩ := runner_of_execute hrun hx
    have hnone : r.childSenders = [] := by
      simpa [Runner.ChildsStopped, hphase] using Runner.childsStopped_of_execute hexec
    have hpending : pending (createdBy x seen) (handled x seen) = [] := by
      rw [← hlog.senders x]
      simpa [System.childSenders, hx] using hnone
    exact ⟨pending_eq_nil.mp hpending,
      fun c hc => hlog.finished hx (by simp [hphase]) hc⟩

end Hierarchy

end Actor
end Rush
