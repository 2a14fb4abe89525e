import Rush.Actor.WaitsFor

/-!
# Where the waits of a hierarchy lead

The waits of an actor lead to one that can go on, unless the actor is idle, or
they lead to an actor that is deaf since its restart, or to a deadlock: an actor
whose own stop channel is full, or a parent in its stop branch and a child that
waits for the action on its fault.  Whose waits lead to a deadlock never takes a
step again, whatever the others do.
-/

namespace Rush
namespace Actor

open Foundation Relation

variable {M Ev : Type}

namespace Hierarchy

variable {h t : Hierarchy M Ev} {i : HierarchyInput M Ev}
  {o seen : List (HierarchyObs M Ev)} {p c x y : Nat}

section Ends

theorem goesOn_of_run (choice : Choice Ev) {path : ActorPath} {cfg : RunnerConfig}
    {r : Runner M Ev} (hx : h.system.creations x = .running path cfg r)
    (hmay : h.may x choice = true) (hrun : (r.advance cfg choice).isSome) :
    h.GoesOn x := by
  obtain ⟨⟨r', os⟩, hrun⟩ := Option.isSome_iff_exists.mp hrun
  refine ⟨.run x choice, rfl, ?_⟩
  simp [step, hmay, System.step, hx, Runner.step, hrun]

/-- `create_child` returns, or it waits for the start signal. -/
theorem goesOn_creating (hreached : Reached h) {path : ActorPath}
    {cfg : RunnerConfig} {r : Runner M Ev} {hook : Hook M}
    (hx : h.system.creations x = .running path cfg r) (hphase : r.phase = .inHook hook)
    (hcreating : h.creating x = some c) : h.GoesOn x ∨ h.WaitsFor x c := by
  have hmade := hreached.family.made x c (hreached.wired.creating x c hcreating).1
  have hinHook := System.phase_eq_some.mpr ⟨path, cfg, r, hx, hphase⟩
  cases hc : h.system.creations c with
  | absent => exact absurd hc hmade
  | refused path' =>
      refine Or.inl ⟨.created x, rfl, ?_⟩
      simp [step, hcreating, hc]
  | checked path' cfg' =>
      have hsignalled : h.signalled c = none := by
        cases htold : h.signalled c with
        | none => rfl
        | some b =>
            obtain ⟨path₁, cfg₁, r₁, hrunning, -⟩ := hreached.signals.told c b htold
            rw [hc] at hrunning
            contradiction
      exact Or.inr (.start c hook hinHook hcreating (by simp [hc]) hsignalled)
  | running path' cfg' r' =>
      cases hsignalled : h.signalled c with
      | none => exact Or.inr (.start c hook hinHook hcreating (by simp [hc]) hsignalled)
      | some b =>
          refine Or.inl ⟨.created x, rfl, ?_⟩
          cases b <;>
            simp [step, hcreating, hc, hsignalled, System.step, hx, Runner.step,
              Runner.advance, hphase, Runner.operate]

/-- A hook returns, unless it waits for the start of a child. -/
theorem goesOn_inHook (hreached : Reached h) {path : ActorPath} {cfg : RunnerConfig}
    {r : Runner M Ev} {hook : Hook M}
    (hx : h.system.creations x = .running path cfg r) (hphase : r.phase = .inHook hook) :
    h.GoesOn x ∨ ∃ y, h.WaitsFor x y := by
  cases hcreating : h.creating x with
  | none =>
      left
      cases hook with
      | onChildFault e sender =>
          refine goesOn_of_run (.answers .stop) hx ?_ ?_
          · simp [may, hcreating]
          · simp [Runner.advance, hphase]
      | _ =>
          refine goesOn_of_run (.returns (.ok ())) hx ?_ ?_
          · simp [may, hcreating]
          · simp [Runner.advance, hphase, Runner.hookReturns]
  | some c =>
      exact (goesOn_creating hreached hx hphase hcreating).imp id fun hc => ⟨c, hc⟩

/-- In `stop_childs` an actor asks the next child, or it waits for room. -/
theorem goesOn_stoppingChilds {path : ActorPath} {cfg : RunnerConfig}
    {r : Runner M Ev} {request : StopRequest}
    (hx : h.system.creations x = .running path cfg r)
    (hphase : r.phase = .stoppingChilds request) :
    h.GoesOn x ∨ ∃ y, h.WaitsFor x y := by
  have hsenders : h.system.childSenders x = r.childSenders := by
    simp [System.childSenders, hx]
  cases hchilds : r.childSenders with
  | nil =>
      exact Or.inl (goesOn_of_run .proceed hx rfl
        (by simp [Runner.advance, hphase, hchilds]))
  | cons c rest =>
      rw [hchilds] at hsenders
      cases hopen : h.system.channelOpen c with
      | false =>
          refine Or.inl (goesOn_of_run .childClosed hx ?_ ?_)
          · simp [may, hsenders, hopen]
          · simp [Runner.advance, hphase, hchilds]
      | true =>
          obtain ⟨path', cfg', r', hc, hlive⟩ := System.channelOpen_iff.mp hopen
          by_cases hroom : r'.stopQueue.length < stopCapacity
          · have hended : r'.phase.isEnded = false := by
              cases hphase' : r'.phase <;> simp_all [Phase.isEnded]
            refine Or.inl (goesOn_of_run .childSent hx ?_ ?_)
            · simp [may, hsenders, System.step, hc, Runner.step, Runner.arrive, hroom,
                hended]
            · simp [Runner.advance, hphase, hchilds]
          · have hfull : h.system.stopFull c = true :=
              System.stopFull_iff.mpr ⟨path', cfg', r', hc, hlive, by omega⟩
            exact Or.inr ⟨c, .room c rest request
              (System.phase_eq_some.mpr ⟨path, cfg, r, hx, hphase⟩) hsenders hfull⟩

/-- A child gets its action, or it waits for it. -/
theorem goesOn_awaitingAction (hreached : Reached h) {path : ActorPath}
    {cfg : RunnerConfig} {r : Runner M Ev}
    (hx : h.system.creations x = .running path cfg r)
    (hphase : r.phase = .awaitingAction) (hparent : cfg.hasParent = true) :
    h.GoesOn x ∨ ∃ y, h.WaitsFor x y := by
  cases hfault : h.fault x with
  | closed =>
      exact absurd hfault ((hreached.wired.action x path cfg r hx).mp hphase)
  | answered action =>
      refine Or.inl (goesOn_of_run (.parentAction (some action)) hx ?_ ?_)
      · simp [may, hfault]
      · cases action <;> simp [Runner.advance, hphase]
  | waiting =>
      obtain ⟨p, hcreated⟩ := hreached.family.child x
        (by simpa [hx, Creation.IsChild] using hparent)
      cases hopen : h.system.channelOpen p with
      | true =>
          exact Or.inr ⟨p, .action p (System.phase_eq_some.mpr ⟨path, cfg, r, hx, hphase⟩)
            hcreated hfault hopen⟩
      | false =>
          obtain ⟨hook, horigin⟩ := hcreated
          refine Or.inl (goesOn_of_run (.parentAction none) hx ?_ ?_)
          · simp [may, horigin, hfault, hopen]
          · simp [Runner.advance, hphase]

/-- An actor hears from the child that it has asked, or it waits for it. -/
theorem goesOn_awaitingChild (hreached : Reached h) {path : ActorPath}
    {cfg : RunnerConfig} {r : Runner M Ev} {request : StopRequest}
    (hx : h.system.creations x = .running path cfg r)
    (hphase : r.phase = .awaitingChild request) :
    h.GoesOn x ∨ ∃ y, h.WaitsFor x y := by
  obtain ⟨c, hawaited, hstop⟩ :=
    hreached.wired.answer x path cfg r request hx hphase
  by_cases hanswer : h.stop c = .answered ∨ h.system.channelOpen c = false
  · refine Or.inl (goesOn_of_run .childAnswered hx ?_ ?_)
    · simpa [may, hawaited] using hanswer
    · simp [Runner.advance, hphase]
  · have hwaiting : h.stop c = .waiting := by
      cases hc : h.stop c <;> simp_all
    exact Or.inr ⟨c, .acknowledgement c request
      (System.phase_eq_some.mpr ⟨path, cfg, r, hx, hphase⟩) hawaited hwaiting
      (by simpa using fun hopen => hanswer (Or.inr hopen))⟩

/-- Every actor that is under way can go on, or is idle, or waits for one. -/
theorem goesOn_or_waits {inputs : List (HierarchyInput M Ev)}
    (hrun : execute step empty inputs = some (h, seen)) (hlive : h.Live x) :
    h.GoesOn x ∨ h.Idle x ∨ ∃ y, h.WaitsFor x y := by
  have hreached := reached_of_execute hrun
  cases hx : h.system.creations x with
  | absent => simp [Live, hx] at hlive
  | refused path => simp [Live, hx] at hlive
  | checked path cfg =>
      refine Or.inl ⟨.insert x, rfl, ?_⟩
      simp [step, lift, System.step, hx]
  | running path cfg r =>
      cases hphase : r.phase with
      | inHook hook => exact (goesOn_inHook hreached hx hphase).imp id Or.inr
      | selecting =>
          by_cases hidle : r.Idle
          · exact Or.inr (Or.inl ⟨path, cfg, r, hx, hidle⟩)
          · obtain ⟨choice, hmay, hrun⟩ := Runner.step_of_not_idle hphase hidle
            exact Or.inl (goesOn_of_run choice hx (hmay h x) hrun)
      | awaitingAction =>
          obtain ⟨is, hrunner⟩ := runner_of_execute hrun hx
          have hparent := (Runner.answerable_of_execute hrunner).2 hphase
          exact (goesOn_awaitingAction hreached hx hphase hparent).imp id Or.inr
      | stoppingItself =>
          by_cases hroom : r.stopQueue.length < stopCapacity
          · exact Or.inl (goesOn_of_run .proceed hx rfl
              (by simp [Runner.advance, hphase, hroom]))
          · have hfull : h.system.stopFull x = true :=
              System.stopFull_iff.mpr ⟨path, cfg, r, hx, by simp [hphase], by omega⟩
            exact Or.inr (Or.inr ⟨x, .itself
              (System.phase_eq_some.mpr ⟨path, cfg, r, hx, hphase⟩) hfull⟩)
      | stoppingChilds request =>
          exact (goesOn_stoppingChilds hx hphase).imp id Or.inr
      | awaitingChild request =>
          exact (goesOn_awaitingChild hreached hx hphase).imp id Or.inr
      | dispatch | removing | terminating =>
          exact Or.inl (goesOn_of_run .proceed hx rfl (by simp [Runner.advance, hphase]))
      | acknowledging | returned =>
          refine Or.inl (goesOn_of_run .proceed hx rfl ?_)
          simp only [Runner.advance, hphase]
          split <;> rfl
      | ended => simp [Live, hx, hphase] at hlive

end Ends

section Targets

theorem Idle.selecting (hidle : h.Idle x) : h.system.phase x = some .selecting := by
  obtain ⟨path, cfg, r, hx, hidle⟩ := hidle
  exact System.phase_eq_some.mpr ⟨path, cfg, r, hx, hidle.1⟩

theorem Deaf.idle (hdeaf : h.Deaf x) : h.Idle x := by
  obtain ⟨path, cfg, r, hx, hdeaf⟩ := hdeaf
  exact ⟨path, cfg, r, hx, hdeaf.idle⟩

/-- An idle actor waits for nobody in particular. -/
theorem Idle.not_waits (hidle : h.Idle x) : ¬ h.WaitsFor x y := by
  intro hwaits
  have hselecting := hidle.selecting
  cases hwaits <;> simp_all

theorem Idle.not_goesOn (hwired : Wired h) (hidle : h.Idle x) : ¬ h.GoesOn x := by
  rintro ⟨i, hmoves, hstep⟩
  obtain ⟨⟨t, o⟩, hstep⟩ := Option.isSome_iff_exists.mp hstep
  obtain ⟨choice, path, cfg, r, r', os, rfl, hx, -, -, hrun⟩ :=
    run_of_moves hwired hidle.selecting (by simp) hmoves hstep
  obtain ⟨path', cfg', r₁, hx', hidle⟩ := hidle
  obtain ⟨rfl, rfl, rfl⟩ := Creation.running.inj (hx.symm.trans hx')
  have hnone : r.advance cfg choice = none := hidle.step_eq_none
  rw [hnone] at hrun
  contradiction

/-- Who can go on waits for nobody. -/
theorem GoesOn.not_waits (hwired : Wired h) (hgoes : h.GoesOn x) :
    ¬ h.WaitsFor x y := by
  obtain ⟨i, hmoves, hstep⟩ := hgoes
  intro hwaits
  rw [hwaits.blocks hwired hmoves] at hstep
  contradiction

theorem live_of_channelOpen (hopen : h.system.channelOpen x = true) : h.Live x := by
  obtain ⟨path, cfg, r, hx, hlive⟩ := System.channelOpen_iff.mp hopen
  simpa [Live, hx] using hlive

theorem live_of_stopFull (hfull : h.system.stopFull x = true) : h.Live x := by
  obtain ⟨path, cfg, r, hx, hlive, -⟩ := System.stopFull_iff.mp hfull
  simpa [Live, hx] using hlive

variable {inputs : List (HierarchyInput M Ev)}
  (hrun : execute step empty inputs = some (h, seen))

include hrun

/-- While its creator waits, a runner has not come to `run`, nor to its end. -/
theorem starting_of_unsignalled {path : ActorPath} {cfg : RunnerConfig}
    {r : Runner M Ev} (hx : h.system.creations x = .running path cfg r)
    (hsignalled : h.signalled x = none) : ¬ r.InRun ∧ r.phase ≠ .ended := by
  obtain ⟨is, hrunner⟩ := runner_of_execute hrun hx
  have hsignal := (signalLog_of_execute hrun).waiting x path cfg r hx hsignalled
  refine ⟨(Runner.startPhase_of_execute hrunner hsignal).1, fun hended => ?_⟩
  have htold := (Runner.answerable_of_execute hrunner).1 hended
  rw [hsignal] at htold
  contradiction

/-- The awaited actor is under way. -/
theorem WaitsFor.live (hwaits : h.WaitsFor x y) : h.Live y := by
  cases hwaits with
  | start _ hook hphase hcreating hcall hsignalled =>
      have hreached := reached_of_execute hrun
      have hmade := hreached.family.made x y (hreached.wired.creating x y hcreating).1
      cases hy : h.system.creations y with
      | absent => exact absurd hy hmade
      | refused path => exact absurd hy (hcall path)
      | checked path cfg => simp [Live, hy]
      | running path cfg r =>
          have hstarting := starting_of_unsignalled hrun hy hsignalled
          simpa [Live, hy] using hstarting.2
  | room _ _ _ _ _ hfull => exact live_of_stopFull hfull
  | acknowledgement _ _ _ _ _ hopen => exact live_of_channelOpen hopen
  | action _ _ _ _ hopen => exact live_of_channelOpen hopen
  | itself _ hfull => exact live_of_stopFull hfull

/-- Who is waited for is not idle, unless it is deaf: a fault lies in its error
queue, and the stop signal keeps it from taking it. -/
theorem WaitsFor.deaf_of_idle (hwaits : h.WaitsFor x y) (hidle : h.Idle y) :
    h.Deaf y := by
  have hwired := wired_of_execute hrun
  obtain ⟨path, cfg, r, hy, hphase, hstops, hrest⟩ := hidle
  cases hwaits with
  | start _ _ _ _ _ hsignalled =>
      have hstarting := starting_of_unsignalled hrun hy hsignalled
      exact absurd (by simp [Runner.InRun, hphase]) hstarting.1
  | room _ _ _ _ _ hfull =>
      obtain ⟨path', cfg', r', hy', -, hlength⟩ := System.stopFull_iff.mp hfull
      obtain ⟨rfl, rfl, rfl⟩ := Creation.running.inj (hy.symm.trans hy')
      simp [hstops, stopCapacity] at hlength
  | acknowledgement _ _ _ _ hstop _ =>
      have hrequest := hwired.request y path cfg r hstop hy (by simp [hphase])
      simp [Runner.openRequests, Runner.served, hphase, hstops] at hrequest
  | action _ _ hcreated hfault _ =>
      obtain ⟨e, hmem | hhook⟩ :=
        hwired.fault y x path cfg r hcreated hfault hy (by simp [hphase])
      · rcases hrest with hsignal | ⟨herrors, -⟩
        · exact ⟨path, cfg, r, hy, hphase, hstops, hsignal⟩
        · rw [herrors] at hmem
          contradiction
      · simp [hphase] at hhook
  | itself hitself _ =>
      have hselecting := System.phase_eq_some.mpr ⟨path, cfg, r, hy, hphase⟩
      rw [hselecting] at hitself
      simp at hitself

end Targets

section Deadlock

/-- A parent in its stop branch and a child that waits for the action on its
fault. -/
structure Crossed (h : Hierarchy M Ev) (p c : Nat) : Prop where
  created : h.CreatedBy p c
  child : h.system.phase c = some .awaitingAction
  fault : h.fault c = .waiting
  parent : ∃ request,
    (h.system.phase p = some (.stoppingChilds request) ∧
      (∃ rest, h.system.childSenders p = c :: rest) ∧ h.system.stopFull c = true) ∨
    (h.system.phase p = some (.awaitingChild request) ∧
      h.awaited p = some c ∧ h.stop c = .waiting)

/-- The actor waits for room in its own stop channel. -/
def SelfBlocked (h : Hierarchy M Ev) (x : Nat) : Prop :=
  h.system.phase x = some .stoppingItself ∧ h.system.stopFull x = true

/-- The waits of the actor lead to a deadlock. -/
def Deadlocked (h : Hierarchy M Ev) (x : Nat) : Prop :=
  ∃ y, ReflTransGen h.WaitsFor x y ∧ (h.SelfBlocked y ∨ ∃ c, h.Crossed y c)

theorem channelOpen_of_phase {phase : Phase M} (hphase : h.system.phase x = some phase)
    (hlive : phase ≠ .ended) : h.system.channelOpen x = true := by
  obtain ⟨path, cfg, r, hx, rfl⟩ := System.phase_eq_some.mp hphase
  exact System.channelOpen_iff.mpr ⟨path, cfg, r, hx, hlive⟩

/-- Each of the two waits for the other. -/
theorem Crossed.waits (hcrossed : h.Crossed p c) :
    h.WaitsFor p c ∧ h.WaitsFor c p := by
  obtain ⟨request, ⟨hphase, ⟨rest, hchilds⟩, hfull⟩ | ⟨hphase, hawaited, hstop⟩⟩ :=
    hcrossed.parent
  · exact ⟨.room c rest request hphase hchilds hfull,
      .action p hcrossed.child hcrossed.created hcrossed.fault
        (channelOpen_of_phase hphase (by simp))⟩
  · exact ⟨.acknowledgement c request hphase hawaited hstop
        (channelOpen_of_phase hcrossed.child (by simp)),
      .action p hcrossed.child hcrossed.created hcrossed.fault
        (channelOpen_of_phase hphase (by simp))⟩

theorem Deadlocked.leadsToCycle (hdead : h.Deadlocked x) :
    LeadsToCycle h.WaitsFor x := by
  obtain ⟨y, hy, ⟨hphase, hfull⟩ | ⟨c, hcrossed⟩⟩ := hdead
  · exact ⟨y, y, hy, .itself hphase hfull, .itself hphase hfull⟩
  · exact ⟨y, c, hy, hcrossed.waits.1, hcrossed.waits.2⟩

variable {inputs : List (HierarchyInput M Ev)}
  (hrun : execute step empty inputs = some (h, seen))

include hrun

/-- A parent that waits for a child which waits for it. -/
theorem crossed_of_waits (hcreated : h.CreatedBy p c) (hp : h.WaitsFor p c)
    (hc : h.WaitsFor c p) : h.Crossed p c := by
  have hreached := reached_of_execute hrun
  have hasymm : ¬ h.CreatedBy c p := by
    intro hback
    obtain ⟨rank, n, -, hrank⟩ := hreached.family.height
    exact absurd (hrank p c hcreated) (Nat.lt_asymm (hrank c p hback))
  cases hc with
  | action _ hphase _ hfault _ =>
      refine ⟨hcreated, hphase, hfault, ?_⟩
      cases hp with
      | start _ _ _ _ _ hsignalled =>
          -- a child that has not started sends no faults
          obtain ⟨path, cfg, r, hrunning, hawaiting⟩ := System.phase_eq_some.mp hphase
          have hstarting := starting_of_unsignalled hrun hrunning hsignalled
          exact absurd (by simp [Runner.InRun, hawaiting]) hstarting.1
      | room _ rest request hstopping hchilds hfull =>
          exact ⟨request, Or.inl ⟨hstopping, ⟨rest, hchilds⟩, hfull⟩⟩
      | acknowledgement _ request hawaiting hawaited hstop _ =>
          exact ⟨request, Or.inr ⟨hawaiting, hawaited, hstop⟩⟩
      | action _ _ hback => exact absurd hback hasymm
      | itself => exact absurd hcreated hreached.family.irrefl
  | start _ _ _ hcreating =>
      exact absurd (hreached.wired.creating c p hcreating).1 hasymm
  | room _ _ _ _ hchilds =>
      exact absurd (hreached.wired.senders c p (by simp [hchilds])) hasymm
  | acknowledgement _ _ _ hawaited =>
      exact absurd (hreached.wired.awaited c p hawaited) hasymm
  | itself => exact absurd hcreated hreached.family.irrefl

/-- A cycle of waits is a deadlock. -/
theorem leadsToCycle_iff : LeadsToCycle h.WaitsFor x ↔ h.Deadlocked x := by
  refine ⟨?_, Deadlocked.leadsToCycle⟩
  rintro ⟨y, z, hy, hyz, hzy⟩
  have hreached := reached_of_execute hrun
  rcases (waitForest hreached.family hreached.wired).edge y z hyz with
    rfl | hdown | hup
  · refine ⟨z, hy, Or.inl ?_⟩
    cases hyz with
    | itself hphase hfull => exact ⟨hphase, hfull⟩
    | start _ _ _ hcreating =>
        exact absurd (hreached.wired.creating z z hcreating).1 hreached.family.irrefl
    | room _ _ _ _ hchilds =>
        exact absurd (hreached.wired.senders z z (by simp [hchilds]))
          hreached.family.irrefl
    | acknowledgement _ _ _ hawaited =>
        exact absurd (hreached.wired.awaited z z hawaited) hreached.family.irrefl
    | action _ _ hcreated => exact absurd hcreated hreached.family.irrefl
  · exact ⟨y, hy, Or.inr ⟨z, crossed_of_waits hrun hdown hyz hzy⟩⟩
  · exact ⟨z, hy.tail hyz, Or.inr ⟨y, crossed_of_waits hrun hup hzy hyz⟩⟩

/-- **Progress.**  In every state that a run of the hierarchy reaches, the waits
of an actor lead to one that can take a step, if and only if the actor is not
idle, its waits do not lead to an actor that is deaf since its restart, and they
do not lead to a deadlock. -/
theorem waits_lead_to_progress_iff (hlive : h.Live x) :
    (∃ y, ReflTransGen h.WaitsFor x y ∧ h.GoesOn y) ↔
      ¬ (h.Idle x ∨ (∃ y, TransGen h.WaitsFor x y ∧ h.Deaf y) ∨ h.Deadlocked x) := by
  have hreached := reached_of_execute hrun
  have hforest := waitForest hreached.family hreached.wired
  constructor
  · rintro ⟨y, hy, hgoes⟩ hbad
    have hstop : ∀ z, ¬ h.WaitsFor y z := fun z => hgoes.not_waits hreached.wired
    rcases hbad with hidle | ⟨z, hz, hdeaf⟩ | hdead
    · obtain rfl := hforest.end_unique hy .refl hstop fun z => hidle.not_waits
      exact hidle.not_goesOn hreached.wired hgoes
    · obtain rfl := hforest.end_unique hy hz.to_reflTransGen hstop
        fun u => hdeaf.idle.not_waits
      exact hdeaf.idle.not_goesOn hreached.wired hgoes
    · exact (hforest.ends_iff x).mp ⟨y, hy, hstop⟩ hdead.leadsToCycle
  · intro hgood
    have hends : ¬ LeadsToCycle h.WaitsFor x := by
      intro hcycle
      exact hgood (Or.inr (Or.inr ((leadsToCycle_iff hrun).mp hcycle)))
    obtain ⟨y, hy, hstop⟩ := (hforest.ends_iff x).mpr hends
    -- the last one is under way, like everyone on the way
    have hliveLast : h.Live y := by
      rcases hy.cases_tail with rfl | ⟨z, -, hzy⟩
      · exact hlive
      · exact hzy.live hrun
    rcases goesOn_or_waits hrun hliveLast with hgoes | hidle | ⟨z, hz⟩
    · exact ⟨y, hy, hgoes⟩
    · exfalso
      rcases hy.cases_tail with rfl | ⟨z, hxz, hzy⟩
      · exact hgood (Or.inl hidle)
      · exact hgood (Or.inr (Or.inl
          ⟨y, TransGen.tail' hxz hzy, hzy.deaf_of_idle hrun hidle⟩))
    · exact absurd hz (hstop z)

/-- **A deadlock is forever.**  From a state that a run of the hierarchy reaches,
whatever happens next: everyone whose waits lead to a deadlock still waits for
whom it has waited for, and can take no step. -/
theorem deadlock_is_forever {t : Hierarchy M Ev} {inputs' : List (HierarchyInput M Ev)}
    {seen' : List (HierarchyObs M Ev)} (hdead : h.Deadlocked x)
    (hy : ReflTransGen h.WaitsFor x y)
    (hrun' : execute step h inputs' = some (t, seen')) :
    (∀ z, h.WaitsFor y z → t.WaitsFor y z) ∧ ¬ t.GoesOn y := by
  have hreached := reached_of_execute hrun
  have hunique := (waitForest hreached.family hreached.wired).unique
  obtain ⟨hkeeps, hstuck⟩ := waits_step.cycle_forever
    (fun _ _ _ _ hold hstep => hold.step hstep) hreached hunique
    hdead.leadsToCycle hy hrun'
  refine ⟨hkeeps, ?_⟩
  rintro ⟨i, hmoves, hstep⟩
  rw [hstuck i hmoves] at hstep
  contradiction

end Deadlock

section Runs

/-- A root actor creates a child in `pre_start`, and both start. -/
def startsPair (strategy : SupervisionStrategy) : List (HierarchyInput Unit Unit) :=
  [.createRoot 0 ['a'] strategy, .insert 0, .run 0 .proceed,
    .createChild 0 1 ['c'] .stop, .insert 1, .run 1 .proceed,
    .run 1 (.returns (.ok ())), .run 1 .proceed, .created 0,
    .run 0 (.returns (.ok ())), .run 0 .proceed]

/-- The handler of an actor fails, and its runner takes the fail. -/
def faults (call : Nat) : List (HierarchyInput Unit Unit) :=
  [.arrive call (.message ()), .run call .takeMessage,
    .run call (.operation (.emitFail (.functional "fault"))),
    .run call (.returns (.ok ())), .run call .takeInner]

/-- The root takes a stop request and asks its child. -/
def asksChild : List (HierarchyInput Unit Unit) :=
  [.arrive 0 (.stop ⟨.outside, none⟩), .run 0 .takeStop,
    .run 0 (.returns (.ok ())), .run 0 .childSent]

/-- The root waits for the acknowledgement of its child. -/
def Asking (h : Hierarchy Unit Unit) : Prop :=
  h.system.phase 0 = some (.awaitingChild ⟨.outside, none⟩) ∧
    h.awaited 0 = some 1 ∧ h.stop 1 = .waiting ∧ h.origin 1 = some ⟨0, .preStart⟩

instance : DecidablePred Asking := fun _ => inferInstanceAs (Decidable (_ ∧ _))

/-- `waits_lead_to_progress_iff` where the root waits for its child. -/
theorem asksChild_progress :
    ∃ h seen, execute step empty (startsPair .stop ++ asksChild) = some (h, seen) ∧
      h.WaitsFor 0 1 ∧
      ¬ (h.Idle 0 ∨ (∃ y, TransGen h.WaitsFor 0 y ∧ h.Deaf y) ∨ h.Deadlocked 0) := by
  have hstate : (execute step empty (startsPair .stop ++ asksChild)).any
      (fun p => decide (Asking p.1 ∧ p.1.system.phase 1 = some .selecting ∧
        (p.1.step (.run 1 .takeStop)).isSome)) = true := by
    decide +kernel
  obtain ⟨⟨h, seen⟩, hrun, hstate⟩ := (Option.any_eq_true _ _).mp hstate
  obtain ⟨⟨hroot, hawaited, hstop, -⟩, hchild, hstep⟩ := of_decide_eq_true hstate
  have hwaits : h.WaitsFor 0 1 := .acknowledgement 1 _ hroot hawaited hstop
    (channelOpen_of_phase hchild (by simp))
  have hlive := live_of_channelOpen (channelOpen_of_phase hroot (by simp))
  exact ⟨h, seen, hrun, hwaits, (waits_lead_to_progress_iff hrun hlive).mp
    ⟨1, .single hwaits, .run 1 .takeStop, rfl, hstep⟩⟩

/-- `deadlock_is_forever` where the fault of the child lies in the error queue of
the root when the root asks it to stop. -/
theorem asksChild_deadlocked :
    ∃ h seen, execute step empty (startsPair .stop ++ faults 1 ++ asksChild) =
        some (h, seen) ∧ h.Deadlocked 0 ∧
      ∀ inputs t o, execute step h inputs = some (t, o) →
        t.WaitsFor 0 1 ∧ ¬ t.GoesOn 0 := by
  have hstate : (execute step empty (startsPair .stop ++ faults 1 ++ asksChild)).any
      (fun p => decide (Asking p.1 ∧ p.1.system.phase 1 = some .awaitingAction ∧
        p.1.fault 1 = .waiting)) = true := by
    decide +kernel
  obtain ⟨⟨h, seen⟩, hrun, hstate⟩ := (Option.any_eq_true _ _).mp hstate
  obtain ⟨⟨hroot, hawaited, hstop, horigin⟩, hchild, hfault⟩ :=
    of_decide_eq_true hstate
  have hcrossed : h.Crossed 0 1 := ⟨⟨.preStart, horigin⟩, hchild, hfault, _,
    Or.inr ⟨hroot, hawaited, hstop⟩⟩
  have hdead : h.Deadlocked 0 := ⟨0, .refl, Or.inr ⟨1, hcrossed⟩⟩
  refine ⟨h, seen, hrun, hdead, fun inputs t o hrun' => ?_⟩
  obtain ⟨hkeeps, hstuck⟩ := deadlock_is_forever hrun hdead .refl hrun'
  exact ⟨hkeeps 1 hcrossed.waits.1, hstuck⟩

/-- The root fails, stops with its child, restarts and creates another one. -/
def restartsRoot : List (HierarchyInput Unit Unit) :=
  startsPair (.retry (.noInterval 1)) ++ faults 0 ++
    [.run 0 .proceed, .run 0 .takeStop, .run 0 (.returns (.ok ())), .run 0 .childSent,
      .run 1 .takeStop, .run 1 (.returns (.ok ())), .run 1 .proceed, .run 1 .proceed,
      .run 1 .proceed, .run 0 .childAnswered, .run 0 .proceed, .run 0 .proceed,
      .run 0 .proceed, .run 0 .proceed, .run 0 .proceed, .run 0 .proceed,
      .createChild 0 2 ['c'] .stop, .insert 2, .run 2 .proceed,
      .run 2 (.returns (.ok ())), .run 2 .proceed, .created 0,
      .run 0 (.returns (.ok ())), .run 0 .proceed]

/-- The new child waits for the action of a root that is deaf. -/
example : (execute step empty (restartsRoot ++ faults 2)).any
    (fun p => match p.1.system.creations 0 with
      | .running _ _ r =>
          decide (r.phase = .selecting ∧ r.stopQueue = [] ∧ r.stopSignal = true ∧
            p.1.system.phase 2 = some .awaitingAction ∧ p.1.fault 2 = .waiting ∧
            (p.1.origin 2).map Origin.parent = some 0)
      | _ => false) = true := by
  decide +kernel

end Runs

end Hierarchy

end Actor
end Rush
