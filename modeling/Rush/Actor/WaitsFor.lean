import Rush.Actor.Channels
import Rush.Foundation.WaitFor

/-!
# Which actor waits for which

An actor waits for the start of a child that one of its hooks has created, for
room in the stop channel of a child, for the acknowledgement of a child, for the
action of its parent on a fault, or for room in its own stop channel.  Every
actor that is not idle can go on or waits for one other, and the waits run along
the edges of the forest.  So they lead to an actor that can go on, to one that
hears nothing but stop requests since it was restarted, or to a deadlock.
-/

namespace Rush
namespace Actor

open Foundation Relation

variable {M Ev : Type}

namespace Runner

/-- Nothing to take in `select!`. -/
def Idle (r : Runner M Ev) : Prop :=
  r.phase = .selecting ∧ r.stopQueue = [] ∧
    (r.stopSignal = true ∨ r.errorQueue = [] ∧ r.innerQueue = [] ∧
      r.mailbox = [] ∧ r.sendersDropped = false)

/-- The stop signal stays set after a restart: only the stop branch is polled. -/
def Deaf (r : Runner M Ev) : Prop :=
  r.phase = .selecting ∧ r.stopQueue = [] ∧ r.stopSignal = true

variable {cfg : RunnerConfig} {r r' : Runner M Ev} {os : List (Obs M Ev)}
  {choice : Choice Ev}

theorem Deaf.idle (h : r.Deaf) : r.Idle := ⟨h.1, h.2.1, Or.inl h.2.2⟩

/-- An idle runner takes nothing. -/
theorem Idle.step_eq_none (h : r.Idle) : step cfg r (.choice choice) = none := by
  obtain ⟨hphase, hstops, hrest⟩ := h
  show r.advance cfg choice = none
  cases choice with
  | takeStop => simp [advance, hphase, select, hstops]
  | takeChildError | takeInner | takeMessage | mailboxClosed =>
      rcases hrest with hsignal | ⟨herrors, hinner, hmailbox, hdropped⟩ <;>
        simp_all [advance, select]
  | _ => simp [advance, hphase, select]

/-- A runner in `select!` that is not idle takes something. -/
theorem step_of_not_idle (hphase : r.phase = .selecting) (h : ¬ r.Idle) :
    ∃ choice : Choice Ev, (∀ h : Hierarchy M Ev, ∀ x, h.may x choice = true) ∧
      (step cfg r (.choice choice)).isSome := by
  cases hstops : r.stopQueue with
  | cons request rest =>
      refine ⟨.takeStop, fun _ _ => rfl, ?_⟩
      simp [step, advance, hphase, select, hstops]
  | nil =>
      cases hsignal : r.stopSignal with
      | true => exact absurd ⟨hphase, hstops, Or.inl hsignal⟩ h
      | false =>
          cases herrors : r.errorQueue with
          | cons error rest =>
              refine ⟨.takeChildError, fun _ _ => rfl, ?_⟩
              cases error <;> simp [step, advance, hphase, select, hsignal, herrors]
          | nil =>
              cases hinner : r.innerQueue with
              | cons action rest =>
                  refine ⟨.takeInner, fun _ _ => rfl, ?_⟩
                  cases action with
                  | fail e =>
                      cases hparent : cfg.hasParent <;>
                        simp [step, advance, hphase, select, hsignal, hinner, hparent]
                  | _ => simp [step, advance, hphase, select, hsignal, hinner]
              | nil =>
                  cases hmailbox : r.mailbox with
                  | cons message rest =>
                      refine ⟨.takeMessage, fun _ _ => rfl, ?_⟩
                      simp [step, advance, hphase, select, hsignal, hmailbox]
                  | nil =>
                      cases hdropped : r.sendersDropped with
                      | true =>
                          refine ⟨.mailboxClosed, fun _ _ => rfl, ?_⟩
                          simp [step, advance, hphase, select, hsignal, hmailbox,
                            hdropped]
                      | false =>
                          exact absurd ⟨hphase, hstops,
                            Or.inr ⟨herrors, hinner, hmailbox, hdropped⟩⟩ h

/-- The creator has been told when a runner ends, and only a child waits for an
action. -/
def Answerable (cfg : RunnerConfig) (r : Runner M Ev) : Prop :=
  (r.phase = .ended → r.signal = false) ∧
    (r.phase = .awaitingAction → cfg.hasParent = true)

theorem Answerable.step (h : r.Answerable cfg) (ht : Transition cfg r r' os) :
    r'.Answerable cfg := by
  unfold Answerable at *
  cases ht with
  | operates hook op r' hphase hop =>
      obtain ⟨hphase', -, -, -, hsignal'⟩ := operate_frame hop
      rwa [hphase', hsignal']
  | arrives => exact h
  | takesChildError error rest hook hphase hsignal hqueue hhook => simp
  | _ => simp_all

theorem answerable_of_execute {inputs : List (Input M Ev)} {seen : List (Obs M Ev)}
    (hrun : execute (step cfg) create inputs = some (r, seen)) : r.Answerable cfg :=
  execute_invariant (fun _ _ _ _ hold hstep => hold.step (step_transition hstep))
    (by simp [Answerable, create]) hrun

end Runner

namespace System

/-- Where the runner of a call is suspended. -/
def phase (s : System M Ev) (call : Nat) : Option (Phase M) :=
  match s.creations call with
  | .running _ _ r => some r.phase
  | _ => none

variable {s : System M Ev} {call : Nat}

theorem phase_eq_some {phase : Phase M} : s.phase call = some phase ↔
    ∃ path cfg r, s.creations call = .running path cfg r ∧ r.phase = phase := by
  unfold System.phase
  cases hcall : s.creations call <;> simp

end System

namespace Hierarchy

/-- The steps of an actor: of the call that creates it, of its hooks and of its
runner. -/
def Moves (x : Nat) : HierarchyInput M Ev → Prop
  | .createRoot _ _ _ => False
  | .createChild parent _ _ _ => parent = x
  | .insert call => call = x
  | .created parent => parent = x
  | .arrive _ _ => False
  | .run call _ => call = x

/-- An actor is under way: its call has passed the check, and its runner has not
ended. -/
def Live (h : Hierarchy M Ev) (x : Nat) : Prop :=
  match h.system.creations x with
  | .checked _ _ => True
  | .running _ _ r => r.phase ≠ .ended
  | _ => False

/-- An actor can take a step. -/
def GoesOn (h : Hierarchy M Ev) (x : Nat) : Prop :=
  ∃ i, Moves x i ∧ (h.step i).isSome

def Idle (h : Hierarchy M Ev) (x : Nat) : Prop :=
  ∃ path cfg r, h.system.creations x = .running path cfg r ∧ r.Idle

def Deaf (h : Hierarchy M Ev) (x : Nat) : Prop :=
  ∃ path cfg r, h.system.creations x = .running path cfg r ∧ r.Deaf

/-- Which actor waits for which, and for what. -/
inductive WaitsFor (h : Hierarchy M Ev) (x : Nat) : Nat → Prop
  /-- In `create_child`, for the start signal. -/
  | start (c hook) (hphase : h.system.phase x = some (.inHook hook))
      (hcreating : h.creating x = some c)
      (hcall : ∀ path, h.system.creations c ≠ .refused path)
      (hsignalled : h.signalled c = none) : WaitsFor h x c
  /-- In `stop_childs`, for room in the stop channel. -/
  | room (c rest request)
      (hphase : h.system.phase x = some (.stoppingChilds request))
      (hchilds : h.system.childSenders x = c :: rest)
      (hfull : h.system.stopFull c = true) : WaitsFor h x c
  /-- In `stop_childs`, for the acknowledgement. -/
  | acknowledgement (c request)
      (hphase : h.system.phase x = some (.awaitingChild request))
      (hawaited : h.awaited x = some c) (hstop : h.stop c = .waiting)
      (hopen : h.system.channelOpen c = true) : WaitsFor h x c
  /-- In `inner_handle`, for the action of the parent. -/
  | action (p) (hphase : h.system.phase x = some .awaitingAction)
      (hcreated : h.CreatedBy p x) (hfault : h.fault x = .waiting)
      (hopen : h.system.channelOpen p = true) : WaitsFor h x p
  /-- In `ctx.stop(None)`, for room in its own stop channel. -/
  | itself (hphase : h.system.phase x = some .stoppingItself)
      (hfull : h.system.stopFull x = true) : WaitsFor h x x

variable {h t : Hierarchy M Ev} {i : HierarchyInput M Ev}
  {o seen : List (HierarchyObs M Ev)} {p c x y : Nat}

/-- Nobody waits for two, and waits run along the edges of the forest. -/
theorem waitForest (hfamily : Family h) (hwired : Wired h) :
    WaitForest h.WaitsFor h.CreatedBy where
  unique := by
    intro x y z hy hz
    cases hy with
    | start _ _ hphase hcreating =>
        cases hz with
        | start _ _ _ hcreating' =>
            exact Option.some.inj (hcreating.symm.trans hcreating')
        | _ => simp_all
    | room _ _ _ hphase hchilds =>
        cases hz with
        | room _ _ _ _ hchilds' => exact (List.cons.inj (hchilds.symm.trans hchilds')).1
        | _ => simp_all
    | acknowledgement _ _ hphase hawaited =>
        cases hz with
        | acknowledgement _ _ _ hawaited' =>
            exact Option.some.inj (hawaited.symm.trans hawaited')
        | _ => simp_all
    | action _ hphase hcreated =>
        cases hz with
        | action _ _ hcreated' => exact hcreated.unique hcreated'
        | _ => simp_all
    | itself hphase =>
        cases hz with
        | itself => rfl
        | _ => simp_all
  edge := by
    intro x y hy
    cases hy with
    | start _ _ _ hcreating => exact Or.inr (Or.inl (hwired.creating x y hcreating).1)
    | room _ _ _ _ hchilds =>
        exact Or.inr (Or.inl (hwired.senders x y (by simp [hchilds])))
    | acknowledgement _ _ _ hawaited =>
        exact Or.inr (Or.inl (hwired.awaited x y hawaited))
    | action _ _ hcreated => exact Or.inr (Or.inr hcreated)
    | itself => exact Or.inl rfl
  parent _ _ _ hp hq := hp.unique hq
  height := by
    obtain ⟨rank, n, hbound, hrank⟩ := hfamily.height
    exact ⟨rank, n, fun p c hc => ⟨hrank p c hc, hbound c (hfamily.made p c hc)⟩⟩

section Blocked

/-- A step of the runner of an actor. -/
theorem run_of_step {choice : Choice Ev} (hstep : h.step (.run x choice) = some (t, o)) :
    ∃ path cfg r r' os, h.system.creations x = .running path cfg r ∧
      h.may x choice = true ∧ r.advance cfg choice = some (r', os) := by
  cases step_transition hstep with
  | runs _ _ path cfg r r' os hmay hcall hrun =>
      exact ⟨path, cfg, r, r', os, hcall, hmay, hrun⟩

/-- Outside a hook nothing is created. -/
theorem not_creating (hwired : Wired h) {phase : Phase M}
    (hphase : h.system.phase x = some phase) (hhook : ∀ hook, phase ≠ .inHook hook) :
    h.creating x = none := by
  cases hcreating : h.creating x with
  | none => rfl
  | some c =>
      obtain ⟨-, path, cfg, r, hook, hx, hinHook⟩ := hwired.creating x c hcreating
      have hphase' := System.phase_eq_some.mpr ⟨path, cfg, r, hx, hinHook⟩
      exact absurd (Option.some.inj (hphase.symm.trans hphase')) (hhook hook)

/-- An actor whose runner is suspended outside a hook goes on by its runner
only. -/
theorem run_of_moves (hwired : Wired h) {phase : Phase M}
    (hphase : h.system.phase x = some phase) (hhook : ∀ hook, phase ≠ .inHook hook)
    (hmoves : Moves x i) (hstep : h.step i = some (t, o)) :
    ∃ choice path cfg r r' os, i = .run x choice ∧
      h.system.creations x = .running path cfg r ∧ r.phase = phase ∧
      h.may x choice = true ∧ r.advance cfg choice = some (r', os) := by
  obtain ⟨path, cfg, r, hx, rfl⟩ := System.phase_eq_some.mp hphase
  cases i with
  | createRoot | arrive => exact hmoves.elim
  | createChild parent call name strategy =>
      cases (hmoves : parent = x)
      cases step_transition hstep with
      | createsChild _ _ _ _ _ _ r' hook _ _ hparent hinHook =>
          obtain ⟨rfl, rfl, rfl⟩ := Creation.running.inj (hx.symm.trans hparent)
          exact absurd hinHook (hhook hook)
  | insert call =>
      cases (hmoves : call = x)
      cases step_transition hstep with
      | inserts _ _ _ hsystem => simp [System.step, hx] at hsystem
  | created parent =>
      cases (hmoves : parent = x)
      simp [step, not_creating hwired hphase hhook] at hstep
  | run call choice =>
      cases (hmoves : call = x)
      obtain ⟨path', cfg', r', r'', os, hx', hmay, hrun⟩ := run_of_step hstep
      obtain ⟨rfl, rfl, rfl⟩ := Creation.running.inj (hx.symm.trans hx')
      exact ⟨choice, path, cfg, r, r'', os, rfl, hx, rfl, hmay, hrun⟩

/-- Who waits does not move. -/
theorem WaitsFor.blocks (hwired : Wired h) (hwaits : h.WaitsFor x y)
    (hmoves : Moves x i) : h.step i = none := by
  cases hnone : h.step i with
  | none => rfl
  | some u =>
  exfalso
  obtain ⟨t, o⟩ := u
  cases hwaits with
  | start c hook hphase hcreating hcall hsignalled =>
      obtain ⟨path, cfg, r, hx, hinHook⟩ := System.phase_eq_some.mp hphase
      cases i with
      | createRoot | arrive => exact hmoves
      | createChild parent call name strategy =>
          cases (hmoves : parent = x)
          simp [step, hx, hinHook, hcreating] at hnone
      | insert call =>
          cases (hmoves : call = x)
          simp [step, lift, System.step, hx] at hnone
      | created parent =>
          cases (hmoves : parent = x)
          cases step_transition hnone with
          | createFails _ _ hcreating' =>
              simp only [step, hcreating, hsignalled] at hnone
              split at hnone
              case h_1 path' hrefused => exact hcall path' hrefused
              all_goals contradiction
          | creates _ call _ _ _ _ hcreating' hsignalled' =>
              obtain rfl := Option.some.inj (hcreating.symm.trans hcreating')
              simp [hsignalled] at hsignalled'
      | run call choice =>
          cases (hmoves : call = x)
          obtain ⟨path', cfg', r', r'', os, hx', hmay, hrun⟩ := run_of_step hnone
          obtain ⟨rfl, rfl, rfl⟩ := Creation.running.inj (hx.symm.trans hx')
          rw [not_may_of_creating hcreating hinHook hrun] at hmay
          contradiction
  | room c rest request hphase hchilds hfull =>
      obtain ⟨choice, path, cfg, r, r', os, rfl, hx, hphase', hmay, hrun⟩ :=
        run_of_moves hwired hphase (by simp) hmoves hnone
      have hsenders : r.childSenders = y :: rest := by
        simpa [System.childSenders, hx] using hchilds
      obtain ⟨path', cfg', r₁, hc, hlive, hlength⟩ := System.stopFull_iff.mp hfull
      cases choice with
      | childClosed =>
          have hopen : h.system.channelOpen y = true :=
            System.channelOpen_iff.mpr ⟨path', cfg', r₁, hc, hlive⟩
          simp [may, hchilds, hopen] at hmay
      | childSent =>
          have hroom : ¬ r₁.stopQueue.length < stopCapacity := by omega
          simp [may, hchilds, System.step, hc, Runner.step, Runner.arrive, hroom]
            at hmay
      | _ => simp [Runner.advance, hphase', hsenders] at hrun
  | acknowledgement c request hphase hawaited hstop hopen =>
      obtain ⟨choice, path, cfg, r, r', os, rfl, hx, hphase', hmay, hrun⟩ :=
        run_of_moves hwired hphase (by simp) hmoves hnone
      obtain rfl := Runner.advance_awaitingChild hphase' hrun
      simp [may, hawaited, hstop, hopen] at hmay
  | action p hphase hcreated hfault hopen =>
      obtain ⟨choice, path, cfg, r, r', os, rfl, hx, hphase', hmay, hrun⟩ :=
        run_of_moves hwired hphase (by simp) hmoves hnone
      obtain ⟨action, rfl⟩ := Runner.advance_awaitingAction hphase' hrun
      obtain ⟨hook, horigin⟩ := hcreated
      cases action <;> simp [may, hfault, horigin, hopen] at hmay
  | itself hphase hfull =>
      obtain ⟨choice, path, cfg, r, r', os, rfl, hx, hphase', hmay, hrun⟩ :=
        run_of_moves hwired hphase (by simp) hmoves hnone
      obtain ⟨path', cfg', r₁, hx', hlive, hlength⟩ := System.stopFull_iff.mp hfull
      obtain ⟨rfl, rfl, rfl⟩ := Creation.running.inj (hx.symm.trans hx')
      have hroom : ¬ r.stopQueue.length < stopCapacity := by omega
      cases choice <;> simp [Runner.advance, hphase', hroom] at hrun

end Blocked

section Others

/-- An actor that another one leaves alone keeps its runner, with more in the
queues. -/
theorem grows_of_other {path : ActorPath} {cfg : RunnerConfig} {r : Runner M Ev}
    (hstep : h.step i = some (t, o)) (hx : h.system.creations x = .running path cfg r)
    (hother : ¬ Moves x i) :
    ∃ r', t.system.creations x = .running path cfg r' ∧ r.Grows r' := by
  obtain ⟨r', hx'⟩ := running_of_step hstep hx
  refine ⟨r', hx', ?_⟩
  rcases step_acts hstep with
    ⟨call, choice, path', cfg', r₁, r₂, os, rfl, hcall, -, -, hact⟩ | ⟨-, hrests⟩
  · obtain ⟨r₃, hgrows, -, ⟨rfl, -⟩ | ⟨-, hold⟩⟩ := hact.runner_cases hx'
    · exact absurd rfl hother
    · obtain ⟨-, -, rfl⟩ := Creation.running.inj (hx.symm.trans hold)
      exact hgrows
  · rcases hrests.runners x path cfg r' hx' with ⟨hchecked, -⟩ | ⟨r₁, hold, hgrows, -⟩
    · rw [hx] at hchecked
      contradiction
    · obtain ⟨-, -, rfl⟩ := Creation.running.inj (hx.symm.trans hold)
      exact hgrows

theorem phase_of_other {phase : Phase M} (hstep : h.step i = some (t, o))
    (hphase : h.system.phase x = some phase) (hother : ¬ Moves x i) :
    t.system.phase x = some phase := by
  obtain ⟨path, cfg, r, hx, rfl⟩ := System.phase_eq_some.mp hphase
  obtain ⟨r', hx', hgrows⟩ := grows_of_other hstep hx hother
  exact System.phase_eq_some.mpr ⟨path, cfg, r', hx', hgrows.phase⟩

theorem channelOpen_of_other (hstep : h.step i = some (t, o))
    (hopen : h.system.channelOpen x = true) (hother : ¬ Moves x i) :
    t.system.channelOpen x = true := by
  obtain ⟨path, cfg, r, hx, hlive⟩ := System.channelOpen_iff.mp hopen
  obtain ⟨r', hx', hgrows⟩ := grows_of_other hstep hx hother
  exact System.channelOpen_iff.mpr ⟨path, cfg, r', hx', hgrows.phase ▸ hlive⟩

/-- Only the runner itself makes room. -/
theorem stopFull_of_other (hstep : h.step i = some (t, o))
    (hfull : h.system.stopFull x = true) (hother : ¬ Moves x i) :
    t.system.stopFull x = true := by
  obtain ⟨path, cfg, r, hx, hlive, hlength⟩ := System.stopFull_iff.mp hfull
  obtain ⟨r', hx', hgrows⟩ := grows_of_other hstep hx hother
  refine System.stopFull_iff.mpr ⟨path, cfg, r', hx', hgrows.phase ▸ hlive, ?_⟩
  exact hlength.trans hgrows.stops.length_le

theorem childSenders_of_other (hstep : h.step i = some (t, o))
    (hother : ¬ Moves x i) :
    t.system.childSenders x = h.system.childSenders x := by
  cases senders_step (step_transition hstep) x with
  | keeps hsenders => exact hsenders
  | creates _ _ _ _ _ hi | asks _ _ _ _ _ hi | closes _ hi =>
      exact absurd (by simp [hi, Moves]) hother

theorem awaited_of_other (hstep : h.step i = some (t, o)) (hother : ¬ Moves x i) :
    t.awaited x = h.awaited x := by
  rcases step_acts hstep with ⟨call, choice, path, cfg, r, r', os, rfl, -, -, -, hact⟩ |
    ⟨-, hrests⟩
  · have hne : x ≠ call := fun heq => hother heq.symm
    cases hact with
    | asks _ _ _ _ _ _ _ ht | hears _ _ _ _ _ _ _ ht => simp [ht.awaited, hne]
    | alone _ _ _ _ _ ht | takesAction _ _ _ _ _ ht | answers _ _ _ _ _ _ _ _ ht
    | acknowledges _ _ _ _ _ _ ht | sendsError _ _ _ _ _ ht
    | sendsFault _ _ _ _ _ ht => rw [ht.awaited]
  · rw [hrests.awaited]

theorem creating_of_other (hstep : h.step i = some (t, o))
    (hx : h.creating x = some c) (hother : ¬ Moves x i) : t.creating x = some c := by
  cases step_transition hstep with
  | createsChild parent _ _ _ _ _ _ _ _ _ _ _ _ _ =>
      have hne : x ≠ parent := fun heq => hother heq.symm
      simpa [hne] using hx
  | createFails parent | creates parent =>
      have hne : x ≠ parent := fun heq => hother heq.symm
      simpa [hne] using hx
  | runs call choice path cfg r r' os =>
      show (h.ranTo call choice path cfg r' os).creating x = some c
      rw [ranTo_creating]
      exact hx
  | _ => exact hx

theorem signalled_of_other (hstep : h.step i = some (t, o))
    (hx : h.signalled x = none) (hother : ¬ Moves x i) : t.signalled x = none := by
  cases hafter : t.signalled x with
  | none => rfl
  | some b =>
      rcases (signalled_cases (step_transition hstep) x).1 b hafter with hold |
        ⟨choice, path, cfg, r, r₁, os, rfl, -⟩
      · rw [hx] at hold
        contradiction
      · exact absurd rfl hother

/-- A call that has passed the check is not refused later. -/
theorem not_refused_of_step (hstep : h.step i = some (t, o))
    (hmade : h.system.creations c ≠ .absent)
    (hcall : ∀ path, h.system.creations c ≠ .refused path) (path : ActorPath) :
    t.system.creations c ≠ .refused path := by
  refine (system_keeps (I := fun s => s.creations c ≠ .absent ∧
    ∀ path, s.creations c ≠ .refused path) ?_ hstep ⟨hmade, hcall⟩).2 path
  rintro s i t o ⟨hmade, hcall⟩ hs
  rcases System.creation_cases hs c with hsame | habsent |
    ⟨path, cfg, -, hrunning⟩ | ⟨path, cfg, r, r', os, -, hrunning, -⟩
  · rw [hsame]
    exact ⟨hmade, hcall⟩
  · exact absurd habsent hmade
  · simp [hrunning]
  · simp [hrunning]

/-- The acknowledgement comes from the child, and its parent alone takes it. -/
theorem stop_of_other (hwired : Wired h) (hstep : h.step i = some (t, o))
    (hawaited : h.awaited x = some c) (hstop : h.stop c = .waiting)
    (hx : ¬ Moves x i) (hc : ¬ Moves c i) : t.stop c = .waiting := by
  rcases step_acts hstep with ⟨call, choice, path, cfg, r, r', os, rfl, -, -, -, hact⟩ |
    ⟨-, hrests⟩
  · cases hact with
    | asks _ child _ _ _ _ _ ht =>
        by_cases heq : c = child
        · simp [ht.stop, heq]
        · simpa [ht.stop, heq] using hstop
    | hears _ child _ _ _ _ hawaited' ht =>
        have hne : c ≠ child := by
          rintro rfl
          exact hx ((hwired.awaited call c hawaited').unique
            (hwired.awaited x c hawaited))
        simpa [ht.stop, hne] using hstop
    | acknowledges _ _ _ _ _ _ ht =>
        have hne : c ≠ call := fun heq => hc heq.symm
        rw [ht.stop]
        split
        · simpa [hne] using hstop
        · exact hstop
    | alone _ _ _ _ _ ht | takesAction _ _ _ _ _ ht | answers _ _ _ _ _ _ _ _ ht
    | sendsError _ _ _ _ _ ht | sendsFault _ _ _ _ _ ht => rw [ht.stop, hstop]
  · rw [hrests.stop, hstop]

/-- The action comes from the parent, and the child alone takes it. -/
theorem fault_of_other (hwired : Wired h) (hstep : h.step i = some (t, o))
    (hcreated : h.CreatedBy p x) (hfault : h.fault x = .waiting)
    (hx : ¬ Moves x i) (hp : ¬ Moves p i) : t.fault x = .waiting := by
  rcases step_acts hstep with
    ⟨call, choice, path, cfg, r, r', os, rfl, hcall, -, -, hact⟩ | ⟨-, hrests⟩
  · have hne : x ≠ call := fun heq => hx heq.symm
    cases hact with
    | sendsFault _ _ _ _ _ ht | takesAction _ _ _ _ _ ht =>
        simpa [ht.fault, hne] using hfault
    | answers e sender action _ hphase _ _ _ ht =>
        have hsender : x ≠ sender := by
          rintro rfl
          have hcreated' := hwired.faults call path cfg r e x hcall (Or.inr hphase)
          exact hp (hcreated'.unique hcreated)
        rw [ht.fault]
        split
        · simpa [hsender] using hfault
        · exact hfault
    | alone _ _ _ _ _ ht | asks _ _ _ _ _ _ _ ht | hears _ _ _ _ _ _ _ ht
    | acknowledges _ _ _ _ _ _ ht | sendsError _ _ _ _ _ ht => rw [ht.fault, hfault]
  · rw [hrests.fault, hfault]

/-- A wait is ended by the awaited actor only. -/
theorem WaitsFor.keeps (hwired : Wired h) (hfamily : Family h)
    (hwaits : h.WaitsFor x y) (hstep : h.step i = some (t, o))
    (hother : ¬ Moves y i) : t.WaitsFor x y := by
  have hx : ¬ Moves x i := by
    intro hmoves
    rw [hwaits.blocks hwired hmoves] at hstep
    contradiction
  cases hwaits with
  | start _ hook hphase hcreating hcall hsignalled =>
      have hmade := hfamily.made x y (hwired.creating x y hcreating).1
      exact .start y hook (phase_of_other hstep hphase hx)
        (creating_of_other hstep hcreating hx)
        (not_refused_of_step hstep hmade hcall)
        (signalled_of_other hstep hsignalled hother)
  | room _ rest request hphase hchilds hfull =>
      exact .room y rest request (phase_of_other hstep hphase hx)
        ((childSenders_of_other hstep hx).trans hchilds)
        (stopFull_of_other hstep hfull hother)
  | acknowledgement _ request hphase hawaited hstop hopen =>
      exact .acknowledgement y request (phase_of_other hstep hphase hx)
        ((awaited_of_other hstep hx).trans hawaited)
        (stop_of_other hwired hstep hawaited hstop hx hother)
        (channelOpen_of_other hstep hopen hother)
  | action _ hphase hcreated hfault hopen =>
      exact .action y (phase_of_other hstep hphase hx)
        (hfamily.createdBy_step hstep hcreated)
        (fault_of_other hwired hstep hcreated hfault hx hother)
        (channelOpen_of_other hstep hopen hother)
  | itself hphase hfull =>
      exact .itself (phase_of_other hstep hphase hx) (stopFull_of_other hstep hfull hx)

end Others

/-- What holds of every hierarchy that a run reaches. -/
structure Reached (h : Hierarchy M Ev) : Prop where
  family : Family h
  wired : Wired h
  signals : SignalLog h

theorem Reached.step (hreached : Reached h) (hstep : h.step i = some (t, o)) :
    Reached t where
  family := hreached.family.step hstep
  wired := hreached.wired.step hreached.family hstep
  signals := hreached.signals.step hstep

theorem reached_of_execute {inputs : List (HierarchyInput M Ev)}
    (hrun : execute step .empty inputs = some (h, seen)) : Reached h where
  family := family_of_execute hrun
  wired := wired_of_execute hrun
  signals := signalLog_of_execute hrun

theorem waits_step :
    Waits (step : Hierarchy M Ev → HierarchyInput M Ev →
      Option (Hierarchy M Ev × List (HierarchyObs M Ev))) Reached WaitsFor Moves where
  blocks _ _ _ _ hreached hwaits hmoves := hwaits.blocks hreached.wired hmoves
  keeps _ _ _ _ _ _ hreached hwaits hstep hother :=
    hwaits.keeps hreached.wired hreached.family hstep hother

end Hierarchy

end Actor
end Rush
