import Rush.Actor.ParentChild
import Rush.Actor.RunnerWaits

/-!
# When a parent and its child wait for each other

The child waits for the action on its fault, or in `ctx.stop(None)` for room in
its own stop channel.  The parent waits in `stop_childs` for room in the stop
channel of the child or for its acknowledgement, or in `ctx.stop(None)` as well.
While both wait, neither of them takes anything from its queues, so the pair
never moves again.  A step leads there if it makes one of the two wait while the
other one does.
-/

namespace Rush
namespace Actor

open Foundation

variable {M Ev N Ew : Type}

namespace Pair

/-- The parent waits for the child or for itself, with `requests` requests in the
stop channel of the child. -/
inductive ParentWaits (cfg : PairConfig) (s : Pair M Ev N Ew) (requests : Nat) : Prop
  /-- In `stop_childs`, for the acknowledgement. -/
  | acknowledgement (request) (hphase : s.parent.phase = .awaitingChild request)
      (hstop : s.stop = .waiting)
  /-- In `stop_childs`, for room in the stop channel of the child. -/
  | room (request) (hphase : s.parent.phase = .stoppingChilds request)
      (hnext : s.parent.childSenders.head? = some cfg.child)
      (hfull : stopCapacity ≤ requests)
  /-- In `ctx.stop(None)`, for room in its own stop channel. -/
  | itself (hphase : s.parent.phase = .stoppingItself)
      (hfull : stopCapacity ≤ s.parent.stopQueue.length)

/-- The child waits for the parent or for itself. -/
inductive ChildWaits (s : Pair M Ev N Ew) (requests : Nat) : Prop
  /-- In `inner_handle`, for the action of the parent. -/
  | action (hphase : s.child.phase = .awaitingAction) (hfault : s.fault = .waiting)
  /-- In `ctx.stop(None)`, for room in its own stop channel. -/
  | itself (hphase : s.child.phase = .stoppingItself) (hfull : stopCapacity ≤ requests)

/-- The requests in the stop channel of the child. -/
def requests (s : Pair M Ev N Ew) : Nat := s.child.stopQueue.length

/-- Neither can go on: each of the two waits for the other one or for itself. -/
structure Deadlocked (cfg : PairConfig) (s : Pair M Ev N Ew) : Prop where
  parent : s.ParentWaits cfg s.requests
  child : s.ChildWaits s.requests

/-- A channel is in use only while its reader waits for it. -/
structure Wired (s : Pair M Ev N Ew) : Prop where
  fault : s.fault ≠ .closed → s.child.phase = .awaitingAction
  stop : s.stop ≠ .closed → ∃ request, s.parent.phase = .awaitingChild request

/-- The choice makes the parent wait in `stop_childs` for room in the stop channel
of the child, or in `ctx.stop(None)`. -/
def ParentComesToWait (cfg : PairConfig) (s : Pair M Ev N Ew) (choice : Choice Ev) :
    Prop :=
  (s.parent.turnsTo choice = some cfg.child ∧ stopCapacity ≤ s.requests) ∨
    (s.parent.StopsItself cfg.parent choice ∧
      stopCapacity ≤ s.parent.stopQueue.length)

/-- The choice makes the child wait in `inner_handle`, or in `ctx.stop(None)`. -/
def ChildComesToWait (cfg : PairConfig) (s : Pair M Ev N Ew) (choice : Choice Ew) :
    Prop :=
  s.child.TakesFail choice ∨
    (s.child.StopsItself cfg.childConfig choice ∧ stopCapacity ≤ s.requests)

/-- The steps that do not lead into the deadlock: none of the two comes to wait
while the other one waits.  A request takes a place in the stop channel of the
child, which may have been the last one. -/
def Avoids (cfg : PairConfig) (s : Pair M Ev N Ew) :
    PairInput M Ev N Ew → Prop
  | .parent .childSent =>
      s.parent.childSenders.head? = some cfg.child → ¬ s.ChildWaits (s.requests + 1)
  | .parent choice => s.ParentComesToWait cfg choice → ¬ s.ChildWaits s.requests
  | .child choice => s.ChildComesToWait cfg choice → ¬ s.ParentWaits cfg s.requests
  | .toParent (.stop _) =>
      s.parent.phase = .stoppingItself →
        stopCapacity ≤ s.parent.stopQueue.length + 1 → ¬ s.ChildWaits s.requests
  | .toChild (.stop _) =>
      s.ParentWaits cfg (s.requests + 1) → ¬ s.ChildWaits (s.requests + 1)
  | _ => True

variable {cfg : PairConfig} {s t : Pair M Ev N Ew} {m n : Nat}

theorem ParentWaits.congr (h : s.ParentWaits cfg n)
    (hphase : t.parent.phase = s.parent.phase)
    (hsenders : t.parent.childSenders = s.parent.childSenders)
    (hqueue : t.parent.stopQueue = s.parent.stopQueue) (hstop : t.stop = s.stop) :
    t.ParentWaits cfg n := by
  cases h with
  | acknowledgement request h hw =>
      exact .acknowledgement request (hphase.trans h) (hstop.trans hw)
  | room request h hnext hfull =>
      exact .room request (hphase.trans h) (hsenders ▸ hnext) hfull
  | itself h hfull => exact .itself (hphase.trans h) (hqueue ▸ hfull)

theorem ParentWaits.mono (h : s.ParentWaits cfg n) (hle : n ≤ m) :
    s.ParentWaits cfg m := by
  cases h with
  | acknowledgement request hphase hstop => exact .acknowledgement request hphase hstop
  | room request hphase hnext hfull => exact .room request hphase hnext (hfull.trans hle)
  | itself hphase hfull => exact .itself hphase hfull

theorem ChildWaits.congr (h : s.ChildWaits n) (hphase : t.child.phase = s.child.phase)
    (hfault : t.fault = s.fault) : t.ChildWaits n := by
  cases h with
  | action h hw => exact .action (hphase.trans h) (hfault.trans hw)
  | itself h hfull => exact .itself (hphase.trans h) hfull

theorem ChildWaits.mono (h : s.ChildWaits n) (hle : n ≤ m) : s.ChildWaits m := by
  cases h with
  | action hphase hfault => exact .action hphase hfault
  | itself hphase hfull => exact .itself hphase (hfull.trans hle)

/-- A child that waits has not ended. -/
theorem ChildWaits.not_ended (h : s.ChildWaits n) : s.child.phase.isEnded = false := by
  cases h with
  | action hphase | itself hphase => rw [hphase]; rfl

theorem ParentWaits.not_ended (h : s.ParentWaits cfg n) :
    s.parent.phase.isEnded = false := by
  cases h with
  | acknowledgement _ hphase | room _ hphase | itself hphase => rw [hphase]; rfl

section Frames

variable (cfg)

/-- What the parent does, seen from the rest of the pair. -/
structure ParentFrame (s t : Pair M Ev N Ew) : Prop where
  parent : t.parent = s.parent
  child : t.child.phase = s.child.phase
  fault : t.fault = .closed ↔ s.fault = .closed

/-- One observation of the parent; only a stop request opens the stop channel. -/
theorem parentDid_frame (x : Obs M Ev) (s : Pair M Ev N Ew) :
    ParentFrame s (s.parentDid cfg x) ∧
      ((∀ child, x ≠ .stopChild child) → (s.parentDid cfg x).stop = s.stop) := by
  cases x with
  | childAction sender action =>
      simp only [parentDid]
      split
      case isTrue h => exact ⟨⟨rfl, rfl, by simp [h.2]⟩, fun _ => rfl⟩
      case isFalse => exact ⟨⟨rfl, rfl, Iff.rfl⟩, fun _ => rfl⟩
  | stopChild child =>
      refine ⟨?_, fun hno => absurd rfl (hno child)⟩
      simp only [parentDid]
      split
      case isTrue => exact ⟨rfl, Runner.phase_getD_arrive _ _, Iff.rfl⟩
      case isFalse => exact ⟨rfl, rfl, Iff.rfl⟩
  | _ => exact ⟨⟨rfl, rfl, Iff.rfl⟩, fun _ => rfl⟩

theorem foldl_parentDid_frame (o : List (Obs M Ev)) (s : Pair M Ev N Ew) :
    ParentFrame s (o.foldl (parentDid cfg) s) := by
  apply List.foldlRecOn (motive := ParentFrame s) o
  · exact ⟨rfl, rfl, Iff.rfl⟩
  · intro t ht x _
    have hx := (parentDid_frame cfg x t).1
    exact ⟨hx.parent.trans ht.parent, hx.child.trans ht.child,
      hx.fault.trans ht.fault⟩

theorem foldl_parentDid_stop {o : List (Obs M Ev)}
    (hno : ∀ child, .stopChild child ∉ o) (s : Pair M Ev N Ew) :
    (o.foldl (parentDid cfg) s).stop = s.stop := by
  apply List.foldlRecOn
    (motive := fun t : Pair M Ev N Ew => t.stop = s.stop) o
  · rfl
  · intro t ht x hx
    have hsame := (parentDid_frame cfg x t).2 fun child heq => hno child (heq ▸ hx)
    exact hsame.trans ht

/-- What the child does, seen from the rest of the pair. -/
structure ChildFrame (s t : Pair M Ev N Ew) : Prop where
  child : t.child = s.child
  parent : t.parent.phase = s.parent.phase
  stop : t.stop = .closed ↔ s.stop = .closed

/-- One observation of the child; only a fault opens the channel of its
action. -/
theorem childDid_frame (x : Obs N Ew) (s : Pair M Ev N Ew) :
    ChildFrame s (s.childDid cfg x) ∧
      ((∀ e, x ≠ .sentFault e) → (s.childDid cfg x).fault = s.fault) := by
  cases x with
  | sentError e =>
      exact ⟨⟨rfl, Runner.phase_getD_arrive _ _, Iff.rfl⟩, fun _ => rfl⟩
  | sentFault e =>
      exact ⟨⟨rfl, Runner.phase_getD_arrive _ _, Iff.rfl⟩,
        fun hno => absurd rfl (hno e)⟩
  | acknowledged request =>
      simp only [childDid]
      split
      case isTrue h => exact ⟨⟨rfl, rfl, by simp [h.2]⟩, fun _ => rfl⟩
      case isFalse => exact ⟨⟨rfl, rfl, Iff.rfl⟩, fun _ => rfl⟩
  | signal started =>
      cases started <;> exact ⟨⟨rfl, rfl, Iff.rfl⟩, fun _ => rfl⟩
  | _ => exact ⟨⟨rfl, rfl, Iff.rfl⟩, fun _ => rfl⟩

theorem foldl_childDid_frame (o : List (Obs N Ew)) (s : Pair M Ev N Ew) :
    ChildFrame s (o.foldl (childDid cfg) s) := by
  apply List.foldlRecOn (motive := ChildFrame s) o
  · exact ⟨rfl, rfl, Iff.rfl⟩
  · intro t ht x _
    have hx := (childDid_frame cfg x t).1
    exact ⟨hx.child.trans ht.child, hx.parent.trans ht.parent,
      hx.stop.trans ht.stop⟩

theorem foldl_childDid_fault {o : List (Obs N Ew)}
    (hno : ∀ e, .sentFault e ∉ o) (s : Pair M Ev N Ew) :
    (o.foldl (childDid cfg) s).fault = s.fault := by
  apply List.foldlRecOn
    (motive := fun t : Pair M Ev N Ew => t.fault = s.fault) o
  · rfl
  · intro t ht x hx
    have hsame := (childDid_frame cfg x t).2 fun e heq => hno e (heq ▸ hx)
    exact hsame.trans ht

end Frames

section Steps

variable {os : List (Obs M Ev ⊕ Obs N Ew)}

theorem step_parent {choice : Choice Ev}
    (h : step cfg s (.parent choice) = some (t, os)) :
    ∃ parent o, s.parent.advance cfg.parent choice = some (parent, o) ∧
      s.parentMay cfg choice ∧
      t = o.foldl (parentDid cfg)
        (parentChose cfg { s with parent := parent } choice) := by
  simp only [step] at h
  split at h
  case isFalse => contradiction
  case isTrue hmay =>
    obtain ⟨⟨parent, o⟩, hadvance, heq⟩ := Option.map_eq_some_iff.mp h
    cases heq
    exact ⟨parent, o, hadvance, hmay, rfl⟩

theorem step_child {choice : Choice Ew}
    (h : step cfg s (.child choice) = some (t, os)) :
    ∃ child o, s.child.advance cfg.childConfig choice = some (child, o) ∧
      s.childMay cfg choice ∧
      t = o.foldl (childDid cfg)
        (childChose { s with child := child } choice) := by
  simp only [step] at h
  split at h
  case isFalse => contradiction
  case isTrue hmay =>
    obtain ⟨⟨child, o⟩, hadvance, heq⟩ := Option.map_eq_some_iff.mp h
    cases heq
    exact ⟨child, o, hadvance, hmay, rfl⟩

/-- In the deadlock neither runner has a next step. -/
theorem Deadlocked.stuck (hd : s.Deadlocked cfg) :
    (∀ choice, step cfg s (.parent choice) = none) ∧
      ∀ choice, step cfg s (.child choice) = none := by
  have hchild := hd.child.not_ended
  have hparent := hd.parent.not_ended
  constructor
  · intro choice
    cases hstep : step cfg s (.parent choice) with
    | none => rfl
    | some p =>
        exfalso
        obtain ⟨parent, o, hadvance, hmay, -⟩ := step_parent hstep
        cases hd.parent with
        | acknowledgement request hphase hstop =>
            obtain rfl := Runner.advance_awaitingChild hphase hadvance
            simp [parentMay, hstop, hchild] at hmay
        | room request hphase hnext hfull =>
            obtain ⟨rest, hsenders⟩ := List.head?_eq_some_iff.mp hnext
            have hroom : ¬ s.child.stopQueue.length < stopCapacity := Nat.not_lt.mpr hfull
            cases choice <;> simp [Runner.advance, hphase, hsenders] at hadvance
            all_goals simp [parentMay, hsenders, hchild, Runner.arrive, hroom] at hmay
        | itself hphase hfull =>
            have hroom : ¬ s.parent.stopQueue.length < stopCapacity := Nat.not_lt.mpr hfull
            cases choice <;> simp [Runner.advance, hphase, hroom] at hadvance
  · intro choice
    cases hstep : step cfg s (.child choice) with
    | none => rfl
    | some p =>
        exfalso
        obtain ⟨child, o, hadvance, hmay, -⟩ := step_child hstep
        cases hd.child with
        | action hphase hfault =>
            obtain ⟨action, rfl⟩ := Runner.advance_awaitingAction hphase hadvance
            cases action <;> simp [childMay, hfault, hparent] at hmay
        | itself hphase hfull =>
            have hroom : ¬ s.child.stopQueue.length < stopCapacity := Nat.not_lt.mpr hfull
            cases choice <;> simp [Runner.advance, hphase, hroom] at hadvance

/-- The parent sends a stop request, to this child or to another one. -/
theorem parent_childSent (hw : s.Wired)
    (h : step cfg s (.parent .childSent) = some (t, os)) :
    t.Wired ∧ (t.Deadlocked cfg ↔ s.parent.childSenders.head? = some cfg.child ∧
      s.ChildWaits (s.requests + 1)) := by
  obtain ⟨parent, o, hadvance, hmay, rfl⟩ := step_parent h
  obtain ⟨request, child, hphase, hhead, hphase', rfl⟩ :=
    Runner.advance_childSent hadvance
  -- in `stop_childs` the runner is not waiting yet
  have hclosed : s.stop = .closed := by
    by_contra hopen
    obtain ⟨request', hawaiting⟩ := hw.stop hopen
    rw [hphase] at hawaiting
    contradiction
  simp only [List.foldl_cons, List.foldl_nil, parentChose, parentDid]
  by_cases hchild : child = cfg.child
  -- the request only lengthens the stop queue of the child
  · rw [if_pos hchild, hhead, hchild]
    have hroom : (s.child.arrive (.stop cfg.stopRequest)).isSome := by
      simpa [parentMay, hhead, hchild] using hmay
    obtain ⟨child', harrive⟩ := Option.isSome_iff_exists.mp hroom
    have hphaseChild := (Runner.arrive_frame harrive).1
    have hqueue : child'.stopQueue = s.child.stopQueue ++ [cfg.stopRequest] := by
      simp only [Runner.arrive] at harrive
      split at harrive <;> cases harrive
      rfl
    rw [harrive, Option.getD_some]
    have hwaits : ∀ n, ChildWaits { s with
        parent := parent, child := child', stop := .waiting } n ↔ s.ChildWaits n :=
      fun n => ⟨fun hc => hc.congr hphaseChild.symm rfl,
        fun hc => hc.congr hphaseChild rfl⟩
    refine ⟨⟨fun hfault => hphaseChild.trans (hw.fault hfault),
      fun _ => ⟨request, hphase'⟩⟩, ?_⟩
    have hrequests : requests { s with
        parent := parent, child := child', stop := .waiting } = s.requests + 1 := by
      simp [requests, hqueue]
    constructor
    · intro hd
      have hc := (hwaits _).mp hd.child
      rw [hrequests] at hc
      exact ⟨rfl, hc⟩
    · rintro ⟨-, hc⟩
      refine ⟨.acknowledgement request hphase' rfl, (hwaits _).mpr ?_⟩
      rwa [hrequests]
  · rw [if_neg hchild]
    refine ⟨⟨hw.fault, fun hopen => absurd hclosed hopen⟩, fun hd => ?_, fun hd => ?_⟩
    · cases hd.parent with
      | acknowledgement _ _ hstop =>
          exact absurd (hclosed.symm.trans hstop) (by simp)
      | room _ hstopping | itself hstopping =>
          exact absurd (hphase'.symm.trans hstopping) (by simp)
    · rw [hhead] at hd
      exact absurd (Option.some.inj hd.1) hchild

/-- What a choice of the parent does to the channels. -/
theorem parentChose_frame (cfg : PairConfig) (u : Pair M Ev N Ew) (choice : Choice Ev) :
    (parentChose cfg u choice).parent = u.parent ∧
      (parentChose cfg u choice).child = u.child ∧
      (parentChose cfg u choice).fault = u.fault ∧
      ((parentChose cfg u choice).stop = .closed ∨
        choice ≠ .childAnswered ∧ (parentChose cfg u choice).stop = u.stop) := by
  unfold parentChose
  split
  · split <;> exact ⟨rfl, rfl, rfl, Or.inr ⟨by simp, rfl⟩⟩
  · exact ⟨rfl, rfl, rfl, Or.inl rfl⟩
  · exact ⟨rfl, rfl, rfl, Or.inr ⟨by assumption, rfl⟩⟩

/-- Every other choice of the parent leaves the channel of its stop request
closed. -/
theorem parent_other {choice : Choice Ev} (hw : s.Wired)
    (h : step cfg s (.parent choice) = some (t, os)) (hsent : choice ≠ .childSent) :
    t.Wired ∧ t.stop = .closed := by
  obtain ⟨parent, o, hadvance, -, rfl⟩ := step_parent h
  obtain ⟨-, hchild, hfault, hstop⟩ :=
    parentChose_frame cfg { s with parent := parent } choice
  have hclosed : (parentChose cfg { s with parent := parent } choice).stop = .closed := by
    refine hstop.elim id fun hstop => hstop.2.trans ?_
    by_contra hopen
    obtain ⟨request, hphase⟩ := hw.stop hopen
    exact hstop.1 (Runner.advance_awaitingChild hphase hadvance)
  -- none of what it does is a stop request
  have hno : ∀ child, .stopChild child ∉ o :=
    fun child hmem => hsent (Runner.choice_of_stopChild hadvance hmem)
  have hclosed' := (foldl_parentDid_stop cfg hno _).trans hclosed
  have hframe := foldl_parentDid_frame cfg o
    (parentChose cfg { s with parent := parent } choice)
  refine ⟨⟨fun hopen => ?_, fun hopen => absurd hclosed' hopen⟩, hclosed'⟩
  rw [hframe.child, hchild]
  apply hw.fault
  intro hf
  exact hopen (hframe.fault.mpr (hfault.trans hf))

/-- With no request unanswered, the parent waits after a choice that leads it to
the child or into `ctx.stop(None)`, if the channel there is full. -/
theorem parentWaits_iff {parent : Runner M Ev} {o : List (Obs M Ev)}
    {choice : Choice Ev} (hadvance : s.parent.advance cfg.parent choice = some (parent, o))
    (hparent : t.parent = parent) (hclosed : t.stop = .closed) :
    t.ParentWaits cfg n ↔
      (s.parent.turnsTo choice = some cfg.child ∧ stopCapacity ≤ n) ∨
        (s.parent.StopsItself cfg.parent choice ∧
          stopCapacity ≤ s.parent.stopQueue.length) := by
  subst hparent
  have henters := Runner.enters_of_advance hadvance
  constructor
  · rintro (⟨_, _, hstop⟩ | ⟨request, hphase, hnext, hfull⟩ | ⟨hphase, hfull⟩)
    · exact absurd (hclosed.symm.trans hstop) (by simp)
    · exact Or.inl ⟨(henters.stoppingChilds request hphase).trans hnext, hfull⟩
    · have hstops := henters.stoppingItself hphase
      obtain ⟨-, hqueue, -⟩ := Runner.advance_stopsItself hstops hadvance
      exact Or.inr ⟨hstops, hqueue ▸ hfull⟩
  · rintro (⟨hturns, hfull⟩ | ⟨hstops, hfull⟩)
    · obtain ⟨⟨request, hphase⟩, hnext, -⟩ := Runner.advance_turnsTo hturns hadvance
      exact .room request hphase hnext hfull
    · obtain ⟨hphase, hqueue, -⟩ := Runner.advance_stopsItself hstops hadvance
      exact .itself hphase (hqueue.symm ▸ hfull)

/-- Every other choice of the parent leads into the deadlock if the parent comes to
wait and the child waits. -/
theorem parent_deadlocked_iff {choice : Choice Ev} (hw : s.Wired)
    (h : step cfg s (.parent choice) = some (t, os)) (hsent : choice ≠ .childSent) :
    t.Deadlocked cfg ↔ s.ParentComesToWait cfg choice ∧ s.ChildWaits s.requests := by
  have hclosed := (parent_other hw h hsent).2
  obtain ⟨parent, o, hadvance, -, rfl⟩ := step_parent h
  obtain ⟨hparent, hchild, hfault, -⟩ :=
    parentChose_frame cfg { s with parent := parent } choice
  have hframe := foldl_parentDid_frame cfg o
    (parentChose cfg { s with parent := parent } choice)
  have hwaits := fun n => parentWaits_iff (n := n) hadvance
    (hframe.parent.trans hparent) hclosed
  by_cases hcomes : s.parent.turnsTo choice = some cfg.child ∨
      s.parent.StopsItself cfg.parent choice
  · -- it does nothing to the child then
    have hquiet : o.foldl (parentDid cfg)
        (parentChose cfg { s with parent := parent } choice) =
          parentChose cfg { s with parent := parent } choice := by
      rcases hcomes with hturns | hstops
      · obtain ⟨-, -, rfl⟩ := Runner.advance_turnsTo hturns hadvance
        rfl
      · obtain ⟨-, -, rfl | rfl⟩ := Runner.advance_stopsItself hstops hadvance <;> rfl
    rw [hquiet] at hwaits ⊢
    have hrequests : requests (parentChose cfg { s with parent := parent } choice) =
        s.requests := by rw [requests, hchild]; rfl
    constructor
    · rintro ⟨hp, hc⟩
      rw [hrequests] at hp hc
      exact ⟨(hwaits _).mp hp, hc.congr (by rw [hchild]) hfault.symm⟩
    · rintro ⟨hp, hc⟩
      refine ⟨(hwaits _).mpr ?_, ?_⟩
      · rwa [hrequests]
      · rw [hrequests]
        exact hc.congr (by rw [hchild]) hfault
  · constructor
    · rintro ⟨hp, -⟩
      exact absurd (((hwaits _).mp hp).imp And.left And.left) hcomes
    · rintro ⟨hp, -⟩
      exact absurd (Or.imp And.left And.left hp) hcomes

theorem childChose_frame (u : Pair M Ev N Ew) (choice : Choice Ew) :
    (childChose u choice).child = u.child ∧ (childChose u choice).parent = u.parent ∧
      (childChose u choice).stop = u.stop ∧
      ((childChose u choice).fault = .closed ∨
        (∀ action, choice ≠ .parentAction action) ∧
          (childChose u choice).fault = u.fault) := by
  cases choice with
  | parentAction action => exact ⟨rfl, rfl, rfl, Or.inl rfl⟩
  | _ => exact ⟨rfl, rfl, rfl, Or.inr ⟨by simp, rfl⟩⟩

/-- A choice of the child opens the channel of its action when it takes a fail, and
closes it otherwise. -/
theorem child_wired {choice : Choice Ew} (hw : s.Wired)
    (h : step cfg s (.child choice) = some (t, os)) : t.Wired := by
  obtain ⟨child, o, hadvance, -, rfl⟩ := step_child h
  obtain ⟨hchild, hparent, hstop, hfault⟩ :=
    childChose_frame { s with child := child } choice
  have hframe := foldl_childDid_frame cfg o (childChose { s with child := child } choice)
  constructor
  · intro hopen
    rw [hframe.child, hchild]
    by_cases hfail : s.child.TakesFail choice
    · exact (Runner.advance_takesFail rfl hfail hadvance).1
    · -- none of what it does is a fault, so the channel stays closed
      have hno : ∀ e, .sentFault e ∉ o := fun e hmem => by
        obtain ⟨rfl, -, -, hqueue⟩ := Runner.choice_of_sentFault hadvance hmem
        exact hfail ⟨e, hqueue⟩
      refine absurd ((foldl_childDid_fault cfg hno _).trans ?_) hopen
      refine hfault.elim id fun hfault => hfault.2.trans ?_
      by_contra hwaiting
      obtain ⟨action, rfl⟩ :=
        Runner.advance_awaitingAction (hw.fault hwaiting) hadvance
      exact hfault.1 action rfl
  · intro hopen
    rw [hframe.parent, hparent]
    apply hw.stop
    intro hs
    exact hopen (hframe.stop.mpr (hstop.trans hs))

/-- A child that takes a fail waits, and the waits of the parent stay as they are. -/
theorem child_takesFail {choice : Choice Ew} (hfail : s.child.TakesFail choice)
    (h : step cfg s (.child choice) = some (t, os)) :
    t.ChildWaits t.requests ∧
      (t.ParentWaits cfg t.requests ↔ s.ParentWaits cfg s.requests) := by
  obtain ⟨child, o, hadvance, -, rfl⟩ := step_child h
  cases choice with
  | takeInner =>
      obtain ⟨hphase, hqueue, e, rfl⟩ := Runner.advance_takesFail rfl hfail hadvance
      obtain ⟨hsenders, hstops⟩ := Runner.arrive_childError s.parent (.fault e cfg.child)
      have hparent := Runner.phase_getD_arrive s.parent
        (.childError (.fault e cfg.child))
      refine ⟨.action hphase rfl, ?_⟩
      show ParentWaits cfg _ child.stopQueue.length ↔ _
      rw [hqueue]
      exact ⟨fun hp => hp.congr hparent.symm hsenders.symm hstops.symm rfl,
        fun hp => hp.congr hparent hsenders hstops rfl⟩
  | _ => contradiction

/-- A child comes into `ctx.stop(None)`, and the waits of the parent stay as they
are. -/
theorem child_stopsItself {choice : Choice Ew}
    (hstops : s.child.StopsItself cfg.childConfig choice)
    (h : step cfg s (.child choice) = some (t, os)) :
    (t.ChildWaits t.requests ↔ stopCapacity ≤ s.requests) ∧
      (t.ParentWaits cfg t.requests ↔ s.ParentWaits cfg s.requests) := by
  obtain ⟨child, o, hadvance, -, rfl⟩ := step_child h
  obtain ⟨hchild, hparent, hstop, -⟩ := childChose_frame { s with child := child } choice
  obtain ⟨hphase, hqueue, ho⟩ := Runner.advance_stopsItself hstops hadvance
  have hquiet : o.foldl (childDid cfg) (childChose { s with child := child } choice) =
      childChose { s with child := child } choice := by
    rcases ho with rfl | rfl <;> rfl
  rw [hquiet, requests, hchild, hqueue]
  constructor
  · constructor
    · rintro (⟨hawaiting, -⟩ | ⟨-, hfull⟩)
      · rw [hchild, hphase] at hawaiting
        contradiction
      · exact hfull
    · exact fun hfull => .itself (hchild ▸ hphase) hfull
  · exact ⟨fun hp => hp.congr (by rw [hparent]) (by rw [hparent]) (by rw [hparent]) hstop.symm,
      fun hp => hp.congr (by rw [hparent]) (by rw [hparent]) (by rw [hparent]) hstop⟩

/-- A choice of the child leads into the deadlock if the child comes to wait and the
parent waits. -/
theorem child_deadlocked_iff {choice : Choice Ew}
    (h : step cfg s (.child choice) = some (t, os)) :
    t.Deadlocked cfg ↔
      s.ChildComesToWait cfg choice ∧ s.ParentWaits cfg s.requests := by
  by_cases hfail : s.child.TakesFail choice
  · obtain ⟨hchild, hparent⟩ := child_takesFail hfail h
    exact ⟨fun hd => ⟨Or.inl hfail, hparent.mp hd.parent⟩,
      fun hp => ⟨hparent.mpr hp.2, hchild⟩⟩
  · by_cases hstops : s.child.StopsItself cfg.childConfig choice
    · obtain ⟨hchild, hparent⟩ := child_stopsItself hstops h
      constructor
      · exact fun hd => ⟨Or.inr ⟨hstops, hchild.mp hd.child⟩, hparent.mp hd.parent⟩
      · rintro ⟨hfail' | ⟨-, hfull⟩, hp⟩
        · exact absurd hfail' hfail
        · exact ⟨hparent.mpr hp, hchild.mpr hfull⟩
    · -- the child does not come to wait
      constructor
      · intro hd
        obtain ⟨child, o, hadvance, -, rfl⟩ := step_child h
        have hframe := foldl_childDid_frame cfg o
          (childChose { s with child := child } choice)
        have hsame := hframe.child.trans (childChose_frame _ choice).1
        have henters := Runner.enters_of_advance hadvance
        cases hd.child with
        | action hphase =>
            rw [hsame] at hphase
            exact absurd (henters.awaitingAction hphase).2 hfail
        | itself hphase =>
            rw [hsame] at hphase
            exact absurd (henters.stoppingItself hphase) hstops
      · rintro ⟨hfail' | ⟨hstops', -⟩, -⟩
        · exact absurd hfail' hfail
        · exact absurd hstops' hstops

theorem Wired.of_frame (hw : s.Wired)
    (h : t.parent.phase = s.parent.phase ∧ t.child.phase = s.child.phase ∧
      t.fault = s.fault ∧ t.stop = s.stop) : t.Wired := by
  obtain ⟨hparent, hchild, hfault, hstop⟩ := h
  constructor
  · rw [hfault, hchild]
    exact hw.fault
  · rw [hstop, hparent]
    exact hw.stop

theorem Deadlocked.congr (hd : s.Deadlocked cfg)
    (hparent : ∀ n, s.ParentWaits cfg n → t.ParentWaits cfg n)
    (hchild : ∀ n, s.ChildWaits n → t.ChildWaits n) (hrequests : t.requests = s.requests) :
    t.Deadlocked cfg :=
  ⟨hrequests ▸ hparent _ hd.parent, hrequests ▸ hchild _ hd.child⟩

/-- A stop request for the parent leads into the deadlock if it takes the last place
for which the parent waits. -/
theorem toParent_step {arrival : Arrival M} (hw : s.Wired)
    (h : step cfg s (.toParent arrival) = some (t, os)) :
    t.Wired ∧ (t.Deadlocked cfg ↔
      s.Deadlocked cfg ∨ ¬ Avoids cfg s (.toParent arrival)) := by
  simp only [step] at h
  split at h
  case isFalse => contradiction
  case isTrue =>
    obtain ⟨parent, harrive, heq⟩ := Option.map_eq_some_iff.mp h
    cases heq
    have hphase := (Runner.arrive_frame harrive).1
    obtain ⟨hsenders, hqueue⟩ := Runner.arrive_queues harrive
    refine ⟨hw.of_frame ⟨hphase, rfl, rfl, rfl⟩, ?_⟩
    rcases hqueue with ⟨hother, hqueue⟩ | ⟨request, rfl, hqueue⟩
    · have hmet : Avoids cfg s (.toParent arrival) := by
        cases arrival with
        | stop request => exact absurd rfl (hother request)
        | _ => trivial
      simp only [hmet, not_true_eq_false, or_false]
      exact ⟨fun hd => hd.congr (fun n hp => hp.congr hphase.symm hsenders.symm hqueue.symm rfl)
          (fun n hc => hc.congr rfl rfl) rfl,
        fun hd => hd.congr (fun n hp => hp.congr hphase hsenders hqueue rfl)
          (fun n hc => hc.congr rfl rfl) rfl⟩
    · have hlength : parent.stopQueue.length = s.parent.stopQueue.length + 1 := by
        simp [hqueue]
      constructor
      · rintro ⟨hp, hc⟩
        have hc' : s.ChildWaits s.requests := hc.congr rfl rfl
        cases hp with
        | acknowledgement request hawaiting hstop =>
            exact Or.inl ⟨.acknowledgement request (hphase ▸ hawaiting) hstop, hc'⟩
        | room request hstopping hnext hfull =>
            exact Or.inl ⟨.room request (hphase ▸ hstopping) (hsenders ▸ hnext) hfull, hc'⟩
        | itself hstopping hfull =>
            exact Or.inr fun havoids => havoids (hphase ▸ hstopping) (hlength ▸ hfull) hc'
      · rintro (hd | hmiss)
        · refine ⟨?_, hd.child.congr rfl rfl⟩
          cases hd.parent with
          | acknowledgement request hawaiting hstop =>
              exact .acknowledgement request (hphase.trans hawaiting) hstop
          | room request hstopping hnext hfull =>
              exact .room request (hphase.trans hstopping) (hsenders ▸ hnext) hfull
          | itself hstopping hfull =>
              exact .itself (hphase.trans hstopping) (by rw [hlength]; omega)
        · simp only [Avoids, not_forall, not_not] at hmiss
          obtain ⟨hstopping, hfull, hc⟩ := hmiss
          exact ⟨.itself (hphase.trans hstopping) (hlength ▸ hfull), hc.congr rfl rfl⟩

/-- A stop request for the child leads into the deadlock if both wait once it has
taken its place. -/
theorem toChild_step {arrival : Arrival N} (hw : s.Wired)
    (h : step cfg s (.toChild arrival) = some (t, os)) :
    t.Wired ∧ (t.Deadlocked cfg ↔
      s.Deadlocked cfg ∨ ¬ Avoids cfg s (.toChild arrival)) := by
  simp only [step] at h
  split at h
  case isFalse => contradiction
  case isTrue =>
    obtain ⟨child, harrive, heq⟩ := Option.map_eq_some_iff.mp h
    cases heq
    have hphase := (Runner.arrive_frame harrive).1
    obtain ⟨-, hqueue⟩ := Runner.arrive_queues harrive
    refine ⟨hw.of_frame ⟨rfl, hphase, rfl, rfl⟩, ?_⟩
    have hparent : ∀ n, ParentWaits cfg { s with child := child } n ↔ s.ParentWaits cfg n :=
      fun n => ⟨fun hp => hp.congr rfl rfl rfl rfl, fun hp => hp.congr rfl rfl rfl rfl⟩
    have hchild : ∀ n, ChildWaits { s with child := child } n ↔ s.ChildWaits n :=
      fun n => ⟨fun hc => hc.congr hphase.symm rfl, fun hc => hc.congr hphase rfl⟩
    rcases hqueue with ⟨hother, hqueue⟩ | ⟨request, rfl, hqueue⟩
    · have hmet : Avoids cfg s (.toChild arrival) := by
        cases arrival with
        | stop request => exact absurd rfl (hother request)
        | _ => trivial
      have hrequests : requests { s with child := child } = s.requests :=
        congrArg List.length hqueue
      simp only [hmet, not_true_eq_false, or_false]
      exact ⟨fun hd => hd.congr (fun n => (hparent n).mp) (fun n => (hchild n).mp)
          hrequests.symm,
        fun hd => hd.congr (fun n => (hparent n).mpr) (fun n => (hchild n).mpr) hrequests⟩
    · have hrequests : requests { s with child := child } = s.requests + 1 := by
        simp [requests, hqueue]
      have hiff : Deadlocked cfg { s with child := child } ↔
          s.ParentWaits cfg (s.requests + 1) ∧ s.ChildWaits (s.requests + 1) := by
        rw [← hparent, ← hchild, ← hrequests]
        exact ⟨fun hd => ⟨hd.parent, hd.child⟩, fun hd => ⟨hd.1, hd.2⟩⟩
      rw [hiff]
      constructor
      · rintro ⟨hp, hc⟩
        exact Or.inr fun havoids => havoids hp hc
      · rintro (hd | hmiss)
        · exact ⟨hd.parent.mono (Nat.le_succ _), hd.child.mono (Nat.le_succ _)⟩
        · simpa only [Avoids, Classical.not_imp, not_not] using hmiss

/-- One step: the channels stay in use by their readers only, and the deadlock is
entered by the steps that `Avoids` excludes and never left. -/
theorem Wired.step {input : PairInput M Ev N Ew} (hw : s.Wired)
    (h : step cfg s input = some (t, os)) :
    t.Wired ∧ (t.Deadlocked cfg ↔ s.Deadlocked cfg ∨ ¬ Avoids cfg s input) := by
  cases input with
  | toParent arrival => exact toParent_step hw h
  | toChild arrival => exact toChild_step hw h
  | parent choice =>
      have hout : ¬ s.Deadlocked cfg := fun hd => by
        rw [hd.stuck.1 choice] at h
        contradiction
      by_cases hsent : choice = .childSent
      · subst hsent
        obtain ⟨hwired, hiff⟩ := parent_childSent hw h
        refine ⟨hwired, hiff.trans ?_⟩
        simp [Avoids, hout]
      · refine ⟨(parent_other hw h hsent).1, (parent_deadlocked_iff hw h hsent).trans ?_⟩
        have havoids : Avoids cfg s (.parent choice) ↔
            (s.ParentComesToWait cfg choice → ¬ s.ChildWaits s.requests) := by
          cases choice with
          | childSent => exact absurd rfl hsent
          | _ => rfl
        simp [havoids, hout]
  | child choice =>
      have hout : ¬ s.Deadlocked cfg := fun hd => by
        rw [hd.stuck.2 choice] at h
        contradiction
      refine ⟨child_wired hw h, (child_deadlocked_iff h).trans ?_⟩
      simp [Avoids, hout]


end Steps

section Runs

variable {inputs : List (PairInput M Ev N Ew)} {os : List (Obs M Ev ⊕ Obs N Ew)}

theorem wired_start : (start : Pair M Ev N Ew).Wired :=
  ⟨fun hopen => absurd rfl hopen, fun hopen => absurd rfl hopen⟩

/-- Once deadlocked, the pair stays so whatever arrives. -/
theorem Deadlocked.forever (hw : s.Wired) (hd : s.Deadlocked cfg)
    (hrun : execute (step cfg) s inputs = some (t, os)) : t.Deadlocked cfg :=
  (execute_invariant (I := fun u : Pair M Ev N Ew => u.Wired ∧ u.Deadlocked cfg)
    (fun _ _ _ _ hu h =>
      ⟨(hu.1.step h).1, (hu.1.step h).2.mpr (Or.inl hu.2)⟩)
    ⟨hw, hd⟩ hrun).2

/-- **No state that a run reaches is deadlocked**, in any interleaving of the two
runners and of whatever else arrives, if and only if no step of the run makes one
of the two wait while the other one waits. -/
theorem deadlock_free_iff (cfg : PairConfig) (inputs : List (PairInput M Ev N Ew))
    (t : Pair M Ev N Ew) (os : List (Obs M Ev ⊕ Obs N Ew))
    (hrun : execute (step cfg) start inputs = some (t, os)) :
    (∀ before after u seen, inputs = before ++ after →
        execute (step cfg) start before = some (u, seen) → ¬ u.Deadlocked cfg) ↔
      StepsMeet (step cfg) (Avoids cfg) start inputs := by
  have houtside : ¬ (start : Pair M Ev N Ew).Deadlocked cfg := fun hd => nomatch hd.child
  have hiff : ∀ {is : List (PairInput M Ev N Ew)} {u seen},
      execute (step cfg) start is = some (u, seen) →
        (¬ u.Deadlocked cfg ↔ StepsMeet (step cfg) (Avoids cfg) start is) :=
    fun h => execute_avoids_iff (I := Wired) (fun _ _ _ _ hw h => hw.step h)
      wired_start houtside h
  constructor
  · intro hfree
    exact (hiff hrun).mp (hfree inputs [] t os (List.append_nil inputs).symm hrun)
  · intro hmeet before after u seen happend hbefore
    rw [happend] at hmeet
    exact (hiff hbefore).mpr (stepsMeet_append.mp hmeet).1

/-- A parent that stops its only child. -/
def stoppingParent : PairConfig where
  parent := ⟨false, .stop⟩
  strategy := .stop
  child := 0

/-- The parent creates the child in its first hook, and both start. -/
def linking : List (PairInput Unit Unit Unit Unit) :=
  [.parent .proceed, .child .proceed, .child (.returns (.ok ())),
    .child .proceed, .parent (.operation (.createChild 0)),
    .parent (.returns (.ok ())), .parent .proceed]

/-- The handler of the child fails, and its runner takes the fail. -/
def faulting : List (PairInput Unit Unit Unit Unit) :=
  [.toChild (.message ()), .child .takeMessage,
    .child (.operation (.emitFail (.functional "fault"))),
    .child (.returns (.ok ())), .child .takeInner]

/-- The parent tells the child to stop. -/
def answering : List (PairInput Unit Unit Unit Unit) :=
  [.parent .takeChildError, .parent (.answers .stop),
    .child (.parentAction (some .stop))]

/-- The parent takes a stop request and passes it on to the child. -/
def passingStop : List (PairInput Unit Unit Unit Unit) :=
  [.toParent (.stop ⟨.outside, none⟩), .parent .takeStop,
    .parent (.returns (.ok ())), .parent .childSent]

/-- The fault is answered before the stop request is passed on: the parent waits
for the acknowledgement, and the child can go on. -/
theorem deadlock_free_answered :
    ∃ t os, execute (step stoppingParent) start
        (linking ++ faulting ++ answering ++ passingStop) = some (t, os) ∧
      t.ParentWaits stoppingParent t.requests ∧ ¬ t.Deadlocked stoppingParent := by
  have hmeet : StepsMeet (step stoppingParent) (Avoids stoppingParent) start
      (linking ++ faulting ++ answering ++ passingStop) := by
    iterate 7 refine (stepsMeet_cons rfl).mpr ⟨nofun, ?_⟩
    refine (stepsMeet_cons rfl).mpr ⟨trivial, ?_⟩
    iterate 3 refine (stepsMeet_cons rfl).mpr ⟨nofun, ?_⟩
    refine (stepsMeet_cons rfl).mpr ⟨fun _ => nofun, ?_⟩
    iterate 2 refine (stepsMeet_cons rfl).mpr ⟨nofun, ?_⟩
    refine (stepsMeet_cons rfl).mpr ⟨fun _ => nofun, ?_⟩
    iterate 2 refine (stepsMeet_cons rfl).mpr ⟨nofun, ?_⟩
    -- from here on the child is in `ctx.stop(None)`, with room in its channel
    have hroom : ∀ (s : Pair Unit Unit Unit Unit) n, s.child.phase = .stoppingItself →
        n < stopCapacity → ¬ s.ChildWaits n := fun s n hphase hlt hc => by
      cases hc with
      | action hawaiting => exact absurd (hphase.symm.trans hawaiting) (by simp)
      | itself _ hfull => omega
    refine (stepsMeet_cons rfl).mpr ⟨fun _ => hroom _ _ rfl (by decide), ?_⟩
    exact (stepsMeet_cons rfl).mpr ⟨fun _ => hroom _ _ rfl (by decide), trivial⟩
  have hfree := (deadlock_free_iff stoppingParent _ _ _ rfl).mpr hmeet
  exact ⟨_, _, rfl, .acknowledgement _ rfl rfl,
    hfree _ [] _ _ (List.append_nil _).symm rfl⟩

/-- Stop requests fill the stop channel of the child. -/
def fillingChannel : List (PairInput Unit Unit Unit Unit) :=
  List.replicate stopCapacity (.toChild (.stop ⟨.outside, none⟩))

/-- The fault of the child lies in the error queue of the parent when the parent
passes the stop request on: neither of them ever answers.  With the stop channel of
the child full, the parent does not even get that far. -/
theorem stop_meets_fault :
    (∃ t os, execute (step stoppingParent) start
        (linking ++ faulting ++ passingStop) = some (t, os) ∧
      t.Deadlocked stoppingParent) ∧
    ∃ t os, execute (step stoppingParent) start
        (linking ++ faulting ++ fillingChannel ++ passingStop.dropLast) = some (t, os) ∧
      t.Deadlocked stoppingParent :=
  ⟨⟨_, _, rfl, .acknowledgement _ rfl rfl, .action rfl rfl⟩,
    ⟨_, _, rfl, .room _ rfl rfl (by decide), .action rfl rfl⟩⟩

end Runs

end Pair

end Actor
end Rush
