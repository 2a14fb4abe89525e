import Rush.Actor.StopRequests
import Mathlib.Data.List.Count
import Mathlib.Logic.Function.Basic

/-!
# Concurrent callers of `ask_stop`

`ActorRef::ask_stop` sends a request with a oneshot channel and waits for its
answer; a closed stop channel counts as success.  The machine below is a runner
with any number of callers.  A request that is served is answered with `Ok`, and
a request that is still queued when the runner ends is dropped with its channel,
which the caller reports as an error.
-/

namespace Rush
namespace Actor

open Foundation

variable {M Ev : Type}

/-- Where a call of `ask_stop` is. -/
inductive AskStop
  /-- In `stop_sender.send`, which waits while the channel is full. -/
  | sending
  /-- In `response_receiver`, with the channel open, answered or dropped. -/
  | waiting
  | answered
  | dropped
  | returned (result : Except ActorError Unit)

/-- The call returns an error, now or with its next step. -/
def AskStop.failed : AskStop → Bool
  | .dropped => true
  | .returned (.error _) => true
  | _ => false

/-- A runner, and the calls of `ask_stop` by their numbers. -/
structure StopCalls (M Ev : Type) where
  runner : Runner M Ev
  calls : Nat → Option AskStop

inductive StopCallsInput (M Ev : Type)
  | asks (call : Nat)
  | sends (call : Nat)
  | refused (call : Nat)
  | resumes (call : Nat)
  | tells
  | runs (input : Input M Ev)

/-- The request of a call. -/
def askRequest (call : Nat) : StopRequest := ⟨.outside, some call⟩

def Obs.acknowledges (request : StopRequest) : Obs M Ev → Bool
  | .acknowledged q => q = request
  | _ => false

/-- The other requests come from `tells`, the system and the actor itself. -/
def Input.fromCaller : Input M Ev → Bool
  | .arrival (.stop request) => request.origin = .outside
  | _ => false

namespace StopCalls

/-- What a call that waits finds after a step of the runner: its channel is
answered in the stop branch, and dropped with the receiver of the requests. -/
def heard (r : Runner M Ev) (o : List (Obs M Ev)) (call : Nat) :
    AskStop → AskStop
  | .waiting =>
      if o.any (Obs.acknowledges (askRequest call)) then .answered
      else if r.phase.isEnded ∧ askRequest call ∈ r.stopQueue then .dropped
      else .waiting
  | c => c

def set (s : StopCalls M Ev) (call : Nat) (c : AskStop) : StopCalls M Ev :=
  { s with calls := Function.update s.calls call (some c) }

/-- A step of a caller or of the runner. -/
def step (cfg : RunnerConfig) (s : StopCalls M Ev) :
    StopCallsInput M Ev → Option (StopCalls M Ev × List (Obs M Ev))
  | .asks call =>
      match s.calls call with
      | none => some (s.set call .sending, [])
      | some _ => none
  | .sends call =>
      match s.calls call with
      | some .sending =>
          (s.runner.arrive (.stop (askRequest call))).map fun r =>
            ({ s.set call .waiting with runner := r }, [])
      | _ => none
  | .refused call =>
      match s.calls call with
      | some .sending =>
          if s.runner.phase.isEnded then some (s.set call (.returned (.ok ())), [])
          else none
      | _ => none
  | .resumes call =>
      match s.calls call with
      | some .answered => some (s.set call (.returned (.ok ())), [])
      | some .dropped =>
          some (s.set call (.returned (.error (.send "channel closed"))), [])
      | _ => none
  | .tells =>
      (s.runner.arrive (.stop ⟨.outside, none⟩)).map fun r =>
        ({ s with runner := r }, [])
  | .runs input =>
      if input.fromCaller then none
      else
        (s.runner.step cfg input).map fun p =>
          (⟨p.1, fun call => (s.calls call).map (heard p.1 p.2 call)⟩, p.2)

def start : StopCalls M Ev := ⟨Runner.create, fun _ => none⟩

/-- The call has returned `Ok`, or its next step returns it. -/
def ReturnsOk (cfg : RunnerConfig) (s : StopCalls M Ev) (call : Nat) : Prop :=
  s.calls call = some (.returned (.ok ())) ∨
    ∃ i t, (i = .refused call ∨ i = .resumes call) ∧ step cfg s i = some (t, []) ∧
      t.calls call = some (.returned (.ok ()))

/-- The request is sent into an empty queue before the stop branch is taken, and
`pre_start` does not fail while a request of a caller is queued. -/
def Served (s : StopCalls M Ev) : StopCallsInput M Ev → Prop
  | .sends _ => s.runner.stopQueue = [] ∧ s.runner.BeforeStop
  | .runs input =>
      s.runner.FailsToStart input →
        ∀ call, askRequest call ∉ s.runner.stopQueue
  | _ => True

/-- The call has failed, or it will when the runner ends. -/
def Doomed (s : StopCalls M Ev) (call : Nat) : Prop :=
  (s.calls call).any AskStop.failed = true ∨ s.runner.Loses (askRequest call)

/-- A call waits exactly while the runner owns its channel. -/
structure Tracked (s : StopCalls M Ev) : Prop where
  inPlace : s.runner.InPlace
  notRestarting : ∀ e, s.runner.phase ≠ .inHook (.preRestart e)
  owned : s.runner.phase ≠ .ended → ∀ call,
    (s.calls call = some .waiting →
      s.runner.openRequests.count (askRequest call) = 1) ∧
    (s.calls call ≠ some .waiting →
      s.runner.openRequests.count (askRequest call) = 0)
  ended : s.runner.phase = .ended → ∀ call, s.calls call ≠ some .waiting

variable {cfg : RunnerConfig} {s t : StopCalls M Ev} {i : StopCallsInput M Ev}
  {o : List (Obs M Ev)} {call : Nat}

theorem askRequest_inj {call call' : Nat} :
    askRequest call = askRequest call' ↔ call = call' := by
  simp [askRequest]

@[simp] theorem set_runner (s : StopCalls M Ev) (call : Nat) (c : AskStop) :
    (s.set call c).runner = s.runner := rfl

theorem set_calls (s : StopCalls M Ev) (call call' : Nat) (c : AskStop) :
    (s.set call c).calls call' =
      if call' = call then some c else s.calls call' :=
  Function.update_apply _ _ _ _

section Callers

variable {c : AskStop}

/-- A caller goes on, and its channel is not concerned. -/
theorem Tracked.set (h : s.Tracked) (hold : s.calls call ≠ some .waiting)
    (hnew : c ≠ .waiting) : (s.set call c).Tracked where
  inPlace := h.inPlace
  notRestarting := h.notRestarting
  owned hended call' := by
    rw [set_runner, set_calls]
    split
    case isTrue heq =>
      subst heq
      exact ⟨fun hwaits => absurd (Option.some.inj hwaits) hnew,
        fun _ => (h.owned hended call').2 hold⟩
    case isFalse => exact h.owned hended call'
  ended hended call' := by
    rw [set_calls]
    split
    case isTrue => exact fun hwaits => hnew (Option.some.inj hwaits)
    case isFalse => exact h.ended hended call'

theorem doomed_set {call' : Nat}
    (hfailed : (s.calls call).any AskStop.failed = c.failed) :
    (s.set call c).Doomed call' ↔ s.Doomed call' := by
  unfold Doomed
  rw [set_runner, set_calls]
  split
  case isTrue heq =>
    subst heq
    rw [hfailed]
    rfl
  case isFalse => rfl

/-- The step of a caller that knows the result of its call, or does not ask for
it yet. -/
theorem Tracked.moves {before : Option AskStop} {i : StopCallsInput M Ev}
    (h : s.Tracked) (hcall : s.calls call = before) (hold : before ≠ some .waiting)
    (hnew : c ≠ .waiting) (hfailed : before.any AskStop.failed = c.failed)
    (hserved : s.Served i) :
    (s.set call c).Tracked ∧
      ((∃ call', (s.set call c).Doomed call') ↔
        (∃ call', s.Doomed call') ∨ ¬ s.Served i) := by
  subst hcall
  refine ⟨h.set hold hnew, ?_⟩
  rw [or_iff_left (not_not_intro hserved)]
  exact exists_congr fun call' => doomed_set hfailed

/-- A request is queued by its caller. -/
theorem Tracked.sends {r : Runner M Ev} (h : s.Tracked)
    (hcall : s.calls call = some .sending)
    (harrive : s.runner.arrive (.stop (askRequest call)) = some r) :
    Tracked { s.set call .waiting with runner := r } := by
  obtain ⟨rfl, hopen⟩ := Runner.arrive_stop harrive
  constructor
  · exact h.inPlace
  · exact h.notRestarting
  · intro _ call'
    have hcount : ∀ n, (s.runner.openRequests ++ [askRequest call]).count
        (askRequest call') = n ↔
        s.runner.openRequests.count (askRequest call') +
          (if call = call' then 1 else 0) = n := by
      intro n
      rw [List.count_append, List.count_singleton]
      simp [askRequest_inj]
    have hqueue : Runner.openRequests
        { s.runner with stopQueue := s.runner.stopQueue ++ [askRequest call] } =
        s.runner.openRequests ++ [askRequest call] :=
      (List.append_assoc _ _ _).symm
    simp only [hqueue, hcount, set_calls]
    by_cases heq : call' = call
    · subst heq
      have hzero := (h.owned hopen call').2 (by simp [hcall])
      simp [hzero]
    · simpa [heq, Ne.symm heq] using h.owned hopen call'
  · exact fun hended => absurd hended hopen

/-- A request is doomed when it is queued behind another one or too late. -/
theorem doomed_sends {r : Runner M Ev} {call' : Nat}
    (hcall : s.calls call = some .sending)
    (harrive : s.runner.arrive (.stop (askRequest call)) = some r) :
    Doomed { s.set call .waiting with runner := r } call' ↔
      s.Doomed call' ∨ call' = call ∧
        ¬ (s.runner.stopQueue = [] ∧ s.runner.BeforeStop) := by
  obtain ⟨rfl, hopen⟩ := Runner.arrive_stop harrive
  unfold Doomed
  rw [Runner.loses_snoc _ _ hopen, askRequest_inj, set_calls, or_assoc]
  split
  case isTrue heq => simp [heq, hcall, AskStop.failed]
  case isFalse => rfl

/-- The request of `tell_stop` has no channel. -/
theorem Tracked.tells {r : Runner M Ev} (h : s.Tracked)
    (harrive : s.runner.arrive (.stop ⟨.outside, none⟩) = some r) :
    Tracked { s with runner := r } ∧
      ∀ call, Doomed { s with runner := r } call ↔ s.Doomed call := by
  obtain ⟨rfl, hopen⟩ := Runner.arrive_stop harrive
  refine ⟨⟨h.inPlace, h.notRestarting, fun _ call => ?_,
    fun hended => absurd hended hopen⟩, fun call => ?_⟩
  · have hqueue : Runner.openRequests { s.runner with
        stopQueue := s.runner.stopQueue ++ [⟨.outside, none⟩] } =
        s.runner.openRequests ++ [⟨.outside, none⟩] :=
      (List.append_assoc _ _ _).symm
    simpa [hqueue, List.count_append, List.count_singleton, askRequest]
      using h.owned hopen call
  · unfold Doomed
    rw [Runner.loses_snoc _ _ hopen]
    simp [askRequest]

end Callers

section Runs

variable {r : Runner M Ev} {input : Input M Ev}

theorem heard_of_ne {c : AskStop} (hc : c ≠ .waiting) :
    heard r o call c = c := by
  cases c with
  | waiting => contradiction
  | _ => rfl

/-- A channel is answered by the acknowledgement of its request. -/
theorem acknowledges_any {request : StopRequest} :
    o.any (Obs.acknowledges request) = true ↔ .acknowledged request ∈ o := by
  rw [List.any_eq_true]
  constructor
  · rintro ⟨x, hx, hacks⟩
    cases x <;> simp [Obs.acknowledges] at hacks
    exact hacks ▸ hx
  · exact fun hmem => ⟨_, hmem, by simp [Obs.acknowledges]⟩

/-- While the runner has not ended, a call goes on waiting until its request is
acknowledged. -/
theorem heard_waiting (hended : r.phase ≠ .ended) :
    (s.calls call).map (heard r o call) = some .waiting ↔
      s.calls call = some .waiting ∧ .acknowledged (askRequest call) ∉ o := by
  rw [← acknowledges_any]
  cases hcall : s.calls call with
  | none => simp
  | some c =>
      cases c with
      | waiting =>
          have hopen : r.phase.isEnded ≠ true := by rwa [Ne, Runner.isEnded_iff]
          simp only [Option.map_some, heard, hopen]
          split <;> simp_all
      | _ => simp [heard]

/-- While the runner has not ended, no channel is dropped. -/
theorem heard_failed (hended : r.phase ≠ .ended) :
    ((s.calls call).map (heard r o call)).any AskStop.failed =
      (s.calls call).any AskStop.failed := by
  cases hcall : s.calls call with
  | none => rfl
  | some c =>
      cases c with
      | waiting =>
          have hopen : r.phase.isEnded ≠ true := by rwa [Ne, Runner.isEnded_iff]
          simp only [Option.map_some, heard, hopen]
          split <;> rfl
      | _ => rfl

/-- A step of the runner that is not the request of a caller queues none. -/
theorem ne_askRequest (call : Nat) (hinput : input.fromCaller = false) {request : StopRequest}
    (horigin : input = .arrival (.stop request) ∨ request.origin = .own) :
    request ≠ askRequest call := by
  rintro rfl
  rcases horigin with rfl | hown
  · simp [Input.fromCaller, askRequest] at hinput
  · simp [askRequest] at hown

theorem Tracked.mem_openRequests_iff (h : s.Tracked) (call : Nat)
    (hopen : s.runner.phase ≠ .ended) :
    askRequest call ∈ s.runner.openRequests ↔ s.calls call = some .waiting := by
  constructor
  · intro hmem
    by_contra hnot
    exact List.count_eq_zero.mp ((h.owned hopen call).2 hnot) hmem
  · intro hwaits
    rw [← List.count_pos_iff, (h.owned hopen call).1 hwaits]
    exact Nat.one_pos

section Step

variable (h : s.Tracked) (hinput : input.fromCaller = false)
  (hstep : s.runner.step cfg input = some (r, o))
  (hrestart : ∀ e, .called (.preRestart e) ∉ o)

include h hstep hrestart

theorem Tracked.effect :
    s.runner.FailsToStart input ∨ s.runner.StopEffect input r o := by
  by_cases hfail : s.runner.FailsToStart input
  · exact Or.inl hfail
  · exact Or.inr
      (Runner.step_stopEffect h.inPlace h.notRestarting hfail hstep hrestart)

/-- What the runner does with the channels that it owns. -/
theorem Tracked.openRequests :
    r.openRequests = s.runner.openRequests ∧ (∀ q, .acknowledged q ∉ o) ∨
      (∃ request, (input = .arrival (.stop request) ∨ request.origin = .own) ∧
        r.openRequests = s.runner.openRequests ++ [request] ∧
        ∀ q, .acknowledged q ∉ o) ∨
      ∃ request, s.runner.openRequests = request :: r.openRequests ∧
        ∀ q, .acknowledged q ∈ o ↔ q = request := by
  rcases h.effect hstep hrestart with hfail | heffect
  · obtain ⟨hqueue, hserved, -, -, hnone⟩ := hfail.effect hstep
    refine Or.inl ⟨?_, hnone⟩
    unfold Runner.openRequests
    rw [hqueue, hserved.1, hserved.2]
  · exact heffect.openRequests

include hinput in
/-- A call waits as long as the runner owns its channel. -/
theorem Tracked.owned_step (hended : r.phase ≠ .ended) (call : Nat) :
    ((s.calls call).map (heard r o call) = some .waiting →
      r.openRequests.count (askRequest call) = 1) ∧
    ((s.calls call).map (heard r o call) ≠ some .waiting →
      r.openRequests.count (askRequest call) = 0) := by
  have hopen : s.runner.phase ≠ .ended := fun hold =>
    hended ((Runner.step_transition hstep).ended hold)
  have howned := h.owned hopen call
  rw [Ne, heard_waiting hended]
  rcases h.openRequests hstep hrestart with ⟨hsame, hnone⟩ |
    ⟨request, horigin, hqueued, hnone⟩ | ⟨request, hserved, honly⟩
  · rw [hsame]
    simpa [hnone] using howned
  · have hne := ne_askRequest call hinput horigin
    rw [hqueued, List.count_append, List.count_singleton]
    simpa [hnone, hne] using howned
  · rw [hserved, List.count_cons] at howned
    rw [honly]
    by_cases heq : askRequest call = request
    · subst heq
      by_cases hwaits : s.calls call = some .waiting
      · have hone := howned.1 hwaits
        simp at hone
        simp [hone]
      · have hzero := howned.2 hwaits
        simp at hzero
    · simpa [heq, Ne.symm heq] using howned

/-- When the runner ends, every call that still waits has its request in the
queue. -/
theorem Tracked.ended_step (hended : r.phase = .ended) (call : Nat) :
    ((s.calls call).map (heard r o call) ≠ some .waiting) ∧
      (((s.calls call).map (heard r o call)).any AskStop.failed = true ↔
        s.Doomed call) := by
  by_cases hopen : s.runner.phase = .ended
  · have hnot := h.ended hopen call
    have hsame : (s.calls call).map (heard r o call) = s.calls call := by
      cases hcall : s.calls call with
      | none => rfl
      | some c =>
          rw [Option.map_some, heard_of_ne fun hc => hnot (by rw [hcall, hc])]
    rw [hsame]
    exact ⟨hnot, by simp [Doomed, Runner.Loses, hopen]⟩
  · rcases h.effect hstep hrestart with hfail | heffect
    · exact absurd hended (hfail.effect hstep).2.2.2.1.2
    · obtain ⟨hqueue, hrequests, hloses, hnone⟩ := heffect.of_ended hended hopen
      have hmem := h.mem_openRequests_iff call hopen
      rw [hrequests] at hmem
      unfold Doomed
      rw [hloses, hmem]
      have hsilent : o.any (Obs.acknowledges (askRequest call)) ≠ true :=
        fun hany => hnone _ (acknowledges_any.mp hany)
      cases hcall : s.calls call with
      | none => simp
      | some c =>
          cases c with
          | waiting =>
              have hqueued := hmem.mpr hcall
              simp [heard, hsilent, Runner.isEnded_iff.mpr hended, hqueue, hqueued,
                AskStop.failed]
          | _ => simp [heard]

include hinput in
theorem Tracked.step_runs :
    Tracked ⟨r, fun call => (s.calls call).map (heard r o call)⟩ where
  inPlace := h.inPlace.step (Runner.step_transition hstep)
  notRestarting :=
    (Runner.step_transition hstep).notRestarting h.notRestarting hrestart
  owned hended := h.owned_step hinput hstep hrestart hended
  ended hended call := (h.ended_step hstep hrestart hended call).1

include hinput in
/-- The runner dooms a call by the failure of `pre_start` only. -/
theorem Tracked.doomed_runs (call : Nat) :
    Doomed ⟨r, fun call => (s.calls call).map (heard r o call)⟩ call ↔
      s.Doomed call ∨ s.runner.FailsToStart input ∧
        askRequest call ∈ s.runner.stopQueue := by
  by_cases hended : r.phase = .ended
  · have hfailed := (h.ended_step hstep hrestart hended call).2
    have hnot : ¬ s.runner.FailsToStart input := fun hfail =>
      (hfail.effect hstep).2.2.2.1.2 hended
    have hgone : ¬ r.Loses (askRequest call) := fun hloses => hloses.1 hended
    simp only [Doomed, hgone, or_false, hnot, false_and] at hfailed ⊢
    exact hfailed
  · unfold Doomed
    rw [heard_failed hended, or_assoc]
    refine or_congr_right ?_
    by_cases hfail : s.runner.FailsToStart input
    · obtain ⟨hqueue, -, hbefore, hopen, -⟩ := hfail.effect hstep
      have htail : askRequest call ∈ s.runner.stopQueue.tail →
          askRequest call ∈ s.runner.stopQueue := List.mem_of_mem_tail
      simp only [Runner.Loses, hqueue, hbefore.1, hbefore.2, hfail]
      tauto
    · have heffect := (h.effect hstep hrestart).resolve_left hfail
      have hsame := heffect.loses_iff (q := askRequest call) hended
        (by rintro rfl; simp [Input.fromCaller, askRequest] at hinput)
        (by simp [askRequest])
      rw [hsame]
      simp [hfail]

end Step

end Runs

/-- A step that neither restarts the actor nor misses the condition dooms no
call, and any other step does. -/
theorem Tracked.step (h : s.Tracked) (hstep : step cfg s i = some (t, o))
    (hrestart : ∀ e, .called (.preRestart e) ∉ o) :
    t.Tracked ∧
      ((∃ call, t.Doomed call) ↔ (∃ call, s.Doomed call) ∨ ¬ s.Served i) := by
  unfold StopCalls.step at hstep
  cases i with
  | asks call =>
      simp only at hstep
      split at hstep
      case h_1 hcall =>
        cases hstep
        exact h.moves hcall (by simp) (by simp) rfl trivial
      case h_2 => contradiction
  | sends call =>
      simp only at hstep
      split at hstep
      case h_1 hcall =>
        obtain ⟨r, harrive, heq⟩ := Option.map_eq_some_iff.mp hstep
        cases heq
        refine ⟨h.sends hcall harrive, ?_⟩
        simp only [doomed_sends hcall harrive, Served, exists_or]
        simp
      case h_2 => contradiction
  | refused call =>
      simp only at hstep
      split at hstep
      case h_1 hcall =>
        split at hstep
        · cases hstep
          exact h.moves hcall (by simp) (by simp) rfl trivial
        · contradiction
      case h_2 => contradiction
  | resumes call =>
      simp only at hstep
      split at hstep
      case h_1 hcall =>
        cases hstep
        exact h.moves hcall (by simp) (by simp) rfl trivial
      case h_2 hcall =>
        cases hstep
        exact h.moves hcall (by simp) (by simp) rfl trivial
      case h_3 => contradiction
  | tells =>
      obtain ⟨r, harrive, heq⟩ := Option.map_eq_some_iff.mp hstep
      cases heq
      obtain ⟨htracked, hdoomed⟩ := h.tells harrive
      refine ⟨htracked, ?_⟩
      simp only [hdoomed]
      simp [Served]
  | runs input =>
      simp only at hstep
      split at hstep
      case isTrue => contradiction
      case isFalse hinput =>
        rw [Bool.not_eq_true] at hinput
        obtain ⟨⟨r, o'⟩, hrun, heq⟩ := Option.map_eq_some_iff.mp hstep
        cases heq
        refine ⟨h.step_runs hinput hrun hrestart, ?_⟩
        simp only [h.doomed_runs hinput hrun hrestart, exists_or, Served]
        simp

theorem Tracked.start : (start : StopCalls M Ev).Tracked where
  inPlace := trivial
  notRestarting e := by simp [StopCalls.start, Runner.create]
  owned _ call := ⟨(nomatch ·), fun _ => rfl⟩
  ended _ call hwaits := nomatch hwaits

theorem not_doomed_start (call : Nat) : ¬ (start : StopCalls M Ev).Doomed call := by
  simp [Doomed, start, Runner.Loses, Runner.create]

/-- When the runner has ended, a call returns `Ok` in its next step, or it does
not wait and has failed. -/
theorem Tracked.returnsOk_iff (h : s.Tracked) (hended : s.runner.phase = .ended)
    (hcall : s.calls call ≠ none) : s.ReturnsOk cfg call ↔ ¬ s.Doomed call := by
  have hisEnded := Runner.isEnded_iff.mpr hended
  have hloses : ¬ s.runner.Loses (askRequest call) := fun hl => hl.1 hended
  obtain ⟨c, hc⟩ := Option.ne_none_iff_exists'.mp hcall
  simp only [Doomed, hc, hloses, or_false, Option.any_some]
  cases c with
  | sending =>
      refine iff_of_true (Or.inr ⟨.refused call, s.set call (.returned (.ok ())),
        Or.inl rfl, ?_, ?_⟩) (by simp [AskStop.failed])
      · simp [StopCalls.step, hc, hisEnded]
      · simp [set_calls]
  | waiting => exact absurd hc (h.ended hended call)
  | answered =>
      refine iff_of_true (Or.inr ⟨.resumes call, s.set call (.returned (.ok ())),
        Or.inr rfl, ?_, ?_⟩) (by simp [AskStop.failed])
      · simp [StopCalls.step, hc]
      · simp [set_calls]
  | dropped =>
      refine iff_of_false ?_ (by simp [AskStop.failed])
      rintro (hreturned | ⟨i, t, rfl | rfl, hstep, ht⟩)
      · simp [hc] at hreturned
      · simp [StopCalls.step, hc] at hstep
      · simp only [StopCalls.step, hc, Option.some.injEq, Prod.mk.injEq, and_true] at hstep
        subst hstep
        simp [set_calls] at ht
  | returned result =>
      cases result with
      | ok => exact iff_of_true (Or.inl hc) (by simp [AskStop.failed])
      | error e =>
          refine iff_of_false ?_ (by simp [AskStop.failed])
          rintro (hreturned | ⟨i, t, rfl | rfl, hstep, ht⟩)
          · simp [hc] at hreturned
          · simp [StopCalls.step, hc] at hstep
          · simp [StopCalls.step, hc] at hstep

/-- A call that was not made is not doomed when the runner has ended. -/
theorem not_doomed_of_none (hended : s.runner.phase = .ended)
    (hcall : s.calls call = none) : ¬ s.Doomed call := by
  rintro (hfailed | hloses)
  · simp [hcall] at hfailed
  · exact hloses.1 hended

/-- **Stopping is idempotent** for the callers of an actor that does not restart
and has ended: every call of `ask_stop` returns `Ok`, if and only if every
request was sent into an empty queue before the stop branch was taken, or found
the channel closed, and `pre_start` did not fail while such a request was
queued. -/
theorem stop_idempotent_iff (cfg : RunnerConfig)
    {inputs : List (StopCallsInput M Ev)} {s : StopCalls M Ev}
    {seen : List (Obs M Ev)}
    (hrun : execute (step cfg) start inputs = some (s, seen))
    (hended : s.runner.phase = .ended)
    (hrestart : ∀ e, .called (.preRestart e) ∉ seen) :
    (∀ call, s.calls call ≠ none → s.ReturnsOk cfg call) ↔
      StepsMeet (step cfg) Served start inputs := by
  obtain ⟨htracked, htrap⟩ := execute_history_trap_iff
    (I := fun s _ => s.Tracked) (D := fun s _ => ∃ call, s.Doomed call)
    (Q := fun x => ∀ e, x ≠ .called (.preRestart e))
    (fun s seen i t o hI hstep hnone =>
      hI.step hstep fun e hmem => hnone _ hmem e rfl)
    [] Tracked.start hrun fun x hx e heq => hrestart e (heq ▸ hx)
  have hnone : ¬ ∃ call, (start : StopCalls M Ev).Doomed call :=
    fun ⟨call, hdoomed⟩ => not_doomed_start call hdoomed
  have hall : (∀ call, s.calls call ≠ none → s.ReturnsOk cfg call) ↔
      ¬ ∃ call, s.Doomed call := by
    rw [not_exists]
    refine forall_congr' fun call => ?_
    by_cases hcall : s.calls call = none
    · simp [hcall, not_doomed_of_none hended hcall]
    · rw [htracked.returnsOk_iff hended hcall]
      exact ⟨fun h => h hcall, fun h _ => h⟩
  rw [hall, htrap, not_or, not_not]
  exact and_iff_right hnone

/-- A child is started while two callers ask it to stop. -/
def askedTwice : List (StopCallsInput Unit Unit) :=
  [.runs (.choice .proceed), .runs (.choice (.returns (.ok ()))),
    .runs (.choice .proceed), .asks 0, .asks 1]

/-- The stop branch and the end of the actor. -/
def stopBranch : List (StopCallsInput Unit Unit) :=
  [.runs (.choice .takeStop), .runs (.choice (.returns (.ok ()))),
    .runs (.choice .proceed), .runs (.choice .proceed),
    .runs (.choice .proceed), .runs (.choice .proceed),
    .runs (.choice .proceed), .runs (.choice (.returns (.ok ()))),
    .runs (.choice .proceed), .runs (.choice .proceed)]

/-- What the runner does: it serves the request of the first caller. -/
def servedFirst : List (Obs Unit Unit) :=
  [.called .preStart, .becomes .started, .signal true,
    .called (.preStop (askRequest 0)), .removeActor,
    .acknowledged (askRequest 0), .becomes .stopped, .called .postStop,
    .becomes .terminated, .removeActor]

/-- The second caller finds the channel closed: both calls return `Ok`. -/
theorem askedTwice_stop_idempotent :
    ∃ s seen, execute (step Runner.stoppingChild) start
        (askedTwice ++ .sends 0 :: stopBranch) = some (s, seen) ∧
      s.runner.phase = .ended ∧
      ∀ call, s.calls call ≠ none → s.ReturnsOk Runner.stoppingChild call := by
  have hmeet : StepsMeet (step Runner.stoppingChild) Served start
      (askedTwice ++ .sends 0 :: stopBranch) := by
    refine stepsMeet_append.mpr
      ⟨stepsMeet_of_forall ?_ _, fun t os hrun => ?_⟩
    · simp [askedTwice, Served, Runner.FailsToStart]
    · cases hrun
      refine ⟨⟨rfl, trivial⟩, fun t o _ => stepsMeet_of_forall ?_ t⟩
      simp [stopBranch, Served, Runner.FailsToStart]
  have hrestart : ∀ e, .called (.preRestart e) ∉ servedFirst := by
    simp [servedFirst]
  exact ⟨_, servedFirst, rfl, rfl,
    (stop_idempotent_iff Runner.stoppingChild rfl rfl hrestart).mpr hmeet⟩

/-- The second request is queued behind the first one, and its call returns an
error when the actor has stopped. -/
theorem second_ask_stop_fails :
    ∃ s seen, execute (step Runner.stoppingChild) start
        (askedTwice ++ .sends 0 :: .sends 1 :: stopBranch ++
          [.resumes 0, .resumes 1]) = some (s, seen) ∧
      s.runner.phase = .ended ∧
      (∀ e, .called (.preRestart e) ∉ seen) ∧
      s.calls 0 = some (.returned (.ok ())) ∧
      s.calls 1 = some (.returned (.error (.send "channel closed"))) :=
  ⟨_, servedFirst, rfl, rfl, by simp [servedFirst], rfl, rfl⟩

end StopCalls
end Actor
end Rush
