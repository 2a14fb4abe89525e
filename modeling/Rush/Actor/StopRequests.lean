import Rush.Actor.PostStop

/-!
# What becomes of a stop request

A request enters the stop queue, the stop branch takes the first one, serves it
and acknowledges it, and the loop of `run` is left.  An actor that does not
restart never comes back to `select!`, so what is queued behind the first
request, or later, is dropped with the receiver when the runner ends.
-/

namespace Rush
namespace Actor

open Foundation

variable {M Ev : Type}

namespace Runner

/-- The request that the stop branch is serving. -/
def served (r : Runner M Ev) : Option StopRequest :=
  match r.phase with
  | .inHook (.preStop request) => some request
  | .stoppingChilds request => some request
  | .awaitingChild request => some request
  | .removing request => some request
  | .acknowledging request => some request
  | _ => none

/-- The requests whose channels the runner still owns. -/
def openRequests (r : Runner M Ev) : List StopRequest :=
  r.served.toList ++ r.stopQueue

/-- The stop branch has not been taken, and `pre_start` has not failed. -/
def BeforeStop (r : Runner M Ev) : Prop :=
  match r.phase with
  | .dispatch => r.lifecycle = .created ∨ r.lifecycle = .started
  | .inHook .preStart => True
  | .inHook (.onChildError _) => True
  | .inHook (.onChildFault _ _) => True
  | .inHook (.handleMessage _) => True
  | .selecting => True
  | .awaitingAction => True
  | .stoppingItself => True
  | _ => False

/-- The request is queued and no stop branch will take it, if the actor does not
restart. -/
def Loses (r : Runner M Ev) (request : StopRequest) : Prop :=
  r.phase ≠ .ended ∧
    (request ∈ r.stopQueue.tail ∨ request ∈ r.stopQueue ∧ ¬ r.BeforeStop)

/-- `pre_start` returns an error. -/
def FailsToStart (r : Runner M Ev) (i : Input M Ev) : Prop :=
  r.phase = .inHook .preStart ∧ ∃ e, i = .choice (.returns (.error e))

/-- What a step does with the stop requests, if it neither restarts the actor nor
is the failure of `pre_start`. -/
inductive StopEffect (r : Runner M Ev) (i : Input M Ev) (r' : Runner M Ev)
    (o : List (Obs M Ev)) : Prop
  | keeps (hqueue : r'.stopQueue = r.stopQueue) (hserved : r'.served = r.served)
      (hbefore : r'.BeforeStop ↔ r.BeforeStop)
      (hended : r'.phase = .ended ↔ r.phase = .ended)
      (hnone : ∀ request, .acknowledged request ∉ o)
  | queues (request : StopRequest)
      (horigin : i = .arrival (.stop request) ∨ request.origin = .own)
      (hqueue : r'.stopQueue = r.stopQueue ++ [request])
      (hserved : r'.served = r.served) (hbefore : r'.BeforeStop ↔ r.BeforeStop)
      (hended : r.phase ≠ .ended ∧ r'.phase ≠ .ended)
      (hnone : ∀ request, .acknowledged request ∉ o)
  | takes (request : StopRequest)
      (hqueue : r.stopQueue = request :: r'.stopQueue)
      (hserved : r.served = none ∧ r'.served = some request)
      (hbefore : r.BeforeStop ∧ ¬ r'.BeforeStop)
      (hended : r.phase ≠ .ended ∧ r'.phase ≠ .ended)
      (hnone : ∀ request, .acknowledged request ∉ o)
  | acknowledges (request : StopRequest) (hqueue : r'.stopQueue = r.stopQueue)
      (hserved : r.served = some request ∧ r'.served = none)
      (hbefore : ¬ r.BeforeStop ∧ ¬ r'.BeforeStop)
      (hended : r.phase ≠ .ended ∧ r'.phase ≠ .ended)
      (honly : ∀ q, .acknowledged q ∈ o ↔ q = request)
  | ends (hqueue : r'.stopQueue = r.stopQueue)
      (hserved : r.served = none ∧ r'.served = none)
      (hbefore : ¬ r.BeforeStop)
      (hended : r.phase ≠ .ended ∧ r'.phase = .ended)
      (hnone : ∀ request, .acknowledged request ∉ o)

variable {cfg : RunnerConfig} {r r' : Runner M Ev} {o : List (Obs M Ev)}
  {i : Input M Ev}

theorem served_congr (hphase : r'.phase = r.phase) : r'.served = r.served := by
  unfold served
  rw [hphase]

theorem beforeStop_congr (hphase : r'.phase = r.phase)
    (hlife : r'.lifecycle = r.lifecycle) : r'.BeforeStop ↔ r.BeforeStop := by
  unfold BeforeStop
  rw [hphase, hlife]

/-- A step that leaves the control of the runner alone and queues at most one
request. -/
theorem StopEffect.of_frame (hphase : r'.phase = r.phase)
    (hlife : r'.lifecycle = r.lifecycle)
    (hqueue : r'.stopQueue = r.stopQueue ∨ r.phase ≠ .ended ∧
      ∃ request, (i = .arrival (.stop request) ∨ request.origin = .own) ∧
        r'.stopQueue = r.stopQueue ++ [request]) :
    StopEffect r i r' [] := by
  rcases hqueue with hqueue | ⟨hended, request, horigin, hqueue⟩
  · exact .keeps hqueue (served_congr hphase) (beforeStop_congr hphase hlife)
      (by rw [hphase]) (by simp)
  · exact .queues request horigin hqueue (served_congr hphase)
      (beforeStop_congr hphase hlife) ⟨hended, hphase ▸ hended⟩ (by simp)

theorem arrive_stop {request : StopRequest}
    (h : r.arrive (.stop request) = some r') :
    r' = { r with stopQueue := r.stopQueue ++ [request] } ∧ r.phase ≠ .ended := by
  simp only [arrive] at h
  split at h
  case isTrue hopen =>
    cases h
    refine ⟨rfl, fun hended => ?_⟩
    simp [hended, Phase.isEnded] at hopen
  case isFalse => contradiction

theorem arrive_stopEffect {arrival : Arrival M} (h : r.arrive arrival = some r') :
    StopEffect r (.arrival arrival) r' [] := by
  obtain ⟨hphase, hlife, -⟩ := arrive_frame h
  refine .of_frame hphase hlife ?_
  cases arrival with
  | stop request =>
      obtain ⟨rfl, hopen⟩ := arrive_stop h
      exact Or.inr ⟨hopen, request, Or.inl rfl, rfl⟩
  | sendersDropped =>
      cases h
      exact Or.inl rfl
  | _ =>
      simp only [arrive] at h
      split at h
      · cases h
        exact Or.inl rfl
      · contradiction

theorem operate_stopEffect {hook : Hook M} {op : ContextOp Ev}
    (hhook : r.phase = .inHook hook) (h : r.operate op = some r') :
    StopEffect r i r' [] := by
  obtain ⟨hphase, hlife, -⟩ := operate_frame h
  refine .of_frame hphase hlife ?_
  cases op with
  | stop reply =>
      simp only [operate] at h
      split at h
      · cases h
        exact Or.inr ⟨by simp [hhook], _, Or.inr rfl, rfl⟩
      · contradiction
  | _ =>
      cases h
      exact Or.inl rfl

/-- A step between two phases of the same kind. -/
theorem StopEffect.of_quiet (hqueue : r'.stopQueue = r.stopQueue)
    (hserved : r'.served = r.served) (hbefore : r'.BeforeStop ↔ r.BeforeStop)
    (hended : r.phase ≠ .ended ∧ r'.phase ≠ .ended)
    (hnone : ∀ request, .acknowledged request ∉ o) : StopEffect r i r' o :=
  .keeps hqueue hserved hbefore
    ⟨fun h => absurd h hended.2, fun h => absurd h hended.1⟩ hnone

section Phases

attribute [local simp] served BeforeStop

theorem dispatch_stopEffect (hphase : r.phase = .dispatch)
    (h : r.dispatch cfg = (r', o))
    (hrestart : ∀ e, .called (.preRestart e) ∉ o) : StopEffect r i r' o := by
  unfold dispatch at h
  split at h
  case h_1 hlife =>
    cases h
    exact .of_quiet rfl (by simp [hphase]) (by simp [hphase, hlife])
      (by simp [hphase]) (by simp)
  case h_2 hlife =>
    cases h
    exact .of_quiet rfl (by simp [hphase]) (by simp [hphase, hlife])
      (by simp [hphase]) (by split <;> simp)
  case h_3 hlife =>
    unfold applySupervisionStrategy at h
    split at h
    · cases h
      exact .of_quiet rfl (by simp [hphase]) (by simp [hphase, hlife])
        (by simp [hphase]) (by simp)
    · split at h
      · cases h
        exact absurd (by simp) (hrestart r.error)
      · cases h
        exact .of_quiet rfl (by simp [hphase]) (by simp [hphase, hlife])
          (by simp [hphase]) (by simp)
  case h_4 hlife | h_6 hlife =>
    cases h
    exact .of_quiet rfl (by simp [hphase]) (by simp [hphase, hlife])
      (by simp [hphase]) (by simp)
  case h_5 hlife =>
    split at h <;> cases h <;>
      exact .of_quiet rfl (by simp [hphase]) (by simp [hphase, hlife])
        (by simp [hphase]) (by simp)

/-- A hook that returns, but not `pre_start` with an error. -/
theorem hookReturns_stopEffect {hook : Hook M} {result : Except ActorError Unit}
    (hphase : r.phase = .inHook hook) (hrestart : ∀ e, hook ≠ .preRestart e)
    (hok : hook = .preStart → ∀ e, result ≠ .error e)
    (h : r.hookReturns hook result = some (r', o)) : StopEffect r i r' o := by
  cases hook with
  | preStart =>
      cases result with
      | ok =>
          cases h
          exact .of_quiet rfl (by simp [hphase]) (by simp [hphase])
            (by simp [hphase]) (by simp)
      | error e => exact absurd rfl (hok rfl e)
  | preRestart e => exact absurd rfl (hrestart e)
  | onChildFault e sender => cases result <;> contradiction
  | _ =>
      cases result <;> cases h <;>
        exact .of_quiet rfl (by simp [hphase]) (by simp [hphase])
          (by simp [hphase]) (by simp)

theorem select_stopEffect {choice : Choice Ev} (hphase : r.phase = .selecting)
    (h : r.select cfg choice = some (r', o)) : StopEffect r i r' o := by
  unfold select at h
  split at h
  -- the stop branch takes the first request
  case h_1 =>
    split at h
    · contradiction
    case h_2 request rest hqueue =>
      cases h
      exact .takes request hqueue (by simp [hphase]) (by simp [hphase])
        (by simp [hphase]) (by simp)
  case h_2 =>
    split at h
    case h_3 => contradiction
    all_goals
      cases h
      exact .of_quiet rfl (by simp [hphase]) (by simp [hphase])
        (by simp [hphase]) (by simp)
  case h_3 =>
    split at h
    case h_4 => contradiction
    case h_3 =>
      split at h <;> cases h <;>
        exact .of_quiet rfl (by simp [hphase]) (by simp [hphase])
          (by simp [hphase]) (by simp)
    all_goals
      cases h
      exact .of_quiet rfl (by simp [hphase]) (by simp [hphase])
        (by simp [hphase]) (by simp)
  case h_4 =>
    split at h
    · cases h
      exact .of_quiet rfl (by simp [hphase]) (by simp [hphase])
        (by simp [hphase]) (by simp)
    · contradiction
  case h_5 =>
    split at h
    · cases h
      exact .of_quiet rfl (by simp [hphase]) (by simp [hphase])
        (by simp [hphase]) (by simp)
    · contradiction
  case h_6 => contradiction

/-- A step of an actor that does not restart, other than the failure of
`pre_start`, has one of the effects. -/
theorem step_stopEffect (hplace : r.InPlace)
    (hphase : ∀ e, r.phase ≠ .inHook (.preRestart e)) (hfail : ¬ r.FailsToStart i)
    (h : step cfg r i = some (r', o))
    (hrestart : ∀ e, .called (.preRestart e) ∉ o) : StopEffect r i r' o := by
  cases i with
  | arrival arrival =>
      change (r.arrive arrival).map (fun r' => (r', [])) = some (r', o) at h
      obtain ⟨_, harrive, heq⟩ := Option.map_eq_some_iff.mp h
      cases heq
      exact arrive_stopEffect harrive
  | choice choice =>
      change r.advance cfg choice = some (r', o) at h
      unfold advance at h
      split at h
      case h_1 hdispatch =>
        exact dispatch_stopEffect hdispatch (Option.some.inj h) hrestart
      case h_2 hook op hhook =>
        obtain ⟨_, hop, heq⟩ := Option.map_eq_some_iff.mp h
        cases heq
        exact operate_stopEffect hhook hop
      case h_4 hook result hhook =>
        refine hookReturns_stopEffect hhook (fun e heq => ?_) ?_ h
        · exact hphase e (heq ▸ hhook)
        · rintro rfl e rfl
          exact hfail ⟨hhook, e, rfl⟩
      case h_5 hselect => exact select_stopEffect hselect h
      case h_9 hitself =>
        split at h
        · cases h
          exact .queues _ (Or.inr rfl) rfl (by simp [hitself]) (by simp [hitself])
            (by simp [hitself]) (by simp)
        · contradiction
      case h_10 hchilds =>
        split at h
        · cases h
          exact .of_quiet rfl (by simp [hchilds]) (by simp [hchilds])
            (by simp [hchilds]) (by simp)
        · contradiction
      case h_11 hchilds | h_12 hchilds =>
        split at h
        · contradiction
        · cases h
          exact .of_quiet rfl (by simp [hchilds]) (by simp [hchilds])
            (by simp [hchilds]) (by simp)
      case h_15 request hacks =>
        split at h <;> cases h <;>
          exact .acknowledges request rfl (by simp [hacks]) (by simp [hacks])
            (by simp [hacks]) (by simp)
      case h_16 hreturned =>
        -- `run` does not return with lifecycle `Started`
        unfold InPlace at hplace
        rw [hreturned] at hplace
        split at h <;> cases h <;>
          exact .of_quiet rfl (by simp [hreturned])
            (by rcases hplace with hlife | hlife <;> simp [hreturned, hlife])
            (by simp [hreturned]) (by simp)
      case h_17 hterminating =>
        cases h
        exact .ends rfl (by simp [hterminating]) (by simp [hterminating])
          (by simp [hterminating]) (by split <;> simp)
      case h_18 => contradiction
      case h_3 hother | h_6 hother | h_7 hother | h_8 hother | h_13 hother
          | h_14 hother =>
        cases h
        exact .of_quiet rfl (by simp [hother]) (by simp [hother])
          (by simp [hother]) (by simp)

end Phases

theorem isEnded_iff : r.phase.isEnded = true ↔ r.phase = .ended := by
  cases r.phase <;> simp [Phase.isEnded]

/-- The failure of `pre_start`: no stop branch will be taken. -/
theorem FailsToStart.effect (hfail : r.FailsToStart i)
    (h : step cfg r i = some (r', o)) :
    r'.stopQueue = r.stopQueue ∧ (r.served = none ∧ r'.served = none) ∧
      (r.BeforeStop ∧ ¬ r'.BeforeStop) ∧
      (r.phase ≠ .ended ∧ r'.phase ≠ .ended) ∧
      ∀ request, .acknowledged request ∉ o := by
  obtain ⟨hphase, e, rfl⟩ := hfail
  simp only [step, advance, hphase, hookReturns, Option.some.injEq,
    Prod.mk.injEq] at h
  obtain ⟨rfl, rfl⟩ := h
  simp [served, BeforeStop, hphase]

/-- The channels that the runner owns after a step. -/
theorem StopEffect.openRequests (heffect : StopEffect r i r' o) :
    r'.openRequests = r.openRequests ∧ (∀ q, .acknowledged q ∉ o) ∨
      (∃ request, (i = .arrival (.stop request) ∨ request.origin = .own) ∧
        r'.openRequests = r.openRequests ++ [request] ∧
        ∀ q, .acknowledged q ∉ o) ∨
      ∃ request, r.openRequests = request :: r'.openRequests ∧
        ∀ q, .acknowledged q ∈ o ↔ q = request := by
  unfold Runner.openRequests
  cases heffect with
  | keeps hqueue hserved _ _ hnone =>
      exact Or.inl ⟨by rw [hqueue, hserved], hnone⟩
  | queues request horigin hqueue hserved _ _ hnone =>
      refine Or.inr (Or.inl ⟨request, horigin, ?_, hnone⟩)
      rw [hqueue, hserved, List.append_assoc]
  | takes request hqueue hserved _ _ hnone =>
      refine Or.inl ⟨?_, hnone⟩
      rw [hserved.1, hserved.2, hqueue]
      rfl
  | acknowledges request hqueue hserved _ _ honly =>
      refine Or.inr (Or.inr ⟨request, ?_, honly⟩)
      rw [hserved.1, hserved.2, hqueue]
      rfl
  | ends hqueue hserved _ _ hnone =>
      refine Or.inl ⟨?_, hnone⟩
      rw [hserved.1, hserved.2, hqueue]

/-- Only a request that finds the queue empty, before the stop branch is taken,
is not lost when it is queued. -/
theorem loses_queued {request q : StopRequest}
    (hqueue : r'.stopQueue = r.stopQueue ++ [request])
    (hbefore : r'.BeforeStop ↔ r.BeforeStop)
    (hended : r.phase ≠ .ended ∧ r'.phase ≠ .ended) :
    r'.Loses q ↔ r.Loses q ∨
      q = request ∧ ¬ (r.stopQueue = [] ∧ r.BeforeStop) := by
  unfold Loses
  rw [hqueue, hbefore]
  cases hold : r.stopQueue with
  | nil => simp [hended.1, hended.2]
  | cons first rest =>
      simp [hended.1, hended.2]
      tauto

theorem loses_snoc (request q : StopRequest) (hended : r.phase ≠ .ended) :
    Loses { r with stopQueue := r.stopQueue ++ [request] } q ↔
      r.Loses q ∨ q = request ∧ ¬ (r.stopQueue = [] ∧ r.BeforeStop) :=
  loses_queued rfl Iff.rfl ⟨hended, hended⟩

/-- While the runner has not ended, the other steps lose no request and serve
none that is lost. -/
theorem StopEffect.loses_iff {q : StopRequest} (heffect : StopEffect r i r' o)
    (hended : r'.phase ≠ .ended) (hi : i ≠ .arrival (.stop q))
    (horigin : q.origin ≠ .own) : r'.Loses q ↔ r.Loses q := by
  cases heffect with
  | keeps hqueue _ hbefore hended' _ =>
      unfold Loses
      rw [hqueue, hbefore, Ne, hended']
  | queues request hown hqueue _ hbefore hended' _ =>
      rw [loses_queued hqueue hbefore hended']
      refine or_iff_left fun h => ?_
      rcases hown with rfl | hown
      · exact hi (by rw [h.1])
      · exact horigin (h.1 ▸ hown)
  | takes request hqueue _ hbefore hended' _ =>
      unfold Loses
      rw [hqueue]
      have htail : q ∈ r'.stopQueue.tail → q ∈ r'.stopQueue :=
        List.mem_of_mem_tail
      simp [hended'.1, hended'.2, hbefore.1, hbefore.2]
      exact htail
  | acknowledges request hqueue _ hbefore hended' _ =>
      simp [Loses, hqueue, hended'.1, hended'.2, hbefore.1, hbefore.2]
  | ends _ _ _ hended' _ => exact absurd hended'.2 hended

/-- The step in which the receiver of the stop channel is dropped. -/
theorem StopEffect.of_ended (heffect : StopEffect r i r' o)
    (hended : r'.phase = .ended) (hnot : r.phase ≠ .ended) :
    r'.stopQueue = r.stopQueue ∧ r.openRequests = r.stopQueue ∧
      (∀ q, r.Loses q ↔ q ∈ r.stopQueue) ∧ ∀ q, .acknowledged q ∉ o := by
  cases heffect with
  | keeps _ _ _ hended' => exact absurd (hended'.mp hended) hnot
  | ends hqueue hserved hbefore _ hnone =>
      refine ⟨hqueue, by simp [Runner.openRequests, hserved.1], fun q => ?_, hnone⟩
      have htail : q ∈ r.stopQueue.tail → q ∈ r.stopQueue := List.mem_of_mem_tail
      simp [Loses, hnot, hbefore]
      exact htail
  | _ => simp_all

/-- A runner comes into `pre_restart` by calling it. -/
theorem Transition.notRestarting (ht : Transition cfg r r' o)
    (hphase : ∀ e, r.phase ≠ .inHook (.preRestart e))
    (hnone : ∀ e, .called (.preRestart e) ∉ o) :
    ∀ e, r'.phase ≠ .inHook (.preRestart e) := by
  cases ht with
  | operates hook op r' _ hop =>
      rw [(operate_frame hop).1]
      exact hphase
  | restarts strategy => exact absurd (by simp) (hnone r.error)
  | takesChildError error rest hook _ _ _ hhook =>
      rcases hhook with ⟨e, rfl, rfl⟩ | ⟨e, sender, rfl, rfl⟩ <;> simp
  | arrives => exact hphase
  | _ => simp_all

end Runner
end Actor
end Rush
