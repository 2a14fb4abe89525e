import Rush.Actor.RunnerSpec

/-!
# How a runner comes to wait

The choices that lead a runner to a place where it waits for another one: the
action on its fault, `ctx.stop(None)` with a full stop channel, and the loop of
`stop_childs`.
-/

namespace Rush
namespace Actor

open Foundation

variable {M Ev : Type}

namespace Runner

theorem phase_getD_arrive (r : Runner M Ev) (arrival : Arrival M) :
    ((r.arrive arrival).getD r).phase = r.phase := by
  cases h : r.arrive arrival with
  | none => rfl
  | some r' => exact (arrive_frame h).1

variable {cfg : RunnerConfig} {r r' : Runner M Ev} {o : List (Obs M Ev)}
  {choice : Choice Ev}

/-- The choice takes a fail from the inner queue. -/
def TakesFail (r : Runner M Ev) : Choice Ev → Prop
  | .takeInner => ∃ e rest, r.innerQueue = .fail e :: rest
  | _ => False

/-- The choice leads into `ctx.stop(None)`. -/
def StopsItself (cfg : RunnerConfig) (r : Runner M Ev) : Choice Ev → Prop
  | .takeInner => cfg.hasParent = false ∧ r.TakesFail (.takeInner : Choice Ev)
  | .mailboxClosed => True
  | .parentAction _ => True
  | _ => False

/-- The child that `stop_childs` turns to with the choice. -/
def turnsTo (r : Runner M Ev) (choice : Choice Ev) : Option Nat :=
  match r.phase, choice with
  | .inHook (.preStop _), .returns _ => r.childSenders.head?
  | .awaitingChild _, .childAnswered => r.childSenders.head?
  | .stoppingChilds _, .childClosed => r.childSenders.tail.head?
  | _, _ => none

/-- Where a choice can lead, by the place of the runner after it. -/
structure Enters (cfg : RunnerConfig) (r : Runner M Ev) (choice : Choice Ev)
    (r' : Runner M Ev) : Prop where
  awaitingAction : r'.phase = .awaitingAction → cfg.hasParent = true ∧ r.TakesFail choice
  stoppingItself : r'.phase = .stoppingItself → r.StopsItself cfg choice
  stoppingChilds : ∀ request, r'.phase = .stoppingChilds request →
    r.turnsTo choice = r'.childSenders.head?

theorem enters_of_dispatch (cfg : RunnerConfig) (choice : Choice Ev)
    (hphase : r.phase = .dispatch) :
    Enters cfg r choice (r.dispatch cfg).1 := by
  have ht := dispatch_transition cfg hphase
  generalize (r.dispatch cfg).1 = r', (r.dispatch cfg).2 = o at ht
  cases ht with
  | operates hook op r' hphase' => simp [hphase] at hphase'
  | arrives => constructor <;> simp [hphase]
  | _ => constructor <;> simp_all

theorem enters_of_select (hphase : r.phase = .selecting)
    (h : r.select cfg choice = some (r', o)) : Enters cfg r choice r' := by
  cases choice with
  | takeInner =>
      simp only [select] at h
      split at h
      case h_1 | h_2 => cases h; constructor <;> simp [hphase]
      case h_3 e rest hsignal hqueue =>
        split at h
        case isTrue hparent =>
          cases h
          constructor <;> simp [TakesFail, hqueue, hparent]
        case isFalse hparent =>
          cases h
          constructor <;> simp [TakesFail, StopsItself, hqueue, hparent]
      case h_4 => contradiction
  | takeStop | takeChildError | takeMessage =>
      simp only [select] at h
      split at h <;> cases h <;> constructor <;> simp
  | mailboxClosed =>
      simp only [select] at h
      split at h <;> cases h
      constructor <;> simp [StopsItself]
  | _ => simp [select] at h

theorem enters_of_advance (h : r.advance cfg choice = some (r', o)) :
    Enters cfg r choice r' := by
  unfold advance at h
  split at h
  case h_1 hphase =>
    have hpair : r.dispatch cfg = (r', o) := Option.some.inj h
    have henters := enters_of_dispatch cfg .proceed hphase
    rwa [hpair] at henters
  case h_2 hook op hphase =>
    obtain ⟨r₁, hop, heq⟩ := Option.map_eq_some_iff.mp h
    cases heq
    constructor <;> simp [(operate_frame hop).1, hphase]
  case h_4 hook result hphase =>
    cases hook <;> rcases result with e | ⟨⟩ <;> cases h <;>
      constructor <;> simp [turnsTo, hphase, emitFail]
  case h_5 hphase => exact enters_of_select hphase h
  case h_6 hphase | h_7 hphase | h_8 hphase =>
    cases h
    constructor <;> simp [StopsItself]
  case h_10 hphase =>
    split at h <;> cases h
    constructor <;> simp
  case h_11 request hphase =>
    split at h <;> cases h
    constructor <;> simp_all [turnsTo]
  case h_12 =>
    split at h <;> cases h
    constructor <;> simp
  case h_13 request hphase =>
    cases h
    constructor <;> simp [turnsTo, hphase]
  case h_18 => contradiction
  all_goals
    first
    | cases h; constructor <;> simp
    | split at h <;> cases h <;> constructor <;> simp

theorem select_of_advance (hchoice : choice = .takeInner ∨ choice = .mailboxClosed)
    (h : r.advance cfg choice = some (r', o)) : r.select cfg choice = some (r', o) := by
  cases hphase : r.phase with
  | selecting => simpa [advance, hphase] using h
  | inHook hook => rcases hchoice with rfl | rfl <;> cases hook <;> simp [advance, hphase] at h
  | _ => rcases hchoice with rfl | rfl <;> simp [advance, hphase] at h

/-- Into `ctx.stop(None)` without a request more or less. -/
theorem advance_stopsItself (hstops : r.StopsItself cfg choice)
    (h : r.advance cfg choice = some (r', o)) :
    r'.phase = .stoppingItself ∧ r'.stopQueue = r.stopQueue ∧
      (o = [] ∨ o = [.becomes .restarted]) := by
  cases choice with
  | takeInner =>
      obtain ⟨hparent, e, rest, hqueue⟩ := hstops
      have hselect := select_of_advance (Or.inl rfl) h
      cases hsignal : r.stopSignal with
      | true => simp [select, hsignal] at hselect
      | false =>
          simp only [select, hqueue, hsignal, hparent, Bool.false_eq_true, if_false] at hselect
          cases hselect
          exact ⟨rfl, rfl, Or.inl rfl⟩
  | mailboxClosed =>
      have hselect := select_of_advance (Or.inr rfl) h
      simp only [select] at hselect
      split at hselect <;> cases hselect
      exact ⟨rfl, rfl, Or.inl rfl⟩
  | parentAction action =>
      obtain ⟨hphase, ho⟩ := advance_parentAction h
      cases action with
      | none =>
          simp only [advance, hphase] at h
          cases h
          exact ⟨rfl, rfl, ho⟩
      | some action =>
          cases action <;> simp only [advance, hphase] at h <;> cases h <;>
            exact ⟨rfl, rfl, ho⟩
  | _ => contradiction

theorem advance_takesFail (hparent : cfg.hasParent = true) (htakes : r.TakesFail choice)
    (h : r.advance cfg choice = some (r', o)) :
    r'.phase = .awaitingAction ∧ r'.stopQueue = r.stopQueue ∧ ∃ e, o = [.sentFault e] := by
  cases choice with
  | takeInner =>
      obtain ⟨e, rest, hqueue⟩ := htakes
      have hselect := select_of_advance (Or.inl rfl) h
      cases hsignal : r.stopSignal with
      | true => simp [select, hsignal] at hselect
      | false =>
          simp only [select, hqueue, hsignal, hparent, if_true] at hselect
          cases hselect
          exact ⟨rfl, rfl, e, rfl⟩
  | _ => contradiction

theorem arrive_childError (r : Runner M Ev) (error : ChildError) :
    ((r.arrive (.childError error)).getD r).childSenders = r.childSenders ∧
      ((r.arrive (.childError error)).getD r).stopQueue = r.stopQueue := by
  simp only [arrive]
  split <;> exact ⟨rfl, rfl⟩

/-- An arrival is a stop request, or leaves the stop queue as it is. -/
theorem arrive_queues {arrival : Arrival M} (h : r.arrive arrival = some r') :
    r'.childSenders = r.childSenders ∧
      ((∀ request, arrival ≠ .stop request) ∧ r'.stopQueue = r.stopQueue ∨
        ∃ request, arrival = .stop request ∧
          r'.stopQueue = r.stopQueue ++ [request]) := by
  cases arrival with
  | stop request =>
      simp only [arrive] at h
      split at h <;> cases h
      exact ⟨rfl, Or.inr ⟨request, rfl, rfl⟩⟩
  | sendersDropped =>
      cases h
      exact ⟨rfl, Or.inl ⟨by simp, rfl⟩⟩
  | _ =>
      simp only [arrive] at h
      split at h <;> cases h
      exact ⟨rfl, Or.inl ⟨by simp, rfl⟩⟩

theorem advance_turnsTo {child : Nat} (hturns : r.turnsTo choice = some child)
    (h : r.advance cfg choice = some (r', o)) :
    (∃ request, r'.phase = .stoppingChilds request) ∧
      r'.childSenders.head? = some child ∧ o = [] := by
  unfold turnsTo at hturns
  split at hturns
  case h_1 request result hphase =>
    cases result <;> simp only [advance, hphase, hookReturns] at h <;> cases h <;>
      exact ⟨⟨request, rfl⟩, hturns, rfl⟩
  case h_2 request hphase =>
    simp only [advance, hphase] at h
    cases h
    exact ⟨⟨request, rfl⟩, hturns, rfl⟩
  case h_3 request hphase =>
    simp only [advance, hphase] at h
    split at h
    case h_1 => contradiction
    case h_2 _ rest hchilds =>
      cases h
      exact ⟨⟨request, rfl⟩, by simpa [hchilds] using hturns, rfl⟩
  case h_4 => contradiction

end Runner

end Actor
end Rush
