import Mathlib.Data.List.Nodup
import Mathlib.Tactic.Common

/-!
# Linearizability by linearization points

A sequential object serves one request after the other.  Concurrent calls of an
implementation are linearizable when the calls that took effect can be put into
an order in which the sequential object gives the same responses, and which
respects real time: a call that had its response before another one was made
comes before it.  It is enough to mark in the trace where each call takes
effect, somewhere between its invocation and its response.
-/

namespace Rush
namespace Foundation

variable {κ ι ρ σ : Type*}

/-- A sequential object: a request with its response, and what else may happen
to the state between two requests. -/
structure SequentialObject (σ ι ρ : Type*) where
  serves : σ → ι → ρ → σ → Prop
  moves : σ → σ → Prop

/-- A request that took effect; `caller` is `none` when nobody waits for the
response. -/
structure Effect (κ ι ρ : Type*) where
  caller : Option κ
  request : ι
  response : ρ

/-- What the callers see. -/
inductive CallEvent (κ ι ρ : Type*)
  | invoked (call : κ) (request : ι)
  | responded (call : κ) (response : ρ)

/-- What happens to the calls, with the points where requests take effect. -/
inductive Mark (κ ι ρ : Type*)
  | invoked (call : κ) (request : ι)
  | took (effect : Effect κ ι ρ)
  | responded (call : κ) (response : ρ)

namespace Mark

def event : Mark κ ι ρ → Option (CallEvent κ ι ρ)
  | invoked call request => some (.invoked call request)
  | took _ => none
  | responded call response => some (.responded call response)

def effect? : Mark κ ι ρ → Option (Effect κ ι ρ)
  | took effect => some effect
  | _ => none

end Mark

/-- The history that the callers see. -/
def callHistory (marks : List (Mark κ ι ρ)) : List (CallEvent κ ι ρ) :=
  marks.filterMap Mark.event

/-- The requests that took effect, in order. -/
def effects (marks : List (Mark κ ι ρ)) : List (Effect κ ι ρ) :=
  marks.filterMap Mark.effect?

/-- Who waits for the responses of some effects. -/
def callers (es : List (Effect κ ι ρ)) : List κ :=
  es.filterMap Effect.caller

/-- The object serves the requests in order, with these responses. -/
inductive Serves (O : SequentialObject σ ι ρ) (s : σ) :
    List (Effect κ ι ρ) → σ → Prop
  | start : Serves O s [] s
  | moves (es t u) (hserves : Serves O s es t) (hmove : O.moves t u) :
      Serves O s es u
  | serves (es t u) (e : Effect κ ι ρ) (hserves : Serves O s es t)
      (hstep : O.serves t e.request e.response u) : Serves O s (es ++ [e]) u

/-- **A linearization** of a history: an order of effects that the object can
serve, with every response that was given, and in real-time order. -/
structure Linearizes (O : SequentialObject σ ι ρ) (s t : σ)
    (history : List (CallEvent κ ι ρ)) (es : List (Effect κ ι ρ)) : Prop where
  serves : Serves O s es t
  once : (callers es).Nodup
  invoked : ∀ e ∈ es, ∀ call, e.caller = some call →
    .invoked call e.request ∈ history
  responded : ∀ call response, .responded call response ∈ history →
    ∃ e ∈ es, e.caller = some call ∧ e.response = response
  realTime : ∀ before after first response later, history = before ++ after →
    .responded first response ∈ before →
    (∀ request, .invoked later request ∉ before) → later ∈ callers es →
    ∃ es₁ es₂, es = es₁ ++ es₂ ∧ first ∈ callers es₁ ∧ later ∈ callers es₂ ∧
      later ∉ callers es₁

section Lists

variable (marks more : List (Mark κ ι ρ))

@[simp] theorem effects_append :
    effects (marks ++ more) = effects marks ++ effects more :=
  List.filterMap_append

@[simp] theorem callers_append (es es' : List (Effect κ ι ρ)) :
    callers (es ++ es') = callers es ++ callers es' :=
  List.filterMap_append

variable {marks}

theorem mem_callers {es : List (Effect κ ι ρ)} {call : κ} :
    call ∈ callers es ↔ ∃ e ∈ es, e.caller = some call :=
  List.mem_filterMap

theorem mem_effects {e : Effect κ ι ρ} :
    e ∈ effects marks ↔ .took e ∈ marks := by
  unfold effects
  rw [List.mem_filterMap]
  constructor
  · rintro ⟨m, hm, heffect⟩
    cases m with
    | took e' =>
        cases heffect
        exact hm
    | _ => contradiction
  · exact fun h => ⟨_, h, rfl⟩

theorem invoked_mem_callHistory {call : κ} {request : ι} :
    .invoked call request ∈ callHistory marks ↔
      .invoked call request ∈ marks := by
  unfold callHistory
  rw [List.mem_filterMap]
  constructor
  · rintro ⟨m, hm, hevent⟩
    cases m <;> cases hevent
    exact hm
  · exact fun h => ⟨_, h, rfl⟩

theorem responded_mem_callHistory {call : κ} {response : ρ} :
    .responded call response ∈ callHistory marks ↔
      .responded call response ∈ marks := by
  unfold callHistory
  rw [List.mem_filterMap]
  constructor
  · rintro ⟨m, hm, hevent⟩
    cases m <;> cases hevent
    exact hm
  · exact fun h => ⟨_, h, rfl⟩

end Lists

/-- The marks are in place: a request takes effect once, after it was made, and
a response is the one of its effect. -/
structure Pointed (O : SequentialObject σ ι ρ) (s t : σ)
    (marks : List (Mark κ ι ρ)) : Prop where
  serves : Serves O s (effects marks) t
  once : (callers (effects marks)).Nodup
  afterCall : ∀ before e after, marks = before ++ .took e :: after →
    ∀ call, e.caller = some call → .invoked call e.request ∈ before
  beforeResponse : ∀ before call response after,
    marks = before ++ .responded call response :: after →
    ∃ e ∈ effects before, e.caller = some call ∧ e.response = response

namespace Pointed

variable {O : SequentialObject σ ι ρ} {s t u : σ} {marks : List (Mark κ ι ρ)}

theorem start (s : σ) : Pointed O s s ([] : List (Mark κ ι ρ)) where
  serves := .start
  once := List.nodup_nil
  afterCall before e after h := by simp at h
  beforeResponse before call response after h := by simp at h

/-- A list ends with a new element, or an old one is split off. -/
private theorem split_snoc {α : Type*} {xs before after : List α} {x y : α}
    (h : xs ++ [y] = before ++ x :: after) :
    (before = xs ∧ x = y) ∨ ∃ after', xs = before ++ x :: after' := by
  rcases List.eq_nil_or_concat after with rfl | ⟨after', z, rfl⟩
  · obtain ⟨rfl, hlast⟩ := List.append_inj' h rfl
    exact Or.inl ⟨rfl, (List.singleton_inj.mp hlast).symm⟩
  · have hsplit : xs ++ [y] = (before ++ x :: after') ++ [z] := by
      rw [h]
      simp
    exact Or.inr ⟨after', (List.append_inj' hsplit rfl).1⟩

theorem moves (h : Pointed O s t marks) (hmove : O.moves t u) :
    Pointed O s u marks :=
  { h with serves := .moves _ _ _ h.serves hmove }

theorem invoked (h : Pointed O s t marks) (call : κ) (request : ι) :
    Pointed O s t (marks ++ [.invoked call request]) where
  serves := by
    have hnone : effects [Mark.invoked (ρ := ρ) call request] = [] := rfl
    rw [effects_append, hnone, List.append_nil]
    exact h.serves
  once := by
    have hnone : effects [Mark.invoked (ρ := ρ) call request] = [] := rfl
    rw [effects_append, hnone, List.append_nil]
    exact h.once
  afterCall before e after hsplit := by
    rcases split_snoc hsplit with ⟨-, hlast⟩ | ⟨after', hold⟩
    · contradiction
    · exact h.afterCall before e after' hold
  beforeResponse before c response after hsplit := by
    rcases split_snoc hsplit with ⟨-, hlast⟩ | ⟨after', hold⟩
    · contradiction
    · exact h.beforeResponse before c response after' hold

/-- A request takes effect. -/
theorem took (h : Pointed O s t marks) (e : Effect κ ι ρ)
    (hstep : O.serves t e.request e.response u)
    (hcaller : ∀ call, e.caller = some call →
      .invoked call e.request ∈ marks ∧ call ∉ callers (effects marks)) :
    Pointed O s u (marks ++ [.took e]) where
  serves := by
    rw [effects_append]
    exact .serves _ _ _ e h.serves hstep
  once := by
    rw [effects_append, callers_append]
    cases he : e.caller with
    | none =>
        have hnone : callers (effects [Mark.took e]) = [] := by
          simp [callers, effects, Mark.effect?, he]
        rw [hnone, List.append_nil]
        exact h.once
    | some call =>
        have hone : callers (effects [Mark.took e]) = [call] := by
          simp [callers, effects, Mark.effect?, he]
        rw [hone]
        exact List.nodup_append'.mpr ⟨h.once, List.nodup_singleton call,
          List.disjoint_singleton.mpr (hcaller call he).2⟩
  afterCall before e' after hsplit := by
    rcases split_snoc hsplit with ⟨rfl, hlast⟩ | ⟨after', hold⟩
    · cases hlast
      exact fun call he => (hcaller call he).1
    · exact h.afterCall before e' after' hold
  beforeResponse before c response after hsplit := by
    rcases split_snoc hsplit with ⟨-, hlast⟩ | ⟨after', hold⟩
    · contradiction
    · exact h.beforeResponse before c response after' hold

/-- A call gets the response of its effect. -/
theorem responded (h : Pointed O s t marks) {call : κ} {response : ρ}
    (heffect : ∃ e ∈ effects marks, e.caller = some call ∧
      e.response = response) :
    Pointed O s t (marks ++ [.responded call response]) where
  serves := by
    have hnone : effects [Mark.responded (ι := ι) call response] = [] := rfl
    rw [effects_append, hnone, List.append_nil]
    exact h.serves
  once := by
    have hnone : effects [Mark.responded (ι := ι) call response] = [] := rfl
    rw [effects_append, hnone, List.append_nil]
    exact h.once
  afterCall before e after hsplit := by
    rcases split_snoc hsplit with ⟨-, hlast⟩ | ⟨after', hold⟩
    · contradiction
    · exact h.afterCall before e after' hold
  beforeResponse before c r after hsplit := by
    rcases split_snoc hsplit with ⟨rfl, hlast⟩ | ⟨after', hold⟩
    · cases hlast
      exact heffect
    · exact h.beforeResponse before c r after' hold

/-- **The order of the linearization points is a linearization.** -/
theorem linearizes (h : Pointed O s t marks) :
    Linearizes O s t (callHistory marks) (effects marks) where
  serves := h.serves
  once := h.once
  invoked e he call hcaller := by
    obtain ⟨before, after, hsplit⟩ := List.append_of_mem (mem_effects.mp he)
    have hinvoked := h.afterCall before e after hsplit call hcaller
    rw [invoked_mem_callHistory, hsplit]
    exact List.mem_append_left _ hinvoked
  responded call response hmem := by
    obtain ⟨before, after, hsplit⟩ :=
      List.append_of_mem (responded_mem_callHistory.mp hmem)
    obtain ⟨e, he, hcaller, hresponse⟩ :=
      h.beforeResponse before call response after hsplit
    refine ⟨e, ?_, hcaller, hresponse⟩
    rw [hsplit, effects_append]
    exact List.mem_append_left _ he
  realTime before after first response later hhistory hfirst hlater hmem := by
    obtain ⟨marks₁, marks₂, rfl, rfl, rfl⟩ :=
      List.filterMap_eq_append_iff.mp hhistory
    -- no effect of the later call can be marked before it was made
    have hnot : later ∉ callers (effects marks₁) := by
      intro hin
      obtain ⟨e, he, hcaller⟩ := mem_callers.mp hin
      obtain ⟨xs, ys, hsplit⟩ := List.append_of_mem (mem_effects.mp he)
      have hinvoked := h.afterCall xs e (ys ++ marks₂) (by simp [hsplit])
        later hcaller
      refine hlater e.request (invoked_mem_callHistory.mpr ?_)
      rw [hsplit]
      exact List.mem_append_left _ hinvoked
    obtain ⟨xs, ys, hsplit⟩ :=
      List.append_of_mem (responded_mem_callHistory.mp hfirst)
    obtain ⟨e, he, hcaller, -⟩ :=
      h.beforeResponse xs first response (ys ++ marks₂) (by simp [hsplit])
    refine ⟨effects marks₁, effects marks₂, effects_append _ _, ?_, ?_, hnot⟩
    · refine mem_callers.mpr ⟨e, ?_, hcaller⟩
      rw [hsplit, effects_append]
      exact List.mem_append_left _ he
    · rw [effects_append, callers_append] at hmem
      exact (List.mem_append.mp hmem).resolve_left hnot

end Pointed

section Abstraction

variable {τ : Type*} {O : SequentialObject σ ι ρ} {A : SequentialObject τ ι ρ}
  {R : List (Effect κ ι ρ) → σ → τ → Prop} {G : List (Effect κ ι ρ) → Prop}
  {s t : σ} {a : τ} {es : List (Effect κ ι ρ)}

/-- An object whose steps are steps of an abstract one, as long as the effects
meet `G`, serves what the abstract one serves. -/
theorem Serves.abstracts (hstart : R [] s a)
    (hbefore : ∀ es e, G (es ++ [e]) → G es)
    (hmoves : ∀ es t u b, R es t b → O.moves t u → R es u b)
    (hserves : ∀ es e t u b, G (es ++ [e]) → R es t b →
      O.serves t e.request e.response u →
      ∃ c, A.serves b e.request e.response c ∧ R (es ++ [e]) u c)
    (h : Serves O s es t) (hes : G es) : ∃ b, Serves A a es b ∧ R es t b := by
  induction h with
  | start => exact ⟨a, .start, hstart⟩
  | moves es t u _ hmove ih =>
      obtain ⟨b, hb, hR⟩ := ih hes
      exact ⟨b, hb, hmoves es t u b hR hmove⟩
  | serves es t u e _ hstep ih =>
      obtain ⟨b, hb, hR⟩ := ih (hbefore es e hes)
      obtain ⟨c, hc, hR'⟩ := hserves es e t u b hes hR hstep
      exact ⟨c, .serves es b c e hb hc, hR'⟩

/-- A linearization is one of every object that serves its effects. -/
theorem Linearizes.of_serves {b : τ} {history : List (CallEvent κ ι ρ)}
    (h : Linearizes O s t history es) (hserves : Serves A a es b) :
    Linearizes A a b history es :=
  { h with serves := hserves }

end Abstraction

end Foundation
end Rush
