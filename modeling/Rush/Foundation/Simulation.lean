import Rush.Foundation.Execution
import Mathlib.Data.List.Forall2

/-!
# Two machines on the same inputs

Two machines agree on an input when both refuse it, or both take it to related
states and emit related observations.  What agrees in every step from related
states agrees in every execution.
-/

namespace Rush
namespace Foundation

variable {σ τ ι ο π : Type*}

/-- Both outcomes are refusals, or they are related. -/
inductive Agree (R : σ → τ → Prop) (Q : ο → π → Prop) :
    Option (σ × List ο) → Option (τ × List π) → Prop
  | refused : Agree R Q none none
  | taken {s : σ} {t : τ} {os : List ο} {ps : List π} (hstate : R s t)
      (hobs : List.Forall₂ Q os ps) : Agree R Q (some (s, os)) (some (t, ps))

variable {R : σ → τ → Prop} {Q : ο → π → Prop}
  {step : σ → ι → Option (σ × List ο)} {step' : τ → ι → Option (τ × List π)}

/-- **Simulation.**  Machines that agree on every allowed input from related
states agree on every list of allowed inputs. -/
theorem execute_agree {G : ι → Prop}
    (hstep : ∀ s t i, R s t → G i → Agree R Q (step s i) (step' t i))
    {s : σ} {t : τ} (hstart : R s t) {is : List ι} (his : ∀ i ∈ is, G i) :
    Agree R Q (execute step s is) (execute step' t is) := by
  induction is generalizing s t with
  | nil => exact .taken hstart .nil
  | cons i is ih =>
      have hfirst := hstep s t i hstart (his i (by simp))
      have hrest : ∀ j ∈ is, G j := fun j hj => his j (List.mem_cons_of_mem i hj)
      unfold execute
      cases hs : step s i with
      | none =>
          cases ht : step' t i with
          | none => exact .refused
          | some q =>
              rw [hs, ht] at hfirst
              cases hfirst
      | some p =>
          cases ht : step' t i with
          | none =>
              rw [hs, ht] at hfirst
              cases hfirst
          | some q =>
              rw [hs, ht] at hfirst
              cases hfirst with
              | taken hstate hobs =>
                  have hlater := ih hstate hrest
                  simp only
                  -- both rest runs exist, or neither does
                  generalize execute step _ is = x at hlater ⊢
                  generalize execute step' _ is = y at hlater ⊢
                  cases hlater with
                  | refused => exact .refused
                  | taken hend hmore =>
                      exact .taken hend (List.rel_append hobs hmore)

theorem Agree.mono {R' : σ → τ → Prop} {Q' : ο → π → Prop}
    (hR : ∀ s t, R s t → R' s t) (hQ : ∀ o p, Q o p → Q' o p)
    {x : Option (σ × List ο)} {y : Option (τ × List π)} (h : Agree R Q x y) :
    Agree R' Q' x y := by
  cases h with
  | refused => exact .refused
  | taken hstate hobs =>
      exact .taken (hR _ _ hstate) (hobs.imp fun {o p} hQop => hQ o p hQop)

section Through

variable {υ ρ : Type*} {R' : υ → τ → Prop} {Q' : ρ → π → Prop}

theorem forall₂_through {os : List ο} {ps : List π} {rs : List ρ}
    (h : List.Forall₂ Q os ps) (h' : List.Forall₂ Q' rs ps) :
    List.Forall₂ (fun o r => ∃ p, Q o p ∧ Q' r p) os rs := by
  induction h generalizing rs with
  | nil =>
      cases h'
      exact .nil
  | cons hfirst _ ih =>
      cases h' with
      | cons hfirst' hrest' => exact .cons ⟨_, hfirst, hfirst'⟩ (ih hrest')

/-- Two machines that agree with a third one agree with each other. -/
theorem Agree.through {x : Option (σ × List ο)} {y : Option (τ × List π)}
    {z : Option (υ × List ρ)} (h : Agree R Q x y) (h' : Agree R' Q' z y) :
    Agree (fun s u => ∃ t, R s t ∧ R' u t) (fun o r => ∃ p, Q o p ∧ Q' r p)
      x z := by
  cases h with
  | refused =>
      cases h'
      exact .refused
  | taken hstate hobs =>
      cases h' with
      | taken hstate' hobs' =>
          exact .taken ⟨_, hstate, hstate'⟩ (forall₂_through hobs hobs')

end Through

/-- With equal observations, what is seen of the end states through functions
that agree on related states is equal too. -/
theorem Agree.map_eq {α : Type*} {f : σ → α} {g : τ → α}
    (hfg : ∀ s t, R s t → f s = g t) {x : Option (σ × List ο)}
    {y : Option (τ × List ο)} (h : Agree R Eq x y) :
    x.map (fun p => (f p.1, p.2)) = y.map (fun q => (g q.1, q.2)) := by
  cases h with
  | refused => rfl
  | taken hstate hobs =>
      rw [List.forall₂_eq_eq_eq] at hobs
      subst hobs
      simp [hfg _ _ hstate]

theorem Agree.map_snd_eq {x : Option (σ × List ο)} {y : Option (τ × List ο)}
    (h : Agree R Eq x y) : x.map Prod.snd = y.map Prod.snd := by
  have hobs := congrArg (Option.map Prod.snd)
    (h.map_eq (f := fun _ => ()) (g := fun _ => ()) (fun _ _ _ => rfl))
  simpa [Option.map_map, Function.comp_def] using hobs

end Foundation
end Rush
