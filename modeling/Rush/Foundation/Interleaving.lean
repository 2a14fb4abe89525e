import Rush.Foundation.Execution

/-!
# One component in an interleaved execution

A machine has a component: a view of its state with steps of its own.  When
every input is either one of the component, and then a step of the component,
or leaves the view as it is, an execution of the machine contains an execution
of the component on its own inputs.
-/

namespace Rush
namespace Foundation

variable {σ τ ι κ ο π : Type*}

/-- A component: its view, its inputs and observations, and its steps. -/
structure Component (σ τ ι κ ο π : Type*) where
  view : σ → τ
  input : ι → Option κ
  observation : ο → Option π
  step : τ → κ → Option (τ × List π)

namespace Component

variable (c : Component σ τ ι κ ο π)

/-- What one step of the machine is for the component. -/
def Follows (s : σ) (i : ι) (t : σ) (os : List ο) : Prop :=
  match c.input i with
  | some k =>
      c.step (c.view s) k = some (c.view t, os.filterMap c.observation)
  | none => c.view t = c.view s ∧ os.filterMap c.observation = []

/-- **Projection.**  An execution of the machine is one of the component. -/
theorem execute_project {step : σ → ι → Option (σ × List ο)} {G : ι → Prop}
    (hstep : ∀ s i t os, G i → step s i = some (t, os) → c.Follows s i t os)
    {s t : σ} {is : List ι} {os : List ο} (his : ∀ i ∈ is, G i)
    (hrun : execute step s is = some (t, os)) :
    execute c.step (c.view s) (is.filterMap c.input) =
      some (c.view t, os.filterMap c.observation) := by
  induction is generalizing s os with
  | nil =>
      cases hrun
      rfl
  | cons i is ih =>
      obtain ⟨u, first, rest, hfirst, hrest, rfl⟩ := execute_cons_eq_some.mp hrun
      have hfollows := hstep s i u first (his i (by simp)) hfirst
      have hlater := ih (fun j hj => his j (List.mem_cons_of_mem i hj)) hrest
      unfold Follows at hfollows
      rw [List.filterMap_append]
      cases hinput : c.input i with
      | none =>
          -- a step of another component is not seen
          rw [hinput] at hfollows
          obtain ⟨hview, hsilent⟩ := hfollows
          rw [List.filterMap_cons_none hinput, hsilent, ← hview]
          exact hlater
      | some k =>
          rw [hinput] at hfollows
          rw [List.filterMap_cons_some hinput]
          exact execute_cons_eq_some.mpr ⟨_, _, _, hfollows, hlater, rfl⟩

end Component

end Foundation
end Rush
