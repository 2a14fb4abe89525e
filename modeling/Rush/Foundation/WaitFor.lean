import Rush.Foundation.Execution
import Mathlib.Logic.Relation

/-!
# Who waits for whom

A relation says which party of a machine waits for which.  If everyone waits for
at most one party, and only along the edges of a forest or for itself, then who
follows the waits comes to a party that waits for nobody, or to two that wait
for each other.  If a party that waits does not move, and only a step of the
awaited one ends the wait, then all who are led to such a pair wait forever.
-/

namespace Rush
namespace Foundation

open Relation

section Forest

variable {α : Type*} {W child : α → α → Prop} {x y z : α}

/-- The waits lead to two parties that wait for each other, or to one that waits
for itself. -/
def LeadsToCycle (W : α → α → Prop) (x : α) : Prop :=
  ∃ y z, ReflTransGen W x y ∧ W y z ∧ W z y

/-- Waits along the edges of a forest of bounded height. -/
structure WaitForest (W child : α → α → Prop) : Prop where
  unique : Relator.RightUnique W
  edge : ∀ x y, W x y → y = x ∨ child x y ∨ child y x
  parent : ∀ p q c, child p c → child q c → p = q
  height : ∃ (rank : α → ℕ) (n : ℕ), ∀ p c, child p c → rank p < rank c ∧ rank c < n

theorem LeadsToCycle.head (hxy : W x y) (hy : LeadsToCycle W y) :
    LeadsToCycle W x := by
  obtain ⟨u, v, hu, huv, hvu⟩ := hy
  exact ⟨u, v, hu.head hxy, huv, hvu⟩

/-- Two parties that wait for each other wait for nobody else. -/
theorem eq_or_eq_of_cycle (hunique : Relator.RightUnique W) (hyz : W y z)
    (hzy : W z y) {u : α} (hu : ReflTransGen W y u) : u = y ∨ u = z := by
  induction hu with
  | refl => exact Or.inl rfl
  | tail _ hedge ih =>
      rcases ih with rfl | rfl
      · exact Or.inr (hunique hedge hyz)
      · exact Or.inl (hunique hedge hzy)

/-- Everyone on the way to a cycle waits. -/
theorem LeadsToCycle.waits (hunique : Relator.RightUnique W)
    (hx : LeadsToCycle W x) (hy : ReflTransGen W x y) : ∃ z, W y z := by
  obtain ⟨u, v, hu, huv, hvu⟩ := hx
  rcases ReflTransGen.total_of_right_unique hunique hy hu with hyu | huy
  · rcases hyu.cases_head with rfl | ⟨z, hyz, -⟩
    · exact ⟨v, huv⟩
    · exact ⟨z, hyz⟩
  · rcases eq_or_eq_of_cycle hunique huv hvu huy with rfl | rfl
    · exact ⟨v, huv⟩
    · exact ⟨u, hvu⟩

namespace WaitForest

/-- Downwards: the height is bounded, and a child that waits for its parent makes
a cycle. -/
theorem follow_down (hforest : WaitForest W child)
    (hup : ∀ p, child p x → ¬ W x p) :
    (∃ y, ReflTransGen W x y ∧ ∀ z, ¬ W y z) ∨ LeadsToCycle W x := by
  obtain ⟨rank, n, hrank⟩ := hforest.height
  generalize hk : n - rank x = k
  induction k using Nat.strongRecOn generalizing x with
  | ind k ih =>
      by_cases hend : ∃ y, W x y
      · obtain ⟨y, hxy⟩ := hend
        rcases hforest.edge x y hxy with rfl | hdown | habove
        · exact Or.inr ⟨y, y, .refl, hxy, hxy⟩
        · by_cases hyx : W y x
          · exact Or.inr ⟨x, y, .refl, hxy, hyx⟩
          · have hlower := hrank x y hdown
            have hup' : ∀ p, child p y → ¬ W y p := by
              intro p hp
              rwa [hforest.parent p x y hp hdown]
            rcases ih (n - rank y) (by omega) hup' rfl with
              ⟨u, hu, hstop⟩ | hcycle
            · exact Or.inl ⟨u, hu.head hxy, hstop⟩
            · exact Or.inr (hcycle.head hxy)
        · exact absurd hxy (hup y habove)
      · exact Or.inl ⟨x, .refl, fun z hz => hend ⟨z, hz⟩⟩

/-- Following the waits comes to an end, or to a cycle. -/
theorem follow (hforest : WaitForest W child) (x : α) :
    (∃ y, ReflTransGen W x y ∧ ∀ z, ¬ W y z) ∨ LeadsToCycle W x := by
  obtain ⟨rank, n, hrank⟩ := hforest.height
  generalize hk : rank x = k
  induction k using Nat.strongRecOn generalizing x with
  | ind k ih =>
      by_cases hup : ∃ p, child p x ∧ W x p
      · obtain ⟨p, hp, hxp⟩ := hup
        have hlower := hrank p x hp
        rcases ih (rank p) (by omega) p rfl with ⟨u, hu, hstop⟩ | hcycle
        · exact Or.inl ⟨u, hu.head hxp, hstop⟩
        · exact Or.inr (hcycle.head hxp)
      · exact hforest.follow_down fun p hp hxp => hup ⟨p, hp, hxp⟩

/-- It comes to an end if and only if there is no cycle on the way. -/
theorem ends_iff (hforest : WaitForest W child) (x : α) :
    (∃ y, ReflTransGen W x y ∧ ∀ z, ¬ W y z) ↔ ¬ LeadsToCycle W x := by
  constructor
  · rintro ⟨y, hy, hstop⟩ hcycle
    obtain ⟨z, hz⟩ := hcycle.waits hforest.unique hy
    exact hstop z hz
  · exact (hforest.follow x).resolve_right

/-- The end of the waits is one. -/
theorem end_unique (hforest : WaitForest W child) (hy : ReflTransGen W x y)
    (hz : ReflTransGen W x z) (hystop : ∀ u, ¬ W y u) (hzstop : ∀ u, ¬ W z u) :
    y = z := by
  rcases ReflTransGen.total_of_right_unique hforest.unique hy hz with h | h
  · rcases h.cases_head with rfl | ⟨u, hu, -⟩
    · rfl
    · exact absurd hu (hystop u)
  · rcases h.cases_head with rfl | ⟨u, hu, -⟩
    · rfl
    · exact absurd hu (hzstop u)

end WaitForest

end Forest

section Steps

variable {σ ι ο α : Type*} {step : σ → ι → Option (σ × List ο)} {I : σ → Prop}
  {W : σ → α → α → Prop} {moves : α → ι → Prop}

/-- In the states of `I` a party that waits does not move, and its wait is ended
by the awaited party only. -/
structure Waits (step : σ → ι → Option (σ × List ο)) (I : σ → Prop)
    (W : σ → α → α → Prop) (moves : α → ι → Prop) : Prop where
  blocks : ∀ s x y i, I s → W s x y → moves x i → step s i = none
  keeps : ∀ s t x y i o, I s → W s x y → step s i = some (t, o) → ¬ moves y i →
    W t x y

/-- Who waits for each other in a set keeps waiting. -/
theorem Waits.forever (hwaits : Waits step I W moves)
    (hkeeps : ∀ s i t o, I s → step s i = some (t, o) → I t) {S : Set α}
    {s t : σ} {is : List ι} {os : List ο} (hs : I s)
    (hclosed : ∀ x ∈ S, ∃ y ∈ S, W s x y)
    (hrun : execute step s is = some (t, os)) :
    ∀ x ∈ S, ∀ y ∈ S, W s x y → W t x y := by
  refine (execute_invariant
    (I := fun u => I u ∧ ∀ x ∈ S, ∀ y ∈ S, W s x y → W u x y) ?_
    ⟨hs, fun _ _ _ _ h => h⟩ hrun).2
  rintro u i v o ⟨hu, hall⟩ hstep
  refine ⟨hkeeps u i v o hu hstep, fun x hx y hy hxy => ?_⟩
  refine hwaits.keeps u v x y i o hu (hall x hx y hy hxy) hstep fun hmoves => ?_
  -- the awaited party waits itself
  obtain ⟨z, hz, hyz⟩ := hclosed y hy
  have hnone := hwaits.blocks u y z i hu (hall y hy z hz hyz) hmoves
  rw [hnone] at hstep
  contradiction

/-- Who is led to a cycle waits forever, and does not move again. -/
theorem Waits.cycle_forever (hwaits : Waits step I W moves)
    (hkeeps : ∀ s i t o, I s → step s i = some (t, o) → I t) {s t : σ}
    {is : List ι} {os : List ο} {x y : α} (hs : I s)
    (hunique : Relator.RightUnique (W s)) (hcycle : LeadsToCycle (W s) x)
    (hy : ReflTransGen (W s) x y) (hrun : execute step s is = some (t, os)) :
    (∀ z, W s y z → W t y z) ∧ ∀ i, moves y i → step t i = none := by
  have hclosed : ∀ u ∈ {u | ReflTransGen (W s) x u},
      ∃ v ∈ {v | ReflTransGen (W s) x v}, W s u v := by
    intro u hu
    obtain ⟨v, huv⟩ := hcycle.waits hunique hu
    exact ⟨v, ReflTransGen.tail hu huv, huv⟩
  have hforever := hwaits.forever hkeeps hs hclosed hrun
  have ht : I t := execute_invariant hkeeps hs hrun
  refine ⟨fun z hyz => hforever y hy z (ReflTransGen.tail hy hyz) hyz, ?_⟩
  intro i hmoves
  obtain ⟨z, hz, hyz⟩ := hclosed y hy
  exact hwaits.blocks t y z i ht (hforever y hy z hz hyz) hmoves

end Steps

end Foundation
end Rush
