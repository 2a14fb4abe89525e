import Mathlib.Data.List.Basic
import Mathlib.Tactic.Common

/-!
# Executions of partial step functions

A machine is given by a step function `σ → ι → Option (σ × List ο)`.  The
input carries every choice that the machine does not make itself (which branch
is scheduled, what a callee answers); `none` means that the input is not
possible in the state.  A step emits a list of observations, and an execution
concatenates them, so that a history property is a property of the observed
list and needs no ghost field in the state.
-/

namespace Rush
namespace Foundation

variable {σ ι ο : Type*}

/-- Run a list of inputs, collecting the observations. -/
def execute (step : σ → ι → Option (σ × List ο)) :
    σ → List ι → Option (σ × List ο)
  | s, [] => some (s, [])
  | s, i :: is =>
      match step s i with
      | none => none
      | some (t, o) =>
          match execute step t is with
          | none => none
          | some (u, os) => some (u, o ++ os)

variable {step : σ → ι → Option (σ × List ο)}

@[simp] theorem execute_nil (s : σ) : execute step s [] = some (s, []) := rfl

/-- One step followed by the rest of the execution. -/
theorem execute_cons_eq_some {s : σ} {i : ι} {is : List ι} {u : σ}
    {all : List ο} :
    execute step s (i :: is) = some (u, all) ↔
      ∃ t o os, step s i = some (t, o) ∧
        execute step t is = some (u, os) ∧ all = o ++ os := by
  constructor
  · intro h
    cases hstep : step s i with
    | none => simp [execute, hstep] at h
    | some p =>
        obtain ⟨t, o⟩ := p
        cases hrest : execute step t is with
        | none => simp [execute, hstep, hrest] at h
        | some q =>
            obtain ⟨u', os⟩ := q
            simp only [execute, hstep, hrest, Option.some.injEq,
              Prod.mk.injEq] at h
            obtain ⟨rfl, rfl⟩ := h
            exact ⟨t, o, os, rfl, hrest, rfl⟩
  · rintro ⟨t, o, os, hstep, hrest, rfl⟩
    simp [execute, hstep, hrest]

theorem execute_single {s t : σ} {i : ι} {o : List ο}
    (h : step s i = some (t, o)) : execute step s [i] = some (t, o) :=
  execute_cons_eq_some.mpr ⟨t, o, [], h, rfl, by simp⟩

/-- An execution of `is ++ js` is an execution of `is` continued by `js`. -/
theorem execute_append {s u : σ} {is js : List ι} {all : List ο} :
    execute step s (is ++ js) = some (u, all) ↔
      ∃ t os ps, execute step s is = some (t, os) ∧
        execute step t js = some (u, ps) ∧ all = os ++ ps := by
  induction is generalizing s all with
  | nil => simp
  | cons i is ih =>
      rw [List.cons_append, execute_cons_eq_some]
      constructor
      · rintro ⟨t, o, os, hstep, hrest, rfl⟩
        obtain ⟨t', os', ps, hfirst, hsecond, rfl⟩ := ih.mp hrest
        exact ⟨t', o ++ os', ps,
          execute_cons_eq_some.mpr ⟨t, o, os', hstep, hfirst, rfl⟩,
          hsecond, by simp⟩
      · rintro ⟨t', os', ps, hfirst, hsecond, rfl⟩
        obtain ⟨t, o, os, hstep, hrest, rfl⟩ := execute_cons_eq_some.mp hfirst
        exact ⟨t, o, os ++ ps, hstep, ih.mpr ⟨t', os, ps, hrest, hsecond, rfl⟩,
          by simp⟩

/-- Every step of the execution of `is` from `s` meets the guard `G`. -/
def StepsMeet (step : σ → ι → Option (σ × List ο)) (G : σ → ι → Prop) :
    σ → List ι → Prop
  | _, [] => True
  | s, i :: is =>
      G s i ∧ ∀ t o, step s i = some (t, o) → StepsMeet step G t is

/-- The unrestricted guard is met by every execution. -/
theorem stepsMeet_true (s : σ) (is : List ι) :
    StepsMeet step (fun _ _ => True) s is := by
  induction is generalizing s with
  | nil => trivial
  | cons i is ih => exact ⟨trivial, fun t _ _ => ih t⟩

theorem StepsMeet.mono {G H : σ → ι → Prop} (himp : ∀ s i, G s i → H s i)
    {s : σ} {is : List ι} (h : StepsMeet step G s is) : StepsMeet step H s is := by
  induction is generalizing s with
  | nil => trivial
  | cons i is ih =>
      exact ⟨himp s i h.1, fun t o hstep => ih (h.2 t o hstep)⟩

/-- The guard along a step and along what follows it. -/
theorem stepsMeet_cons {G : σ → ι → Prop} {s t : σ} {i : ι} {is : List ι}
    {o : List ο} (hstep : step s i = some (t, o)) :
    StepsMeet step G s (i :: is) ↔ G s i ∧ StepsMeet step G t is := by
  constructor
  · exact fun h => ⟨h.1, h.2 t o hstep⟩
  · rintro ⟨hguard, hrest⟩
    refine ⟨hguard, fun u p h => ?_⟩
    obtain ⟨rfl, rfl⟩ : t = u ∧ o = p := by simpa [hstep] using h
    exact hrest

/-- A guard that can be decided is decided along the execution. -/
instance decidableStepsMeet {G : σ → ι → Prop} [∀ s i, Decidable (G s i)] :
    (s : σ) → (is : List ι) → Decidable (StepsMeet step G s is)
  | _, [] => isTrue trivial
  | s, i :: is =>
      match hstep : step s i with
      | none => decidable_of_iff (G s i) (by simp [StepsMeet, hstep])
      | some (t, o) =>
          have := decidableStepsMeet (G := G) t is
          decidable_of_iff _ (stepsMeet_cons hstep).symm

/-- A guard that some inputs meet in every state. -/
theorem stepsMeet_of_forall {G : σ → ι → Prop} {is : List ι}
    (h : ∀ i ∈ is, ∀ s, G s i) (s : σ) : StepsMeet step G s is := by
  induction is generalizing s with
  | nil => trivial
  | cons i is ih =>
      exact ⟨h i (by simp) s,
        fun t _ _ => ih (fun j hj => h j (List.mem_cons_of_mem i hj)) t⟩

theorem stepsMeet_and {G H : σ → ι → Prop} {s : σ} {is : List ι} :
    StepsMeet step (fun s i => G s i ∧ H s i) s is ↔
      StepsMeet step G s is ∧ StepsMeet step H s is := by
  induction is generalizing s with
  | nil => exact ⟨fun _ => ⟨trivial, trivial⟩, fun _ => trivial⟩
  | cons i is ih =>
      constructor
      · intro h
        exact ⟨⟨h.1.1, fun t o ht => (ih.mp (h.2 t o ht)).1⟩,
          ⟨h.1.2, fun t o ht => (ih.mp (h.2 t o ht)).2⟩⟩
      · intro h
        exact ⟨⟨h.1.1, h.2.1⟩,
          fun t o ht => ih.mpr ⟨h.1.2 t o ht, h.2.2 t o ht⟩⟩

/-- Guards that agree on the states of an invariant, under a third one that
keeps it, are met by the same executions. -/
theorem stepsMeet_congr {I : σ → Prop} {G G' H : σ → ι → Prop}
    (hinv : ∀ s i t o, I s → H s i → step s i = some (t, o) → I t)
    (hiff : ∀ s i, I s → H s i → (G s i ↔ G' s i))
    {s : σ} {is : List ι} (hstart : I s) (hmeet : StepsMeet step H s is) :
    StepsMeet step G s is ↔ StepsMeet step G' s is := by
  induction is generalizing s with
  | nil => exact Iff.rfl
  | cons i is ih =>
      have hfirst := hiff s i hstart hmeet.1
      have hrest : ∀ t o, step s i = some (t, o) →
          (StepsMeet step G t is ↔ StepsMeet step G' t is) :=
        fun t o h => ih (hinv s i t o hstart hmeet.1 h) (hmeet.2 t o h)
      constructor
      · intro h
        exact ⟨hfirst.mp h.1, fun t o ht => (hrest t o ht).mp (h.2 t o ht)⟩
      · intro h
        exact ⟨hfirst.mpr h.1, fun t o ht => (hrest t o ht).mpr (h.2 t o ht)⟩

/-- The guard along `is ++ js`: along `is`, and along `js` from where `is`
ends. -/
theorem stepsMeet_append {G : σ → ι → Prop} {s : σ} {is js : List ι} :
    StepsMeet step G s (is ++ js) ↔
      StepsMeet step G s is ∧
        ∀ t os, execute step s is = some (t, os) → StepsMeet step G t js := by
  induction is generalizing s with
  | nil =>
      constructor
      · intro h
        refine ⟨trivial, fun t os heq => ?_⟩
        cases heq
        exact h
      · exact fun h => h.2 s [] rfl
  | cons i is ih =>
      constructor
      · rintro ⟨hguard, hrest⟩
        refine ⟨⟨hguard, fun t o hstep => (ih.mp (hrest t o hstep)).1⟩, ?_⟩
        intro u os hrun
        obtain ⟨t, o, os', hstep, hexec, -⟩ := execute_cons_eq_some.mp hrun
        exact (ih.mp (hrest t o hstep)).2 u os' hexec
      · rintro ⟨⟨hguard, hfirst⟩, hsecond⟩
        refine ⟨hguard, fun t o hstep => ih.mpr ⟨hfirst t o hstep, ?_⟩⟩
        intro u os hexec
        exact hsecond u (o ++ os)
          (execute_cons_eq_some.mpr ⟨t, o, os, hstep, hexec, rfl⟩)

/-- **History induction.**  A predicate of the state and of everything observed
so far that each guarded step preserves holds at the end of every execution
whose steps meet the guard. -/
theorem execute_history {G : σ → ι → Prop} {P : σ → List ο → Prop}
    (hstep : ∀ s seen i t o, P s seen → G s i → step s i = some (t, o) →
      P t (seen ++ o))
    {s u : σ} {is : List ι} {all : List ο} (seen : List ο) (hstart : P s seen)
    (hmeet : StepsMeet step G s is)
    (hrun : execute step s is = some (u, all)) : P u (seen ++ all) := by
  induction is generalizing s seen all with
  | nil =>
      simp only [execute_nil, Option.some.injEq, Prod.mk.injEq] at hrun
      obtain ⟨rfl, rfl⟩ := hrun
      simpa using hstart
  | cons i is ih =>
      obtain ⟨t, o, os, hfirst, hrest, rfl⟩ := execute_cons_eq_some.mp hrun
      have hnext : P t (seen ++ o) := hstep s seen i t o hstart hmeet.1 hfirst
      have hend := ih (seen ++ o) hnext (hmeet.2 t o hfirst) hrest
      rwa [List.append_assoc] at hend

/-- History induction that also sees the inputs so far. -/
theorem execute_inputs_history {G : σ → ι → Prop}
    {P : List ι → σ → List ο → Prop}
    (hstep : ∀ before s seen i t o, P before s seen → G s i →
      step s i = some (t, o) → P (before ++ [i]) t (seen ++ o))
    {s u : σ} {is : List ι} {all : List ο} (before : List ι) (seen : List ο)
    (hstart : P before s seen) (hmeet : StepsMeet step G s is)
    (hrun : execute step s is = some (u, all)) :
    P (before ++ is) u (seen ++ all) := by
  induction is generalizing s before seen all with
  | nil =>
      cases hrun
      simpa using hstart
  | cons i is ih =>
      obtain ⟨t, o, os, hfirst, hrest, rfl⟩ := execute_cons_eq_some.mp hrun
      have hnext := hstep before s seen i t o hstart hmeet.1 hfirst
      have hend := ih (before ++ [i]) (seen ++ o) hnext (hmeet.2 t o hfirst) hrest
      simpa using hend

/-- History induction where each step may use that its state was reached, and
with it what is already known of every execution. -/
theorem execute_history_of_run {G : σ → ι → Prop} {P : σ → List ο → Prop}
    {s u : σ}
    (hstep : ∀ before v seen i t o,
      execute step s before = some (v, seen) → P v seen → G v i →
        step v i = some (t, o) → P t (seen ++ o))
    {is : List ι} {all : List ο} (hstart : P s [])
    (hmeet : StepsMeet step G s is)
    (hrun : execute step s is = some (u, all)) : P u all := by
  have hboth := execute_history
    (P := fun v seen =>
      (∃ before, execute step s before = some (v, seen)) ∧ P v seen)
    (by
      rintro v seen i t o ⟨⟨before, hbefore⟩, hP⟩ hg h
      refine ⟨⟨before ++ [i], ?_⟩, hstep before v seen i t o hbefore hP hg h⟩
      exact execute_append.mpr
        ⟨v, seen, o, hbefore, execute_single h, rfl⟩)
    [] ⟨⟨[], rfl⟩, hstart⟩ hmeet hrun
  exact hboth.2

/-- **Invariant induction** for guarded executions. -/
theorem execute_invariant_of_guard {G : σ → ι → Prop} {I : σ → Prop}
    (hstep : ∀ s i t o, I s → G s i → step s i = some (t, o) → I t)
    {s u : σ} {is : List ι} {all : List ο} (hstart : I s)
    (hmeet : StepsMeet step G s is)
    (hrun : execute step s is = some (u, all)) : I u :=
  execute_history (P := fun s _ => I s)
    (fun s _ i t o hI hg h => hstep s i t o hI hg h) [] hstart hmeet hrun

/-- **Invariant induction**: what every step preserves, every execution does. -/
theorem execute_invariant {I : σ → Prop}
    (hstep : ∀ s i t o, I s → step s i = some (t, o) → I t)
    {s u : σ} {is : List ι} {all : List ο} (hstart : I s)
    (hrun : execute step s is = some (u, all)) : I u :=
  execute_invariant_of_guard (G := fun _ _ => True)
    (fun s i t o hI _ h => hstep s i t o hI h) hstart (stepsMeet_true s is) hrun

/-- If, under an invariant, no step emits an observation outside `Q`, then no
execution does. -/
theorem execute_observations {I : σ → Prop} {Q : ο → Prop}
    (hstep : ∀ s i t o, I s → step s i = some (t, o) → I t ∧ ∀ x ∈ o, Q x)
    {s u : σ} {is : List ι} {all : List ο} (hstart : I s)
    (hrun : execute step s is = some (u, all)) : ∀ x ∈ all, Q x := by
  have hboth := execute_history (G := fun _ _ => True)
    (P := fun s seen => I s ∧ ∀ x ∈ seen, Q x)
    (by
      rintro s seen i t o ⟨hI, hseen⟩ - h
      obtain ⟨hI', ho⟩ := hstep s i t o hI h
      refine ⟨hI', fun x hx => ?_⟩
      rcases List.mem_append.mp hx with hx | hx
      · exact hseen x hx
      · exact ho x hx)
    [] ⟨hstart, by simp⟩ (stepsMeet_true s is) hrun
  simpa using hboth.2

/-- A trap: once entered it is not left, and from outside it is entered by just
the steps that miss a guard.  An execution keeps the invariant and ends in the
trap if and only if it starts there or one of its steps misses the guard.  The
trap may look at what was observed, and the steps may be those with observations
in `Q` only. -/
theorem execute_history_trap_iff {I D : σ → List ο → Prop} {G : σ → ι → Prop}
    {Q : ο → Prop}
    (hstep : ∀ s seen i t o, I s seen → step s i = some (t, o) →
      (∀ x ∈ o, Q x) → I t (seen ++ o) ∧ (D t (seen ++ o) ↔ D s seen ∨ ¬ G s i))
    {s u : σ} {is : List ι} {all : List ο} (seen : List ο) (hstart : I s seen)
    (hrun : execute step s is = some (u, all)) (hall : ∀ x ∈ all, Q x) :
    I u (seen ++ all) ∧
      (D u (seen ++ all) ↔ D s seen ∨ ¬ StepsMeet step G s is) := by
  induction is generalizing s seen all with
  | nil =>
      cases hrun
      rw [List.append_nil]
      exact ⟨hstart, Or.inl, fun h => h.elim id fun hmiss => absurd trivial hmiss⟩
  | cons i is ih =>
      obtain ⟨t, o, os, hfirst, hrest, rfl⟩ := execute_cons_eq_some.mp hrun
      have hQ : ∀ x ∈ o, Q x := fun x hx => hall x (List.mem_append_left os hx)
      obtain ⟨hI, hD⟩ := hstep s seen i t o hstart hfirst hQ
      obtain ⟨hlast, hlater⟩ := ih (seen ++ o) hI hrest
        fun x hx => hall x (List.mem_append_right o hx)
      rw [stepsMeet_cons hfirst, ← List.append_assoc, hlater, hD, or_assoc,
        not_and_or]
      exact ⟨hlast, Iff.rfl⟩

/-- An execution that starts outside the trap ends outside if and only if all
its steps meet the guard. -/
theorem execute_history_avoids_iff {I D : σ → List ο → Prop} {G : σ → ι → Prop}
    (hstep : ∀ s seen i t o, I s seen → step s i = some (t, o) →
      I t (seen ++ o) ∧ (D t (seen ++ o) ↔ D s seen ∨ ¬ G s i))
    {s u : σ} {is : List ι} {all : List ο} (seen : List ο) (hstart : I s seen)
    (hout : ¬ D s seen) (hrun : execute step s is = some (u, all)) :
    ¬ D u (seen ++ all) ↔ StepsMeet step G s is := by
  obtain ⟨-, htrap⟩ := execute_history_trap_iff (Q := fun _ => True)
    (fun s seen i t o hI h _ => hstep s seen i t o hI h) seen hstart hrun
    fun _ _ => trivial
  rw [htrap, not_or, not_not]
  exact and_iff_right hout

/-- The same for a trap that is a set of states. -/
theorem execute_avoids_iff {I D : σ → Prop} {G : σ → ι → Prop}
    (hstep : ∀ s i t o, I s → step s i = some (t, o) →
      I t ∧ (D t ↔ D s ∨ ¬ G s i))
    {s u : σ} {is : List ι} {all : List ο} (hstart : I s) (hout : ¬ D s)
    (hrun : execute step s is = some (u, all)) :
    ¬ D u ↔ StepsMeet step G s is :=
  execute_history_avoids_iff (I := fun s _ => I s) (D := fun s _ => D s)
    (fun s _ i t o hI h => hstep s i t o hI h) [] hstart hout hrun

/-- A property holds in every state that an execution reaches if and only if all
its steps meet the guard, where an invariant of guarded steps gives the property
and a step that misses the guard breaks it at once. -/
theorem execute_reached_iff {I P : σ → List ο → Prop} {G : σ → ι → Prop}
    (hstep : ∀ s seen i t o, I s seen → step s i = some (t, o) →
      (G s i → I t (seen ++ o)) ∧ (P t (seen ++ o) → G s i))
    (hholds : ∀ s seen, I s seen → P s seen)
    {s u : σ} {is : List ι} {all : List ο} (seen : List ο) (hstart : I s seen)
    (hrun : execute step s is = some (u, all)) :
    (∀ before after t os, is = before ++ after →
        execute step s before = some (t, os) → P t (seen ++ os)) ↔
      StepsMeet step G s is := by
  constructor
  · intro hreached
    induction is generalizing s seen all with
    | nil => trivial
    | cons i is ih =>
        obtain ⟨t, o, os, hfirst, hrest, rfl⟩ := execute_cons_eq_some.mp hrun
        obtain ⟨hkeeps, hbreaks⟩ := hstep s seen i t o hstart hfirst
        have hguard := hbreaks (hreached [i] is t o rfl (execute_single hfirst))
        refine (stepsMeet_cons hfirst).mpr ⟨hguard, ?_⟩
        refine ih (seen ++ o) (hkeeps hguard) hrest ?_
        intro before after v ps happend hbefore
        rw [List.append_assoc]
        refine hreached (i :: before) after v (o ++ ps) (by rw [happend]; rfl) ?_
        exact execute_cons_eq_some.mpr ⟨t, o, ps, hfirst, hbefore, rfl⟩
  · intro hmeet before after t os happend hbefore
    rw [happend] at hmeet
    refine hholds t (seen ++ os) ?_
    exact execute_history (G := G)
      (fun s seen i t o hI hguard h => (hstep s seen i t o hI h).1 hguard)
      seen hstart (stepsMeet_append.mp hmeet).1 hbefore

section Watched

variable {π : Type*} (step) (watch : σ → ι → List π)

/-- The same machine, with other observations of its steps. -/
def watched (s : σ) (i : ι) : Option (σ × List π) :=
  (step s i).map fun p => (p.1, watch s i)

variable {step watch}

theorem watched_eq_some {s t : σ} {i : ι} {ps : List π} :
    watched step watch s i = some (t, ps) ↔
      (∃ os, step s i = some (t, os)) ∧ ps = watch s i := by
  unfold watched
  cases step s i with
  | none => simp
  | some p =>
      obtain ⟨u, os⟩ := p
      simp only [Option.map_some, Option.some.injEq, Prod.mk.injEq]
      constructor
      · intro h
        exact ⟨⟨os, h.1, rfl⟩, h.2.symm⟩
      · intro h
        obtain ⟨⟨_, hu, -⟩, hps⟩ := h
        exact ⟨hu, hps.symm⟩

/-- Watching a machine changes neither its executions nor where they end. -/
theorem execute_watched_iff {s t : σ} {is : List ι} :
    (∃ ps, execute (watched step watch) s is = some (t, ps)) ↔
      ∃ os, execute step s is = some (t, os) := by
  induction is generalizing s with
  | nil => simp
  | cons i is ih =>
      constructor
      · intro h
        obtain ⟨ps, hrun⟩ := h
        obtain ⟨u, _, rest, hfirst, hrest, -⟩ := execute_cons_eq_some.mp hrun
        obtain ⟨⟨os, hstep⟩, -⟩ := watched_eq_some.mp hfirst
        obtain ⟨os', hlater⟩ := ih.mp ⟨rest, hrest⟩
        exact ⟨os ++ os', execute_cons_eq_some.mpr
          ⟨u, os, os', hstep, hlater, rfl⟩⟩
      · intro h
        obtain ⟨os, hrun⟩ := h
        obtain ⟨u, o, os', hstep, hrest, -⟩ := execute_cons_eq_some.mp hrun
        obtain ⟨ps, hlater⟩ := ih.mpr ⟨os', hrest⟩
        have hfirst : watched step watch s i = some (u, watch s i) :=
          watched_eq_some.mpr ⟨⟨o, hstep⟩, rfl⟩
        exact ⟨watch s i ++ ps, execute_cons_eq_some.mpr
          ⟨u, watch s i, ps, hfirst, hlater, rfl⟩⟩

end Watched

end Foundation
end Rush
