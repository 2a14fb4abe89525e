import Rush.Actor.Registry

/-!
# Whose entry a runner removes

A runner removes its path before it acknowledges a stop and once more when it
is terminated, and removal is by path only.  A creation whose insertion falls
between the two loses its entry to the old runner.  As long as every insertion
waits for the last removal of the runners at its path, entries are only ever
removed by their own runner.
-/

namespace Rush
namespace Actor

open Foundation

variable {M Ev : Type}

namespace Runner

/-- The runner has removed its path for the last time. -/
def LeftRegistry (r : Runner M Ev) : Prop :=
  match r.phase with
  | .terminating => True
  | .ended => True
  | _ => False

variable {cfg : RunnerConfig} {r r' : Runner M Ev} {o : List (Obs M Ev)}

theorem LeftRegistry.step (h : r.LeftRegistry) (ht : Transition cfg r r' o) :
    r'.LeftRegistry ∧ .removeActor ∉ o := by
  unfold LeftRegistry at *
  cases ht with
  | arrives => exact ⟨h, by simp⟩
  | operates hook op r' hphase hop => simp [hphase] at h
  | ends hphase =>
      refine ⟨trivial, ?_⟩
      split <;> simp
  | _ => simp_all

theorem leftRegistry_origin (h : r'.LeftRegistry) (ht : Transition cfg r r' o) :
    r.LeftRegistry ∨ .removeActor ∈ o := by
  unfold LeftRegistry at *
  cases ht with
  | arrives => exact Or.inl h
  | operates hook op r' hphase hop =>
      obtain ⟨hphase', -⟩ := operate_frame hop
      simp [hphase', hphase] at h
  | _ => simp_all

/-- A runner that has left the registry has removed its path. -/
theorem LeftRegistry.removed {inputs : List (Input M Ev)}
    {seen : List (Obs M Ev)} (h : r.LeftRegistry)
    (hrun : execute (Runner.step cfg) create inputs = some (r, seen)) :
    .removeActor ∈ seen := by
  refine execute_history (G := fun _ _ => True)
    (P := fun r seen => r.LeftRegistry → Obs.removeActor ∈ seen) ?_ []
    (by simp [LeftRegistry, create]) (stepsMeet_true _ inputs) hrun h
  intro s seen i t o hold _ hstep hleft
  rw [List.mem_append]
  exact (leftRegistry_origin hleft (step_transition hstep)).imp hold id

end Runner

namespace System

/-- The insertion of a call finds no runner at its path that has still to remove
it. -/
def InsertsAlone (s : System M Ev) : SystemInput M Ev → Prop
  | .insert call =>
      ∀ path cfg, s.creations call = .checked path cfg →
        ∀ other cfg' r, s.creations other = .running path cfg' r →
          r.LeftRegistry
  | _ => True

/-- One runner at most is at a path and has still to remove it. -/
def OneAtEachPath (s : System M Ev) : Prop :=
  ∀ path a cfg r b cfg' r', s.creations a = .running path cfg r →
    s.creations b = .running path cfg' r' → ¬ r.LeftRegistry →
      ¬ r'.LeftRegistry → a = b

/-- The steps of a run that keep to `InsertsAlone`, one after the other. -/
theorem not_leftRegistry_origin {s t : System M Ev} {i : SystemInput M Ev}
    {o : List (SystemObs M Ev)} {call : Nat} {path : ActorPath}
    {cfg : RunnerConfig} {r' : Runner M Ev} (ht : Transition s i t o)
    (hcall : t.creations call = .running path cfg r')
    (hleft : ¬ r'.LeftRegistry) :
    (i = .insert call ∧ s.creations call = .checked path cfg) ∨
      ∃ r, s.creations call = .running path cfg r ∧ ¬ r.LeftRegistry := by
  rcases running_origin ht hcall with
    ⟨hi, hchecked, -, -⟩ | ⟨r, input, os, -, hran, hstep, -⟩ | ⟨hkept, -⟩
  · exact Or.inl ⟨hi, hchecked⟩
  · refine Or.inr ⟨r, hran, fun h => hleft ?_⟩
    exact (h.step (Runner.step_transition hstep)).1
  · exact Or.inr ⟨r', hkept, hleft⟩

theorem OneAtEachPath.step {s t : System M Ev} {i : SystemInput M Ev}
    {o : List (SystemObs M Ev)} (hold : s.OneAtEachPath)
    (hguard : s.InsertsAlone i) (ht : Transition s i t o) : t.OneAtEachPath := by
  intro path a cfg r b cfg' r' ha hb hleftA hleftB
  rcases not_leftRegistry_origin ht ha hleftA with
    ⟨hi, hchecked⟩ | ⟨r₀, ha₀, hleft₀⟩
  · -- `a` is new: the guard says that `b` is not an old runner
    rcases not_leftRegistry_origin ht hb hleftB with
      ⟨hi', -⟩ | ⟨r₁, hb₁, hleft₁⟩
    · rw [hi] at hi'
      exact SystemInput.insert.inj hi'
    · subst hi
      exact absurd (hguard path cfg hchecked b cfg' r₁ hb₁) hleft₁
  · rcases not_leftRegistry_origin ht hb hleftB with
      ⟨hi', hchecked⟩ | ⟨r₁, hb₁, hleft₁⟩
    · subst hi'
      exact absurd (hguard path cfg' hchecked a cfg r₀ ha₀) hleft₀
    · exact hold path a cfg r₀ b cfg' r₁ ha₀ hb₁ hleft₀ hleft₁

/-- A runner that has not removed its path is the entry of the path. -/
def Registered (s : System M Ev) (seen : List (SystemObs M Ev)) : Prop :=
  ∀ call path cfg r, s.creations call = .running path cfg r →
    ¬ Removed call path seen → s.actors path = some call

section Reached

variable {s : System M Ev} {inputs : List (SystemInput M Ev)}
  {seen : List (SystemObs M Ev)}

/-- A runner that has not removed its path has not left the registry. -/
theorem not_leftRegistry_of_not_removed
    (hrun : execute step empty inputs = some (s, seen)) {call : Nat}
    {path : ActorPath} {cfg : RunnerConfig} {r : Runner M Ev}
    (hcall : s.creations call = .running path cfg r)
    (hnot : ¬ Removed call path seen) : ¬ r.LeftRegistry := by
  intro hleft
  obtain ⟨is, hexec⟩ := runner_of_execute hrun hcall
  exact hnot ((mem_observed_iff hrun hcall).mp (hleft.removed hexec))

theorem Registered.step {t : System M Ev} {i : SystemInput M Ev}
    {o : List (SystemObs M Ev)}
    (hrun : execute System.step empty inputs = some (s, seen))
    (hone : s.OneAtEachPath) (hold : Registered s seen)
    (hguard : s.InsertsAlone i) (ht : Transition s i t o) :
    Registered t (seen ++ o) := by
  intro call path cfg r' hcall hnot
  have hnotSeen : ¬ Removed call path seen := fun h =>
    hnot (List.mem_append_left o h)
  have hnotNow : .does call path .removeActor ∉ o := fun h =>
    hnot (List.mem_append_right seen h)
  have horigin : (i = .insert call ∧ s.creations call = .checked path cfg) ∨
      ∃ r, s.creations call = .running path cfg r := by
    rcases running_origin ht hcall with
      ⟨hi, hchecked, -, -⟩ | ⟨r, input, os, -, hran, -, -⟩ | ⟨hkept, -⟩
    · exact Or.inl ⟨hi, hchecked⟩
    · exact Or.inr ⟨r, hran⟩
    · exact Or.inr ⟨r', hkept⟩
  rcases horigin with ⟨rfl, hchecked⟩ | ⟨r, hran⟩
  · cases ht with
    | inserts _ other cfg' hid =>
        obtain ⟨rfl, rfl⟩ : other = path ∧ cfg' = cfg := by
          simpa [hid] using hchecked
        simp [insert]
  · have hleft := not_leftRegistry_of_not_removed hrun hran hnotSeen
    rcases actors_cases ht path with hkept | ⟨id, hmem, -⟩ | ⟨id, hmem, -⟩
    · exact hkept.trans (hold call path cfg r hran hnotSeen)
    · -- the guard lets nobody in while this runner is there
      obtain ⟨rfl, cfg', hid⟩ := insert_of_registered ht hmem
      exact absurd (hguard path cfg' hid call cfg r hran) hleft
    · obtain ⟨input, cfg', r₀, r₁, os, -, hid, hstep, hx⟩ := run_of_does ht hmem
      have hleft₀ : ¬ r₀.LeftRegistry := fun h =>
        (h.step (Runner.step_transition hstep)).2 hx
      obtain rfl := hone path id cfg' r₀ call cfg r hid hran hleft₀ hleft
      exact absurd hmem hnotNow

/-- What the guard keeps up over a run. -/
theorem registered_of_execute
    (hmeet : StepsMeet System.step InsertsAlone empty inputs)
    (hrun : execute System.step empty inputs = some (s, seen)) :
    s.OneAtEachPath ∧ Registered s seen :=
  execute_history_of_run (P := fun s seen => s.OneAtEachPath ∧ Registered s seen)
    (fun _ _ _ _ _ _ hbefore hold hguard hstep =>
      ⟨hold.1.step hguard (step_transition hstep),
        hold.2.step hbefore hold.1 hguard (step_transition hstep)⟩)
    ⟨by simp [OneAtEachPath, empty], by simp [Registered, empty]⟩ hmeet hrun

/-- **A runner only ever unregisters itself.**  In every run in which each
insertion finds no runner at its path that has still to remove it: whatever a
runner removes next is its own entry or no entry at all, and a runner that has
not removed its path is the entry of it. -/
theorem unregisters_only_itself
    (hmeet : StepsMeet System.step InsertsAlone empty inputs)
    (hrun : execute System.step empty inputs = some (s, seen)) :
    (∀ i t o call path, s.step i = some (t, o) →
      .does call path .removeActor ∈ o →
        s.actors path = none ∨ s.actors path = some call) ∧
      ∀ call path cfg r, s.creations call = .running path cfg r →
        ¬ Removed call path seen → s.actors path = some call := by
  obtain ⟨hone, hregistered⟩ := registered_of_execute hmeet hrun
  refine ⟨?_, hregistered⟩
  intro i t o call path hstep hmem
  cases hentry : s.actors path with
  | none => exact Or.inl rfl
  | some owner =>
      obtain ⟨⟨cfg, r, hcall⟩, hnot⟩ :=
        entriesOwned_of_execute hrun path owner hentry
      obtain ⟨input, cfg', r₀, r₁, os, -, hid, hrunner, hx⟩ :=
        run_of_does (step_transition hstep) hmem
      have hleft := not_leftRegistry_of_not_removed hrun hcall hnot
      have hleft₀ : ¬ r₀.LeftRegistry := fun h =>
        (h.step (Runner.step_transition hrunner)).2 hx
      -- neither of them has left, so they are one runner
      rw [hone path owner cfg r call cfg' r₀ hcall hid hleft hleft₀]
      exact Or.inr rfl

end Reached

/-- The first actor ends before the path is used again. -/
def endsFirst : List (SystemInput Unit Unit) :=
  starting 0 userPath plainRoot ++ stopping 0 ++ terminating 0 ++
    [.check 1 userPath plainRoot, .insert 1]

theorem endsFirst_insertsAlone :
    StepsMeet System.step InsertsAlone empty endsFirst := by
  refine stepsMeet_append.mpr ⟨?_, fun t os hrun =>
    ⟨trivial, fun t' o hcheck => ⟨?_, fun _ _ _ => trivial⟩⟩⟩
  · refine ⟨trivial, fun t o hcheck => ⟨?_, fun _ _ _ => ?_⟩⟩
    · cases hcheck
      intro path cfg hchecked other cfg' r hrunning
      rcases other with _ | n <;> contradiction
    · -- no other call inserts in the life of the first actor
      refine stepsMeet_of_forall (fun i hi s => ?_) _
      cases i with
      | insert call => simp [stopping, terminating] at hi
      | _ => trivial
  · cases hrun
    cases hcheck
    intro path cfg hchecked other cfg' r hrunning
    rcases other with _ | _ | n
    · cases hrunning
      trivial
    · contradiction
    · contradiction

/-- `unregisters_only_itself` for the actor that follows. -/
theorem endsFirst_unregisters_only_itself :
    ∃ s seen, execute System.step empty endsFirst = some (s, seen) ∧
      (∀ i t o call path, s.step i = some (t, o) →
        .does call path .removeActor ∈ o →
          s.actors path = none ∨ s.actors path = some call) ∧
        ∀ call path cfg r, s.creations call = .running path cfg r →
          ¬ Removed call path seen → s.actors path = some call :=
  ⟨_, _, rfl, unregisters_only_itself endsFirst_insertsAlone rfl⟩

/-- The path is used again between the acknowledgement and the end. -/
def recreatedEarly : List (SystemInput Unit Unit) :=
  starting 0 userPath plainRoot ++ stopping 0 ++
    starting 1 userPath plainRoot ++ (terminating 0).take 3

/-- The old runner removes the entry of the actor that has taken its place. -/
theorem old_runner_removes_new_entry :
    (∃ s seen, execute System.step empty recreatedEarly = some (s, seen) ∧
      s.actors userPath = some 1 ∧
      ∃ t, s.step (.run 0 (.choice .proceed)) =
          some (t, [.does 0 userPath .removeActor]) ∧
        t.actors userPath = none) ∧
      ¬ ∀ (inputs : List (SystemInput Unit Unit)) s seen,
        execute System.step empty inputs = some (s, seen) →
          ∀ i t o call path, s.step i = some (t, o) →
            .does call path .removeActor ∈ o →
              s.actors path = none ∨ s.actors path = some call := by
  refine ⟨⟨_, _, rfl, rfl, _, rfl, rfl⟩, fun hall => ?_⟩
  have hentry := hall recreatedEarly _ _ rfl (.run 0 (.choice .proceed)) _ _
    0 userPath rfl (List.mem_singleton_self _)
  rcases hentry with hentry | hentry <;> contradiction

end System
end Actor
end Rush
