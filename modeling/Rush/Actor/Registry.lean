import Rush.Actor.System
import Rush.Foundation.History

/-!
# The runners and the registry of a system

A run of the system contains a run of each of its runners, so what holds of
every run of a runner holds of every runner of the system.  The registry is
determined by the observations: an entry is what the last registration or
removal at its path has left.
-/

namespace Rush
namespace Actor

open Foundation

variable {M Ev : Type}

/-- What the runner of a call has done so far. -/
def SystemObs.ofCall (call : Nat) : SystemObs M Ev → Option (Obs M Ev)
  | .does other _ x => if other = call then some x else none
  | _ => none

/-- What an observation writes to the registry entry of a path. -/
def SystemObs.write (path : ActorPath) : SystemObs M Ev → Option (Option Nat)
  | .registered call other => if other = path then some (some call) else none
  | .does _ other .removeActor => if other = path then some none else none
  | _ => none

/-- Registrations and removals are all that writes an entry. -/
theorem SystemObs.write_eq_some {path : ActorPath} {x : SystemObs M Ev}
    {entry : Option Nat} (h : x.write path = some entry) :
    (∃ call, x = .registered call path ∧ entry = some call) ∨
      ∃ call, x = .does call path .removeActor ∧ entry = none := by
  cases x with
  | «exists» => contradiction
  | registered call other =>
      simp only [SystemObs.write] at h
      split at h
      case isTrue heq =>
        cases h
        exact Or.inl ⟨call, heq ▸ rfl, rfl⟩
      case isFalse => contradiction
  | does call other x =>
      cases x with
      | removeActor =>
          simp only [SystemObs.write] at h
          split at h
          case isTrue heq =>
            cases h
            exact Or.inr ⟨call, heq ▸ rfl, rfl⟩
          case isFalse => contradiction
      | _ => contradiction

theorem SystemObs.write_eq_none_iff {path : ActorPath} {x : SystemObs M Ev} :
    x.write path = none ↔
      (∀ call, x ≠ .registered call path) ∧
        ∀ call, x ≠ .does call path .removeActor := by
  constructor
  · intro h
    constructor <;> rintro call rfl <;> simp [SystemObs.write] at h
  · rintro ⟨hregistered, hremoves⟩
    cases hwrite : x.write path with
    | none => rfl
    | some entry =>
        rcases write_eq_some hwrite with ⟨call, rfl, -⟩ | ⟨call, rfl, -⟩
        · exact absurd rfl (hregistered call)
        · exact absurd rfl (hremoves call)

namespace System

/-- The observations of one runner in a history of the system. -/
def observed (call : Nat) (seen : List (SystemObs M Ev)) : List (Obs M Ev) :=
  seen.filterMap (SystemObs.ofCall call)

theorem mem_observed {call : Nat} {seen : List (SystemObs M Ev)} {x : Obs M Ev} :
    x ∈ observed call seen ↔ ∃ path, .does call path x ∈ seen := by
  rw [observed, List.mem_filterMap]
  constructor
  · rintro ⟨y, hy, hof⟩
    cases y with
    | does other path z =>
        simp only [SystemObs.ofCall] at hof
        split at hof
        case isTrue heq =>
          cases hof
          exact ⟨path, heq ▸ hy⟩
        case isFalse => contradiction
    | _ => contradiction
  · rintro ⟨path, hmem⟩
    exact ⟨_, hmem, by simp [SystemObs.ofCall]⟩

theorem observed_append (call : Nat) (xs ys : List (SystemObs M Ev)) :
    observed call (xs ++ ys) = observed call xs ++ observed call ys :=
  List.filterMap_append

theorem observed_own (call : Nat) (path : ActorPath) (o : List (Obs M Ev)) :
    observed call (o.map (.does call path)) = o := by
  induction o with
  | nil => rfl
  | cons x o ih =>
      simp only [observed, List.map_cons] at ih ⊢
      rw [List.filterMap_cons_some (b := x) (by simp [SystemObs.ofCall]), ih]

/-- A creation and its part of the history: only a running call has one, and it
is a run of its runner. -/
def RunsIn (creation : Creation M Ev) (call : Nat)
    (seen : List (SystemObs M Ev)) : Prop :=
  match creation with
  | .running path cfg r =>
      (∃ inputs, execute (Runner.step cfg) Runner.create inputs =
        some (r, observed call seen)) ∧
        ∀ other x, .does call other x ∈ seen → other = path
  | _ => ∀ other x, .does call other x ∉ seen

/-- Observations of other calls do not matter for a creation. -/
theorem RunsIn.append {creation : Creation M Ev} {call : Nat}
    {seen o : List (SystemObs M Ev)} (h : RunsIn creation call seen)
    (hother : ∀ other x, .does call other x ∉ o) :
    RunsIn creation call (seen ++ o) := by
  have hobserved : observed call (seen ++ o) = observed call seen := by
    have hnil : observed call o = [] := by
      rw [List.eq_nil_iff_forall_not_mem]
      intro x hx
      obtain ⟨path, hmem⟩ := mem_observed.mp hx
      exact hother path x hmem
    rw [observed_append, hnil, List.append_nil]
  have hseen : ∀ other x, .does call other x ∈ seen ++ o →
      .does call other x ∈ seen := by
    intro other x hx
    rcases List.mem_append.mp hx with hx | hx
    · exact hx
    · exact absurd hx (hother other x)
  unfold RunsIn at *
  cases creation with
  | running path cfg r =>
      rw [hobserved]
      exact ⟨h.1, fun other x hx => h.2 other x (hseen other x hx)⟩
  | _ => exact fun other x hx => h other x (hseen other x hx)

/-- A call that does not run has done nothing. -/
theorem RunsIn.not_does {creation : Creation M Ev} {call : Nat}
    {seen : List (SystemObs M Ev)} (h : RunsIn creation call seen)
    (hidle : ∀ path cfg r, creation ≠ .running path cfg r) (other : ActorPath)
    (x : Obs M Ev) : .does call other x ∉ seen := by
  cases creation with
  | running path cfg r => exact absurd rfl (hidle path cfg r)
  | _ => exact h other x

/-- The change of one call leaves the runs of the others. -/
theorem runsIn_update {s : System M Ev} {id : Nat} {creation : Creation M Ev}
    {seen : List (SystemObs M Ev)}
    (hold : ∀ call, RunsIn (s.creations call) call seen)
    (hid : RunsIn creation id seen) (call : Nat) :
    RunsIn (Function.update s.creations id creation call) call seen := by
  by_cases heq : call = id
  · subst heq
    simpa using hid
  · simpa [heq] using hold call

/-- A step keeps the runs of all calls. -/
theorem runsIn_step {s t : System M Ev} {i : SystemInput M Ev}
    {seen o : List (SystemObs M Ev)}
    (hold : ∀ call, RunsIn (s.creations call) call seen)
    (hstep : s.step i = some (t, o)) (call : Nat) :
    RunsIn (t.creations call) call (seen ++ o) := by
  cases step_transition hstep with
  | refuses id path cfg hid hexists =>
      have hnone : RunsIn (.refused path) id seen :=
        (hold id).not_does (by simp [hid])
      exact (runsIn_update hold hnone call).append (by simp)
  | checks id path cfg hid hfree =>
      have hnone : RunsIn (.checked path cfg) id seen :=
        (hold id).not_does (by simp [hid])
      exact (runsIn_update hold hnone call).append (by simp)
  | inserts id path cfg hid =>
      -- the run of the new runner is empty
      have hnone := (hold id).not_does (by simp [hid])
      have hobserved : observed id seen = [] := by
        rw [List.eq_nil_iff_forall_not_mem]
        intro x hx
        obtain ⟨other, hmem⟩ := mem_observed.mp hx
        exact hnone other x hmem
      have hnew : RunsIn (.running path cfg Runner.create) id seen :=
        ⟨⟨[], by rw [hobserved]; rfl⟩, fun other x hx => absurd hx (hnone other x)⟩
      exact (runsIn_update hold hnew call).append (by simp)
  | runs id input path cfg r r' os hid hrun =>
      by_cases heq : call = id
      · -- the run of this runner gets one step longer
        subst heq
        have hid' := hold call
        rw [hid] at hid'
        obtain ⟨⟨inputs, hexec⟩, hpath⟩ := hid'
        simp only [ran, Function.update_self, RunsIn]
        refine ⟨⟨inputs ++ [input], ?_⟩, ?_⟩
        · rw [observed_append, observed_own]
          exact execute_append.mpr
            ⟨r, observed call seen, os, hexec, execute_single hrun, rfl⟩
        · intro other x hx
          rcases List.mem_append.mp hx with hx | hx
          · exact hpath other x hx
          · exact (does_mem_map.mp hx).2.1
      · refine RunsIn.append ?_ fun other x hx => heq (does_mem_map.mp hx).1
        simpa [ran, heq] using hold call

/-- **Projection.**  In every run of the system, what a runner has done is a run
of the runner, and all of it at the path of its call. -/
theorem runsIn_of_execute {s : System M Ev} {inputs : List (SystemInput M Ev)}
    {seen : List (SystemObs M Ev)}
    (hrun : execute step empty inputs = some (s, seen)) (call : Nat) :
    RunsIn (s.creations call) call seen := by
  have hall := execute_history (G := fun _ _ => True)
    (P := fun s seen => ∀ call, RunsIn (s.creations call) call seen)
    (fun _ _ _ _ _ hold _ hstep => runsIn_step hold hstep) []
    (by simp [RunsIn, empty]) (stepsMeet_true empty inputs) hrun
  exact hall call

section Running

variable {s : System M Ev} {inputs : List (SystemInput M Ev)}
  {seen : List (SystemObs M Ev)} {call : Nat} {path : ActorPath}
  {cfg : RunnerConfig} {r : Runner M Ev}

/-- The run of a runner of the system, with its observations. -/
theorem runner_of_execute (hrun : execute step empty inputs = some (s, seen))
    (hcall : s.creations call = .running path cfg r) :
    ∃ is, execute (Runner.step cfg) Runner.create is =
        some (r, observed call seen) := by
  have hruns := runsIn_of_execute hrun call
  rw [hcall] at hruns
  exact hruns.1

theorem mem_observed_iff (hrun : execute step empty inputs = some (s, seen))
    (hcall : s.creations call = .running path cfg r) {x : Obs M Ev} :
    x ∈ observed call seen ↔ .does call path x ∈ seen := by
  have hruns := runsIn_of_execute hrun call
  rw [hcall] at hruns
  rw [mem_observed]
  constructor
  · rintro ⟨other, hmem⟩
    rwa [← hruns.2 other x hmem]
  · exact fun hmem => ⟨path, hmem⟩

/-- A call that has only checked has done nothing yet. -/
theorem not_does_of_checked (hrun : execute step empty inputs = some (s, seen))
    (hcall : s.creations call = .checked path cfg) (other : ActorPath)
    (x : Obs M Ev) : .does call other x ∉ seen :=
  (runsIn_of_execute hrun call).not_does (by simp [hcall]) other x

end Running

/-- A call that runs keeps its path and its configuration. -/
theorem running_step {s t : System M Ev} {i : SystemInput M Ev}
    {o : List (SystemObs M Ev)} {call : Nat} {path : ActorPath}
    {cfg : RunnerConfig} {r : Runner M Ev} (ht : Transition s i t o)
    (hcall : s.creations call = .running path cfg r) :
    ∃ r', t.creations call = .running path cfg r' := by
  have hother : ∀ {id creation}, id ≠ call →
      Function.update s.creations id creation call = .running path cfg r :=
    fun hne => (Function.update_of_ne (Ne.symm hne) _ _).trans hcall
  cases ht with
  | refuses id other cfg' hid =>
      refine ⟨r, hother ?_⟩
      rintro rfl
      simp [hid] at hcall
  | checks id other cfg' hid =>
      refine ⟨r, hother ?_⟩
      rintro rfl
      simp [hid] at hcall
  | inserts id other cfg' hid =>
      refine ⟨r, hother ?_⟩
      rintro rfl
      simp [hid] at hcall
  | runs id input other cfg' r₀ r' os hid hrun =>
      by_cases heq : id = call
      · subst heq
        obtain ⟨rfl, rfl, rfl⟩ : other = path ∧ cfg' = cfg ∧ r₀ = r := by
          simpa [hid] using hcall
        exact ⟨r', by simp [ran]⟩
      · exact ⟨r, hother heq⟩

/-- Where a running call comes from: it is new, it has taken the step, or it is
untouched. -/
theorem running_origin {s t : System M Ev} {i : SystemInput M Ev}
    {o : List (SystemObs M Ev)} {call : Nat} {path : ActorPath}
    {cfg : RunnerConfig} {r' : Runner M Ev} (ht : Transition s i t o)
    (hcall : t.creations call = .running path cfg r') :
    (i = .insert call ∧ s.creations call = .checked path cfg ∧
        r' = Runner.create ∧ o = [.registered call path]) ∨
      (∃ r input os, i = .run call input ∧
        s.creations call = .running path cfg r ∧
        Runner.step cfg r input = some (r', os) ∧ o = os.map (.does call path)) ∨
      s.creations call = .running path cfg r' ∧
        ∀ other x, .does call other x ∉ o := by
  cases ht with
  | refuses id other cfg' hid =>
      refine Or.inr (Or.inr ⟨?_, by simp⟩)
      by_cases heq : call = id
      · simp [heq] at hcall
      · simpa [heq] using hcall
  | checks id other cfg' hid =>
      refine Or.inr (Or.inr ⟨?_, by simp⟩)
      by_cases heq : call = id
      · simp [heq] at hcall
      · simpa [heq] using hcall
  | inserts id other cfg' hid =>
      by_cases heq : call = id
      · subst heq
        obtain ⟨rfl, rfl, rfl⟩ : other = path ∧ cfg' = cfg ∧
            Runner.create = r' := by
          simpa [insert] using hcall
        exact Or.inl ⟨rfl, hid, rfl, rfl⟩
      · exact Or.inr (Or.inr ⟨by simpa [insert, heq] using hcall, by simp⟩)
  | runs id input other cfg' r r₁ os hid hrun =>
      by_cases heq : call = id
      · subst heq
        obtain ⟨rfl, rfl, rfl⟩ : other = path ∧ cfg' = cfg ∧ r₁ = r' := by
          simpa [ran] using hcall
        exact Or.inr (Or.inl ⟨r, input, os, rfl, hid, hrun, rfl⟩)
      · refine Or.inr (Or.inr ⟨by simpa [ran, heq] using hcall, ?_⟩)
        exact fun other x hx => heq (does_mem_map.mp hx).1

/-- Only the insertion of a call registers it. -/
theorem insert_of_registered {s t : System M Ev} {i : SystemInput M Ev}
    {o : List (SystemObs M Ev)} {call : Nat} {path : ActorPath}
    (ht : Transition s i t o) (hmem : .registered call path ∈ o) :
    i = .insert call ∧ ∃ cfg, s.creations call = .checked path cfg := by
  cases ht with
  | refuses => simp at hmem
  | checks => simp at hmem
  | inserts id other cfg hid =>
      obtain ⟨rfl, rfl⟩ : call = id ∧ path = other := by simpa using hmem
      exact ⟨rfl, cfg, hid⟩
  | runs => simp at hmem

/-- Only the step of a runner does something. -/
theorem run_of_does {s t : System M Ev} {i : SystemInput M Ev}
    {o : List (SystemObs M Ev)} {call : Nat} {path : ActorPath} {x : Obs M Ev}
    (ht : Transition s i t o) (hmem : .does call path x ∈ o) :
    ∃ input cfg r r' os, i = .run call input ∧
      s.creations call = .running path cfg r ∧
      Runner.step cfg r input = some (r', os) ∧ x ∈ os := by
  cases ht with
  | refuses => simp at hmem
  | checks => simp at hmem
  | inserts => simp at hmem
  | runs id input other cfg r r' os hid hrun =>
      obtain ⟨rfl, rfl, hx⟩ := does_mem_map.mp hmem
      exact ⟨input, cfg, r, r', os, rfl, hid, hrun, hx⟩

theorem actors_of_removal {s t : System M Ev} {i : SystemInput M Ev}
    {o : List (SystemObs M Ev)} {call : Nat} {path : ActorPath}
    (ht : Transition s i t o) (hmem : .does call path .removeActor ∈ o) :
    t.actors path = none := by
  cases ht with
  | refuses => simp at hmem
  | checks => simp at hmem
  | inserts => simp at hmem
  | runs id input other cfg r r' os hid hrun =>
      obtain ⟨-, rfl, hx⟩ := does_mem_map.mp hmem
      simp [ran, any_isRemoveActor_iff.mpr hx]

/-- What the step of a runner writes to the entry of a path. -/
theorem lastWrite_does (path other : ActorPath) (call : Nat) (entry : Option Nat)
    (o : List (Obs M Ev)) :
    lastWrite (SystemObs.write path) entry (o.map (.does call other)) =
      if other = path ∧ o.any Obs.isRemoveActor then none else entry := by
  induction o generalizing entry with
  | nil => simp
  | cons x o ih =>
      show lastWrite (SystemObs.write path)
        ((SystemObs.write path (.does call other x)).getD entry)
        (o.map (.does call other)) = _
      rw [ih]
      by_cases hpath : other = path
      · cases x <;> simp [SystemObs.write, Obs.isRemoveActor, hpath]
      · cases x <;> simp [SystemObs.write, hpath]

/-- A step changes the registry as its observations say. -/
theorem actors_step {s t : System M Ev} {i : SystemInput M Ev}
    {o : List (SystemObs M Ev)} (ht : Transition s i t o) (path : ActorPath) :
    t.actors path = lastWrite (SystemObs.write path) (s.actors path) o := by
  cases ht with
  | refuses => rfl
  | checks => rfl
  | inserts id other cfg hid =>
      by_cases heq : path = other
      · subst heq
        simp [insert, lastWrite, SystemObs.write]
      · simp [insert, lastWrite, SystemObs.write, heq, Ne.symm heq]
  | runs id input other cfg r r' os hid hrun =>
      rw [lastWrite_does]
      by_cases heq : path = other
      · subst heq
        by_cases hremove : os.any Obs.isRemoveActor <;> simp [ran, hremove]
      · by_cases hremove : os.any Obs.isRemoveActor <;>
          simp [ran, hremove, heq, Ne.symm heq]

/-- **The registry by its history**: an entry is what the last registration or
removal at the path has left. -/
theorem actors_eq_lastWrite {s : System M Ev} {inputs : List (SystemInput M Ev)}
    {seen : List (SystemObs M Ev)}
    (hrun : execute step empty inputs = some (s, seen)) (path : ActorPath) :
    s.actors path = lastWrite (SystemObs.write path) none seen := by
  refine execute_history (G := fun _ _ => True)
    (P := fun s seen => s.actors path = lastWrite (SystemObs.write path) none seen)
    ?_ [] rfl (stepsMeet_true empty inputs) hrun
  intro s seen i t o hold _ hstep
  rw [lastWrite_append, ← hold]
  exact actors_step (step_transition hstep) path

/-- An entry is kept, or the step registers or removes at its path. -/
theorem actors_cases {s t : System M Ev} {i : SystemInput M Ev}
    {o : List (SystemObs M Ev)} (ht : Transition s i t o) (path : ActorPath) :
    t.actors path = s.actors path ∨
      (∃ call, .registered call path ∈ o ∧ t.actors path = some call) ∨
      ∃ call, .does call path .removeActor ∈ o ∧ t.actors path = none := by
  rw [actors_step ht path]
  rcases exists_last_write (SystemObs.write path) o with
    hnone | ⟨before, x, after, entry, rfl, hx, hafter⟩
  · exact Or.inl (lastWrite_of_none hnone)
  · have hlast : lastWrite (SystemObs.write path) (s.actors path)
        (before ++ x :: after) = entry := by
      rw [lastWrite_append]
      show lastWrite _ ((SystemObs.write path x).getD _) after = entry
      rw [hx]
      exact lastWrite_of_none hafter
    rw [hlast]
    rcases SystemObs.write_eq_some hx with ⟨call, rfl, rfl⟩ | ⟨call, rfl, rfl⟩
    · exact Or.inr (Or.inl ⟨call, by simp, rfl⟩)
    · exact Or.inr (Or.inr ⟨call, by simp, rfl⟩)

/-- An entry names a runner at the path that has not unregistered it. -/
def EntriesOwned (s : System M Ev) (seen : List (SystemObs M Ev)) : Prop :=
  ∀ path call, s.actors path = some call →
    (∃ cfg r, s.creations call = .running path cfg r) ∧ ¬ Removed call path seen

theorem entriesOwned_step {s t : System M Ev} {before : List (SystemInput M Ev)}
    {i : SystemInput M Ev} {seen o : List (SystemObs M Ev)}
    (hbefore : execute step empty before = some (s, seen))
    (hold : EntriesOwned s seen) (hstep : s.step i = some (t, o)) :
    EntriesOwned t (seen ++ o) := by
  have ht := step_transition hstep
  intro path call hentry
  rcases actors_cases ht path with hkept | ⟨id, hmem, hnew⟩ | ⟨id, -, hnone⟩
  · obtain ⟨⟨cfg, r, hcall⟩, hnot⟩ := hold path call (hkept ▸ hentry)
    obtain ⟨r', hcall'⟩ := running_step ht hcall
    refine ⟨⟨cfg, r', hcall'⟩, fun hremoved => ?_⟩
    rcases List.mem_append.mp hremoved with hremoved | hremoved
    · exact hnot hremoved
    · -- the removal would have emptied the entry
      rw [actors_of_removal ht hremoved] at hentry
      contradiction
  · obtain rfl : id = call := Option.some.inj (hnew.symm.trans hentry)
    obtain ⟨rfl, cfg, hid⟩ := insert_of_registered ht hmem
    cases ht with
    | inserts _ other cfg' hid' =>
        obtain ⟨rfl, rfl⟩ : other = path ∧ cfg' = cfg := by simpa [hid'] using hid
        refine ⟨⟨cfg', Runner.create, by simp [insert]⟩, ?_⟩
        simpa [Removed] using not_does_of_checked hbefore hid' other .removeActor
  · rw [hnone] at hentry
    contradiction

theorem entriesOwned_of_execute {s : System M Ev}
    {inputs : List (SystemInput M Ev)} {seen : List (SystemObs M Ev)}
    (hrun : execute step empty inputs = some (s, seen)) : EntriesOwned s seen :=
  execute_history_of_run (G := fun _ _ => True)
    (fun _ _ _ _ _ _ hbefore hold _ hstep =>
      entriesOwned_step hbefore hold hstep)
    (by simp [EntriesOwned, empty]) (stepsMeet_true empty inputs) hrun

/-- A runner that has removed its path is not registered. -/
theorem not_registered_of_removed {s : System M Ev}
    {inputs : List (SystemInput M Ev)} {seen : List (SystemObs M Ev)}
    {call : Nat} (hrun : execute step empty inputs = some (s, seen))
    (hremoved : .removeActor ∈ observed call seen) (path : ActorPath) :
    s.actors path ≠ some call := by
  intro hentry
  obtain ⟨⟨cfg, r, hcall⟩, hnot⟩ := entriesOwned_of_execute hrun path call hentry
  exact hnot ((mem_observed_iff hrun hcall).mp hremoved)

end System
end Actor
end Rush
