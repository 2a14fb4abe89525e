import Rush.Actor.SystemShutdown
import Rush.Actor.StartSteps

/-!
# Which root actors the shutdown reaches

The task asks the actors whose stop senders it finds when it takes the lock of
`root_senders`.  A root actor that has started by then, but whose sender is not
pushed yet, is not among them, and neither is one that starts while the task
holds the lock: its `create_root_actor` waits for the lock.  The shutdown is
complete if there is no such actor and no popped sender is closed.
-/

namespace Rush
namespace Actor

open Foundation

variable {M Ev : Type}

namespace Runner

/-- The runner enters `run`. -/
def EntersRun (r : Runner M Ev) (i : Input M Ev) : Prop :=
  i = .choice .proceed ∧ r.phase = .dispatch ∧ r.lifecycle = .started

variable {cfg : RunnerConfig} {r r' : Runner M Ev} {i : Input M Ev}
  {o : List (Obs M Ev)}

/-- Before `match self.lifecycle` the runner only goes on. -/
theorem input_of_dispatch (hphase : r.phase = .dispatch)
    (hstep : step cfg r i = some (r', o)) :
    i = .choice .proceed ∨ r'.phase = .dispatch := by
  cases i with
  | arrival arrival =>
      obtain ⟨r₁, harrive, heq⟩ := Option.map_eq_some_iff.mp hstep
      cases heq
      exact Or.inr ((arrive_frame harrive).1.trans hphase)
  | choice choice =>
      cases choice with
      | proceed => exact Or.inl rfl
      | _ => simp [step, advance, hphase] at hstep

/-- The creator is told of the start when the runner enters `run` for the first
time, and waits on otherwise, or the runner ends. -/
theorem signal_step (hstep : step cfg r i = some (r', o)) :
    (r.signal = true ∧ r.EntersRun i ∧ o = [.signal true] ∧ r'.signal = false ∧
        r'.phase = .selecting) ∨
      (¬ (r.signal = true ∧ r.EntersRun i) ∧ .signal true ∉ o ∧
        (r'.signal = r.signal ∨ r'.signal = false ∧ r'.phase = .ended)) := by
  by_cases henters : r.EntersRun i
  · obtain ⟨rfl, hphase, hlife⟩ := henters
    simp only [step, advance, hphase, dispatch, hlife, Option.some.injEq,
      Prod.mk.injEq] at hstep
    obtain ⟨rfl, rfl⟩ := hstep
    cases hsignal : r.signal with
    | true => exact Or.inl ⟨rfl, ⟨rfl, hphase, hlife⟩, rfl, rfl, rfl⟩
    | false => exact Or.inr ⟨by simp, by simp, Or.inl rfl⟩
  · refine Or.inr ⟨fun h => henters h.2, ?_⟩
    have htransition := step_transition hstep
    cases htransition with
    | entersRun hphase hlife =>
        rcases input_of_dispatch hphase hstep with rfl | hstays
        · exact absurd ⟨rfl, hphase, hlife⟩ henters
        · contradiction
    | operates hook op r' hphase hop =>
        exact ⟨by simp, Or.inl (operate_frame hop).2.2.2.2⟩
    | restarts strategy => cases strategy.nextBackoff.1 <;> simp
    | ends => cases r.signal <;> simp
    | takesError => cases cfg.hasParent <;> simp
    | _ => simp [emitFail]

end Runner

namespace System

variable {s t : System M Ev} {i : SystemInput M Ev} {o : List (SystemObs M Ev)}
  {call : Nat}

/-- A root actor whose creator has been told how its start went. -/
def RootTold (s : System M Ev) (call : Nat) : Prop :=
  ∃ path cfg r, s.creations call = .running path cfg r ∧ cfg.hasParent = false ∧
    r.signal = false

/-- A root actor that has started and has not ended. -/
def RunsRoot (s : System M Ev) (call : Nat) : Prop :=
  s.RootTold call ∧ s.channelOpen call = true

/-- The step in which a root actor has started. -/
def StartsRoot (s : System M Ev) : SystemInput M Ev → Prop
  | .run call input => ∃ path cfg r, s.creations call = .running path cfg r ∧
      cfg.hasParent = false ∧ r.signal = true ∧ r.EntersRun input
  | _ => False

/-- What one step does to the root actors, of which it starts `roots`. -/
structure RootStep (s t : System M Ev) (roots : List Nat) : Prop where
  told : ∀ call, s.RootTold call → t.RootTold call
  runs : ∀ call, t.RunsRoot call → s.RunsRoot call ∨ call ∈ roots
  starts : ∀ call ∈ roots, ¬ s.RootTold call ∧ t.RunsRoot call
  nodup : roots.Nodup

theorem not_startsRoot_of_told (h : s.RootTold call) (input : Input M Ev) :
    ¬ s.StartsRoot (.run call input) := by
  obtain ⟨path, cfg, r, hcall, -, hsignal⟩ := h
  rintro ⟨path', cfg', r', hcall', -, hsignal', -⟩
  rw [hcall] at hcall'
  cases hcall'
  rw [hsignal] at hsignal'
  contradiction

theorem rootTold_congr (h : t.creations call = s.creations call) :
    t.RootTold call ↔ s.RootTold call := by
  unfold RootTold
  rw [h]

theorem runsRoot_congr (h : t.creations call = s.creations call) :
    t.RunsRoot call ↔ s.RunsRoot call := by
  unfold RunsRoot channelOpen
  rw [rootTold_congr h, h]

/-- A step of a call that has no runner yet. -/
theorem rootStep_of_creates {c : Nat} {x : Creation M Ev}
    (hcall : ∀ path cfg r, s.creations c ≠ .running path cfg r)
    (hx : ∀ path cfg r, x = .running path cfg r → r.signal = true)
    (hother : t.creations = Function.update s.creations c x) : RootStep s t [] := by
  have hnot : ¬ t.RootTold c := by
    rintro ⟨path, cfg, r, hrunning, -, hsignal⟩
    rw [hother, Function.update_self] at hrunning
    rw [hx path cfg r hrunning] at hsignal
    contradiction
  have hsame : ∀ call, call ≠ c → t.creations call = s.creations call :=
    fun call hne => by rw [hother, Function.update_of_ne hne]
  refine ⟨fun call htold => ?_, fun call hruns => Or.inl ?_, by simp, by simp⟩
  · have hne : call ≠ c := by
      rintro rfl
      obtain ⟨path, cfg, r, hrunning, -⟩ := htold
      exact hcall path cfg r hrunning
    exact (rootTold_congr (hsame call hne)).mpr htold
  · have hne : call ≠ c := by
      rintro rfl
      exact hnot hruns.1
    exact (runsRoot_congr (hsame call hne)).mp hruns

/-- A step of a runner. -/
theorem rootStep_of_runs {c : Nat} {path : ActorPath} {cfg : RunnerConfig}
    {r r' : Runner M Ev} {roots : List Nat}
    (hcall : s.creations c = .running path cfg r)
    (hother : t.creations = Function.update s.creations c (.running path cfg r'))
    (htold : cfg.hasParent = false → r.signal = false → r'.signal = false)
    (hruns : cfg.hasParent = false → r'.signal = false → r'.phase.isEnded = false →
      r.signal = false ∧ r.phase.isEnded = false ∨ c ∈ roots)
    (hstarts : ∀ call ∈ roots, call = c ∧ cfg.hasParent = false ∧ r.signal = true ∧
      r'.signal = false ∧ r'.phase.isEnded = false) (hnodup : roots.Nodup) :
    RootStep s t roots := by
  have hsame : ∀ call, call ≠ c → t.creations call = s.creations call :=
    fun call hne => by rw [hother, Function.update_of_ne hne]
  have hcall' : t.creations c = .running path cfg r' := by
    rw [hother, Function.update_self]
  have htoldS : s.RootTold c ↔ cfg.hasParent = false ∧ r.signal = false := by
    simp [RootTold, hcall]
  have htoldT : t.RootTold c ↔ cfg.hasParent = false ∧ r'.signal = false := by
    simp [RootTold, hcall']
  refine ⟨fun call h => ?_, fun call h => ?_, fun call hmem => ?_, hnodup⟩
  · by_cases hc : call = c
    · subst hc
      obtain ⟨hroot, hsignal⟩ := htoldS.mp h
      exact htoldT.mpr ⟨hroot, htold hroot hsignal⟩
    · exact (rootTold_congr (hsame call hc)).mpr h
  · by_cases hc : call = c
    · subst hc
      obtain ⟨hroot, hsignal⟩ := htoldT.mp h.1
      have hopen : r'.phase.isEnded = false := by
        simpa [channelOpen, hcall'] using h.2
      rcases hruns hroot hsignal hopen with ⟨hsignal', hopen'⟩ | hmem
      · exact Or.inl ⟨htoldS.mpr ⟨hroot, hsignal'⟩, by simp [channelOpen, hcall, hopen']⟩
      · exact Or.inr hmem
    · exact Or.inl ((runsRoot_congr (hsame call hc)).mp h)
  · obtain ⟨rfl, hroot, hsignal, hsignal', hopen⟩ := hstarts call hmem
    refine ⟨fun h => ?_, htoldT.mpr ⟨hroot, hsignal'⟩, by simp [channelOpen, hcall', hopen]⟩
    have hfalse := (htoldS.mp h).2
    rw [hsignal] at hfalse
    contradiction

theorem startedRoots_of_not_mem {c : Nat} {path : ActorPath} {o : List (Obs M Ev)}
    (h : .signal true ∉ o) : t.startedRoots (o.map (.does c path)) = [] := by
  unfold startedRoots
  rw [List.filterMap_map, List.filterMap_eq_nil_iff]
  intro x hx
  cases x with
  | signal started =>
      cases started with
      | true => exact absurd hx h
      | false => rfl
  | _ => rfl

/-- The runner tells its creator of the start, which counts for a root actor. -/
theorem rootStep_of_signal {c : Nat} {path : ActorPath} {cfg : RunnerConfig}
    {r r' : Runner M Ev} {input : Input M Ev}
    (hcall : s.creations c = .running path cfg r) (hsignal : r.signal = true)
    (henters : r.EntersRun input) (hsignal' : r'.signal = false)
    (hphase : r'.phase = .selecting) :
    RootStep s (s.ran c path cfg r' [.signal true])
        ((s.ran c path cfg r' [.signal true]).startedRoots
          ([.signal true].map (.does c path))) ∧
      (s.StartsRoot (.run c input) ↔ (s.ran c path cfg r' [.signal true]).startedRoots
        ([.signal true].map (.does c path)) ≠ []) := by
  have hcall' : (s.ran c path cfg r' [.signal true]).creations c =
      .running path cfg r' := Function.update_self _ _ _
  have hroots : (s.ran c path cfg r' [.signal true]).startedRoots
      ([.signal true].map (.does c path)) = if cfg.hasParent then [] else [c] := by
    cases hroot : cfg.hasParent <;> simp [startedRoots, hcall', hroot]
  rw [hroots]
  cases hroot : cfg.hasParent with
  | true =>
      refine ⟨rootStep_of_runs hcall rfl ?_ ?_ (by simp) (by simp), ?_⟩
      · simp [hroot]
      · simp [hroot]
      · simp [StartsRoot, hcall, hroot]
  | false =>
      refine ⟨rootStep_of_runs hcall rfl ?_ ?_ ?_ (by simp), ?_⟩
      · simp [hsignal]
      · simp
      · simp [hroot, hsignal, hsignal', hphase, Phase.isEnded]
      · simp [StartsRoot, hcall, hroot, hsignal, henters]

/-- The runner tells nothing, or that the start has failed, and then it has
ended. -/
theorem rootStep_of_quiet {c : Nat} {path : ActorPath} {cfg : RunnerConfig}
    {r r' : Runner M Ev} {input : Input M Ev} {o : List (Obs M Ev)}
    (hcall : s.creations c = .running path cfg r)
    (hstep : Runner.step cfg r input = some (r', o))
    (hnot : ¬ (r.signal = true ∧ r.EntersRun input))
    (hkept : r'.signal = r.signal ∨ r'.signal = false ∧ r'.phase = .ended) :
    RootStep s (s.ran c path cfg r' o) [] ∧ ¬ s.StartsRoot (.run c input) := by
  refine ⟨rootStep_of_runs hcall rfl ?_ ?_ (by simp) (by simp), ?_⟩
  · intro _ hsignal
    rcases hkept with hsame | ⟨hsignal', -⟩
    · rw [hsame, hsignal]
    · exact hsignal'
  · intro _ hsignal' hopen
    rcases hkept with hsame | ⟨-, hended⟩
    · refine Or.inl ⟨hsame ▸ hsignal', ?_⟩
      -- a runner that had ended would have stayed so
      by_contra hclosed
      have hended := (Runner.step_transition hstep).ended (by
        cases hphase : r.phase <;> simp_all [Phase.isEnded])
      simp [hended, Phase.isEnded] at hopen
    · simp [hended, Phase.isEnded] at hopen
  · rintro ⟨path', cfg', r₁, hcall₁, -, hsignal, henters⟩
    rw [hcall] at hcall₁
    cases hcall₁
    exact hnot ⟨hsignal, henters⟩

/-- The root actors that are told `true` in a step have started in it. -/
theorem rootStep_of_step (hstep : s.step i = some (t, o)) :
    RootStep s t (t.startedRoots o) ∧ (s.StartsRoot i ↔ t.startedRoots o ≠ []) := by
  cases step_transition hstep with
  | refuses c path cfg hcall hexists =>
      have hkept := rootStep_of_creates (s := s)
        (t := { s with creations := Function.update s.creations c (.refused path) })
        (by simp [hcall]) (by simp) rfl
      simpa [startedRoots, StartsRoot] using hkept
  | checks c path cfg hcall hfree =>
      have hkept := rootStep_of_creates (s := s)
        (t := { s with creations := Function.update s.creations c (.checked path cfg) })
        (by simp [hcall]) (by simp) rfl
      simpa [startedRoots, StartsRoot] using hkept
  | inserts c path cfg hcall =>
      have hkept := rootStep_of_creates (s := s) (t := s.insert c path cfg)
        (by simp [hcall]) (by rintro path cfg r ⟨⟩; rfl) rfl
      simpa [startedRoots, StartsRoot] using hkept
  | runs c input path cfg r r' o hcall hrunner =>
      rcases Runner.signal_step hrunner with
        ⟨hsignal, henters, rfl, hsignal', hphase⟩ | ⟨hnot, hmem, hkept⟩
      · exact rootStep_of_signal hcall hsignal henters hsignal' hphase
      · rw [startedRoots_of_not_mem hmem]
        have hquiet := rootStep_of_quiet hcall hrunner hnot hkept
        exact ⟨hquiet.1, by simpa using hquiet.2⟩

end System

namespace Shutdown

/-- What the task waits for, and for which actor. -/
inductive WaitsFor (s : Shutdown M Ev) (call : Nat) : Prop
  /-- In `sender.send`, for room in the stop channel. -/
  | room (rest) (htask : s.task = .stopping) (hsenders : s.rootSenders = call :: rest)
      (hfull : s.system.stopFull call = true)
  /-- For the reply. -/
  | reply (htask : s.task = .awaiting call false)
      (hopen : s.system.channelOpen call = true)

/-- The task has finished, or it can take its next step, or it waits for an actor
that runs. -/
def GoesOn (s : Shutdown M Ev) : Prop :=
  s.task = .finished ∨ (s.step .pop).isSome ∨ (s.step .answered).isSome ∨
    ∃ call, s.WaitsFor call

/-- **The shutdown of `roots`** is under way or complete, where `os` was observed
since the task has taken the lock. -/
structure ShutsDown (s : Shutdown M Ev) (roots : List Nat)
    (os : List (ShutdownObs M Ev)) : Prop where
  /-- What the task has done is the beginning of a complete shutdown, and all of
  it once the task has finished. -/
  order : ∃ rest, StopsAll roots.reverse (taskLog os ++ rest) ∧
    (s.task = .finished ↔ rest = [])
  goesOn : s.GoesOn
  /-- Until then no other root actor runs. -/
  all : s.task.holdsLock = true → ∀ call, s.system.RunsRoot call → call ∈ roots

/-- The step leaves out no root actor: a sender that is popped is open, when the
task takes the lock the senders of all root actors that run are pushed, and while
it holds the lock no root actor starts. -/
def LeavesOutNone (s : Shutdown M Ev) : ShutdownInput M Ev → Prop
  | .pop => s.PopsOpen .pop
  | .cancelled => ∀ call ∈ s.created, s.system.channelOpen call = false
  | .system input => s.task.holdsLock = true → ¬ s.system.StartsRoot input
  | _ => True

variable {s t : Shutdown M Ev} {i : ShutdownInput M Ev} {o seen os : List (ShutdownObs M Ev)}
  {roots : List Nat}

/-- The task goes on with an actor that has ended or has room for a request. -/
theorem pop_isSome (htask : s.task = .stopping)
    (hroom : ∀ call rest, s.rootSenders = call :: rest →
      s.system.stopFull call = false) : (s.step .pop).isSome := by
  simp only [step, htask, if_true, pop]
  split
  case h_1 => rfl
  case h_2 call rest hsenders =>
    split
    case isFalse => rfl
    case isTrue hopen =>
      obtain ⟨path, cfg, r, hcall, hlive⟩ := System.channelOpen_iff.mp hopen
      have hended : r.phase.isEnded = false := by
        cases hphase : r.phase <;> simp_all [Phase.isEnded]
      have hspace : r.stopQueue.length < stopCapacity := by
        simpa [System.stopFull, hcall, hended] using hroom call rest hsenders
      simp [System.step, hcall, Runner.step, Runner.arrive, hended, hspace]

/-- The task goes on after a reply, and after the end of the actor without
one. -/
theorem answered_isSome {call : Nat} {answered : Bool}
    (htask : s.task = .awaiting call answered)
    (hanswered : answered = true ∨ s.system.channelOpen call = false) :
    (s.step .answered).isSome := by
  simp [step, htask, hanswered]

/-- The task is never stuck once it has taken the lock, unless it has returned
early. -/
theorem goesOn_iff (hstarted : s.task ≠ .waiting) : s.GoesOn ↔ s.task ≠ .returned := by
  constructor
  · rintro (hfinished | hpop | hanswered | ⟨call, hwaits⟩) hreturned
    · rw [hreturned] at hfinished
      contradiction
    · simp [step, hreturned] at hpop
    · simp [step, hreturned] at hanswered
    · cases hwaits <;> simp_all
  · intro hreturned
    cases htask : s.task with
    | waiting => contradiction
    | returned => contradiction
    | finished => exact Or.inl htask
    | stopping =>
        by_cases hfull : ∃ call rest, s.rootSenders = call :: rest ∧
            s.system.stopFull call = true
        · obtain ⟨call, rest, hsenders, hfull⟩ := hfull
          exact Or.inr (Or.inr (Or.inr ⟨call, .room rest htask hsenders hfull⟩))
        · refine Or.inr (Or.inl (pop_isSome htask fun call rest hsenders => ?_))
          rw [Bool.eq_false_iff]
          exact fun h => hfull ⟨call, rest, hsenders, h⟩
    | awaiting call answered =>
        by_cases hanswered : answered = true ∨ s.system.channelOpen call = false
        · exact Or.inr (Or.inr (Or.inl (answered_isSome htask hanswered)))
        · rw [not_or, Bool.not_eq_true, Bool.not_eq_false] at hanswered
          obtain ⟨rfl, hopen⟩ := hanswered
          exact Or.inr (Or.inr (Or.inr ⟨call, .reply htask hopen⟩))

theorem exists_stopsAll (calls : List Nat) :
    ∃ log : List (ShutdownObs M Ev), StopsAll calls log := by
  induction calls with
  | nil => exact ⟨_, .done⟩
  | cons call rest ih =>
      obtain ⟨log, hrest⟩ := ih
      exact ⟨_, .stops call rest log hrest⟩

/-- A task that has not returned can still complete the shutdown, with nothing
left to do just when it has finished. -/
theorem exists_completes (hstarted : s.task ≠ .waiting) (hreturned : s.task ≠ .returned) :
    ∃ log, s.Completes log ∧ (s.task = .finished ↔ log = []) := by
  obtain ⟨log, hlog⟩ := @exists_stopsAll M Ev s.rootSenders
  unfold Completes
  cases htask : s.task with
  | waiting => contradiction
  | returned => contradiction
  | finished => exact ⟨[], rfl, by simp⟩
  | awaiting call answered => exact ⟨_, ⟨log, rfl, hlog⟩, by simp⟩
  | stopping =>
      refine ⟨log, hlog, by simp, ?_⟩
      rintro rfl
      exact absurd hlog (not_stopsAll_nil _)

/-- The root actors of a history: told and pushed once, and no other one runs. -/
structure Counted (s : Shutdown M Ev) (seen : List (ShutdownObs M Ev)) : Prop where
  runs : ∀ call, s.system.RunsRoot call → call ∈ s.created ∨ call ∈ rootsCreated seen
  told : ∀ call, call ∈ s.created ∨ call ∈ rootsCreated seen → s.system.RootTold call
  once : ∀ call ∈ s.created, call ∉ rootsCreated seen
  nodup : s.created.Nodup

/-- A step of the system, with the root actors that it starts. -/
theorem Counted.of_rootStep {started : List Nat} (h : s.Counted seen)
    (hroots : System.RootStep s.system t.system started)
    (hcreated : t.created = s.created ++ started)
    (ho : rootsCreated o = []) : t.Counted (seen ++ o) := by
  have hseen : rootsCreated (seen ++ o) = rootsCreated seen := by
    have happend : rootsCreated (seen ++ o) = rootsCreated seen ++ rootsCreated o :=
      List.filterMap_append
    rw [happend, ho, List.append_nil]
  have hnew : ∀ call ∈ started, call ∉ s.created ∧ call ∉ rootsCreated seen :=
    fun call hmem => not_or.mp fun hold => (hroots.starts call hmem).1 (h.told call hold)
  constructor
  · intro call hruns
    rw [hcreated, hseen, List.mem_append]
    rcases hroots.runs call hruns with hruns | hmem
    · have hold := h.runs call hruns
      tauto
    · exact Or.inl (Or.inr hmem)
  · intro call hmem
    rw [hcreated, hseen, List.mem_append] at hmem
    rcases hmem with (hmem | hmem) | hmem
    · exact hroots.told call (h.told call (Or.inl hmem))
    · exact (hroots.starts call hmem).2.1
    · exact hroots.told call (h.told call (Or.inr hmem))
  · intro call hmem
    rw [hcreated, List.mem_append] at hmem
    rw [hseen]
    rcases hmem with hmem | hmem
    · exact h.once call hmem
    · exact (hnew call hmem).2
  · rw [hcreated, List.nodup_append]
    refine ⟨h.nodup, hroots.nodup, ?_⟩
    rintro call hmem _ hmem' rfl
    exact (hnew call hmem').1 hmem

/-- A step that leaves the root actors alone. -/
theorem rootStep_refl (s : System M Ev) : System.RootStep s s [] :=
  ⟨fun _ h => h, fun _ h => Or.inl h, by simp, by simp⟩

/-- A stop request starts nothing. -/
theorem rootStep_of_sent {call : Nat} {request : StopRequest} {t : System M Ev}
    {o : List (SystemObs M Ev)}
    (hsent : s.system.step (.run call (.arrival (.stop request))) = some (t, o)) :
    System.RootStep s.system t [] := by
  obtain ⟨hroots, hstarts⟩ := System.rootStep_of_step hsent
  have hnone : t.startedRoots o = [] := by
    by_contra hsome
    obtain ⟨path, cfg, r, -, -, -, hinput, -⟩ := hstarts.mpr hsome
    contradiction
  rwa [hnone] at hroots

theorem Counted.step (h : s.Counted seen) (ht : Transition s i t o) :
    t.Counted (seen ++ o) := by
  cases ht with
  | system input t o hstep =>
      exact h.of_rootStep (System.rootStep_of_step hstep).1 rfl (by simp [rootsCreated])
  | pushes call hcreated hfree =>
      have hseen : rootsCreated (seen ++ [.pushed call]) = rootsCreated seen ++ [call] := by
        simp [rootsCreated]
      refine ⟨fun c hruns => ?_, fun c hmem => ?_, fun c hmem => ?_, h.nodup.erase call⟩
      · rw [hseen, h.nodup.mem_erase_iff, List.mem_append, List.mem_singleton]
        have hold := h.runs c hruns
        tauto
      · rw [hseen, h.nodup.mem_erase_iff, List.mem_append, List.mem_singleton] at hmem
        rcases hmem with ⟨-, hmem⟩ | hmem | rfl
        · exact h.told c (Or.inl hmem)
        · exact h.told c (Or.inr hmem)
        · exact h.told c (Or.inl hcreated)
      · obtain ⟨hne, hmem⟩ := h.nodup.mem_erase_iff.mp hmem
        rw [hseen, List.mem_append, List.mem_singleton, not_or]
        exact ⟨h.once c hmem, hne⟩
  | requests call rest t o htask hsenders hopen hsent =>
      exact h.of_rootStep (rootStep_of_sent hsent) (by simp) rfl
  | _ => exact h.of_rootStep (rootStep_refl _) (by simp) rfl

theorem counted_of_execute {inputs : List (ShutdownInput M Ev)}
    (hrun : execute step new inputs = some (s, seen)) : s.Counted seen := by
  have hnew : (new : Shutdown M Ev).Counted [] := by
    refine ⟨fun call hruns => ?_, ?_, ?_, List.nodup_nil⟩
    · obtain ⟨⟨path, cfg, r, hcall, -⟩, -⟩ := hruns
      contradiction
    · simp [new, rootsCreated]
    · simp [new]
  exact execute_history (G := fun _ _ => True) (P := Counted)
    (fun _ _ _ _ _ h _ hstep => h.step (step_transition hstep))
    [] hnew (stepsMeet_true _ inputs) hrun

/-- What holds from the lock on as long as no root actor is left out. -/
structure UnderWay (s : Shutdown M Ev) (roots : List Nat)
    (os : List (ShutdownObs M Ev)) : Prop where
  started : s.task ≠ .waiting
  goesOn : s.task ≠ .returned
  order : ∀ log, s.Completes log → StopsAll roots.reverse (taskLog os ++ log)
  all : s.task.holdsLock = true → ∀ call, s.system.RunsRoot call → call ∈ roots
  told : ∀ call ∈ roots, s.system.RootTold call

theorem UnderWay.shutsDown (h : s.UnderWay roots os) : s.ShutsDown roots os := by
  obtain ⟨rest, hrest, hfinished⟩ := exists_completes h.started h.goesOn
  exact ⟨⟨rest, h.order rest hrest, hfinished⟩, (goesOn_iff h.started).mpr h.goesOn, h.all⟩

theorem LeavesOutNone.popsOpen (h : s.LeavesOutNone i) : s.PopsOpen i := by
  cases i with
  | pop => exact h
  | _ => trivial

/-- What the system hears of the task leaves the lock as it is. -/
theorem holdsLock_hear (task : ShutdownTask) (o : List (SystemObs M Ev)) :
    (task.hear o).holdsLock = task.holdsLock := by
  unfold ShutdownTask.hear
  split <;> rfl

/-- The root actors that a step starts: none while the task holds the lock, if the
step leaves out no root actor. -/
theorem Transition.rootStep (ht : Transition s i t o) (hstarted : s.task ≠ .waiting) :
    ∃ started, System.RootStep s.system t.system started ∧
      (t.task.holdsLock = true → s.LeavesOutNone i → started = []) := by
  cases ht with
  | system input t o hstep =>
      obtain ⟨hroots, hstarts⟩ := System.rootStep_of_step hstep
      refine ⟨_, hroots, fun hlock hnone => ?_⟩
      have hnot := hnone ((holdsLock_hear s.task o).symm.trans hlock)
      rwa [hstarts, not_not] at hnot
  | takesLock htask => contradiction
  | requests call rest t o htask hsenders hopen hsent =>
      exact ⟨[], rootStep_of_sent hsent, fun _ _ => rfl⟩
  | _ => exact ⟨[], rootStep_refl _, fun _ _ => rfl⟩

/-- The task takes the lock once. -/
theorem holdsLock_of_step (ht : Transition s i t o) (hstarted : s.task ≠ .waiting)
    (hlock : t.task.holdsLock = true) : s.task.holdsLock = true := by
  cases ht with
  | system input t o hstep => exact (holdsLock_hear s.task o).symm.trans hlock
  | pushes => exact hlock
  | _ => simp_all [ShutdownTask.holdsLock]

theorem UnderWay.kept (h : s.UnderWay roots os) (ht : Transition s i t o)
    (hnone : s.LeavesOutNone i) : t.UnderWay roots (os ++ o) := by
  have hpops := hnone.popsOpen
  obtain ⟨hstarted, hgoesOn⟩ := task_step h.started h.goesOn hpops ht
  obtain ⟨started, hroots, hlocked⟩ := ht.rootStep h.started
  refine ⟨hstarted, hgoesOn, fun log hlog => ?_, fun hlock call hruns => ?_,
    fun call hmem => hroots.told call (h.told call hmem)⟩
  · rw [taskLog_append, List.append_assoc]
    exact h.order _ ((completes_step h.started hpops ht).mpr hlog)
  · rcases hroots.runs call hruns with hruns | hmem
    · exact h.all (holdsLock_of_step ht h.started hlock) call hruns
    · rw [hlocked hlock hnone] at hmem
      contradiction

/-- A step that leaves out a root actor ends the task early or starts an actor
that it does not know of. -/
theorem UnderWay.leavesOutNone (h : s.UnderWay roots os) (ht : Transition s i t o)
    (hshut : t.ShutsDown roots (os ++ o)) : s.LeavesOutNone i := by
  cases ht with
  | system input t o hstep =>
      intro hlock hstarts
      obtain ⟨hroots, hiff⟩ := System.rootStep_of_step hstep
      obtain ⟨call, hmem⟩ := List.exists_mem_of_ne_nil _ (hiff.mp hstarts)
      obtain ⟨hnew, hruns⟩ := hroots.starts call hmem
      have hlock' := (holdsLock_hear s.task o).trans hlock
      exact hnew (h.told call (hshut.all hlock' call hruns))
  | pushes | goesOn => trivial
  | takesLock htask => exact absurd htask h.started
  | finishes htask hsenders =>
      intro call rest hcons
      rw [hsenders] at hcons
      contradiction
  | requests call rest t o htask hsenders hopen =>
      intro call' rest' hcons
      rw [hsenders] at hcons
      cases hcons
      exact hopen
  | returns call rest htask hsenders hclosed =>
      exact absurd rfl ((goesOn_iff (by simp)).mp hshut.goesOn)

/-- When the task takes the lock, its roots are those pushed so far. -/
theorem underWay_iff (h : s.Counted seen)
    (hsenders : s.rootSenders = (rootsCreated seen).reverse) :
    (s.LeavesOutNone .cancelled →
        UnderWay { s with task := .stopping } (rootsCreated seen) []) ∧
      (ShutsDown { s with task := .stopping } (rootsCreated seen) [] →
        s.LeavesOutNone .cancelled) := by
  constructor
  · intro hclosed
    refine ⟨by simp, by simp, fun log hlog => ?_, fun _ call hruns => ?_,
      fun call hmem => h.told call (Or.inr hmem)⟩
    · have hstops : StopsAll s.rootSenders log := hlog
      rwa [hsenders] at hstops
    · rcases h.runs call hruns with hmem | hmem
      · have hopen := hclosed call hmem
        rw [hruns.2] at hopen
        contradiction
      · exact hmem
  · intro hshut call hmem
    rw [Bool.eq_false_iff]
    intro hopen
    exact h.once call hmem (hshut.all rfl call ⟨h.told call (Or.inl hmem), hopen⟩)

/-- **System shutdown is complete.**  In every run, whatever happened before the
task took the lock, and in every state that is reached from then on: what the
task has done is the beginning of a complete shutdown, it goes on as long as no
actor keeps it waiting, it ends with `StopSystem` sent once, and no other root
actor runs.  This is so if and only if no step leaves out a root actor. -/
theorem shutdown_complete_iff {inputs later : List (ShutdownInput M Ev)}
    {s t : Shutdown M Ev} {seen os : List (ShutdownObs M Ev)}
    (hrun : execute step new inputs = some (s, seen))
    (hlater : execute step s (.cancelled :: later) = some (t, os)) :
    (∀ before after u done, later = before ++ after →
        execute step s (.cancelled :: before) = some (u, done) →
          u.ShutsDown (rootsCreated seen) done) ↔
      StepsMeet step LeavesOutNone s (.cancelled :: later) := by
  obtain ⟨s', o, os', hstep, hrest, rfl⟩ := execute_cons_eq_some.mp hlater
  rw [stepsMeet_cons hstep]
  have hcounted := counted_of_execute hrun
  cases step_transition hstep with
  | takesLock htask =>
      obtain ⟨hlocks, hmisses⟩ :=
        underWay_iff hcounted (rootSenders_of_execute hrun htask)
      have hreached (hnone : s.LeavesOutNone .cancelled) :=
        execute_reached_iff (G := LeavesOutNone)
          (I := fun u os => UnderWay u (rootsCreated seen) os)
          (P := fun u os => ShutsDown u (rootsCreated seen) os)
          (fun u os i v o h hmove =>
            ⟨h.kept (step_transition hmove), h.leavesOutNone (step_transition hmove)⟩)
          (fun u os h => h.shutsDown) [] (hlocks hnone) hrest
      constructor
      · intro hall
        have hnone := hmisses (hall [] later _ _ rfl (execute_single hstep))
        refine ⟨hnone, (hreached hnone).mp fun before after u done happend hbefore => ?_⟩
        exact hall before after u done happend
          (execute_cons_eq_some.mpr ⟨_, _, done, hstep, hbefore, rfl⟩)
      · rintro ⟨hnone, hmeet⟩ before after u done happend hbefore
        obtain ⟨s'', o, done', hstep', hbefore', rfl⟩ := execute_cons_eq_some.mp hbefore
        rw [hstep] at hstep'
        cases hstep'
        exact (hreached hnone).mpr hmeet before after u done' happend hbefore'

/-- The path `/user/b`. -/
def secondPath : ActorPath := ⟨[['u', 's', 'e', 'r'], ['b']]⟩

/-- Two root actors are created. -/
def twoRoots : List (ShutdownInput Unit Unit) :=
  (System.starting 0 System.userPath System.plainRoot).map .system ++ [.push 0] ++
    (System.starting 1 secondPath System.plainRoot).map .system ++ [.push 1]

/-- The task pops the next sender, and its actor goes through the stop branch. -/
def popped (call : Nat) : List (ShutdownInput Unit Unit) :=
  [.pop] ++ ((System.stopping call).tail.map .system) ++ [.answered]

/-- Both actors are popped and stop. -/
def bothPopped : List (ShutdownInput Unit Unit) := popped 1 ++ popped 0 ++ [.pop]

/-- Both actors run when they are popped, and no other one starts. -/
theorem bothPopped_leavesOutNone :
    ∃ s seen t os, execute step new twoRoots = some (s, seen) ∧
      execute step s (.cancelled :: bothPopped) = some (t, os) ∧
      rootsCreated seen = [0, 1] ∧ t.task = .finished ∧
      StepsMeet step LeavesOutNone s (.cancelled :: bothPopped) := by
  refine ⟨_, _, _, _, rfl, rfl, rfl, rfl, ?_⟩
  refine (stepsMeet_cons rfl).mpr ⟨nofun, ?_⟩
  iterate 2
    refine (stepsMeet_cons rfl).mpr ⟨fun _ _ hsenders => by cases hsenders; rfl, ?_⟩
    iterate 5
      refine (stepsMeet_cons rfl).mpr ⟨fun _ => ?_, ?_⟩
      · exact System.not_startsRoot_of_told ⟨_, _, _, rfl, rfl, rfl⟩ _
    refine (stepsMeet_cons rfl).mpr ⟨trivial, ?_⟩
  exact (stepsMeet_cons rfl).mpr ⟨nofun, trivial⟩

/-- The last one created is asked first, both reply, and `StopSystem` is sent. -/
theorem twoRoots_shutDown :
    ∃ s seen t os, execute step new twoRoots = some (s, seen) ∧
      execute step s (.cancelled :: bothPopped) = some (t, os) ∧
      t.task = .finished ∧ StopsAll [1, 0] (taskLog os) := by
  obtain ⟨s, seen, t, os, hrun, hlater, hroots, htask, hmeet⟩ := bothPopped_leavesOutNone
  have hshut := (shutdown_complete_iff hrun hlater).mpr hmeet bothPopped [] t os
    (List.append_nil _).symm hlater
  obtain ⟨rest, hstops, hfinished⟩ := hshut.order
  rw [hfinished.mp htask, List.append_nil, hroots] at hstops
  exact ⟨s, seen, t, os, hrun, hlater, htask, hstops⟩

/-- The actor created last has stopped before the token is cancelled: the task
returns at once, no request is sent to the other actor, which still runs, and
`StopSystem` is not sent.  And an actor whose sender is not pushed yet runs on when
`StopSystem` is sent. -/
theorem shutdown_ends_at_closed_channel :
    (∃ s seen t r, execute step new (twoRoots ++
          (System.stopping 1 ++ System.terminating 1).map .system) =
        some (s, seen) ∧
      rootsCreated seen = [0, 1] ∧
      execute step s [.cancelled, .pop] = some (t, [.closed 1]) ∧
      t.task = .returned ∧
      t.system.creations 0 = .running System.userPath System.plainRoot r ∧
      r.phase = .selecting ∧ r.stopQueue = []) ∧
    (∃ (s t : Shutdown Unit Unit) (seen : List (ShutdownObs Unit Unit))
        (r : Runner Unit Unit),
      execute step new
          ((System.starting 0 System.userPath System.plainRoot).map .system) =
        some (s, seen) ∧
      execute step s [.cancelled, .pop] = some (t, [.stopSystem]) ∧
      t.system.creations 0 = .running System.userPath System.plainRoot r ∧
      r.phase = .selecting ∧ r.stopQueue = []) ∧
      ¬ ∀ (inputs later : List (ShutdownInput Unit Unit)) s t seen os,
        execute step new inputs = some (s, seen) →
          execute step s (.cancelled :: later) = some (t, os) → t.Ended →
            StopsAll (rootsCreated seen).reverse (taskLog os) := by
  refine ⟨⟨_, _, _, _, rfl, rfl, rfl, rfl, rfl, rfl, rfl⟩,
    ⟨_, _, _, _, rfl, rfl, rfl, rfl, rfl⟩, fun hall => ?_⟩
  have hstops := hall (twoRoots ++
    (System.stopping 1 ++ System.terminating 1).map .system) [.pop]
    _ _ _ _ rfl rfl (Or.inl rfl)
  obtain ⟨-, hrest⟩ := stopsAll_closed.mp hstops
  exact not_stopsAll_nil _ hrest

end Shutdown

end Actor
end Rush
