import Rush.Actor.PostStop
import Rush.Actor.System

/-!
# The steps of a start

Before the creator is told, the runner of a root actor goes through `pre_start`
and the restarts that its strategy allows, until one of them succeeds or all of
them have failed.  `Starting` lists where the runner can be on this way, with
what it has called so far and the results it has got; a rank that every step of
the start decreases bounds the way.
-/

namespace Rush
namespace Actor

open Foundation

variable {M Ev : Type}

/-- The number of restarts that a strategy allows in a row. -/
def SupervisionStrategy.attempts : SupervisionStrategy → Nat
  | .stop => 0
  | .retry strategy => strategy.maxRetries

def Obs.isPreStart : Obs M Ev → Bool
  | .called .preStart => true
  | _ => false

def Obs.isPreRestart : Obs M Ev → Bool
  | .called (.preRestart _) => true
  | _ => false

/-- The creator is told whether the actor has started. -/
def Obs.isSignal : Obs M Ev → Bool
  | .signal _ => true
  | _ => false

/-- A step that takes the start further; arrivals and the operations of a hook
do not. -/
def Input.isStartStep : Input M Ev → Bool
  | .choice .proceed => true
  | .choice (.returns _) => true
  | _ => false

/-- How often a runner has called its start hooks and `post_stop`, and removed
its path. -/
structure StartCalls (seen : List (Obs M Ev)) (starts restarts stops removals : Nat) :
    Prop where
  preStart : seen.countP Obs.isPreStart = starts
  preRestart : seen.countP Obs.isPreRestart = restarts
  postStop : seen.countP Obs.isPostStop = stops
  removeActor : seen.countP Obs.isRemoveActor = removals

theorem StartCalls.append {seen o : List (Obs M Ev)}
    {starts restarts stops removals : Nat}
    (h : StartCalls seen starts restarts stops removals) {a b c d : Nat}
    (ho : StartCalls o a b c d) :
    StartCalls (seen ++ o) (starts + a) (restarts + b) (stops + c)
      (removals + d) where
  preStart := by rw [List.countP_append, h.preStart, ho.preStart]
  preRestart := by rw [List.countP_append, h.preRestart, ho.preRestart]
  postStop := by rw [List.countP_append, h.postStop, ho.postStop]
  removeActor := by rw [List.countP_append, h.removeActor, ho.removeActor]

namespace Runner

/-- Before the creator is told, `pre_start` returns the result 0 and the restart
number `n` the result `n`. -/
def ReturnsResults (results : Nat → Except ActorError Unit) (r : Runner M Ev) :
    Input M Ev → Prop
  | .choice (.returns result) =>
      match r.phase with
      | .inHook .preStart => result = results 0
      | .inHook (.preRestart _) => r.signal = true → result = results r.retries
      | _ => True
  | _ => True

/-- The attempts before number `n` have failed. -/
def FailedBefore (results : Nat → Except ActorError Unit) (n : Nat) : Prop :=
  ∀ j < n, results j ≠ .ok ()

/-- Where a root actor is while its creator waits. -/
inductive Starting (cfg : RunnerConfig) (results : Nat → Except ActorError Unit)
    (r : Runner M Ev) (seen : List (Obs M Ev)) : Prop
  | created (hphase : r.phase = .dispatch) (hlife : r.lifecycle = .created)
      (hretries : r.retries = 0) (hcalls : StartCalls seen 0 0 0 0)
  | inPreStart (hphase : r.phase = .inHook .preStart) (hretries : r.retries = 0)
      (hcalls : StartCalls seen 1 0 0 0)
  | failed (hphase : r.phase = .dispatch) (hlife : r.lifecycle = .failed)
      (hretries : r.retries = 0) (hcalls : StartCalls seen 1 0 0 0)
      (hfailed : FailedBefore results 1)
  | restarted (hphase : r.phase = .dispatch) (hlife : r.lifecycle = .restarted)
      (hbound : r.retries ≤ cfg.strategy.attempts)
      (hcalls : StartCalls seen 1 r.retries 0 0)
      (hfailed : FailedBefore results (r.retries + 1))
  | inPreRestart (error) (hphase : r.phase = .inHook (.preRestart error))
      (hlife : r.lifecycle = .restarted)
      (hbound : r.retries ≤ cfg.strategy.attempts)
      (hcalls : StartCalls seen 1 r.retries 0 0)
      (hfailed : FailedBefore results r.retries)
  | started (attempt) (hphase : r.phase = .dispatch) (hlife : r.lifecycle = .started)
      (hbound : attempt ≤ cfg.strategy.attempts)
      (hcalls : StartCalls seen 1 attempt 0 0)
      (hfailed : FailedBefore results attempt) (hok : results attempt = .ok ())
  | stopped (hphase : r.phase = .dispatch) (hlife : r.lifecycle = .stopped)
      (hcalls : StartCalls seen 1 cfg.strategy.attempts 0 0)
      (hfailed : FailedBefore results (cfg.strategy.attempts + 1))
  | inPostStop (hphase : r.phase = .inHook .postStop)
      (hcalls : StartCalls seen 1 cfg.strategy.attempts 1 0)
      (hfailed : FailedBefore results (cfg.strategy.attempts + 1))
  | terminated (hphase : r.phase = .dispatch) (hlife : r.lifecycle = .terminated)
      (hcalls : StartCalls seen 1 cfg.strategy.attempts 1 0)
      (hfailed : FailedBefore results (cfg.strategy.attempts + 1))
  | terminating (hphase : r.phase = .terminating) (hlife : r.lifecycle = .terminated)
      (hcalls : StartCalls seen 1 cfg.strategy.attempts 1 1)
      (hfailed : FailedBefore results (cfg.strategy.attempts + 1))

/-- The steps of the start that are left at most, with `m` restarts allowed. -/
def startRank (m : Nat) (r : Runner M Ev) : Nat :=
  match r.phase with
  | .dispatch =>
      match r.lifecycle with
      | .created => 2 * m + 8
      | .failed => 2 * m + 6
      | .restarted => 2 * (m - r.retries) + 5
      | .stopped => 4
      | .terminated => 2
      | .started => 1
  | .inHook .preStart => 2 * m + 7
  | .inHook (.preRestart _) => 2 * (m - r.retries) + 6
  | .inHook .postStop => 3
  | .terminating => 1
  | _ => 0

variable {cfg : RunnerConfig} {results : Nat → Except ActorError Unit}
  {r r' : Runner M Ev} {seen o : List (Obs M Ev)} {i : Input M Ev}

/-- A start reads the control of the runner only. -/
theorem Starting.congr (h : Starting cfg results r seen)
    (hphase : r'.phase = r.phase) (hlife : r'.lifecycle = r.lifecycle)
    (hretries : r'.retries = r.retries) : Starting cfg results r' seen := by
  cases h with
  | created => exact .created (by simp_all) (by simp_all) (by simp_all) ‹_›
  | inPreStart => exact .inPreStart (by simp_all) (by simp_all) ‹_›
  | failed => exact .failed (by simp_all) (by simp_all) (by simp_all) ‹_› ‹_›
  | restarted =>
      rw [← hretries] at *
      exact .restarted (by simp_all) (by simp_all) ‹_› ‹_› ‹_›
  | inPreRestart error =>
      rw [← hretries] at *
      exact .inPreRestart error (by simp_all) (by simp_all) ‹_› ‹_› ‹_›
  | started attempt =>
      exact .started attempt (by simp_all) (by simp_all) ‹_› ‹_› ‹_› ‹_›
  | stopped => exact .stopped (by simp_all) (by simp_all) ‹_› ‹_›
  | inPostStop => exact .inPostStop (by simp_all) ‹_› ‹_›
  | terminated => exact .terminated (by simp_all) (by simp_all) ‹_› ‹_›
  | terminating => exact .terminating (by simp_all) (by simp_all) ‹_› ‹_›

/-- The phases of a start. -/
theorem Starting.phase (h : Starting cfg results r seen) :
    r.phase = .dispatch ∨ r.phase = .inHook .preStart ∨
      (∃ error, r.phase = .inHook (.preRestart error)) ∨
      r.phase = .inHook .postStop ∨ r.phase = .terminating := by
  cases h <;> simp_all

/-- Arrivals and operations do not take the start further. -/
theorem Starting.idle (h : Starting cfg results r seen)
    (hidle : i.isStartStep = false) (hstep : step cfg r i = some (r', o)) :
    o = [] ∧ r'.phase = r.phase ∧ r'.lifecycle = r.lifecycle ∧
      r'.retries = r.retries ∧ r'.signal = r.signal := by
  cases i with
  | arrival arrival =>
      obtain ⟨_, harrive, heq⟩ := Option.map_eq_some_iff.mp hstep
      cases heq
      obtain ⟨hphase, hlife, -, hretries, hsignal⟩ := arrive_frame harrive
      exact ⟨rfl, hphase, hlife, hretries, hsignal⟩
  | choice choice =>
      change r.advance cfg choice = some (r', o) at hstep
      cases choice with
      | proceed | returns => contradiction
      | operation op =>
          rcases h.phase with hphase | hphase | ⟨e, hphase⟩ | hphase | hphase <;>
            simp only [advance, hphase] at hstep <;> try contradiction
          all_goals
            obtain ⟨_, hop, heq⟩ := Option.map_eq_some_iff.mp hstep
            cases heq
            obtain ⟨hphase', hlife, -, hretries, hsignal⟩ := operate_frame hop
            exact ⟨rfl, hphase', hlife, hretries, hsignal⟩
      | _ =>
          rcases h.phase with hphase | hphase | ⟨e, hphase⟩ | hphase | hphase <;>
            simp [advance, hphase] at hstep

/-- At `dispatch` a step of the start is a turn of the loop in `init`. -/
theorem dispatch_of_startStep (hphase : r.phase = .dispatch)
    (hstart : i.isStartStep = true) (hstep : step cfg r i = some (r', o)) :
    r.dispatch cfg = (r', o) := by
  cases i with
  | arrival arrival => contradiction
  | choice choice =>
      cases choice with
      | proceed => simpa [step, advance, hphase] using hstep
      | returns result => simp [step, advance, hphase] at hstep
      | _ => contradiction

/-- In a hook a step of the start is its return. -/
theorem returns_of_startStep {hook : Hook M} (hphase : r.phase = .inHook hook)
    (hstart : i.isStartStep = true) (hstep : step cfg r i = some (r', o)) :
    ∃ result, i = .choice (.returns result) ∧
      r.hookReturns hook result = some (r', o) := by
  cases i with
  | arrival arrival => contradiction
  | choice choice =>
      cases choice with
      | proceed =>
          cases hook <;> simp [step, advance, hphase] at hstep
      | returns result =>
          refine ⟨result, rfl, ?_⟩
          cases hook <;> simpa [step, advance, hphase] using hstep
      | _ => contradiction

theorem terminating_of_startStep (hphase : r.phase = .terminating)
    (hstart : i.isStartStep = true) (hstep : step cfg r i = some (r', o)) :
    r' = { r with signal := false, phase := .ended } ∧
      o = if r.signal then [.signal false] else [] := by
  cases i with
  | arrival arrival => contradiction
  | choice choice =>
      cases choice with
      | proceed =>
          simp only [step, advance, hphase, Option.some.injEq,
            Prod.mk.injEq] at hstep
          exact ⟨hstep.1.symm, hstep.2.symm⟩
      | returns result => simp [step, advance, hphase] at hstep
      | _ => contradiction

/-- What the creator is told, after which calls. -/
inductive Signalled (cfg : RunnerConfig) (results : Nat → Except ActorError Unit)
    (r : Runner M Ev) (seen : List (Obs M Ev)) : Bool → Prop
  | ok (attempt) (hlife : r.lifecycle = .started)
      (hbound : attempt ≤ cfg.strategy.attempts)
      (hcalls : StartCalls seen 1 attempt 0 0)
      (hfailed : FailedBefore results attempt) (hok : results attempt = .ok ()) :
      Signalled cfg results r seen true
  | err (hlife : r.lifecycle = .terminated)
      (hcalls : StartCalls seen 1 cfg.strategy.attempts 1 1)
      (hfailed : FailedBefore results (cfg.strategy.attempts + 1)) :
      Signalled cfg results r seen false

theorem FailedBefore.succ {n : Nat} (h : FailedBefore results n)
    (hn : results n ≠ .ok ()) : FailedBefore results (n + 1) := by
  intro j hj
  rcases Nat.lt_succ_iff_lt_or_eq.mp hj with hlt | rfl
  · exact h j hlt
  · exact hn

/-- Without an attempt left, the strategy stops the actor. -/
theorem applySupervisionStrategy_of_refused {strategy : SupervisionStrategy}
    (h : ¬ r.retries < strategy.attempts) :
    r.applySupervisionStrategy strategy =
      ({ r with lifecycle := .stopped }, [.becomes .stopped]) := by
  cases strategy with
  | stop => rfl
  | retry strategy =>
      have hnot : ¬ r.retries < strategy.maxRetries := h
      simp [applySupervisionStrategy, hnot]

theorem restart_calls (strategy : Strategy) (error : Option ActorError) :
    StartCalls (((strategy.nextBackoff.1.map Obs.backoff).toList ++
      [.called (.preRestart error)] : List (Obs M Ev))) 0 1 0 0 := by
  cases strategy.nextBackoff.1 <;> exact ⟨rfl, rfl, rfl, rfl⟩

theorem restart_signals (strategy : Strategy) (error : Option ActorError) :
    ((strategy.nextBackoff.1.map Obs.backoff).toList ++
      [.called (.preRestart error)] : List (Obs M Ev)).countP Obs.isSignal = 0 := by
  cases strategy.nextBackoff.1 <;> rfl

/-- A restart goes on to `pre_restart`, or to `post_stop` once the attempts are
used up. -/
theorem Starting.restart_turn (hphase : r.phase = .dispatch)
    (hlife : r.lifecycle = .restarted) (hbound : r.retries ≤ cfg.strategy.attempts)
    (hcalls : StartCalls seen 1 r.retries 0 0)
    (hfailed : FailedBefore results (r.retries + 1)) (hsignal : r.signal = true)
    (hpair : r.applySupervisionStrategy cfg.strategy = (r', o)) :
    r'.signal = true ∧ o.countP Obs.isSignal = 0 ∧
      Starting cfg results r' (seen ++ o) ∧
      startRank cfg.strategy.attempts r' < startRank cfg.strategy.attempts r := by
  by_cases hlt : r.retries < cfg.strategy.attempts
  · obtain ⟨strategy, hstrategy⟩ : ∃ strategy, cfg.strategy = .retry strategy := by
      cases hstrategy : cfg.strategy with
      | stop => simp [hstrategy, SupervisionStrategy.attempts] at hlt
      | retry strategy => exact ⟨strategy, rfl⟩
    rw [hstrategy] at hpair hlt ⊢
    have hretries : r.retries < strategy.maxRetries := hlt
    simp only [applySupervisionStrategy, hretries, if_true, Prod.mk.injEq] at hpair
    obtain ⟨rfl, rfl⟩ := hpair
    have hcalls' := hcalls.append (restart_calls strategy r.error)
    refine ⟨hsignal, restart_signals strategy r.error, ?_, ?_⟩
    · refine .inPreRestart r.error rfl hlife ?_ hcalls' hfailed
      rw [hstrategy]
      exact hretries
    · simp [startRank, hphase, hlife, SupervisionStrategy.attempts]
      omega
  · have hmax : r.retries = cfg.strategy.attempts := by omega
    rw [applySupervisionStrategy_of_refused hlt] at hpair
    cases hpair
    refine ⟨hsignal, rfl, .stopped hphase rfl ?_ ?_, ?_⟩
    · rw [← hmax]
      exact hcalls.append ⟨rfl, rfl, rfl, rfl⟩
    · rwa [← hmax]
    · simp [startRank, hphase, hlife]

/-- A step of the start goes further on the way, or it tells the creator. -/
theorem Starting.step (h : Starting cfg results r seen)
    (hroot : cfg.hasParent = false) (hsignal : r.signal = true)
    (hmeet : ReturnsResults results r i) (hstart : i.isStartStep = true)
    (hstep : step cfg r i = some (r', o)) :
    (r'.signal = true ∧ o.countP Obs.isSignal = 0 ∧
        Starting cfg results r' (seen ++ o) ∧
        startRank cfg.strategy.attempts r' < startRank cfg.strategy.attempts r) ∨
      r'.signal = false ∧ ∃ b, o = [.signal b] ∧
        Signalled cfg results r' seen b := by
  cases h with
  | created hphase hlife hretries hcalls =>
      have hpair := dispatch_of_startStep hphase hstart hstep
      simp only [dispatch, hlife, Prod.mk.injEq] at hpair
      obtain ⟨rfl, rfl⟩ := hpair
      refine Or.inl ⟨hsignal, rfl, .inPreStart rfl hretries
        (hcalls.append ⟨rfl, rfl, rfl, rfl⟩), ?_⟩
      simp [startRank, hphase, hlife]
  | inPreStart hphase hretries hcalls =>
      obtain ⟨result, rfl, hreturns⟩ := returns_of_startStep hphase hstart hstep
      have hresult : result = results 0 := by
        simpa [ReturnsResults, hphase] using hmeet
      cases result with
      | ok =>
          cases hreturns
          refine Or.inl ⟨hsignal, rfl, .started 0 rfl rfl (Nat.zero_le _)
            (hcalls.append ⟨rfl, rfl, rfl, rfl⟩) (fun j hj => by omega)
            hresult.symm, ?_⟩
          simp [startRank, hphase]
      | error e =>
          cases hreturns
          refine Or.inl ⟨hsignal, rfl, .failed rfl rfl hretries
            (hcalls.append ⟨rfl, rfl, rfl, rfl⟩) ?_, ?_⟩
          · intro j hj
            obtain rfl : j = 0 := by omega
            simp [← hresult]
          · simp [startRank, hphase]
  | failed hphase hlife hretries hcalls hfailed =>
      have hpair := dispatch_of_startStep hphase hstart hstep
      simp [dispatch, hlife, hroot] at hpair
      obtain ⟨rfl, rfl⟩ := hpair
      refine Or.inl ⟨hsignal, rfl, .restarted hphase rfl (by simp [hretries]) ?_ ?_,
        ?_⟩
      · rw [hretries]
        exact hcalls.append ⟨rfl, rfl, rfl, rfl⟩
      · rwa [hretries]
      · simp [startRank, hphase, hlife, hretries]
  | restarted hphase hlife hbound hcalls hfailed =>
      have hpair := dispatch_of_startStep hphase hstart hstep
      simp only [dispatch, hlife] at hpair
      exact Or.inl (restart_turn hphase hlife hbound hcalls hfailed hsignal hpair)
  | inPreRestart error hphase hlife hbound hcalls hfailed =>
      obtain ⟨result, rfl, hreturns⟩ := returns_of_startStep hphase hstart hstep
      have hresult : result = results r.retries := by
        simpa [ReturnsResults, hphase, hsignal] using hmeet
      cases result with
      | ok =>
          cases hreturns
          refine Or.inl ⟨hsignal, rfl, .started r.retries rfl rfl hbound
            (hcalls.append ⟨rfl, rfl, rfl, rfl⟩) hfailed hresult.symm, ?_⟩
          simp [startRank, hphase]
      | error e =>
          cases hreturns
          refine Or.inl ⟨hsignal, rfl, .restarted rfl hlife hbound
            (hcalls.append ⟨rfl, rfl, rfl, rfl⟩)
            (hfailed.succ (by simp [← hresult])), ?_⟩
          simp [startRank, hphase, hlife]
  | started attempt hphase hlife hbound hcalls hfailed hok =>
      have hpair := dispatch_of_startStep hphase hstart hstep
      simp only [dispatch, hlife, hsignal, if_true, Prod.mk.injEq] at hpair
      obtain ⟨rfl, rfl⟩ := hpair
      exact Or.inr ⟨rfl, true, rfl, .ok attempt rfl hbound hcalls hfailed hok⟩
  | stopped hphase hlife hcalls hfailed =>
      have hpair := dispatch_of_startStep hphase hstart hstep
      simp only [dispatch, hlife, Prod.mk.injEq] at hpair
      obtain ⟨rfl, rfl⟩ := hpair
      refine Or.inl ⟨hsignal, rfl, .inPostStop rfl
        (hcalls.append ⟨rfl, rfl, rfl, rfl⟩) hfailed, ?_⟩
      simp [startRank, hphase, hlife]
  | inPostStop hphase hcalls hfailed =>
      obtain ⟨result, rfl, hreturns⟩ := returns_of_startStep hphase hstart hstep
      cases result <;> cases hreturns <;>
        exact Or.inl ⟨hsignal, rfl, .terminated rfl rfl
          (hcalls.append ⟨rfl, rfl, rfl, rfl⟩) hfailed,
          by simp [startRank, hphase]⟩
  | terminated hphase hlife hcalls hfailed =>
      have hpair := dispatch_of_startStep hphase hstart hstep
      simp only [dispatch, hlife, Prod.mk.injEq] at hpair
      obtain ⟨rfl, rfl⟩ := hpair
      refine Or.inl ⟨hsignal, rfl, .terminating rfl rfl
        (hcalls.append ⟨rfl, rfl, rfl, rfl⟩) hfailed, ?_⟩
      simp [startRank, hphase, hlife]
  | terminating hphase hlife hcalls hfailed =>
      obtain ⟨rfl, rfl⟩ := terminating_of_startStep hphase hstart hstep
      rw [if_pos hsignal]
      exact Or.inr ⟨rfl, false, rfl, .err hlife hcalls hfailed⟩

theorem Starting.rank_pos (h : Starting cfg results r seen) :
    0 < startRank cfg.strategy.attempts r := by
  cases h <;> simp_all [startRank]

/-- A step of the start is always possible, with the results as they are. -/
theorem Starting.exists_step (h : Starting cfg results r seen) :
    ∃ i : Input M Ev, i.isStartStep = true ∧ ReturnsResults results r i ∧
      (Runner.step cfg r i).isSome := by
  rcases h.phase with hphase | hphase | ⟨e, hphase⟩ | hphase | hphase
  · exact ⟨.choice .proceed, rfl, trivial, by simp [Runner.step, advance, hphase]⟩
  · refine ⟨.choice (.returns (results 0)), rfl, by simp [ReturnsResults, hphase], ?_⟩
    cases results 0 <;> simp [Runner.step, advance, hphase, hookReturns]
  · refine ⟨.choice (.returns (results r.retries)), rfl,
      by simp [ReturnsResults, hphase], ?_⟩
    cases results r.retries <;> simp [Runner.step, advance, hphase, hookReturns]
  · exact ⟨.choice (.returns (.ok ())), rfl, by simp [ReturnsResults, hphase],
      by simp [Runner.step, advance, hphase, hookReturns]⟩
  · exact ⟨.choice .proceed, rfl, trivial, by simp [Runner.step, advance, hphase]⟩

/-- The creator is told once. -/
theorem Transition.told (ht : Transition cfg r r' o) (hsignal : r.signal = false) :
    r'.signal = false ∧ o.countP Obs.isSignal = 0 := by
  cases ht with
  | operates hook op r' hphase hop =>
      exact ⟨by rw [(operate_frame hop).2.2.2.2, hsignal], rfl⟩
  | restarts strategy => exact ⟨hsignal, restart_signals strategy r.error⟩
  | entersRun | ends => simp [hsignal]
  | takesError => exact ⟨hsignal, by cases cfg.hasParent <;> rfl⟩
  | _ => exact ⟨hsignal, rfl⟩

/-- The creator waits until it is told. -/
theorem Transition.tells (ht : Transition cfg r r' o) (hsignal : r.signal = true) :
    (r'.signal = true ∧ ∀ b, .signal b ∉ o) ∨
      r'.signal = false ∧ ∃ b, o = [.signal b] := by
  cases ht with
  | operates hook op r' hphase hop =>
      exact Or.inl ⟨by rw [(operate_frame hop).2.2.2.2, hsignal], by simp⟩
  | restarts strategy =>
      refine Or.inl ⟨hsignal, fun b hmem => ?_⟩
      cases hbackoff : strategy.nextBackoff.1 <;> simp [hbackoff] at hmem
  | entersRun | ends => simp [hsignal]
  | takesError => exact Or.inl ⟨hsignal, by cases cfg.hasParent <;> simp⟩
  | _ => exact Or.inl ⟨hsignal, by simp⟩

/-- A root actor after `steps` steps of its start, with what its creator has
been told. -/
structure StartLog (cfg : RunnerConfig) (results : Nat → Except ActorError Unit)
    (r : Runner M Ev) (seen : List (Obs M Ev)) (steps : Nat) : Prop where
  waiting : r.signal = true → Starting cfg results r seen
  rank : r.signal = true →
    steps + startRank cfg.strategy.attempts r ≤ 2 * cfg.strategy.attempts + 8
  told : seen.countP Obs.isSignal = if r.signal then 0 else 1

theorem StartLog.create :
    StartLog cfg results (create : Runner M Ev) [] 0 where
  waiting _ := .created rfl rfl rfl ⟨rfl, rfl, rfl, rfl⟩
  rank _ := by simp [startRank, Runner.create]
  told := rfl

theorem StartLog.step {steps : Nat} (h : StartLog cfg results r seen steps)
    (hroot : cfg.hasParent = false) (hmeet : ReturnsResults results r i)
    (hstep : step cfg r i = some (r', o)) :
    StartLog cfg results r' (seen ++ o)
      (steps + if i.isStartStep then 1 else 0) := by
  cases hsignal : r.signal with
  | false =>
      obtain ⟨hsignal', ho⟩ := (step_transition hstep).told hsignal
      exact ⟨by simp [hsignal'], by simp [hsignal'],
        by simp [List.countP_append, h.told, hsignal, hsignal', ho]⟩
  | true =>
      have htold : seen.countP Obs.isSignal = 0 := by simp [h.told, hsignal]
      have hrank := h.rank hsignal
      cases hstart : i.isStartStep with
      | false =>
          obtain ⟨rfl, hphase, hlife, hretries, hsame⟩ :=
            (h.waiting hsignal).idle hstart hstep
          rw [List.append_nil]
          refine ⟨fun _ => (h.waiting hsignal).congr hphase hlife hretries,
            fun _ => ?_, by simp [htold, hsame, hsignal]⟩
          simpa [startRank, hphase, hlife, hretries] using hrank
      | true =>
          rcases (h.waiting hsignal).step hroot hsignal hmeet hstart hstep with
            ⟨hsignal', ho, hnext, hlt⟩ | ⟨hsignal', b, rfl, -⟩
          · refine ⟨fun _ => hnext, fun _ => ?_,
              by simp [List.countP_append, htold, ho, hsignal']⟩
            simp only [if_true]
            omega
          · exact ⟨by simp [hsignal'], by simp [hsignal'],
              by simp [List.countP_append, htold, hsignal', Obs.isSignal]⟩

/-- The creator is told only while it waits. -/
theorem signal_of_signals {b : Bool}
    (hstep : Runner.step cfg r i = some (r', o)) (hmem : .signal b ∈ o) :
    r.signal = true := by
  cases hsignal : r.signal with
  | true => rfl
  | false =>
      obtain ⟨-, ho⟩ := (step_transition hstep).told hsignal
      rw [List.countP_eq_zero] at ho
      exact absurd rfl (ho _ hmem)

/-- What the creator is told, and when. -/
theorem StartLog.signals {steps : Nat} {b : Bool}
    (h : StartLog cfg results r seen steps) (hroot : cfg.hasParent = false)
    (hmeet : ReturnsResults results r i) (hstep : Runner.step cfg r i = some (r', o))
    (hmem : .signal b ∈ o) : o = [.signal b] ∧ Signalled cfg results r' seen b := by
  have hsignal := signal_of_signals hstep hmem
  cases hstart : i.isStartStep with
  | false =>
      obtain ⟨rfl, -⟩ := (h.waiting hsignal).idle hstart hstep
      simp at hmem
  | true =>
      rcases (h.waiting hsignal).step hroot hsignal hmeet hstart hstep with
        ⟨-, ho, -⟩ | ⟨-, b', rfl, hsignalled⟩
      · rw [List.countP_eq_zero] at ho
        exact absurd rfl (ho _ hmem)
      · obtain rfl : b = b' := by simpa using hmem
        exact ⟨rfl, hsignalled⟩

end Runner

end Actor
end Rush
