import Rush.Actor.RunnerSpec

/-!
# The delays between restarts

A strategy with custom delays is a queue that `next_backoff` consumes, but the
runner asks the actor type for a strategy at each restart and drops it
afterwards.  Every restart of a streak waits for the first delay of the queue,
and the number of restarts is still the length of the queue.
-/

namespace Rush
namespace Actor

open Foundation

variable {M Ev : Type}

/-- The delay that is being waited, and the delays before the restarts that were
attempted since the runner last became started. -/
structure RestartLog where
  pending : Option Duration
  waits : List (Option Duration)
deriving DecidableEq

/-- What an observation adds to the log. -/
def RestartLog.add (log : RestartLog) : Obs M Ev → RestartLog
  | .backoff duration => { log with pending := some duration }
  | .called (.preRestart _) => ⟨none, log.waits ++ [log.pending]⟩
  | .becomes .started => ⟨none, []⟩
  | _ => log

/-- The restarts of the streak in which a history ends. -/
def restartLog (seen : List (Obs M Ev)) : RestartLog :=
  seen.foldl RestartLog.add ⟨none, []⟩

theorem restartLog_append (seen o : List (Obs M Ev)) :
    restartLog (seen ++ o) = o.foldl RestartLog.add (restartLog seen) :=
  List.foldl_append

/-- The delays waited before the consecutive restarts. -/
def waits (seen : List (Obs M Ev)) : List (Option Duration) :=
  (restartLog seen).waits

/-- The delay that a strategy gives to each restart. -/
def SupervisionStrategy.firstBackoff : SupervisionStrategy → Option Duration
  | .stop => none
  | .retry strategy => strategy.nextBackoff.1

@[simp] theorem Strategy.custom_nextBackoff (ds : List Duration) :
    (Strategy.custom ds).nextBackoff.1 = ds.head? := by
  cases ds <;> rfl

@[simp] theorem Strategy.custom_maxRetries (ds : List Duration) :
    (Strategy.custom ds).maxRetries = ds.length := rfl

namespace Runner

variable {cfg : RunnerConfig} {r r' : Runner M Ev} {seen o : List (Obs M Ev)}

/-- The log of a runner holds one and the same delay for each retry. -/
structure Backoffs (cfg : RunnerConfig) (r : Runner M Ev)
    (seen : List (Obs M Ev)) : Prop where
  unstarted : r.lifecycle = .created → r.retries = 0
  bounded : ∀ strategy, cfg.strategy = .retry strategy →
    r.retries ≤ strategy.maxRetries
  log : restartLog seen =
    ⟨none, List.replicate r.retries cfg.strategy.firstBackoff⟩

/-- The steps that change the number of retries or the log. -/
theorem Transition.retries (hplace : r.InPlace) (ht : Transition cfg r r' o) :
    (∃ strategy, cfg.strategy = .retry strategy ∧
        r.retries < strategy.maxRetries ∧ r'.retries = r.retries + 1 ∧
        r'.lifecycle = .restarted ∧
        o = (strategy.nextBackoff.1.map Obs.backoff).toList ++
          [.called (.preRestart r.error)]) ∨
      (r'.lifecycle = .started ∧ o = [.becomes .started] ∧
        (r.lifecycle = .created ∧ r'.retries = r.retries ∨ r'.retries = 0)) ∨
      r'.retries = r.retries ∧ (r'.lifecycle = .created → r.lifecycle = .created) ∧
        ∀ log, o.foldl RestartLog.add log = log := by
  unfold InPlace at hplace
  cases ht with
  | restarts strategy hphase hlife hstrategy hretries =>
      exact Or.inl ⟨strategy, hstrategy, hretries, rfl, hlife, rfl⟩
  | preStartOk hphase =>
      rw [hphase] at hplace
      exact Or.inr (Or.inl ⟨rfl, rfl, Or.inl ⟨hplace, rfl⟩⟩)
  | preRestartOk e hphase => exact Or.inr (Or.inl ⟨rfl, rfl, Or.inr rfl⟩)
  | operates hook op r' hphase hop =>
      obtain ⟨-, hlife', -, hretries', -⟩ := operate_frame hop
      exact Or.inr (Or.inr ⟨hretries', fun h => hlife' ▸ h, fun _ => rfl⟩)
  | takesChildError error rest hook hphase hsignal hqueue hhook =>
      rcases hhook with ⟨e, rfl, rfl⟩ | ⟨e, sender, rfl, rfl⟩ <;>
        exact Or.inr (Or.inr ⟨rfl, id, fun _ => rfl⟩)
  | entersRun | takesError | ends =>
      refine Or.inr (Or.inr ⟨rfl, id, fun _ => ?_⟩)
      split <;> rfl
  | _ => exact Or.inr (Or.inr ⟨rfl, by simp [emitFail], fun _ => rfl⟩)

theorem Backoffs.step (h : Backoffs cfg r seen) (hplace : r.InPlace)
    (ht : Transition cfg r r' o) : Backoffs cfg r' (seen ++ o) := by
  rcases ht.retries hplace with
    ⟨strategy, hstrategy, hlt, hretries, hlife, rfl⟩ |
    ⟨hlife, rfl, hretries⟩ | ⟨hretries, hlife, hlog⟩
  · refine ⟨by simp [hlife], ?_, ?_⟩
    · intro strategy' hstrategy'
      obtain rfl : strategy = strategy' := by simpa [hstrategy] using hstrategy'
      omega
    · -- the delay is waited before the call, and it is the first one again
      rw [restartLog_append, h.log, hretries, List.replicate_succ']
      have hfirst : cfg.strategy.firstBackoff = strategy.nextBackoff.1 := by
        rw [hstrategy]
        rfl
      rw [hfirst]
      cases strategy.nextBackoff.1 <;> rfl
  · have hzero : r'.retries = 0 := by
      rcases hretries with ⟨hcreated, hsame⟩ | hzero
      · rw [hsame, h.unstarted hcreated]
      · exact hzero
    refine ⟨by simp [hlife], fun _ _ => by simp [hzero], ?_⟩
    rw [restartLog_append, hzero]
    rfl
  · refine ⟨fun hcreated => ?_, ?_, ?_⟩
    · rw [hretries, h.unstarted (hlife hcreated)]
    · simpa [hretries] using h.bounded
    · rw [restartLog_append, hlog, h.log, hretries]

theorem backoffs_of_execute {inputs : List (Input M Ev)}
    (hrun : execute (step cfg) create inputs = some (r, seen)) :
    Backoffs cfg r seen :=
  execute_history_of_run (G := fun _ _ => True)
    (fun _ _ _ _ _ _ hbefore hold _ hstep =>
      hold.step (inPlace_of_execute hbefore) (step_transition hstep))
    ⟨fun _ => rfl, fun _ _ => Nat.zero_le _, rfl⟩ (stepsMeet_true _ _) hrun

/-- With any strategy, all consecutive restarts wait for the same delay. -/
theorem waits_eq_replicate {inputs : List (Input M Ev)}
    (hrun : execute (step cfg) create inputs = some (r, seen)) :
    waits seen = List.replicate r.retries cfg.strategy.firstBackoff := by
  rw [waits, (backoffs_of_execute hrun).log]

/-- **The delays are the first ones of the sequence**, over all the restarts that
were attempted in a row, if and only if these delays of the sequence are all
equal to its first. -/
theorem backoff_sequence_iff (hasParent : Bool) (ds : List Duration)
    {inputs : List (Input M Ev)} {r : Runner M Ev} {seen : List (Obs M Ev)}
    (hrun : execute (step ⟨hasParent, .retry (Strategy.custom ds)⟩) create
      inputs = some (r, seen)) :
    (waits seen).length ≤ ds.length ∧
      (waits seen = (ds.take (waits seen).length).map some ↔
        ∀ d ∈ ds.take (waits seen).length, ds.head? = some d) := by
  have hwaits := waits_eq_replicate hrun
  have hbound : r.retries ≤ ds.length := (backoffs_of_execute hrun).bounded _ rfl
  have hlength : (ds.take r.retries).length = r.retries := by
    rw [List.length_take, Nat.min_eq_left hbound]
  simp only [SupervisionStrategy.firstBackoff, Strategy.custom_nextBackoff] at hwaits
  rw [hwaits, List.length_replicate]
  refine ⟨hbound, ?_⟩
  have hiff := List.map_eq_replicate_iff (l := ds.take r.retries)
    (f := some) (b := ds.head?)
  rw [hlength] at hiff
  rw [eq_comm, hiff]
  simp only [eq_comm]

/-- A root actor whose start and first restart fail. -/
def failingStarts : List (Input Unit Unit) :=
  [.choice .proceed, .choice (.returns (.error (.functional "start"))),
    .choice .proceed, .choice .proceed,
    .choice (.returns (.error (.functional "start"))), .choice .proceed]

/-- With two equal delays the restarts wait for both of them. -/
theorem failingStarts_wait_in_sequence :
    ∃ r seen,
      execute (step ⟨false, .retry (Strategy.custom [1, 1])⟩) create
          failingStarts = some (r, seen) ∧
        (waits seen).length = 2 ∧
        waits seen = ([1, 1].take (waits seen).length).map some := by
  have hrun : execute (step ⟨false, .retry (Strategy.custom [1, 1])⟩) create
      failingStarts = some _ := rfl
  exact ⟨_, _, hrun, rfl,
    (backoff_sequence_iff false [1, 1] hrun).2.mpr (by decide)⟩

/-- With the delays 1 and 2, both restarts wait for 1. -/
theorem second_delay_unused :
    (execute (step ⟨false, .retry (Strategy.custom [1, 2])⟩) create
        failingStarts).map Prod.snd =
      some [.called .preStart, .becomes .failed, .becomes .restarted, .backoff 1,
        .called (.preRestart (some (.functional "start"))), .backoff 1,
        .called (.preRestart (some (.functional "start")))] ∧
    ¬ ∀ (ds : List Duration) (inputs : List (Input Unit Unit))
        (r : Runner Unit Unit) (seen : List (Obs Unit Unit)),
      execute (step ⟨false, .retry (Strategy.custom ds)⟩) create inputs =
          some (r, seen) →
        (waits seen).length ≤ ds.length →
          waits seen = (ds.take (waits seen).length).map some := by
  refine ⟨by decide, fun hall => ?_⟩
  have hwaits := hall [1, 2] failingStarts _ _ rfl (by decide)
  exact absurd hwaits (by decide)

end Runner
end Actor
end Rush
