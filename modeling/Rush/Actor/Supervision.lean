/-!
# Supervision strategies

`actor/src/supervision.rs`.  A strategy gives the number of restarts and the
delay before each of them.
-/

namespace Rush
namespace Actor

/-- A `std::time::Duration`, in nanoseconds. -/
abbrev Duration := Nat

/-- Enum of the strategies; a custom one holds the delays that are left. -/
inductive Strategy
  | noInterval (maxRetries : Nat)
  | fixedInterval (maxRetries : Nat) (duration : Duration)
  | customInterval (durations : List Duration) (maxRetries : Nat)
deriving DecidableEq

namespace Strategy

/-- `CustomIntervalStrategy::new`. -/
def custom (durations : List Duration) : Strategy :=
  .customInterval durations durations.length

/-- Maximum number of tries before permanently failing an actor. -/
def maxRetries : Strategy → Nat
  | noInterval n => n
  | fixedInterval n _ => n
  | customInterval _ n => n

/-- Wait duration before retrying, with the strategy that is left. -/
def nextBackoff : Strategy → Option Duration × Strategy
  | noInterval n => (none, noInterval n)
  | fixedInterval n d => (some d, fixedInterval n d)
  | customInterval [] n => (none, customInterval [] n)
  | customInterval (d :: ds) n => (some d, customInterval ds n)

end Strategy

/-- Supervision strategy. -/
inductive SupervisionStrategy
  | stop
  | retry (strategy : Strategy)
deriving DecidableEq

/-- A restart is attempted after this many restarts in a row. -/
def SupervisionStrategy.Restarts : SupervisionStrategy → Nat → Prop
  | .stop, _ => False
  | .retry strategy, retries => retries < strategy.maxRetries

instance (strategy : SupervisionStrategy) (retries : Nat) :
    Decidable (strategy.Restarts retries) := by
  cases strategy <;> unfold SupervisionStrategy.Restarts <;> infer_instance

end Actor
end Rush
