import Leveling.Search.Unstick

/-!
# Running a search

An iteration inserts one arc at most.  From time to time it propagates completely, and it
looks whether the peak has moved.  A run makes iterations until its time or its number of
iterations is used up, until the best peak cost is zero, or until the search is exhausted.

Time is given from outside, as the number of nanoseconds that have passed before each
iteration.
-/

namespace Leveling

variable {ρ α : Type} [RandomSource ρ] [Scalar α]

namespace Solver

/-- The number of iterations between two progress lines in the log. -/
def progressInterval : Nat := 10000

/-- Turns to the stretch where the cost is highest now.  The candidates of another stretch are
dropped. -/
def followPeak (s : Solver ρ α) : Checked (Bool × Solver ρ α) := do
  let s := { s with lastRangeCheck := s.counters.iterations }
  let peak ← s.profile.maximumRange
  if peak = s.active then return (false, s)
  let s := s.note (.rangeMoved s.active peak)
  let s ← { s with active := peak, pool := s.pool.clear }.propagate .touching
  return (true, s)

/-- Refills an empty pool. -/
def refill (s : Solver ρ α) (fresh : Bool) : Checked (Solver ρ α) := do
  if !s.pool.isEmpty then return s
  let s ←
    if fresh then s.regenerate
    else if 0 < s.config.batchSize then s.nextBatch
    else pure s
  if s.pool.isEmpty then s.unstick else return s

/-- Draws candidates until one can be inserted, and inserts it. -/
def insertDrawn (s : Solver ρ α) (complete : Bool) : Checked (Solver ρ α) := do
  let (drawn, pool, random) ← s.drawAdmitted (!s.scorer.isUniform) s.pool s.random
  let s := { s with pool, random }
  match drawn with
  | none => return s
  | some c =>
    if ← s.network.reaches c.target c.source then throw (.closesCycle c.source c.target)
    s.insertArc c.source c.target complete

/-- One iteration. -/
def iterate (s : Solver ρ α) : Checked (Solver ρ α) := do
  let iteration := s.counters.iterations + 1
  let s := { s with
    counters.iterations := iteration
    scorer := s.scorer.onIteration iteration }
  let s := if iteration % progressInterval = 0 then s.note (.progress s.counters s.best.peak)
    else s
  let complete : Bool := s.config.completeAfter ≤ iteration - s.lastComplete
  let s ← if complete then s.propagate .everything else pure s
  let (moved, s) ←
    if s.config.rangeCheckInterval ≤ iteration - s.lastRangeCheck then s.followPeak
    else pure (false, s)
  let s ← s.refill (moved || iteration == 1)
  let s ← s.insertDrawn complete
  return if complete then { s with lastComplete := iteration } else s

/-- Whether a run stops when `elapsed` nanoseconds have passed. -/
def isDone (s : Solver ρ α) (elapsed : Nat) : Bool :=
  (match s.config.timeLimit with
    | some limit => decide (limit * nanosPerMilli ≤ elapsed)
    | none => false) ||
  (match s.config.iterationLimit with
    | some limit => decide (limit ≤ s.counters.iterations)
    | none => false) ||
  s.exhausted || s.best.peak ≤ tolerance

/-- Makes iterations until the run is done, but at most `rounds` of them.  The time that has passed
before an iteration is given by the number of iterations so far. -/
def iterateUntilDone (elapsed : Nat → Nat) : (rounds : Nat) → Solver ρ α → Checked (Solver ρ α)
  | 0, s => .ok s
  | rounds + 1, s => do
    let now := elapsed s.counters.iterations
    if s.isDone now then return s
    let trace := s.trace.record now s.counters.iterations s.best.peak
    let s ← { s with trace }.iterate
    iterateUntilDone elapsed rounds s

/-- A whole run.  Its answer is the best schedule of the state in which it ends. -/
def run (s : Solver ρ α) (elapsed : Nat → Nat) (rounds : Nat) : Checked (Solver ρ α) := do
  let s := s.note (.begun s.problem.numJobs s.profile.kindName s.config.scorer s.best.peak)
  let s ← iterateUntilDone elapsed rounds s
  let s ← s.updateBest
  return s.note (.ended s.counters s.best.peak)

/-- Completes the propagation and checks the network, the bounds and the best schedule. -/
def verify (s : Solver ρ α) : Verdict (SolverError α) Unit := do
  let s ← (s.propagate .everything : Checked (Solver ρ α))
  s.network.check.adapt .network
  (s.bounds.check s.network).adapt .bounds
  (s.problem.checkFeasible s.best).adapt .schedule

end Solver

end Leveling
