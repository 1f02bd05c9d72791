import Leveling.Bounds.Relax
import Leveling.Bounds.Tighten
import Leveling.Network.Query
import Leveling.Schedule
import Leveling.Search.Candidates
import Leveling.Search.Deletion
import Leveling.Search.Log

/-!
# The state of a search

A search looks for a schedule with a low peak cost.  Its present schedule starts every job at
its earliest start; the search changes it by inserting arcs between jobs that run at the same
time in the *active range*, the stretch where the cost is highest.

The state holds the network and its bounds, the profile of the present schedule, and the best
schedule so far.  Between any two operations of this module the profile has every job at its
earliest start.
-/

namespace Leveling

variable {ρ α : Type} [RandomSource ρ] [Scalar α]

/-- The state of a search. -/
structure Solver (ρ α : Type) where
  problem : Problem α
  config : Config α
  random : ρ
  /-- The network of the instance. -/
  base : Network
  network : Network
  bounds : Bounds
  profile : Profile α
  scorer : Scorer ρ α
  pool : CandidatePool α
  deletion : DeletionSearch
  /-- The stretch under attack. -/
  active : Span
  /-- How many times arcs may still be deleted before the search starts over. -/
  deletionsLeft : Nat
  /-- The iteration of the last complete propagation. -/
  lastComplete : Nat
  /-- The iteration of the last look at the peak. -/
  lastRangeCheck : Nat
  /-- Whether nothing could be inserted into the network of the instance. -/
  exhausted : Bool
  best : Schedule α
  counters : Counters
  trace : ScoreTrace α
  log : Array (LogEvent α)

/-- The reasons for which a search is refused, and what can be wrong with its state. -/
inductive SolverError (α : Type) where
  | config (error : ConfigError α)
  | profile (error : ProfileError)
  /-- The lag of a precedence is shorter than the duration of its source. -/
  | unsupportedPrecedence (source target : Nat) (lag duration : Int)
  | network (defect : Network.Defect)
  | bounds (defect : Bounds.Defect)
  | schedule (violation : ScheduleViolation)

/-- The wording of a refusal. -/
def SolverError.message : SolverError Float → String
  | .config error => error.message
  | .profile error => error.message
  | .unsupportedPrecedence source target lag duration =>
    s!"precedence {source} -> {target} has lag {lag}, " ++
      s!"shorter than the duration {duration} of job {source}"
  | .network defect => defect.message
  | .bounds defect => defect.message
  | .schedule violation => violation.message

namespace Solver

/-- Accepts precedences whose lags are not shorter than the durations of their sources. -/
def checkLags (durations : Array Int) : List Precedence → Verdict (SolverError α) Unit
  | [] => pure ()
  | p :: rest => do
    let duration : Int ← (fetch durations p.source : Checked Int)
    if p.lag < duration then throw (.unsupportedPrecedence p.source p.target p.lag duration)
    checkLags durations rest

/-- Places the listed jobs at their earliest starts. -/
def placeAll (b : Bounds) (jobs : List Nat) (profile : Profile α) : Checked (Profile α) :=
  jobs.foldlM (fun profile job => do profile.insert job (← b.earliestStart job)) profile

/-- The number of nanoseconds in a millisecond. -/
def nanosPerMilli : Nat := 1000000

/-- The first state of a search. -/
def new (p : Problem α) (config : Config α) : Verdict (SolverError α) (Solver ρ α) := do
  match config.check with
  | .error error => throw (.config error)
  | .ok () => pure ()
  checkLags p.durations p.precedences
  let network ← (Network.ofProblem p : Checked Network)
  let bounds := Bounds.ofProblem p
  let unplaced ← (Profile.empty p config.profile config.maxArrayHorizon).adapt .profile
  let profile ←
    (placeAll bounds (List.range bounds.numJobs) unplaced : Checked (Profile α))
  let active ← (profile.maximumRange : Checked Span)
  return {
    problem := p
    config
    random := RandomSource.ofSeed config.seed
    base := network
    network
    bounds
    profile
    scorer := .ofConfig config p
    pool := .empty
    deletion := .empty p.numJobs config.deletionDepth config.deletionPenalty
    active
    deletionsLeft := config.deletionsBeforeReset
    lastComplete := 0
    lastRangeCheck := 0
    exhausted := false
    best := .ofStarts bounds.early.value profile.maximum
    counters := .zero
    trace := .empty (config.traceInterval.map (· * nanosPerMilli))
    log := #[] }

/-- The state with an event logged, if the verbosity asks for it. -/
def note (s : Solver ρ α) (event : LogEvent α) : Solver ρ α :=
  if event.level.threshold ≤ s.config.verbosity then { s with log := s.log.push event } else s

/-! ## Bounds and profile together -/

/-- Moves the listed jobs to their earliest starts. -/
def moveJobs (s : Solver ρ α) (jobs : List Nat) : Checked (Solver ρ α) := do
  let profile ← jobs.foldlM
    (fun (profile : Profile α) job => do profile.reposition job (← s.bounds.earliestStart job))
    s.profile
  return { s with profile }

/-- Takes up deferred jobs on both sides, and moves the jobs whose earliest starts change. -/
def propagate (s : Solver ρ α) (drain : Drain) : Checked (Solver ρ α) := do
  let (bounds, _) ← s.bounds.tighten s.network .late [] drain s.active
  let (bounds, changed) ← bounds.tighten s.network .early [] drain s.active
  { s with bounds }.moveJobs changed

/-- Inserts an arc that makes the target wait for the source, and tightens the bounds. -/
def insertArc (s : Solver ρ α) (source target : Nat) (complete : Bool) :
    Checked (Solver ρ α) := do
  let s := { s with counters.insertions := s.counters.insertions + 1 }
  let s := s.note (.inserted source target (← s.bounds.earliestStart source)
    (← s.bounds.earliestStart target) (← s.bounds.latestFinish target))
  let drain := if complete then Drain.everything else Drain.nothing
  let network ← s.network.insert source target (← s.bounds.duration source) false
  let (bounds, changed) ← s.bounds.tighten network .early [source] drain s.active
  let (bounds, _) ← bounds.tighten network .late [target] drain s.active
  { s with network, bounds }.moveJobs changed

/-- Deletes arcs and relaxes the bounds. -/
def deleteArcs (s : Solver ρ α) (refs : List ArcRef) : Checked (Solver ρ α) := do
  let s := { s with counters.deletions := s.counters.deletions + 1 }
  let targets ← refs.mapM fun ref => do return (← s.network.arc ref).target
  let network ← s.network.delete refs
  let (bounds, changed) ← s.bounds.relax network .early targets
  let (bounds, _) ← bounds.relax network .late (refs.map ArcRef.source)
  { s with network, bounds }.moveJobs changed

/-- Keeps the present schedule if it is better than the best one so far. -/
def updateBest (s : Solver ρ α) : Checked (Solver ρ α) := do
  let s ← if s.bounds.hasDeferred then s.propagate .everything else pure s
  let cost := s.profile.maximum
  if cost < s.best.peak then
    let s := { s with best := .ofStarts s.bounds.early.value cost,
                      counters.improvements := s.counters.improvements + 1 }
    return s.note (.improved cost s.counters.iterations)
  else return s

/-! ## Candidates -/

/-- Refills the pool with the next batch. -/
def nextBatch (s : Solver ρ α) : Checked (Solver ρ α) := do
  let (pool, scorer, random) ← s.pool.buildBatch s.bounds s.scorer s.config.batchSize
    s.config.randomizeBatches s.random
  return { s with pool, scorer, random }

/-- Collects the candidates of the active range. -/
def regenerate (s : Solver ρ α) : Checked (Solver ρ α) := do
  let pool ← s.pool.collect s.bounds s.active
  let s := { s with pool }
  let s ←
    if s.config.batchSize = 0 then do
      let (pool, scorer) ← s.pool.buildFull s.bounds s.scorer
      pure { s with pool, scorer }
    else s.nextBatch
  return s.note (.collected s.pool.entries.size s.pool.jobs.size s.active)

/-- Whether the arc between two jobs can be inserted now. -/
def admits (s : Solver ρ α) (source target : Nat) : Checked Bool := do
  if !(← s.bounds.overlap source target) then return false
  if !(← s.bounds.intersects source s.active) then return false
  if !(← s.bounds.intersects target s.active) then return false
  s.bounds.fitsAfter source target

/-- Draws candidates until one can be inserted.  The others are lost. -/
def drawAdmitted (s : Solver ρ α) (weighted : Bool) (pool : CandidatePool α) (random : ρ) :
    Checked (Option (Candidate α) × CandidatePool α × ρ) :=
  match _drawn : pool.draw weighted random with
  | (none, pool, random) => .ok (none, pool, random)
  | (some c, pool, random) => do
    if ← s.admits c.source c.target then return (some c, pool, random)
    else drawAdmitted s weighted pool random
termination_by pool.entries.size
decreasing_by
  have := CandidatePool.size_draw _drawn
  omega

end Solver

end Leveling
