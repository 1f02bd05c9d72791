import Leveling.Bounds.Basic
import Leveling.Search.Scorer.Basic
import Leveling.Slots

/-!
# Candidates

A candidate is an arc that could be inserted between two jobs that run at the same time
inside the range under attack.  Candidates are collected in a pool, from which they are drawn
by weight or all alike.

There are two ways to fill the pool.  The *full scan* goes through the jobs of the range by
earliest start and keeps those that are still running, so only jobs that overlap are ever
compared.  The *batched scan* walks through all ordered pairs of jobs in a fixed order, stops
when it has found enough candidates, and goes on from there the next time.
-/

namespace Leveling

variable {ρ α : Type} [RandomSource ρ] [Scalar α]

/-- An arc that could be inserted, with the weight it is drawn by. -/
structure Candidate (α : Type) where
  source : Nat
  target : Nat
  weight : α

/-- The jobs of the range, and the candidates among them. -/
structure CandidatePool (α : Type) where
  /-- The jobs of the range, in the order of the scan. -/
  jobs : Array Nat
  /-- The number of pairs that the batched scan has looked at. -/
  scanned : Nat
  entries : Array (Candidate α)
  weightSum : α

namespace CandidatePool

/-- The pool without jobs and candidates. -/
def empty : CandidatePool α := ⟨#[], 0, #[], 0⟩

/-- The pool without its candidates. -/
def clear (pool : CandidatePool α) : CandidatePool α :=
  { pool with entries := #[], weightSum := 0 }

/-- Whether there are no candidates. -/
def isEmpty (pool : CandidatePool α) : Bool := pool.entries.isEmpty

/-- The pool with one more candidate. -/
def push (pool : CandidatePool α) (c : Candidate α) : CandidatePool α :=
  { pool with weightSum := pool.weightSum + c.weight, entries := pool.entries.push c }

/-- Those of the listed jobs that have a duration and run during the range. -/
def jobsIn (b : Bounds) (range : Span) : List Nat → Checked (List Nat)
  | [] => .ok []
  | job :: rest => do
    let included ← if 0 < (← b.duration job) then b.intersects job range else pure false
    let others ← jobsIn b range rest
    return if included then job :: others else others

/-- Takes the jobs of a range and restarts the batched scan. -/
def collect (pool : CandidatePool α) (b : Bounds) (range : Span) : Checked (CandidatePool α) := do
  let jobs ← jobsIn b range (List.range b.numJobs)
  return { pool with jobs := jobs.toArray, scanned := 0 }

/-- Whether the batched scan has pairs left. -/
def hasBatchLeft (pool : CandidatePool α) : Bool :=
  let n := pool.jobs.size
  2 ≤ n && pool.scanned < n * (n - 1)

/-- The number of ordered pairs of `n` jobs, as a counter. -/
def pairCount (n : Nat) : Checked Nat := asCount (n * (n - 1))

/-- Counts the pairs of jobs to see whether the batched scan has pairs left. -/
def batchPending (pool : CandidatePool α) : Checked Bool := do
  if pool.jobs.size < 2 then return false
  return pool.scanned < (← pairCount pool.jobs.size)

/-- Adds the arc from `source` to `target`, with one more than its score as its weight. -/
def add (source target : Nat) (pool : CandidatePool α) (scorer : Scorer ρ α) :
    Checked (CandidatePool α × Scorer ρ α) := do
  if scorer.isUniform then return (pool.push ⟨source, target, 1⟩, scorer)
  let (score, scorer) ← scorer.score source target
  return (pool.push ⟨source, target, 1 + score⟩, scorer)

/-- Adds the arc from `source` to `target` if the target fits in after the source. -/
def addFitting (b : Bounds) (source target : Nat) (pool : CandidatePool α)
    (scorer : Scorer ρ α) : Checked (CandidatePool α × Scorer ρ α) := do
  if ← b.fitsAfter source target then add source target pool scorer else return (pool, scorer)

/-! ## The full scan -/

/-- A job that the scan has met, with its earliest finish. -/
structure Running where
  job : Nat
  finish : Int

/-- The running jobs without those, from position `k` on, that have finished at `start`. -/
def dropFinished (start : Int) (k : Nat) (running : Array Running) : Array Running :=
  if inside : k < running.size then
    if running[k].finish ≤ start then dropFinished start k (swapRemove running k)
    else dropFinished start (k + 1) running
  else running
termination_by running.size - k
decreasing_by
  · have := size_swapRemove inside
    omega
  · omega

/-- Adds the arcs between a job and each running job, in both directions as far as they fit. -/
def addPairs (b : Bounds) (job : Nat) :
    List Running → CandidatePool α → Scorer ρ α → Checked (CandidatePool α × Scorer ρ α)
  | [], pool, scorer => .ok (pool, scorer)
  | other :: rest, pool, scorer => do
    let (pool, scorer) ← addFitting b other.job job pool scorer
    let (pool, scorer) ← addFitting b job other.job pool scorer
    addPairs b job rest pool scorer

/-- Goes through the listed jobs, beside which those in `running` may still run. -/
def sweep (b : Bounds) (running : Array Running) :
    List Nat → CandidatePool α → Scorer ρ α → Checked (CandidatePool α × Scorer ρ α)
  | [], pool, scorer => .ok (pool, scorer)
  | job :: rest, pool, scorer => do
    let start ← b.earliestStart job
    let running := dropFinished start 0 running
    let (pool, scorer) ← addPairs b job running.toList pool scorer
    let finish ← b.earliestFinish job
    sweep b (running.push ⟨job, finish⟩) rest pool scorer

/-- The jobs by earliest start, those with the same one by number. -/
def byStart (b : Bounds) (jobs : List Nat) : Checked (List Nat) := do
  let keyed ← jobs.mapM fun job => do return (← b.earliestStart job, job)
  let sorted := keyed.mergeSort fun p q => p.1 < q.1 || (p.1 == q.1 && p.2 ≤ q.2)
  return sorted.map Prod.snd

/-- Refills the pool with all candidates among the jobs of the range. -/
def buildFull (pool : CandidatePool α) (b : Bounds) (scorer : Scorer ρ α) :
    Checked (CandidatePool α × Scorer ρ α) := do
  let jobs ← byStart b pool.jobs.toList
  sweep b #[] jobs { pool.clear with jobs := jobs.toArray } scorer

/-! ## The batched scan -/

/-- Looks at the pairs from number `scanned` on until all `total` ones were looked at or the pool has
`size` candidates.  The pairs with the same distance of the jobs in the scan order are looked at in a
row. -/
def scanFrom (b : Bounds) (jobs : Array Nat) (total size scanned : Nat) (pool : CandidatePool α)
    (scorer : Scorer ρ α) : Checked (CandidatePool α × Scorer ρ α) :=
  if _inside : scanned < total ∧ pool.entries.size < size then do
    let first := scanned % jobs.size
    let step := scanned / jobs.size + 1
    let source ← fetch jobs first
    let target ← fetch jobs ((first + step) % jobs.size)
    let (pool, scorer) ←
      if ← b.overlap source target then addFitting b source target pool scorer
      else pure (pool, scorer)
    scanFrom b jobs total size (scanned + 1) pool scorer
  else .ok ({ pool with scanned }, scorer)
termination_by total - scanned
decreasing_by
  have := _inside.1
  omega

/-- Refills the pool with up to `size` candidates, going on where the last batch ended.  The jobs
are shuffled before the first batch if that is asked for. -/
def buildBatch (pool : CandidatePool α) (b : Bounds) (scorer : Scorer ρ α) (size : Nat)
    (randomize : Bool) (source : ρ) : Checked (CandidatePool α × Scorer ρ α × ρ) := do
  let pool := pool.clear
  if pool.jobs.size < 2 then return (pool, scorer, source)
  let (jobs, source) :=
    if pool.scanned = 0 ∧ randomize then RandomSource.shuffle pool.jobs source
    else (pool.jobs, source)
  let total ← pairCount jobs.size
  let (pool, scorer) ← scanFrom b jobs total size pool.scanned { pool with jobs } scorer
  return (pool, scorer, source)

/-! ## Drawing -/

/-- The position, counted from `i`, of the first candidate at which the sum of the weights so far
exceeds `remaining`. -/
def pick (remaining : α) (i : Nat) : List (Candidate α) → Option Nat
  | [] => none
  | c :: rest =>
    let remaining := remaining - c.weight
    if remaining < 0 then some i else pick remaining (i + 1) rest

/-- The position of a candidate at random, by weight or all alike.  The last one is taken if
rounding leaves a rest beyond all weights. -/
def drawPosition (pool : CandidatePool α) (weighted : Bool) (source : ρ) : Nat × ρ :=
  if weighted ∧ 0 < pool.weightSum then
    let (x, source) := RandomSource.fraction source
    let position := pick (x * pool.weightSum) 0 pool.entries.toList
    (position.getD (pool.entries.size - 1), source)
  else RandomSource.below pool.entries.size source

/-- Takes a candidate out of the pool at random, if there is one. -/
def draw (pool : CandidatePool α) (weighted : Bool) (source : ρ) :
    Option (Candidate α) × CandidatePool α × ρ :=
  if pool.entries.isEmpty then (none, pool, source)
  else
    let (position, source) := pool.drawPosition weighted source
    match pool.entries[position]? with
    | none => (none, pool, source)
    | some drawn =>
      let entries := swapRemove pool.entries position
      let weightSum := if entries.isEmpty then 0 else pool.weightSum - drawn.weight
      (some drawn, { pool with entries, weightSum }, source)

/-- A candidate that is drawn leaves the pool. -/
theorem size_draw {pool pool' : CandidatePool α} {weighted : Bool} {source source' : ρ}
    {c : Candidate α} (h : pool.draw weighted source = (some c, pool', source')) :
    pool'.entries.size + 1 = pool.entries.size := by
  unfold draw at h
  split at h
  · cases h
  · dsimp only at h
    split at h
    · cases h
    · rename_i found
      obtain ⟨inside, _⟩ := Array.getElem?_eq_some_iff.1 found
      cases h
      exact size_swapRemove inside

end CandidatePool

end Leveling
