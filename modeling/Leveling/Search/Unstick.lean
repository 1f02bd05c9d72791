import Leveling.Search.State

/-!
# Getting unstuck

When the pool has run dry the search looks for something else to insert: at a peak that has
moved, after a deletion of arcs that makes room for a pair of jobs, or after a fresh start
from the network of the instance.  If not even a fresh start leaves a candidate, the search
is exhausted.
-/

namespace Leveling

variable {ρ α : Type} [RandomSource ρ] [Scalar α]

namespace Solver

/-- Starts over from the network of the instance.  The present schedule is first compared to the
best one, and the scorer learns from it. -/
def reset (s : Solver ρ α) : Checked (Solver ρ α) := do
  let s ← s.updateBest
  let quality := s.profile.maximum
  let scorer ← s.scorer.learn quality s.bounds.early.value s.network
  let s := { s with
    scorer
    network := s.network.restore s.base
    bounds := s.bounds.reset
    counters.resets := s.counters.resets + 1 }
  let s ← s.moveJobs (List.range s.bounds.numJobs)
  let active ← s.profile.maximumRange
  let s := { s with active, pool := s.pool.clear }
  return s.note (.startedOver s.counters.resets quality s.best.peak)

/-- The jobs by earliest finish, those with the same one by number. -/
def byFinish (b : Bounds) (jobs : List Nat) : Checked (List Nat) := do
  let keyed ← jobs.mapM fun job => do return (← b.earliestFinish job, job)
  let sorted := keyed.mergeSort fun p q => p.1 < q.1 || (p.1 == q.1 && p.2 ≤ q.2)
  return sorted.map Prod.snd

/-- The jobs from the latest earliest start down, those with the same one by number. -/
def byStartDown (b : Bounds) (jobs : List Nat) : Checked (List Nat) := do
  let keyed ← jobs.mapM fun job => do return (← b.earliestStart job, job)
  let sorted := keyed.mergeSort fun p q => q.1 < p.1 || (p.1 == q.1 && p.2 ≤ q.2)
  return sorted.map Prod.snd

/-- Whether two jobs that overlap would fit one after the other if only the instance bound them. -/
def mayFollow (s : Solver ρ α) (source target : Nat) : Checked Bool := do
  if source = target then return false
  if !(← s.bounds.overlap source target) then return false
  let start ← fetch s.bounds.early.base source
  let finish ← fetch s.bounds.late.base target
  let length ← addTime start (← s.bounds.duration source)
  return (← addTime length (← s.bounds.duration target)) ≤ finish

/-- Looks for arcs whose deletion makes room for two jobs one after the other: the first one earlier
by up to half of their overlap, and the second one later by the rest. -/
def planRoom (s : Solver ρ α) (source target : Nat) :
    Checked (Option (DeletionPlan × DeletionPlan) × Solver ρ α) := do
  let overlap ← subTime (← s.bounds.earliestFinish source) (← s.bounds.earliestStart target)
  let movable ← subTime (← s.bounds.earliestStart source) (← fetch s.bounds.early.base source)
  let (back, deletion, network) ←
    s.deletion.backward s.network s.bounds source (min (overlap.tdiv 2) movable)
  let wanted := max (← subTime overlap back.achieved) 0
  let (forth, deletion, network) ← deletion.forward network s.bounds target wanted
  return (forth.map fun forth => (back, forth), { s with deletion, network })

/-- Tries to make room for two jobs one after the other.  If that works, the arc between them
becomes the only candidate. -/
def tryPair (s : Solver ρ α) (source target : Nat) : Checked (Bool × Solver ρ α) := do
  if !(← s.mayFollow source target) then return (false, s)
  let (plans, s) ← s.planRoom source target
  match plans with
  | none => return (false, s)
  | some (back, forth) =>
    let refs := back.arcs ++ forth.arcs
    if refs.isEmpty && !(← s.bounds.fitsAfter source target) then return (false, s)
    let s := s.note (.unstuck source target refs.length back.achieved forth.achieved)
    let s ← s.deleteArcs refs
    return (true, { s with pool := s.pool.clear.push ⟨source, target, 1⟩ })

/-- Tries `count` pairs of jobs from number `trial` on: early finishers with late starters. -/
def tryPairs (finishers starters : Array Nat) (trial : Nat) :
    (count : Nat) → Solver ρ α → Checked (Solver ρ α)
  | 0, s => .ok { s with pool := s.pool.clear }
  | count + 1, s => do
    let partner := trial / 2 + trial % 2
    if starters.size ≤ partner then return { s with pool := s.pool.clear }
    let (found, s) ← s.tryPair (← fetch finishers (trial / 2)) (← fetch starters partner)
    if found then return s else tryPairs finishers starters (trial + 1) count s

/-- Deletes arcs so that two overlapping jobs of the active range fit one after the other, and makes
the arc between them the only candidate.  The pool is left empty if no pair is found. -/
def makeCandidate (s : Solver ρ α) : Checked (Solver ρ α) := do
  let pool ← s.pool.collect s.bounds s.active
  let finishers ← byFinish s.bounds pool.jobs.toList
  let starters ← byStartDown s.bounds pool.jobs.toList
  tryPairs finishers.toArray starters.toArray 0 s.config.deletionTrials { s with pool }

/-- Starts over and collects candidates.  The search is exhausted if there are none. -/
def startOver (s : Solver ρ α) : Checked (Solver ρ α) := do
  let s ← s.reset
  let s ← s.regenerate
  let s := { s with deletionsLeft := s.config.deletionsBeforeReset }
  if s.pool.isEmpty then return { (s.note .exhausted) with exhausted := true }
  else return s

/-- Finds something to insert, or finds out that there is nothing. -/
def unstick (s : Solver ρ α) : Checked (Solver ρ α) := do
  let s := { s with counters.unstickCalls := s.counters.unstickCalls + 1 }
  let s ← s.propagate .everything
  let peak ← s.profile.maximumRange
  let moved := peak != s.active
  let s ← if moved then regenerate { s with active := peak } else pure s
  if moved && !s.pool.isEmpty then return s
  let s ← s.updateBest
  if 0 < s.deletionsLeft then
    let s ← { s with deletionsLeft := s.deletionsLeft - 1 }.makeCandidate
    if s.pool.isEmpty then s.startOver else return s
  else s.startOver

end Solver

end Leveling
