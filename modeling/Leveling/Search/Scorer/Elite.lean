import Leveling.Config
import Leveling.Random.Source

/-!
# The elite pool

The pool keeps the start times of good schedules.  An arc from `s` to `t` scores the share of
the members in which `s` has finished when `t` starts.

While the pool has room, every round enters it.  Afterwards the members are visited from a
place that moves on with every round; the best ones are passed over, and the first one that
is accepted for replacement goes.  A round better than the best is always accepted, any
other one with a probability that follows from how far it and the member are from the best.
-/

namespace Leveling

variable {ρ α : Type} [RandomSource ρ] [Scalar α]

/-- A schedule of the pool with its peak cost. -/
structure EliteMember (α : Type) where
  score : α
  starts : Array Int

/-- The pool, with a table of the shares that were computed since it last changed.  What is known of a
member stands at the same place of two lists. -/
structure EliteScorer (ρ α : Type) where
  durations : Array Int
  capacity : Nat
  /-- The pool is asked once as many rounds were seen. -/
  startAfter : α
  sigmoidBase : α
  sigmoidCoefficient : α
  /-- The peak costs of the members. -/
  scores : Array α
  /-- The start times of the members. -/
  starts : Array (Array Int)
  /-- The lowest cost of a member, if there are any. -/
  best : Option α
  seen : Nat
  /-- For each pair of jobs, row by row, a share and the generation of the pool it belongs to. -/
  cache : Array (Nat × α)
  generation : Nat
  source : ρ

namespace EliteScorer

/-- Members closer than this to the best count as best. -/
def bestTolerance : α := 1e-7

/-- The mask that keeps the pool's random numbers apart from those of the search. -/
def seedMask : UInt64 := 0x5eede1f7a9c30b11

/-- The members, each with its peak cost and its starts. -/
def members (e : EliteScorer ρ α) : Array (EliteMember α) :=
  (List.zipWith .mk e.scores.toList e.starts.toList).toArray

/-- The pool without members.  A share with its generation takes 16 bytes and the starts of a member
24, so the jobs are taken to be fewer than 759250125 and the members fewer than 384307168202282326. -/
def empty (durations : Array Int) (config : EliteConfig α) (seed : UInt64) : EliteScorer ρ α :=
  { durations
    capacity := max config.poolSize 1
    startAfter := config.startFactor * Scalar.ofNat config.poolSize
    sigmoidBase := config.sigmoidBase
    sigmoidCoefficient := config.sigmoidCoefficient
    scores := #[]
    starts := #[]
    best := none
    seen := 0
    cache := .replicate (durations.size * durations.size) (0, 0)
    generation := 1
    source := RandomSource.ofSeed (seed ^^^ seedMask) }

/-! ## Scores -/

/-- The number of listed members in which `source` has finished when `target` starts. -/
def countOrdered (duration : Int) (source target : Nat) : List (Array Int) → Checked Nat
  | [] => .ok 0
  | starts :: rest => do
    let finish ← addTime (← fetch starts source) duration
    let start ← fetch starts target
    let count ← countOrdered duration source target rest
    return if finish ≤ start then count + 1 else count

/-- The share of the members in which `source` has finished when `target` starts; one while too few
rounds were seen. -/
def score (e : EliteScorer ρ α) (source target : Nat) : Checked (α × EliteScorer ρ α) := do
  if Scalar.ofNat e.seen < e.startAfter then return (1, e)
  let cell ← cellOf e.durations.size source target
  let (generation, share) ← fetch e.cache cell
  if generation = e.generation then return (share, e)
  let duration ← fetch e.durations source
  let count ← countOrdered duration source target e.starts.toList
  let share : α := Scalar.ofNat count / Scalar.ofNat e.capacity
  let cache ← store e.cache cell (e.generation, share)
  return (share, { e with cache })

/-! ## Learning -/

/-- The probability of replacing a member by a newcomer, where both are given by how far they are
above the best. -/
def acceptance (e : EliteScorer ρ α) (member newcomer : α) : α :=
  if newcomer ≤ 0 then 1
  else
    let x := if newcomer < member then member / newcomer - 1 else 1 - newcomer / member
    1 / (1 + Scalar.pow e.sigmoidBase (-e.sigmoidCoefficient * x))

/-- Whether a newcomer replaces a member; a random number is drawn unless the newcomer is better
than the best. -/
def accepts (e : EliteScorer ρ α) (best gap quality : α) : Bool × EliteScorer ρ α :=
  if quality < best then (true, e)
  else
    let probability := e.acceptance gap (quality - best)
    let (x, source) := RandomSource.fraction e.source
    (decide (x < probability), { e with source })

/-- A newcomer takes the place of a member. -/
def replace (e : EliteScorer ρ α) (i : Nat) (quality : α) (starts : Array Int) (best : α) :
    Checked (EliteScorer ρ α) := do
  let scores ← store e.scores i quality
  let starts ← store e.starts i starts
  return { e with scores, starts, best := some (min best quality),
                  generation := e.generation + 1 }

/-- Visits `count` members from the place `index` on (counted around the pool), and replaces the
first one that is accepted. -/
def visit (quality : α) (starts : Array Int) (best : α) (index : Nat) :
    (count : Nat) → EliteScorer ρ α → Checked (EliteScorer ρ α)
  | 0, e => .ok e
  | count + 1, e => do
    let i := index % e.capacity
    let gap := (← fetch e.scores i) - best
    if gap < bestTolerance then visit quality starts best (index + 1) count e else
      let (accepted, e) := e.accepts best gap quality
      if accepted then e.replace i quality starts best
      else visit quality starts best (index + 1) count e

/-- Learns from a round of the given quality that ended with the given starts. -/
def learn (e : EliteScorer ρ α) (quality : α) (starts : Array Int) :
    Checked (EliteScorer ρ α) :=
  let e := { e with seen := e.seen + 1 }
  if e.starts.size < e.capacity then
    .ok { e with scores := e.scores.push quality, starts := e.starts.push starts,
                 best := some (Scalar.minWith e.best quality),
                 generation := e.generation + 1 }
  else
    match e.best with
    | none => .ok e
    | some best => visit quality starts best e.seen e.capacity e

end EliteScorer

end Leveling
