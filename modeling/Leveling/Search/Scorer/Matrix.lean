import Leveling.Config
import Leveling.Network.Basic

/-!
# The reinforcement matrix

After each round the arcs that the search had inserted earn a reward.  A round earns the more,
the fewer of the recent rounds were at least as good, and nothing if too many were.

With aging, time is divided into periods, and only what was earned in this period and the one
before it counts.  Two tables are enough for that, of which one is active: with each period
the other one becomes active.  An entry knows the period in which it was written and counts only
for that one.
-/

namespace Leveling

variable {α : Type} [Scalar α]

/-- What an arc has earned in a period. -/
structure Reward (α : Type) where
  period : Nat
  value : α

/-- The rewards of all pairs of jobs, and the qualities of recent rounds. -/
structure MatrixScorer (α : Type) where
  numJobs : Nat
  /-- The rewards that were written while the first table was active, row by row. -/
  first : Array (Reward α)
  /-- The rewards that were written while the second table was active, row by row. -/
  second : Array (Reward α)
  /-- Whether the second table is the active one. -/
  secondActive : Bool
  period : Nat
  /-- The qualities of recent rounds, in a ring. -/
  window : Array α
  capacity : Nat
  /-- The place in the ring that is written next. -/
  position : Nat
  fraction : α
  aging : Nat

namespace MatrixScorer

/-- The matrix in which nothing was earned yet.  An entry for a pair of jobs takes 16 bytes and a place in
the ring 8, so the jobs are taken to be fewer than 759250125 and the places fewer than
1152921504606846976. -/
def empty (numJobs : Nat) (config : MatrixConfig α) : MatrixScorer α :=
  let table := .replicate (numJobs * numJobs) ⟨0, 0⟩
  { numJobs, first := table, second := table, secondActive := false, period := 0, window := #[],
    capacity := max config.window 1, position := 0, fraction := config.fraction,
    aging := config.aging }

/-- What the arc from `source` to `target` has earned. -/
def score (m : MatrixScorer α) (source target : Nat) : Checked α := do
  let cell ← cellOf m.numJobs source target
  let first ← fetch m.first cell
  if m.aging = 0 then return first.value
  let second ← fetch m.second cell
  let counted := [first, second].filter fun r => m.period - 1 ≤ r.period
  return Scalar.sum (counted.map Reward.value)

/-- The reward of a round of the given quality. -/
def reward (m : MatrixScorer α) (quality : α) : α :=
  let asGood : α := Scalar.ofNat (m.window.toList.countP fun q => q ≤ quality)
  let needed := Scalar.ofNat m.capacity * m.fraction
  if asGood < needed then 1 - asGood / needed else 0

/-- The matrix with the quality of a round put into the ring. -/
def remember (m : MatrixScorer α) (quality : α) : Checked (MatrixScorer α) := do
  let window ←
    if m.window.size < m.capacity then pure (m.window.push quality)
    else store m.window m.position quality
  return { m with window, position := (m.position + 1) % m.capacity }

/-- The table with a reward added for an arc. -/
def addReward (numJobs period : Nat) (reward : α) (table : Array (Reward α)) (source target : Nat) :
    Checked (Array (Reward α)) := do
  let cell ← cellOf numJobs source target
  adjust table cell fun r =>
    let earned := if r.period = period then r.value else 0
    .ok ⟨period, earned + reward⟩

/-- Learns from a round of the given quality that ended with the given network. -/
def learn (m : MatrixScorer α) (quality : α) (net : Network) : Checked (MatrixScorer α) := do
  let reward := m.reward quality
  let m ← m.remember quality
  if reward ≤ 0 then return m
  let inserted := net.arcs.filter fun (_, arc) => !arc.permanent
  let add := fun table (source, (arc : Arc)) =>
    addReward m.numJobs m.period reward table source arc.target
  if m.secondActive then return { m with second := ← inserted.foldlM add m.second }
  else return { m with first := ← inserted.foldlM add m.first }

/-- Begins a new period with the other table if one ends with this iteration. -/
def onIteration (m : MatrixScorer α) (iteration : Nat) : MatrixScorer α :=
  if 0 < m.aging ∧ iteration % m.aging = 0 then
    { m with secondActive := !m.secondActive, period := m.period + 1 }
  else m

end MatrixScorer

end Leveling
