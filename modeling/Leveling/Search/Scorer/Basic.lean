import Leveling.Search.Scorer.Elite
import Leveling.Search.Scorer.Matrix

/-!
# Scorers

A scorer learns from finished rounds and gives a score to each arc that could be inserted.
Such an arc is drawn with a weight of one more than its score.
-/

namespace Leveling

variable {ρ α : Type} [RandomSource ρ] [Scalar α]

/-- The kinds of scorers. -/
inductive Scorer (ρ α : Type) where
  /-- All arcs score zero. -/
  | uniform
  | matrix (scorer : MatrixScorer α)
  | elite (scorer : EliteScorer ρ α)
  /-- The scores of several scorers are added. -/
  | combined (parts : List (Scorer ρ α))

namespace Scorer

/-- The reinforcement matrix that the settings ask for. -/
def matrixOf (config : Config α) (p : Problem α) : Scorer ρ α :=
  .matrix (.empty p.numJobs config.matrix)

/-- The elite pool that the settings ask for. -/
def eliteOf (config : Config α) (p : Problem α) : Scorer ρ α :=
  .elite (.empty p.durations config.elite config.seed)

/-- The scorer that the settings ask for. -/
def ofConfig (config : Config α) (p : Problem α) : Scorer ρ α :=
  match config.scorer with
  | .uniform => .uniform
  | .matrix => matrixOf config p
  | .elitePool => eliteOf config p
  | .combined => .combined [matrixOf config p, eliteOf config p]

mutual

/-- The score of the arc from `source` to `target`. -/
def score (source target : Nat) : Scorer ρ α → Checked (α × Scorer ρ α)
  | .uniform => .ok (0, .uniform)
  | .matrix m => do return (← m.score source target, .matrix m)
  | .elite e => do
    let (x, e) ← e.score source target
    return (x, .elite e)
  | .combined parts => do
    let (xs, parts) ← scores source target parts
    return (Scalar.sum xs, .combined parts)

/-- The scores of the arc from `source` to `target`, part by part. -/
def scores (source target : Nat) : List (Scorer ρ α) → Checked (List α × List (Scorer ρ α))
  | [] => .ok ([], [])
  | part :: rest => do
    let (x, part) ← score source target part
    let (xs, rest) ← scores source target rest
    return (x :: xs, part :: rest)

end

mutual

/-- Learns from a round of the given quality that ended with the given starts and network. -/
def learn (quality : α) (starts : Array Int) (net : Network) :
    Scorer ρ α → Checked (Scorer ρ α)
  | .uniform => .ok .uniform
  | .matrix m => do return .matrix (← m.learn quality net)
  | .elite e => do return .elite (← e.learn quality starts)
  | .combined parts => do return .combined (← learnAll quality starts net parts)

/-- Lets every part learn from a round. -/
def learnAll (quality : α) (starts : Array Int) (net : Network) :
    List (Scorer ρ α) → Checked (List (Scorer ρ α))
  | [] => .ok []
  | part :: rest => do
    let part ← learn quality starts net part
    return part :: (← learnAll quality starts net rest)

end

mutual

/-- Takes notice of the beginning of an iteration. -/
def onIteration (iteration : Nat) : Scorer ρ α → Scorer ρ α
  | .uniform => .uniform
  | .matrix m => .matrix (m.onIteration iteration)
  | .elite e => .elite e
  | .combined parts => .combined (onIterationAll iteration parts)

/-- Lets every part take notice of the beginning of an iteration. -/
def onIterationAll (iteration : Nat) : List (Scorer ρ α) → List (Scorer ρ α)
  | [] => []
  | part :: rest => onIteration iteration part :: onIterationAll iteration rest

end

mutual

/-- Whether all arcs score zero. -/
def isUniform : Scorer ρ α → Bool
  | .uniform => true
  | .matrix _ => false
  | .elite _ => false
  | .combined parts => allUniform parts

/-- Whether all arcs score zero for every part. -/
def allUniform : List (Scorer ρ α) → Bool
  | [] => true
  | part :: rest => isUniform part && allUniform rest

end

end Scorer

end Leveling
