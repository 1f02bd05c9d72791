import Leveling.Profile.Basic
import Leveling.Text.Quoted

/-!
# Settings of a search

All settings have a default except for the time limit, which has to be given.  Durations are
whole milliseconds.
-/

namespace Leveling

variable {α : Type} [Scalar α]

/-- How the arcs that could be inserted are weighted. -/
inductive ScorerKind where
  /-- All alike. -/
  | uniform
  /-- By what earlier rounds earned with them. -/
  | matrix
  /-- By how often good schedules order the two jobs in the same way. -/
  | elitePool
  /-- By the sum of the last two. -/
  | combined
deriving DecidableEq

/-- The settings of the reinforcement matrix. -/
structure MatrixConfig (α : Type) where
  /-- The number of recent rounds to which a round is compared. -/
  window : Nat
  /-- The share of those rounds that a round has to beat to earn anything. -/
  fraction : α
  /-- The number of iterations in a period; zero if nothing is ever forgotten. -/
  aging : Nat

/-- The settings of the elite pool. -/
structure EliteConfig (α : Type) where
  /-- The number of schedules in the pool. -/
  poolSize : Nat
  /-- The pool is asked once this many times its size of rounds were seen. -/
  startFactor : α
  sigmoidBase : α
  sigmoidCoefficient : α

/-- The settings of a search. -/
structure Config (α : Type) where
  timeLimit : Option Nat
  iterationLimit : Option Nat
  seed : UInt64
  /-- How much is logged, from zero (nothing) to three. -/
  verbosity : Nat
  /-- How many arcs away from its root a deletion search looks. -/
  deletionDepth : Nat
  /-- How many pairs of jobs are tried before the search starts over. -/
  deletionTrials : Nat
  /-- How many times arcs are deleted before the search starts over. -/
  deletionsBeforeReset : Nat
  /-- The number of iterations between complete propagations. -/
  completeAfter : Nat
  /-- The number of iterations between looks at the peak. -/
  rangeCheckInterval : Nat
  /-- The number of candidates in a batch; zero if all are collected at once. -/
  batchSize : Nat
  /-- Whether the jobs are shuffled before the first batch. -/
  randomizeBatches : Bool
  /-- What each time step costs that a deletion falls short of what is wanted. -/
  deletionPenalty : Nat
  /-- Whether the phases of the search are timed. -/
  timePhases : Bool
  /-- The time between two samples of the best cost, if there are any. -/
  traceInterval : Option Nat
  profile : ProfileKind
  /-- The number of time steps that a dense profile has at most. -/
  maxArrayHorizon : Int
  scorer : ScorerKind
  matrix : MatrixConfig α
  elite : EliteConfig α

/-- The default settings of the reinforcement matrix. -/
def MatrixConfig.default : MatrixConfig α := { window := 10, fraction := 0.5, aging := 0 }

/-- The default settings of the elite pool. -/
def EliteConfig.default : EliteConfig α :=
  { poolSize := 50, startFactor := 1.5, sigmoidBase := 2.718281828459045,
    sigmoidCoefficient := 2.0 }

/-- The default settings. -/
def Config.default : Config α :=
  { timeLimit := none, iterationLimit := none, seed := 42, verbosity := 0, deletionDepth := 6,
    deletionTrials := 30, deletionsBeforeReset := 30, completeAfter := 50,
    rangeCheckInterval := 0, batchSize := 0, randomizeBatches := false, deletionPenalty := 3,
    timePhases := false, traceInterval := none, profile := .auto,
    maxArrayHorizon := Profile.defaultLimit, scorer := .uniform, matrix := .default,
    elite := .default }

/-! ## Validation -/

/-- The settings that can have an improper value. -/
inductive Setting where
  | timeLimit
  | maxArrayHorizon
  | matrixWindow
  | matrixFraction
  | elitePoolSize
  | eliteStartFactor
  | eliteSigmoidBase
  | eliteSigmoidCoefficient
  | traceInterval
deriving DecidableEq

/-- The reasons for which settings are refused. -/
inductive ConfigError (α : Type) where
  | missingTimeLimit
  | unknownScorer (text : String)
  | unknownProfile (text : String)
  /-- A setting is zero or negative. -/
  | notPositive (setting : Setting)
  /-- A setting is outside its range. -/
  | outOfRange (setting : Setting) (value : α)

/-- Accepts settings with proper values. -/
def Config.check (c : Config α) : Except (ConfigError α) Unit := do
  match c.timeLimit with
  | none => throw .missingTimeLimit
  | some limit => if limit = 0 then throw (.notPositive .timeLimit)
  if c.maxArrayHorizon ≤ 0 then throw (.notPositive .maxArrayHorizon)
  if c.matrix.window = 0 then throw (.notPositive .matrixWindow)
  unless 0 < c.matrix.fraction ∧ c.matrix.fraction ≤ 1 do
    throw (.outOfRange .matrixFraction c.matrix.fraction)
  if c.elite.poolSize = 0 then throw (.notPositive .elitePoolSize)
  unless 1 ≤ c.elite.startFactor do throw (.outOfRange .eliteStartFactor c.elite.startFactor)
  unless 1 < c.elite.sigmoidBase do throw (.outOfRange .eliteSigmoidBase c.elite.sigmoidBase)
  unless 0 < c.elite.sigmoidCoefficient do throw (.notPositive .eliteSigmoidCoefficient)
  if c.traceInterval = some 0 then throw (.notPositive .traceInterval)

/-! ## Names -/

/-- The scorer kind of a name. -/
def ScorerKind.parse (text : String) : Except (ConfigError α) ScorerKind :=
  match text with
  | "none" | "uniform" => .ok .uniform
  | "matrix" => .ok .matrix
  | "elite_pool" | "elite" => .ok .elitePool
  | "combined" => .ok .combined
  | _ => .error (.unknownScorer text)

/-- The profile kind of a name. -/
def ProfileKind.parse (text : String) : Except (ConfigError α) ProfileKind :=
  match text with
  | "auto" => .ok .auto
  | "tree" => .ok .tree
  | "array" => .ok .array
  | _ => .error (.unknownProfile text)

/-- The title of a scorer kind. -/
def ScorerKind.title : ScorerKind → String
  | .uniform => "Uniform"
  | .matrix => "Matrix"
  | .elitePool => "ElitePool"
  | .combined => "Combined"

/-- The title of a profile kind. -/
def ProfileKind.title : ProfileKind → String
  | .auto => "Auto"
  | .tree => "Tree"
  | .array => "Array"

/-- The name of a setting in a message. -/
def Setting.name : Setting → String
  | .timeLimit => "time_limit"
  | .maxArrayHorizon => "max_array_horizon"
  | .matrixWindow => "matrix.window"
  | .matrixFraction => "matrix.fraction_threshold"
  | .elitePoolSize => "elite_pool.pool_size"
  | .eliteStartFactor => "elite_pool.start_factor"
  | .eliteSigmoidBase => "elite_pool.sigmoid_base"
  | .eliteSigmoidCoefficient => "elite_pool.sigmoid_coefficient"
  | .traceInterval => "intermediate_score_interval"

/-- The proper values of a setting, as an interval. -/
def Setting.range : Setting → String
  | .matrixFraction => "(0, 1]"
  | .eliteStartFactor => "[1, inf)"
  | .eliteSigmoidBase => "(1, inf)"
  | _ => "(0, inf)"

/-- The wording of a refusal. -/
def ConfigError.message : ConfigError Float → String
  | .missingTimeLimit => "a time limit is required"
  | .unknownScorer text =>
    s!"unknown scorer {Quoted.quote text} (expected none, matrix, elite_pool or combined)"
  | .unknownProfile text =>
    s!"unknown skyline {Quoted.quote text} (expected auto, tree or array)"
  | .notPositive setting => s!"{setting.name} must be positive"
  | .outOfRange setting value =>
    s!"{setting.name} = {Decimal.shortest value} is outside {setting.range}"

end Leveling
