import Leveling.Resource
import Leveling.Runs
import Leveling.Side
import Leveling.TopologicalOrder

/-!
# Scheduling instances

An instance has jobs with windows and demands, renewable resources, and precedences between
the jobs.  `Problem.build` accepts an instance only if it is well formed, its precedences
close no cycle, and every job has room between its earliest start and its latest finish.
An accepted instance is never changed afterwards, so whatever is computed from it can rely
on these facts.
-/

namespace Leveling

variable {α : Type} [Scalar α]

/-- A job of a fixed duration that runs inside the window from `release` to `deadline`. -/
structure Job (α : Type) where
  duration : Int
  release : Int
  deadline : Int
  /-- The demand for each resource. -/
  demand : List α

/-- The demand that the target starts at least `lag` after the source starts. -/
structure Precedence where
  source : Nat
  target : Nat
  lag : Int
deriving DecidableEq

/-- The reasons for which an instance is refused. -/
inductive ProblemError (α : Type) where
  /-- A job does not name a demand for each resource. -/
  | demandLength (job : Nat) (expected found : Nat)
  /-- A demand is negative or not finite. -/
  | invalidDemand (job : Nat) (resource : Nat) (value : α)
  /-- A duration is negative. -/
  | negativeDuration (job : Nat) (duration : Int)
  /-- A release is negative. -/
  | negativeRelease (job : Nat) (release : Int)
  /-- A window is shorter than the duration of its job. -/
  | windowTooShort (job : Nat) (release deadline duration : Int)
  /-- A precedence names a job that does not exist. -/
  | unknownJob (source target : Nat) (jobs : Nat)
  /-- A precedence leads from a job to itself. -/
  | selfLoop (job : Nat)
  /-- A lag is negative. -/
  | negativeLag (source target : Nat) (lag : Int)
  /-- The precedences close a cycle. -/
  | circularPrecedence
  /-- A job has no room between its earliest start and its latest finish. -/
  | infeasibleWindow (job : Nat) (earliestStart latestFinish duration : Int)
  /-- A resource has a defect. -/
  | invalidResource (resource : Nat) (defect : ResourceDefect α)

/-- An accepted instance. -/
structure Problem (α : Type) where
  jobs : Array (Job α)
  resources : List (Resource α)
  /-- The precedences, sorted by source and target; at most one for each pair of jobs. -/
  precedences : List Precedence
  /-- The jobs in an order in which every precedence points forward. -/
  order : List Nat
  /-- The earliest starts that releases and precedences imply. -/
  earliestStart : Array Int
  /-- The latest finishes that deadlines and precedences imply. -/
  latestFinish : Array Int

namespace Job

/-- Accepts a job that is well formed on its own. -/
def check (job : Job α) (id : Nat) (resources : Nat) : Verdict (ProblemError α) Unit := do
  if job.demand.length ≠ resources then
    throw (.demandLength id resources job.demand.length)
  match job.demand.zipIdx.find? fun (value, _) => !isAmount value with
  | some (value, resource) => throw (.invalidDemand id resource value)
  | none => pure ()
  if job.duration < 0 then throw (.negativeDuration id job.duration)
  if job.release < 0 then throw (.negativeRelease id job.release)
  let room ← subTime job.deadline job.release
  if room < job.duration then
    throw (.windowTooShort id job.release job.deadline job.duration)

end Job

namespace Precedence

/-- Accepts a precedence between two different jobs with a proper lag. -/
def check (p : Precedence) (jobs : Nat) : Verdict (ProblemError α) Unit :=
  if jobs ≤ p.source ∨ jobs ≤ p.target then throw (.unknownJob p.source p.target jobs)
  else if p.source = p.target then throw (.selfLoop p.source)
  else if p.lag < 0 then throw (.negativeLag p.source p.target p.lag)
  else pure ()

/-- Whether two precedences have the same source and the same target. -/
def samePair (p q : Precedence) : Bool := p.source == q.source && p.target == q.target

/-- The order by source, then by target, then from the largest lag down. -/
def comesBefore (p q : Precedence) : Bool :=
  p.source < q.source || (p.source == q.source &&
    (p.target < q.target || (p.target == q.target && q.lag ≤ p.lag)))

/-- One precedence for each pair of jobs that has any, with the largest lag, in the order of the
pairs. -/
def merge (precedences : List Precedence) : List Precedence :=
  firstOfRuns samePair (precedences.mergeSort comesBefore)

/-- The targets of a job with their lags. -/
def targetsOf (precedences : List Precedence) (v : Nat) : List (Nat × Int) :=
  (precedences.filter fun p => p.source == v).map fun p => (p.target, p.lag)

/-- The number of precedences that lead into a job. -/
def inDegree (precedences : List Precedence) (v : Nat) : Nat :=
  precedences.countP fun p => p.target == v

end Precedence

/-! ## Bounds from the precedences alone -/

/-- Raises the earliest starts of the targets of a job. -/
def raiseTargets (durations : Array Int) (targets : List (Nat × Int)) (v : Nat)
    (bounds : Array Int) : Checked (Array Int) :=
  targets.foldlM (fun bounds (t, lag) => do
    let start ← Side.early.origin durations v (← fetch bounds v)
    let bound ← Side.early.carry durations start lag t
    store bounds t (Side.early.tighter (← fetch bounds t) bound)) bounds

/-- Lowers the latest finish of a job to what its targets leave. -/
def lowerToTargets (durations : Array Int) (targets : List (Nat × Int)) (v : Nat)
    (bounds : Array Int) : Checked (Array Int) :=
  targets.foldlM (fun bounds (t, lag) => do
    let start ← Side.late.origin durations t (← fetch bounds t)
    let bound ← Side.late.carry durations start lag v
    store bounds v (Side.late.tighter (← fetch bounds v) bound)) bounds

/-- Finds a job that has no room between its bounds, among the `jobs` from position `id` on. -/
def checkRoom (earliest latest : Array Int) : List (Job α) → Nat →
    Verdict (ProblemError α) Unit
  | [], _ => pure ()
  | job :: rest, id => do
    let start ← (fetch earliest id : Checked Int)
    let finish ← (fetch latest id : Checked Int)
    let least ← addTime start job.duration
    if finish < least then throw (.infeasibleWindow id start finish job.duration)
    checkRoom earliest latest rest (id + 1)

namespace Problem

/-- Accepts an instance or says what is wrong with it.  The resources are looked at first, then the
jobs, the precedences one by one, cycles, and last the room of the jobs. -/
def build (jobs : Array (Job α)) (resources : List (Resource α)) (given : List Precedence) :
    Verdict (ProblemError α) (Problem α) := do
  resources.zipIdx.forM fun (resource, id) =>
    match resource.check with
    | .error defect => throw (.invalidResource id defect)
    | .ok () => pure ()
  jobs.toList.zipIdx.forM fun (job, id) => job.check id resources.length
  given.forM fun p => p.check jobs.size
  let precedences := Precedence.merge given
  let targets := Precedence.targetsOf precedences
  let degrees := (Array.range jobs.size).map (Precedence.inDegree precedences)
  let some order ← topologicalOrder? .queue (fun v => .ok ((targets v).map Prod.fst)) degrees
    | throw .circularPrecedence
  let durations := jobs.map Job.duration
  let earliest ← order.foldlM (fun bounds v => raiseTargets durations (targets v) v bounds)
    (jobs.map Job.release)
  let latest ← order.reverse.foldlM
    (fun bounds v => lowerToTargets durations (targets v) v bounds) (jobs.map Job.deadline)
  checkRoom earliest latest jobs.toList 0
  return { jobs, resources, precedences, order, earliestStart := earliest,
           latestFinish := latest }

/-- The number of jobs. -/
def numJobs (p : Problem α) : Nat := p.jobs.size

/-- The durations of the jobs. -/
def durations (p : Problem α) : Array Int := p.jobs.map Job.duration

/-- The latest deadline, or zero if there are no jobs. -/
def horizon (p : Problem α) : Int := ((p.jobs.toList.map Job.deadline).max?).getD 0

/-- The cost of the time step `time` with the given demand for each resource. -/
def stepCost (p : Problem α) (demand : List α) (time : Int) : α :=
  Scalar.sum ((p.resources.zip demand).map fun (r, d) =>
    r.stepCost d (r.availability.amountAt time))

end Problem

/-- The wording of a refusal. -/
def ProblemError.message : ProblemError Float → String
  | .demandLength job expected found =>
    s!"job {job} has {found} demand entries but there are {expected} resources"
  | .invalidDemand job resource value =>
    s!"job {job} has invalid demand {Decimal.shortest value} on resource {resource}"
  | .negativeDuration job duration => s!"job {job} has negative duration {duration}"
  | .negativeRelease job release => s!"job {job} has negative release {release}"
  | .windowTooShort job release deadline duration =>
    s!"job {job} window [{release}, {deadline}) is shorter than its duration {duration}"
  | .unknownJob source target jobs =>
    s!"precedence {source} -> {target} references a job outside 0..{jobs}"
  | .selfLoop job => s!"precedence on job {job} points to itself"
  | .negativeLag source target lag => s!"precedence {source} -> {target} has negative lag {lag}"
  | .circularPrecedence => "circular precedence detected in the base graph"
  | .infeasibleWindow job earliestStart latestFinish duration =>
    s!"job {job} cannot fit: earliest start {earliestStart} + duration {duration} " ++
      s!"exceeds latest finish {latestFinish}"
  | .invalidResource resource defect => s!"resource {resource} is invalid: {defect.message}"

end Leveling
