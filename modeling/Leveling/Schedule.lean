import Leveling.Problem

/-!
# Schedules

A schedule gives a start to some of the jobs.  It can be checked against the windows and the
precedences of an instance, and it has a cost: the demand of each resource is followed over
time, every time step with an excess over the availability pays the overshoot, and the
largest excess pays the investment.
-/

namespace Leveling

variable {α : Type} [Scalar α]

/-- A start for each job, or none for a job that is left out, with the peak cost that was measured
for it. -/
structure Schedule (α : Type) where
  starts : Array (Option Int)
  peak : α

/-- The first rule that a schedule breaks. -/
inductive ScheduleViolation where
  /-- The schedule is for another number of jobs. -/
  | wrongLength (expected found : Nat)
  /-- A job is left out. -/
  | unscheduled (job : Nat)
  /-- A job does not run inside its window. -/
  | outsideWindow (job : Nat) (start release deadline : Int)
  /-- A job starts too early after a predecessor. -/
  | precedenceViolated (source target : Nat) (sourceStart targetStart lag : Int)
deriving DecidableEq

namespace Schedule

/-- The schedule in which every job has a start. -/
def ofStarts (starts : Array Int) (peak : α) : Schedule α := ⟨starts.map some, peak⟩

/-- The start of a job. -/
def startOf (s : Schedule α) (job : Nat) : Option Int := s.starts[job]?.join

/-- Whether every job has a start. -/
def isComplete (s : Schedule α) : Bool := s.starts.all Option.isSome

/-! ## Feasibility -/

/-- Accepts a schedule in which the jobs of the list, which are those from position `id` on, run
inside their windows. -/
def checkWindows (s : Schedule α) : List (Job α) → Nat → Verdict ScheduleViolation Unit
  | [], _ => pure ()
  | job :: rest, id => do
    let some start := s.startOf id | throw (.unscheduled id)
    let violation : ScheduleViolation := .outsideWindow id start job.release job.deadline
    if start < job.release then throw violation
    let finish ← addTime start job.duration
    if job.deadline < finish then throw violation
    checkWindows s rest (id + 1)

/-- Accepts a schedule that keeps the listed precedences between scheduled jobs. -/
def checkPrecedences (s : Schedule α) : List Precedence → Verdict ScheduleViolation Unit
  | [] => pure ()
  | p :: rest => do
    match s.startOf p.source, s.startOf p.target with
    | some sourceStart, some targetStart =>
      let least ← addTime sourceStart p.lag
      if targetStart < least then
        throw (.precedenceViolated p.source p.target sourceStart targetStart p.lag)
    | _, _ => pure ()
    checkPrecedences s rest

end Schedule

/-- Accepts a complete schedule that keeps all windows and precedences of the instance. -/
def Problem.checkFeasible (p : Problem α) (s : Schedule α) : Verdict ScheduleViolation Unit := do
  if s.starts.size ≠ p.numJobs then throw (.wrongLength p.numJobs s.starts.size)
  s.checkWindows p.jobs.toList 0
  s.checkPrecedences p.precedences

/-! ## Cost -/

/-- The cost of a schedule by kind of charge, and the largest demand for each resource. -/
structure ScheduleCost (α : Type) where
  investment : α
  overshoot : α
  peakDemand : List α

/-- The sum of both charges. -/
def ScheduleCost.total (c : ScheduleCost α) : α := c.investment + c.overshoot

/-- A scheduled job: its start, its finish, and its demand. -/
structure Placement (α : Type) where
  start : Int
  finish : Int
  demand : List α

/-- The scheduled jobs among those of the list, which are those from position `id` on. -/
def Schedule.placements (s : Schedule α) : List (Job α) → Nat → Checked (List (Placement α))
  | [], _ => .ok []
  | job :: rest, id => do
    match s.startOf id with
    | none => s.placements rest (id + 1)
    | some start =>
      let finish ← addTime start job.duration
      let others ← s.placements rest (id + 1)
      return ⟨start, finish, job.demand⟩ :: others

/-- Adds `x` to the change at a time, where the times before zero count as zero. -/
def addChange (changes : Array α) (time : Int) (x : α) : Checked (Array α) := do
  let old ← fetch changes time.toNat
  store changes time.toNat (old + x)

/-- Adds the demand for resource `r` at the start of a scheduled job, and takes it away at the finish. -/
def Placement.addTo (q : Placement α) (r : Nat) (changes : Array α) : Checked (Array α) :=
  if q.start = q.finish then .ok changes
  else match q.demand[r]? with
    | none => .error .indexOutOfBounds
    | some demand => do
      if demand == 0 then return changes
      let changes ← addChange changes q.start demand
      addChange changes q.finish (-demand)

/-- The change of the demand for resource `r` at each time step up to `horizon`.  All time steps are
listed, so there is an answer only if there is a list of that length. -/
def demandChanges (placements : List (Placement α)) (r horizon : Nat) : Checked (Array α) := do
  reserve (horizon + 1) 8
  placements.foldlM (fun changes q => q.addTo r changes) (Array.replicate (horizon + 1) 0)

/-- What is known about one resource after its demand was followed up to some time: the demand
there, the largest demand and the largest excess so far, and the overshoot that all resources have
paid so far. -/
structure DemandSweep (α : Type) where
  usage : α
  peak : α
  excess : α
  overshoot : α

/-- One time step further. -/
def DemandSweep.advance (r : Resource α) (w : DemandSweep α) (change : α) (time : Int) :
    DemandSweep α :=
  let usage := w.usage + change
  let peak := max w.peak usage
  let excess := usage - r.availability.amountAt time
  if 0 < excess then
    { usage, peak, excess := max w.excess excess,
      overshoot := w.overshoot + r.overshoot.apply excess }
  else { w with usage, peak }

/-- The sweep over `count` time steps from `time` on. -/
def DemandSweep.follow (r : Resource α) (changes : Array α) (time : Nat) :
    (count : Nat) → DemandSweep α → DemandSweep α
  | 0, w => w
  | count + 1, w =>
    follow r changes (time + 1) count (w.advance r (changes.getD time 0) time)

/-- The end of the time steps that an evaluation looks at: the last finish, but at least the horizon of the
instance, and at least zero. -/
def Problem.lastStep (p : Problem α) (placements : List (Placement α)) : Nat :=
  (placements.foldl (fun h q => max h q.finish) (max p.horizon 0)).toNat

/-- Adds what the resource at position `r` charges up to `horizon`, and its largest demand. -/
def ScheduleCost.addResource (cost : ScheduleCost α) (placements : List (Placement α)) (horizon : Nat)
    (resource : Resource α) (r : Nat) : Checked (ScheduleCost α) := do
  let changes ← demandChanges placements r horizon
  let sweep := DemandSweep.follow resource changes 0 horizon ⟨0, 0, 0, cost.overshoot⟩
  let investment :=
    if 0 < sweep.excess then cost.investment + resource.investment.apply sweep.excess
    else cost.investment
  return { investment, overshoot := sweep.overshoot, peakDemand := cost.peakDemand ++ [sweep.peak] }

/-- Investment and overshoot cost of a schedule.  Jobs that are left out have no demand. -/
def Problem.evaluate (p : Problem α) (s : Schedule α) : Checked (ScheduleCost α) := do
  let placements ← s.placements p.jobs.toList 0
  let horizon := p.lastStep placements
  p.resources.zipIdx.foldlM (fun cost (resource, r) => cost.addResource placements horizon resource r)
    ⟨0, 0, []⟩

/-- The wording of a violation. -/
def ScheduleViolation.message : ScheduleViolation → String
  | .wrongLength expected found => s!"expected {expected} start times, got {found}"
  | .unscheduled job => s!"job {job} is not scheduled"
  | .outsideWindow job start release deadline =>
    s!"job {job} starts at {start} outside its window [{release}, {deadline})"
  | .precedenceViolated source target sourceStart targetStart lag =>
    s!"job {target} starts at {targetStart} before {source} at {sourceStart} plus lag {lag}"

end Leveling
