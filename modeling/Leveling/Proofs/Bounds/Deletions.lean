import Leveling.Proofs.Bounds.Queries
import Mathlib.Data.List.Permutation

/-!
# Exact bounds after deletions

After arcs were deleted, the bounds of the early side are relaxed from the targets of these arcs on, and
those of the late side from their sources on.  While jobs wait to be looked at, bounds may be too tight,
but they are never looser than the arcs that are left demand, and a bound that is too tight belongs to a
job that waits.  So once no job waits, the bounds are the exact ones of the arcs that are left, in
whatever order the jobs came up.

The earliest starts stay in the range of times, since they only fall.  The latest finishes rise, and a
job that lasts longer than the lag of an arc may finish so late that the sum of its start and its duration
is no time any more.  The bounds between the old and the exact ones are all that is looked at, so it is
enough to know that these two stay in range on their way over each arc.
-/

namespace Leveling

open Checked Network

/-! ## Both sides -/

/-- Relaxes the bounds of both sides, those of `first` first. -/
def Bounds.relaxBoth (b : Bounds) (net : Network) (first : Side) (seeds : Side → List Nat) :
    Checked Bounds := do
  let (b, _) ← b.relax net first (seeds first)
  let (b, _) ← b.relax net first.opposite (seeds first.opposite)
  return b

namespace Problem

variable {α : Type} {p : Problem α} {net net' : Network} {b b₁ : Bounds} {refs : List ArcRef}
  {side : Side}

/-! ## Balanced bounds -/

/-- A network of the jobs of an instance whose arcs close no cycle, with its exact bounds and nothing
deferred.  The lags and the bounds are times. -/
structure Balanced (p : Problem α) (net : Network) (b : Bounds) : Prop where
  linked : net.Linked
  acyclic : Acyclic net.HasArc
  numJobs : net.numJobs = p.jobs.size
  durations : b.durations = p.jobs.map Job.duration
  limit : ∀ side, (b.table side).limit = ((Bounds.ofProblem p).table side).limit
  exact_bounds : p.ExactBounds net.HasArc b
  nothing : ∀ side, (b.table side).deferred = []
  lag_ge : ∀ {u w lag}, net.HasArc u w lag → leastTime ≤ lag
  start_le : ∀ v < p.jobs.size, valueAt b.early.value v ≤ greatestTime
  finish_ge : ∀ v < p.jobs.size, leastTime ≤ valueAt b.late.value v

/-- On its way over an arc no latest finish leaves the range of times: neither the one before nor the one
that solves the equations of the arcs. -/
structure InRange (p : Problem α) (R : Nat → Nat → Int → Prop) (b : Bounds) : Prop where
  before : ∀ {u w lag}, R u w lag → leastTime ≤ valueAt b.late.value w - p.durationOf w ∧
    leastTime ≤ valueAt b.late.value w - p.durationOf w - lag
  after : ∃ x, p.SolvesFinishes R x ∧ ∀ {u w lag}, R u w lag →
    x w - p.durationOf w - lag + p.durationOf u ≤ greatestTime

section

variable (built : p.Built) (timely : p.Timely) (balanced : p.Balanced net b)

include balanced

/-- Balanced bounds are settled, whatever is hidden. -/
lemma Balanced.settled (side : Side) (hidden : Nat → Int → Prop) :
    Settled (built.frame timely) net side hidden (b.table side) :=
  balanced.exact_bounds.settled built timely balanced.linked balanced.numJobs balanced.limit
    balanced.nothing side hidden

/-- The arcs that are left close no cycle. -/
lemma Balanced.acyclic_of_deleted (deleted : net.Deleted refs net') : Acyclic net'.HasArc :=
  balanced.acyclic.mono fun arc => deleted.hasArc arc

/-- The arcs that are left lead from jobs to jobs. -/
lemma Balanced.lt_of_leads (deleted : net.Deleted refs net') {u w : Nat} {lag : Int}
    (arc : net'.Leads side u w lag) : u < p.jobs.size ∧ w < p.jobs.size := by
  have ends := deleted.linked.lt_of_leads arc
  rwa [deleted.numJobs, balanced.numJobs] at ends

/-- The arithmetic of the early side answers for all starts up to those before. -/
lemma Balanced.crosses_early (deleted : net.Deleted refs net') {h : Nat → Int}
    (enough : Enough (built.frame timely) net' .early h)
    (le : ∀ v, h v ≤ (built.frame timely).heights .early b.early.value v) {u w : Nat} {lag : Int}
    (arc : net'.Leads .early u w lag) : Crosses (built.frame timely) .early u w lag (h u) := by
  have ends := balanced.lt_of_leads deleted arc
  have release := (built.frame timely).release_nonneg u
  have above := enough.above u
  have demanded := enough.arcs arc
  have least := balanced.lag_ge (deleted.hasArc arc)
  have greatest := (le w).trans (balanced.start_le w ends.2)
  dsimp only [Frame.floor, Frame.height, Frame.limit] at above
  exact ⟨rfl, addTime_of_mem (show leastTime ≤ h u + lag by omega)
    (show h u + lag ≤ greatestTime by omega)⟩

/-- The arithmetic of the late side answers for all finishes between those before and the exact ones of
the arcs that are left, if these two are in range. -/
lemma Balanced.crosses_late (deleted : net.Deleted refs net') (inRange : p.InRange net'.HasArc b)
    {h : Nat → Int} (enough : Enough (built.frame timely) net' .late h)
    (le : ∀ v, h v ≤ (built.frame timely).heights .late b.late.value v) {u w : Nat} {lag : Int}
    (arc : net'.Leads .late u w lag) : Crosses (built.frame timely) .late u w lag (h u) := by
  have ends := balanced.lt_of_leads deleted arc
  obtain ⟨x, solves, after⟩ := inRange.after
  have acyclic := acyclic_leads (balanced.acyclic_of_deleted deleted) .late
  have longest := acyclic.isLongest_of_tight (fun arc => (balanced.lt_of_leads deleted arc).1)
    ((solvesFinishes_iff built timely).1 solves) ends.1
  -- The finish of `u` lies between the one before and the exact one, and these two are in range on
  -- their way to `w`.
  have lower := enough.le_of_longest longest
  have above := enough.above u
  have upper := le u
  have before := inRange.before arc
  have after := after arc
  have deadline := (built.frame timely).deadline_le u
  have duration := (built.frame timely).duration_nonneg u
  have duration' := (built.frame timely).duration_nonneg w
  have same : ∀ v, p.durationOf v = valueAt (built.frame timely).durations v := fun _ => rfl
  have hu := lt_of_lt_of_eq ends.1 (built.size_frame timely).symm
  have hw := lt_of_lt_of_eq ends.2 (built.size_frame timely).symm
  rw [same, same] at after
  rw [same] at before
  dsimp only [Frame.floor, Frame.heights, Frame.height, Frame.limit] at lower above upper
  unfold Crosses Side.origin Side.carry
  dsimp only [Frame.boundOf, Side.startOf]
  rw [fetch_valueAt hu, fetch_valueAt hw, ok_bind, subTime_of_mem (by omega) (by omega),
    subTime_of_mem (by omega) (by omega), ok_bind, ok_bind, addTime_of_mem (by omega) (by omega)]
  exact ⟨congrArg Except.ok (by omega), congrArg Except.ok (by omega)⟩

/-- Balanced bounds can be relaxed after a deletion.  On the early side this is safe. -/
lemma Balanced.relaxable (deleted : net.Deleted refs net') (side : Side) :
    Relaxable (side = .late → p.InRange net'.HasArc b) (built.frame timely) net' side
      (b.table side).value where
  linked := deleted.linked
  size := deleted.numJobs.trans (balanced.numJobs.trans (built.size_frame timely).symm)
  acyclic := balanced.acyclic_of_deleted deleted
  crosses := by
    intro safe h enough le u w lag arc
    cases side with
    | early => exact balanced.crosses_early built timely deleted enough le arc
    | late => exact balanced.crosses_late built timely deleted (safe rfl) enough le arc

/-! ## The check -/

include built timely in
/-- The earliest finish of a job, if it is a time. -/
lemma Balanced.earliestFinish {v : Nat} (hv : v < p.jobs.size)
    (greatest : valueAt b.early.value v + p.durationOf v ≤ greatestTime) :
    b.earliestFinish v = .ok (valueAt b.early.value v + p.durationOf v) := by
  have above := (balanced.settled built timely .early fun _ _ => False).sound.above v
  have release := (built.frame timely).release_nonneg v
  have lasts : 0 ≤ p.durationOf v := (built.frame timely).duration_nonneg v
  dsimp only [Frame.floor, Frame.heights, Frame.height, Frame.limit, Bounds.table] at above
  have start : b.earliestStart v = .ok (valueAt b.early.value v) :=
    fetch_valueAt (lt_of_lt_of_eq hv balanced.exact_bounds.size_early.symm)
  have duration : b.duration v = .ok (p.durationOf v) := by
    unfold Bounds.duration
    rw [balanced.durations]
    exact fetch_valueAt (lt_of_lt_of_eq hv Array.size_map.symm)
  unfold Bounds.earliestFinish
  rw [start, ok_bind, duration, ok_bind]
  exact addTime_of_mem (by unfold leastTime; omega) greatest

include built timely in
/-- If balanced bounds are computed anew, the check of them finds no defect exactly if there is room for
each job. -/
lemma Balanced.check (required : ∀ side, ∀ v < p.jobs.size,
    b.required net side v = .ok (valueAt (b.table side).value v)) :
    (b.check net).Accepts () ↔ ∀ v < p.jobs.size,
      valueAt b.early.value v + p.durationOf v ≤ valueAt b.late.value v := by
  have numJobs : b.numJobs = p.jobs.size := by
    unfold Bounds.numJobs
    rw [balanced.durations, Array.size_map]
  constructor
  · intro accepts v hv
    have room := (Bounds.required_of_check accepts (lt_of_lt_of_eq hv numJobs.symm)).2
    rwa [balanced.durations] at room
  · intro room
    refine Verdict.accepts_forM.2 fun v member => ?_
    rw [numJobs] at member
    have hv := List.mem_range.1 member
    have start : b.earliestStart v = .ok (valueAt b.early.value v) :=
      fetch_valueAt (lt_of_lt_of_eq hv balanced.exact_bounds.size_early.symm)
    have latest : b.latestFinish v = .ok (valueAt b.late.value v) :=
      fetch_valueAt (lt_of_lt_of_eq hv balanced.exact_bounds.size_late.symm)
    have above := (balanced.settled built timely .late fun _ _ => False).sound.above v
    have deadline := (built.frame timely).deadline_le v
    dsimp only [Frame.floor, Frame.heights, Frame.height, Frame.limit, Bounds.table] at above
    have finish := balanced.earliestFinish built timely hv ((room v hv).trans (by omega))
    exact Bounds.checkJob_of_required start latest (fun side => required side v hv) finish (room v hv)

/-! ## Relaxing -/

/-- After a deletion the bounds of a side are relaxed from the ends of the arcs on.  The bounds of the
other side play no part. -/
lemma Balanced.relax (deletable : ∀ ref ∈ refs, net.Deletable ref) (deleted : net.Deleted refs net')
    {seeds : List Nat} (ends : net.Ends refs side seeds) (durations : b₁.durations = b.durations)
    (table : b₁.table side = b.table side) :
    (b₁.relax net' side seeds).AnswersIf (side = .late → p.InRange net'.HasArc b) fun r =>
      ∃ t, r.1 = b₁.withTable side t ∧
        Relaxed (built.frame timely) net' side (b.table side) t r.2 := by
  rw [← table]
  have settled : Settled (built.frame timely) net side (fun _ _ => False) (b₁.table side) :=
    table ▸ balanced.settled built timely side _
  exact relax_answers (durations.trans balanced.durations) settled (table ▸ balanced.nothing side)
    (table ▸ balanced.relaxable built timely deleted side) balanced.linked deletable deleted ends

/-- After a deletion the bounds of both sides are relaxed, in either order. -/
lemma Balanced.relaxBoth (deletable : ∀ ref ∈ refs, net.Deletable ref)
    (deleted : net.Deleted refs net') {seeds : Side → List Nat}
    (ends : ∀ side, net.Ends refs side (seeds side)) (first : Side) :
    (b.relaxBoth net' first seeds).AnswersIf (p.InRange net'.HasArc b) fun b' =>
      b'.durations = b.durations ∧ ∀ side, ∃ changed,
        Relaxed (built.frame timely) net' side (b.table side) (b'.table side) changed := by
  have other : first.opposite ≠ first := by
    cases first <;> exact nofun
  unfold Bounds.relaxBoth
  refine ((balanced.relax built timely deletable deleted (ends first) rfl rfl).mono
    fun inRange _ => inRange).bind ?_
  rintro ⟨b₁, changed⟩ ⟨t, rfl, relaxed⟩
  have durations : (b.withTable first t).durations = b.durations := by
    cases first <;> rfl
  refine ((balanced.relax built timely deletable deleted (ends first.opposite) durations
    (Bounds.table_withTable_of_ne other t)).mono fun inRange _ => inRange).bind ?_
  -- The second side was left as it was while the first one was relaxed.
  rintro ⟨b₂, changed'⟩ ⟨t', rfl, relaxed'⟩
  refine .pure ⟨?_, fun side => ?_⟩
  · rw [← durations]
    cases first <;> rfl
  · by_cases same : side = first
    · subst same
      rw [Bounds.table_withTable_of_ne other.symm, Bounds.table_withTable]
      exact ⟨changed, relaxed⟩
    · obtain rfl : side = first.opposite := by
        cases side <;> cases first <;> first | rfl | exact absurd rfl same
      rw [Bounds.table_withTable]
      exact ⟨changed', relaxed'⟩

/-! ## Relaxed bounds -/

section

variable {b' : Bounds} {changed : Side → List Nat} (deleted : net.Deleted refs net')
  (relaxed : ∀ side,
    Relaxed (built.frame timely) net' side (b.table side) (b'.table side) (changed side))

include deleted relaxed

/-- No bound has become tighter. -/
lemma Balanced.loosened (side : Side) (v : Nat) :
    (built.frame timely).heights side (b'.table side).value v ≤
      (built.frame timely).heights side (b.table side).value v :=
  (balanced.settled built timely side fun _ _ => False).le_of_sound (balanced.nothing side)
    deleted.leads ((relaxed side).settled fun _ _ => False).sound v

/-- No earliest start has risen, and no latest finish has fallen. -/
lemma Balanced.loosened_bounds (v : Nat) : valueAt b'.early.value v ≤ valueAt b.early.value v ∧
    valueAt b.late.value v ≤ valueAt b'.late.value v := by
  have early := balanced.loosened built timely deleted relaxed .early v
  have late := balanced.loosened built timely deleted relaxed .late v
  dsimp only [Frame.heights, Frame.height, Bounds.table] at early late
  exact ⟨early, by omega⟩

/-- The relaxed bounds are balanced for the arcs that are left. -/
lemma Balanced.of_relaxed (durations : b'.durations = b.durations) : p.Balanced net' b' where
  linked := deleted.linked
  acyclic := balanced.acyclic_of_deleted deleted
  numJobs := deleted.numJobs.trans balanced.numJobs
  durations := durations.trans balanced.durations
  limit side := by
    rw [((relaxed side).settled fun _ _ => False).limit]
    cases side <;> rfl
  exact_bounds := built.exactBounds timely deleted.linked (deleted.numJobs.trans balanced.numJobs)
    (balanced.acyclic_of_deleted deleted) (fun side => (relaxed side).settled fun _ _ => False)
    fun side => (relaxed side).nothing
  nothing side := (relaxed side).nothing
  lag_ge arc := balanced.lag_ge (deleted.hasArc arc)
  start_le v hv := (balanced.loosened_bounds built timely deleted relaxed v).1.trans
    (balanced.start_le v hv)
  finish_ge v hv := (balanced.finish_ge v hv).trans
    (balanced.loosened_bounds built timely deleted relaxed v).2

/-- The relaxed bounds are the ones that are required. -/
lemma Balanced.required (durations : b'.durations = b.durations) (side : Side) {v : Nat}
    (hv : v < p.jobs.size) :
    (b'.required net' side v).AnswersIf (side = .late → p.InRange net'.HasArc b) fun r =>
      r = valueAt (b'.table side).value v := by
  have ok := balanced.relaxable built timely deleted side
  have settled := (relaxed side).settled fun _ _ => False
  unfold Bounds.required
  rw [durations, balanced.durations]
  exact settled.required_answersIf (relaxed side).nothing ok.linked ok.size
    (fun safe => ok.crosses safe (settled.enough (relaxed side).nothing)
      (balanced.loosened built timely deleted relaxed side))
    (lt_of_lt_of_eq hv (built.size_frame timely).symm)

end

end

/-- **Relaxing is exact.**  Take any network whose arcs close no cycle, with its exact bounds and nothing
deferred, and delete any arcs that may be deleted.  Relaxing the early side from their targets on answers
with the exact earliest starts of the arcs that are left.  Relaxing both sides, in either order, answers
with the exact bounds of both, or it stops with an overflow, which it does not if the latest finishes
before and the exact ones stay in range.  The bounds are then those that the check computes anew, so that
it finds no defect if there is room for each job; no earliest start rises, and no latest finish falls. -/
theorem relaxing_exact [Scalar α] {jobs : Array (Job α)} {resources : List (Resource α)}
    {given : List Precedence} (accepted : (Problem.build jobs resources given).Accepts p)
    (timely : p.Timely) (balanced : p.Balanced net b) (deletable : ∀ ref ∈ refs, net.Deletable ref) :
    (net.delete refs).Answers fun net' => net.Deleted refs net' ∧
      ∀ seeds : Side → List Nat, (∀ side, net.Ends refs side (seeds side)) →
        ((b.relax net' .early (seeds .early)).Answers fun r => r.1.late = b.late ∧
          ∀ v < p.jobs.size, p.IsExactStart net'.HasArc v (valueAt r.1.early.value v)) ∧
        ∀ first, (b.relaxBoth net' first seeds).AnswersIf (p.InRange net'.HasArc b) fun b' =>
          p.Balanced net' b' ∧
          (∀ v, valueAt b'.early.value v ≤ valueAt b.early.value v ∧
            valueAt b.late.value v ≤ valueAt b'.late.value v) ∧
          (∀ side, ∀ v < p.jobs.size,
            (b'.required net' side v).AnswersIf (side = .late → p.InRange net'.HasArc b) fun r =>
              r = valueAt (b'.table side).value v) ∧
          (p.InRange net'.HasArc b → ((b'.check net').Accepts () ↔ ∀ v < p.jobs.size,
            valueAt b'.early.value v + p.durationOf v ≤ valueAt b'.late.value v)) := by
  have built := Problem.built_of_build accepted
  refine (balanced.linked.delete deletable).imp fun net' deleted => ⟨deleted, fun seeds ends => ?_⟩
  refine ⟨?_, fun first => ?_⟩
  · refine ((balanced.relax built timely deletable deleted (ends .early) rfl rfl).answers nofun).imp ?_
    rintro ⟨b', changed⟩ ⟨t, rfl, relaxed⟩
    refine ⟨rfl, fun v _ => (isExactStart_iff built timely).2 ?_⟩
    exact (relaxed.settled fun _ _ => False).isLongest relaxed.nothing v
  · refine (balanced.relaxBoth built timely deletable deleted ends first).imp ?_
    rintro b' ⟨durations, both⟩
    choose changed relaxed using both
    have now := balanced.of_relaxed built timely deleted relaxed durations
    have required := fun side v (hv : v < p.jobs.size) =>
      balanced.required built timely deleted relaxed durations side hv
    refine ⟨now,
      balanced.loosened_bounds built timely deleted relaxed, required, fun inRange => ?_⟩
    refine now.check built timely fun side v hv => ?_
    obtain ⟨r, answer, rfl⟩ := (required side v hv).answers fun _ => inRange
    exact answer

/-! ## A wide instance -/

/-- A job that fills nearly all of the time, and two jobs without a duration. -/
def wide : Problem Float where
  jobs := #[⟨9223372036854775802, 0, 9223372036854775807, []⟩, ⟨0, 0, 9223372036854775807, []⟩,
    ⟨0, 0, 9223372036854775807, []⟩]
  resources := []
  precedences := []
  order := [0, 1, 2]
  earliestStart := #[0, 0, 0]
  latestFinish := #[9223372036854775807, 9223372036854775807, 9223372036854775807]

/-- The second job waits for the first one, and the third one waits long for the second one. -/
def line : Network where
  outgoing := #[#[⟨1, 0, 2, false, false, false⟩], #[⟨2, 0, 9223372036854775802, false, false, false⟩],
    #[]]
  incoming := #[#[], #[⟨0, 0⟩], #[⟨1, 0⟩]]
  arcCount := 2
  generation := 2

/-- The bounds of the three jobs in a line. -/
def lineBounds : Bounds where
  durations := #[9223372036854775802, 0, 0]
  early := { limit := #[0, 0, 0], base := #[0, 0, 0], value := #[0, 2, 9223372036854775804],
             deferred := [] }
  late := { limit := #[9223372036854775807, 9223372036854775807, 9223372036854775807],
            base := #[9223372036854775807, 9223372036854775807, 9223372036854775807],
            value := #[9223372036854775805, 5, 9223372036854775807], deferred := [] }

/-- The three jobs are accepted. -/
lemma wide_accepted : (Problem.build wide.jobs [] []).Accepts wide := by cbv

/-- The deadlines of the three jobs are times. -/
lemma wide_timely : wide.Timely := by
  intro job member
  simp only [wide, List.mem_cons, List.not_mem_nil, or_false] at member
  rcases member with rfl | rfl | rfl <;> decide

/-- There are two arcs, one after the other. -/
lemma line_linked : line.Linked ∧ ∀ {u w lag}, line.HasArc u w lag ↔
    (u = 1 ∧ w = 2 ∧ lag = 9223372036854775802) ∨ (u = 0 ∧ w = 1 ∧ lag = 2) := by
  have first : (Network.empty 3).Inserted 1 2 9223372036854775802 false _ :=
    ((linked_empty 3).insert (by decide) (by decide) 9223372036854775802 false).of_eq_ok rfl
  have second : Network.Inserted _ 0 1 2 false line :=
    (first.linked.insert (by decide) (by decide) 2 false).of_eq_ok (by decide_cbv)
  refine ⟨second.linked, fun {u w lag} => ?_⟩
  rw [second.hasArc_iff, first.hasArc_iff, or_iff_right (not_hasArc_empty 3)]

/-- The check finds no defect in the bounds of the line. -/
lemma line_verified : (lineBounds.check line).Accepts () := by cbv

/-- The bounds of the line are balanced. -/
lemma line_balanced : wide.Balanced line lineBounds := by
  obtain ⟨linked, hasArc⟩ := line_linked
  have acyclic : Acyclic line.HasArc := acyclic_of_lt id fun arc => by
    obtain ⟨rfl, rfl, -⟩ | ⟨rfl, rfl, -⟩ := hasArc.1 arc <;> decide
  have limit : ∀ side, (lineBounds.table side).limit = ((Bounds.ofProblem wide).table side).limit :=
    fun side => by cases side <;> decide_cbv
  have exact_bounds := ((Problem.built_of_build wide_accepted).exactBounds_of_check wide_timely linked
    rfl acyclic (by decide_cbv) limit (fun side => by cases side <;> rfl) line_verified).1
  refine ⟨linked, acyclic, rfl, by decide_cbv, limit, exact_bounds, fun side => by cases side <;> rfl,
    fun arc => ?_, ?_, ?_⟩
  · obtain ⟨-, -, rfl⟩ | ⟨-, -, rfl⟩ := hasArc.1 arc <;> decide
  · decide +kernel
  · decide +kernel

/-- The line without its second arc. -/
def lineFront : Network where
  outgoing := #[#[⟨1, 0, 2, false, false, false⟩], #[], #[]]
  incoming := #[#[], #[⟨0, 0⟩], #[]]
  arcCount := 1
  generation := 3

/-- The line without its first arc. -/
def lineBack : Network where
  outgoing := #[#[], #[⟨2, 0, 9223372036854775802, false, false, false⟩], #[]]
  incoming := #[#[], #[], #[⟨1, 0⟩]]
  arcCount := 1
  generation := 3

/-- The bounds of the line without its first arc. -/
def lineBackBounds : Bounds where
  durations := lineBounds.durations
  early := { lineBounds.early with value := #[0, 0, 9223372036854775802] }
  late := { lineBounds.late with value := #[9223372036854775807, 5, 9223372036854775807] }

/-- If the second arc of the line is deleted, the second job may finish so late that the finish of the
first one leaves the range of times on its way. -/
theorem relaxing_overflow_wide : (Problem.build wide.jobs [] []).Accepts wide ∧ wide.Timely ∧
    wide.Balanced line lineBounds ∧ (lineBounds.check line).Accepts () ∧
    line.Deletable ⟨1, 0, 2⟩ ∧ line.Ends [⟨1, 0, 2⟩] .late [1] ∧
    line.delete [⟨1, 0, 2⟩] = .ok lineFront ∧
      lineBounds.relax lineFront .late [1] = .error .overflow :=
  ⟨wide_accepted, wide_timely, line_balanced, line_verified, by decide_cbv,
    ends_singleton (a := ⟨2, 0, 9223372036854775802, false, false, false⟩) rfl .late, by decide_cbv,
    by decide_cbv⟩

/-- If the first arc of the line is deleted, the first job may finish two steps later, and the others start
two steps earlier. -/
theorem relaxing_exact_wide : (Problem.build wide.jobs [] []).Accepts wide ∧ wide.Timely ∧
    wide.Balanced line lineBounds ∧ (∀ ref ∈ [(⟨0, 0, 2⟩ : ArcRef)], line.Deletable ref) ∧
    line.delete [⟨0, 0, 2⟩] = .ok lineBack ∧ wide.InRange lineBack.HasArc lineBounds ∧
    lineBounds.relaxBoth lineBack .late (fun | .early => [1] | .late => [0]) = .ok lineBackBounds ∧
    wide.Balanced lineBack lineBackBounds ∧ (lineBackBounds.check lineBack).Accepts () := by
  have deletable : ∀ ref ∈ [(⟨0, 0, 2⟩ : ArcRef)], line.Deletable ref := by decide_cbv
  have answer : line.delete [⟨0, 0, 2⟩] = .ok lineBack := by decide_cbv
  have relaxed : lineBounds.relaxBoth lineBack .late (fun | .early => [1] | .late => [0]) =
      .ok lineBackBounds := by decide_cbv
  have ends : ∀ side, line.Ends [⟨0, 0, 2⟩] side ((fun | .early => [1] | .late => [0]) side) :=
    fun side => by
      cases side <;> exact ends_singleton (a := ⟨1, 0, 2, false, false, false⟩) rfl _
  obtain ⟨deleted, rest⟩ :=
    (relaxing_exact wide_accepted wide_timely line_balanced deletable).of_eq_ok answer
  obtain ⟨-, both⟩ := rest _ ends
  obtain ⟨balanced, -, -, check⟩ := (both .late).ensures _ relaxed
  have inRange : wide.InRange lineBack.HasArc lineBounds := by
    refine ⟨fun arc => ?_, _, balanced.exact_bounds.solves_finishes, fun arc => ?_⟩
    · obtain ⟨rfl, rfl, rfl⟩ | ⟨rfl, rfl, rfl⟩ := line_linked.2.1 (deleted.hasArc arc) <;>
        decide +kernel
    · obtain ⟨rfl, rfl, rfl⟩ | ⟨rfl, rfl, rfl⟩ := line_linked.2.1 (deleted.hasArc arc) <;>
        decide +kernel
  exact ⟨wide_accepted, wide_timely, line_balanced, deletable, answer, inRange, relaxed, balanced,
    (check inRange).2 (by decide +kernel)⟩

end Problem

end Leveling
