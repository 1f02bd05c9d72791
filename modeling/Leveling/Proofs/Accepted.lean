import Leveling.Proofs.Bounds.Tightening
import Leveling.Proofs.Precedences
import Leveling.Proofs.Verdicts

/-!
# Accepted instances

An instance is accepted only after all its parts were looked at, so an accepted instance has
all the properties that were looked for: proper jobs and precedences, a topological order, and
room for each job between the bounds that follow from the precedences.

The bounds are computed in one pass for each side.  Seen as heights, both passes do the same:
they raise the end of an arc to what the arc demands, for one arc after the other, and never
raise a job again from which an arc was looked at.  So in the end no arc demands more.
-/

namespace Leveling

open Checked Network

variable {α : Type} [Scalar α]

/-! ## The checks -/

/-- A job whose window has room for it. -/
structure Job.Proper (job : Job α) : Prop where
  duration_nonneg : 0 ≤ job.duration
  release_nonneg : 0 ≤ job.release
  room : job.release + job.duration ≤ job.deadline

/-- A precedence with a proper lag between two different jobs. -/
structure Precedence.Proper (p : Precedence) (jobs : Nat) : Prop where
  source_lt : p.source < jobs
  target_lt : p.target < jobs
  ne : p.source ≠ p.target
  lag_nonneg : 0 ≤ p.lag

/-- Accepted jobs are proper. -/
lemma Job.proper_of_check {job : Job α} {id resources : Nat}
    (h : (job.check id resources).Accepts ()) : job.Proper := by
  unfold Job.check at h
  dsimp only at h
  obtain ⟨-, h⟩ := Verdict.accepts_guard.1 h
  split at h
  · obtain ⟨_, impossible, -⟩ := Verdict.accepts_bind.1 h
    exact absurd impossible Verdict.not_accepts_throw
  · obtain ⟨duration, h⟩ := Verdict.accepts_guard.1 h
    obtain ⟨release, h⟩ := Verdict.accepts_guard.1 h
    obtain ⟨room, difference, h⟩ := Verdict.accepts_bind.1 h
    have exact_room := subTime_eq_ok (Verdict.accepts_lift.1 difference)
    split at h
    · exact absurd h Verdict.not_accepts_throw
    · constructor <;> omega

/-- If all jobs of a list are accepted, they are proper. -/
lemma Job.proper_of_checks {jobs : List (Job α)} {resources : Nat}
    (each : ∀ x ∈ jobs.zipIdx, (x.1.check x.2 resources).Accepts ()) :
    ∀ job ∈ jobs, job.Proper := by
  intro job member
  obtain ⟨id, there⟩ := List.mem_iff_getElem?.1 member
  exact proper_of_check (each (job, id) (List.mk_mem_zipIdx_iff_getElem?.2 there))

omit [Scalar α] in
/-- Accepted precedences are proper. -/
lemma Precedence.proper_of_check {p : Precedence} {jobs : Nat}
    (h : (p.check jobs : Verdict (ProblemError α) Unit).Accepts ()) : p.Proper jobs := by
  unfold Precedence.check at h
  split at h
  · exact absurd h Verdict.not_accepts_throw
  · split at h
    · exact absurd h Verdict.not_accepts_throw
    · split at h
      · exact absurd h Verdict.not_accepts_throw
      · constructor <;> omega

/-- The search for an order of the jobs finds one or nothing, and it finds one if no cycle is
closed. -/
lemma Precedence.order_answers {precedences : List Precedence} {n : Nat}
    (proper : ∀ q ∈ precedences, q.Proper n) :
    (topologicalOrder? .queue (fun v => .ok ((targetsOf precedences v).map Prod.fst))
      ((Array.range n).map (inDegree precedences))).Answers fun found =>
        (∀ order, found = some order → IsOrder (followers precedences) n order) ∧
          (Acyclic (Among precedences) → ∃ order, found = some order) := by
  refine topologicalOrder?_answers (fun _ _ => rfl) (fun v _ t member => ?_)
    (degreesAre_inDegree fun q member => (proper q member).source_lt)
    (fun u _ w => mem_followers) fun arc => (proper _ arc).source_lt
  obtain ⟨lag, arc⟩ := mem_followers.1 member
  exact (proper _ arc).target_lt

/-- The jobs and the precedences are proper, and the jobs are in a topological order. -/
structure Problem.Arranged (p : Problem α) : Prop where
  jobs : ∀ job ∈ p.jobs.toList, job.Proper
  precedences : ∀ q ∈ p.precedences, q.Proper p.jobs.size
  increasing : p.precedences.Pairwise fun q q' => q.pair < q'.pair
  order : IsOrder (Precedence.followers p.precedences) p.jobs.size p.order

/-- What was looked at before an instance was accepted. -/
structure Problem.Built (p : Problem α) : Prop where
  jobs : ∀ job ∈ p.jobs.toList, job.Proper
  precedences : ∀ q ∈ p.precedences, q.Proper p.jobs.size
  increasing : p.precedences.Pairwise fun q q' => q.pair < q'.pair
  order : IsOrder (Precedence.followers p.precedences) p.jobs.size p.order
  earliest : p.order.foldlM (fun bounds v =>
    raiseTargets p.durations (Precedence.targetsOf p.precedences v) v bounds)
      (p.jobs.map Job.release) = .ok p.earliestStart
  latest : p.order.reverse.foldlM (fun bounds v =>
    lowerToTargets p.durations (Precedence.targetsOf p.precedences v) v bounds)
      (p.jobs.map Job.deadline) = .ok p.latestFinish
  room : (checkRoom p.earliestStart p.latestFinish p.jobs.toList 0).Accepts ()

omit [Scalar α] in
/-- The jobs of an accepted instance are in a topological order. -/
lemma Problem.Built.arranged {p : Problem α} (built : p.Built) : p.Arranged :=
  ⟨built.jobs, built.precedences, built.increasing, built.order⟩

/-- An accepted instance was looked at. -/
lemma Problem.built_of_build {jobs : Array (Job α)} {resources : List (Resource α)}
    {given : List Precedence} {p : Problem α}
    (h : (Problem.build jobs resources given).Accepts p) : p.Built := by
  unfold Problem.build at h
  obtain ⟨_, -, h⟩ := Verdict.accepts_bind.1 h
  obtain ⟨_, proper, h⟩ := Verdict.accepts_bind.1 h
  obtain ⟨_, arcs, h⟩ := Verdict.accepts_bind.1 h
  dsimp only at h
  obtain ⟨found, search, h⟩ := Verdict.accepts_bind.1 h
  cases found with
  | none => exact absurd h Verdict.not_accepts_throw
  | some order =>
    dsimp only at h
    obtain ⟨earliest, early, h⟩ := Verdict.accepts_bind.1 h
    obtain ⟨latest, late, h⟩ := Verdict.accepts_bind.1 h
    obtain ⟨_, room, h⟩ := Verdict.accepts_bind.1 h
    obtain rfl := Verdict.accepts_pure.1 h
    have inside : ∀ q ∈ Precedence.merge given, q.Proper jobs.size := fun q member =>
      Precedence.proper_of_check (Verdict.accepts_forM.1 arcs q (Precedence.mem_of_mem_merge member))
    refine ⟨Job.proper_of_checks (Verdict.accepts_forM.1 proper), inside,
      Precedence.pairwise_merge given, ?_, ?_, ?_, room⟩
    · have sorted := Precedence.order_answers inside
      exact (sorted.of_eq_ok (Verdict.accepts_lift.1 search)).1 order rfl
    · exact Verdict.accepts_foldlM_lift.1 early
    · exact Verdict.accepts_foldlM_lift.1 late

end Leveling
