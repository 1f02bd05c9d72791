import Leveling.Proofs.Bounds.Exact
import Leveling.Schedule

/-!
# Feasible schedules

A schedule that starts each job after its release, lets it finish before its deadline and keeps all
precedences is accepted by the check of the instance, and no other schedule is.
-/

namespace Leveling

open Checked

variable {α : Type} {p : Problem α} {s : Schedule α}

/-- A start for each job, inside the windows of the jobs and with all precedences kept. -/
structure Feasible (jobs : Array (Job α)) (precedences : List Precedence) (starts : Array Int) :
    Prop where
  size : starts.size = jobs.size
  release : ∀ v (hv : v < jobs.size), jobs[v].release ≤ valueAt starts v
  deadline : ∀ v (hv : v < jobs.size), valueAt starts v + jobs[v].duration ≤ jobs[v].deadline
  kept : ∀ q ∈ precedences, valueAt starts q.source + q.lag ≤ valueAt starts q.target

/-- Behind the last job there are neither starts nor windows, so the windows are kept everywhere. -/
lemma Feasible.window {starts : Array Int} (h : Feasible p.jobs p.precedences starts) (v : Nat) :
    p.releaseOf v ≤ valueAt starts v ∧ valueAt starts v + p.durationOf v ≤ p.deadlineOf v := by
  unfold Problem.releaseOf Problem.durationOf Problem.deadlineOf
  rcases lt_or_ge v p.jobs.size with hv | hv
  · rw [Problem.valueAt_jobs _ hv, Problem.valueAt_jobs _ hv, Problem.valueAt_jobs _ hv]
    exact ⟨h.release v hv, h.deadline v hv⟩
  · rw [Problem.valueAt_jobs_of_le _ hv, Problem.valueAt_jobs_of_le _ hv,
      Problem.valueAt_jobs_of_le _ hv, valueAt_of_le (h.size ▸ hv)]
    exact ⟨Int.le_refl _, Int.le_refl _⟩

namespace Schedule

/-- Windows that are kept are accepted. -/
lemma checkWindows_accepts {jobs : List (Job α)} :
    ∀ {id : Nat}, (∀ i job, jobs[i]? = some job → ∃ start, s.startOf (id + i) = some start ∧
      job.release ≤ start ∧ addTime start job.duration = .ok (start + job.duration) ∧
        start + job.duration ≤ job.deadline) → (s.checkWindows jobs id).Accepts () := by
  induction jobs with
  | nil => exact fun _ => Verdict.accepts_pure.2 rfl
  | cons job rest ih =>
    intro id each
    obtain ⟨start, placed, release, finish, deadline⟩ := each 0 job rfl
    rw [Nat.add_zero] at placed
    unfold checkWindows
    rw [placed]
    dsimp only
    rw [if_neg (not_lt.2 release)]
    refine Verdict.accepts_bind.2 ⟨_, Verdict.accepts_lift.2 finish, ?_⟩
    rw [if_neg (not_lt.2 deadline)]
    refine ih fun i job' there => ?_
    have later := each (i + 1) job' (by rwa [List.getElem?_cons_succ])
    rwa [show id + (i + 1) = id + 1 + i by omega] at later

/-- Precedences that are kept are accepted. -/
lemma checkPrecedences_accepts {precedences : List Precedence}
    (each : ∀ q ∈ precedences, ∃ start start', s.startOf q.source = some start ∧
      s.startOf q.target = some start' ∧ addTime start q.lag = .ok (start + q.lag) ∧
        start + q.lag ≤ start') : (s.checkPrecedences precedences).Accepts () := by
  induction precedences with
  | nil => exact Verdict.accepts_pure.2 rfl
  | cons q rest ih =>
    obtain ⟨start, start', source, target, sum, kept⟩ := each q List.mem_cons_self
    unfold checkPrecedences
    rw [source, target]
    dsimp only
    refine Verdict.accepts_bind.2 ⟨_, Verdict.accepts_lift.2 sum, ?_⟩
    rw [if_neg (not_lt.2 kept)]
    exact ih fun q' member => each q' (List.mem_cons_of_mem _ member)

/-- Only windows that are kept are accepted. -/
lemma kept_of_checkWindows {jobs : List (Job α)} :
    ∀ {id : Nat}, (s.checkWindows jobs id).Accepts () → ∀ i job, jobs[i]? = some job →
      ∃ start, s.startOf (id + i) = some start ∧ job.release ≤ start ∧
        start + job.duration ≤ job.deadline := by
  induction jobs with
  | nil => exact fun _ i job impossible => by simp at impossible
  | cons first rest ih =>
    intro id accepts i job there
    unfold checkWindows at accepts
    cases placed : s.startOf id with
    | none =>
      rw [placed] at accepts
      exact absurd accepts Verdict.not_accepts_throw
    | some start =>
      rw [placed] at accepts
      dsimp only at accepts
      obtain ⟨release, accepts⟩ := Verdict.accepts_guard.1 accepts
      obtain ⟨finish, sum, accepts⟩ := Verdict.accepts_bind.1 accepts
      obtain ⟨deadline, others⟩ := Verdict.accepts_guard.1 accepts
      have exact_sum := addTime_eq_ok (Verdict.accepts_lift.1 sum)
      cases i with
      | zero =>
        obtain rfl := Option.some.inj there
        exact ⟨start, placed, by omega, by omega⟩
      | succ i =>
        have later := ih others i job there
        rwa [Nat.add_assoc, Nat.add_comm 1 i] at later

/-- Only precedences that are kept are accepted. -/
lemma kept_of_checkPrecedences {precedences : List Precedence} {starts : Nat → Int}
    (accepts : (s.checkPrecedences precedences).Accepts ())
    (placed : ∀ q ∈ precedences, s.startOf q.source = some (starts q.source) ∧
      s.startOf q.target = some (starts q.target)) :
    ∀ q ∈ precedences, starts q.source + q.lag ≤ starts q.target := by
  induction precedences with
  | nil => exact fun q impossible => absurd impossible List.not_mem_nil
  | cons first rest ih =>
    obtain ⟨source, target⟩ := placed first List.mem_cons_self
    unfold checkPrecedences at accepts
    rw [source, target] at accepts
    dsimp only at accepts
    obtain ⟨least, sum, accepts⟩ := Verdict.accepts_bind.1 accepts
    obtain ⟨late, others⟩ := Verdict.accepts_guard.1 accepts
    have exact_sum := addTime_eq_ok (Verdict.accepts_lift.1 sum)
    intro q member
    rcases List.mem_cons.1 member with rfl | member
    · omega
    · exact ih others (fun q' later => placed q' (List.mem_cons_of_mem _ later)) q member

/-- A schedule in which every job has a start. -/
lemma eq_ofStarts {starts : Array Int} (same : s.starts = starts.map some) :
    s = ofStarts starts s.peak := by
  cases s
  exact congrArg (Schedule.mk · _) same

/-- The start of a job in a schedule in which every job has one. -/
lemma startOf_ofStarts {starts : Array Int} {v : Nat} (hv : v < starts.size) (peak : α) :
    (ofStarts starts peak).startOf v = some (valueAt starts v) := by
  unfold startOf ofStarts valueAt
  simp [hv]

end Schedule

/-- A schedule of starts inside the windows that keeps the precedences is accepted. -/
lemma Problem.Built.checkFeasible (built : p.Built) (timely : p.Timely) {starts : Array Int}
    (size : starts.size = p.jobs.size) (release : ∀ v, p.releaseOf v ≤ valueAt starts v)
    (deadline : ∀ v, valueAt starts v + p.durationOf v ≤ p.deadlineOf v)
    (kept : ∀ q ∈ p.precedences, valueAt starts q.source + q.lag ≤ valueAt starts q.target)
    (peak : α) : (p.checkFeasible (.ofStarts starts peak)).Accepts () := by
  have start_eq : ∀ v < p.jobs.size, (Schedule.ofStarts starts peak).startOf v =
      some (valueAt starts v) := fun v hv => Schedule.startOf_ofStarts (size ▸ hv) peak
  have window : ∀ v, 0 ≤ valueAt starts v ∧ 0 ≤ p.durationOf v ∧
      valueAt starts v + p.durationOf v ≤ greatestTime := by
    intro v
    have first := release v
    have last := deadline v
    have nonneg : 0 ≤ p.releaseOf v := (built.frame timely).release_nonneg v
    have duration : 0 ≤ p.durationOf v := (built.frame timely).duration_nonneg v
    have greatest : p.deadlineOf v ≤ greatestTime := (built.frame timely).deadline_le v
    omega
  unfold Problem.checkFeasible
  have size' : (Schedule.ofStarts starts peak).starts.size = p.numJobs :=
    Array.size_map.trans size
  rw [if_neg (not_not.2 size'), Verdict.accepts_bind]
  refine ⟨⟨⟩, Schedule.checkWindows_accepts fun i job there => ?_,
    Schedule.checkPrecedences_accepts fun q member => ?_⟩
  · have hi : i < p.jobs.size := by
      rw [← Array.length_toList]
      exact (List.getElem?_eq_some_iff.1 there).1
    have same : p.jobs[i] = job := by
      rw [Array.getElem?_toList, Array.getElem?_eq_getElem hi] at there
      exact Option.some.inj there
    have fields : p.releaseOf i = job.release ∧ p.durationOf i = job.duration ∧
        p.deadlineOf i = job.deadline := by
      unfold releaseOf durationOf deadlineOf
      rw [valueAt_jobs _ hi, valueAt_jobs _ hi, valueAt_jobs _ hi, same]
      exact ⟨rfl, rfl, rfl⟩
    obtain ⟨nonneg, duration, greatest⟩ := window i
    have first := release i
    have last := deadline i
    rw [Nat.zero_add]
    refine ⟨_, start_eq i hi, by omega, ?_, by omega⟩
    exact addTime_of_mem (by unfold leastTime; omega) (by omega)
  · have proper := built.precedences q member
    have keeps := kept q member
    obtain ⟨nonneg, -, -⟩ := window q.source
    obtain ⟨-, duration, greatest⟩ := window q.target
    have lag := proper.lag_nonneg
    refine ⟨_, _, start_eq _ proper.source_lt, start_eq _ proper.target_lt, ?_, keeps⟩
    exact addTime_of_mem (by unfold leastTime; omega) (by omega)

/-- The check of an accepted instance accepts the feasible schedules and no others. -/
theorem Problem.Built.checkFeasible_iff (built : p.Built) (timely : p.Timely) :
    (p.checkFeasible s).Accepts () ↔
      ∃ starts, s.starts = starts.map some ∧ Feasible p.jobs p.precedences starts := by
  constructor
  · intro accepts
    unfold Problem.checkFeasible at accepts
    obtain ⟨size, accepts⟩ := Verdict.accepts_guard.1 accepts
    obtain ⟨_, windows, precedences⟩ := Verdict.accepts_bind.1 accepts
    have size' : s.starts.size = p.jobs.size := not_not.1 size
    have windows' : ∀ v (hv : v < p.jobs.size), ∃ start, s.startOf v = some start ∧
        p.jobs[v].release ≤ start ∧ start + p.jobs[v].duration ≤ p.jobs[v].deadline := by
      intro v hv
      have there : p.jobs.toList[v]? = some p.jobs[v] := by
        rw [Array.getElem?_toList, Array.getElem?_eq_getElem hv]
      have window := Schedule.kept_of_checkWindows windows v _ there
      rwa [Nat.zero_add] at window
    let starts : Array Int := s.starts.map fun start => start.getD 0
    have size_starts : starts.size = p.jobs.size := (Array.size_map ..).trans size'
    have same : s.starts = starts.map some := by
      refine Array.ext (by rw [Array.size_map, Array.size_map]) fun v hv _ => ?_
      obtain ⟨start, placed, -⟩ := windows' v (size' ▸ hv)
      unfold Schedule.startOf at placed
      rw [Array.getElem?_eq_getElem hv, Option.join_some] at placed
      rw [Array.getElem_map, Array.getElem_map, placed]
      rfl
    have start_eq : ∀ v < p.jobs.size, s.startOf v = some (valueAt starts v) := by
      intro v hv
      rw [Schedule.eq_ofStarts same]
      exact Schedule.startOf_ofStarts (size_starts ▸ hv) s.peak
    refine ⟨starts, same, size_starts, fun v hv => ?_, fun v hv => ?_, ?_⟩
    · obtain ⟨start, placed, release, -⟩ := windows' v hv
      obtain rfl := Option.some.inj ((start_eq v hv).symm.trans placed)
      exact release
    · obtain ⟨start, placed, -, deadline⟩ := windows' v hv
      obtain rfl := Option.some.inj ((start_eq v hv).symm.trans placed)
      exact deadline
    · refine Schedule.kept_of_checkPrecedences precedences fun q member => ?_
      have proper := built.precedences q member
      exact ⟨start_eq _ proper.source_lt, start_eq _ proper.target_lt⟩
  · rintro ⟨starts, same, feasible⟩
    have accepts := built.checkFeasible timely feasible.size (fun v => (feasible.window v).1)
      (fun v => (feasible.window v).2) feasible.kept s.peak
    rwa [← Schedule.eq_ofStarts same] at accepts

end Leveling
