import Leveling.Proofs.Bounds.Drafts

/-!
# Questions about bounds

Bounds that are consistent with a network answer all questions about them, and the answers mean
what they say.  Stale or not, the bounds of both sides always leave room for a job and for the two
ends of an arc, because both are attained by chains of arcs.  If nothing is deferred the check of
the bounds finds no defect.
-/

namespace Leveling

open Checked Network

/-- No deadline is later than `2 ^ 30`, so that sums of a few times are times. -/
def Frame.Modest (F : Frame) : Prop := ∀ v, valueAt F.deadlines v ≤ 1073741824

/-- The deadlines of the jobs are those of the frame. -/
lemma Problem.Built.modest {α : Type} {p : Problem α} (built : p.Built) (timely : p.Timely)
    (modest : ∀ job ∈ p.jobs.toList, job.deadline ≤ 1073741824) : (built.frame timely).Modest := by
  intro v
  rcases lt_or_ge v p.jobs.size with hv | hv
  · exact le_of_eq_of_le (Problem.valueAt_jobs _ hv) (modest _ (Array.getElem_mem_toList hv))
  · exact le_of_eq_of_le (Problem.valueAt_jobs_of_le _ hv) (by decide)

variable {F : Frame} {net : Network} {b : Bounds} {hidden : Side → Nat → Int → Prop} {s t u v w : Nat}
  {lag : Int}

/-- A job is accepted if its bounds are those that are required and leave room for it. -/
lemma Bounds.checkJob_of_required {finish : Int}
    (start : b.earliestStart v = .ok (valueAt b.early.value v))
    (latest : b.latestFinish v = .ok (valueAt b.late.value v))
    (required : ∀ side, b.required net side v = .ok (valueAt (b.table side).value v))
    (ends : b.earliestFinish v = .ok finish) (room : finish ≤ valueAt b.late.value v) :
    (b.checkJob net v).Accepts () := by
  have early : valueAt (b.table .early).value v = valueAt b.early.value v := rfl
  have late : valueAt (b.table .late).value v = valueAt b.late.value v := rfl
  unfold Bounds.checkJob
  refine Verdict.accepts_bind.2 ⟨_, Verdict.accepts_lift.2 start, ?_⟩
  refine Verdict.accepts_bind.2 ⟨_, Verdict.accepts_lift.2 latest, ?_⟩
  refine Verdict.accepts_bind.2 ⟨_, Verdict.accepts_lift.2 (required .early), ?_⟩
  rw [if_pos early]
  refine Verdict.accepts_bind.2 ⟨_, Verdict.accepts_lift.2 (required .late), ?_⟩
  rw [if_pos late]
  refine Verdict.accepts_bind.2 ⟨_, Verdict.accepts_lift.2 ends, ?_⟩
  rw [if_neg (not_lt.2 room)]
  exact Verdict.accepts_pure.2 rfl

namespace Consistent

/-! ## Values -/

/-- The earliest start of a job. -/
lemma earliestStart (h : Consistent F hidden net b) (hv : v < F.size) :
    b.earliestStart v = .ok (valueAt b.early.value v) :=
  fetch_valueAt (lt_of_lt_of_eq hv (h.settled .early).sound.size.symm)

/-- The latest finish of a job. -/
lemma latestFinish (h : Consistent F hidden net b) (hv : v < F.size) :
    b.latestFinish v = .ok (valueAt b.late.value v) :=
  fetch_valueAt (lt_of_lt_of_eq hv (h.settled .late).sound.size.symm)

/-- The duration of a job. -/
lemma duration (h : Consistent F hidden net b) (hv : v < F.size) :
    b.duration v = .ok (valueAt F.durations v) := by
  unfold Bounds.duration
  rw [h.of.durations]
  exact fetch_valueAt hv

/-- The number of jobs. -/
lemma numJobs (h : Consistent F hidden net b) : b.numJobs = F.size := by
  unfold Bounds.numJobs
  rw [h.of.durations]
  rfl

/-- The earliest starts lie between the releases and the deadlines. -/
lemma early_mem (h : Consistent F hidden net b) (v : Nat) :
    valueAt F.releases v ≤ valueAt b.early.value v ∧
      valueAt b.early.value v + valueAt F.durations v ≤ valueAt F.deadlines v := by
  have lower := (h.settled .early).sound.above v
  have upper := (h.settled .early).sound.below h.roomy v
  dsimp only [Frame.floor, Frame.heights, Frame.height, Frame.limit, Frame.ceiling,
    Bounds.table] at lower upper
  omega

/-- An arc whose lag is the duration of its source demands a latest finish of the source that is a
time. -/
lemma fits_duration (h : Consistent F hidden net b) (s t : Nat) :
    F.boundOf .late s (F.heights .late b.late.value t + valueAt F.durations s) ≤ greatestTime := by
  have above := (h.settled .late).sound.above t
  have deadline := F.deadline_le t
  have duration := F.duration_nonneg t
  dsimp only [Frame.floor, Frame.heights, Frame.height, Frame.limit, Frame.boundOf,
    Bounds.table] at above ⊢
  omega

/-- The earliest finish of a job. -/
lemma earliestFinish (h : Consistent F hidden net b) (hv : v < F.size) :
    b.earliestFinish v = .ok (valueAt b.early.value v + valueAt F.durations v) := by
  have release := F.release_nonneg v
  have duration := F.duration_nonneg v
  have deadline := F.deadline_le v
  have room := h.early_mem v
  unfold Bounds.earliestFinish
  rw [h.earliestStart hv, ok_bind, h.duration hv, ok_bind]
  exact addTime_of_mem (by unfold leastTime; omega) (by omega)

/-! ## Comparisons -/

/-- Whether a job that starts as early as it can runs during some time of a range. -/
lemma intersects (h : Consistent F hidden net b) (hv : v < F.size) (range : Span) :
    b.intersects v range = .ok (decide (valueAt b.early.value v < range.hi ∧
      range.lo < valueAt b.early.value v + valueAt F.durations v)) := by
  unfold Bounds.intersects
  rw [h.earliestStart hv, ok_bind]
  by_cases before : valueAt b.early.value v < range.hi
  · rw [if_pos before, h.earliestFinish hv, ok_bind]
    simp [before, pure, Except.pure]
  · rw [if_neg before]
    simp [before, pure, Except.pure]

/-- Whether two jobs that start as early as they can run at the same time. -/
lemma overlap (h : Consistent F hidden net b) (hs : s < F.size) (ht : t < F.size) :
    b.overlap s t = .ok (decide
      (valueAt b.early.value t < valueAt b.early.value s + valueAt F.durations s ∧
        valueAt b.early.value s < valueAt b.early.value t + valueAt F.durations t)) := by
  unfold Bounds.overlap
  rw [h.earliestStart ht, ok_bind, h.earliestFinish hs, ok_bind]
  by_cases before : valueAt b.early.value t < valueAt b.early.value s + valueAt F.durations s
  · rw [if_pos before, h.earliestStart hs, ok_bind, h.earliestFinish ht, ok_bind]
    simp [before, pure, Except.pure]
  · rw [if_neg before]
    simp [before, pure, Except.pure]

/-- Whether a job fits in before its latest finish if it waits for another one. -/
lemma fitsAfter (h : Consistent F hidden net b) (modest : F.Modest) (hs : s < F.size)
    (ht : t < F.size) :
    b.fitsAfter s t = .ok (decide (valueAt b.early.value s + valueAt F.durations s +
      valueAt F.durations t ≤ valueAt b.late.value t)) := by
  have release := F.release_nonneg s
  have duration := F.duration_nonneg s
  have duration' := F.duration_nonneg t
  have room := h.early_mem s
  have room' := h.early_mem t
  have release' := F.release_nonneg t
  have first := modest s
  have second := modest t
  unfold Bounds.fitsAfter
  rw [h.earliestFinish hs, ok_bind, h.duration ht, ok_bind, addTime_of_mem, ok_bind,
    h.latestFinish ht]
  · rfl
  · unfold leastTime
    omega
  · unfold greatestTime
    omega

/-- Whether a job fits in before its latest finish if it waits for another one, unless their finish is
beyond the greatest time. -/
lemma fitsAfter_ensures (h : Consistent F hidden net b) (hs : s < F.size) (ht : t < F.size) :
    (b.fitsAfter s t).Ensures fun fits => fits = true → valueAt b.early.value s +
      valueAt F.durations s + valueAt F.durations t ≤ valueAt b.late.value t := by
  unfold Bounds.fitsAfter
  rw [h.earliestFinish hs, ok_bind, h.duration ht, ok_bind]
  refine Ensures.same.bind fun finish added => ?_
  rw [h.latestFinish ht, ok_bind]
  refine .pure fun fits => ?_
  rw [← addTime_eq_ok added]
  exact of_decide_eq_true fits

/-- Only jobs are asked whether they overlap. -/
lemma lt_of_overlap (h : Consistent F hidden net b) {overlap : Bool}
    (answer : b.overlap s t = .ok overlap) : s < F.size ∧ t < F.size := by
  have size : b.early.value.size = F.size := (h.settled .early).sound.size
  obtain ⟨start, first, answer⟩ := bind_eq_ok.1 answer
  obtain ⟨finish, second, -⟩ := bind_eq_ok.1 answer
  obtain ⟨start', third, -⟩ := bind_eq_ok.1 second
  obtain ⟨ht, -⟩ := fetch_eq_ok_iff.1 first
  obtain ⟨hs, -⟩ := fetch_eq_ok_iff.1 third
  exact ⟨size ▸ hs, size ▸ ht⟩

/-! ## Room -/

/-- The bounds of both sides leave room for each job. -/
lemma room (h : Consistent F hidden net b) (v : Nat) :
    valueAt b.early.value v + valueAt F.durations v ≤ valueAt b.late.value v := by
  obtain ⟨k, len, walk, early⟩ := (h.settled .early).sound.attained v
  obtain ⟨j, len', walk', late⟩ := (h.settled .late).sound.attained v
  have fits := h.roomy.room (Walk.trans walk (walk_reversed.1 walk'))
  dsimp only [Frame.floor, Frame.heights, Frame.height, Frame.limit, Bounds.table] at early late
  omega

/-- The bounds of both sides leave room for the two ends of an arc. -/
lemma room_arc (h : Consistent F hidden net b) (arc : net.HasArc u w lag) :
    valueAt b.early.value u + lag + valueAt F.durations w ≤ valueAt b.late.value w := by
  obtain ⟨k, len, walk, early⟩ := (h.settled .early).sound.attained u
  obtain ⟨j, len', walk', late⟩ := (h.settled .late).sound.attained w
  have fits := h.roomy.room (Walk.trans (walk.snoc arc) (walk_reversed.1 walk'))
  dsimp only [Frame.floor, Frame.heights, Frame.height, Frame.limit, Bounds.table] at early late
  omega

/-! ## The check -/

/-- If nothing is deferred, an arc demands no more than the earliest starts give. -/
lemma early_arc (h : Consistent F hidden net b) (nothing : b.early.deferred = [])
    (arc : net.HasArc u w lag) : valueAt b.early.value u + lag ≤ valueAt b.early.value w :=
  (h.settled .early).arcs nothing arc

/-- If nothing is deferred, nothing is wrong with the bounds. -/
lemma check (h : Consistent F hidden net b) (fits : Fits F net F.deadlines)
    (nothing : ∀ side, (b.table side).deferred = []) : (b.check net).Accepts () := by
  refine Verdict.accepts_forM.2 fun v member => ?_
  have hv : v < F.size := by
    rw [h.numJobs] at member
    exact List.mem_range.1 member
  refine Bounds.checkJob_of_required (h.earliestStart hv) (h.latestFinish hv) (fun side => ?_)
    (h.earliestFinish hv) (h.room v)
  unfold Bounds.required
  rw [h.of.durations]
  exact (h.settled side).required (nothing side) h.roomy fits hv

end Consistent

/-- If the check finds no defect, the bounds are those that are required, and they leave room for each job. -/
lemma Bounds.required_of_check (accepts : (b.check net).Accepts ()) (hv : v < b.numJobs) :
    (∀ side, b.required net side v = .ok (valueAt (b.table side).value v)) ∧
      valueAt b.early.value v + valueAt b.durations v ≤ valueAt b.late.value v := by
  have checked := Verdict.accepts_forM.1 accepts v (List.mem_range.2 hv)
  unfold Bounds.checkJob at checked
  obtain ⟨start, first, checked⟩ := Verdict.accepts_bind.1 checked
  obtain ⟨finish, second, checked⟩ := Verdict.accepts_bind.1 checked
  obtain ⟨expected, early, checked⟩ := Verdict.accepts_bind.1 checked
  obtain ⟨rfl, checked⟩ := Verdict.accepts_unless.1 checked
  obtain ⟨expected', late, checked⟩ := Verdict.accepts_bind.1 checked
  obtain ⟨rfl, checked⟩ := Verdict.accepts_unless.1 checked
  obtain ⟨length, third, checked⟩ := Verdict.accepts_bind.1 checked
  rw [Verdict.accepts_lift] at first second early late third
  obtain ⟨start, again, third⟩ := bind_eq_ok.1 third
  obtain ⟨duration, lasts, third⟩ := bind_eq_ok.1 third
  obtain ⟨-, rfl⟩ := valueAt_of_fetch first
  obtain ⟨-, rfl⟩ := valueAt_of_fetch second
  obtain ⟨-, rfl⟩ := valueAt_of_fetch again
  obtain ⟨-, rfl⟩ := valueAt_of_fetch lasts
  have sum := addTime_eq_ok third
  refine ⟨fun side => ?_, ?_⟩
  · cases side with
    | early => exact early
    | late => exact late
  · split at checked
    · rename_i less
      obtain ⟨_, -, impossible⟩ := Verdict.accepts_bind.1 checked
      exact absurd impossible Verdict.not_accepts_throw
    · omega

/-- If the arcs close no cycle and the check finds no defect, the bounds are exact and leave room for each
job. -/
lemma Problem.Built.exactBounds_of_check {α : Type} {p : Problem α} (built : p.Built)
    (timely : p.Timely) (linked : net.Linked) (jobs : net.numJobs = p.jobs.size)
    (acyclic : Acyclic net.HasArc) (durations : b.durations = p.jobs.map Job.duration)
    (limit : ∀ side, (b.table side).limit = ((Bounds.ofProblem p).table side).limit)
    (size : ∀ side, (b.table side).value.size = p.jobs.size)
    (verified : (b.check net).Accepts ()) : p.ExactBounds net.HasArc b ∧
      ∀ v < p.jobs.size, valueAt b.early.value v + p.durationOf v ≤ valueAt b.late.value v := by
  have size_frame := built.size_frame timely
  have numJobs : b.numJobs = p.jobs.size := by
    unfold Bounds.numJobs
    rw [durations, Array.size_map]
  have required := fun v (hv : v < p.jobs.size) =>
    Bounds.required_of_check verified (lt_of_lt_of_eq hv numJobs.symm)
  have own_limit : ∀ side, (b.table side).limit = (built.frame timely).limit side := fun side => by
    rw [limit]
    cases side <;> rfl
  have tight : ∀ side, ∀ v < p.jobs.size, IsTight (net.Leads side) ((built.frame timely).floor side)
      ((built.frame timely).heights side (b.table side).value) v := fun side v hv => by
    have answer := (required v hv).1 side
    unfold Bounds.required at answer
    rw [durations] at answer
    exact (required_answersIf linked (jobs.trans size_frame.symm) (own_limit side)
      ((size side).trans size_frame.symm) False.elim (lt_of_lt_of_eq hv size_frame.symm)).ensures _
        answer
  refine ⟨built.exactBounds_of_solves timely acyclic (fun {u w lag} arc => ?_)
    (size .early) (size .late) ((solvesStarts_iff built timely).2 (tight .early))
    ((solvesFinishes_iff built timely).2 (tight .late)), fun v hv => ?_⟩
  · have leads : net.Leads .early u w lag := arc
    have ends := linked.lt_of_leads leads
    rwa [jobs] at ends
  · have room := (required v hv).2
    rwa [durations] at room

end Leveling
