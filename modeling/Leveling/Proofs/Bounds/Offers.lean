import Leveling.Proofs.Bounds.Queries

/-!
# Pairs of jobs that are on offer

An arc may be inserted between two jobs that run at the same time during a range if the second one fits in
after the first one.  Which pairs are *offered* in this way is asked of earliest starts, latest finishes
and durations, whatever they are: all of these questions are answered if there is one of each for every
job, unless a sum of times leaves the range of times.  The bounds of a search have one of each for every
job, and if no deadline is too late no sum leaves the range.
-/

namespace Leveling

open Checked

namespace Bounds

variable {b : Bounds} {range : Span} {s t v : Nat}

/-- A duration, an earliest start and a latest finish are listed for each job, and no duration is
negative. -/
structure Tabled (b : Bounds) : Prop where
  early : b.early.value.size = b.durations.size
  late : b.late.value.size = b.durations.size
  nonneg : ∀ v < b.numJobs, 0 ≤ valueAt b.durations v

/-- Every job finishes at a time, even if it has to wait for another one. -/
structure Timed (b : Bounds) : Prop where
  least : ∀ v < b.numJobs, leastTime ≤ valueAt b.early.value v
  greatest : ∀ s < b.numJobs, ∀ t < b.numJobs,
    valueAt b.early.value s + valueAt b.durations s + valueAt b.durations t ≤ greatestTime

/-- A job that has a duration and, if it starts as early as it can, runs during the range. -/
def RunsIn (b : Bounds) (range : Span) (v : Nat) : Prop :=
  (b.duration v).Answers (0 < ·) ∧ b.intersects v range = .ok true

instance : Decidable (b.RunsIn range v) := inferInstanceAs (Decidable (_ ∧ _))

/-- Two different jobs of the range that run at the same time, where the second one fits in after the
first one. -/
def Offers (b : Bounds) (range : Span) (s t : Nat) : Prop :=
  s ≠ t ∧ b.RunsIn range s ∧ b.RunsIn range t ∧ b.overlap s t = .ok true ∧
    b.fitsAfter s t = .ok true

instance : Decidable (b.Offers range s t) := inferInstanceAs (Decidable (_ ∧ _))

/-- The pair of two jobs, if the second one fits in after the first one. -/
def fitting (b : Bounds) (s t : Nat) : List (Nat × Nat) :=
  if b.fitsAfter s t = .ok true then [(s, t)] else []

/-- A pair is listed if it fits. -/
lemma mem_fitting {u w : Nat} :
    (u, w) ∈ b.fitting s t ↔ (u = s ∧ w = t) ∧ b.fitsAfter s t = .ok true := by
  unfold fitting
  split
  · rename_i fits
    rw [List.mem_singleton, Prod.mk.injEq, and_iff_left fits]
  · rename_i tight
    exact ⟨fun member => absurd member List.not_mem_nil, fun h => absurd h.2 tight⟩

/-- A pair is listed once at most. -/
lemma nodup_fitting : (b.fitting s t).Nodup := by
  unfold fitting
  split
  · exact List.nodup_singleton _
  · exact List.nodup_nil

/-- The duration of a job. -/
lemma duration_eq (hv : v < b.numJobs) : b.duration v = .ok (valueAt b.durations v) :=
  fetch_valueAt hv

/-- The earliest start of a job. -/
lemma Tabled.earliestStart (h : b.Tabled) (hv : v < b.numJobs) :
    b.earliestStart v = .ok (valueAt b.early.value v) :=
  fetch_valueAt (lt_of_lt_of_eq hv h.early.symm)

/-- The latest finish of a job. -/
lemma Tabled.latestFinish (h : b.Tabled) (hv : v < b.numJobs) :
    b.latestFinish v = .ok (valueAt b.late.value v) :=
  fetch_valueAt (lt_of_lt_of_eq hv h.late.symm)

/-- The earliest finish of a job, unless it is no time. -/
lemma Tabled.earliestFinish (h : b.Tabled) (hv : v < b.numJobs) :
    (b.earliestFinish v).AnswersIf b.Timed fun finish =>
      finish = valueAt b.early.value v + valueAt b.durations v := by
  have nonneg := h.nonneg v hv
  unfold Bounds.earliestFinish
  rw [h.earliestStart hv, ok_bind, duration_eq hv, ok_bind]
  refine addTime_answersIf fun timed => ?_
  have least := timed.least v hv
  have greatest := timed.greatest v hv v hv
  constructor <;> omega

/-- A job that answers with its earliest finish answers with the exact one. -/
lemma earliestFinish_eq_ok {finish : Int} (answer : b.earliestFinish v = .ok finish) :
    finish = valueAt b.early.value v + valueAt b.durations v := by
  obtain ⟨start, first, answer⟩ := bind_eq_ok.1 answer
  obtain ⟨duration, second, answer⟩ := bind_eq_ok.1 answer
  rw [← (valueAt_of_fetch first).2, ← (valueAt_of_fetch second).2]
  exact addTime_eq_ok answer

/-- Whether a job fits in after another one, unless the time at which it is finished is none. -/
lemma Tabled.fitsAfter (h : b.Tabled) (hs : s < b.numJobs) (ht : t < b.numJobs) :
    (b.fitsAfter s t).AnswersIf b.Timed fun fits => b.fitsAfter s t = .ok fits := by
  have answers : (b.fitsAfter s t).AnswersIf b.Timed fun _ => True := by
    unfold Bounds.fitsAfter
    refine (h.earliestFinish hs).bind fun finish same => ?_
    rw [duration_eq ht, ok_bind, h.latestFinish ht]
    refine (addTime_answersIf fun timed => ?_).bind fun _ _ => .pure trivial
    have nonneg := h.nonneg s hs
    have nonneg' := h.nonneg t ht
    have least := timed.least s hs
    have greatest := timed.greatest s hs t ht
    constructor <;> omega
  exact (answers.and_ensures .same).imp fun _ both => both.2

/-- Whether a job that has a duration runs in a range, unless it is finished at no time. -/
lemma Tabled.intersects (h : b.Tabled) (hv : v < b.numJobs) (positive : 0 < valueAt b.durations v)
    (range : Span) : (b.intersects v range).AnswersIf b.Timed fun included =>
      included = true ↔ b.RunsIn range v := by
  have answers : (b.intersects v range).AnswersIf b.Timed fun _ => True := by
    unfold Bounds.intersects
    rw [h.earliestStart hv, ok_bind]
    split
    · exact (h.earliestFinish hv).bind fun _ _ => .pure trivial
    · exact .pure trivial
  have lasting : (b.duration v).Answers (0 < ·) := by
    rw [duration_eq hv]
    exact .ok positive
  refine (answers.and_ensures .same).imp fun included both => ?_
  unfold RunsIn
  rw [both.2, Except.ok.injEq, and_iff_right lasting]

/-- Whether two jobs run at the same time, unless one of them is finished at no time. -/
lemma Tabled.overlaps (h : b.Tabled) (hs : s < b.numJobs) (ht : t < b.numJobs) :
    (b.overlap s t).AnswersIf b.Timed fun overlaps => b.overlap s t = .ok overlaps := by
  have answers : (b.overlap s t).AnswersIf b.Timed fun _ => True := by
    unfold Bounds.overlap
    rw [h.earliestStart ht, ok_bind]
    refine (h.earliestFinish hs).bind fun finish _ => ?_
    split
    · rw [h.earliestStart hs, ok_bind]
      exact (h.earliestFinish ht).bind fun _ _ => .pure trivial
    · exact .pure trivial
  exact (answers.and_ensures .same).imp fun _ both => both.2

/-- Two jobs that both have an earliest finish run at the same time if each starts before the other one
is finished. -/
lemma overlap_eq_ok_true {finish finish' : Int} (first : b.earliestFinish s = .ok finish)
    (second : b.earliestFinish t = .ok finish') : b.overlap s t = .ok true ↔
      valueAt b.early.value t < valueAt b.early.value s + valueAt b.durations s ∧
        valueAt b.early.value s < valueAt b.early.value t + valueAt b.durations t := by
  rw [← earliestFinish_eq_ok first, ← earliestFinish_eq_ok second]
  obtain ⟨start, hs, -⟩ := bind_eq_ok.1 first
  obtain ⟨start', ht, -⟩ := bind_eq_ok.1 second
  rw [← (valueAt_of_fetch hs).2, ← (valueAt_of_fetch ht).2]
  unfold Bounds.overlap
  rw [ht, ok_bind, first, ok_bind]
  split
  · rename_i before
    rw [hs, ok_bind, second, ok_bind, and_iff_right before]
    exact (Except.ok.injEq _ _).to_iff.trans decide_eq_true_iff
  · rename_i behind
    exact ⟨nofun, fun h => absurd h.1 behind⟩

/-- Two jobs of which each starts before the other one is finished, where the second one fits in after
the first one. -/
def Meets (b : Bounds) (s t : Nat) : Prop :=
  (valueAt b.early.value t < valueAt b.early.value s + valueAt b.durations s ∧
    valueAt b.early.value s < valueAt b.early.value t + valueAt b.durations t) ∧
    b.fitsAfter s t = .ok true

/-- A job that runs in a range is finished at a time. -/
lemma RunsIn.earliestFinish (h : b.RunsIn range v) : ∃ finish, b.earliestFinish v = .ok finish := by
  have runs := h.2
  unfold Bounds.intersects at runs
  obtain ⟨start, -, runs⟩ := bind_eq_ok.1 runs
  split at runs
  · obtain ⟨finish, answer, -⟩ := bind_eq_ok.1 runs
    exact ⟨finish, answer⟩
  · cases runs

/-- A job that runs in a range has a positive duration. -/
lemma RunsIn.positive (h : b.RunsIn range v) : v < b.numJobs ∧ 0 < valueAt b.durations v := by
  obtain ⟨duration, answer, positive⟩ := h.1
  obtain ⟨inside, same⟩ := valueAt_of_fetch answer
  exact ⟨inside, same ▸ positive⟩

/-- A pair is offered if both jobs run in the range and meet. -/
lemma offers_iff :
    b.Offers range s t ↔ s ≠ t ∧ b.RunsIn range s ∧ b.RunsIn range t ∧ b.Meets s t := by
  unfold Offers Meets
  refine and_congr_right fun _ => and_congr_right fun hs => and_congr_right fun ht => ?_
  obtain ⟨finish, first⟩ := hs.earliestFinish
  obtain ⟨finish', second⟩ := ht.earliestFinish
  rw [overlap_eq_ok_true first second]

end Bounds

/-- The bounds of a search list durations, earliest starts and latest finishes of all jobs. -/
lemma Consistent.tabled {F : Frame} {hidden : Side → Nat → Int → Prop} {net : Network} {b : Bounds}
    (h : Consistent F hidden net b) : b.Tabled where
  early := (h.settled .early).sound.size.trans h.numJobs.symm
  late := (h.settled .late).sound.size.trans h.numJobs.symm
  nonneg v _ := by
    rw [h.of.durations]
    exact F.duration_nonneg v

/-- If no deadline is too late, every job of a search finishes at a time, even if it has to wait. -/
lemma Consistent.timed {F : Frame} {hidden : Side → Nat → Int → Prop} {net : Network} {b : Bounds}
    (h : Consistent F hidden net b) (modest : F.Modest) : b.Timed where
  least v _ := by
    have release := F.release_nonneg v
    have room := h.early_mem v
    unfold leastTime
    omega
  greatest s _ t _ := by
    have release := F.release_nonneg t
    have room := h.early_mem s
    have room' := h.early_mem t
    have deadline := modest s
    have deadline' := modest t
    rw [h.of.durations]
    unfold greatestTime
    omega

end Leveling
