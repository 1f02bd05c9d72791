import Leveling.Proofs.Bounds.Base
import Leveling.Proofs.Bounds.Relaxing

/-!
# Exact bounds

The *exact* earliest start of a job is the largest sum of a release and the lags of a chain of
arcs that leads from there to the job, and the exact latest finish is described alike.  Exact
bounds solve the equations by which each job waits for its predecessors alone, and no solution
of these equations lies below the exact starts or above the exact finishes.

Everything here is said in terms of an instance and of the arcs as a relation, without any
heights.  The lemmas translate it into heights, where both sides are the same.
-/

namespace Leveling

open Checked Network

namespace Problem

variable {α : Type} {p : Problem α} {R : Nat → Nat → Int → Prop} {v : Nat} {y : Int}

/-- The duration of a job. -/
def durationOf (p : Problem α) (v : Nat) : Int := valueAt (p.jobs.map Job.duration) v

/-- The release of a job. -/
def releaseOf (p : Problem α) (v : Nat) : Int := valueAt (p.jobs.map Job.release) v

/-- The deadline of a job. -/
def deadlineOf (p : Problem α) (v : Nat) : Int := valueAt (p.jobs.map Job.deadline) v

/-- The earliest start of a job that its chains of predecessors allow. -/
def IsExactStart (p : Problem α) (R : Nat → Nat → Int → Prop) (v : Nat) (y : Int) : Prop :=
  IsGreatest {x | ∃ k len, Walk R k v len ∧ x = p.releaseOf k + len} y

/-- The latest finish of a job that its chains of successors allow. -/
def IsExactFinish (p : Problem α) (R : Nat → Nat → Int → Prop) (v : Nat) (y : Int) : Prop :=
  IsLeast {x | ∃ k len, Walk R v k len ∧
    x = p.deadlineOf k - p.durationOf k - len + p.durationOf v} y

/-- The start of each job is the largest one of its release and of the starts of its predecessors plus
the lags of the arcs. -/
def SolvesStarts (p : Problem α) (R : Nat → Nat → Int → Prop) (x : Nat → Int) : Prop :=
  ∀ v < p.jobs.size, IsGreatest {y | y = p.releaseOf v ∨ ∃ u lag, R u v lag ∧ y = x u + lag} (x v)

/-- The finish of each job is the least one of its deadline and of what the finishes of its successors
leave to it. -/
def SolvesFinishes (p : Problem α) (R : Nat → Nat → Int → Prop) (x : Nat → Int) : Prop :=
  ∀ v < p.jobs.size, IsLeast {y | y = p.deadlineOf v ∨
    ∃ w lag, R v w lag ∧ y = x w - p.durationOf w - lag + p.durationOf v} (x v)

/-- The arcs close no cycle, and all jobs have room between their exact starts and their deadlines.
Then there is room after the releases for the exact finishes as well. -/
structure Fitting (p : Problem α) (R : Nat → Nat → Int → Prop) : Prop where
  acyclic : Acyclic R
  room : ∀ v < p.jobs.size, ∃ y, p.IsExactStart R v y ∧ y + p.durationOf v ≤ p.deadlineOf v

/-- To see that arcs fit the instance it is enough to solve the equations of the early side. -/
lemma Fitting.of_solves {x : Nat → Int} (acyclic : Acyclic R)
    (inside : ∀ {u w lag}, R u w lag → u < p.jobs.size) (solves : p.SolvesStarts R x)
    (room : ∀ v < p.jobs.size, x v + p.durationOf v ≤ p.deadlineOf v) : p.Fitting R where
  acyclic := acyclic
  room v hv := by
    have longest : IsLongest R p.releaseOf v (x v) := acyclic.isLongest_of_tight inside solves hv
    exact ⟨x v, longest, room v hv⟩

/-! ## Heights -/

/-- The exact finish of an arranged instance has the height of the late side that has no slack. -/
lemma Arranged.isExactFinish_iff (arranged : p.Arranged) (timely : p.Timely) : p.IsExactFinish R v y ↔
    IsLongest (reversed R) ((arranged.frame timely).floor .late) v
      ((arranged.frame timely).height .late v y) := by
  have turn : ∀ k len, p.durationOf v - (p.deadlineOf k - p.durationOf k - len + p.durationOf v) =
      (arranged.frame timely).floor .late k + len := by
    intro k len
    have same : (arranged.frame timely).floor .late k = p.durationOf k - p.deadlineOf k := rfl
    omega
  have height : (arranged.frame timely).height .late v y = p.durationOf v - y := rfl
  unfold IsExactFinish IsLongest
  rw [height]
  constructor
  · rintro ⟨⟨k, len, walk, rfl⟩, lower⟩
    refine ⟨⟨k, len, walk.reverse, turn k len⟩, ?_⟩
    rintro _ ⟨k', len', walk', rfl⟩
    have := lower ⟨k', len', walk_reversed.1 walk', rfl⟩
    rw [← turn]
    omega
  · rintro ⟨⟨k, len, walk, same⟩, upper⟩
    rw [← turn] at same
    refine ⟨⟨k, len, walk_reversed.1 walk, by omega⟩, ?_⟩
    rintro _ ⟨k', len', walk', rfl⟩
    have := upper ⟨k', len', walk'.reverse, rfl⟩
    rw [← turn] at this
    omega

section

variable (built : p.Built) (timely : p.Timely)

/-- The exact start is the height of the early side that has no slack. -/
lemma isExactStart_iff : p.IsExactStart R v y ↔
    IsLongest R ((built.frame timely).floor .early) v ((built.frame timely).height .early v y) :=
  Iff.rfl

/-- The exact finish has the height of the late side that has no slack. -/
lemma isExactFinish_iff : p.IsExactFinish R v y ↔
    IsLongest (reversed R) ((built.frame timely).floor .late) v
      ((built.frame timely).height .late v y) := built.arranged.isExactFinish_iff timely

/-- Starts solve the equations if their heights are tight. -/
lemma solvesStarts_iff {x : Nat → Int} : p.SolvesStarts R x ↔
    ∀ v < p.jobs.size, IsTight R ((built.frame timely).floor .early) x v := Iff.rfl

/-- Finishes solve the equations if their heights are tight. -/
lemma solvesFinishes_iff {x : Nat → Int} : p.SolvesFinishes R x ↔
    ∀ v < p.jobs.size, IsTight (reversed R) ((built.frame timely).floor .late)
      (fun v => (built.frame timely).height .late v (x v)) v := by
  have height : ∀ v y, (built.frame timely).height .late v y = p.durationOf v - y := fun _ _ => rfl
  have floor : ∀ v, (built.frame timely).floor .late v = p.durationOf v - p.deadlineOf v :=
    fun _ => rfl
  refine forall₂_congr fun v _ => ?_
  unfold IsTight demands
  simp only [height, floor]
  constructor
  · rintro ⟨attained, lower⟩
    constructor
    · rcases attained with same | ⟨w, lag, arc, same⟩
      · exact .inl (by rw [same])
      · exact .inr ⟨w, lag, arc, by omega⟩
    · rintro _ (rfl | ⟨w, lag, arc, rfl⟩)
      · have := lower (.inl rfl)
        omega
      · have := lower (.inr ⟨w, lag, arc, rfl⟩)
        omega
  · rintro ⟨attained, upper⟩
    constructor
    · rcases attained with same | ⟨w, lag, arc, same⟩
      · exact .inl (by omega)
      · exact .inr ⟨w, lag, arc, by omega⟩
    · rintro _ (rfl | ⟨w, lag, arc, rfl⟩)
      · have := upper (.inl rfl)
        omega
      · have := upper (.inr ⟨w, lag, arc, rfl⟩)
        omega

/-- Arcs that fit the instance leave room for all jobs. -/
lemma Fitting.roomy {net : Network} (fitting : p.Fitting net.HasArc) (linked : net.Linked)
    (size : net.numJobs = p.jobs.size) (nonneg : ∀ {u w lag}, net.HasArc u w lag → 0 ≤ lag) :
    Roomy (built.frame timely) net := by
  refine ⟨linked, size.trans (built.size_frame timely).symm, fitting.acyclic, nonneg, ?_⟩
  intro k v len walk
  cases walk with
  | nil =>
    have room := (built.frame timely).room k
    omega
  | @snoc u _ len lag walk last =>
    have arc : net.Leads .early u v lag := last
    obtain ⟨y, exact_start, room⟩ := fitting.room v (size ▸ (linked.lt_of_leads arc).2)
    have upper := exact_start.2 ⟨k, _, walk.snoc last, rfl⟩
    have same : p.releaseOf k = valueAt (built.frame timely).releases k ∧
        p.durationOf v = valueAt (built.frame timely).durations v ∧
        p.deadlineOf v = valueAt (built.frame timely).deadlines v := ⟨rfl, rfl, rfl⟩
    omega

end

/-! ## Exact tables -/

/-- The bounds of all jobs are exact.  They solve the equations, the starts are the least ones that
do, and the finishes are the greatest ones. -/
structure ExactBounds (p : Problem α) (R : Nat → Nat → Int → Prop) (b : Bounds) : Prop where
  size_early : b.early.value.size = p.jobs.size
  size_late : b.late.value.size = p.jobs.size
  start : ∀ v < p.jobs.size, p.IsExactStart R v (valueAt b.early.value v)
  finish : ∀ v < p.jobs.size, p.IsExactFinish R v (valueAt b.late.value v)
  solves_starts : p.SolvesStarts R (valueAt b.early.value)
  least : ∀ x, p.SolvesStarts R x → ∀ v < p.jobs.size, valueAt b.early.value v ≤ x v
  solves_finishes : p.SolvesFinishes R (valueAt b.late.value)
  greatest : ∀ x, p.SolvesFinishes R x → ∀ v < p.jobs.size, x v ≤ valueAt b.late.value v

/-- Exact bounds depend on the arcs only. -/
lemma ExactBounds.unique {b b' : Bounds} (h : p.ExactBounds R b) (h' : p.ExactBounds R b') :
    b.early.value = b'.early.value ∧ b.late.value = b'.late.value := by
  constructor
  · refine ext_of_valueAt (h.size_early.trans h'.size_early.symm) fun v hv => ?_
    rw [h.size_early] at hv
    exact (h.start v hv).unique (h'.start v hv)
  · refine ext_of_valueAt (h.size_late.trans h'.size_late.symm) fun v hv => ?_
    rw [h.size_late] at hv
    exact (h.finish v hv).unique (h'.finish v hv)

/-- Bounds that solve the equations are exact if the arcs close no cycle. -/
lemma Built.exactBounds_of_solves (built : p.Built) (timely : p.Timely) {b : Bounds}
    (acyclic : Acyclic R) (inside : ∀ {u w lag}, R u w lag → u < p.jobs.size ∧ w < p.jobs.size)
    (size_early : b.early.value.size = p.jobs.size) (size_late : b.late.value.size = p.jobs.size)
    (starts : p.SolvesStarts R (valueAt b.early.value))
    (finishes : p.SolvesFinishes R (valueAt b.late.value)) : p.ExactBounds R b := by
  have sources : ∀ {u w lag}, R u w lag → u < p.jobs.size := fun arc => (inside arc).1
  have targets : ∀ {u w lag}, reversed R u w lag → u < p.jobs.size := fun arc => (inside arc).2
  have start : ∀ v < p.jobs.size, p.IsExactStart R v (valueAt b.early.value v) := fun v hv =>
    acyclic.isLongest_of_tight sources starts hv
  have finish : ∀ v < p.jobs.size, p.IsExactFinish R v (valueAt b.late.value v) := fun v hv => by
    rw [isExactFinish_iff built timely]
    exact acyclic.reversed.isLongest_of_tight targets ((solvesFinishes_iff built timely).1 finishes) hv
  refine ⟨size_early, size_late, start, finish, starts, fun x solves v hv => ?_, finishes,
    fun x solves v hv => ?_⟩
  · obtain ⟨k, len, walk, same⟩ := (start v hv).1
    have upper := walk.le_of_tight sources solves hv
    omega
  · have solved := (solvesFinishes_iff built timely).1 solves
    obtain ⟨k, len, walk, same⟩ := ((isExactFinish_iff built timely).1 (finish v hv)).1
    have upper := walk.le_of_tight targets solved hv
    rw [← same] at upper
    dsimp only [Frame.height] at upper
    omega

/-- Bounds of both sides that are settled with nothing deferred are exact. -/
lemma Built.exactBounds (built : p.Built) (timely : p.Timely) {net : Network} {b : Bounds}
    {hidden : Side → Nat → Int → Prop} (linked : net.Linked) (jobs : net.numJobs = p.jobs.size)
    (acyclic : Acyclic net.HasArc)
    (settled : ∀ side, Settled (built.frame timely) net side (hidden side) (b.table side))
    (nothing : ∀ side, (b.table side).deferred = []) : p.ExactBounds net.HasArc b := by
  have size := built.size_frame timely
  have tight := fun side v => isTight_of_longest (D := fun _ => True) (fun _ _ => trivial)
    (fun v _ => (settled side).isLongest (nothing side) v) (v := v) trivial
  refine built.exactBounds_of_solves timely acyclic (fun {u w lag} arc => ?_)
    ((settled .early).sound.size.trans size) ((settled .late).sound.size.trans size)
    ((solvesStarts_iff built timely).2 fun v _ => tight .early v)
    ((solvesFinishes_iff built timely).2 fun v _ => tight .late v)
  have leads : net.Leads .early u w lag := arc
  have ends := linked.lt_of_leads leads
  rwa [jobs] at ends

/-- Exact bounds with nothing deferred are settled, whatever is hidden. -/
lemma ExactBounds.settled (built : p.Built) (timely : p.Timely) {net : Network} {b : Bounds}
    (exact_bounds : p.ExactBounds net.HasArc b) (linked : net.Linked)
    (size : net.numJobs = p.jobs.size)
    (limit : ∀ side, (b.table side).limit = ((Bounds.ofProblem p).table side).limit)
    (nothing : ∀ side, (b.table side).deferred = []) (side : Side) (hidden : Nat → Int → Prop) :
    Settled (built.frame timely) net side hidden (b.table side) := by
  have size_frame := built.size_frame timely
  have own_limit : (b.table side).limit = (built.frame timely).limit side := by
    rw [limit]
    cases side <;> rfl
  have value_size : (b.table side).value.size = (built.frame timely).size := by
    rw [size_frame]
    cases side with
    | early => exact exact_bounds.size_early
    | late => exact exact_bounds.size_late
  have longest : ∀ v < p.jobs.size, IsLongest (net.Leads side) ((built.frame timely).floor side) v
      ((built.frame timely).heights side (b.table side).value v) := fun v hv => by
    cases side with
    | early => exact (isExactStart_iff built timely).1 (exact_bounds.start v hv)
    | late => exact (isExactFinish_iff built timely).1 (exact_bounds.finish v hv)
  -- behind the last job there is nothing on either side
  have beyond : ∀ v, ¬v < p.jobs.size → (built.frame timely).heights side (b.table side).value v =
      (built.frame timely).floor side v := fun v outside => by
    have limit_size := (built.frame timely).size_limit side
    unfold Frame.heights Frame.floor
    rw [valueAt_of_le (by omega), valueAt_of_le (by omega)]
  refine ⟨own_limit, ⟨value_size, fun v => ?_, fun v => ?_⟩, fun u w lag arc stale => ?_,
    fun v member => ?_⟩
  · by_cases hv : v < p.jobs.size
    · simpa using (longest v hv).le .nil
    · exact le_of_eq (beyond v hv).symm
  · by_cases hv : v < p.jobs.size
    · exact (longest v hv).1
    · exact ⟨v, 0, .nil, by rw [beyond v hv, Int.add_zero]⟩
  · have ends := linked.lt_of_leads arc
    rw [size] at ends
    obtain ⟨k, len, walk, same⟩ := (longest u ends.1).1
    have enough := (longest w ends.2).le (walk.snoc arc)
    omega
  · rw [nothing] at member
    exact absurd member List.not_mem_nil

end Problem

end Leveling
