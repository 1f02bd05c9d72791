import Leveling.Proofs.Bounds.Base

/-!
# The passes answer

The checked arithmetic of a pass could leave the range of times when many lags are summed up.  If
all lags, durations and deadlines of an instance sum up to less than `2 ^ 62`, this does not
happen: at any time during a pass the heights and the lags that are still to be looked at stay
below this number together, since a lag that makes a height grow is no longer among them.
-/

namespace Leveling

open Checked Network

/-! ## Raising over arcs -/

section

variable {F : Frame} {side : Side} {value : Array Int} {u w : Nat} {h lag : Int}

/-- A deadline and a duration always sum up to less than `2 ^ 62`. -/
def Frame.Ample (F : Frame) : Prop :=
  ∀ u w, valueAt F.deadlines u + valueAt F.durations w < 2 ^ 62

/-- There is time for a height that is between a floor and `2 ^ 62`. -/
lemma Frame.Ample.inTime (ample : F.Ample) (w : Nat) (lower : F.floor side u ≤ h) (upper : h < 2 ^ 62) :
    F.InTime side w h := by
  cases side with
  | early =>
    have release := F.release_nonneg u
    dsimp only [floor, height, limit] at lower
    dsimp only [InTime, Side.startOf, boundOf]
    unfold leastTime greatestTime
    omega
  | late =>
    have duration := F.duration_nonneg u
    have both := ample u w
    dsimp only [floor, height, limit] at lower
    dsimp only [InTime, Side.startOf, boundOf]
    unfold leastTime greatestTime
    omega

/-- Raising over an arc answers if the arc demands a height below `2 ^ 62`. -/
lemma Frame.Ample.raiseOver_answers (ample : F.Ample) (size : value.size = F.size)
    (hu : u < F.size) (hw : w < F.size) (nonneg : 0 ≤ lag)
    (lower : F.floor side u ≤ F.heights side value u)
    (upper : F.heights side value u + lag < 2 ^ 62) :
    (raiseOver side F.durations value (u, w, lag)).Answers fun value' =>
      value'.size = value.size ∧ ∀ x, F.heights side value' x =
        if x = w then max (F.heights side value w) (F.heights side value u + lag)
        else F.heights side value x := by
  have inTime := ample.inTime w (lower.trans (le_add_of_nonneg_right nonneg)) upper
  rcases raiseOver_cases size hu hw lower nonneg with ⟨-, value', answer⟩ | ⟨late, -⟩
  · obtain ⟨same, raised, -⟩ := raiseOver_eq_ok answer
    exact ⟨value', answer, same, raised⟩
  · exact absurd inTime late

/-- The heights are above the floors, and together with the lags of the arcs that are still to be
looked at they are below `2 ^ 62`. -/
structure Frame.Spare (F : Frame) (side : Side) (rest : List (Nat × Nat × Int))
    (value : Array Int) : Prop where
  arcs : ∀ a ∈ rest, a.1 < F.size ∧ a.2.1 < F.size ∧ 0 ≤ a.2.2
  size : value.size = F.size
  lower : ∀ x, F.floor side x ≤ F.heights side value x
  upper : ∀ x, F.heights side value x + (rest.map fun a => a.2.2).sum < 2 ^ 62

/-- **Step.**  Raising over the next arc answers. -/
lemma Frame.Spare.raiseOver (ample : F.Ample) {rest : List (Nat × Nat × Int)}
    (spare : F.Spare side ((u, w, lag) :: rest) value) :
    (raiseOver side F.durations value (u, w, lag)).Answers (F.Spare side rest) := by
  obtain ⟨hu, hw, nonneg⟩ := spare.arcs _ List.mem_cons_self
  have others : 0 ≤ (rest.map fun a => a.2.2).sum := by
    refine List.sum_nonneg fun x member => ?_
    obtain ⟨a, later, rfl⟩ := List.mem_map.1 member
    exact (spare.arcs a (List.mem_cons_of_mem _ later)).2.2
  have upper := spare.upper
  dsimp only at hu hw nonneg
  simp only [List.map_cons, List.sum_cons] at upper
  have own := upper u
  refine (ample.raiseOver_answers spare.size hu hw nonneg (spare.lower u) (by omega)).imp ?_
  rintro value' ⟨size, raised⟩
  refine ⟨fun a member => spare.arcs a (List.mem_cons_of_mem _ member), size.trans spare.size,
    fun x => ?_, fun x => ?_⟩
  · rw [raised]
    split
    · rename_i here
      subst here
      exact (spare.lower x).trans (le_max_left _ _)
    · exact spare.lower x
  · -- the height that grows takes the lag from those that are still to come
    have before := upper x
    rw [raised]
    split
    · rename_i here
      subst here
      omega
    · omega

/-- **Run.**  Raising over the arcs of a list answers. -/
lemma Frame.Spare.raiseAll (ample : F.Ample) {l : List (Nat × Nat × Int)}
    (spare : F.Spare side l value) :
    (l.foldlM (Leveling.raiseOver side F.durations) value).Answers (F.Spare side []) :=
  .foldlM_rest (F.Spare side) (fun _ ⟨_, _, _⟩ _ spare => spare.raiseOver ample) spare

end

/-! ## Sums over an instance -/

section

variable {α : Type} {jobs : Array (Job α)}

/-- The sum of all lags, durations and deadlines. -/
def totalTime (jobs : Array (Job α)) (precedences : List Precedence) : Int :=
  (precedences.map Precedence.lag).sum + (jobs.toList.map Job.duration).sum +
    (jobs.toList.map Job.deadline).sum

/-- A number of a job is at most the sum over all jobs. -/
lemma valueAt_le_sum {f : Job α → Int} (nonneg : ∀ job ∈ jobs.toList, 0 ≤ f job) (v : Nat) :
    valueAt (jobs.map f) v ≤ (jobs.toList.map f).sum := by
  have all : ∀ x ∈ jobs.toList.map f, 0 ≤ x := by
    intro x member
    obtain ⟨job, there, rfl⟩ := List.mem_map.1 member
    exact nonneg job there
  rcases lt_or_ge v jobs.size with hv | hv
  · rw [Problem.valueAt_jobs f hv]
    exact List.single_le_sum all _ (List.mem_map_of_mem (Array.getElem_mem_toList hv))
  · rw [Problem.valueAt_jobs_of_le f hv]
    exact List.sum_nonneg all

end

namespace Problem

variable {α : Type} {p : Problem α} {side : Side}

/-- All lags, durations and deadlines of the instance sum up to less than `2 ^ 62`. -/
def Ample (p : Problem α) : Prop := totalTime p.jobs p.precedences < 2 ^ 62

/-- The lags of an arranged instance are not negative, nor is their sum. -/
lemma Arranged.sum_lag_nonneg (arranged : p.Arranged) :
    0 ≤ (p.precedences.map Precedence.lag).sum := by
  refine List.sum_nonneg fun x member => ?_
  obtain ⟨q, there, rfl⟩ := List.mem_map.1 member
  exact (arranged.precedences q there).lag_nonneg

/-- What the sum of all numbers of an arranged instance says about a duration and a deadline. -/
lemma Arranged.add_lt_of_ample (arranged : p.Arranged) (ample : p.Ample) (u w : Nat) :
    (p.precedences.map Precedence.lag).sum + valueAt (p.jobs.map Job.deadline) u +
      valueAt (p.jobs.map Job.duration) w < 2 ^ 62 := by
  have deadline : ∀ job ∈ p.jobs.toList, 0 ≤ job.deadline := by
    intro job member
    obtain ⟨duration, release, room⟩ := arranged.jobs job member
    omega
  have deadlines := valueAt_le_sum deadline u
  have durations := valueAt_le_sum (fun job member => (arranged.jobs job member).duration_nonneg) w
  unfold Ample totalTime at ample
  omega

/-- Deadlines that sum up to less than `2 ^ 62` are times. -/
lemma Arranged.timely (arranged : p.Arranged) (ample : p.Ample) : p.Timely := by
  intro job member
  obtain ⟨v, hv, rfl⟩ := List.mem_iff_getElem.1 member
  rw [Array.length_toList] at hv
  have below := arranged.add_lt_of_ample ample v v
  have lags := arranged.sum_lag_nonneg
  rw [valueAt_jobs _ hv, valueAt_jobs _ hv] at below
  have duration := (arranged.jobs _ member).duration_nonneg
  rw [Array.getElem_toList] at duration ⊢
  unfold greatestTime
  omega

/-- The lags over which a pass goes are those of the precedences. -/
lemma Arranged.sum_sweep (arranged : p.Arranged) (side : Side) :
    ((p.sweep side).map fun a => a.2.2).sum = (p.precedences.map Precedence.lag).sum := by
  have arms : ∀ l : List Nat, ((l.flatMap (p.armsOf side)).map fun a => a.2.2).sum =
      (l.map (Precedence.lagFrom p.precedences)).sum := by
    intro l
    induction l with
    | nil => rfl
    | cons v l ih =>
      have own : ((p.armsOf side v).map fun a => a.2.2).sum = Precedence.lagFrom p.precedences v := by
        unfold armsOf Precedence.lagFrom
        cases side with
        | early => simp [Function.comp_def]
        | late => simp [Function.comp_def]
      rw [List.flatMap_cons, List.map_append, List.sum_append, own, ih, List.map_cons,
        List.sum_cons]
  have ordered : (p.order.map (Precedence.lagFrom p.precedences)).sum =
      (p.precedences.map Precedence.lag).sum := by
    rw [← List.sum_toFinset _ arranged.order.nodup,
      ← Precedence.sum_lagFrom fun q member => (arranged.precedences q member).source_lt]
    refine Finset.sum_congr ?_ fun _ _ => rfl
    ext v
    rw [List.mem_toFinset, arranged.order.mem, Finset.mem_range]
  cases side with
  | early => exact (arms p.order).trans ordered
  | late =>
    have backwards := (List.reverse_perm p.order).map (Precedence.lagFrom p.precedences)
    exact (arms p.order.reverse).trans (backwards.sum_eq.trans ordered)

/-- The pass of a side answers with heights below `2 ^ 62`. -/
theorem Arranged.pass_answers (arranged : p.Arranged) (timely : p.Timely) (ample : p.Ample)
    (side : Side) : (p.pass side).Answers fun bounds => bounds.size = p.jobs.size ∧
      ∀ x, (arranged.frame timely).heights side bounds x < 2 ^ 62 := by
  have below := arranged.add_lt_of_ample ample
  have lags := arranged.sum_lag_nonneg
  have size : (arranged.frame timely).size = p.jobs.size := Array.size_map ..
  have spacious : (arranged.frame timely).Ample := by
    intro u w
    have both := below u w
    change valueAt (p.jobs.map Job.deadline) u + valueAt (p.jobs.map Job.duration) w < 2 ^ 62
    omega
  have spare : (arranged.frame timely).Spare side (p.sweep side)
      ((arranged.frame timely).limit side) := by
    refine ⟨fun _ => size ▸ arranged.proper_sweep, Frame.size_limit _ side, fun x => Int.le_refl _,
      fun x => ?_⟩
    rw [arranged.sum_sweep]
    have own := below x x
    have duration := (arranged.frame timely).duration_nonneg x
    have release := (arranged.frame timely).release_nonneg x
    have room := (arranged.frame timely).room x
    cases side with
    | early =>
      dsimp only [Frame.heights, Frame.height, Frame.limit, Arranged.frame] at *
      omega
    | late =>
      dsimp only [Frame.heights, Frame.height, Frame.limit, Arranged.frame] at *
      omega
  rw [← arranged.foldlM_sweep timely side]
  refine (spare.raiseAll spacious).imp fun bounds last => ⟨last.size.trans size, fun x => ?_⟩
  have upper := last.upper x
  rwa [List.map_nil, List.sum_nil, Int.add_zero] at upper

end Problem

end Leveling
