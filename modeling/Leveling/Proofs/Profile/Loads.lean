import Leveling.Proofs.Profile.Reductions
import Leveling.Proofs.Profile.Times
import Mathlib.Algebra.BigOperators.Ring.Finset

/-!
# Loads

The load of a time step is the demand for each resource, summed over the jobs that run then, and the
cost of the time step is the cost of that load.  Both are read off a placement alone, with no
profile in between.

A dense profile stores the load and the cost of each time step.  A tracked profile knows the level
that the load makes.
-/

namespace Leveling

open Checked

variable {α : Type} [ExactScalar α] {p : Problem α} {σ : Nat → Option Int} {v k : Nat}
  {start time : Int}

namespace Problem

/-- Whether a job is placed and runs during a time step. -/
def runsAt (p : Problem α) (σ : Nat → Option Int) (time : Int) (v : Nat) : Bool :=
  match σ v with
  | none => false
  | some start => start ≤ time && time < start + p.durationOf v

/-- The demand of a job for a resource. -/
def demandOf (p : Problem α) (v k : Nat) : α :=
  match p.jobs[v]? with
  | none => 0
  | some job => job.demand.getD k 0

/-- The demand for a resource during a time step. -/
def demandAt (p : Problem α) (σ : Nat → Option Int) (time : Int) (k : Nat) : α :=
  ∑ v ∈ Finset.range p.jobs.size, if p.runsAt σ time v then p.demandOf v k else 0

/-- The demand for each resource during a time step. -/
def loadAt (p : Problem α) (σ : Nat → Option Int) (time : Int) : List α :=
  (List.range p.resources.length).map (p.demandAt σ time)

/-- The cost of a time step. -/
def costAt (p : Problem α) (σ : Nat → Option Int) (time : Int) : α :=
  p.stepCost (p.loadAt σ time) time

/-! ## Demands -/

lemma demandOf_eq (hv : v < p.jobs.size) (k : Nat) :
    p.demandOf v k = p.jobs[v].demand.getD k 0 := by
  unfold demandOf
  rw [Array.getElem?_eq_getElem hv]

/-- No demand is negative. -/
lemma Supplied.demandOf_nonneg (supplied : p.Supplied) (v k : Nat) : 0 ≤ p.demandOf v k := by
  unfold demandOf
  cases found : p.jobs[v]? with
  | none => exact le_refl _
  | some job =>
    have among : job ∈ p.jobs.toList := Array.mem_toList_iff.2 (Array.mem_of_getElem? found)
    exact Reduction.getD_nonneg (supplied.demand_nonneg job among) k

/-- No demand is negative. -/
lemma Supplied.demandAt_nonneg (supplied : p.Supplied) (σ : Nat → Option Int) (time : Int) (k : Nat) :
    0 ≤ p.demandAt σ time k := by
  refine Finset.sum_nonneg fun v _ => ?_
  split
  · exact supplied.demandOf_nonneg v k
  · exact le_refl _

/-! ## Loads -/

@[simp] lemma length_loadAt (p : Problem α) (σ : Nat → Option Int) (time : Int) :
    (p.loadAt σ time).length = p.resources.length := by
  rw [loadAt, List.length_map, List.length_range]

/-- No entry of a load is negative. -/
lemma Supplied.loadAt_nonneg (supplied : p.Supplied) (σ : Nat → Option Int) (time : Int) :
    ∀ d ∈ p.loadAt σ time, 0 ≤ d := by
  intro d among
  obtain ⟨k, -, rfl⟩ := List.mem_map.1 among
  exact supplied.demandAt_nonneg σ time k

/-- Nothing is demanded if no job is placed. -/
lemma loadAt_empty (p : Problem α) (time : Int) :
    p.loadAt (fun _ => none) time = p.resources.map fun _ => 0 := by
  have none : p.demandAt (fun _ => none) time = fun _ => 0 := by
    funext k
    exact Finset.sum_eq_zero fun v _ => if_neg Bool.false_ne_true
  rw [loadAt, none, List.map_const', List.map_const', List.length_range]

/-- A job that is placed adds its demand while it runs. -/
lemma demandAt_update (hv : v < p.jobs.size) (free : σ v = none) (start time : Int) (k : Nat) :
    p.demandAt (Function.update σ v (some start)) time k = p.demandAt σ time k +
      if start ≤ time ∧ time < start + p.durationOf v then p.demandOf v k else 0 := by
  have share : ∀ w, (if p.runsAt (Function.update σ v (some start)) time w then p.demandOf w k else 0) =
      (if p.runsAt σ time w then p.demandOf w k else 0) + if w = v then
        if start ≤ time ∧ time < start + p.durationOf v then p.demandOf v k else 0
      else 0 := by
    intro w
    unfold runsAt
    by_cases same : w = v
    · subst same
      simp [free]
    · rw [Function.update_of_ne same, if_neg same, add_zero]
  unfold demandAt
  rw [Finset.sum_congr rfl fun w _ => share w, Finset.sum_add_distrib, Finset.sum_ite_eq',
    if_pos (Finset.mem_range.2 hv)]

/-- While a job does not run, the load does not depend on its start. -/
lemma loadAt_update_of_not (hv : v < p.jobs.size) (free : σ v = none)
    (idle : ¬(start ≤ time ∧ time < start + p.durationOf v)) :
    p.loadAt (Function.update σ v (some start)) time = p.loadAt σ time := by
  refine List.map_congr_left fun k _ => ?_
  rw [demandAt_update hv free, if_neg idle, add_zero]

/-- A list is the list of its entries. -/
lemma map_getD {xs : List α} {n : Nat} (length : xs.length = n) :
    xs = (List.range n).map fun k => xs.getD k 0 := by
  refine List.ext_getElem (by rw [List.length_map, List.length_range, length]) fun k inside _ => ?_
  simp [inside]

/-- While a job runs, its demand is added to the load. -/
lemma Supplied.loadAt_update (supplied : p.Supplied) (hv : v < p.jobs.size) (free : σ v = none)
    (runs : start ≤ time ∧ time < start + p.durationOf v) :
    p.loadAt (Function.update σ v (some start)) time =
      List.zipWith (fun u d => u + 1 * d) (p.loadAt σ time) p.jobs[v].demand ∧
    p.loadAt σ time = List.zipWith (fun u d => u + -1 * d)
      (p.loadAt (Function.update σ v (some start)) time) p.jobs[v].demand := by
  have length : p.jobs[v].demand.length = p.resources.length :=
    supplied.demand_length _ (Array.getElem_mem_toList hv)
  have entries : p.jobs[v].demand = (List.range p.resources.length).map (p.demandOf v) := by
    rw [map_getD length]
    exact List.map_congr_left fun k _ => (demandOf_eq hv k).symm
  rw [entries, loadAt, loadAt, List.zipWith_map, List.zipWith_self, List.zipWith_map,
    List.zipWith_self]
  constructor
  · refine List.map_congr_left fun k _ => ?_
    rw [demandAt_update hv free, if_pos runs, one_mul]
  · refine List.map_congr_left fun k _ => ?_
    rw [demandAt_update hv free, if_pos runs, neg_one_mul, add_neg_cancel_right]

end Problem

/-! ## Time steps -/

namespace DenseProfile

variable {q q' : DenseProfile α} {resources : List (Resource α)} {sign : α} {demand : List α}

omit [ExactScalar α] in
/-- A demand is added to the time steps from a position on. -/
lemma getElem?_addFrom [Scalar α] {resources : List (Resource α)} {sign : α} {demand : List α}
    {i : Nat} : ∀ {count time : Nat} {steps : Array (TimeStep α)},
      (addFrom resources sign demand time count steps)[i]? =
        if time ≤ i ∧ i < time + count then
          steps[i]?.map (TimeStep.add resources sign demand i)
        else steps[i]?
  | 0, time, steps => by
    rw [addFrom, if_neg (by omega)]
  | count + 1, time, steps => by
    rw [addFrom, getElem?_addFrom, Array.getElem?_modify]
    by_cases first : time = i
    · subst first
      rw [if_neg (by omega), if_pos rfl, if_pos (by omega)]
    · rw [if_neg first]
      exact if_congr (by omega) rfl rfl

/-- Each time step has the load that the placement makes, and the cost of that load. -/
def Prices (p : Problem α) (σ : Nat → Option Int) (q : DenseProfile α) : Prop :=
  ∀ i < q.steps.size, q.steps[i]? = some ⟨p.loadAt σ i, p.costAt σ i⟩

/-- A load that a demand is added to is priced anew. -/
lemma add_eq {σ' : Nat → Option Int} {i : Nat}
    (load : p.loadAt σ' i = List.zipWith (fun u d => u + sign * d) (p.loadAt σ i) demand) :
    TimeStep.add p.resources sign demand i ⟨p.loadAt σ i, p.costAt σ i⟩ =
      ⟨p.loadAt σ' i, p.costAt σ' i⟩ := by
  have cost := p.stepCost_eq (p.loadAt σ' i) i
  unfold TimeStep.add
  dsimp only
  rw [← load, ← cost]
  rfl

/-- Nothing is demanded and nothing costs if no job is placed. -/
lemma prices_empty (supplied : p.Supplied) : Prices p (fun _ => none) (.empty p) := by
  intro i inside
  unfold DenseProfile.empty at inside ⊢
  dsimp only at inside ⊢
  rw [Array.size_replicate] at inside
  have free : p.costAt (fun _ => none) i = 0 := by
    rw [Problem.costAt, Problem.loadAt_empty, supplied.stepCost_zero (Int.natCast_nonneg i)]
  rw [Array.getElem?_replicate, if_pos inside, free, Problem.loadAt_empty]

/-- The time steps that a job covers are those in which it runs. -/
lemma Prices.of_addFrom {σ' : Nat → Option Int} (h : q.Prices p σ)
    (steps : q'.steps = addFrom p.resources sign demand start.toNat (p.durationOf v).toNat q.steps)
    (lower : 0 ≤ start) (duration : 0 ≤ p.durationOf v)
    (covered : ∀ time : Int, start ≤ time ∧ time < start + p.durationOf v →
      p.loadAt σ' time = List.zipWith (fun u d => u + sign * d) (p.loadAt σ time) demand)
    (others : ∀ time : Int, ¬(start ≤ time ∧ time < start + p.durationOf v) →
      p.loadAt σ' time = p.loadAt σ time) : q'.Prices p σ' := by
  intro i inside
  rw [steps, size_addFrom] at inside
  rw [steps, getElem?_addFrom, h i inside]
  by_cases runs : start ≤ (i : Int) ∧ (i : Int) < start + p.durationOf v
  · rw [if_pos (by omega), Option.map_some, add_eq (covered i runs)]
  · rw [if_neg (by omega), Problem.costAt, Problem.costAt, others i runs]

/-- An insertion prices the time steps of the job anew. -/
lemma Prices.insert (h : q.Prices p σ) (keeps : q.Keeps p σ) (built : p.Built) (timely : p.Timely)
    (supplied : p.Supplied) (hv : v < p.jobs.size) (free : σ v = none) (inside : p.Inside v start)
    (inserted : q.insert v start = .ok q') : q'.Prices p (Function.update σ v (some start)) := by
  obtain ⟨-, steps⟩ := (keeps.insert_eq built timely hv free inside).of_eq_ok inserted
  have nonneg : 0 ≤ p.durationOf v := (built.frame timely).duration_nonneg v
  refine h.of_addFrom steps inside.1 nonneg (fun time runs => ?_) fun time idle => ?_
  · exact (supplied.loadAt_update hv free runs).1
  · exact Problem.loadAt_update_of_not hv free idle

/-- A removal prices the time steps of the job anew. -/
lemma Prices.remove (h : q.Prices p σ) (keeps : q.Keeps p σ) (built : p.Built) (timely : p.Timely)
    (supplied : p.Supplied) (hv : v < p.jobs.size)
    (all : ∀ v start, σ v = some start → p.Inside v start) (removed : q.remove v = .ok q') :
    q'.Prices p (Function.update σ v none) := by
  cases placed : σ v with
  | none =>
    rw [keeps.remove_of_none hv placed] at removed
    cases removed
    rwa [← placed, Function.update_eq_self]
  | some start =>
    have inside := all v start placed
    obtain ⟨-, steps⟩ := (keeps.remove_eq built timely hv placed inside).of_eq_ok removed
    have free : Function.update σ v none v = none := Function.update_self ..
    have back : Function.update (Function.update σ v none) v (some start) = σ := by
      rw [Function.update_idem, ← placed, Function.update_eq_self]
    have nonneg : 0 ≤ p.durationOf v := (built.frame timely).duration_nonneg v
    refine h.of_addFrom steps inside.1 nonneg (fun time runs => ?_) fun time idle => ?_
    · have taken := (supplied.loadAt_update hv free runs).2
      rwa [back] at taken
    · have same := Problem.loadAt_update_of_not hv free idle
      rw [back] at same
      exact same.symm

end DenseProfile

namespace Profile

variable {P : Profile α}

/-- A new dense profile is priced. -/
lemma prices_of_denseOf (supplied : p.Supplied) {limit : Int} {q : DenseProfile α}
    (accepted : (denseOf p limit).Accepts (.dense q)) : q.Prices p fun _ => none := by
  unfold denseOf at accepted
  split at accepted
  · exact absurd accepted Verdict.not_accepts_throw
  · cases Verdict.accepts_pure.1 accepted
    exact DenseProfile.prices_empty supplied

/-- The time steps of a dense profile are priced. -/
lemma Holds.prices (h : P.Holds p σ) (built : p.Built) (timely : p.Timely) (supplied : p.Supplied) :
    ∀ q, P = .dense q → q.Prices p σ := by
  induction h with
  | @empty kind limit P accepted =>
    rintro q rfl
    unfold Profile.empty at accepted
    split at accepted
    · exact prices_of_denseOf supplied accepted
    · exact prices_of_denseOf supplied accepted
    · exact absurd accepted Verdict.not_accepts_throw
    · obtain ⟨t, -, answer⟩ := Checked.bind_eq_ok.1 (Verdict.accepts_lift.1 accepted)
      cases answer
  | @insert σ P P' v start holds job free inside answer ih =>
    rintro q' rfl
    cases P with
    | tracked t reduction horizon =>
      obtain ⟨t', -, answer⟩ := Checked.bind_eq_ok.1 answer
      cases answer
    | dense q =>
      obtain ⟨q', inserted, answer⟩ := Checked.bind_eq_ok.1 answer
      cases answer
      have keeps : q.Keeps p σ := holds.knows built timely
      exact (ih q rfl).insert keeps built timely supplied job free inside inserted
  | @remove σ P P' v holds job answer ih =>
    rintro q' rfl
    cases P with
    | tracked t reduction horizon =>
      obtain ⟨t', -, answer⟩ := Checked.bind_eq_ok.1 answer
      cases answer
    | dense q =>
      obtain ⟨q', removed, answer⟩ := Checked.bind_eq_ok.1 answer
      cases answer
      have keeps : q.Keeps p σ := holds.knows built timely
      exact (ih q rfl).remove keeps built timely supplied job holds.inside removed

end Profile

/-! ## Levels -/

namespace Reduction

variable {red : Reduction α}

/-- The weight of a job in a tracked profile is the level that its demand makes. -/
lemma getElem?_weights (red : Reduction α) (hv : v < p.jobs.size) :
    (p.jobs.map fun job => red.level job.demand)[v]? = some (red.level p.jobs[v].demand) := by
  rw [Array.getElem?_map, Array.getElem?_eq_getElem hv]
  rfl

/-- What a job adds to the level while it runs is its weight, also if that is zero. -/
lemma share_eq (supplied : p.Supplied) (reduces : ofResources? p.resources = some red)
    (hv : v < p.jobs.size) (time : Int) :
    TrackedProfile.share p.durations (p.jobs.map fun job => red.level job.demand) σ time v =
      if p.runsAt σ time v then red.level p.jobs[v].demand else 0 := by
  have among : p.jobs[v] ∈ p.jobs.toList := Array.getElem_mem_toList hv
  have nonneg := level_nonneg supplied reduces (supplied.demand_length _ among)
    (supplied.demand_nonneg _ among)
  unfold TrackedProfile.share Problem.runsAt
  rw [getElem?_weights red hv]
  cases σ v with
  | none => rfl
  | some start =>
    dsimp only
    have same : p.durationOf v = valueAt p.durations v := rfl
    rw [← same]
    by_cases runs : start ≤ time ∧ time < start + p.durationOf v
    · have duration : 0 < p.durationOf v := by omega
      rcases eq_or_lt_of_le nonneg with zero | positive
      · rw [← zero]
        simp
      · rw [if_pos ⟨⟨duration, positive⟩, runs⟩, if_pos (by simpa using runs)]
    · rw [if_neg fun all => runs all.2, if_neg (by simpa using runs)]

/-- The level at a time is the level that the load makes. -/
lemma levelOf_eq (supplied : p.Supplied) (reduces : ofResources? p.resources = some red)
    (σ : Nat → Option Int) (time : Int) :
    TrackedProfile.levelOf p.durations (p.jobs.map fun job => red.level job.demand) σ time =
      red.level (p.loadAt σ time) := by
  have entry : ∀ k ∈ Finset.range p.resources.length,
      (p.loadAt σ time).getD k 0 = p.demandAt σ time k := by
    intro k within
    rw [Problem.loadAt, List.getD_eq_getElem?_getD, List.getElem?_map,
      List.getElem?_range (Finset.mem_range.1 within)]
    rfl
  have each : ∀ v ∈ Finset.range p.jobs.size,
      TrackedProfile.share p.durations (p.jobs.map fun job => red.level job.demand) σ time v =
        ∑ k ∈ Finset.range p.resources.length,
          red.unitLevel k * if p.runsAt σ time v then p.demandOf v k else 0 := by
    intro v within
    have hv : v < p.jobs.size := Finset.mem_range.1 within
    have length := supplied.demand_length _ (Array.getElem_mem_toList hv)
    rw [share_eq supplied reduces hv]
    split
    · rw [level_eq supplied reduces length]
      exact Finset.sum_congr rfl fun k _ => by rw [Problem.demandOf_eq hv]
    · exact (Finset.sum_eq_zero fun k _ => mul_zero _).symm
  unfold TrackedProfile.levelOf
  rw [Array.size_map]
  refine (Finset.sum_congr rfl each).trans ?_
  rw [Finset.sum_comm, level_eq supplied reduces (p.length_loadAt σ time)]
  refine Finset.sum_congr rfl fun k within => ?_
  rw [entry k within, Problem.demandAt, Finset.mul_sum]

/-- The cost of a time step is the cost of the level at that time. -/
lemma cost_levelOf (supplied : p.Supplied) (reduces : ofResources? p.resources = some red)
    (σ : Nat → Option Int) (reached : 0 ≤ time) :
    red.cost (TrackedProfile.levelOf p.durations (p.jobs.map fun job => red.level job.demand) σ time) =
      p.costAt σ time := by
  rw [levelOf_eq supplied reduces]
  exact cost_level supplied reduces (p.length_loadAt σ time) (supplied.loadAt_nonneg σ time) reached

end Reduction

end Leveling
