import Leveling.Proofs.Profile.Loads
import Leveling.Schedule

/-!
# Evaluations charge each time step for what is demanded

What a schedule costs can be read off its starts.  The jobs that run during a time step demand something,
what goes beyond the amount that is free pays the overshoot, and for each resource the largest excess pays
the investment.

An evaluation adds up changes of the demand instead.  What carries this is that the changes up to a time
step add up to the demand during it: a job that has started and has not finished has made one of its two
changes, and any other job none or both.  Changes before time zero are made at zero, which is no later for
any time step that is looked at.

The changes are listed for all time steps up to the last finish and the horizon.  If these are more than a
list can hold, an evaluation of any resource stops.
-/

namespace Leveling

open Checked

variable {α : Type} [ExactScalar α] {p : Problem α} {s : Schedule α} {σ : Nat → Option Int} {k : Nat}
  {time : Int}

/-! ## What is free -/

namespace Availability

variable {a : Availability α} {i : Nat}

/-- The amount of the last breakpoint at or before a time, or zero before the first breakpoint. -/
def freeAt (a : Availability α) (time : Int) : α :=
  match (a.points.toList.filter fun b => b.time ≤ time).getLast? with
  | some b => b.amount
  | none => 0

omit [ExactScalar α] in
/-- A breakpoint is reached if its time is not later. -/
lemma reached_iff : a.reached time i = true ↔ ∃ b, a.points[i]? = some b ∧ b.time ≤ time := by
  unfold reached
  cases a.points[i]? with
  | none => exact ⟨nofun, fun ⟨_, found, _⟩ => nomatch found⟩
  | some b =>
    refine decide_eq_true_iff.trans ⟨fun before => ⟨b, rfl, before⟩, fun ⟨_, found, before⟩ => ?_⟩
    exact Option.some.inj found ▸ before

/-- Before a breakpoint that is reached, all are. -/
lemma Proper.reached_of_le (proper : a.Proper) {j : Nat} (le : i ≤ j)
    (reached : a.reached time j = true) : a.reached time i = true := by
  obtain rfl | lt := eq_or_lt_of_le le
  · exact reached
  · obtain ⟨b, found, before⟩ := reached_iff.1 reached
    obtain ⟨hj, rfl⟩ := Array.getElem?_eq_some_iff.1 found
    have hi : i < a.points.size := lt.trans hj
    have earlier : a.points[i].time < a.points[j].time :=
      List.pairwise_iff_getElem.1 proper.increasing i j hi hj lt
    exact reached_iff.2 ⟨_, Array.getElem?_eq_getElem hi, earlier.le.trans before⟩

/-- The search by halving counts the breakpoints that are reached. -/
lemma Proper.reached_iff_lt (proper : a.Proper) {base size : Nat} :
    (∀ i < base, a.reached time i = true) → (∀ i, a.reached time i = true → i < base + size) →
      (a.reached time i = true ↔ i < a.countReached time base size) := by
  induction base, size using countReached.induct a time with
  | case1 base size small reached =>
    intro before behind
    unfold countReached
    rw [if_pos small, if_pos reached]
    refine ⟨fun reached => by have := behind i reached; omega, fun lt => ?_⟩
    exact proper.reached_of_le (Nat.le_of_lt_succ lt) reached
  | case2 base size small notReached =>
    intro before _
    unfold countReached
    rw [if_pos small, if_neg notReached]
    refine ⟨fun reached => ?_, before i⟩
    exact lt_of_not_ge fun le => notReached (proper.reached_of_le le reached)
  | case3 base size large half base' ih =>
    intro before behind
    unfold countReached
    rw [if_neg large]
    refine ih ?_ fun j reached => ?_
    · dsimp only [base', half]
      split
      · rename_i middle
        exact fun j lt => proper.reached_of_le lt.le middle
      · exact before
    · have inside := behind j reached
      dsimp only [base', half]
      split
      · omega
      · rename_i middle
        have lower : j < base + size / 2 :=
          lt_of_not_ge fun le => middle (proper.reached_of_le le reached)
        omega

/-- If exactly the entries before a position satisfy a test, they are those that a filter keeps. -/
lemma filter_eq_take {β : Type} {test : β → Bool} {xs : List β} : ∀ {n : Nat},
    (∀ i x, xs[i]? = some x → (test x = true ↔ i < n)) → xs.filter test = xs.take n := by
  induction xs with
  | nil => exact fun _ => List.take_nil.symm
  | cons x xs ih =>
    intro n split
    cases n with
    | zero =>
      refine List.filter_eq_nil_iff.2 fun y among passes => ?_
      obtain ⟨i, there⟩ := List.mem_iff_getElem?.1 among
      exact Nat.not_lt_zero i ((split i y there).1 passes)
    | succ n =>
      rw [List.filter_cons_of_pos ((split 0 x rfl).2 n.succ_pos), List.take_succ_cons]
      exact congrArg _ (ih fun i y there => (split (i + 1) y there).trans Nat.succ_lt_succ_iff)

/-- The amount at a time is that of the last breakpoint until then. -/
lemma Proper.amountAt_eq (proper : a.Proper) (time : Int) : a.amountAt time = a.freeAt time := by
  have counted : ∀ {i}, a.reached time i = true ↔ i < a.countReached time 0 a.points.size := by
    refine proper.reached_iff_lt (fun i lt => absurd lt (Nat.not_lt_zero i)) fun i reached => ?_
    obtain ⟨b, found, -⟩ := reached_iff.1 reached
    rw [Nat.zero_add]
    exact (Array.getElem?_eq_some_iff.1 found).1
  have kept : (a.points.toList.filter fun b => b.time ≤ time) =
      a.points.toList.take (a.countReached time 0 a.points.size) := by
    refine filter_eq_take fun i b there => ?_
    rw [Array.getElem?_toList] at there
    rw [← counted, reached_iff, there, decide_eq_true_iff]
    exact ⟨fun before => ⟨b, rfl, before⟩, fun ⟨_, found, before⟩ => Option.some.inj found ▸ before⟩
  unfold amountAt freeAt
  rw [kept]
  cases count : a.countReached time 0 a.points.size with
  | zero => rfl
  | succ i =>
    obtain ⟨b, found, -⟩ := reached_iff.1 (counted.2 (lt_of_lt_of_eq i.lt_succ_self count.symm))
    dsimp only
    rw [List.getLast?_take, if_neg i.succ_ne_zero, Nat.add_sub_cancel, Array.getElem?_toList, found]
    rfl

end Availability

/-! ## Highest values -/

/-- The highest of zero and the values before a position. -/
def highest (f : Nat → α) (count : Nat) : α := (Finset.range count).fold max 0 f

/-- One more value may be higher. -/
lemma highest_succ (f : Nat → α) (count : Nat) :
    highest f (count + 1) = max (highest f count) (f count) := by
  unfold highest
  rw [Finset.range_add_one, Finset.fold_insert Finset.notMem_range_self, max_comm]

/-- The highest value is not negative. -/
lemma highest_nonneg (f : Nat → α) (count : Nat) : 0 ≤ highest f count :=
  (Finset.le_fold_max _).2 (.inl le_rfl)

/-- The highest value is positive if one of the values is. -/
lemma highest_pos_iff {f : Nat → α} {count : Nat} : 0 < highest f count ↔ ∃ t < count, 0 < f t := by
  unfold highest
  simp only [Finset.lt_fold_max, lt_irrefl, false_or, Finset.mem_range]

/-! ## What a schedule costs -/

namespace Problem

/-- What is demanded of a resource beyond what is free during a time step. -/
def excessAt (p : Problem α) (σ : Nat → Option Int) (r : Resource α) (k : Nat) (time : Int) : α :=
  p.demandAt σ time k - r.availability.freeAt time

/-- What a resource charges for the single time steps before `horizon`. -/
def overshootUntil (p : Problem α) (σ : Nat → Option Int) (horizon : Nat) (r : Resource α) (k : Nat) : α :=
  ∑ t ∈ Finset.range horizon,
    if 0 < p.excessAt σ r k t then r.overshoot.apply (p.excessAt σ r k t) else 0

/-- What a resource charges for its largest excess before `horizon`, if there is any. -/
def investmentUntil (p : Problem α) (σ : Nat → Option Int) (horizon : Nat) (r : Resource α) (k : Nat) : α :=
  if ∃ t < horizon, 0 < p.excessAt σ r k t then
    r.investment.apply (highest (fun t => p.excessAt σ r k t) horizon)
  else 0

/-- The cost of a placement by its definition, and the largest demand for each resource. -/
def costUntil (p : Problem α) (σ : Nat → Option Int) (horizon : Nat) : ScheduleCost α where
  investment := (p.resources.zipIdx.map fun (r, k) => p.investmentUntil σ horizon r k).sum
  overshoot := (p.resources.zipIdx.map fun (r, k) => p.overshootUntil σ horizon r k).sum
  peakDemand := p.resources.zipIdx.map fun (_, k) => highest (fun t => p.demandAt σ t k) horizon

/-- The times at which the placed jobs finish. -/
def finishes (p : Problem α) (σ : Nat → Option Int) : Set Int :=
  {finish | ∃ v < p.jobs.size, ∃ start, σ v = some start ∧ finish = start + p.durationOf v}

end Problem

/-! ## Changes of a demand -/

section

variable {changes : Array α} {q : Placement α} {r : Nat}

/-- What the changes up to a time step add up to. -/
def levelAfter (changes : Array α) (t : Nat) : α := ∑ i ∈ Finset.range (t + 1), changes.getD i 0

/-- A change at a time counts from then on. -/
lemma addChange_answers (inside : time.toNat < changes.size) (x : α) :
    (addChange changes time x).Answers fun changes' => changes'.size = changes.size ∧
      ∀ t : Nat, levelAfter changes' t = levelAfter changes t + if time ≤ t then x else 0 := by
  unfold addChange
  rw [fetch_of_lt inside, ok_bind, store_of_lt _ inside]
  refine .pure ⟨Array.size_set _, fun t => ?_⟩
  have entry : ∀ i, (changes.set time.toNat (changes[time.toNat] + x) inside).getD i 0 =
      changes.getD i 0 + if time.toNat = i then x else 0 := by
    intro i
    rw [Array.getD_eq_getD_getElem?, Array.getD_eq_getD_getElem?, Array.getElem?_set]
    split
    · rename_i here
      subst here
      rw [Array.getElem?_eq_getElem inside]
      rfl
    · rw [add_zero]
  unfold levelAfter
  rw [Finset.sum_congr rfl fun i _ => entry i, Finset.sum_add_distrib, Finset.sum_ite_eq]
  congr 1
  refine if_congr ?_ rfl rfl
  rw [Finset.mem_range]
  omega

/-- What a scheduled job demands during a time step. -/
def Placement.demandAt (q : Placement α) (r : Nat) (time : Int) : α :=
  if q.start ≤ time ∧ time < q.finish then q.demand.getD r 0 else 0

/-- The two changes that a job makes add its demand while it runs. -/
lemma Placement.addTo_answers (ordered : q.start ≤ q.finish) (inside : q.finish.toNat < changes.size)
    (listed : r < q.demand.length) : (q.addTo r changes).Answers fun changes' =>
      changes'.size = changes.size ∧
        ∀ t : Nat, levelAfter changes' t = levelAfter changes t + q.demandAt r t := by
  have demanded : q.demand.getD r 0 = q.demand[r] := by
    rw [List.getD_eq_getElem?_getD, List.getElem?_eq_getElem listed]
    rfl
  unfold Placement.addTo Placement.demandAt
  rw [demanded]
  split
  · rename_i short
    refine .pure ⟨rfl, fun t => ?_⟩
    rw [if_neg (by omega), add_zero]
  · rw [List.getElem?_eq_getElem listed]
    dsimp only
    split
    · rename_i nothing
      refine .pure ⟨rfl, fun t => ?_⟩
      rw [ExactScalar.beq_iff.1 nothing, ite_self, add_zero]
    · refine (addChange_answers (by omega) _).bind fun changes₁ ⟨size₁, started⟩ => ?_
      refine (addChange_answers (size₁ ▸ inside) _).imp fun changes₂ ⟨size₂, finished⟩ => ?_
      refine ⟨size₂.trans size₁, fun t => ?_⟩
      rw [finished, started, add_assoc]
      congr 1
      by_cases before : (t : Int) < q.finish
      · rw [if_neg (not_le.2 before), add_zero]
        exact if_congr (by omega) rfl rfl
      · rw [if_pos (not_lt.1 before), if_pos (by omega), if_neg fun runs => before runs.2,
          add_neg_cancel]

/-- A list that is short enough can be made. -/
lemma reserve_of_le {count bytes : Nat} (fits : count * bytes ≤ mostBytes) : reserve count bytes = .ok () :=
  if_pos fits

/-- A list that is too long cannot be made. -/
lemma reserve_of_lt {count bytes : Nat} (long : mostBytes < count * bytes) :
    reserve count bytes = .error .capacityOverflow := if_neg (not_le.2 long)

/-- The changes add up to the demand of the jobs that run, if there is a list of them. -/
lemma demandChanges_answers {placements : List (Placement α)} {horizon : Nat}
    (fits : (horizon + 1) * 8 ≤ mostBytes)
    (ordered : ∀ q ∈ placements, q.start ≤ q.finish) (inside : ∀ q ∈ placements, q.finish ≤ horizon)
    (listed : ∀ q ∈ placements, r < q.demand.length) :
    (demandChanges placements r horizon).Answers fun changes =>
      ∀ t : Nat, levelAfter changes t = (placements.map fun q => q.demandAt r t).sum := by
  have begin_zero : ∀ t, levelAfter (Array.replicate (horizon + 1) (0 : α)) t = 0 := by
    intro t
    refine Finset.sum_eq_zero fun i _ => ?_
    rw [Array.getD_eq_getD_getElem?, Array.getElem?_replicate]
    split <;> rfl
  unfold demandChanges
  rw [reserve_of_le fits, ok_bind]
  refine (Answers.foldlM_rest (fun rest changes => (∀ q ∈ rest, q ∈ placements) ∧
    changes.size = horizon + 1 ∧ ∀ t : Nat, levelAfter changes t + (rest.map fun q => q.demandAt r t).sum =
      (placements.map fun q => q.demandAt r t).sum) ?_ ?_).imp fun changes ⟨_, _, sums⟩ t => ?_
  · intro changes q rest ⟨among, size, sums⟩
    have member := among q List.mem_cons_self
    have finish := inside q member
    refine (Placement.addTo_answers (ordered q member) (by omega) (listed q member)).imp ?_
    intro changes' ⟨size', added⟩
    refine ⟨fun q' rest => among q' (List.mem_cons_of_mem _ rest), size'.trans size, fun t => ?_⟩
    rw [added, ← sums t, List.map_cons, List.sum_cons, add_assoc]
  · refine ⟨fun _ => id, Array.size_replicate, fun t => ?_⟩
    rw [begin_zero, zero_add]
  · have total := sums t
    rwa [List.map_nil, List.sum_nil, add_zero] at total

end

/-! ## The sweep over the time steps -/

namespace DemandSweep

variable {r : Resource α} {changes : Array α} {paid : α} {count : Nat} {w : DemandSweep α}

omit [ExactScalar α] in
/-- A sweep over one more time step ends with that one. -/
lemma follow_succ [Scalar α] (r : Resource α) (changes : Array α) : ∀ (count time : Nat) (w : DemandSweep α),
    follow r changes time (count + 1) w =
      (follow r changes time count w).advance r (changes.getD (time + count) 0) (time + count : Nat)
  | 0, _, _ => rfl
  | count + 1, time, w => by
    rw [follow, follow_succ r changes count (time + 1), follow, Nat.add_right_comm time 1 count]
    rfl

/-- After some time steps: the changes so far are added up, the highest values are those of the time
steps so far, and these are paid. -/
structure Swept (p : Problem α) (σ : Nat → Option Int) (r : Resource α) (k : Nat) (changes : Array α)
    (paid : α) (count : Nat) (w : DemandSweep α) : Prop where
  usage : w.usage = ∑ i ∈ Finset.range count, changes.getD i 0
  peak : w.peak = highest (fun t => p.demandAt σ t k) count
  excess : w.excess = highest (fun t => p.excessAt σ r k t) count
  overshoot : w.overshoot = paid + p.overshootUntil σ count r k

/-- **Step.**  One more time step is charged for the excess during it. -/
lemma Swept.advance (h : Swept p σ r k changes paid count w) (proper : r.Proper)
    (level : levelAfter changes count = p.demandAt σ count k) :
    Swept p σ r k changes paid (count + 1) (w.advance r (changes.getD count 0) count) := by
  have usage : w.usage + changes.getD count 0 = p.demandAt σ count k := by
    rw [h.usage, ← level, levelAfter, Finset.sum_range_succ]
  have excess : p.demandAt σ count k - r.availability.amountAt count = p.excessAt σ r k count := by
    rw [proper.availability.amountAt_eq, Problem.excessAt]
  have peak : max w.peak (p.demandAt σ count k) = highest (fun t => p.demandAt σ t k) (count + 1) := by
    rw [highest_succ, h.peak]
  have charged := Finset.sum_range_succ (fun t : Nat =>
    if 0 < p.excessAt σ r k t then r.overshoot.apply (p.excessAt σ r k t) else 0) count
  unfold DemandSweep.advance
  dsimp only
  rw [usage, excess]
  split
  · rename_i exceeds
    refine ⟨level.symm, peak, ?_, ?_⟩
    · rw [highest_succ, h.excess]
    · rw [h.overshoot, add_assoc, Problem.overshootUntil, Problem.overshootUntil, charged, if_pos exceeds]
  · rename_i within
    refine ⟨level.symm, peak, ?_, ?_⟩
    · rw [highest_succ, h.excess, max_eq_left ((not_lt.1 within).trans (highest_nonneg _ _))]
    · rw [h.overshoot, Problem.overshootUntil, Problem.overshootUntil, charged, if_neg within, add_zero]

/-- **Run.**  A sweep from time zero on charges all its time steps. -/
lemma swept_follow (proper : r.Proper) (levels : ∀ t : Nat, levelAfter changes t = p.demandAt σ t k)
    (paid : α) (count : Nat) :
    Swept p σ r k changes paid count (follow r changes 0 count ⟨0, 0, 0, paid⟩) := by
  induction count with
  | zero => exact ⟨rfl, rfl, rfl, (add_zero paid).symm⟩
  | succ count ih =>
    rw [follow_succ, Nat.zero_add]
    exact ih.advance proper (levels count)

end DemandSweep

/-! ## The scheduled jobs -/

namespace Schedule

/-- The start and the finish of a job at a position, if it is scheduled. -/
def placementOf (s : Schedule α) (x : Job α × Nat) : Option (Placement α) :=
  (s.startOf x.2).map fun start => ⟨start, start + x.1.duration, x.1.demand⟩

/-- All scheduled jobs finish at a time. -/
def Timely (p : Problem α) (s : Schedule α) : Prop :=
  ∀ v < p.jobs.size, ∀ start, s.startOf v = some start →
    leastTime ≤ start + p.durationOf v ∧ start + p.durationOf v ≤ greatestTime

omit [ExactScalar α] in
/-- The jobs that are scheduled are found if all of them finish at a time. -/
lemma placements_eq {jobs : List (Job α)} : ∀ {id : Nat},
    (∀ x ∈ jobs.zipIdx id, ∀ start, s.startOf x.2 = some start →
      leastTime ≤ start + x.1.duration ∧ start + x.1.duration ≤ greatestTime) →
    s.placements jobs id = .ok ((jobs.zipIdx id).filterMap s.placementOf) := by
  induction jobs with
  | nil => exact fun _ => rfl
  | cons job rest ih =>
    intro id timely
    rw [List.zipIdx_cons] at timely ⊢
    have others := ih fun x among => timely x (List.mem_cons_of_mem _ among)
    unfold placements
    cases scheduled : s.startOf id with
    | none =>
      have unplaced : s.placementOf (job, id) = none := by rw [placementOf, scheduled, Option.map_none]
      rw [List.filterMap_cons_none unplaced]
      exact others
    | some start =>
      have placed : s.placementOf (job, id) = some ⟨start, start + job.duration, job.demand⟩ := by
        rw [placementOf, scheduled, Option.map_some]
      obtain ⟨least, greatest⟩ := timely (job, id) List.mem_cons_self start scheduled
      rw [List.filterMap_cons_some placed]
      dsimp only
      rw [addTime, asTime_of_mem least greatest, ok_bind, others]
      rfl

end Schedule

/-- The jobs of an instance that are scheduled. -/
def Problem.placed (p : Problem α) (s : Schedule α) : List (Placement α) :=
  p.jobs.toList.zipIdx.filterMap s.placementOf

namespace Problem

omit [ExactScalar α] in
/-- The duration of a job, by its position. -/
lemma durationOf_of_mem_zipIdx {x : Job α × Nat} (among : x ∈ p.jobs.toList.zipIdx) :
    x.2 < p.jobs.size ∧ p.durationOf x.2 = x.1.duration := by
  have there := List.mem_zipIdx_iff_getElem?.1 among
  rw [Array.getElem?_toList] at there
  obtain ⟨hv, same⟩ := Array.getElem?_eq_some_iff.1 there
  exact ⟨hv, by rw [durationOf, valueAt_jobs _ hv, same]⟩

omit [ExactScalar α] in
/-- A scheduled job has a start. -/
lemma mem_placed {q : Placement α} : q ∈ p.placed s ↔ ∃ x ∈ p.jobs.toList.zipIdx,
    ∃ start, s.startOf x.2 = some start ∧ q = ⟨start, start + x.1.duration, x.1.demand⟩ := by
  unfold placed Schedule.placementOf
  simp only [List.mem_filterMap, Option.map_eq_some_iff, eq_comm (a := q)]

/-- A sum over the entries that are kept is one over all entries. -/
lemma sum_filterMap {β γ : Type} (keep : β → Option γ) (value : γ → α) (xs : List β) :
    ((xs.filterMap keep).map value).sum = (xs.map fun x => ((keep x).map value).getD 0).sum := by
  induction xs with
  | nil => rfl
  | cons x xs ih =>
    rw [List.map_cons, List.sum_cons, ← ih]
    cases kept : keep x with
    | none => rw [List.filterMap_cons_none kept, Option.map_none, Option.getD_none, zero_add]
    | some y =>
      rw [List.filterMap_cons_some kept, List.map_cons, List.sum_cons, Option.map_some, Option.getD_some]

/-- The scheduled jobs demand together what is demanded. -/
lemma sum_placed (p : Problem α) (s : Schedule α) (k : Nat) (time : Int) :
    ((p.placed s).map fun q => q.demandAt k time).sum = p.demandAt s.startOf time k := by
  have share : ∀ x ∈ p.jobs.toList.zipIdx,
      ((s.placementOf x).map fun q => q.demandAt k time).getD 0 =
        if p.runsAt s.startOf time x.2 then p.demandOf x.2 k else 0 := by
    intro x among
    obtain ⟨hv, lasts⟩ := durationOf_of_mem_zipIdx among
    unfold Schedule.placementOf runsAt
    cases s.startOf x.2 with
    | none => rfl
    | some start =>
      have there := List.mem_zipIdx_iff_getElem?.1 among
      rw [Array.getElem?_toList] at there
      simp [Placement.demandAt, lasts, demandOf, there]
  calc ((p.placed s).map fun q => q.demandAt k time).sum
      = (p.jobs.toList.zipIdx.map fun x =>
          if p.runsAt s.startOf time x.2 then p.demandOf x.2 k else 0).sum := by
        rw [placed, sum_filterMap, List.map_congr_left share]
    _ = ((p.jobs.toList.zipIdx.map Prod.snd).map fun v =>
          if p.runsAt s.startOf time v then p.demandOf v k else 0).sum := by
        rw [List.map_map]
        rfl
    _ = p.demandAt s.startOf time k := by
        rw [List.zipIdx_map_snd, ← List.range_eq_range', Array.length_toList]
        rfl

omit [ExactScalar α] in
/-- The finishes of the scheduled jobs are those that the starts make. -/
lemma finish_placed (p : Problem α) (s : Schedule α) :
    Placement.finish '' {q | q ∈ p.placed s} = p.finishes s.startOf := by
  ext t
  constructor
  · rintro ⟨q, member, rfl⟩
    obtain ⟨x, among, start, scheduled, rfl⟩ := mem_placed.1 member
    obtain ⟨hv, lasts⟩ := durationOf_of_mem_zipIdx among
    exact ⟨x.2, hv, start, scheduled, by rw [lasts]⟩
  · rintro ⟨v, hv, start, scheduled, rfl⟩
    have among : (p.jobs[v], v) ∈ p.jobs.toList.zipIdx :=
      List.mk_mem_zipIdx_iff_getElem?.2 (by rw [Array.getElem?_toList, Array.getElem?_eq_getElem hv])
    obtain ⟨-, lasts⟩ := durationOf_of_mem_zipIdx among
    exact ⟨_, mem_placed.2 ⟨_, among, start, scheduled, rfl⟩, by rw [lasts]⟩

omit [ExactScalar α] in
/-- A running maximum is the greatest of the finishes and of what was there before. -/
lemma isGreatest_foldl_finish (placements : List (Placement α)) :
    ∀ {before : Set Int} {h : Int}, IsGreatest before h →
      IsGreatest (before ∪ Placement.finish '' {q | q ∈ placements})
        (placements.foldl (fun h q => max h q.finish) h) := by
  induction placements with
  | nil =>
    intro before h greatest
    simpa using greatest
  | cons q rest ih =>
    intro before h greatest
    have sets : insert q.finish before ∪ Placement.finish '' {q' | q' ∈ rest} =
        before ∪ Placement.finish '' {q' | q' ∈ q :: rest} := by
      ext t
      simp [or_assoc, or_left_comm, eq_comm]
    rw [List.foldl_cons, max_comm, ← sets]
    exact ih (greatest.insert q.finish)

omit [ExactScalar α] in
/-- The time steps of an evaluation end at the horizon or at a finish, whichever is last. -/
lemma isGreatest_lastStep (p : Problem α) (s : Schedule α) :
    IsGreatest ({0, p.horizon} ∪ p.finishes s.startOf) (p.lastStep (p.placed s) : Int) := by
  have greatest := isGreatest_foldl_finish (p.placed s) (isGreatest_pair (a := p.horizon) (b := 0))
  have nonneg : 0 ≤ (p.placed s).foldl (fun h q => max h q.finish) (max p.horizon 0) :=
    greatest.2 (.inl (.inr rfl))
  unfold lastStep
  rw [Int.toNat_of_nonneg nonneg, Set.pair_comm, ← finish_placed]
  exact greatest

/-! ## Evaluations -/

/-- Each resource adds what it charges by definition. -/
lemma addResource_eq {r : Resource α} {horizon : Nat} (fits : (horizon + 1) * 8 ≤ mostBytes)
    (built : p.Built) (supplied : p.Supplied) (listed : k < p.resources.length) (proper : r.Proper)
    (inside : ∀ q ∈ p.placed s, q.finish ≤ horizon) (cost : ScheduleCost α) :
    cost.addResource (p.placed s) horizon r k = .ok
      { investment := cost.investment + p.investmentUntil s.startOf horizon r k
        overshoot := cost.overshoot + p.overshootUntil s.startOf horizon r k
        peakDemand := cost.peakDemand ++ [highest (fun t => p.demandAt s.startOf t k) horizon] } := by
  have suits : ∀ q ∈ p.placed s, q.start ≤ q.finish ∧ k < q.demand.length := by
    intro q member
    obtain ⟨x, among, start, -, rfl⟩ := mem_placed.1 member
    have job : x.1 ∈ p.jobs.toList := List.mem_of_getElem? (List.mem_zipIdx_iff_getElem?.1 among)
    have duration := (built.jobs x.1 job).duration_nonneg
    exact ⟨by dsimp only; omega, lt_of_lt_of_eq listed (supplied.demand_length x.1 job).symm⟩
  obtain ⟨changes, answer, levels⟩ := demandChanges_answers fits (fun q member => (suits q member).1) inside
    fun q member => (suits q member).2
  have swept := DemandSweep.swept_follow (p := p) (σ := s.startOf) proper
    (fun t => (levels t).trans (sum_placed p s k t)) cost.overshoot horizon
  unfold ScheduleCost.addResource investmentUntil
  rw [answer, ok_bind]
  dsimp only
  rw [swept.excess, swept.overshoot, swept.peak]
  simp only [highest_pos_iff]
  split
  · rfl
  · rw [add_zero]
    rfl

omit [ExactScalar α] in
/-- No resource can be followed over more time steps than there is a list of. -/
lemma addResource_of_long [Scalar α] {r : Resource α} {horizon : Nat}
    (long : mostBytes < (horizon + 1) * 8) (cost : ScheduleCost α) (placements : List (Placement α)) :
    cost.addResource placements horizon r k = .error .capacityOverflow := by
  unfold ScheduleCost.addResource demandChanges
  rw [reserve_of_lt long]
  rfl

/-- The resources add what they charge one after the other. -/
lemma addResources_eq {horizon : Nat} (fits : (horizon + 1) * 8 ≤ mostBytes) (built : p.Built) (supplied : p.Supplied)
    (inside : ∀ q ∈ p.placed s, q.finish ≤ horizon) {xs : List (Resource α × Nat)} :
    (∀ x ∈ xs, x ∈ p.resources.zipIdx) → ∀ cost : ScheduleCost α,
      xs.foldlM (fun cost (r, k) => cost.addResource (p.placed s) horizon r k) cost = .ok
        { investment := cost.investment + (xs.map fun (r, k) => p.investmentUntil s.startOf horizon r k).sum
          overshoot := cost.overshoot + (xs.map fun (r, k) => p.overshootUntil s.startOf horizon r k).sum
          peakDemand := cost.peakDemand ++
            xs.map fun (_, k) => highest (fun t => p.demandAt s.startOf t k) horizon } := by
  induction xs with
  | nil =>
    intro _ cost
    simp only [List.map_nil, List.sum_nil, add_zero, List.append_nil]
    rfl
  | cons x xs ih =>
    intro among cost
    obtain ⟨r, k⟩ := x
    have there := List.mk_mem_zipIdx_iff_getElem?.1 (among (r, k) List.mem_cons_self)
    obtain ⟨listed, -⟩ := List.getElem?_eq_some_iff.1 there
    have proper := supplied.resources r (List.mem_of_getElem? there)
    rw [List.foldlM_cons]
    dsimp only
    rw [addResource_eq fits built supplied listed proper inside, ok_bind,
      ih fun x rest => among x (List.mem_cons_of_mem _ rest)]
    simp only [List.map_cons, List.sum_cons, add_assoc, List.append_assoc, List.singleton_append]

/-- **Evaluation.**  An evaluation of a schedule whose jobs finish at a time answers with the cost that is
defined, whichever jobs are scheduled and wherever they start.  It looks at the time steps before the last
finish and before the horizon of the instance; only if these are more than a list can hold, and there is a
resource, it stops. -/
theorem evaluate_eq_cost {jobs : Array (Job α)} {resources : List (Resource α)}
    {given : List Precedence} (accepted : (Problem.build jobs resources given).Accepts p)
    (timely : s.Timely p) : ∃ horizon : Nat,
      IsGreatest ({0, p.horizon} ∪ p.finishes s.startOf) (horizon : Int) ∧
        ((horizon + 1) * 8 ≤ mostBytes ∨ p.resources = [] →
          p.evaluate s = .ok (p.costUntil s.startOf horizon)) ∧
        (mostBytes < (horizon + 1) * 8 → p.resources ≠ [] → p.evaluate s = .error .capacityOverflow) := by
  have last := isGreatest_lastStep p s
  have inside : ∀ q ∈ p.placed s, q.finish ≤ p.lastStep (p.placed s) := fun q member =>
    last.2 (.inr (finish_placed p s ▸ ⟨q, member, rfl⟩))
  have found : s.placements p.jobs.toList 0 = .ok (p.placed s) := by
    refine Schedule.placements_eq fun x among start scheduled => ?_
    obtain ⟨hv, lasts⟩ := durationOf_of_mem_zipIdx among
    exact lasts ▸ timely x.2 hv start scheduled
  refine ⟨_, last, fun possible => ?_, fun long some => ?_⟩
  · unfold evaluate
    rw [found, ok_bind]
    dsimp only
    rcases possible with fits | none
    · rw [addResources_eq fits (built_of_build accepted) (supplied_of_build accepted) inside fun _ => id]
      simp only [zero_add, List.nil_append]
      rfl
    · rw [none]
      unfold costUntil
      rw [none]
      rfl
  · obtain ⟨r, rest, listed⟩ := List.exists_cons_of_ne_nil some
    unfold evaluate
    rw [found, ok_bind, listed, List.zipIdx_cons, List.foldlM_cons]
    dsimp only
    rw [addResource_of_long long, error_bind]

/-! ## A small instance -/

/-- Four jobs for a resource of which there is more from time four on. -/
def shift : Problem ℚ where
  jobs := #[⟨4, 0, 10, [2]⟩, ⟨4, 2, 10, [2]⟩, ⟨3, 0, 10, [1]⟩, ⟨2, 0, 10, [5]⟩]
  resources := [⟨⟨#[⟨0, 1⟩, ⟨4, 3⟩]⟩, .linear 10, .linear 1⟩]
  precedences := []
  order := [0, 1, 2, 3]
  earliestStart := #[0, 2, 0, 0]
  latestFinish := #[10, 10, 10, 10]

/-- The four jobs are accepted. -/
lemma shift_accepted : (Problem.build shift.jobs shift.resources []).Accepts shift := by
  with_unfolding_all rfl

/-- A schedule in which the third job starts before time zero and the fourth one is left out. -/
def shiftSchedule : Schedule ℚ := ⟨#[some 0, some 2, some (-1)], 0⟩

/-- The starts of the schedule. -/
lemma startOf_shiftSchedule {v : Nat} {start : Int} (scheduled : shiftSchedule.startOf v = some start) :
    (v = 0 ∧ start = 0) ∨ (v = 1 ∧ start = 2) ∨ (v = 2 ∧ start = -1) := by
  match v with
  | 0 => exact .inl ⟨rfl, (Option.some.inj scheduled).symm⟩
  | 1 => exact .inr (.inl ⟨rfl, (Option.some.inj scheduled).symm⟩)
  | 2 => exact .inr (.inr ⟨rfl, (Option.some.inj scheduled).symm⟩)
  | v + 3 => cases scheduled

/-- The excess over one unit in the first four time steps is charged, and the fourth job is not. -/
theorem evaluate_eq_cost_shift :
    (Problem.build shift.jobs shift.resources []).Accepts shift ∧ shiftSchedule.Timely shift ∧
      IsGreatest ({0, shift.horizon} ∪ shift.finishes shiftSchedule.startOf) ((10 : Nat) : Int) ∧
      shift.evaluate shiftSchedule = .ok (shift.costUntil shiftSchedule.startOf 10) ∧
      (shift.costUntil shiftSchedule.startOf 10).investment = 30 ∧
      (shift.costUntil shiftSchedule.startOf 10).overshoot = 10 ∧
      (shift.costUntil shiftSchedule.startOf 10).peakDemand = [4] := by
  have timely : shiftSchedule.Timely shift := by
    intro v _ start scheduled
    obtain ⟨rfl, rfl⟩ | ⟨rfl, rfl⟩ | ⟨rfl, rfl⟩ := startOf_shiftSchedule scheduled <;> decide +kernel
  have last : IsGreatest ({0, shift.horizon} ∪ shift.finishes shiftSchedule.startOf) ((10 : Nat) : Int) := by
    refine ⟨.inl (.inr rfl), ?_⟩
    rintro t ((rfl | rfl) | ⟨v, _, start, scheduled, rfl⟩)
    · decide
    · decide
    · obtain ⟨rfl, rfl⟩ | ⟨rfl, rfl⟩ | ⟨rfl, rfl⟩ := startOf_shiftSchedule scheduled <;> decide +kernel
  obtain ⟨horizon, greatest, evaluated, -⟩ := evaluate_eq_cost shift_accepted timely
  obtain rfl : horizon = 10 := Int.ofNat_inj.1 (greatest.unique last)
  exact ⟨shift_accepted, timely, last, evaluated (.inl (by decide)), by decide +kernel, by decide +kernel, by decide +kernel⟩

/-! ## An instance without an end -/

/-- One job for one resource, with a deadline at the greatest time. -/
def lasting : Problem ℚ where
  jobs := #[⟨1, 0, greatestTime, [1]⟩]
  resources := [.linear 1]
  precedences := []
  order := [0]
  earliestStart := #[0]
  latestFinish := #[greatestTime]

/-- The job is accepted, and it finishes at a time if it starts at zero, but no list holds all time steps up
to its deadline. -/
theorem evaluate_stops_lasting :
    (Problem.build lasting.jobs lasting.resources []).Accepts lasting ∧
      Schedule.Timely lasting ⟨#[some 0], 0⟩ ∧
      lasting.evaluate ⟨#[some 0], 0⟩ = .error .capacityOverflow ∧
      ∀ horizon : Nat, lasting.evaluate ⟨#[some 0], 0⟩ ≠
        .ok (lasting.costUntil (Schedule.startOf (⟨#[some 0], 0⟩ : Schedule ℚ)) horizon) := by
  have stops : lasting.evaluate ⟨#[some 0], 0⟩ = .error .capacityOverflow := by
    with_unfolding_all rfl
  refine ⟨by with_unfolding_all rfl, ?_, stops, fun horizon answers => ?_⟩
  · intro v inside start scheduled
    obtain rfl : v = 0 := Nat.lt_one_iff.1 inside
    obtain rfl : 0 = start := Option.some.inj scheduled
    decide +kernel
  · rw [stops] at answers
    cases answers

end Problem

end Leveling
