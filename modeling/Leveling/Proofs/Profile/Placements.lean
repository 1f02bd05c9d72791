import Leveling.Proofs.Profile.Tracked
import Leveling.Proofs.Bounds.Exact
import Leveling.Proofs.Verdicts
import Leveling.Profile.Basic

/-!
# Placements in profiles

A profile of an instance *holds* a placement if it is reached from a profile without jobs by moves
that keep each job between time zero and the horizon.  Such a profile answers with the start of each
job, and further jobs can be placed, taken out and moved.  The questions about the worst stretch of a
range of times always have an answer.

What the levels and the costs are plays no part here; for all that is said, the operations on
scalars may be any.
-/

namespace Leveling

open Checked

variable {α : Type} [Scalar α] {p : Problem α} {σ : Nat → Option Int} {v : Nat} {start : Int}
  {range : Span}

/-! ## Jobs inside -/

/-- A job that starts at `start` runs between time zero and the horizon. -/
def Problem.Inside (p : Problem α) (v : Nat) (start : Int) : Prop :=
  0 ≤ start ∧ start + p.durationOf v ≤ p.horizon

omit [Scalar α] in
/-- The horizon is the latest deadline, or zero if there is none. -/
lemma Problem.horizon_cases (p : Problem α) :
    (p.horizon = 0 ∧ p.jobs.toList = []) ∨
      (∃ job ∈ p.jobs.toList, p.horizon = job.deadline) ∧
        ∀ job ∈ p.jobs.toList, job.deadline ≤ p.horizon := by
  unfold Problem.horizon
  cases latest : (p.jobs.toList.map Job.deadline).max? with
  | none =>
    have empty := List.max?_eq_none_iff.1 latest
    exact .inl ⟨rfl, List.map_eq_nil_iff.1 empty⟩
  | some time =>
    obtain ⟨member, upper⟩ := List.max?_eq_some_iff.1 latest
    obtain ⟨job, among, same⟩ := List.mem_map.1 member
    refine .inr ⟨⟨job, among, same.symm⟩, fun job' among' => ?_⟩
    exact upper _ (List.mem_map.2 ⟨job', among', rfl⟩)

omit [Scalar α] in
/-- The horizon of an accepted instance is not negative. -/
lemma Problem.Built.horizon_nonneg (built : p.Built) : 0 ≤ p.horizon := by
  obtain ⟨zero, -⟩ | ⟨⟨job, member, latest⟩, -⟩ := p.horizon_cases
  · exact le_of_eq zero.symm
  · have proper := built.jobs job member
    have duration := proper.duration_nonneg
    have release := proper.release_nonneg
    have room := proper.room
    omega

omit [Scalar α] in
/-- The horizon is a time. -/
lemma Problem.Timely.horizon_le (timely : p.Timely) : p.horizon ≤ greatestTime := by
  obtain ⟨zero, -⟩ | ⟨⟨job, member, latest⟩, -⟩ := p.horizon_cases
  · rw [zero]
    decide
  · rw [latest]
    exact timely job member

omit [Scalar α] in
/-- The finish of a job that runs inside. -/
lemma Problem.Inside.finish (inside : p.Inside v start) (built : p.Built) (timely : p.Timely) :
    addTime start (p.durationOf v) = .ok (start + p.durationOf v) := by
  obtain ⟨lower, upper⟩ := inside
  have nonneg : 0 ≤ p.durationOf v := (built.frame timely).duration_nonneg v
  have greatest := timely.horizon_le
  exact addTime_of_mem (by unfold leastTime; omega) (by omega)

/-- The changes of a job that runs inside happen at times. -/
lemma Problem.Inside.timed (inside : p.Inside v start) (timely : p.Timely) (weights : Array α) :
    TrackedProfile.Timed p.durations weights v start := by
  obtain ⟨lower, upper⟩ := inside
  have greatest := timely.horizon_le
  intro c listed
  obtain ⟨weight, -, ⟨duration, -⟩, same⟩ := TrackedProfile.mem_changes listed
  have same_duration : p.durationOf v = valueAt p.durations v := rfl
  obtain rfl | rfl := same
  · unfold leastTime
    dsimp only
    omega
  · unfold leastTime
    dsimp only
    omega

/-! ## Tracked profiles -/

namespace TrackedProfile

variable {t : TrackedProfile α} {durations : Array Int} {weights : Array α}

/-- The level at a time that is not the greatest one. -/
lemma Holds.levelAt_eq (h : t.Holds durations weights σ) {time : Int} (least : leastTime ≤ time)
    (greatest : time < greatestTime) :
    t.levelAt time = .ok (t.tree.levelBefore (.first (time + 1)) 0) := by
  unfold TrackedProfile.levelAt
  rw [addTime_of_mem (by omega) (by omega), ok_bind]
  exact h.arena.levelBefore _

/-- The events in the tree happen at times. -/
lemma Holds.time_mem (h : t.Holds durations weights σ) {c : Change α} (inside : c ∈ t.tree.toList) :
    leastTime ≤ c.event.time ∧ c.event.time ≤ greatestTime := by
  obtain ⟨v, start, placed, listed⟩ := (h.tree.mem c).1 inside
  exact h.timed v start placed c listed

/-- The search for the end of a stretch answers. -/
lemma Holds.descent (h : t.Holds durations weights σ) (threshold : α) {hi : Int}
    (greatest : hi ≤ greatestTime) :
    ∀ start : Int, (t.descent threshold hi start).Answers fun _ => True := by
  intro start
  induction start using TrackedProfile.descent.induct t threshold hi with
  | case1 start fault stops =>
    rw [h.arena.findFirst] at stops
    cases stops
  | case2 start nothing =>
    rw [descent_of_none nothing]
    exact .ok trivial
  | case3 start e found before ih =>
    have inTree := Except.ok.inj ((h.arena.findFirst ..).symm.trans found)
    obtain ⟨c, member, rfl⟩ := EventTree.mem_of_findFirst inTree
    rw [descent_of_some found, if_pos before, h.levelAt_eq (h.time_mem member).1 (by omega), ok_bind]
    split
    · exact ih
    · exact .pure trivial
  | case4 start e found beyond =>
    rw [descent_of_some found, if_neg beyond]
    exact .ok trivial

/-- The highest level of a range of times. -/
lemma Holds.maxLevelIn_answers (h : t.Holds durations weights σ) (least : leastTime ≤ range.lo)
    (greatest : range.hi ≤ greatestTime) : (t.maxLevelIn range).Answers fun _ => True := by
  unfold TrackedProfile.maxLevelIn
  split
  · exact .pure trivial
  · rename_i nonempty
    unfold Span.isEmpty at nonempty
    rw [decide_eq_true_iff, not_le] at nonempty
    rw [addTime_of_mem (by omega) (by omega), ok_bind, h.arena.highest, ok_bind,
      h.levelAt_eq least (by omega), ok_bind]
    exact .pure trivial

/-- The worst stretch of a range of times is found. -/
lemma Holds.maxLevelRange (h : t.Holds durations weights σ) (least : leastTime ≤ range.lo)
    (greatest : range.hi ≤ greatestTime) : (t.maxLevelRange range).Answers fun _ => True := by
  unfold TrackedProfile.maxLevelRange
  refine (h.maxLevelIn_answers least greatest).bind fun peak _ => ?_
  split
  · exact .pure trivial
  · rename_i nonempty
    simp only [Span.isEmpty, Bool.or_eq_true, decide_eq_true_eq, not_or, not_le] at nonempty
    have rest : ∀ lo : Int, leastTime ≤ lo → lo < range.hi → (do
        let hi ← t.descent (peak - tolerance) range.hi (← addTime lo 1)
        return ⟨lo, hi⟩ : Checked Span).Answers fun _ => True := by
      intro lo lower upper
      rw [addTime_of_mem (by omega) (by omega), ok_bind]
      exact (h.descent _ greatest _).bind fun hi _ => .pure trivial
    dsimp only
    rw [h.levelAt_eq least (by omega), ok_bind]
    split
    · exact rest _ least (by omega)
    · rw [addTime_of_mem (by omega) (by omega), ok_bind, h.arena.findFirst, ok_bind]
      split
      · rename_i event found
        obtain ⟨c, member, rfl⟩ := EventTree.mem_of_findFirst found
        by_cases before : c.event.time < range.hi
        · rw [if_pos before]
          exact rest _ (h.time_mem member).1 before
        · rw [if_neg before]
          exact rest _ least (by omega)
      · exact rest _ least (by omega)

end TrackedProfile

/-! ## Dense profiles -/

namespace DenseProfile

/-- The profile has the jobs of the instance, the starts of the placement, and a time step for each
time up to the horizon. -/
structure Keeps (p : Problem α) (σ : Nat → Option Int) (q : DenseProfile α) : Prop where
  resources : q.resources = p.resources
  durations : q.durations = p.durations
  demands : q.demands = p.jobs.map Job.demand
  starts : Listed p.jobs.size σ q.starts
  steps : q.steps.size = p.horizon.toNat

variable {q : DenseProfile α}

/-- Demands are added to time steps that are there. -/
lemma size_addFrom (resources : List (Resource α)) (sign : α) (demand : List α) :
    ∀ (time count : Nat) (steps : Array (TimeStep α)),
      (addFrom resources sign demand time count steps).size = steps.size
  | _, 0, _ => rfl
  | time, count + 1, steps => by
    rw [addFrom, size_addFrom resources sign demand (time + 1) count, Array.size_modify]

/-- The profile in which no job is placed. -/
lemma keeps_empty (p : Problem α) : Keeps p (fun _ => none) (.empty p) where
  resources := rfl
  durations := rfl
  demands := rfl
  starts := listed_replicate _
  steps := Array.size_replicate

/-- The demand of a job that runs inside is added to the time steps that it covers. -/
lemma Keeps.apply_eq (h : q.Keeps p σ) (built : p.Built) (timely : p.Timely) (hv : v < p.jobs.size)
    (inside : p.Inside v start) (sign : α) : q.apply v start sign = .ok { q with
      steps := addFrom p.resources sign (p.jobs[v]).demand start.toNat (p.durationOf v).toNat
        q.steps } := by
  have window : 0 ≤ start ∧ start + p.durationOf v ≤ q.horizon := by
    have nonneg := built.horizon_nonneg
    obtain ⟨lower, upper⟩ := inside
    unfold DenseProfile.horizon
    rw [h.steps]
    omega
  have hd : v < q.demands.size := by
    rw [h.demands, Array.size_map]
    exact hv
  have duration : fetch q.durations v = .ok (p.durationOf v) := by
    rw [h.durations]
    exact fetch_valueAt (lt_of_lt_of_eq hv Array.size_map.symm)
  have demand : fetch q.demands v = .ok (p.jobs[v]).demand := by
    refine fetch_of_getElem? ?_
    rw [h.demands, Array.getElem?_map, Array.getElem?_eq_getElem hv]
    rfl
  unfold DenseProfile.apply
  rw [duration, ok_bind, inside.finish built timely, ok_bind, if_pos window, demand, h.resources]
  rfl

/-- A job that is not placed is placed inside. -/
lemma Keeps.insert_eq (h : q.Keeps p σ) (built : p.Built) (timely : p.Timely)
    (hv : v < p.jobs.size) (free : σ v = none) (inside : p.Inside v start) :
    (q.insert v start).Answers fun q' => q'.Keeps p (Function.update σ v (some start)) ∧
      q'.steps = addFrom p.resources 1 (p.jobs[v]).demand start.toNat (p.durationOf v).toNat
        q.steps := by
  have hs : v < q.starts.size := lt_of_lt_of_eq hv h.starts.size.symm
  have placed : Keeps p _ { q with starts := q.starts.set v (some start) hs } :=
    ⟨h.resources, h.durations, h.demands, h.starts.set hs (some start), h.steps⟩
  unfold DenseProfile.insert DenseProfile.startOf
  rw [h.starts.fetch hv, ok_bind, free, store_of_lt _ hs, ok_bind]
  refine ⟨_, placed.apply_eq built timely hv inside 1, ?_, rfl⟩
  refine ⟨placed.resources, placed.durations, placed.demands, placed.starts, ?_⟩
  rw [size_addFrom]
  exact placed.steps

/-- A placed job is taken out. -/
lemma Keeps.remove_eq (h : q.Keeps p σ) (built : p.Built) (timely : p.Timely)
    (hv : v < p.jobs.size) (placed : σ v = some start) (inside : p.Inside v start) :
    (q.remove v).Answers fun q' => q'.Keeps p (Function.update σ v none) ∧
      q'.steps = addFrom p.resources (-1) (p.jobs[v]).demand start.toNat (p.durationOf v).toNat
        q.steps := by
  have hs : v < q.starts.size := lt_of_lt_of_eq hv h.starts.size.symm
  have takenOut : Keeps p _ { q with starts := q.starts.set v none hs } :=
    ⟨h.resources, h.durations, h.demands, h.starts.set hs none, h.steps⟩
  unfold DenseProfile.remove DenseProfile.startOf
  rw [h.starts.fetch hv, ok_bind, placed]
  dsimp only
  rw [store_of_lt _ hs, ok_bind]
  refine ⟨_, takenOut.apply_eq built timely hv inside (-1), ?_, rfl⟩
  refine ⟨takenOut.resources, takenOut.durations, takenOut.demands, takenOut.starts, ?_⟩
  rw [size_addFrom]
  exact takenOut.steps

/-- A job that is not placed need not be taken out. -/
lemma Keeps.remove_of_none (h : q.Keeps p σ) (hv : v < p.jobs.size) (free : σ v = none) :
    q.remove v = .ok q := by
  unfold DenseProfile.remove DenseProfile.startOf
  rw [h.starts.fetch hv, ok_bind, free]
  rfl

end DenseProfile

/-! ## Profiles of either kind -/

namespace Profile

/-- The profile after a move. -/
def perform (P : Profile α) : Move → Checked (Profile α)
  | .insert v start => P.insert v start
  | .remove v => P.remove v
  | .reposition v start => P.reposition v start

/-- The profile holds the placement: it is reached from a profile without jobs, where each job that was
placed ran inside. -/
inductive Holds (p : Problem α) : (Nat → Option Int) → Profile α → Prop
  | empty {kind : ProfileKind} {limit : Int} {P : Profile α}
      (accepted : (Profile.empty p kind limit).Accepts P) : Holds p (fun _ => none) P
  | insert {σ : Nat → Option Int} {P P' : Profile α} {v : Nat} {start : Int} (holds : Holds p σ P)
      (job : v < p.jobs.size) (free : σ v = none) (inside : p.Inside v start)
      (answer : P.insert v start = .ok P') : Holds p (Function.update σ v (some start)) P'
  | remove {σ : Nat → Option Int} {P P' : Profile α} {v : Nat} (holds : Holds p σ P)
      (job : v < p.jobs.size) (answer : P.remove v = .ok P') :
      Holds p (Function.update σ v none) P'

/-- The profile knows the starts of the placement. -/
def Knows (p : Problem α) (σ : Nat → Option Int) : Profile α → Prop
  | .tracked t reduction horizon => horizon = p.horizon ∧
      Reduction.ofResources? p.resources = some reduction ∧
        t.Holds p.durations (p.jobs.map fun job => reduction.level job.demand) σ
  | .dense q => q.Keeps p σ

variable {P P' : Profile α} {move : Move}

/-- A profile of an accepted kind in which no job is placed. -/
lemma knows_empty {kind : ProfileKind} {limit : Int}
    (accepted : (Profile.empty p kind limit).Accepts P) : P.Knows p fun _ => none := by
  have dense : (Profile.denseOf p limit).Accepts P → P.Knows p fun _ => none := by
    intro accepted
    unfold Profile.denseOf at accepted
    split at accepted
    · exact absurd accepted Verdict.not_accepts_throw
    · obtain rfl := Verdict.accepts_pure.1 accepted
      exact DenseProfile.keeps_empty p
  have tracked : ∀ {reduction}, Reduction.ofResources? p.resources = some reduction →
      Profile.trackedOf p reduction = .ok P → P.Knows p fun _ => none := by
    intro reduction reduces answer
    have sizes : p.durations.size = (p.jobs.map fun job => reduction.level job.demand).size := by
      rw [Problem.durations, Array.size_map, Array.size_map]
    unfold Profile.trackedOf at answer
    obtain ⟨t, made, answer⟩ := Checked.bind_eq_ok.1 answer
    cases answer
    exact ⟨rfl, reduces, (TrackedProfile.empty_answers sizes).of_eq_ok made⟩
  unfold Profile.empty at accepted
  split at accepted
  · exact dense accepted
  · exact dense accepted
  · exact absurd accepted Verdict.not_accepts_throw
  · rename_i reduces
    exact tracked reduces (Verdict.accepts_lift.1 accepted)

/-- The profile answers with the start of each job. -/
lemma Knows.startOf (h : P.Knows p σ) (hv : v < p.jobs.size) : P.startOf v = .ok (σ v) := by
  cases P with
  | tracked t reduction horizon =>
    exact h.2.2.starts.fetch (lt_of_lt_of_eq hv Array.size_map.symm)
  | dense q => exact h.starts.fetch hv

/-- A job that is not placed can be placed inside. -/
lemma Knows.insert (h : P.Knows p σ) (built : p.Built) (timely : p.Timely) (hv : v < p.jobs.size)
    (free : σ v = none) (inside : p.Inside v start) :
    (P.insert v start).Answers (Knows p (Function.update σ v (some start))) := by
  cases P with
  | tracked t reduction horizon =>
    obtain ⟨same, reduces, holds⟩ := h
    have hv : v < p.durations.size := lt_of_lt_of_eq hv Array.size_map.symm
    exact (holds.insert hv free (inside.timed timely _)).bind fun t' holds' =>
      .pure ⟨same, reduces, holds'⟩
  | dense q => exact (h.insert_eq built timely hv free inside).bind fun q' keeps => .pure keeps.1

/-- A job can be taken out. -/
lemma Knows.remove (h : P.Knows p σ) (built : p.Built) (timely : p.Timely)
    (all : ∀ v start, σ v = some start → p.Inside v start) (hv : v < p.jobs.size) :
    (P.remove v).Answers (Knows p (Function.update σ v none)) := by
  cases P with
  | tracked t reduction horizon =>
    obtain ⟨same, reduces, holds⟩ := h
    have hv : v < p.durations.size := lt_of_lt_of_eq hv Array.size_map.symm
    exact (holds.remove hv).bind fun t' holds' => .pure ⟨same, reduces, holds'⟩
  | dense q =>
    cases placed : σ v with
    | none =>
      have same : Function.update σ v none = σ := by rw [← placed, Function.update_eq_self]
      rw [same]
      exact Answers.bind (P := (· = q)) ⟨q, h.remove_of_none hv placed, rfl⟩ fun q' equal =>
        .pure (equal ▸ h)
    | some start =>
      exact (h.remove_eq built timely hv placed (all v start placed)).bind fun q' keeps =>
        .pure keeps.1

/-- All placed jobs run inside. -/
lemma Holds.inside (h : Holds p σ P) : ∀ v start, σ v = some start → p.Inside v start := by
  induction h with
  | empty accepted => exact fun v start placed => nomatch placed
  | @insert σ P P' v start holds job free inside answer ih =>
    intro w start' placed
    by_cases same : w = v
    · subst same
      rw [Function.update_self] at placed
      exact Option.some.inj placed ▸ inside
    · rw [Function.update_of_ne same] at placed
      exact ih w start' placed
  | @remove σ P P' v holds job answer ih =>
    intro w start' placed
    by_cases same : w = v
    · subst same
      rw [Function.update_self] at placed
      cases placed
    · rw [Function.update_of_ne same] at placed
      exact ih w start' placed

/-- A profile knows the placement that it holds. -/
lemma Holds.knows (h : Holds p σ P) (built : p.Built) (timely : p.Timely) : P.Knows p σ := by
  induction h with
  | empty accepted => exact knows_empty accepted
  | insert holds job free inside answer ih =>
    exact (ih.insert built timely job free inside).of_eq_ok answer
  | remove holds job answer ih =>
    exact (ih.remove built timely holds.inside job).of_eq_ok answer

/-- A job that is not placed can be placed inside. -/
lemma Holds.insert_answers (h : Holds p σ P) (built : p.Built) (timely : p.Timely)
    (hv : v < p.jobs.size) (free : σ v = none) (inside : p.Inside v start) :
    (P.insert v start).Answers (Holds p (Function.update σ v (some start))) := by
  obtain ⟨P', answer, -⟩ := (h.knows built timely).insert built timely hv free inside
  exact ⟨P', answer, h.insert hv free inside answer⟩

/-- A job can be taken out. -/
lemma Holds.remove_answers (h : Holds p σ P) (built : p.Built) (timely : p.Timely)
    (hv : v < p.jobs.size) : (P.remove v).Answers (Holds p (Function.update σ v none)) := by
  obtain ⟨P', answer, -⟩ := (h.knows built timely).remove built timely h.inside hv
  exact ⟨P', answer, h.remove hv answer⟩

/-- A job that is moved is taken out and placed again, unless it is at its new start already. -/
lemma reposition_eq (P : Profile α) (v : Nat) (start : Int) : P.reposition v start = (do
    if (← P.startOf v) = some start then return P
    (← P.remove v).insert v start) := by
  cases P with
  | tracked p reduction horizon' =>
    unfold Profile.reposition TrackedProfile.reposition Profile.startOf Profile.remove
    dsimp only
    cases p.startOf v with
    | error fault => rfl
    | ok found =>
      simp only [ok_bind]
      split
      · rfl
      · cases p.remove v <;> rfl
  | dense p =>
    unfold Profile.reposition DenseProfile.reposition Profile.startOf Profile.remove
    dsimp only
    cases p.startOf v with
    | error fault => rfl
    | ok found =>
      simp only [ok_bind]
      split
      · rfl
      · cases p.remove v <;> rfl

/-- A job can be moved to any start inside. -/
lemma Holds.reposition_answers (h : Holds p σ P) (built : p.Built) (timely : p.Timely)
    (hv : v < p.jobs.size) (inside : p.Inside v start) :
    (P.reposition v start).Answers (Holds p (Function.update σ v (some start))) := by
  rw [reposition_eq, (h.knows built timely).startOf hv, ok_bind]
  split
  · rename_i there
    rw [← there, Function.update_eq_self]
    exact .pure h
  · refine (h.remove_answers built timely hv).bind fun P' removed => ?_
    have placed := removed.insert_answers built timely hv (Function.update_self ..) inside
    rwa [Function.update_idem] at placed

/-- **Step.**  An allowed move leads to a profile that holds the placement after the move. -/
lemma Holds.perform (h : Holds p σ P) (built : p.Built) (timely : p.Timely)
    (allowed : move.Allowed p.jobs.size p.Inside σ) :
    (P.perform move).Answers (Holds p (move.place σ)) := by
  cases allowed with
  | insert job free suits => exact h.insert_answers built timely job free suits
  | remove job => exact h.remove_answers built timely job
  | reposition job suits => exact h.reposition_answers built timely job suits

/-- **Run.**  Allowed moves lead to a profile that holds the placement after the moves. -/
lemma foldlM_perform_answers {kind : ProfileKind} {limit : Int} {moves : List Move}
    (built : p.Built) (timely : p.Timely) (accepted : (Profile.empty p kind limit).Accepts P)
    (allowed : Move.AllAllowed p.jobs.size p.Inside (fun _ => none) moves) :
    (moves.foldlM perform P).Answers (Holds p (Move.placement moves)) :=
  Move.foldlM_answers (fun h allowed => h.perform built timely allowed) allowed (.empty accepted)

/-- A move keeps the kind of a profile. -/
lemma kindName_perform (answer : P.perform move = .ok P') : P'.kindName = P.kindName := by
  cases P with
  | tracked t red horizon =>
    cases move <;>
    · obtain ⟨t', -, answer⟩ := Checked.bind_eq_ok.1 answer
      cases answer
      rfl
  | dense q =>
    cases move <;>
    · obtain ⟨q', -, answer⟩ := Checked.bind_eq_ok.1 answer
      cases answer
      rfl

/-- The worst stretch of a profile is found. -/
lemma Knows.maximumRange (h : P.Knows p σ) (timely : p.Timely) :
    P.maximumRange.Answers fun _ => True := by
  have least : leastTime ≤ 0 := by decide
  have greatest := timely.horizon_le
  cases P with
  | tracked t reduction horizon =>
    obtain ⟨rfl, -, holds⟩ := h
    unfold Profile.maximumRange maximumIn
    refine Answers.bind (P := fun _ => True) ?_ fun peak _ => .pure trivial
    refine (holds.maxLevelIn_answers least greatest).bind fun level _ => ?_
    exact (holds.maxLevelRange least greatest).bind fun range _ => .pure trivial
  | dense q => exact .pure trivial

end Profile

end Leveling
