import Leveling.Proofs.Profile.Stretches
import Mathlib.Data.Int.Interval
import Mathlib.Data.List.Sort

/-!
# Where both kinds of profiles agree

A dense profile lists two events for each placed job that has a duration.  A tracked profile leaves out the
jobs that do not change the level, and lists the others in the same order.

A dense profile names the worst stretch of a range by the costs and a tracked profile the one by the levels.
These are the same if the levels tell where the costs are at their peak.  They always do if the cost is the
level itself, as for one linear resource of which nothing is free and each unit costs one; at any other price
they do where the levels are so far apart that no tolerance blurs them.  With capacity to spare they need
not: while no demand exceeds the availability, no time step costs anything, and the whole range is the worst
stretch by the costs, but not by the levels.
-/

namespace Leveling

open Checked

variable {α : Type} {p : Problem α} {σ : Nat → Option Int} {time : Int} {range : Span} {v : Nat}
  {e : Event}

/-! ## Events of a placement -/

namespace Problem

/-- The events of a job where it is placed: none without a duration. -/
def eventsOf (p : Problem α) (σ : Nat → Option Int) (v : Nat) : List Event :=
  match σ v with
  | none => []
  | some start =>
    if 0 < p.durationOf v then
      [⟨start, .start, v⟩, ⟨start + p.durationOf v, .finish, v⟩]
    else []

/-- The event is one of a placed job that has a duration. -/
def HasEvent (p : Problem α) (σ : Nat → Option Int) (e : Event) : Prop :=
  e.job < p.jobs.size ∧ e ∈ p.eventsOf σ e.job

/-- The events of a job are about that job. -/
lemma job_of_mem_eventsOf (member : e ∈ p.eventsOf σ v) : e.job = v := by
  unfold eventsOf at member
  split at member
  · cases member
  · split at member
    · rcases List.mem_cons.1 member with rfl | member
      · rfl
      · rw [List.mem_singleton.1 member]
    · cases member

/-- The events of a job are different. -/
lemma nodup_eventsOf (p : Problem α) (σ : Nat → Option Int) (v : Nat) : (p.eventsOf σ v).Nodup := by
  unfold eventsOf
  split
  · exact List.nodup_nil
  · split
    · simp
    · exact List.nodup_nil

/-- The events of all jobs, one job after the other. -/
def allEvents (p : Problem α) (σ : Nat → Option Int) : List Event :=
  (List.range p.jobs.size).flatMap (p.eventsOf σ)

lemma mem_allEvents : e ∈ p.allEvents σ ↔ p.HasEvent σ e := by
  unfold allEvents HasEvent
  rw [List.mem_flatMap]
  constructor
  · rintro ⟨v, among, member⟩
    obtain rfl := job_of_mem_eventsOf member
    exact ⟨List.mem_range.1 among, member⟩
  · exact fun ⟨inside, member⟩ => ⟨e.job, List.mem_range.2 inside, member⟩

/-- The events of all jobs are different. -/
lemma nodup_allEvents (p : Problem α) (σ : Nat → Option Int) : (p.allEvents σ).Nodup := by
  refine List.nodup_flatMap.2 ⟨fun v _ => p.nodup_eventsOf σ v, List.nodup_range.imp fun ne => ?_⟩
  intro e first second
  exact ne ((job_of_mem_eventsOf first).symm.trans (job_of_mem_eventsOf second))

end Problem

/-- A sort of different events is in the order of events. -/
lemma pairwise_mergeSort_events {events : List Event} (distinct : events.Nodup) :
    (events.mergeSort Event.comesBefore).Pairwise (· < ·) := by
  have sorted : (events.mergeSort Event.comesBefore).Pairwise fun a b => Event.comesBefore a b :=
    List.pairwise_mergeSort
      (fun a b c first second =>
        decide_eq_true ((of_decide_eq_true first).trans (of_decide_eq_true second)))
      (fun a b => by simpa [Event.comesBefore] using le_total a b) events
  have distinct : (events.mergeSort Event.comesBefore).Nodup :=
    (List.mergeSort_perm events _).nodup_iff.2 distinct
  exact List.Pairwise.imp₂ (fun a b le ne => lt_of_le_of_ne (of_decide_eq_true le) ne) sorted distinct

namespace DenseProfile

variable {q : DenseProfile α}

/-- A dense profile lists the events of all jobs in order. -/
lemma Keeps.events_eq (h : q.Keeps p σ) (built : p.Built) (timely : p.Timely)
    (inside : ∀ v start, σ v = some start → p.Inside v start) :
    q.events = .ok ((p.allEvents σ).mergeSort Event.comesBefore) := by
  have each : ∀ v ∈ List.range q.starts.size, q.eventsOf v = .ok (p.eventsOf σ v) := by
    intro v among
    have hv : v < p.jobs.size := lt_of_lt_of_eq (List.mem_range.1 among) h.starts.size
    unfold DenseProfile.eventsOf Problem.eventsOf
    rw [h.starts.fetch hv, ok_bind]
    cases placed : σ v with
    | none => rfl
    | some start =>
      have duration : fetch q.durations v = .ok (p.durationOf v) := by
        rw [h.durations]
        exact fetch_valueAt (lt_of_lt_of_eq hv Array.size_map.symm)
      dsimp only
      rw [duration, ok_bind, (inside v start placed).finish built timely]
      split
      · rfl
      · rfl
  unfold DenseProfile.events
  rw [mapM_eq_ok each, ok_bind, h.starts.size]
  rfl

end DenseProfile

/-! ## Levels of a placement -/

variable [ExactScalar α] {red : Reduction α}

namespace Problem

/-- What a job adds to the level while it runs. -/
def weightOf (p : Problem α) (red : Reduction α) (v : Nat) : α :=
  match p.jobs[v]? with
  | none => 0
  | some job => red.level job.demand

/-- The level of a time step. -/
def levelAt (p : Problem α) (red : Reduction α) (σ : Nat → Option Int) (time : Int) : α :=
  red.level (p.loadAt σ time)

/-- The levels tell where the costs of a range are at their peak: at the same times the level and the cost
are at their peaks for that range, up to the tolerance. -/
def LevelsTell (p : Problem α) (red : Reduction α) (σ : Nat → Option Int) (range : Span) : Prop :=
  ∀ time, range.lo ≤ time → time < range.hi →
    (NearPeak (p.levelAt red σ) range time ↔ NearPeak (p.costAt σ) range time)

/-- The cost of a time step is its level: each cost is a weighted sum of the demands, or nothing is free of
the only resource and each unit of it costs one. -/
def PricedByLevel (p : Problem α) (red : Reduction α) : Prop :=
  (∃ weights, red = .linear weights) ∨ ∃ r, p.resources = [r] ∧ Reduction.unitCost? r = some 1

/-- Two levels of the range that differ do so by more than the tolerance, and so do their costs. -/
def FarApart (p : Problem α) (red : Reduction α) (σ : Nat → Option Int) (range : Span) : Prop :=
  ∀ time, range.lo ≤ time → time < range.hi → ∀ time', range.lo ≤ time' → time' < range.hi →
    p.levelAt red σ time < p.levelAt red σ time' →
      p.levelAt red σ time + tolerance < p.levelAt red σ time' ∧
        p.costAt σ time + tolerance < p.costAt σ time'

/-- The cost of a time step is the cost of its level. -/
lemma Supplied.costAt_eq (supplied : p.Supplied)
    (reduces : Reduction.ofResources? p.resources = some red) (σ : Nat → Option Int)
    (reached : 0 ≤ time) : p.costAt σ time = red.cost (p.levelAt red σ time) :=
  (Reduction.cost_level supplied reduces (p.length_loadAt σ time) (supplied.loadAt_nonneg σ time)
    reached).symm

/-- Where the cost is the level, the level of a time step costs itself. -/
lemma Supplied.levelAt_eq_costAt (supplied : p.Supplied)
    (reduces : Reduction.ofResources? p.resources = some red) (priced : p.PricedByLevel red)
    (σ : Nat → Option Int) (reached : 0 ≤ time) : p.levelAt red σ time = p.costAt σ time := by
  have level : 0 ≤ p.levelAt red σ time := Reduction.level_nonneg supplied reduces
    (p.length_loadAt σ time) (supplied.loadAt_nonneg σ time)
  rw [supplied.costAt_eq reduces σ reached]
  rcases priced with ⟨weights, rfl⟩ | ⟨r, only, one⟩
  · exact (max_eq_left level).symm
  · obtain ⟨r', available, single, constant, rfl⟩ | ⟨weights, -, rfl⟩ :=
      Reduction.ofResources?_cases reduces
    · obtain rfl : r' = r := (List.cons.inj (single.symm.trans only)).1
      have proper := supplied.resources r' (only ▸ List.mem_singleton_self r')
      obtain ⟨-, cost⟩ := Reduction.stepCost_of_unitCost proper one
      have amount := proper.availability.amountAt_of_constant reached constant
      exact ((congrArg (r'.stepCost _) amount.symm).trans ((cost reached level).trans (one_mul _))).symm
    · exact (max_eq_left level).symm

/-- The levels always tell if the cost is the level itself. -/
lemma Supplied.levelsTell_of_pricedByLevel (supplied : p.Supplied)
    (reduces : Reduction.ofResources? p.resources = some red) (priced : p.PricedByLevel red)
    (σ : Nat → Option Int) (lower : 0 ≤ range.lo) : p.LevelsTell red σ range := by
  have same : ∀ time, 0 ≤ time → p.levelAt red σ time = p.costAt σ time := fun time reached =>
    supplied.levelAt_eq_costAt reduces priced σ reached
  have peaks : ∀ peak, IsPeak (p.levelAt red σ) range peak ↔ IsPeak (p.costAt σ) range peak := by
    intro peak
    unfold IsPeak
    rw [Set.image_congr fun time within => same time (lower.trans within.1)]
  intro time after before
  unfold NearPeak
  simp only [peaks, same time (lower.trans after)]

/-- In a range there is a time of the highest level, which costs most. -/
lemma Supplied.exists_peak (supplied : p.Supplied) (reduces : Reduction.ofResources? p.resources = some red)
    (σ : Nat → Option Int) (lower : 0 ≤ range.lo) (nonempty : range.lo < range.hi) :
    ∃ worst, range.lo ≤ worst ∧ worst < range.hi ∧
      IsPeak (p.levelAt red σ) range (p.levelAt red σ worst) ∧
        IsPeak (p.costAt σ) range (p.costAt σ worst) := by
  obtain ⟨worst, inside, highest⟩ := (Finset.Ico range.lo range.hi).exists_max_image
    (p.levelAt red σ) ⟨range.lo, Finset.mem_Ico.2 ⟨le_rfl, nonempty⟩⟩
  obtain ⟨after, before⟩ := Finset.mem_Ico.1 inside
  refine ⟨worst, after, before, ?_, ?_⟩
  · exact isPeak_of_le after before fun time after' before' =>
      highest time (Finset.mem_Ico.2 ⟨after', before'⟩)
  · refine isPeak_of_le after before fun time after' before' => ?_
    rw [supplied.costAt_eq reduces σ (lower.trans after'), supplied.costAt_eq reduces σ (lower.trans after)]
    exact Reduction.cost_mono supplied reduces (highest time (Finset.mem_Ico.2 ⟨after', before'⟩))

/-- Levels that are far apart tell: near the peak are just the times of the highest level. -/
lemma Supplied.levelsTell_of_farApart (supplied : p.Supplied)
    (reduces : Reduction.ofResources? p.resources = some red) (apart : p.FarApart red σ range)
    (lower : 0 ≤ range.lo) : p.LevelsTell red σ range := by
  intro time after before
  obtain ⟨worst, within, upTo, level, cost⟩ :=
    supplied.exists_peak reduces σ lower (lt_of_le_of_lt after before)
  rw [nearPeak_iff level, nearPeak_iff cost, sub_le_iff_le_add, sub_le_iff_le_add]
  rcases eq_or_lt_of_le (level.le after before) with same | less
  · have cost : p.costAt σ time = p.costAt σ worst := by
      rw [supplied.costAt_eq reduces σ (lower.trans after),
        supplied.costAt_eq reduces σ (lower.trans within), same]
    rw [same, cost]
    exact iff_of_true (le_add_of_nonneg_right tolerance_pos.le) (le_add_of_nonneg_right tolerance_pos.le)
  · obtain ⟨levels, costs⟩ := apart time after before worst within upTo less
    exact iff_of_false (not_le.2 levels) (not_le.2 costs)

end Problem

namespace TrackedProfile

variable {t : TrackedProfile α}

/-- The events at which a job changes the level are those of the job, unless its weight is zero. -/
lemma mem_map_changes {start : Int} (placed : σ v = some start) :
    e ∈ (changes p.durations (p.jobs.map fun job => red.level job.demand) v start).map Change.event ↔
      v < p.jobs.size ∧ e ∈ p.eventsOf σ v ∧ 0 < p.weightOf red v := by
  unfold changes Problem.eventsOf Problem.weightOf
  rw [placed, Array.getElem?_map]
  cases found : p.jobs[v]? with
  | none => simp
  | some job =>
    have inside : v < p.jobs.size := (Array.getElem?_eq_some_iff.1 found).1
    have same : p.durationOf v = valueAt p.durations v := rfl
    dsimp only [Option.map_some]
    rw [same]
    by_cases weight : 0 < red.level job.demand
    · by_cases duration : 0 < valueAt p.durations v
      · simp [weight, duration, inside]
      · simp [duration]
    · simp [weight]

/-- A tracked profile lists the events of all jobs in order, without the jobs whose weight is zero. -/
lemma Holds.events_eq_filter
    (h : t.Holds p.durations (p.jobs.map fun job => red.level job.demand) σ) :
    t.events = ((p.allEvents σ).mergeSort Event.comesBefore).filter
      fun e => 0 < p.weightOf red e.job := by
  rw [h.events_eq]
  have sorted : (t.tree.toList.map Change.event).Pairwise (· < ·) := List.pairwise_map.2 h.tree.sorted
  refine List.Pairwise.eq_of_mem_iff sorted
    ((pairwise_mergeSort_events (p.nodup_allEvents σ)).filter _) fun e => ?_
  rw [List.mem_filter, List.mem_mergeSort, Problem.mem_allEvents, decide_eq_true_iff]
  constructor
  · intro member
    obtain ⟨c, among, rfl⟩ := List.mem_map.1 member
    obtain ⟨v, start, placed, listed⟩ := (h.tree.mem c).1 among
    obtain rfl := job_of_mem_changes listed
    obtain ⟨inside, event, weight⟩ := (mem_map_changes placed).1 (List.mem_map_of_mem listed)
    exact ⟨⟨inside, event⟩, weight⟩
  · rintro ⟨⟨inside, event⟩, weight⟩
    cases placed : σ e.job with
    | none =>
      unfold Problem.eventsOf at event
      rw [placed] at event
      cases event
    | some start =>
      obtain ⟨c, listed, same⟩ := List.mem_map.1
        ((mem_map_changes placed).2 ⟨inside, event, weight⟩)
      exact List.mem_map.2 ⟨c, (h.tree.mem c).2 ⟨e.job, start, placed, listed⟩, same⟩

end TrackedProfile

/-! ## Profiles of both kinds -/

namespace Profile

variable {P P' T A : Profile α}

/-- A tracked profile and a dense profile agree on the events but for those of jobs whose weight is zero.
Of each range the dense profile names the worst stretch by the costs and the tracked profile the one by the
levels, and they agree on it if the levels tell where the costs are at their peak. -/
structure Agree (p : Problem α) (σ : Nat → Option Int) (red : Reduction α) (T A : Profile α) :
    Prop where
  events : ∃ events, A.events = .ok events ∧ events.Pairwise (· < ·) ∧
    (∀ e, e ∈ events ↔ p.HasEvent σ e) ∧
      T.events = .ok (events.filter fun e => 0 < p.weightOf red e.job)
  maximumIn : ∀ range, 0 ≤ range.lo → range.hi ≤ p.horizon →
    (A.maximumIn range).Answers fun worst => IsWorst (p.costAt σ) range worst.range ∧
      (T.maximumIn range).Answers fun worst' => IsWorst (p.levelAt red σ) range worst'.range ∧
        (p.LevelsTell red σ range → worst'.range = worst.range)
  maximumRange : A.maximumRange.Answers fun s => IsWorst (p.costAt σ) ⟨0, p.horizon⟩ s ∧
    T.maximumRange.Answers fun s' => IsWorst (p.levelAt red σ) ⟨0, p.horizon⟩ s' ∧
      (p.LevelsTell red σ ⟨0, p.horizon⟩ → s' = s)

/-- Allowed moves lead to a profile of the same kind that holds the placement after the moves. -/
lemma foldlM_perform_kind {kind : ProfileKind} {limit : Int} {moves : List Move} (built : p.Built)
    (timely : p.Timely) (accepted : (Profile.empty p kind limit).Accepts P)
    (allowed : Move.AllAllowed p.jobs.size p.Inside (fun _ => none) moves) :
    (moves.foldlM perform P).Answers fun P' =>
      P'.Holds p (Move.placement moves) ∧ P'.kindName = P.kindName := by
  refine Move.foldlM_answers (R := fun σ (Q : Profile α) => Q.Holds p σ ∧ Q.kindName = P.kindName)
    (fun h allowed => ?_) allowed ⟨.empty accepted, rfl⟩
  obtain ⟨Q', answer, holds⟩ := h.1.perform built timely allowed
  exact ⟨Q', answer, holds, (kindName_perform answer).trans h.2⟩

/-- A tracked profile and a dense profile that hold the same placement agree. -/
lemma Holds.agree {t : TrackedProfile α} {horizon : Int} {q : DenseProfile α}
    (hT : (Profile.tracked t red horizon).Holds p σ) (hA : (Profile.dense q).Holds p σ)
    (built : p.Built) (timely : p.Timely) (supplied : p.Supplied) :
    Agree p σ red (.tracked t red horizon) (.dense q) := by
  obtain ⟨rfl, reduces, holds⟩ := hT.knows built timely
  have keeps : q.Keeps p σ := hA.knows built timely
  have priced := hA.prices built timely supplied q rfl
  have same : q.horizon = p.horizon := by
    have nonneg := built.horizon_nonneg
    unfold DenseProfile.horizon
    rw [keeps.steps, Int.toNat_of_nonneg nonneg]
  have least : leastTime ≤ 0 := by decide
  have greatest := timely.horizon_le
  have level : TrackedProfile.levelOf p.durations (p.jobs.map fun job => red.level job.demand) σ =
      p.levelAt red σ := funext (Reduction.levelOf_eq supplied reduces σ)
  have worst : ∀ range : Span, 0 ≤ range.lo → range.hi ≤ p.horizon →
      ((Profile.dense q).maximumIn range).Answers fun worst =>
        IsWorst (p.costAt σ) range worst.range ∧
          ((Profile.tracked t red p.horizon).maximumIn range).Answers fun worst' =>
            IsWorst (p.levelAt red σ) range worst'.range ∧
              (p.LevelsTell red σ range → worst'.range = worst.range) := by
    intro range lower upper
    have isWorst := priced.isWorst supplied lower (same ▸ upper)
    refine .pure ⟨isWorst, ?_⟩
    unfold Profile.maximumIn
    refine (holds.maxLevelIn_answers (least.trans lower) (upper.trans greatest)).bind
      fun peak _ => ?_
    refine (holds.isWorst (least.trans lower) (upper.trans greatest)).bind fun s isWorst' => .pure ?_
    rw [level] at isWorst'
    exact ⟨isWorst', isWorst'.unique isWorst⟩
  refine ⟨⟨_, keeps.events_eq built timely hA.inside, ?_, fun e => ?_, ?_⟩, worst, ?_⟩
  · exact pairwise_mergeSort_events (p.nodup_allEvents σ)
  · rw [List.mem_mergeSort, Problem.mem_allEvents]
  · rw [← holds.events_eq_filter]
    rfl
  · unfold Profile.maximumRange Profile.horizon
    dsimp only
    rw [same]
    refine (worst ⟨0, p.horizon⟩ le_rfl le_rfl).bind fun peak spec => .pure ⟨spec.1, ?_⟩
    exact spec.2.bind fun peak' spec' => .pure spec'

/-- A tracked profile is built where one is asked for. -/
lemma kindName_tree {limit : Int} (accepted : (Profile.empty p .tree limit).Accepts P) :
    P.kindName = "tree" := by
  unfold Profile.empty at accepted
  cases reduces : Reduction.ofResources? p.resources with
  | none =>
    rw [reduces] at accepted
    exact absurd accepted Verdict.not_accepts_throw
  | some red =>
    rw [reduces] at accepted
    obtain ⟨t, -, answer⟩ := Checked.bind_eq_ok.1 (Verdict.accepts_lift.1 accepted)
    cases answer
    rfl

/-- A dense profile is built where one is asked for. -/
lemma kindName_array {limit : Int} (accepted : (Profile.empty p .array limit).Accepts P) :
    P.kindName = "array" := by
  unfold Profile.empty denseOf at accepted
  dsimp only at accepted
  split at accepted
  · exact absurd accepted Verdict.not_accepts_throw
  · cases Verdict.accepts_pure.1 accepted
    rfl

/-- **Agreement.**  After the same allowed moves, a dense profile names the worst stretches by the costs and a
tracked profile those by the levels, and their events agree but for those of jobs without weight.  The
stretches are the same where the levels tell where the costs are at their peak: in every range if the cost
is the level, and otherwise in each range whose levels are far apart. -/
theorem agree_after_moves {jobs : Array (Job α)} {resources : List (Resource α)}
    {given : List Precedence} {limit limit' : Int} {moves : List Move}
    (accepted : (Problem.build jobs resources given).Accepts p) (timely : p.Timely)
    (tree : (Profile.empty p .tree limit).Accepts T)
    (array : (Profile.empty p .array limit').Accepts A)
    (allowed : Move.AllAllowed p.jobs.size p.Inside (fun _ => none) moves) :
    ∃ red, Reduction.ofResources? p.resources = some red ∧
      (∀ range : Span, 0 ≤ range.lo →
        p.PricedByLevel red ∨ p.FarApart red (Move.placement moves) range →
          p.LevelsTell red (Move.placement moves) range) ∧
      (moves.foldlM perform T).Answers fun T' => (moves.foldlM perform A).Answers fun A' =>
        Agree p (Move.placement moves) red T' A' := by
  have built := Problem.built_of_build accepted
  have supplied := Problem.supplied_of_build accepted
  obtain ⟨T', answerT, holdsT, kindT'⟩ := foldlM_perform_kind built timely tree allowed
  obtain ⟨A', answerA, holdsA, kindA'⟩ := foldlM_perform_kind built timely array allowed
  cases T' with
  | dense q => exact absurd (kindT'.trans (kindName_tree tree)) (show ¬"array" = "tree" by decide)
  | tracked t red horizon =>
    cases A' with
    | tracked t' red' horizon' =>
      exact absurd (kindA'.trans (kindName_array array)) (show ¬"tree" = "array" by decide)
    | dense q =>
      obtain ⟨-, reduces, -⟩ := holdsT.knows built timely
      refine ⟨red, reduces, fun range lower either => ?_, _, answerT, _, answerA,
        holdsT.agree holdsA built timely supplied⟩
      rcases either with priced | apart
      · exact supplied.levelsTell_of_pricedByLevel reduces priced _ lower
      · exact supplied.levelsTell_of_farApart reduces apart lower

/-- Three large jobs and a small one for a resource of which each unit costs one. -/
def staggered : Problem ℚ where
  jobs := #[⟨4, 0, 20, [2]⟩, ⟨4, 0, 20, [2]⟩, ⟨4, 0, 20, [2]⟩, ⟨3, 0, 20, [1]⟩]
  resources := [.linear 1]
  precedences := []
  order := [0, 1, 2, 3]
  earliestStart := #[0, 0, 0, 0]
  latestFinish := #[20, 20, 20, 20]

/-- Two large jobs and the small one run together in one time step, which both kinds of profiles name. -/
theorem agree_after_moves_staggered : ∃ T A : Profile ℚ,
    (Problem.build staggered.jobs staggered.resources []).Accepts staggered ∧ staggered.Timely ∧
      (Profile.empty staggered .tree 20).Accepts T ∧ (Profile.empty staggered .array 20).Accepts A ∧
        ∃ red, Reduction.ofResources? staggered.resources = some red ∧
          ([.insert 0 0, .insert 1 2, .insert 2 8, .insert 3 3].foldlM perform T).Answers fun T' =>
            ([.insert 0 0, .insert 1 2, .insert 2 8, .insert 3 3].foldlM perform A).Answers fun A' =>
              Agree staggered
                (Move.placement [.insert 0 0, .insert 1 2, .insert 2 8, .insert 3 3]) red T' A' ∧
              T'.maximumRange = .ok ⟨3, 4⟩ ∧ A'.maximumRange = .ok ⟨3, 4⟩ := by
  have accepted : (Problem.build staggered.jobs staggered.resources []).Accepts staggered := by
    with_unfolding_all rfl
  have timely : staggered.Timely := by
    unfold Problem.Timely
    decide +kernel
  obtain ⟨T, tree, named⟩ := Verdict.exists_accepts_passes (x := Profile.empty staggered .tree 20)
    (show Verdict.passes _ (fun T => decide
      (([.insert 0 0, .insert 1 2, .insert 2 8, .insert 3 3].foldlM perform T).Answers
        fun T' => T'.maximumRange = .ok ⟨3, 4⟩)) = true by decide +kernel)
  obtain ⟨A, array⟩ := Verdict.exists_accepts (x := Profile.empty staggered .array 20)
    (by decide +kernel)
  have suits : ∀ start : Nat, start < 9 → ∀ v < 4, staggered.Inside v start := by
    unfold Problem.Inside
    decide +kernel
  have allowed : Move.AllAllowed staggered.jobs.size staggered.Inside (fun _ => none)
      [.insert 0 0, .insert 1 2, .insert 2 8, .insert 3 3] :=
    ⟨.insert (by decide) rfl (suits 0 (by decide) 0 (by decide)),
      .insert (by decide) rfl (suits 2 (by decide) 1 (by decide)),
      .insert (by decide) rfl (suits 8 (by decide) 2 (by decide)),
      .insert (by decide) rfl (suits 3 (by decide) 3 (by decide)), trivial⟩
  obtain ⟨red, reduces, tell, T', placedT, A', placedA, agree⟩ :=
    agree_after_moves accepted timely tree array allowed
  have range := (of_decide_eq_true named).of_eq_ok placedT
  -- the levels tell, so the dense profile names what the tracked one does
  have levels := tell ⟨0, staggered.horizon⟩ le_rfl (.inl (.inr ⟨_, rfl, by decide +kernel⟩))
  obtain ⟨s, answer, -, same⟩ := agree.maximumRange
  have equal := (same.of_eq_ok range).2 levels
  exact ⟨T, A, accepted, timely, tree, array, red, reduces, T', placedT, A', placedA, agree, range,
    answer.trans (congrArg _ equal.symm)⟩

/-- The deadlines of the two jobs with capacity to spare are times. -/
lemma timely_spare : ExactScalar.spare.Timely := by
  unfold Problem.Timely
  decide +kernel

/-- The moves that place the two jobs with capacity to spare are allowed. -/
lemma allAllowed_spare : Move.AllAllowed ExactScalar.spare.jobs.size ExactScalar.spare.Inside
    (fun _ => none) [.insert 0 1, .insert 1 0] := by
  have suits : ∀ start : Nat, start < 2 → ∀ v < 2, ExactScalar.spare.Inside v start := by
    unfold Problem.Inside
    decide +kernel
  exact ⟨.insert (by decide) rfl (suits 1 (by decide) 0 (by decide)),
    .insert (by decide) rfl (suits 0 (by decide) 1 (by decide)), trivial⟩

/-- While no demand exceeds the availability, a tracked profile names the stretch of the highest level and
a dense profile the whole range; and a tracked profile leaves out the events of a job that demands
nothing, while a dense profile lists them. -/
theorem disagree_below_capacity :
    (Problem.build ExactScalar.spare.jobs ExactScalar.spare.resources []).Accepts ExactScalar.spare ∧
      Move.AllAllowed ExactScalar.spare.jobs.size ExactScalar.spare.Inside (fun _ => none)
        [.insert 0 1, .insert 1 0] ∧
      ∃ T A : Profile ℚ, (Profile.empty ExactScalar.spare .tree 4).Accepts T ∧
        (Profile.empty ExactScalar.spare .array 4).Accepts A ∧
        ([.insert 0 1, .insert 1 0].foldlM perform T).Answers (fun T' =>
          (T'.maximumIn ⟨0, 4⟩).Answers (fun worst => worst.range = ⟨1, 3⟩) ∧
            T'.maximumRange = .ok ⟨1, 3⟩ ∧
              T'.events = .ok [⟨1, .start, 0⟩, ⟨3, .finish, 0⟩]) ∧
        ([.insert 0 1, .insert 1 0].foldlM perform A).Answers fun A' =>
          ((A'.maximumIn ⟨0, 4⟩).Answers (fun worst => worst.range = ⟨0, 4⟩) ∧
            A'.maximumRange = .ok ⟨0, 4⟩) ∧
              A'.events.Answers fun events => ⟨0, .start, 1⟩ ∈ events := by
  obtain ⟨T, tree, answersT⟩ := Verdict.exists_accepts_passes
    (x := Profile.empty ExactScalar.spare .tree 4)
    (show Verdict.passes _ (fun T => decide (([.insert 0 1, .insert 1 0].foldlM perform T).Answers
      fun T' => (T'.maximumIn ⟨0, 4⟩).Answers (fun worst => worst.range = ⟨1, 3⟩) ∧
        T'.maximumRange = .ok ⟨1, 3⟩ ∧ T'.events = .ok [⟨1, .start, 0⟩, ⟨3, .finish, 0⟩])) = true by
      decide +kernel)
  obtain ⟨A, array, answersA⟩ := Verdict.exists_accepts_passes
    (x := Profile.empty ExactScalar.spare .array 4)
    (show Verdict.passes _ (fun A => decide (([.insert 0 1, .insert 1 0].foldlM perform A).Answers
      fun A' => (A'.maximumIn ⟨0, 4⟩).Answers (fun worst => worst.range = ⟨0, 4⟩) ∧
        A'.maximumRange = .ok ⟨0, 4⟩)) = true by
      decide +kernel)
  have events : ([.insert 0 1, .insert 1 0].foldlM perform A).Answers fun A' =>
      A'.events.Answers fun events => ⟨0, .start, 1⟩ ∈ events := by
    refine (foldlM_perform_kind (Problem.built_of_build ExactScalar.spare_accepted) timely_spare array
      allAllowed_spare).imp fun A' spec => ?_
    obtain ⟨holds, kind⟩ := spec
    cases A' with
    | tracked t red horizon =>
      exact absurd (kind.trans (kindName_array array)) (show ¬"tree" = "array" by decide)
    | dense q =>
      have built := Problem.built_of_build ExactScalar.spare_accepted
      have keeps : q.Keeps ExactScalar.spare _ := holds.knows built timely_spare
      refine ⟨_, keeps.events_eq built timely_spare holds.inside,
        List.mem_mergeSort.2 (Problem.mem_allEvents.2 ?_)⟩
      unfold Problem.HasEvent
      decide +kernel
  exact ⟨ExactScalar.spare_accepted, allAllowed_spare, T, A, tree, array,
    of_decide_eq_true answersT, (of_decide_eq_true answersA).and events⟩

end Profile

end Leveling
