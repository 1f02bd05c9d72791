import Leveling.Proofs.Profile.Loads
import Mathlib.Order.Bounds.Image

/-!
# Profiles price placements

A profile that holds a placement answers with the cost of each time step and with the highest cost
of any range of times, as if they were computed from the starts of the jobs alone.  So a tracked
profile, where there is one, and a dense profile give the same costs.

Both kinds need an argument of their own.  A dense profile scans costs that are right because each of
its time steps is priced anew when its load changes.  A tracked profile finds the highest level, and the
highest cost is the cost of that level because a higher level never costs less.
-/

namespace Leveling

open Checked

variable {α : Type} [ExactScalar α] {p : Problem α} {σ : Nat → Option Int} {time : Int} {range : Span}
  {f : Int → α} {x y : α}

/-! ## Peaks -/

/-- The highest value at the times of a range, or zero if the range is empty. -/
def IsPeak (f : Int → α) (range : Span) (x : α) : Prop :=
  if range.lo < range.hi then IsGreatest (f '' Set.Ico range.lo range.hi) x else x = 0

/-- A function has one highest value in a range. -/
lemma IsPeak.unique (hx : IsPeak f range x) (hy : IsPeak f range y) : x = y := by
  unfold IsPeak at hx hy
  split at hx
  · rename_i nonempty
    rw [if_pos nonempty] at hy
    exact hx.unique hy
  · rename_i empty
    rw [if_neg empty] at hy
    exact hx.trans hy.symm

/-- The value at a time of the range that is exceeded at none is the highest one. -/
lemma isPeak_of_le {worst : Int} (lower : range.lo ≤ worst) (upper : worst < range.hi)
    (le : ∀ time, range.lo ≤ time → time < range.hi → f time ≤ f worst) : IsPeak f range (f worst) := by
  unfold IsPeak
  rw [if_pos (lt_of_le_of_lt lower upper)]
  exact ⟨⟨worst, ⟨lower, upper⟩, rfl⟩, Set.forall_mem_image.2 fun time member => le time member.1 member.2⟩

/-- No value at a time of the range exceeds the highest one. -/
lemma IsPeak.le (isPeak : IsPeak f range x) (lower : range.lo ≤ time) (upper : time < range.hi) :
    f time ≤ x := by
  unfold IsPeak at isPeak
  rw [if_pos (lt_of_le_of_lt lower upper)] at isPeak
  exact isPeak.2 ⟨time, ⟨lower, upper⟩, rfl⟩

/-- Where no value is negative, zero can be added to the values. -/
lemma IsPeak.of_union (nonneg : ∀ time, 0 ≤ f time)
    (greatest : IsGreatest (f '' Set.Ico range.lo range.hi ∪ {0}) x) : IsPeak f range x := by
  unfold IsPeak
  split
  · rename_i nonempty
    refine ⟨?_, fun y among => greatest.2 (.inl among)⟩
    rcases greatest.1 with among | rfl
    · exact among
    · have first : f range.lo ≤ 0 := greatest.2 (.inl ⟨range.lo, ⟨le_rfl, nonempty⟩, rfl⟩)
      exact ⟨range.lo, ⟨le_rfl, nonempty⟩, le_antisymm first (nonneg range.lo)⟩
  · rename_i empty
    rw [Set.Ico_eq_empty empty, Set.image_empty, Set.empty_union] at greatest
    exact greatest.1

/-- No time step costs less than nothing. -/
lemma Problem.Supplied.costAt_nonneg (supplied : p.Supplied) (σ : Nat → Option Int) (time : Int) :
    0 ≤ p.costAt σ time := supplied.stepCost_nonneg _ time

/-! ## Dense profiles -/

namespace DenseProfile

variable {q : DenseProfile α}

/-- The scan of time steps finds the highest of their costs and of the best before. -/
lemma isGreatest_peakFrom (q : DenseProfile α) : ∀ (count time : Nat) (best : α),
    IsGreatest (q.costAt '' Set.Ico (time : Int) (time + count : Nat) ∪ {best})
      (q.peakFrom time count best)
  | 0, time, best => by
    rw [Nat.add_zero, Set.Ico_self, Set.image_empty, Set.empty_union]
    exact isGreatest_singleton
  | count + 1, time, best => by
    obtain ⟨member, upper⟩ := isGreatest_peakFrom q count (time + 1) (max best (q.costAt time))
    have rest : max best (q.costAt time) ≤ q.peakFrom time (count + 1) best := upper (.inr rfl)
    refine ⟨?_, ?_⟩
    · rcases member with ⟨later, ⟨lower, before⟩, same⟩ | same
      · exact .inl ⟨later, ⟨by omega, by omega⟩, same⟩
      · rcases max_choice best (q.costAt time) with first | second
        · exact .inr (Eq.trans same first)
        · exact .inl ⟨time, ⟨le_rfl, by omega⟩, (Eq.trans same second).symm⟩
    · rintro _ (⟨later, ⟨lower, before⟩, rfl⟩ | rfl)
      · by_cases first : later = time
        · rw [first]
          exact (le_max_right _ _).trans rest
        · exact upper (.inl ⟨later, ⟨by omega, by omega⟩, rfl⟩)
      · exact (le_max_left _ _).trans rest

/-- The cost of a priced time step. -/
lemma Prices.costAt_eq (h : q.Prices p σ) (reached : 0 ≤ time) (before : time < q.horizon) :
    q.costAt time = p.costAt σ time := by
  obtain ⟨i, rfl⟩ := Int.eq_ofNat_of_zero_le reached
  have inside : i < q.steps.size := Int.ofNat_lt.1 before
  unfold DenseProfile.costAt step?
  rw [if_neg (by omega), Int.toNat_natCast, h i inside]

omit [ExactScalar α] in
/-- A range inside the horizon is scanned from its start to its end. -/
lemma clamp_cases [Scalar α] {q : DenseProfile α} (lower : 0 ≤ range.lo)
    (upper : range.hi ≤ q.horizon) : ∃ time count : Nat, q.clamp range = (time, count) ∧
      (range.lo < range.hi ∧ (time : Int) = range.lo ∧ (time + count : Nat) = range.hi ∨
        range.hi ≤ range.lo ∧ count = 0) := by
  refine ⟨_, _, rfl, ?_⟩
  omega

/-- The highest cost of a range is found. -/
lemma Prices.isPeak (h : q.Prices p σ) (supplied : p.Supplied) (lower : 0 ≤ range.lo)
    (upper : range.hi ≤ q.horizon) : IsPeak (p.costAt σ) range (q.maximumIn range) := by
  obtain ⟨time, count, clamp, ⟨-, lo, hi⟩ | ⟨empty, rfl⟩⟩ := clamp_cases lower upper
  · refine .of_union (supplied.costAt_nonneg σ) ?_
    have same : p.costAt σ '' Set.Ico range.lo range.hi = q.costAt '' Set.Ico range.lo range.hi :=
      Set.image_congr fun time within =>
        (h.costAt_eq (lower.trans within.1) (within.2.trans_le upper)).symm
    unfold maximumIn
    rw [clamp, same, ← lo, ← hi]
    exact q.isGreatest_peakFrom count time 0
  · unfold IsPeak maximumIn
    rw [if_neg (not_lt.2 empty), clamp]
    rfl

omit [ExactScalar α] in
/-- The highest cost is that of the range up to the horizon. -/
lemma maximum_eq [Scalar α] (q : DenseProfile α) : q.maximum = q.maximumIn ⟨0, q.horizon⟩ := by
  have clamp : q.clamp ⟨0, q.horizon⟩ = (0, q.steps.size) := by
    unfold clamp horizon
    refine Prod.ext ?_ ?_
    · dsimp only
      omega
    · dsimp only
      omega
  unfold maximum maximumIn
  rw [clamp]

end DenseProfile

/-! ## Profiles of either kind -/

namespace Profile

variable {P Q : Profile α}

/-- The profile answers with the costs of the placement: the cost of each time step up to the horizon,
the highest of all, and the highest of each range. -/
structure Prices (p : Problem α) (σ : Nat → Option Int) (P : Profile α) : Prop where
  costAt : ∀ time, 0 ≤ time → time < p.horizon → P.costAt time = .ok (p.costAt σ time)
  maximum : IsPeak (p.costAt σ) ⟨0, p.horizon⟩ P.maximum
  maximumIn : ∀ range, 0 ≤ range.lo → range.hi ≤ p.horizon →
    (P.maximumIn range).Answers fun peak => IsPeak (p.costAt σ) range peak.cost

/-- Both profiles answer with the same costs. -/
structure SameCosts (p : Problem α) (P Q : Profile α) : Prop where
  costAt : ∀ time, 0 ≤ time → time < p.horizon → P.costAt time = Q.costAt time
  maximum : P.maximum = Q.maximum
  maximumIn : ∀ range, 0 ≤ range.lo → range.hi ≤ p.horizon →
    (P.maximumIn range).Answers fun peak => (Q.maximumIn range).Answers fun peak' =>
      peak.cost = peak'.cost

/-- Profiles with the costs of one placement have the same costs. -/
lemma Prices.sameCosts (hP : P.Prices p σ) (hQ : Q.Prices p σ) : SameCosts p P Q where
  costAt time reached before := by rw [hP.costAt time reached before, hQ.costAt time reached before]
  maximum := hP.maximum.unique hQ.maximum
  maximumIn range lower upper := (hP.maximumIn range lower upper).imp fun _ isPeak =>
    (hQ.maximumIn range lower upper).imp fun _ isPeak' => isPeak.unique isPeak'

/-- A dense profile answers with the costs of the placement that it holds. -/
lemma prices_dense {q : DenseProfile α} (priced : q.Prices p σ) (supplied : p.Supplied)
    (horizon : q.horizon = p.horizon) : (Profile.dense q).Prices p σ where
  costAt time reached before := by
    rw [← priced.costAt_eq reached (horizon ▸ before)]
    rfl
  maximum := by
    rw [← horizon]
    unfold Profile.maximum
    dsimp only
    rw [q.maximum_eq]
    exact priced.isPeak supplied le_rfl le_rfl
  maximumIn range lower upper := .pure (priced.isPeak supplied lower (horizon ▸ upper))

/-- A tracked profile answers with the costs of the placement that it holds. -/
lemma prices_tracked {t : TrackedProfile α} {reduction : Reduction α} (supplied : p.Supplied)
    (timely : p.Timely) (reduces : Reduction.ofResources? p.resources = some reduction)
    (holds : t.Holds p.durations (p.jobs.map fun job => reduction.level job.demand) σ)
    (inside : ∀ v start, σ v = some start → p.Inside v start) :
    (Profile.tracked t reduction p.horizon).Prices p σ := by
  have least : leastTime ≤ 0 := by decide
  have greatest := timely.horizon_le
  have mono := Reduction.cost_mono supplied reduces
  have cost_image : ∀ range : Span, 0 ≤ range.lo → reduction.cost '' (TrackedProfile.levelOf p.durations
      (p.jobs.map fun job => reduction.level job.demand) σ '' Set.Ico range.lo range.hi) =
        p.costAt σ '' Set.Ico range.lo range.hi := by
    intro range lower
    rw [Set.image_image]
    exact Set.image_congr fun time within =>
      Reduction.cost_levelOf supplied reduces σ (lower.trans within.1)
  refine ⟨fun time reached before => ?_, ?_, fun range lower upper => ?_⟩
  · unfold Profile.costAt
    dsimp only
    rw [holds.levelAt (least.trans reached) (by omega), ok_bind,
      Reduction.cost_levelOf supplied reduces σ reached]
    rfl
  · have highest := mono.map_isGreatest (holds.maxLevel_between (holds.tree.event_mem inside))
    rw [Set.image_union, cost_image ⟨0, p.horizon⟩ le_rfl, Set.image_singleton,
      Reduction.cost_zero supplied reduces] at highest
    exact .of_union (supplied.costAt_nonneg σ) highest
  · have worst := holds.maxLevelRange (least.trans lower) (upper.trans greatest)
    unfold Profile.maximumIn
    dsimp only
    by_cases nonempty : range.lo < range.hi
    · have highest := holds.maxLevelIn (least.trans lower) (upper.trans greatest) nonempty
      refine highest.bind fun level isGreatest => worst.bind fun range' _ => .pure ?_
      have isGreatest := mono.map_isGreatest isGreatest
      rw [cost_image range lower] at isGreatest
      unfold IsPeak
      rw [if_pos nonempty]
      exact isGreatest
    · have zero : t.maxLevelIn range = .ok 0 := by
        have empty : range.isEmpty = true := decide_eq_true (not_lt.1 nonempty)
        unfold TrackedProfile.maxLevelIn
        rw [empty]
        rfl
      rw [zero, ok_bind]
      refine worst.bind fun range' _ => .pure ?_
      unfold IsPeak
      rw [if_neg nonempty]
      exact Reduction.cost_zero supplied reduces

/-- A profile answers with the costs of the placement that it holds. -/
lemma Holds.prices_costs (h : P.Holds p σ) (built : p.Built) (timely : p.Timely)
    (supplied : p.Supplied) : P.Prices p σ := by
  have known := h.knows built timely
  cases P with
  | tracked t reduction horizon =>
    obtain ⟨rfl, reduces, holds⟩ := known
    exact prices_tracked supplied timely reduces holds h.inside
  | dense q =>
    have keeps : q.Keeps p σ := known
    have nonneg := built.horizon_nonneg
    refine prices_dense (h.prices built timely supplied q rfl) supplied ?_
    unfold DenseProfile.horizon
    rw [keeps.steps, Int.toNat_of_nonneg nonneg]

/-- **Costs.**  After any allowed moves, a profile of any kind answers with the costs that follow from
the starts of the jobs alone, and so a second profile of any other kind, after the same moves, answers
with the same costs. -/
theorem prices_after_moves {jobs : Array (Job α)} {resources : List (Resource α)}
    {given : List Precedence} {kind : ProfileKind} {limit : Int} {moves : List Move}
    (accepted : (Problem.build jobs resources given).Accepts p) (timely : p.Timely)
    (begun : (Profile.empty p kind limit).Accepts P)
    (allowed : Move.AllAllowed p.jobs.size p.Inside (fun _ => none) moves) :
    (moves.foldlM perform P).Answers fun P' => P'.Prices p (Move.placement moves) ∧
      ∀ kind' limit' Q, (Profile.empty p kind' limit').Accepts Q →
        (moves.foldlM perform Q).Answers (SameCosts p P') := by
  have built := Problem.built_of_build accepted
  have supplied := Problem.supplied_of_build accepted
  have prices : ∀ {kind limit Q}, (Profile.empty p kind limit).Accepts Q →
      (moves.foldlM perform Q).Answers fun Q' => Q'.Prices p (Move.placement moves) :=
    fun begun => (foldlM_perform_answers built timely begun allowed).imp fun Q' holds =>
      holds.prices_costs built timely supplied
  refine (prices begun).imp fun P' hP => ⟨hP, fun kind' limit' Q begun' => ?_⟩
  exact (prices begun').imp fun Q' hQ => hP.sameCosts hQ

/-- The two jobs of the pair are placed, one is moved and the other one is taken out. -/
theorem prices_after_moves_pair : ∃ P : Profile ℚ, (Profile.empty ExactScalar.pair .tree 0).Accepts P ∧
    ([.insert 0 0, .insert 1 1, .reposition 1 2, .remove 0].foldlM perform P).Answers fun P' =>
      P'.Prices ExactScalar.pair
        (Move.placement [.insert 0 0, .insert 1 1, .reposition 1 2, .remove 0]) ∧
      ∀ kind' limit' Q, (Profile.empty ExactScalar.pair kind' limit').Accepts Q →
        ([.insert 0 0, .insert 1 1, .reposition 1 2, .remove 0].foldlM perform Q).Answers
          (SameCosts ExactScalar.pair P') := by
  obtain ⟨P, begun⟩ := Verdict.exists_accepts (x := Profile.empty ExactScalar.pair .tree 0)
    (by decide +kernel)
  have timely : ExactScalar.pair.Timely := by
    unfold Problem.Timely
    decide +kernel
  have suits : ∀ start : Nat, start < 3 → ∀ v < 2, ExactScalar.pair.Inside v start := by
    unfold Problem.Inside
    decide +kernel
  refine ⟨P, begun, prices_after_moves ExactScalar.pair_accepted timely begun ⟨?_, ?_, ?_, ?_, trivial⟩⟩
  · exact .insert (by decide) rfl (suits 0 (by decide) 0 (by decide))
  · exact .insert (by decide) rfl (suits 1 (by decide) 1 (by decide))
  · exact .reposition (by decide) (suits 2 (by decide) 1 (by decide))
  · exact .remove (by decide)

end Profile

end Leveling
