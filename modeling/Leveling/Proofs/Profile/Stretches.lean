import Leveling.Proofs.Profile.Costs
import Mathlib.Data.Rat.Cast.Order

/-!
# Worst stretches

The worst stretch of a range of times is the leftmost maximal stretch at which a function is at its peak
for that range, up to the tolerance.  A dense profile looks for it in the costs, and a tracked profile in
the levels.

Between two events a level does not change, so the tracked profile only looks at levels after events.
Where the level is below the threshold after an event and not below it after all events of that time, the
search goes on one time step later; what carries the search is that the level of the step before its start
reaches the threshold.
-/

namespace Leveling

open Checked

variable {α : Type} [ExactScalar α] {p : Problem α} {σ : Nat → Option Int} {time : Int}
  {range s s' : Span} {f : Int → α} {peak threshold : α} {near near' : Int → Prop}

/-! ## Stretches -/

/-- The value at a time is the highest in the range, up to the tolerance. -/
def NearPeak (f : Int → α) (range : Span) (time : Int) : Prop :=
  ∃ peak, IsPeak f range peak ∧ peak - tolerance ≤ f time

/-- A value is near the peak if it reaches the threshold below it. -/
lemma nearPeak_iff (isPeak : IsPeak f range peak) :
    NearPeak f range time ↔ peak - tolerance ≤ f time := by
  constructor
  · rintro ⟨peak', isPeak', le⟩
    rwa [isPeak'.unique isPeak] at le
  · exact fun le => ⟨peak, isPeak, le⟩

/-- The leftmost maximal stretch of a range that consists of near times. -/
structure IsStretch (near : Int → Prop) (range s : Span) : Prop where
  lower : range.lo ≤ s.lo
  nonempty : s.lo < s.hi
  upper : s.hi ≤ range.hi
  before : ∀ time, range.lo ≤ time → time < s.lo → ¬near time
  inside : ∀ time, s.lo ≤ time → time < s.hi → near time
  after : s.hi < range.hi → ¬near s.hi

/-- A stretch is made of its start and its end. -/
lemma isStretch_mk {lo hi : Int} (lower : range.lo ≤ lo) (nonempty : lo < hi) (upper : hi ≤ range.hi)
    (before : ∀ time, range.lo ≤ time → time < lo → ¬near time)
    (inside : ∀ time, lo ≤ time → time < hi → near time) (after : hi < range.hi → ¬near hi) :
    IsStretch near range ⟨lo, hi⟩ := ⟨lower, nonempty, upper, before, inside, after⟩

/-- If the same times of a range are near, the stretch is the same. -/
lemma IsStretch.unique (h : IsStretch near range s) (h' : IsStretch near' range s')
    (agree : ∀ time, range.lo ≤ time → time < range.hi → (near time ↔ near' time)) : s = s' := by
  have first : ∀ {near near' : Int → Prop} {s s' : Span}, IsStretch near range s →
      IsStretch near' range s' →
        (∀ time, range.lo ≤ time → time < range.hi → (near time ↔ near' time)) → s.lo ≤ s'.lo := by
    intro near near' s s' h h' agree
    by_contra earlier
    have within := h'.nonempty.trans_le h'.upper
    exact h.before s'.lo h'.lower (not_le.1 earlier)
      ((agree s'.lo h'.lower within).2 (h'.inside s'.lo le_rfl h'.nonempty))
  have start : s.lo = s'.lo :=
    le_antisymm (first h h' agree) (first h' h fun time lo hi => (agree time lo hi).symm)
  have last : ∀ {near near' : Int → Prop} {s s' : Span}, IsStretch near range s →
      IsStretch near' range s' → s.lo = s'.lo →
        (∀ time, range.lo ≤ time → time < range.hi → (near time ↔ near' time)) → s.hi ≤ s'.hi := by
    intro near near' s s' h h' start agree
    by_contra later
    have later := not_le.1 later
    have within := later.trans_le h.upper
    have lower := h'.lower.trans h'.nonempty.le
    exact h'.after within ((agree s'.hi lower within).1
      (h.inside s'.hi (start.trans_le h'.nonempty.le) later))
  have finish : s.hi = s'.hi := le_antisymm (last h h' start agree)
    (last h' h start.symm fun time lo hi => (agree time lo hi).symm)
  obtain ⟨lo, hi⟩ := s
  obtain ⟨lo', hi'⟩ := s'
  exact congrArg₂ Span.mk start finish

/-- If the same times of a range are near, a stretch is one for both. -/
lemma IsStretch.congr (h : IsStretch near range s)
    (agree : ∀ time, range.lo ≤ time → time < range.hi → (near time ↔ near' time)) :
    IsStretch near' range s where
  lower := h.lower
  nonempty := h.nonempty
  upper := h.upper
  before time lower earlier := mt (agree time lower
    (earlier.trans (h.nonempty.trans_le h.upper))).2 (h.before time lower earlier)
  inside time lower earlier := (agree time (h.lower.trans lower)
    (earlier.trans_le h.upper)).1 (h.inside time lower earlier)
  after within := mt (agree s.hi (h.lower.trans h.nonempty.le) within).2 (h.after within)

/-- The stretch at which a function is at its peak for a range, up to the tolerance; an empty range is its
own worst stretch. -/
def IsWorst (f : Int → α) (range s : Span) : Prop :=
  if range.lo < range.hi then IsStretch (NearPeak f range) range s else s = range

/-- If the same times of a range are near, the worst stretch is the same. -/
lemma IsWorst.unique {g : Int → α} (h : IsWorst f range s) (h' : IsWorst g range s')
    (agree : ∀ time, range.lo ≤ time → time < range.hi →
      (NearPeak f range time ↔ NearPeak g range time)) : s = s' := by
  unfold IsWorst at h h'
  split at h
  · rename_i nonempty
    rw [if_pos nonempty] at h'
    exact h.unique h' agree
  · rename_i empty
    rw [if_neg empty] at h'
    exact h.trans h'.symm

/-- The whole range is the stretch if all its times are near. -/
lemma isStretch_self (nonempty : range.lo < range.hi)
    (all : ∀ time, range.lo ≤ time → time < range.hi → near time) : IsStretch near range range where
  lower := le_rfl
  nonempty := nonempty
  upper := le_rfl
  before _ lower before := absurd lower (not_le.2 before)
  inside := all
  after beyond := absurd beyond (lt_irrefl _)

/-- The tolerance is positive. -/
lemma tolerance_pos : (0 : α) < tolerance := by
  have cast : (tolerance : α) = ((1e-9 : ℚ≥0) : α) := rfl
  rw [cast]
  exact NNRat.cast_pos.2 (by decide +kernel)

/-- If no value is negative and the peak is within the tolerance, all times are near. -/
lemma isStretch_of_le (isPeak : IsPeak f range peak) (nonneg : ∀ time, 0 ≤ f time)
    (small : peak ≤ tolerance) (nonempty : range.lo < range.hi) :
    IsStretch (NearPeak f range) range range :=
  isStretch_self nonempty fun time _ _ =>
    (nearPeak_iff isPeak).2 ((sub_nonpos.2 small).trans (nonneg time))

/-- At some time of a range that is not empty the peak is reached. -/
lemma IsPeak.exists_reaching (isPeak : IsPeak f range peak) (nonempty : range.lo < range.hi) :
    ∃ time, range.lo ≤ time ∧ time < range.hi ∧ f time = peak := by
  unfold IsPeak at isPeak
  rw [if_pos nonempty] at isPeak
  obtain ⟨time, ⟨lower, upper⟩, same⟩ := isPeak.1
  exact ⟨time, lower, upper, same⟩

/-! ## Dense profiles -/

namespace DenseProfile

variable {q : DenseProfile α} {test : α → Bool}

omit [ExactScalar α] in
/-- A search through time steps finds the first one that passes the test. -/
lemma findStep?_cases [Scalar α] (q : DenseProfile α) (test : α → Bool) : ∀ count time : Nat,
    (q.findStep? test time count = none ∧
      ∀ i : Nat, time ≤ i → i < time + count → test (q.costAt i) = false) ∨
    ∃ found : Nat, q.findStep? test time count = some found ∧ time ≤ found ∧ found < time + count ∧
      test (q.costAt found) = true ∧
        ∀ i : Nat, time ≤ i → i < found → test (q.costAt i) = false
  | 0, time => .inl ⟨rfl, fun i lower upper => absurd lower (by omega)⟩
  | count + 1, time => by
    unfold findStep?
    by_cases passed : test (q.costAt time) = true
    · rw [if_pos passed]
      exact .inr ⟨time, rfl, le_rfl, by omega, passed, fun i lower upper => absurd lower (by omega)⟩
    · rw [if_neg passed]
      have failed : test (q.costAt time) = false := Bool.eq_false_iff.2 passed
      obtain ⟨none, all⟩ | ⟨found, some, lower, upper, passed, before⟩ :=
        findStep?_cases q test count (time + 1)
      · refine .inl ⟨none, fun i lower upper => ?_⟩
        rcases Nat.eq_or_lt_of_le lower with rfl | later
        · exact failed
        · exact all i later (by omega)
      · refine .inr ⟨found, some, by omega, by omega, passed, fun i lower upper => ?_⟩
        rcases Nat.eq_or_lt_of_le lower with rfl | later
        · exact failed
        · exact before i later upper

/-- The end of a stretch is the first time step that passes the test, or the end of the search. -/
lemma exists_getD_findStep? (q : DenseProfile α) (test : α → Bool) {first finish : Nat}
    (begun : first ≤ finish) : ∃ last : Nat,
      (q.findStep? test first (finish - first)).getD finish = last ∧ first ≤ last ∧ last ≤ finish ∧
        (∀ i : Nat, first ≤ i → i < last → test (q.costAt i) = false) ∧
          (last < finish → test (q.costAt last) = true) := by
  obtain ⟨none, all⟩ | ⟨last, some, lower, upper, passed, before⟩ :=
    q.findStep?_cases test (finish - first) first
  · rw [none]
    exact ⟨finish, rfl, begun, le_rfl, fun i lower upper => all i lower (by omega),
      fun beyond => absurd beyond (lt_irrefl _)⟩
  · rw [some]
    exact ⟨last, rfl, lower, by omega, before, fun _ => passed⟩

/-- The start of a stretch is the first time step that passes the test, if any does. -/
lemma exists_getD_of_passed (q : DenseProfile α) (test : α → Bool) {start count i : Nat} (other : Nat)
    (passed : test (q.costAt i) = true) (lower : start ≤ i) (upper : i < start + count) :
    ∃ first : Nat, (q.findStep? test start count).getD other = first ∧ start ≤ first ∧
      first < start + count ∧ test (q.costAt first) = true ∧
        ∀ i : Nat, start ≤ i → i < first → test (q.costAt i) = false := by
  obtain ⟨-, none⟩ | ⟨first, some, found⟩ := q.findStep?_cases test count start
  · exact absurd passed (Bool.eq_false_iff.1 (none i lower upper))
  · exact ⟨first, some ▸ rfl, found⟩

/-- The worst stretch of a range, by the costs. -/
lemma Prices.isStretch (h : q.Prices p σ) (supplied : p.Supplied) (lower : 0 ≤ range.lo)
    (upper : range.hi ≤ q.horizon) (nonempty : range.lo < range.hi) :
    IsStretch (NearPeak (p.costAt σ) range) range (q.maximumRange range) := by
  have isPeak := h.isPeak supplied lower upper
  by_cases small : q.maximumIn range ≤ tolerance
  · have whole : q.maximumRange range = range := by
      unfold maximumRange
      exact if_pos (by simp [small])
    rw [whole]
    exact isStretch_of_le isPeak (supplied.costAt_nonneg σ) small nonempty
  obtain ⟨start, count, clamp, ⟨-, range_lo, range_hi⟩ | ⟨empty, -⟩⟩ := clamp_cases lower upper
  swap
  · omega
  have near_iff : ∀ i : Nat, start ≤ i → i < start + count →
      (NearPeak (p.costAt σ) range i ↔ q.maximumIn range - tolerance ≤ q.costAt i) := by
    intro i lo hi
    rw [nearPeak_iff isPeak, h.costAt_eq (by omega) (by omega)]
  -- the search for the start succeeds because it would find the peak at last
  obtain ⟨worst, lo, hi, same⟩ := isPeak.exists_reaching nonempty
  obtain ⟨worst, rfl⟩ := Int.eq_ofNat_of_zero_le (lower.trans lo)
  have high := (near_iff worst (by omega) (by omega)).1
    ⟨_, isPeak, same ▸ (sub_lt_self _ tolerance_pos).le⟩
  obtain ⟨first, start_eq, from_start, to_finish, reached, before⟩ := q.exists_getD_of_passed
    (fun c => q.maximumIn range - tolerance ≤ c) start (decide_eq_true high)
    (show start ≤ worst by omega) (show worst < start + count by omega)
  obtain ⟨last, end_eq, after_first, in_range, between, below⟩ := q.exists_getD_findStep?
    (fun c => c < q.maximumIn range - tolerance) to_finish.le
  have ne : first ≠ last := by
    rintro rfl
    exact absurd (of_decide_eq_true reached) (not_le.2 (of_decide_eq_true (below to_finish)))
  have stretch : q.maximumRange range = ⟨first, last⟩ := by
    have many : count ≠ 0 := by omega
    unfold maximumRange
    rw [clamp]
    dsimp only
    rw [if_neg (by simp [small, many]), start_eq, end_eq]
  rw [stretch]
  refine isStretch_mk (by omega) (by omega) (by omega) (fun time lo hi => ?_) (fun time lo hi => ?_)
    fun beyond => ?_
  · obtain ⟨i, rfl⟩ := Int.eq_ofNat_of_zero_le (lower.trans lo)
    rw [near_iff i (by omega) (by omega)]
    exact of_decide_eq_false (before i (by omega) (by omega))
  · obtain ⟨i, rfl⟩ := Int.eq_ofNat_of_zero_le (show 0 ≤ time by omega)
    rw [near_iff i (by omega) (by omega)]
    exact not_lt.1 (of_decide_eq_false (between i (by omega) (by omega)))
  · rw [near_iff last (by omega) (by omega)]
    exact not_le.2 (of_decide_eq_true (below (by omega)))

/-- The worst stretch of a range that may be empty, by the costs. -/
lemma Prices.isWorst (h : q.Prices p σ) (supplied : p.Supplied) (lower : 0 ≤ range.lo)
    (upper : range.hi ≤ q.horizon) : IsWorst (p.costAt σ) range (q.maximumRange range) := by
  unfold IsWorst
  split
  · rename_i nonempty
    exact h.isStretch supplied lower upper nonempty
  · rename_i empty
    obtain ⟨start, count, clamp, ⟨nonempty, -⟩ | ⟨-, none⟩⟩ := clamp_cases lower upper
    · exact absurd nonempty empty
    · unfold maximumRange
      rw [clamp]
      exact if_pos (by simp [none])

end DenseProfile

/-! ## Searches through levels -/

namespace EventTree

variable {t : EventTree α}

/-- There is one level for each event. -/
lemma map_fst_levels (changes : List (Change α)) : ∀ level : α,
    (levels level changes).map Prod.fst = changes.map Change.event := by
  induction changes with
  | nil => exact fun _ => rfl
  | cons c rest ih => exact fun level => congrArg (c.event :: ·) (ih _)

/-- A search from a time on finds the first event after which the level is as wanted. -/
lemma findFirst_cases (shaped : t.Shaped) (sorted : t.Sorted) (start : Int) (threshold : α)
    (wanted : Wanted) :
    (t.findFirst (.first start) threshold wanted 0 = none ∧
      ∀ e x, (e, x) ∈ levels 0 t.toList → start ≤ e.time → wanted.holds threshold x = false) ∨
    ∃ e x, t.findFirst (.first start) threshold wanted 0 = some e ∧ (e, x) ∈ levels 0 t.toList ∧
      start ≤ e.time ∧ wanted.holds threshold x = true ∧
        ∀ e' x', (e', x') ∈ levels 0 t.toList → start ≤ e'.time → e'.time < e.time →
          wanted.holds threshold x' = false := by
  have increasing : (levels 0 t.toList).Pairwise fun x y => x.1 < y.1 := by
    rw [← List.pairwise_map (f := Prod.fst) (R := (· < ·)), map_fst_levels]
    exact List.pairwise_map.2 sorted
  rw [findFirst_eq shaped sorted]
  cases found : (levels 0 t.toList).find? _ with
  | none =>
    refine .inl ⟨rfl, fun e x member late => ?_⟩
    have failed := List.find?_eq_none.1 found (e, x) member
    simpa [Event.first_le_iff.2 late] using failed
  | some y =>
    obtain ⟨e, x⟩ := y
    obtain ⟨passed, earlier, later, same, failed⟩ := List.find?_eq_some_iff_append.1 found
    obtain ⟨late, holds⟩ := Bool.and_eq_true_iff.1 passed
    refine .inr ⟨e, x, rfl, ?_, Event.first_le_iff.1 (of_decide_eq_true late), holds,
      fun e' x' member late' before => ?_⟩
    · rw [same]
      exact List.mem_append_right _ List.mem_cons_self
    · rw [same] at member increasing
      rcases List.mem_append.1 member with first | rest
      · simpa [Event.first_le_iff.2 late'] using failed (e', x') first
      · obtain ⟨-, increasing, -⟩ := List.pairwise_append.1 increasing
        rcases List.mem_cons.1 rest with same | after
        · obtain rfl := congrArg Prod.fst same
          exact absurd before (lt_irrefl _)
        · have after : e < e' := (List.pairwise_cons.1 increasing).1 (e', x') after
          exact absurd (Event.time_le after.le) (not_le.2 before)

end EventTree

/-! ## Tracked profiles -/

namespace TrackedProfile

variable {durations : Array Int} {weights : Array α} {t : TrackedProfile α} {lo hi : Int}

/-- No level is below zero. -/
lemma levelOf_nonneg (durations : Array Int) (weights : Array α) (σ : Nat → Option Int) (time : Int) :
    0 ≤ levelOf durations weights σ time := by
  refine Finset.sum_nonneg fun v _ => ?_
  unfold share
  split
  · split
    · rename_i runs
      exact runs.1.2.le
    · exact le_refl _
  · exact le_refl _

/-- The level still reaches a threshold if it does so after each event since. -/
lemma Records.le_levelOf_of_events (h : Records durations weights σ t.tree) (le : lo ≤ time)
    (before : threshold ≤ levelOf durations weights σ lo)
    (since : ∀ e x, (e, x) ∈ levels 0 t.tree.toList → lo < e.time → e.time ≤ time → threshold ≤ x) :
    threshold ≤ levelOf durations weights σ time := by
  obtain same | ⟨e, member, after, upTo⟩ := h.levelOf_cases le
  · rwa [same]
  · exact since e _ member after upTo

/-- The level is still below a threshold if it is so after each event since. -/
lemma Records.levelOf_lt_of_events (h : Records durations weights σ t.tree) (le : lo ≤ time)
    (before : levelOf durations weights σ lo < threshold)
    (since : ∀ e x, (e, x) ∈ levels 0 t.tree.toList → lo < e.time → e.time ≤ time → x < threshold) :
    levelOf durations weights σ time < threshold := by
  obtain same | ⟨e, member, after, upTo⟩ := h.levelOf_cases le
  · rwa [same]
  · exact since e _ member after upTo

/-- Up to the event that a search for a lower level finds, the level reaches the threshold. -/
lemma Records.le_levelOf_upTo (h : Records durations weights σ t.tree) {start : Int} (le : start ≤ time)
    (reached : threshold ≤ levelOf durations weights σ (start - 1))
    (none : ∀ e x, (e, x) ∈ levels 0 t.tree.toList → start ≤ e.time → e.time ≤ time →
      Wanted.below.holds threshold x = false) :
    threshold ≤ levelOf durations weights σ time := by
  refine h.le_levelOf_of_events (by omega) reached fun e x member after upTo => ?_
  exact not_lt.1 (of_decide_eq_false (none e x member (by omega) upTo))

/-- The end of a stretch is the first time at which the level is below the threshold, or the end of the
search.  The level of the step before the search reaches the threshold. -/
lemma Holds.descent_first (h : t.Holds durations weights σ) (greatest : hi ≤ greatestTime) :
    ∀ start : Int, start ≤ hi → threshold ≤ levelOf durations weights σ (start - 1) →
      (t.descent threshold hi start).Answers fun last => start ≤ last ∧ last ≤ hi ∧
        (∀ time, start ≤ time → time < last → threshold ≤ levelOf durations weights σ time) ∧
          (last < hi → levelOf durations weights σ last < threshold) := by
  intro start
  induction start using TrackedProfile.descent.induct t threshold hi with
  | case1 start fault stops =>
    rw [h.arena.findFirst] at stops
    cases stops
  | case2 start nothing =>
    intro le reached
    rw [descent_of_none nothing]
    obtain ⟨-, none⟩ | ⟨e, x, found, -⟩ :=
      EventTree.findFirst_cases h.tree.shaped h.tree.sorted start threshold .below
    · refine .ok ⟨le, le_rfl, fun time lower _ => ?_, fun beyond => absurd beyond (lt_irrefl _)⟩
      exact h.tree.le_levelOf_upTo lower reached fun e x member after _ => none e x member after
    · rw [h.arena.findFirst, found] at nothing
      cases nothing
  | case3 start e found before ih =>
    intro le reached
    have inTree := Except.ok.inj ((h.arena.findFirst ..).symm.trans found)
    obtain ⟨none, -⟩ | ⟨e', x, found', member, late, -, first⟩ :=
      EventTree.findFirst_cases h.tree.shaped h.tree.sorted start threshold .below
    · rw [none] at inTree
      cases inTree
    obtain rfl := Option.some.inj (inTree.symm.trans found')
    have early : ∀ time, start ≤ time → time < e.time →
        threshold ≤ levelOf durations weights σ time := fun time lower earlier =>
      h.tree.le_levelOf_upTo lower reached fun e' x' member' after le => first e' x' member' after (by omega)
    obtain ⟨c, among, same⟩ := exists_of_mem_levels member
    have same : c.event = e := same
    have least : leastTime ≤ e.time := same ▸ (h.time_mem among).1
    rw [descent_of_some found, if_pos before, h.levelAt least (by omega), ok_bind]
    by_cases still : threshold ≤ levelOf durations weights σ e.time
    · rw [if_pos still]
      refine (ih (by omega) (by rwa [add_sub_cancel_right])).imp fun last spec => ?_
      obtain ⟨from_next, to_end, between, below⟩ := spec
      refine ⟨by omega, to_end, fun time lower earlier => ?_, below⟩
      rcases lt_trichotomy time e.time with less | rfl | more
      · exact early time lower less
      · exact still
      · exact between time (by omega) earlier
    · rw [if_neg still]
      exact .pure ⟨late, before.le, early, fun _ => not_le.1 still⟩
  | case4 start e found beyond =>
    intro le reached
    have inTree := Except.ok.inj ((h.arena.findFirst ..).symm.trans found)
    obtain ⟨none, -⟩ | ⟨e', x, found', -, -, -, first⟩ :=
      EventTree.findFirst_cases h.tree.shaped h.tree.sorted start threshold .below
    · rw [none] at inTree
      cases inTree
    obtain rfl := Option.some.inj (inTree.symm.trans found')
    rw [descent_of_some found, if_neg beyond]
    refine .ok ⟨le, le_rfl, fun time lower earlier => ?_, fun past => absurd past (lt_irrefl _)⟩
    exact h.tree.le_levelOf_upTo lower reached fun e' x' member' after le =>
      first e' x' member' after (by omega)

/-- If the level is below a threshold at a time and not below it at a later one, a search finds an event
at the first time at which it is not. -/
lemma Records.first_reaching (h : Records durations weights σ t.tree)
    (low : levelOf durations weights σ lo < threshold) (le : lo ≤ time)
    (high : ¬levelOf durations weights σ time < threshold) :
    ∃ e, t.tree.findFirst (.first (lo + 1)) threshold .reaching 0 = some e ∧ lo < e.time ∧
      e.time ≤ time ∧ threshold ≤ levelOf durations weights σ e.time ∧
        ∀ time, lo ≤ time → time < e.time → levelOf durations weights σ time < threshold := by
  obtain ⟨-, none⟩ | ⟨e, x, found, member, late, holds, first⟩ :=
    EventTree.findFirst_cases h.shaped h.sorted (lo + 1) threshold .reaching
  · refine absurd (h.levelOf_lt_of_events le low fun e x member after _ => ?_) high
    exact not_le.1 (of_decide_eq_false (none e x member (by omega)))
  · have before : ∀ time, lo ≤ time → time < e.time → levelOf durations weights σ time < threshold :=
      fun time lower earlier => h.levelOf_lt_of_events lower low fun e' x' member' after upTo =>
        not_le.1 (of_decide_eq_false (first e' x' member' (by omega) (by omega)))
    have reached : threshold ≤ x := of_decide_eq_true holds
    refine ⟨e, found, by omega, ?_, ?_, before⟩
    · by_contra later
      exact high (before time le (not_le.1 later))
    · obtain ⟨time, ⟨-, rfl⟩ | ⟨-, rfl⟩, le⟩ := h.le_levelOf member
      · exact reached.trans le
      · exact absurd (reached.trans le) (not_le.2 (before (e.time - 1) (by omega) (by omega)))

/-- The stretch that starts at the first time at which the level reaches the threshold. -/
lemma Holds.stretch_of_first (h : t.Holds durations weights σ) (least : leastTime ≤ range.lo)
    (greatest : range.hi ≤ greatestTime)
    (near_iff : ∀ time, near time ↔ threshold ≤ levelOf durations weights σ time)
    (lower : range.lo ≤ lo) (upper : lo < range.hi) (reached : threshold ≤ levelOf durations weights σ lo)
    (before : ∀ time, range.lo ≤ time → time < lo → levelOf durations weights σ time < threshold) :
    (do
      let hi ← t.descent threshold range.hi (← addTime lo 1)
      return ⟨lo, hi⟩ : Checked Span).Answers (IsStretch near range) := by
  rw [addTime_of_mem (by omega) (by omega), ok_bind]
  refine (h.descent_first greatest (lo + 1) (by omega) (by rwa [add_sub_cancel_right])).bind
    fun hi spec => .pure ?_
  obtain ⟨from_next, to_end, between, below⟩ := spec
  refine isStretch_mk lower (by omega) to_end (fun time lower earlier => ?_)
    (fun time lower earlier => ?_) fun past => ?_
  · rw [near_iff]
    exact not_le.2 (before time lower earlier)
  · rw [near_iff]
    rcases eq_or_lt_of_le lower with rfl | later
    · exact reached
    · exact between time (by omega) earlier
  · rw [near_iff]
    exact not_le.2 (below past)

/-- If the peak is within the tolerance, the worst stretch is the range itself. -/
lemma maxLevelRange_of_le (found : t.maxLevelIn range = .ok peak) (small : peak ≤ tolerance) :
    t.maxLevelRange range = .ok range := by
  unfold TrackedProfile.maxLevelRange
  rw [found, ok_bind, if_pos (by simp [small])]
  rfl

/-- The worst stretch of a range, by the levels. -/
lemma Holds.isStretch (h : t.Holds durations weights σ) (least : leastTime ≤ range.lo)
    (greatest : range.hi ≤ greatestTime) (nonempty : range.lo < range.hi) :
    (t.maxLevelRange range).Answers
      (IsStretch (NearPeak (levelOf durations weights σ) range) range) := by
  obtain ⟨peak, found, isGreatest⟩ := h.maxLevelIn least greatest nonempty
  have isPeak : IsPeak (levelOf durations weights σ) range peak := by
    unfold IsPeak
    rwa [if_pos nonempty]
  have near_iff : ∀ time, NearPeak (levelOf durations weights σ) range time ↔
      peak - tolerance ≤ levelOf durations weights σ time := fun time => nearPeak_iff isPeak
  have isEmpty : range.isEmpty = false := decide_eq_false (not_le.2 nonempty)
  by_cases small : peak ≤ tolerance
  · rw [maxLevelRange_of_le found small]
    exact .ok (isStretch_of_le isPeak (levelOf_nonneg durations weights σ) small nonempty)
  unfold TrackedProfile.maxLevelRange
  rw [found, ok_bind, if_neg (by simp [small, isEmpty])]
  dsimp only
  rw [h.levelAt least (by omega), ok_bind]
  by_cases reached : peak - tolerance ≤ levelOf durations weights σ range.lo
  · rw [if_pos reached]
    exact h.stretch_of_first least greatest near_iff le_rfl nonempty reached fun time lower earlier =>
      absurd lower (not_le.2 earlier)
  · rw [if_neg reached, addTime_of_mem (by omega) (by omega), ok_bind]
    -- the peak is reached later in the range
    obtain ⟨worst, lower, upper, same⟩ := isPeak.exists_reaching nonempty
    have high : ¬levelOf durations weights σ worst < peak - tolerance :=
      not_lt.2 (same ▸ (sub_lt_self _ tolerance_pos).le)
    obtain ⟨e, some, later, upTo, reached, before⟩ :=
      h.tree.first_reaching (not_le.1 reached) lower high
    rw [h.arena.findFirst, some, ok_bind]
    dsimp only
    rw [if_pos (show e.time < range.hi by omega)]
    exact h.stretch_of_first least greatest near_iff later.le (by omega) reached before

/-- The worst stretch of a range that may be empty, by the levels. -/
lemma Holds.isWorst (h : t.Holds durations weights σ) (least : leastTime ≤ range.lo)
    (greatest : range.hi ≤ greatestTime) :
    (t.maxLevelRange range).Answers (IsWorst (levelOf durations weights σ) range) := by
  by_cases nonempty : range.lo < range.hi
  · refine (h.isStretch least greatest nonempty).imp fun s stretch => ?_
    unfold IsWorst
    rwa [if_pos nonempty]
  · have isEmpty : range.isEmpty = true := decide_eq_true (not_lt.1 nonempty)
    unfold TrackedProfile.maxLevelRange TrackedProfile.maxLevelIn
    rw [isEmpty]
    refine .pure ?_
    unfold IsWorst
    rw [if_neg nonempty]

end TrackedProfile

end Leveling
