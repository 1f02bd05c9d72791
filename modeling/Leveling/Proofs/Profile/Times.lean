import Leveling.Proofs.Profile.Levels
import Leveling.Proofs.Profile.Placements
import Mathlib.Algebra.BigOperators.Group.Finset.Basic
import Mathlib.Algebra.Order.BigOperators.Group.Finset
import Mathlib.Data.Finset.Max
import Mathlib.Data.Int.ConditionallyCompleteOrder
import Mathlib.Order.Interval.Set.Defs

/-!
# Levels over time

The level at a time is the sum of the weights of the jobs that run then.  It is the level after the
last event up to that time, and no level after another event of the time step is higher than both this
one and the level one step earlier, because the finishes of a time come before its starts.  So the
highest level after an event is the highest level at a time.
-/

namespace Leveling

open Checked

namespace TrackedProfile

variable {α : Type} [ExactScalar α] {durations : Array Int} {weights : Array α}
  {σ : Nat → Option Int} {p : TrackedProfile α} {t : EventTree α} {c d : Change α} {e : Event} {x m : α}
  {v : Nat} {lo hi time : Int} {range : Span}

/-! ## Sums of changes -/

/-- What a job adds to the level at a time. -/
def share (durations : Array Int) (weights : Array α) (σ : Nat → Option Int) (time : Int) (v : Nat) :
    α :=
  match σ v, weights[v]? with
  | some start, some weight =>
    if (0 < valueAt durations v ∧ 0 < weight) ∧ start ≤ time ∧ time < start + valueAt durations v then
      weight
    else 0
  | _, _ => 0

/-- The level at a time. -/
def levelOf (durations : Array Int) (weights : Array α) (σ : Nat → Option Int) (time : Int) : α :=
  ∑ v ∈ Finset.range weights.size, share durations weights σ time v

/-- The changes of a job where it is placed. -/
def placedChanges (durations : Array Int) (weights : Array α) (σ : Nat → Option Int) (v : Nat) :
    List (Change α) :=
  match σ v with
  | none => []
  | some start => changes durations weights v start

/-- A change of a job where it is placed. -/
lemma mem_placedChanges : c ∈ placedChanges durations weights σ v ↔
    ∃ start, σ v = some start ∧ c ∈ changes durations weights v start := by
  unfold placedChanges
  cases σ v with
  | none => exact iff_of_false List.not_mem_nil fun ⟨_, placed, _⟩ => nomatch placed
  | some start =>
    constructor
    · exact fun listed => ⟨start, rfl, listed⟩
    · rintro ⟨_, same, listed⟩
      obtain rfl := Option.some.inj same
      exact listed

/-- The tree holds the changes of one job after the other. -/
lemma Records.perm (h : Records durations weights σ t) :
    t.toList.Perm ((List.range weights.size).flatMap (placedChanges durations weights σ)) := by
  have distinct : t.toList.Nodup :=
    List.Pairwise.imp (fun before same => before.ne (congrArg Change.event same)) h.sorted
  refine (List.perm_ext_iff_of_nodup distinct ?_).2 fun c => (h.mem c).trans ?_
  · refine List.nodup_flatMap.2 ⟨fun v _ => ?_, List.nodup_range.imp fun {v w} ne => ?_⟩
    · unfold placedChanges
      split
      · exact List.nodup_nil
      · exact (nodup_changes durations weights v _).of_map
    · intro c inV inW
      obtain ⟨_, -, listed⟩ := mem_placedChanges.1 inV
      obtain ⟨_, -, listed'⟩ := mem_placedChanges.1 inW
      exact ne ((job_of_mem_changes listed).symm.trans (job_of_mem_changes listed'))
  · rw [List.mem_flatMap]
    constructor
    · rintro ⟨v, start, placed, listed⟩
      obtain ⟨weight, found, -⟩ := mem_changes listed
      refine ⟨v, List.mem_range.2 ?_, mem_placedChanges.2 ⟨start, placed, listed⟩⟩
      exact (Array.getElem?_eq_some_iff.1 found).1
    · rintro ⟨v, -, listed⟩
      obtain ⟨start, placed, listed⟩ := mem_placedChanges.1 listed
      exact ⟨v, start, placed, listed⟩

/-- The changes of a job up to a time sum up to what it adds to the level. -/
lemma total_placedChanges (time : Int) (v : Nat) :
    total ((placedChanges durations weights σ v).filter fun c => c.event.time ≤ time) =
      share durations weights σ time v := by
  unfold placedChanges changes share
  cases placed : σ v with
  | none => rfl
  | some start =>
    cases found : weights[v]? with
    | none => rfl
    | some weight =>
      dsimp only
      by_cases tracked : 0 < valueAt durations v ∧ 0 < weight
      · rw [if_pos tracked]
        by_cases begun : start ≤ time
        · by_cases ended : start + valueAt durations v ≤ time
          · simp [tracked, begun, ended]
          · simp [tracked, begun, ended]
        · have notEnded : ¬start + valueAt durations v ≤ time := by omega
          simp [begun, notEnded]
      · rw [if_neg tracked, if_neg fun both => tracked both.1]
        rfl

/-- The changes up to a time sum up to the level at that time. -/
lemma Records.total_upTo (h : Records durations weights σ t) (time : Int) :
    total (t.toList.filter fun c => c.event.time ≤ time) = levelOf durations weights σ time := by
  have sum_flatMap : ∀ l : List Nat, total (l.flatMap fun v =>
      (placedChanges durations weights σ v).filter fun c => c.event.time ≤ time) =
        (l.map (share durations weights σ time)).sum := by
    intro l
    induction l with
    | nil => rfl
    | cons v l ih =>
      rw [List.flatMap_cons, total_append, total_placedChanges, ih, List.map_cons, List.sum_cons]
  have perm := (h.perm.filter fun c => c.event.time ≤ time).map Change.amount
  rw [total, perm.sum_eq, List.filter_flatMap]
  exact sum_flatMap _

/-- The level at a time. -/
lemma Holds.levelAt (h : p.Holds durations weights σ) (least : leastTime ≤ time)
    (greatest : time < greatestTime) : p.levelAt time = .ok (levelOf durations weights σ time) := by
  rw [h.levelAt_eq least greatest, EventTree.levelBefore_eq h.tree.shaped h.tree.sorted, zero_add,
    ← h.tree.total_upTo time]
  congr 2
  refine List.filter_congr fun c _ => decide_eq_decide.2 ?_
  rw [Event.lt_first_iff, Int.lt_add_one_iff]

/-! ## Levels after events -/

/-- Starts raise the level and finishes lower it. -/
lemma Records.sign (h : Records durations weights σ t) (inside : c ∈ t.toList) :
    (c.event.kind = .start ∧ 0 ≤ c.amount) ∨ (c.event.kind = .finish ∧ c.amount ≤ 0) := by
  obtain ⟨v, start, -, listed⟩ := (h.mem c).1 inside
  obtain ⟨weight, -, ⟨-, positive⟩, rfl | rfl⟩ := mem_changes listed
  · exact .inl ⟨rfl, positive.le⟩
  · exact .inr ⟨rfl, neg_nonpos.2 positive.le⟩

/-- A level after a start is at most the level at its time, and a level after a finish is at most the
level one step earlier. -/
lemma Records.le_levelOf (h : Records durations weights σ t) (member : (e, x) ∈ levels 0 t.toList) :
    ∃ time, (e.kind = .start ∧ time = e.time ∨ e.kind = .finish ∧ time = e.time - 1) ∧
      x ≤ levelOf durations weights σ time := by
  obtain ⟨⟨c, inside, rfl⟩, rfl⟩ := (mem_levels h.sorted).1 member
  rw [zero_add]
  obtain ⟨kind, -⟩ | ⟨kind, -⟩ := h.sign inside
  · -- the events of its time that follow a start are starts
    refine ⟨_, .inl ⟨kind, rfl⟩, ?_⟩
    rw [← h.total_upTo]
    refine total_filter_le (fun d _ before late => absurd (Event.time_le before) late)
      fun d among after early => ?_
    obtain ⟨-, positive⟩ | ⟨finish, -⟩ := h.sign among
    · exact positive
    · rw [Event.kind_of_start_lt kind (not_le.1 after) early] at finish
      cases finish
  · -- the events of its time up to a finish are finishes
    refine ⟨_, .inr ⟨kind, rfl⟩, ?_⟩
    rw [← h.total_upTo]
    refine total_filter_le (fun d among before late => ?_) fun d _ after early =>
      absurd (Event.lt_of_time_lt (show d.event.time < c.event.time by omega)).le after
    obtain ⟨start, -⟩ | ⟨-, negative⟩ := h.sign among
    · rw [Event.kind_of_le_finish kind before (by omega)] at start
      cases start
    · exact negative

/-- Between two times the level changes by events only: at the later one it is the level after the last
event in between, or what it was. -/
lemma Records.levelOf_cases (h : Records durations weights σ t) (le : lo ≤ time) :
    levelOf durations weights σ time = levelOf durations weights σ lo ∨
      ∃ e, (e, levelOf durations weights σ time) ∈ levels 0 t.toList ∧ lo < e.time ∧
        e.time ≤ time := by
  let between := ((t.toList.filter fun c => lo < c.event.time ∧ c.event.time ≤ time).map
    Change.event).toFinset
  have mem_between : ∀ {e}, e ∈ between ↔
      ∃ c ∈ t.toList, (lo < c.event.time ∧ c.event.time ≤ time) ∧ c.event = e := by
    intro e
    simp only [between, List.mem_toFinset, List.mem_map, List.mem_filter, decide_eq_true_eq, and_assoc]
  rcases between.eq_empty_or_nonempty with empty | nonempty
  · left
    rw [← h.total_upTo, ← h.total_upTo]
    congr 1
    refine List.filter_congr fun c inside => decide_eq_decide.2 ?_
    have outside : ¬(lo < c.event.time ∧ c.event.time ≤ time) := fun both =>
      absurd (mem_between.2 ⟨c, inside, both, rfl⟩) (empty ▸ Finset.notMem_empty _)
    omega
  · right
    obtain ⟨c, inside, ⟨after, upTo⟩, same⟩ := mem_between.1 (between.max'_mem nonempty)
    refine ⟨c.event, (mem_levels h.sorted).2 ⟨⟨c, inside, rfl⟩, ?_⟩, after, upTo⟩
    rw [zero_add, ← h.total_upTo]
    congr 1
    refine List.filter_congr fun d among => decide_eq_decide.2 ?_
    constructor
    · intro early
      by_cases later : lo < d.event.time
      · rw [same]
        exact between.le_max' _ (mem_between.2 ⟨d, among, ⟨later, early⟩, rfl⟩)
      · exact (Event.lt_of_time_lt (by omega)).le
    · exact fun before => (Event.time_le before).trans upTo

/-! ## Highest levels -/

/-- The highest level of a range of times. -/
lemma Holds.maxLevelIn (h : p.Holds durations weights σ) (least : leastTime ≤ range.lo)
    (greatest : range.hi ≤ greatestTime) (nonempty : range.lo < range.hi) :
    (p.maxLevelIn range).Answers
      (IsGreatest (levelOf durations weights σ '' Set.Ico range.lo range.hi)) := by
  have isEmpty : range.isEmpty = false := decide_eq_false (not_le.2 nonempty)
  have highest := EventTree.isHighest_highest h.tree.shaped h.tree.sorted (.first (range.lo + 1))
    (.first range.hi) 0
  have within : ∀ {e x}, (e, x) ∈ levels 0 p.tree.toList → range.lo < e.time → e.time < range.hi →
      x ∈ levelsAt (fun e => .first (range.lo + 1) ≤ e ∧ e < .first range.hi) 0 p.tree.toList :=
    fun member lower upper =>
      ⟨_, member, Event.first_le_iff.2 (by omega), Event.lt_first_iff.2 upper⟩
  unfold TrackedProfile.maxLevelIn
  rw [isEmpty, if_neg Bool.false_ne_true, addTime_of_mem (by omega) (by omega), ok_bind,
    h.arena.highest, ok_bind, h.levelAt least (by omega), ok_bind]
  refine .pure ?_
  cases found : p.tree.highest (.first (range.lo + 1)) (.first range.hi) 0 with
  | none =>
    rw [found] at highest
    refine ⟨⟨range.lo, ⟨le_refl _, nonempty⟩, rfl⟩, ?_⟩
    rintro _ ⟨time, ⟨lower, upper⟩, rfl⟩
    obtain same | ⟨e, member, after, upTo⟩ := h.tree.levelOf_cases lower
    · exact le_of_eq same
    · have none : levelsAt _ 0 p.tree.toList = ∅ := highest
      exact absurd (within member after (by omega)) (none ▸ Set.notMem_empty _)
  | some level =>
    rw [found] at highest
    have highest : IsGreatest _ level := highest
    have bound : ∀ time, range.lo ≤ time → time < range.hi → levelOf durations weights σ time ≤
        max (levelOf durations weights σ range.lo) level := by
      intro time lower upper
      obtain same | ⟨e, member, after, upTo⟩ := h.tree.levelOf_cases lower
      · exact le_max_of_le_left (le_of_eq same)
      · exact le_max_of_le_right (highest.2 (within member after (by omega)))
    refine ⟨?_, ?_⟩
    · rcases max_choice (levelOf durations weights σ range.lo) level with first | second
      · exact ⟨range.lo, ⟨le_refl _, nonempty⟩, first.symm⟩
      · obtain ⟨e, member, lower, upper⟩ := highest.1
        have lower := Event.first_le_iff.1 lower
        have upper := Event.lt_first_iff.1 upper
        obtain ⟨time, cases, le⟩ := h.tree.le_levelOf member
        refine ⟨time, ⟨by omega, by omega⟩, le_antisymm (bound time (by omega) (by omega)) ?_⟩
        exact le_of_eq_of_le second le
    · rintro _ ⟨time, ⟨lower, upper⟩, rfl⟩
      exact bound time lower upper

/-- If all jobs run between two times, all events happen between them. -/
lemma Records.event_mem (h : Records durations weights σ t)
    (inside : ∀ v start, σ v = some start → lo ≤ start ∧ start + valueAt durations v ≤ hi) :
    ∀ c ∈ t.toList, lo ≤ c.event.time ∧ c.event.time ≤ hi := by
  intro c among
  obtain ⟨v, start, placed, listed⟩ := (h.mem c).1 among
  obtain ⟨lower, upper⟩ := inside v start placed
  obtain ⟨weight, -, ⟨duration, -⟩, rfl | rfl⟩ := mem_changes listed
  · dsimp only
    omega
  · dsimp only
    omega

/-- If all events happen between two times, a job runs between them where it starts and just before it
finishes. -/
lemma Records.time_mem (h : Records durations weights σ t)
    (inside : ∀ c ∈ t.toList, lo ≤ c.event.time ∧ c.event.time ≤ hi) (among : c ∈ t.toList) :
    ∀ time, (c.event.kind = .start ∧ time = c.event.time ∨ c.event.kind = .finish ∧
      time = c.event.time - 1) → time ∈ Set.Ico lo hi := by
  obtain ⟨v, start, placed, listed⟩ := (h.mem c).1 among
  obtain ⟨weight, found, tracked, cases⟩ := mem_changes listed
  have both := changes_of_tracked start found tracked
  have first := inside _ ((h.mem _).2 ⟨v, start, placed, both ▸ List.mem_cons_self⟩)
  have last := inside _ ((h.mem _).2 ⟨v, start, placed,
    both ▸ List.mem_cons_of_mem _ List.mem_cons_self⟩)
  dsimp only at first last
  obtain ⟨duration, -⟩ := tracked
  rcases cases with rfl | rfl
  · rintro time (⟨-, same⟩ | ⟨impossible, -⟩)
    · dsimp only at same
      exact ⟨by omega, by omega⟩
    · cases impossible
  · rintro time (⟨impossible, -⟩ | ⟨-, same⟩)
    · cases impossible
    · dsimp only at same
      exact ⟨by omega, by omega⟩

/-- The highest level at any time, but at least zero, if all events happen between two times. -/
lemma Holds.maxLevel_between (h : p.Holds durations weights σ)
    (inside : ∀ c ∈ p.tree.toList, lo ≤ c.event.time ∧ c.event.time ≤ hi) :
    IsGreatest (levelOf durations weights σ '' Set.Ico lo hi ∪ {0}) p.maxLevel := by
  have before : levelOf durations weights σ (lo - 1) = 0 := by
    have none : p.tree.toList.filter (fun c => c.event.time ≤ lo - 1) = [] := by
      refine List.filter_eq_nil_iff.2 fun c among => ?_
      have lower := (inside c among).1
      rw [decide_eq_true_iff]
      omega
    rw [← h.tree.total_upTo, none, total_nil]
  have later : ∀ time ∈ Set.Ico lo hi, levelOf durations weights σ time = 0 ∨
      levelOf durations weights σ time ∈ levelsAt (fun _ => True) 0 p.tree.toList := by
    rintro time ⟨lower, -⟩
    obtain same | ⟨e, member, -, -⟩ := h.tree.levelOf_cases (show lo - 1 ≤ time by omega)
    · exact .inl (same.trans before)
    · exact .inr ⟨e, member, trivial⟩
  rw [h.maxLevel_eq]
  cases known : p.tree.summary? with
  | none =>
    refine ⟨.inr rfl, ?_⟩
    rintro _ (⟨time, within, rfl⟩ | rfl)
    · rcases later time within with zero | ⟨e, member, -⟩
      · exact le_of_eq zero
      · rw [EventTree.toList_of_summary? known] at member
        exact absurd member List.not_mem_nil
    · exact le_refl _
  | some s =>
    have highest := ((h.tree.shaped.summary h.tree.sorted).2 s known).high 0
    rw [zero_add] at highest
    have bound : ∀ time ∈ Set.Ico lo hi,
        levelOf durations weights σ time ≤ max s.high 0 := by
      intro time within
      rcases later time within with zero | member
      · exact le_max_of_le_right (le_of_eq zero)
      · exact le_max_of_le_left (highest.2 member)
    refine ⟨?_, ?_⟩
    · rcases max_choice s.high 0 with first | second
      · obtain ⟨e, member, -⟩ := highest.1
        obtain ⟨time, cases, le⟩ := h.tree.le_levelOf member
        obtain ⟨c, among, rfl⟩ := exists_of_mem_levels member
        have within := h.tree.time_mem inside among time cases
        exact .inl ⟨time, within, le_antisymm (bound time within) (le_of_eq_of_le first le)⟩
      · exact .inr second
    · rintro _ (⟨time, within, rfl⟩ | rfl)
      · exact bound time within
      · exact le_max_right _ _

end TrackedProfile

end Leveling
