import Leveling.Proofs.Profile.Replays
import Leveling.Proofs.Profile.Stretches

/-!
# Queries to a profile

Over exact numbers a profile that was reached by any moves answers with the level of a time, the highest
level at all, the highest level in a range, and the stretch of a range at which the level is highest, as
if it had added up the weights of the running jobs time by time.

The searches run over events.  A level between two events of one time is the level of no time, but it is
exceeded by the level of a time in the same range, so the highest level after an event is the highest
level.  The level at a time is asked for as the level before the next time, so the greatest time of all
has no answer; no job runs then.
-/

namespace Leveling

open Checked

namespace TrackedProfile

variable {α : Type} [ExactScalar α] {durations : Array Int} {weights : Array α}
  {σ : Nat → Option Int} {p : TrackedProfile α} {moves : List Move} {range : Span} {time : Int}

/-! ## The end of time -/

/-- At the greatest time no job runs. -/
lemma Holds.levelOf_greatestTime (h : p.Holds durations weights σ) :
    levelOf durations weights σ greatestTime = 0 := by
  refine Finset.sum_eq_zero fun v _ => ?_
  unfold share
  split
  · rename_i start weight placed found
    refine if_neg ?_
    rintro ⟨tracked, -, unfinished⟩
    have both := changes_of_tracked start found tracked
    have finish := (h.timed v start placed _ (both ▸ List.mem_cons_of_mem _ List.mem_cons_self)).2
    exact absurd unfinished (not_lt.2 finish)
  · rfl

omit [ExactScalar α] in
/-- The level at the greatest time cannot be asked for. -/
lemma levelAt_greatestTime [Scalar α] (p : TrackedProfile α) :
    p.levelAt greatestTime = .error .overflow := by
  unfold TrackedProfile.levelAt
  rw [addTime_of_gt (show greatestTime < greatestTime + 1 by omega)]
  rfl

/-- The highest level at any time. -/
lemma Holds.maxLevel (h : p.Holds durations weights σ) :
    IsGreatest (levelOf durations weights σ '' Set.Icc leastTime greatestTime) p.maxLevel := by
  have highest := h.maxLevel_between fun c inside => h.time_mem inside
  rw [Set.union_singleton, ← h.levelOf_greatestTime, ← Set.image_insert_eq,
    Set.Ico_insert_right (by decide)] at highest
  exact highest

/-! ## Levels -/

/-- **Levels.**  After any moves the level at a time is the sum of the weights of the jobs that run then,
except that the greatest time has no answer; the highest level of all is that of a time; and so is the
highest level of each range that is not empty. -/
theorem levels_after_moves (times : ∀ move ∈ moves, move.AtTime)
    (reached : replay durations weights moves = .ok p) :
    (∀ time, leastTime ≤ time → time < greatestTime →
      p.levelAt time = .ok (levelOf durations weights (Move.placement moves) time)) ∧
    p.levelAt greatestTime = .error .overflow ∧
    IsGreatest (levelOf durations weights (Move.placement moves) '' Set.Icc leastTime greatestTime)
      p.maxLevel ∧
    ∀ range : Span, leastTime ≤ range.lo → range.lo < range.hi → range.hi ≤ greatestTime →
      (p.maxLevelIn range).Answers (IsGreatest
        (levelOf durations weights (Move.placement moves) '' Set.Ico range.lo range.hi)) := by
  have holds := holds_of_replay times reached
  exact ⟨fun time least greatest => holds.levelAt least greatest, p.levelAt_greatestTime,
    holds.maxLevel,
    fun range least nonempty greatest => holds.maxLevelIn least greatest nonempty⟩

/-- Two jobs run one after the other, and one that was moved runs beside both. -/
theorem levels_after_moves_trio :
    ∃ p : TrackedProfile ℚ, replay #[3, 3, 6] #[1, 2, 4]
        [.insert 0 0, .insert 2 5, .insert 1 3, .reposition 2 0] = .ok p ∧
      p.levelAt 3 = .ok 6 ∧ p.levelAt 6 = .ok 0 ∧ p.maxLevel = 6 ∧
      levelOf #[3, 3, 6] (#[1, 2, 4] : Array ℚ) (Move.placement
        [.insert 0 0, .insert 2 5, .insert 1 3, .reposition 2 0]) 3 = 6 ∧
      (p.maxLevelIn ⟨0, 3⟩).Answers (IsGreatest (levelOf #[3, 3, 6] #[1, 2, 4] (Move.placement
        [.insert 0 0, .insert 2 5, .insert 1 3, .reposition 2 0]) '' Set.Ico 0 3)) := by
  have computed : (replay #[3, 3, 6] (#[1, 2, 4] : Array ℚ)
      [.insert 0 0, .insert 2 5, .insert 1 3, .reposition 2 0]).Answers fun p =>
        p.levelAt 3 = .ok 6 ∧ p.levelAt 6 = .ok 0 ∧ p.maxLevel = 6 := by
    decide +kernel
  obtain ⟨p, reached, three, six, highest⟩ := computed
  obtain ⟨levels, -, -, ranges⟩ := levels_after_moves (by decide) reached
  have level := (levels 3 (by decide) (by decide)).symm.trans three
  exact ⟨p, reached, three, six, highest, Except.ok.inj level,
    ranges ⟨0, 3⟩ (by decide) (by decide) (by decide)⟩

/-- The greatest time of all has a level, but a profile has no answer. -/
theorem levelAt_overflow_last :
    ∃ p : TrackedProfile ℚ, replay #[2] #[1] [.insert 0 5] = .ok p ∧
      levelOf #[2] (#[1] : Array ℚ) (Move.placement [.insert 0 5]) greatestTime = 0 ∧
        p.levelAt greatestTime = .error .overflow := by
  have computed : (replay #[2] (#[1] : Array ℚ) [.insert 0 5]).Answers fun _ => True := by
    decide +kernel
  obtain ⟨p, reached, -⟩ := computed
  exact ⟨p, reached, (holds_of_replay (by decide) reached).levelOf_greatestTime,
    p.levelAt_greatestTime⟩

/-! ## Worst stretches -/

/-- **Worst stretches.**  After any moves let `peak` be the highest level in a range that is not empty.  If
it exceeds the tolerance, the worst stretch of the range starts at the first time of the range whose level
is within the tolerance of the peak, and ends at the first later time whose level is not, or at the end of
the range; otherwise it is the range itself. -/
theorem worst_stretch_after_moves (times : ∀ move ∈ moves, move.AtTime)
    (reached : replay durations weights moves = .ok p) (least : leastTime ≤ range.lo)
    (nonempty : range.lo < range.hi) (greatest : range.hi ≤ greatestTime) :
    ∃ peak, IsGreatest {level | ∃ time ∈ Set.Ico range.lo range.hi, p.levelAt time = .ok level} peak ∧
      (tolerance < peak → (p.maxLevelRange range).Answers (IsStretch
        (fun time => (p.levelAt time).Answers fun level => peak - tolerance ≤ level) range)) ∧
      (peak ≤ tolerance → p.maxLevelRange range = .ok range) := by
  have holds := holds_of_replay times reached
  -- The range ends at a time, so each of its own times has a next one.
  have levelAt : ∀ time, range.lo ≤ time → time < range.hi →
      p.levelAt time = .ok (levelOf durations weights (Move.placement moves) time) :=
    fun time lower upper => holds.levelAt (least.trans lower) (upper.trans_le greatest)
  obtain ⟨peak, found, highest⟩ := holds.maxLevelIn least greatest nonempty
  have isPeak : IsPeak (levelOf durations weights (Move.placement moves)) range peak := by
    unfold IsPeak
    rwa [if_pos nonempty]
  refine ⟨peak, ?_, fun _ => ?_, fun small => maxLevelRange_of_le found small⟩
  · have levels : {level | ∃ time ∈ Set.Ico range.lo range.hi, p.levelAt time = .ok level} =
        levelOf durations weights (Move.placement moves) '' Set.Ico range.lo range.hi := by
      ext level
      refine exists_congr fun time => and_congr_right fun within => ?_
      rw [levelAt time within.1 within.2, Except.ok.injEq]
    rwa [levels]
  · refine (holds.isStretch least greatest nonempty).imp fun s stretch => ?_
    refine stretch.congr fun time lower upper => (nearPeak_iff isPeak).trans ?_
    rw [levelAt time lower upper]
    exact ⟨fun near => .ok near, fun near => near.of_eq_ok rfl⟩

/-- A job that follows another one at once does not end the stretch on which both, one after the other, run
beside a third one. -/
theorem worst_stretch_after_moves_trio :
    ∃ (p : TrackedProfile ℚ) (peak : ℚ),
      replay #[3, 3, 6] #[1, 1, 1] [.insert 0 0, .insert 1 3, .insert 2 0] = .ok p ∧
        tolerance < peak ∧ p.maxLevelRange ⟨0, 10⟩ = .ok ⟨0, 6⟩ ∧ IsStretch
          (fun time => (p.levelAt time).Answers fun level => peak - tolerance ≤ level) ⟨0, 10⟩
            ⟨0, 6⟩ := by
  have computed : (replay #[3, 3, 6] (#[1, 1, 1] : Array ℚ)
      [.insert 0 0, .insert 1 3, .insert 2 0]).Answers fun p =>
        p.levelAt 0 = .ok 2 ∧ p.maxLevelRange ⟨0, 10⟩ = .ok ⟨0, 6⟩ := by
    decide +kernel
  obtain ⟨p, reached, two, answer⟩ := computed
  have least : leastTime ≤ (⟨0, 10⟩ : Span).lo := by decide
  obtain ⟨peak, highest, stretch, -⟩ := worst_stretch_after_moves (by decide) reached least
    (by decide) (by decide)
  have above : (2 : ℚ) ≤ peak := highest.2 ⟨0, ⟨le_rfl, by decide⟩, two⟩
  have large : (tolerance : ℚ) < peak := lt_of_lt_of_le (by decide +kernel) above
  exact ⟨p, peak, reached, large, answer, (stretch large).of_eq_ok answer⟩

end TrackedProfile

end Leveling
