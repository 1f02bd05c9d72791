import Leveling.Proofs.Bounds.Lazy
import Leveling.Proofs.Bounds.Queries
import Mathlib.Data.Int.LeastGreatest

/-!
# Arcs that may be inserted

A search inserts an arc only between two jobs that overlap inside its range, and only if the target
still fits in after the source.  These tests look at bounds that may be stale, but the bounds that
decide are not: the earliest starts of both jobs lie before the end of the range, and the latest
finish of the target lies behind its beginning because the source finishes behind it.  So no chain
of arcs leads back from the target to the source, there is no arc between them yet, and all jobs
have room after the insertion.

To see the latter, let all jobs to which a chain of arcs leads from the target start as late as they
can, and all others as early as they can: the old arcs are obeyed, and so is the new one.
-/

namespace Leveling

open Checked Network Relation

variable {F : Frame} {net net' : Network} {b : Bounds} {range : Span} {s t u v w : Nat} {lag : Int}
  {R : Nat → Nat → Int → Prop}

/-! ## One more arc -/

/-- A chain of arcs of which one may be new. -/
lemma transGen_withArc (chain : TransGen (Joined (withArc R s t lag)) u v) :
    TransGen (Joined R) u v ∨
      (ReflTransGen (Joined R) u s ∧ ReflTransGen (Joined R) t v) := by
  have cases_of : ∀ {u w}, Joined (withArc R s t lag) u w → Joined R u w ∨ (u = s ∧ w = t) := by
    rintro u w ⟨lag', old | ⟨rfl, rfl, -⟩⟩
    · exact .inl ⟨lag', old⟩
    · exact .inr ⟨rfl, rfl⟩
  induction chain with
  | single last =>
    rcases cases_of last with old | ⟨rfl, rfl⟩
    · exact .inl (.single old)
    · exact .inr ⟨.refl, .refl⟩
  | tail _ last ih =>
    rcases cases_of last with old | ⟨rfl, rfl⟩
    · rcases ih with direct | ⟨before, behind⟩
      · exact .inl (direct.tail old)
      · exact .inr ⟨before, behind.tail old⟩
    · rcases ih with direct | ⟨before, -⟩
      · exact .inr ⟨direct.to_reflTransGen, .refl⟩
      · exact .inr ⟨before, .refl⟩

/-- An arc closes no cycle if no chain of arcs leads back. -/
lemma Acyclic.withArc (acyclic : Acyclic R) (apart : ¬ReflTransGen (Joined R) t s) :
    Acyclic (withArc R s t lag) := by
  intro v cycle
  rcases transGen_withArc cycle with old | ⟨before, behind⟩
  · exact acyclic v old
  · exact apart (behind.trans before)

/-! ## Exact heights -/

/-- Each job has an exact height on both sides. -/
lemma Roomy.exists_longest (roomy : Roomy F net) (side : Side) (v : Nat) :
    ∃ x, IsLongest (net.Leads side) (F.floor side) v x := by
  have bounded : ∃ top, ∀ y, (∃ k len, Walk (net.Leads side) k v len ∧
      y = F.floor side k + len) → y ≤ top := by
    refine ⟨F.ceiling side v, ?_⟩
    rintro y ⟨k, len, walk, rfl⟩
    exact roomy.walk_le walk
  obtain ⟨x, attained, upper⟩ := Int.exists_greatest_of_bdd bounded ⟨_, v, 0, .nil, rfl⟩
  exact ⟨x, attained, fun y => upper y⟩

/-- A chain of arcs passes exact heights on, with the lag of its first arc. -/
lemma IsLongest.le_of_transGen {floor : Nat → Int} {x y : Int} (hx : IsLongest R floor u x)
    (hy : IsLongest R floor v y) (lags : ∀ {u w lag}, R u w lag → 0 ≤ lag)
    (chain : TransGen (Joined R) u v) : ∃ w lag, R u w lag ∧ x + lag ≤ y := by
  obtain ⟨w, ⟨lag, first⟩, rest⟩ := TransGen.head'_iff.1 chain
  have walk : ∃ len, 0 ≤ len ∧ Walk R w v len := by
    rcases reflTransGen_iff_eq_or_transGen.1 rest with rfl | rest
    · exact ⟨0, le_refl 0, .nil⟩
    · obtain ⟨len, walk⟩ := exists_walk rest
      exact ⟨len, walk.nonneg lags, walk⟩
  obtain ⟨len, nonneg, walk⟩ := walk
  obtain ⟨k, len', before, same⟩ := hx.1
  have far := hy.le (before.trans (walk.cons first))
  exact ⟨w, lag, first, by omega⟩

/-- The exact earliest start of a job is at most its exact latest start. -/
lemma Roomy.early_le_late (roomy : Roomy F net) {x y : Int}
    (early : IsLongest (net.Leads .early) (F.floor .early) v x)
    (late : IsLongest (net.Leads .late) (F.floor .late) v y) : x ≤ -y := by
  obtain ⟨k, len, walk, same⟩ := early.1
  obtain ⟨j, len', walk', same'⟩ := late.1
  have room := roomy.room (Walk.trans walk (walk_reversed.1 walk'))
  dsimp only [Frame.floor, Frame.height, Frame.limit] at same same'
  omega

/-- All arcs are obeyed if some jobs and all jobs behind them start as late as they can, and the others
as early as they can. -/
lemma Roomy.exists_starts (roomy : Roomy F net) (behind : Nat → Prop)
    (closed : ∀ {u w}, Joined net.HasArc u w → behind u → behind w) : ∃ start : Nat → Int,
      (∀ v, F.floor .early v ≤ start v ∧ start v ≤ -F.floor .late v) ∧
      (∀ {u w lag}, net.HasArc u w lag → start u + lag ≤ start w) ∧
      (∀ v, behind v → IsLongest (net.Leads .late) (F.floor .late) v (-start v)) ∧
      ∀ v, ¬behind v → IsLongest (net.Leads .early) (F.floor .early) v (start v) := by
  classical
  choose early early_longest using roomy.exists_longest .early
  choose late late_longest using roomy.exists_longest .late
  have early_tight := fun v => isTight_of_longest (D := fun _ => True) (fun _ _ => trivial)
    (fun v _ => early_longest v) (v := v) trivial
  have late_tight := fun v => isTight_of_longest (D := fun _ => True) (fun _ _ => trivial)
    (fun v _ => late_longest v) (v := v) trivial
  have between : ∀ v, early v ≤ -late v := fun v =>
    roomy.early_le_late (early_longest v) (late_longest v)
  refine ⟨fun v => if behind v then -late v else early v, fun v => ?_, fun {u w lag} arc => ?_,
    fun v hv => ?_, fun v hv => ?_⟩
  · have lower := (early_longest v).le .nil
    have upper := (late_longest v).le .nil
    have between := between v
    dsimp only
    split <;> omega
  · have between := between w
    dsimp only
    by_cases hu : behind u
    · have leads : net.Leads .late w u lag := arc
      have late_arc := (late_tight u).le leads
      rw [if_pos hu, if_pos (closed ⟨lag, arc⟩ hu)]
      omega
    · have leads : net.Leads .early u w lag := arc
      have early_arc := (early_tight w).le leads
      rw [if_neg hu]
      split <;> omega
  · dsimp only
    rw [if_pos hv, neg_neg]
    exact late_longest v
  · dsimp only
    rw [if_neg hv]
    exact early_longest v

/-- If all jobs have starts that obey the arcs, no walk demands too much. -/
lemma room_of_starts {start : Nat → Int}
    (inside : ∀ v, F.floor .early v ≤ start v ∧ start v ≤ -F.floor .late v)
    (arcs : ∀ {u w lag}, R u w lag → start u + lag ≤ start w) {k : Nat} {len : Int}
    (walk : Walk R k v len) :
    valueAt F.releases k + len + valueAt F.durations v ≤ valueAt F.deadlines v := by
  have reached := walk.le_of_arcs (fun k => (inside k).1) arcs
  have upper := (inside v).2
  dsimp only [Frame.floor, Frame.height, Frame.limit] at reached upper
  omega

/-! ## Admission -/

/-- The tests that an arc passes before it is inserted. -/
structure Admitted (F : Frame) (b : Bounds) (range : Span) (s t : Nat) : Prop where
  source_lt : s < F.size
  target_lt : t < F.size
  ne : s ≠ t
  overlap : valueAt b.early.value t < valueAt b.early.value s + valueAt F.durations s ∧
    valueAt b.early.value s < valueAt b.early.value t + valueAt F.durations t
  source : valueAt b.early.value s < range.hi ∧
    range.lo < valueAt b.early.value s + valueAt F.durations s
  target : valueAt b.early.value t < range.hi ∧
    range.lo < valueAt b.early.value t + valueAt F.durations t
  fits : valueAt b.early.value s + valueAt F.durations s + valueAt F.durations t ≤
    valueAt b.late.value t

section

variable (h : Consistent F (Session.veil F range) net b)
  (lags : ∀ {u w lag}, net.HasArc u w lag → valueAt F.durations u ≤ lag)

include h lags

/-- A bound that does not lie beyond the range is exact. -/
lemma Consistent.isLongest {side : Side}
    (seen : side.isBeyond range (valueAt (b.table side).value v) = false) :
    IsLongest (net.Leads side) (F.floor side) v (F.heights side (b.table side).value v) := by
  refine (h.settled side).isLongest_of_seen
    (Session.veil_of_lags range side h.roomy lags) fun isHidden => ?_
  unfold Session.veil Beyond Frame.heights at isHidden
  rw [Frame.boundOf_height, seen] at isHidden
  cases isHidden

/-- An earliest start before the end of the range is exact. -/
lemma Consistent.isLongest_early (before : valueAt b.early.value v < range.hi) :
    IsLongest net.HasArc (F.floor .early) v (valueAt b.early.value v) :=
  have seen : Side.early.isBeyond range (valueAt (b.table .early).value v) = false :=
    decide_eq_false (not_le.2 before)
  h.isLongest lags seen

/-- A latest finish behind the beginning of the range is exact. -/
lemma Consistent.isLongest_late (behind : range.lo < valueAt b.late.value v) :
    IsLongest (net.Leads .late) (F.floor .late) v (F.heights .late b.late.value v) :=
  have seen : Side.late.isBeyond range (valueAt (b.table .late).value v) = false :=
    decide_eq_false (not_le.2 behind)
  h.isLongest lags seen

/-- No chain of arcs leads from a job to another one that starts before the first one finishes, if both
start before the end of the range. -/
lemma Consistent.not_chained (hu : valueAt b.early.value u < range.hi)
    (hv : valueAt b.early.value v < range.hi)
    (overlap : valueAt b.early.value v < valueAt b.early.value u + valueAt F.durations u) :
    ¬TransGen (Joined net.HasArc) u v := by
  intro chain
  obtain ⟨w, lag, first, far⟩ := (h.isLongest_early lags hu).le_of_transGen
    (h.isLongest_early lags hv) h.roomy.nonneg chain
  have long := lags first
  omega

/-- **Admission.**  No chain of arcs joins the ends of an admitted arc, in either direction. -/
lemma Admitted.unordered (admitted : Admitted F b range s t) : Unordered net.HasArc s t :=
  unordered_iff.2 ⟨admitted.ne,
    h.not_chained lags admitted.source.1 admitted.target.1 admitted.overlap.1,
    h.not_chained lags admitted.target.1 admitted.source.1 admitted.overlap.2⟩

/-- All jobs have room after an admitted arc was inserted. -/
lemma Admitted.roomy (admitted : Admitted F b range s t)
    (inserted : net.Inserted s t (valueAt F.durations s) false net') : Roomy F net' := by
  have apart := (admitted.unordered h lags).2
  obtain ⟨start, within, old, late, early⟩ := h.roomy.exists_starts
    (ReflTransGen (Joined net.HasArc) t) fun arc chain => chain.tail arc
  have new : start s + valueAt F.durations s ≤ start t := by
    have fits := admitted.fits
    have source := (early s apart).unique (h.isLongest_early lags admitted.source.1)
    have target := (late t .refl).unique (h.isLongest_late lags (by
      have first := admitted.source.2
      have duration := F.duration_nonneg t
      omega))
    dsimp only [Frame.heights, Frame.height] at target
    omega
  refine ⟨inserted.linked, inserted.numJobs.trans h.roomy.size, ?_, fun {u w lag} arc => ?_,
    room_of_starts within fun {u w lag} arc => ?_⟩
  · rw [Draft.hasArc_inserted inserted]
    exact h.roomy.acyclic.withArc apart
  · rcases inserted.hasArc_iff.1 arc with old | ⟨-, -, rfl⟩
    · exact h.roomy.nonneg old
    · exact F.duration_nonneg s
  · rcases inserted.hasArc_iff.1 arc with oldArc | ⟨rfl, rfl, rfl⟩
    · exact old oldArc
    · exact new

end

end Leveling
