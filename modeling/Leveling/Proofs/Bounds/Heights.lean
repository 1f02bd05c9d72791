import Leveling.Bounds.Tighten
import Leveling.Proofs.Answers

/-!
# Bounds as heights

The bounds of both sides become the same thing when they are measured as *heights*.  On the
early side the height of a bound is the bound itself, on the late side it is the latest start
that the bound leaves, with the opposite sign.  A tighter bound is a higher one, a bound that
travels over an arc gains the lag of the arc, and a job has room as long as the height stays
below a *ceiling*.

The checked arithmetic of a step answers as long as the heights stay between the floors, which
belong to the limits, and the ceilings.  Only a bound of the late side can leave the range of
times on its way, namely when the source of an arc lasts longer than its lag.  Without regard to
the ceilings it answers for the heights for which there is *time*, and for no other ones.
-/

namespace Leveling

open Checked

/-- The entry at a position, or zero. -/
def valueAt (xs : Array Int) (v : Nat) : Int := xs.getD v 0

/-- A fetch inside the list. -/
lemma fetch_valueAt {xs : Array Int} {v : Nat} (h : v < xs.size) :
    fetch xs v = .ok (valueAt xs v) := by
  rw [fetch_of_lt h, valueAt, Array.getD_eq_getD_getElem?, Array.getElem?_eq_getElem h]
  rfl

/-- A fetch that answers reads the entry at the position. -/
lemma valueAt_of_fetch {xs : Array Int} {i : Nat} {x : Int} (h : fetch xs i = .ok x) :
    i < xs.size ∧ x = valueAt xs i := by
  obtain ⟨inside, rfl⟩ := fetch_eq_ok_iff.1 h
  have same := fetch_valueAt inside
  rw [h] at same
  exact ⟨inside, Except.ok.inj same⟩

/-- The entries after one of them was replaced. -/
lemma valueAt_set {xs : Array Int} {w : Nat} (h : w < xs.size) (x : Int) (v : Nat) :
    valueAt (xs.set w x h) v = if v = w then x else valueAt xs v := by
  unfold valueAt
  rw [Array.getD_eq_getD_getElem?, Array.getD_eq_getD_getElem?, Array.getElem?_set]
  by_cases same : v = w
  · rw [if_pos same.symm, if_pos same]
    rfl
  · rw [if_neg (Ne.symm same), if_neg same]

/-- There is nothing behind the end of a list. -/
lemma valueAt_of_le {xs : Array Int} {v : Nat} (h : xs.size ≤ v) : valueAt xs v = 0 := by
  rw [valueAt, Array.getD_eq_getD_getElem?, Array.getElem?_eq_none h]
  rfl

/-- Lists of the same length with the same entries are the same. -/
lemma ext_of_valueAt {xs ys : Array Int} (size : xs.size = ys.size)
    (entry : ∀ v < xs.size, valueAt xs v = valueAt ys v) : xs = ys := by
  refine Array.ext size fun v hx hy => ?_
  have := entry v hx
  unfold valueAt at this
  rwa [Array.getD_eq_getD_getElem?, Array.getD_eq_getD_getElem?, Array.getElem?_eq_getElem hx,
    Array.getElem?_eq_getElem hy] at this

namespace Bounds

variable {b : Bounds} {side side' : Side}

/-- The replaced table. -/
@[simp] lemma table_withTable (b : Bounds) (side : Side) (table : BoundTable) :
    (b.withTable side table).table side = table := by
  cases side <;> rfl

/-- The other table stays. -/
lemma table_withTable_of_ne (h : side' ≠ side) (table : BoundTable) :
    (b.withTable side table).table side' = b.table side' := by
  cases side <;> cases side' <;> first | rfl | exact absurd rfl h

end Bounds

/-- The durations and the windows of the jobs, as an instance has them that is well formed. -/
structure Frame where
  durations : Array Int
  releases : Array Int
  deadlines : Array Int
  size_releases : releases.size = durations.size
  size_deadlines : deadlines.size = durations.size
  duration_nonneg : ∀ v, 0 ≤ valueAt durations v
  release_nonneg : ∀ v, 0 ≤ valueAt releases v
  room : ∀ v, valueAt releases v + valueAt durations v ≤ valueAt deadlines v
  deadline_le : ∀ v, valueAt deadlines v ≤ greatestTime

/-- The start that a height stands for. -/
def Side.startOf (side : Side) (height : Int) : Int :=
  match side with
  | .early => height
  | .late => -height

namespace Frame

variable {F : Frame} {side : Side} {u v w : Nat} {a b h lag : Int}

/-- The number of jobs. -/
def size (F : Frame) : Nat := F.durations.size

/-- The loosest bounds of a side. -/
def limit (F : Frame) : Side → Array Int
  | .early => F.releases
  | .late => F.deadlines

/-- The height of a bound of job `v`. -/
def height (F : Frame) (side : Side) (v : Nat) (bound : Int) : Int :=
  match side with
  | .early => bound
  | .late => valueAt F.durations v - bound

/-- The bound of job `v` that has a given height. -/
def boundOf (F : Frame) (side : Side) (v : Nat) (height : Int) : Int :=
  match side with
  | .early => height
  | .late => valueAt F.durations v - height

/-- The height of the loosest bound of job `v`. -/
def floor (F : Frame) (side : Side) (v : Nat) : Int :=
  F.height side v (valueAt (F.limit side) v)

/-- The height above which job `v` has no room. -/
def ceiling (F : Frame) (side : Side) (v : Nat) : Int :=
  match side with
  | .early => valueAt F.deadlines v - valueAt F.durations v
  | .late => -valueAt F.releases v

/-- The heights of a list of bounds. -/
def heights (F : Frame) (side : Side) (value : Array Int) (v : Nat) : Int :=
  F.height side v (valueAt value v)

/-- Each limit has as many entries as there are jobs. -/
lemma size_limit (F : Frame) (side : Side) : (F.limit side).size = F.size := by
  cases side with
  | early => exact F.size_releases
  | late => exact F.size_deadlines

/-- The bound of a height has this height. -/
@[simp] lemma height_boundOf : F.height side v (F.boundOf side v h) = h := by
  cases side with
  | early => rfl
  | late =>
    dsimp only [height, boundOf]
    omega

/-- The height of a bound belongs to this bound. -/
@[simp] lemma boundOf_height : F.boundOf side v (F.height side v b) = b := by
  cases side with
  | early => rfl
  | late =>
    dsimp only [height, boundOf]
    omega

/-- A bound is tighter if it is higher. -/
lemma isTighter_iff (F : Frame) (v : Nat) :
    side.isTighter a b = true ↔ F.height side v b < F.height side v a := by
  cases side with
  | early => exact decide_eq_true_iff
  | late =>
    rw [Side.isTighter, decide_eq_true_iff]
    dsimp only [height]
    omega

/-- The height of the tighter one of two bounds. -/
lemma height_tighter (F : Frame) (v : Nat) :
    F.height side v (side.tighter a b) = max (F.height side v a) (F.height side v b) := by
  cases side with
  | early => rfl
  | late =>
    dsimp only [height, Side.tighter]
    omega

/-- A higher bound lies beyond a range if a lower one does. -/
lemma isBeyond_mono {range : Span} (le : F.height side v a ≤ F.height side v b)
    (beyond : side.isBeyond range a = true) : side.isBeyond range b = true := by
  cases side with
  | early =>
    dsimp only [height] at le
    simp only [Side.isBeyond, decide_eq_true_eq] at beyond ⊢
    omega
  | late =>
    dsimp only [height] at le
    simp only [Side.isBeyond, decide_eq_true_eq] at beyond ⊢
    omega

/-! ## The arithmetic of a step -/

/-- The start that a height stands for is a time if the height is between a floor and a ceiling. -/
lemma leastTime_le_startOf (lower : F.floor side u ≤ h) (upper : h ≤ F.ceiling side w) :
    leastTime ≤ side.startOf h := by
  have release := F.release_nonneg u
  have release' := F.release_nonneg w
  unfold leastTime
  cases side with
  | early =>
    dsimp only [floor, height, limit, Side.startOf] at lower ⊢
    omega
  | late =>
    dsimp only [ceiling, Side.startOf] at upper ⊢
    omega

/-- The start of a job, from a bound that is above the floor, if this start is a time. -/
lemma origin_of_leastTime_le (least : leastTime ≤ side.startOf (F.height side v b)) (hv : v < F.size)
    (lower : F.floor side v ≤ F.height side v b) :
    side.origin F.durations v b = .ok (side.startOf (F.height side v b)) := by
  cases side with
  | early => rfl
  | late =>
    have deadline := F.deadline_le v
    have duration := F.duration_nonneg v
    dsimp only [floor, height, limit, Side.startOf] at lower least ⊢
    unfold Side.origin
    rw [fetch_valueAt hv, ok_bind, subTime_of_mem (by omega) (by omega)]
    exact congrArg Except.ok (by omega)

/-- The start of a job, from a bound that is between the floor and the ceiling. -/
lemma origin_eq (hv : v < F.size) (lower : F.floor side v ≤ F.height side v b)
    (upper : F.height side v b ≤ F.ceiling side v) :
    side.origin F.durations v b = .ok (side.startOf (F.height side v b)) :=
  origin_of_leastTime_le (leastTime_le_startOf lower upper) hv lower

/-- The start of a job, unless it leaves the range of times. -/
lemma origin_eq_or (hv : v < F.size) (b : Int) :
    side.origin F.durations v b = .ok (side.startOf (F.height side v b)) ∨
      side.origin F.durations v b = .error .overflow := by
  cases side with
  | early => exact .inl rfl
  | late =>
    have same : b - valueAt F.durations v = Side.late.startOf (F.height .late v b) := by
      dsimp only [Side.startOf, height]
      omega
    unfold Side.origin
    rw [fetch_valueAt hv, ok_bind, ← same]
    exact asTime_eq_or _

/-- The start that a bound stands for, if it is a time. -/
lemma origin_eq_ok {start : Int} (answer : side.origin F.durations v b = .ok start) :
    start = side.startOf (F.height side v b) := by
  cases side with
  | early => exact (Except.ok.inj answer).symm
  | late =>
    obtain ⟨duration, fetched, difference⟩ := Checked.bind_eq_ok.1 answer
    obtain ⟨-, rfl⟩ := valueAt_of_fetch fetched
    rw [subTime_eq_ok difference]
    dsimp only [Side.startOf, height]
    omega

/-- The start that a height stands for and the bound of job `w` with this height are in the range of times. -/
def InTime (F : Frame) (side : Side) (w : Nat) (h : Int) : Prop :=
  leastTime ≤ side.startOf h ∧ F.boundOf side w h ≤ greatestTime

/-- The start of a job, if there is time for an arc from there. -/
lemma InTime.origin (inTime : F.InTime side w (F.height side v b + lag)) (hv : v < F.size)
    (lower : F.floor side v ≤ F.height side v b) (nonneg : 0 ≤ lag) :
    side.origin F.durations v b = .ok (side.startOf (F.height side v b)) := by
  cases side with
  | early => rfl
  | late =>
    refine origin_of_leastTime_le (Int.le_trans inTime.1 ?_) hv lower
    dsimp only [Side.startOf]
    omega

/-- The bound that a job gets over an arc, unless it leaves the range of times. -/
lemma carry_eq_or (hw : w < F.size) (h lag : Int) :
    side.carry F.durations (side.startOf h) lag w = .ok (F.boundOf side w (h + lag)) ∨
      side.carry F.durations (side.startOf h) lag w = .error .overflow := by
  cases side with
  | early => exact asTime_eq_or _
  | late =>
    have same : -h - lag + valueAt F.durations w = F.boundOf .late w (h + lag) := by
      dsimp only [boundOf]
      omega
    dsimp only [Side.carry, Side.startOf]
    unfold subTime
    rcases asTime_eq_or (-h - lag) with answer | stops
    · rw [answer, ok_bind, fetch_valueAt hw, ok_bind, ← same]
      exact asTime_eq_or _
    · rw [stops]
      exact .inr rfl

/-- The bound that an arc demands, if it is a time. -/
lemma carry_eq_ok {bound : Int}
    (answer : side.carry F.durations (side.startOf h) lag w = .ok bound) :
    F.height side w bound = h + lag ∧ bound ≤ greatestTime := by
  cases side with
  | early => exact ⟨addTime_eq_ok answer, le_of_addTime answer⟩
  | late =>
    obtain ⟨start, difference, h₁⟩ := Checked.bind_eq_ok.1 answer
    obtain ⟨duration, fetched, sum⟩ := Checked.bind_eq_ok.1 h₁
    obtain ⟨-, rfl⟩ := valueAt_of_fetch fetched
    have exact_start := subTime_eq_ok difference
    have exact_sum := addTime_eq_ok sum
    refine ⟨?_, le_of_addTime sum⟩
    dsimp only [Side.startOf, height] at exact_start ⊢
    omega

/-- The bound that a job gets over an arc if there is time for it. -/
lemma InTime.carry (inTime : F.InTime side w (h + lag)) (hw : w < F.size) (lower : F.floor side u ≤ h)
    (nonneg : 0 ≤ lag) :
    side.carry F.durations (side.startOf h) lag w = .ok (F.boundOf side w (h + lag)) := by
  obtain ⟨least, greatest⟩ := inTime
  cases side with
  | early => exact addTime_of_mem least greatest
  | late =>
    have duration := F.duration_nonneg u
    have duration' := F.duration_nonneg w
    have deadline := F.deadline_le u
    dsimp only [floor, height, limit, boundOf, Side.startOf] at lower least greatest
    dsimp only [Side.carry, Side.startOf, boundOf]
    rw [subTime_of_mem (by omega) (by omega), ok_bind, fetch_valueAt hw, ok_bind,
      addTime_of_mem (by omega) (by omega)]
    exact congrArg Except.ok (by omega)

/-- A bound for which there is no time is an overflow. -/
lemma carry_of_not_inTime (late : ¬F.InTime side w (h + lag)) (hw : w < F.size) :
    side.carry F.durations (side.startOf h) lag w = .error .overflow := by
  refine (carry_eq_or hw h lag).resolve_left fun answer => late ⟨?_, (carry_eq_ok answer).2⟩
  cases side with
  | early => exact (mem_of_asTime answer).1
  | late =>
    obtain ⟨start, difference, -⟩ := Checked.bind_eq_ok.1 answer
    have least := (mem_of_asTime difference).1
    dsimp only [Side.startOf] at least ⊢
    omega

/-- The bound that a job gets over an arc, if it has room with it and is a time. -/
lemma carry_eq (hw : w < F.size) (lower : F.floor side u ≤ h) (nonneg : 0 ≤ lag)
    (upper : h + lag ≤ F.ceiling side w) (fits : F.boundOf side w (h + lag) ≤ greatestTime) :
    side.carry F.durations (side.startOf h) lag w = .ok (F.boundOf side w (h + lag)) := by
  have least := leastTime_le_startOf (Int.le_trans lower (Int.le_add_of_nonneg_right nonneg)) upper
  exact InTime.carry ⟨least, fits⟩ hw lower nonneg

/-- A floor and the ceiling above it are no further apart than the window of the job. -/
lemma ceiling_sub_floor (F : Frame) (side : Side) (v : Nat) :
    F.ceiling side v - F.floor side v =
      valueAt F.deadlines v - valueAt F.durations v - valueAt F.releases v := by
  cases side with
  | early => rfl
  | late =>
    dsimp only [floor, height, limit, ceiling]
    omega

/-- A bound of the early side that leaves room is a time. -/
lemma fits_early (upper : h ≤ F.ceiling .early w) : F.boundOf .early w h ≤ greatestTime := by
  have deadline := F.deadline_le w
  have duration := F.duration_nonneg w
  dsimp only [ceiling, boundOf] at upper ⊢
  omega

/-- A bound between the floor and the ceiling leaves room. -/
lemma checkRoom_eq (hw : w < F.size) (lower : F.floor side w ≤ F.height side w b)
    (upper : F.height side w b ≤ F.ceiling side w) :
    side.checkRoom F.durations (F.limit side.opposite) w b = .ok () := by
  cases side with
  | early =>
    have hw' : w < F.deadlines.size := lt_of_lt_of_eq hw F.size_deadlines.symm
    have release := F.release_nonneg w
    have deadline := F.deadline_le w
    have duration := F.duration_nonneg w
    dsimp only [floor, height, limit, ceiling] at lower upper
    unfold Side.checkRoom
    dsimp only [Side.opposite, limit]
    rw [fetch_valueAt hw, ok_bind, addTime_of_mem (by unfold leastTime; omega) (by omega), ok_bind,
      fetch_valueAt hw', ok_bind, if_pos (by omega)]
    rfl
  | late =>
    have hw' : w < F.releases.size := lt_of_lt_of_eq hw F.size_releases.symm
    have release := F.release_nonneg w
    have deadline := F.deadline_le w
    have duration := F.duration_nonneg w
    dsimp only [floor, height, limit, ceiling] at lower upper
    unfold Side.checkRoom
    dsimp only [Side.opposite, limit]
    rw [fetch_valueAt hw, ok_bind, subTime_of_mem (by unfold leastTime; omega) (by omega), ok_bind,
      fetch_valueAt hw', ok_bind, if_pos (by omega)]
    rfl

end Frame

end Leveling
