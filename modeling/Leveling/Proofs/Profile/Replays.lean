import Leveling.Proofs.Profile.Tracked
import Mathlib.Data.List.Nodup

/-!
# Replayed moves

Any list of moves may be tried on a tracked profile in which no job is placed.  It goes through if and
only if each move is about a job, no job is placed that is placed already, and no job that changes the
level finishes after the greatest time.

What is known about the tree of a profile is that it is sorted and shaped, which changes it holds, and that
the arena represents it.  So the nodes that the links lead to are a search tree by event and a heap by
priority, they are those of the two events of each placed job that changes the level and no others, and
no two of them lie in the same slot.
-/

namespace Leveling

open Checked

/-! ## Moves that go through -/

namespace Move

/-- A job that is moved is moved to a time. -/
def AtTime : Move → Prop
  | .insert _ start | .reposition _ start => leastTime ≤ start ∧ start ≤ greatestTime
  | .remove _ => True

instance : DecidablePred AtTime
  | .insert _ start | .reposition _ start =>
    inferInstanceAs (Decidable (leastTime ≤ start ∧ start ≤ greatestTime))
  | .remove _ => inferInstanceAs (Decidable True)

/-- If only allowed moves can be performed, the moves of a list that is performed are allowed. -/
lemma allAllowed_of_foldlM {n : Nat} {Suits : Nat → Int → Prop} {β : Type}
    {perform : β → Move → Checked β} {R : (Nat → Option Int) → β → Prop}
    (step : ∀ {σ b b' move}, R σ b → move.AtTime → perform b move = .ok b' →
      move.Allowed n Suits σ ∧ R (move.place σ) b') :
    ∀ {moves : List Move} {σ : Nat → Option Int} {b b' : β}, (∀ move ∈ moves, move.AtTime) → R σ b →
      moves.foldlM perform b = .ok b' → AllAllowed n Suits σ moves := by
  intro moves
  induction moves with
  | nil => exact fun _ _ _ => trivial
  | cons move rest ih =>
    intro σ b b' times shown answer
    rw [List.foldlM_cons] at answer
    obtain ⟨next, first, others⟩ := bind_eq_ok.1 answer
    obtain ⟨allowed, shown⟩ := step shown (times move List.mem_cons_self) first
    exact ⟨allowed, ih (fun move' member => times move' (List.mem_cons_of_mem _ member)) shown others⟩

end Move

namespace TrackedProfile

variable {α : Type} [Scalar α] {durations : Array Int} {weights : Array α} {σ : Nat → Option Int}
  {p q : TrackedProfile α} {c : Change α} {e : Event} {v : Nat} {start : Int} {moves : List Move}
  {move : Move}

/-- The profile knows the start of each job. -/
lemma Holds.startOf (h : p.Holds durations weights σ) (hv : v < durations.size) :
    p.startOf v = .ok (σ v) := h.starts.fetch hv

/-- Only what has a start listed is a job. -/
lemma Holds.job_of_startOf (h : p.Holds durations weights σ) {listed : Option Int}
    (answer : p.startOf v = .ok listed) : v < durations.size := by
  unfold TrackedProfile.startOf at answer
  rw [← h.starts.size]
  exact (fetch_eq_ok_iff.1 answer).1

/-- If the changes of a job that starts at a time are computed, they happen at times. -/
lemma Holds.timed_of_changesOf (h : p.Holds durations weights σ) {cs : List (Change α)}
    (least : leastTime ≤ start) (greatest : start ≤ greatestTime)
    (answer : p.changesOf v start = .ok cs) : Timed durations weights v start := by
  intro c listed
  obtain ⟨weight, found, tracked, cases⟩ := mem_changes listed
  have hw := (Array.getElem?_eq_some_iff.1 found).1
  unfold TrackedProfile.changesOf at answer
  rw [h.durations_eq, h.weights_eq, fetch_valueAt (lt_of_lt_of_eq hw h.sizes.symm), ok_bind,
    fetch_of_getElem? found, ok_bind, if_pos tracked] at answer
  obtain ⟨finish, sum, -⟩ := bind_eq_ok.1 answer
  obtain rfl := asTime_eq_ok sum
  have upper := le_of_addTime sum
  rcases cases with rfl | rfl
  · exact ⟨least, greatest⟩
  · dsimp only
    omega

/-- A job is placed only if it is not placed yet, and where its changes happen at times. -/
lemma Holds.allowed_of_insert (h : p.Holds durations weights σ) (least : leastTime ≤ start)
    (greatest : start ≤ greatestTime) (answer : p.insert v start = .ok q) :
    v < durations.size ∧ σ v = none ∧ Timed durations weights v start := by
  unfold TrackedProfile.insert at answer
  obtain ⟨listed, known, answer⟩ := bind_eq_ok.1 answer
  have hv := h.job_of_startOf known
  obtain rfl := Except.ok.inj ((h.startOf hv).symm.trans known)
  cases placed : σ v with
  | some start' =>
    rw [placed] at answer
    cases answer
  | none =>
    rw [placed] at answer
    obtain ⟨starts, stored, answer⟩ := bind_eq_ok.1 answer
    obtain ⟨cs, computed, -⟩ := bind_eq_ok.1 answer
    exact ⟨hv, rfl, h.timed_of_changesOf least greatest computed⟩

/-- A move that is performed is allowed. -/
lemma Holds.allowed_of_perform (h : p.Holds durations weights σ) (atTime : move.AtTime)
    (answer : p.perform move = .ok q) :
    move.Allowed durations.size (Timed durations weights) σ := by
  cases move with
  | insert v start =>
    obtain ⟨hv, free, timed⟩ := h.allowed_of_insert atTime.1 atTime.2 answer
    exact .insert hv free timed
  | remove v =>
    have answer : p.remove v = .ok q := answer
    unfold TrackedProfile.remove at answer
    obtain ⟨listed, known, -⟩ := bind_eq_ok.1 answer
    exact .remove (h.job_of_startOf known)
  | reposition v start =>
    have answer : p.reposition v start = .ok q := answer
    unfold TrackedProfile.reposition at answer
    obtain ⟨listed, known, answer⟩ := bind_eq_ok.1 answer
    have hv := h.job_of_startOf known
    obtain rfl := Except.ok.inj ((h.startOf hv).symm.trans known)
    split at answer
    · rename_i there
      exact .reposition hv (h.timed v start there)
    · -- The job is taken out first, so it is free when it is placed again.
      obtain ⟨p', removed, inserted⟩ := bind_eq_ok.1 answer
      have h' := (h.remove hv).of_eq_ok removed
      exact .reposition hv (h'.allowed_of_insert atTime.1 atTime.2 inserted).2.2

/-- Moves that go through are allowed. -/
lemma allowed_of_replay (times : ∀ move ∈ moves, move.AtTime)
    (reached : replay durations weights moves = .ok p) : durations.size = weights.size ∧
      Move.AllAllowed durations.size (Timed durations weights) (fun _ => none) moves := by
  unfold replay at reached
  obtain ⟨start, made, performed⟩ := bind_eq_ok.1 reached
  have sizes : durations.size = weights.size := by
    by_contra differ
    unfold empty at made
    rw [if_neg differ] at made
    cases made
  refine ⟨sizes, Move.allAllowed_of_foldlM (R := fun σ p => p.Holds durations weights σ) ?_ times
    ((empty_answers sizes).of_eq_ok made) performed⟩
  intro σ p p' move h atTime answer
  have allowed := h.allowed_of_perform atTime answer
  exact ⟨allowed, (h.perform allowed).of_eq_ok answer⟩

/-- **Run.**  Moves that go through lead to the profile of the placement after them. -/
lemma holds_of_replay (times : ∀ move ∈ moves, move.AtTime)
    (reached : replay durations weights moves = .ok p) :
    p.Holds durations weights (Move.placement moves) := by
  obtain ⟨sizes, allowed⟩ := allowed_of_replay times reached
  exact (replay_answers sizes allowed).of_eq_ok reached

/-! ## Events -/

/-- The start and the finish of a placed job that changes the level. -/
def eventsOf (durations : Array Int) (weights : Array α) (σ : Nat → Option Int) (v : Nat) :
    List Event :=
  match σ v, weights[v]? with
  | some start, some weight =>
    if 0 < valueAt durations v ∧ 0 < weight then
      [⟨start, .start, v⟩, ⟨start + valueAt durations v, .finish, v⟩]
    else []
  | _, _ => []

/-- The events of a job are those of its changes. -/
lemma mem_eventsOf : e ∈ eventsOf durations weights σ v ↔
    ∃ start, σ v = some start ∧ ∃ c ∈ changes durations weights v start, c.event = e := by
  unfold eventsOf changes
  cases σ v with
  | none => simp
  | some start =>
    cases weights[v]? with
    | none => simp
    | some weight =>
      by_cases tracked : 0 < valueAt durations v ∧ 0 < weight
      · simp [tracked, eq_comm]
      · simp [tracked]

/-- The events of a job are about that job. -/
lemma job_of_mem_eventsOf (h : e ∈ eventsOf durations weights σ v) : e.job = v := by
  obtain ⟨start, -, c, listed, rfl⟩ := mem_eventsOf.1 h
  exact job_of_mem_changes listed

/-- The events of a job are different. -/
lemma nodup_eventsOf (durations : Array Int) (weights : Array α) (σ : Nat → Option Int) (v : Nat) :
    (eventsOf durations weights σ v).Nodup := by
  unfold eventsOf
  split
  · split
    · simp
    · exact List.nodup_nil
  · exact List.nodup_nil

/-- The events in a profile stand in order. -/
lemma Holds.events_sorted (h : p.Holds durations weights σ) : p.events.Pairwise (· < ·) := by
  rw [h.events_eq]
  exact List.pairwise_map.2 h.tree.sorted

/-- The events in a profile are those of the jobs, one job after the other. -/
lemma Holds.events_perm (h : p.Holds durations weights σ) : p.events.Perm
    ((List.range durations.size).flatMap (eventsOf durations weights σ)) := by
  refine (List.perm_ext_iff_of_nodup (h.events_sorted.imp ne_of_lt) ?_).2 fun e => ?_
  · refine List.nodup_flatMap.2 ⟨fun v _ => nodup_eventsOf durations weights σ v,
      List.nodup_range.imp fun {v w} ne => ?_⟩
    intro e inV inW
    exact ne ((job_of_mem_eventsOf inV).symm.trans (job_of_mem_eventsOf inW))
  · rw [h.events_eq, List.mem_map, List.mem_flatMap]
    constructor
    · rintro ⟨c, inside, rfl⟩
      obtain ⟨v, start, placed, listed⟩ := (h.tree.mem c).1 inside
      obtain ⟨weight, found, -⟩ := mem_changes listed
      refine ⟨v, List.mem_range.2 ?_, mem_eventsOf.2 ⟨start, placed, c, listed, rfl⟩⟩
      exact lt_of_lt_of_eq (Array.getElem?_eq_some_iff.1 found).1 h.sizes.symm
    · rintro ⟨v, -, member⟩
      obtain ⟨start, placed, c, listed, rfl⟩ := mem_eventsOf.1 member
      exact ⟨c, (h.tree.mem c).2 ⟨v, start, placed, listed⟩, rfl⟩

/-- **Events.**  Moves go through if and only if they are allowed.  After them the events of the profile
are, in order, the start and the finish of each placed job that changes the level, and the walk through the
arena comes to an end with them; the start of each job is that of its last placement, whether or not it
changes the level.  The nodes that paths through the arena lead to are those of the events, each of them in
the slot of its event and with the priority of that slot; they are a search tree by event and a heap by
priority in which no slot occurs twice. -/
theorem events_after_moves (times : ∀ move ∈ moves, move.AtTime) :
    ((∃ p, replay durations weights moves = .ok p) ↔ durations.size = weights.size ∧
      Move.AllAllowed durations.size (Timed durations weights) (fun _ => none) moves) ∧
    (replay durations weights moves).Ensures fun p =>
      (p.events.Pairwise (· < ·) ∧ p.events.Perm ((List.range durations.size).flatMap
        (eventsOf durations weights (Move.placement moves))) ∧ p.arena.events = .ok p.events) ∧
      (∀ v < durations.size, p.startOf v = .ok (Move.placement moves v)) ∧
      p.arena.IsTreap ∧
      (∀ e, e ∈ p.events ↔ ∃ path x, p.arena.slotAt path = some e.slot ∧
        p.arena.nodes[e.slot]? = some x ∧ x.change.event = e) ∧
      ∀ path slot, p.arena.slotAt path = some slot → ∃ x, p.arena.nodes[slot]? = some x ∧
        x.change.event.slot = slot ∧ x.priority = scramble slot.toUInt64 := by
  refine ⟨⟨fun ⟨p, reached⟩ => allowed_of_replay times reached, fun ⟨sizes, allowed⟩ => ?_⟩,
    fun p reached => ?_⟩
  · obtain ⟨p, answer, -⟩ := replay_answers sizes allowed
    exact ⟨p, answer⟩
  · have holds := holds_of_replay times reached
    refine ⟨⟨holds.events_sorted, holds.events_perm, ?_⟩, fun v hv => holds.startOf hv,
      holds.arena.isTreap holds.tree.sorted holds.tree.shaped, fun e => ?_, fun path slot at_end => ?_⟩
    · rw [holds.events_eq, holds.arena.events]
    · rw [holds.arena.exists_reached_iff, holds.events_eq, List.mem_map]
    · obtain ⟨c, s, l, r, -, rfl, found⟩ := holds.arena.exists_node at_end
      exact ⟨_, found, rfl, rfl⟩

/-- One job is taken out that is not placed, one never changes the level, and one is moved so that it
finishes with another one. -/
theorem events_after_moves_trio :
    ∃ p : TrackedProfile ℚ, replay #[2, 0, 3] #[1, 5, 4]
        [.remove 0, .insert 0 5, .insert 1 5, .insert 2 7, .reposition 2 4] = .ok p ∧
      p.events = [⟨4, .start, 2⟩, ⟨5, .start, 0⟩, ⟨7, .finish, 0⟩, ⟨7, .finish, 2⟩] ∧
      p.startOf 1 = .ok (some 5) ∧ p.arena.IsTreap := by
  have suits : ∀ v < 3, ∀ start < 8,
      Timed #[2, 0, 3] (#[1, 5, 4] : Array ℚ) v (start : Nat) := by
    unfold Timed
    decide +kernel
  have allowed : Move.AllAllowed 3 (Timed #[2, 0, 3] (#[1, 5, 4] : Array ℚ)) (fun _ => none)
      [.remove 0, .insert 0 5, .insert 1 5, .insert 2 7, .reposition 2 4] :=
    ⟨.remove (by decide), .insert (by decide) rfl (suits 0 (by decide) 5 (by decide)),
      .insert (by decide) rfl (suits 1 (by decide) 5 (by decide)),
      .insert (by decide) rfl (suits 2 (by decide) 7 (by decide)),
      .reposition (by decide) (suits 2 (by decide) 4 (by decide)), trivial⟩
  have times : ∀ move ∈ [Move.remove 0, .insert 0 5, .insert 1 5, .insert 2 7, .reposition 2 4],
      move.AtTime := by decide
  obtain ⟨goesThrough, ensures⟩ := @events_after_moves ℚ _ #[2, 0, 3] #[1, 5, 4] _ times
  obtain ⟨p, reached⟩ := goesThrough.2 ⟨rfl, allowed⟩
  obtain ⟨-, starts, treap, -, -⟩ := ensures p reached
  have events : (replay #[2, 0, 3] (#[1, 5, 4] : Array ℚ) [.remove 0, .insert 0 5, .insert 1 5,
      .insert 2 7, .reposition 2 4]).map events =
        .ok [⟨4, .start, 2⟩, ⟨5, .start, 0⟩, ⟨7, .finish, 0⟩, ⟨7, .finish, 2⟩] := by
    decide +kernel
  rw [reached] at events
  exact ⟨p, reached, Except.ok.inj events, starts 1 (by decide), treap⟩

end TrackedProfile

end Leveling
