import Leveling.Proofs.Exact
import Leveling.Proofs.Bounds.Heights
import Leveling.Proofs.Profile.Moves
import Leveling.Proofs.Profile.Paths
import Leveling.Profile.Tracked

/-!
# What a tracked profile holds

The events in the tree of a tracked profile are those of the placed jobs that change the level, and
nothing else of the past is left in it: the tree is sorted and shaped, so the placement alone decides
what it is, down to the summaries in its nodes.  The operations on scalars may be any.
-/

namespace Leveling

open Checked

namespace TrackedProfile

variable {α : Type} [Scalar α] {durations : Array Int} {weights : Array α} {σ : Nat → Option Int}
  {p q : TrackedProfile α} {t : EventTree α} {c : Change α} {v : Nat} {start : Int}

/-! ## The changes of a job -/

/-- The two changes of a job that starts at `start`, or none if the job never changes the level. -/
def changes (durations : Array Int) (weights : Array α) (v : Nat) (start : Int) :
    List (Change α) :=
  match weights[v]? with
  | none => []
  | some weight =>
    if 0 < valueAt durations v ∧ 0 < weight then
      [⟨⟨start, .start, v⟩, weight⟩, ⟨⟨start + valueAt durations v, .finish, v⟩, -weight⟩]
    else []

/-- The changes of a job happen at times. -/
def Timed (durations : Array Int) (weights : Array α) (v : Nat) (start : Int) : Prop :=
  ∀ c ∈ changes durations weights v start,
    leastTime ≤ c.event.time ∧ c.event.time ≤ greatestTime

/-- Only a job with a duration has changes, where it starts and where it finishes. -/
lemma mem_changes (h : c ∈ changes durations weights v start) : ∃ weight, weights[v]? = some weight ∧
    (0 < valueAt durations v ∧ 0 < weight) ∧ (c = ⟨⟨start, .start, v⟩, weight⟩ ∨
      c = ⟨⟨start + valueAt durations v, .finish, v⟩, -weight⟩) := by
  unfold changes at h
  split at h
  · cases h
  · rename_i weight found
    split at h
    · rename_i tracked
      rcases List.mem_cons.1 h with rfl | h
      · exact ⟨weight, found, tracked, .inl rfl⟩
      · rw [List.mem_singleton] at h
        exact ⟨weight, found, tracked, .inr h⟩
    · cases h

/-- The two changes of a job that changes the level. -/
lemma changes_of_tracked {weight : α} (start : Int) (found : weights[v]? = some weight)
    (tracked : 0 < valueAt durations v ∧ 0 < weight) : changes durations weights v start =
      [⟨⟨start, .start, v⟩, weight⟩, ⟨⟨start + valueAt durations v, .finish, v⟩, -weight⟩] := by
  unfold changes
  rw [found]
  exact if_pos tracked

/-- The changes of a job are about that job. -/
lemma job_of_mem_changes (h : c ∈ changes durations weights v start) : c.event.job = v := by
  obtain ⟨weight, -, -, rfl | rfl⟩ := mem_changes h <;> rfl

/-- The slots of a job are those of its two kinds of events. -/
lemma slot_lt_of_mem_changes {n : Nat} (h : c ∈ changes durations weights v start) (hv : v < n) :
    c.event.slot < 2 * n := by
  obtain ⟨weight, -, -, rfl | rfl⟩ := mem_changes h <;>
  · dsimp only [Event.slot]
    omega

/-- Wherever a job starts, it has changes in the same slots. -/
lemma exists_mem_changes (h : c ∈ changes durations weights v start) (start' : Int) :
    ∃ d ∈ changes durations weights v start', d.event.slot = c.event.slot := by
  obtain ⟨weight, found, tracked, rfl | rfl⟩ := mem_changes h <;> rw [changes_of_tracked start' found tracked]
  · exact ⟨_, List.mem_cons_self, rfl⟩
  · exact ⟨_, List.mem_cons_of_mem _ List.mem_cons_self, rfl⟩

/-- The changes of a job have different slots. -/
lemma nodup_slots_changes (durations : Array Int) (weights : Array α) (v : Nat) (start : Int) :
    ((changes durations weights v start).map fun c => c.event.slot).Nodup := by
  unfold changes
  split
  · exact List.nodup_nil
  · split
    · simp [Event.slot]
    · exact List.nodup_nil

/-- The changes of a job have different events. -/
lemma nodup_changes (durations : Array Int) (weights : Array α) (v : Nat) (start : Int) :
    ((changes durations weights v start).map Change.event).Nodup := by
  unfold changes
  split
  · exact List.nodup_nil
  · split
    · simp
    · exact List.nodup_nil

/-! ## Placements in trees -/

/-- The tree holds the changes of the placed jobs. -/
structure Records (durations : Array Int) (weights : Array α) (σ : Nat → Option Int)
    (t : EventTree α) : Prop where
  shaped : t.Shaped
  sorted : t.Sorted
  mem : ∀ c, c ∈ t.toList ↔ ∃ v start, σ v = some start ∧ c ∈ changes durations weights v start

/-- There is one tree only for a placement. -/
lemma Records.ext {u : EventTree α} (h : Records durations weights σ t)
    (h' : Records durations weights σ u) : t = u :=
  h.shaped.ext_of_mem h'.shaped h.sorted h'.sorted fun c => (h.mem c).trans (h'.mem c).symm

/-- The tree in which no job is placed. -/
lemma records_leaf : Records durations weights (fun _ => none) (.leaf : EventTree α) where
  shaped := trivial
  sorted := .nil
  mem c := by
    refine iff_of_false List.not_mem_nil ?_
    rintro ⟨v, start, placed, -⟩
    cases placed

/-- Insertions at new events add the listed changes. -/
lemma foldl_insert {changes : List (Change α)} (distinct : (changes.map Change.event).Nodup) :
    ∀ {t : EventTree α}, t.Shaped → t.Sorted →
      (∀ c ∈ changes, ∀ d ∈ t.toList, d.event ≠ c.event) →
        (changes.foldl EventTree.insert t).Shaped ∧ (changes.foldl EventTree.insert t).Sorted ∧
          ∀ d, d ∈ (changes.foldl EventTree.insert t).toList ↔ d ∈ changes ∨ d ∈ t.toList := by
  induction changes with
  | nil => exact fun shaped sorted _ => ⟨shaped, sorted, fun d => by simp⟩
  | cons c rest ih =>
    intro t shaped sorted fresh
    obtain ⟨first, distinct⟩ := List.nodup_cons.1 distinct
    have fresh' : ∀ d ∈ rest, ∀ e ∈ (t.insert c).toList, e.event ≠ d.event := by
      intro d member e inside
      rcases EventTree.mem_insert.1 inside with rfl | old
      · exact fun same => first (List.mem_map.2 ⟨d, member, same.symm⟩)
      · exact fresh d (List.mem_cons_of_mem _ member) e old
    obtain ⟨shaped', sorted', mem⟩ := ih distinct (shaped.insert c)
      (sorted.insert (fresh c List.mem_cons_self)) fresh'
    refine ⟨shaped', sorted', fun d => (mem d).trans ?_⟩
    rw [EventTree.mem_insert, List.mem_cons]
    tauto

/-- Erasures take away the changes at the listed events. -/
lemma foldl_erase (changes : List (Change α)) : ∀ {t : EventTree α}, t.Shaped → t.Sorted →
    (changes.foldl (fun t c => t.erase c.event) t).Shaped ∧
      (changes.foldl (fun t c => t.erase c.event) t).Sorted ∧
        ∀ d, d ∈ (changes.foldl (fun t c => t.erase c.event) t).toList ↔
          d ∈ t.toList ∧ ∀ c ∈ changes, d.event ≠ c.event := by
  induction changes with
  | nil => exact fun shaped sorted => ⟨shaped, sorted, fun d => by simp⟩
  | cons c rest ih =>
    intro t shaped sorted
    obtain ⟨shaped', sorted', mem⟩ := ih (shaped.erase c.event) (sorted.erase c.event)
    refine ⟨shaped', sorted', fun d => (mem d).trans ?_⟩
    rw [EventTree.mem_erase sorted, List.forall_mem_cons, and_assoc]

/-- A job that is not placed is placed. -/
lemma Records.insert (h : Records durations weights σ t) (free : σ v = none) (start : Int) :
    Records durations weights (Function.update σ v (some start))
      ((changes durations weights v start).foldl EventTree.insert t) := by
  have others : ∀ c ∈ t.toList, c.event.job ≠ v := by
    rintro c member rfl
    obtain ⟨w, start', placed, listed⟩ := (h.mem c).1 member
    rw [job_of_mem_changes listed, placed] at free
    cases free
  obtain ⟨shaped, sorted, mem⟩ := foldl_insert (nodup_changes durations weights v start) h.shaped
    h.sorted fun c new d old same => others d old (same ▸ job_of_mem_changes new)
  refine ⟨shaped, sorted, fun c => (mem c).trans ⟨?_, ?_⟩⟩
  · rintro (new | old)
    · exact ⟨v, start, Function.update_self .., new⟩
    · obtain ⟨w, start', placed, listed⟩ := (h.mem c).1 old
      have ne : w ≠ v := fun same => others c old ((job_of_mem_changes listed).trans same)
      exact ⟨w, start', (Function.update_of_ne ne ..).trans placed, listed⟩
  · rintro ⟨w, start', placed, listed⟩
    by_cases same : w = v
    · subst same
      rw [Function.update_self] at placed
      obtain rfl := Option.some.inj placed
      exact .inl listed
    · rw [Function.update_of_ne same] at placed
      exact .inr ((h.mem c).2 ⟨w, start', placed, listed⟩)

/-- A placed job is taken out. -/
lemma Records.remove (h : Records durations weights σ t) (placed : σ v = some start) :
    Records durations weights (Function.update σ v none)
      ((changes durations weights v start).foldl (fun t c => t.erase c.event) t) := by
  obtain ⟨shaped, sorted, mem⟩ :=
    foldl_erase (changes durations weights v start) h.shaped h.sorted
  refine ⟨shaped, sorted, fun c => (mem c).trans ⟨?_, ?_⟩⟩
  · rintro ⟨inside, spared⟩
    obtain ⟨w, start', there, listed⟩ := (h.mem c).1 inside
    refine ⟨w, start', (Function.update_of_ne ?_ ..).trans there, listed⟩
    rintro rfl
    obtain rfl := Option.some.inj (there.symm.trans placed)
    exact spared c listed rfl
  · rintro ⟨w, start', there, listed⟩
    by_cases same : w = v
    · subst same
      rw [Function.update_self] at there
      cases there
    · rw [Function.update_of_ne same] at there
      refine ⟨(h.mem c).2 ⟨w, start', there, listed⟩, fun d own equal => same ?_⟩
      rw [← job_of_mem_changes listed, equal, job_of_mem_changes own]

/-! ## Placements in profiles -/

/-- The slot belongs to an event of a job that changes the level. -/
def InUse (durations : Array Int) (weights : Array α) (slot : Nat) : Prop :=
  ∃ v start, ∃ c ∈ changes durations weights v start, c.event.slot = slot

/-- The arena has the slots of all jobs, and what lies in the slots of jobs that never change the level
is blank. -/
structure Furnished (durations : Array Int) (weights : Array α) (a : EventArena α) : Prop where
  size : a.nodes.size = 2 * durations.size
  blank : ∀ slot < 2 * durations.size, ¬InUse durations weights slot →
    a.nodes[slot]? = some (.blank slot)

/-- An arena without events. -/
lemma furnished_empty (durations : Array Int) (weights : Array α) :
    Furnished durations weights (.empty (2 * durations.size) : EventArena α) := by
  refine ⟨Array.size_ofFn, fun slot inside _ => ?_⟩
  unfold EventArena.empty
  dsimp only
  rw [Array.getElem?_ofFn, dif_pos inside]

/-- Only slots of jobs that change the level are written. -/
lemma Furnished.rewritten {a a' : EventArena α} {listed : List Nat} (h : Furnished durations weights a)
    (written : Rewritten listed a.nodes a'.nodes)
    (inUse : ∀ slot ∈ listed, InUse durations weights slot) : Furnished durations weights a' :=
  ⟨written.size.trans h.size, fun slot inside unused =>
    (written.kept slot fun member => unused (inUse slot member)).trans (h.blank slot inside unused)⟩

/-- The slots of a tree of placed jobs are in use. -/
lemma Records.inUse (h : Records durations weights σ t) : ∀ slot ∈ t.slots,
    InUse durations weights slot := by
  intro slot member
  obtain ⟨c, inside, rfl⟩ := List.mem_map.1 member
  obtain ⟨v, start, -, listed⟩ := (h.mem c).1 inside
  exact ⟨v, start, c, listed, rfl⟩

/-- The tree that hangs at the root. -/
def tree (p : TrackedProfile α) : EventTree α := p.arena.tree

/-- The profile holds the placement. -/
structure Holds (durations : Array Int) (weights : Array α) (σ : Nat → Option Int)
    (p : TrackedProfile α) : Prop where
  durations_eq : p.durations = durations
  weights_eq : p.weights = weights
  sizes : durations.size = weights.size
  starts : Listed durations.size σ p.starts
  furnished : Furnished durations weights p.arena
  arena : p.arena.Represents p.tree
  tree : Records durations weights σ p.tree
  timed : ∀ v start, σ v = some start → Timed durations weights v start

/-- The tree that an arena represents hangs at its root. -/
lemma represents_tree (h : p.arena.Represents t) (records : Records durations weights σ t) :
    p.arena.Represents p.tree ∧ Records durations weights σ p.tree := by
  have same : p.tree = t := h.tree_eq
  rw [same]
  exact ⟨h, records⟩

/-- Two profiles with the same starts have the same tree. -/
lemma Holds.tree_eq {σ' : Nat → Option Int} (h : p.Holds durations weights σ)
    (h' : q.Holds durations weights σ') (same : p.starts = q.starts) : p.tree = q.tree := by
  have agree : ∀ v < durations.size, σ v = σ' v := fun v hv => by
    have here := h.starts.entry v hv
    rw [same, h'.starts.entry v hv] at here
    exact (Option.some.inj here).symm
  have known : ∀ {v start} {c : Change α}, c ∈ changes durations weights v start →
      v < durations.size := by
    intro v start c listed
    obtain ⟨weight, found, -⟩ := mem_changes listed
    rw [h.sizes]
    exact (Array.getElem?_eq_some_iff.1 found).1
  refine h.tree.ext ⟨h'.tree.shaped, h'.tree.sorted, fun c => (h'.tree.mem c).trans ?_⟩
  constructor
  · rintro ⟨v, start, placed, listed⟩
    exact ⟨v, start, (agree v (known listed)).trans placed, listed⟩
  · rintro ⟨v, start, placed, listed⟩
    exact ⟨v, start, (agree v (known listed)).symm.trans placed, listed⟩

/-- There is one profile only for the same starts if all jobs are placed.  Then no node that was taken
out is left. -/
lemma Holds.ext {σ' : Nat → Option Int} (h : p.Holds durations weights σ)
    (h' : q.Holds durations weights σ') (same : p.starts = q.starts)
    (placed : ∀ v < durations.size, (σ v).isSome) : p = q := by
  have arena : q.arena.Represents p.tree := h.tree_eq h' same ▸ h'.arena
  have root : p.arena.root = q.arena.root := h.arena.root.trans arena.root.symm
  have nodes : p.arena.nodes = q.arena.nodes := by
    refine Array.ext_getElem? fun slot => ?_
    by_cases inside : slot < 2 * durations.size
    · by_cases used : InUse durations weights slot
      · obtain ⟨v, start, c, listed, rfl⟩ := used
        obtain ⟨weight, found, -⟩ := mem_changes listed
        have hv := lt_of_lt_of_eq (Array.getElem?_eq_some_iff.1 found).1 h.sizes.symm
        obtain ⟨start', there⟩ := Option.isSome_iff_exists.1 (placed v hv)
        obtain ⟨d, listed', slot⟩ := exists_mem_changes listed start'
        have among : d ∈ p.tree.toList := (h.tree.mem d).2 ⟨v, start', there, listed'⟩
        rw [← slot]
        exact h.arena.laid.getElem?_eq arena.laid _ (List.mem_map_of_mem among)
      · rw [h.furnished.blank slot inside used, h'.furnished.blank slot inside used]
    · rw [Array.getElem?_eq_none (by rw [h.furnished.size]; omega),
        Array.getElem?_eq_none (by rw [h'.furnished.size]; omega)]
  have durations := h.durations_eq.trans h'.durations_eq.symm
  have weights := h.weights_eq.trans h'.weights_eq.symm
  obtain ⟨⟨_, _⟩, _, _, _⟩ := p
  obtain ⟨⟨_, _⟩, _, _, _⟩ := q
  congr

/-- The profile in which no job is placed. -/
lemma empty_answers (sizes : durations.size = weights.size) :
    (empty durations weights).Answers (Holds durations weights fun _ => none) := by
  have represents := EventArena.represents_empty (α := α) (2 * durations.size)
  unfold empty
  rw [if_pos sizes]
  obtain ⟨arena, tree⟩ := represents_tree (p := ⟨.empty (2 * durations.size),
    .replicate durations.size none, durations, weights⟩) represents records_leaf
  exact .ok ⟨rfl, rfl, sizes, listed_replicate _, furnished_empty _ _, arena, tree,
    fun v start placed => nomatch placed⟩

/-- The changes of a job are computed if they happen at times. -/
lemma Holds.changesOf (h : p.Holds durations weights σ) (hv : v < durations.size)
    (timed : Timed durations weights v start) :
    p.changesOf v start = .ok (changes durations weights v start) := by
  have hw : v < weights.size := lt_of_lt_of_eq hv h.sizes
  unfold TrackedProfile.changesOf
  rw [h.durations_eq, h.weights_eq, fetch_valueAt hv, ok_bind, fetch_of_lt hw, ok_bind]
  unfold Timed changes at timed
  unfold changes
  rw [Array.getElem?_eq_getElem hw] at timed ⊢
  dsimp only at timed ⊢
  split
  · rename_i tracked
    rw [if_pos tracked] at timed
    obtain ⟨least, greatest⟩ := timed ⟨⟨start + valueAt durations v, .finish, v⟩, -weights[v]⟩
      (List.mem_cons_of_mem _ (List.mem_singleton_self _))
    rw [addTime_of_mem least greatest]
    rfl
  · rfl

/-- The changes of a job that is not placed are put into the arena. -/
lemma Holds.insertAll (h : p.Holds durations weights σ) (hv : v < durations.size) (free : σ v = none)
    (start : Int) : ((changes durations weights v start).foldlM EventArena.insert p.arena).Answers fun a =>
      a.Represents ((changes durations weights v start).foldl EventTree.insert p.tree) ∧
        Furnished durations weights a := by
  have fresh : ∀ c ∈ changes durations weights v start,
      c.event.slot < p.arena.nodes.size ∧ c.event.slot ∉ p.tree.slots := by
    intro c listed
    rw [h.furnished.size]
    refine ⟨slot_lt_of_mem_changes listed hv, fun used => ?_⟩
    obtain ⟨d, among, same⟩ := List.mem_map.1 used
    obtain ⟨w, start', placed, listed'⟩ := (h.tree.mem d).1 among
    obtain ⟨-, job⟩ := Event.slot_inj same
    rw [job_of_mem_changes listed, job_of_mem_changes listed'] at job
    subst job
    rw [free] at placed
    cases placed
  refine (h.arena.insertAll (nodup_slots_changes durations weights v start) fresh).imp fun a spec => ?_
  obtain ⟨represents, written⟩ := spec
  refine ⟨represents, h.furnished.rewritten written fun slot member => ?_⟩
  rcases List.mem_append.1 member with new | old
  · obtain ⟨c, listed, same⟩ := List.mem_map.1 new
    exact ⟨v, start, c, listed, same⟩
  · exact h.tree.inUse slot old

/-- A job that is not placed can be placed where its changes happen at times. -/
lemma Holds.insert (h : p.Holds durations weights σ) (hv : v < durations.size) (free : σ v = none)
    (timed : Timed durations weights v start) : (p.insert v start).Answers
      (Holds durations weights (Function.update σ v (some start))) := by
  have hs : v < p.starts.size := lt_of_lt_of_eq hv h.starts.size.symm
  unfold TrackedProfile.insert TrackedProfile.startOf
  rw [h.starts.fetch hv, ok_bind, free, store_of_lt _ hs]
  refine Answers.bind (P := (· = changes durations weights v start)) ?_ ?_
  · exact ⟨_, h.changesOf hv timed, rfl⟩
  rintro _ rfl
  refine (h.insertAll hv free start).bind fun a spec => ?_
  obtain ⟨represents, furnished⟩ := spec
  obtain ⟨arena, tree⟩ := represents_tree (p := ⟨a, p.starts.set v (some start) hs, p.durations,
    p.weights⟩) represents (h.tree.insert free start)
  refine .pure ⟨h.durations_eq, h.weights_eq, h.sizes, h.starts.set hs _, furnished, arena, tree,
    fun w start' placed => ?_⟩
  by_cases same : w = v
  · subst same
    rw [Function.update_self] at placed
    exact Option.some.inj placed ▸ timed
  · rw [Function.update_of_ne same] at placed
    exact h.timed w start' placed

/-- A job can be taken out. -/
lemma Holds.remove (h : p.Holds durations weights σ) (hv : v < durations.size) :
    (p.remove v).Answers (Holds durations weights (Function.update σ v none)) := by
  have hs : v < p.starts.size := lt_of_lt_of_eq hv h.starts.size.symm
  unfold TrackedProfile.remove TrackedProfile.startOf
  rw [h.starts.fetch hv, ok_bind]
  cases placed : σ v with
  | none =>
    have same : Function.update σ v none = σ := by rw [← placed, Function.update_eq_self]
    rw [same]
    exact .pure h
  | some start =>
    dsimp only
    rw [store_of_lt _ hs, ok_bind]
    refine Answers.bind (P := (· = changes durations weights v start)) ?_ ?_
    · exact ⟨_, h.changesOf hv (h.timed v start placed), rfl⟩
    rintro _ rfl
    refine (h.arena.eraseAll (changes durations weights v start) h.tree.sorted).bind fun a spec => ?_
    obtain ⟨represents, written⟩ := spec
    have furnished := h.furnished.rewritten written h.tree.inUse
    obtain ⟨arena, tree⟩ := represents_tree (p := ⟨a, p.starts.set v none hs, p.durations,
      p.weights⟩) represents (h.tree.remove placed)
    refine .pure ⟨h.durations_eq, h.weights_eq, h.sizes, h.starts.set hs _, furnished, arena, tree,
      fun w start' there => ?_⟩
    by_cases same : w = v
    · subst same
      rw [Function.update_self] at there
      cases there
    · rw [Function.update_of_ne same] at there
      exact h.timed w start' there

/-- A job can be moved to a start where its changes happen at times. -/
lemma Holds.reposition (h : p.Holds durations weights σ) (hv : v < durations.size)
    (timed : Timed durations weights v start) : (p.reposition v start).Answers
      (Holds durations weights (Function.update σ v (some start))) := by
  unfold TrackedProfile.reposition TrackedProfile.startOf
  rw [h.starts.fetch hv, ok_bind]
  split
  · rename_i there
    rw [← there, Function.update_eq_self]
    exact .pure h
  · refine (h.remove hv).bind fun p' removed => ?_
    have placed := removed.insert hv (Function.update_self ..) timed
    rwa [Function.update_idem] at placed

/-- The profile after a move. -/
def perform (p : TrackedProfile α) : Move → Checked (TrackedProfile α)
  | .insert v start => p.insert v start
  | .remove v => p.remove v
  | .reposition v start => p.reposition v start

/-- The profile after a list of moves. -/
def replay (durations : Array Int) (weights : Array α) (moves : List Move) :
    Checked (TrackedProfile α) := do
  moves.foldlM perform (← empty durations weights)

/-- **Step.**  An allowed move leads to the profile of the placement after the move. -/
lemma Holds.perform {move : Move} (h : p.Holds durations weights σ)
    (allowed : move.Allowed durations.size (Timed durations weights) σ) :
    (p.perform move).Answers (Holds durations weights (move.place σ)) := by
  cases allowed with
  | insert job free suits => exact h.insert job free suits
  | remove job => exact h.remove job
  | reposition job suits => exact h.reposition job suits

/-- **Run.**  Allowed moves lead to the profile of the placement after the moves. -/
lemma replay_answers {moves : List Move} (sizes : durations.size = weights.size)
    (allowed : Move.AllAllowed durations.size (Timed durations weights) (fun _ => none) moves) :
    (replay durations weights moves).Answers
      (Holds durations weights (Move.placement moves)) :=
  (empty_answers sizes).bind fun _ start =>
    Move.foldlM_answers (fun h allowed => h.perform allowed) allowed start

/-! ## Questions -/

section

variable {threshold : α} {hi : Int}

/-- A search that stops ends the stretch with its fault. -/
lemma descent_of_error {fault : Fault}
    (stops : p.arena.findFirst (.first start) threshold .below = .error fault) :
    p.descent threshold hi start = .error fault := by
  rw [TrackedProfile.descent.eq_def]
  split
  · rename_i found
    rw [stops] at found
    cases found
    rfl
  · rename_i found
    rw [stops] at found
    cases found
  · rename_i found
    rw [stops] at found
    cases found

/-- Without an event below the threshold, the stretch goes on to the end. -/
lemma descent_of_none (nothing : p.arena.findFirst (.first start) threshold .below = .ok none) :
    p.descent threshold hi start = .ok hi := by
  rw [TrackedProfile.descent.eq_def]
  split
  · rename_i found
    rw [nothing] at found
    cases found
  · rfl
  · rename_i found
    rw [nothing] at found
    cases found

/-- An event below the threshold ends the stretch if the level is below after all events of its time. -/
lemma descent_of_some {e : Event}
    (found : p.arena.findFirst (.first start) threshold .below = .ok (some e)) :
    p.descent threshold hi start = if e.time < hi then do
        if threshold ≤ (← p.levelAt e.time) then p.descent threshold hi (e.time + 1)
        else return e.time
      else .ok hi := by
  rw [TrackedProfile.descent.eq_def]
  split
  · rename_i found'
    rw [found] at found'
    cases found'
  · rename_i found'
    rw [found] at found'
    cases found'
  · rename_i e' found'
    obtain rfl := Option.some.inj (Except.ok.inj (found.symm.trans found'))
    exact dite_eq_ite

/-- Profiles whose arenas answer in the same way end each stretch in the same way. -/
lemma descent_congr (levels : ∀ time, p.levelAt time = q.levelAt time)
    (searches : p.arena.findFirst = q.arena.findFirst) (start : Int) :
    p.descent threshold hi start = q.descent threshold hi start := by
  induction start using TrackedProfile.descent.induct p threshold hi with
  | case1 start fault stops =>
    have stops' : q.arena.findFirst (.first start) threshold .below = .error fault := searches ▸ stops
    rw [descent_of_error stops, descent_of_error stops']
  | case2 start nothing =>
    have nothing' : q.arena.findFirst (.first start) threshold .below = .ok none := searches ▸ nothing
    rw [descent_of_none nothing, descent_of_none nothing']
  | case3 start e found before ih =>
    have found' : q.arena.findFirst (.first start) threshold .below = .ok (some e) := searches ▸ found
    rw [descent_of_some found, descent_of_some found', levels, ih]
  | case4 start e found beyond =>
    have found' : q.arena.findFirst (.first start) threshold .below = .ok (some e) := searches ▸ found
    rw [descent_of_some found, descent_of_some found', if_neg beyond, if_neg beyond]

/-- The events of a profile. -/
lemma Holds.events_eq (h : p.Holds durations weights σ) :
    p.events = p.tree.toList.map Change.event := by
  unfold TrackedProfile.events
  rw [h.arena.events]

/-- The highest level is read off the root. -/
lemma Holds.maxLevel_eq (h : p.Holds durations weights σ) : p.maxLevel =
    match p.tree.summary? with
    | none => 0
    | some s => max s.high 0 := by
  have represents := h.arena
  unfold TrackedProfile.maxLevel
  rw [represents.root]
  cases known : p.tree with
  | leaf => rfl
  | node c s l r =>
    rw [known] at represents
    unfold EventTree.link
    dsimp only [Option.bind_some]
    rw [represents.laid.1]
    rfl

/-- Profiles with the same tree answer all questions in the same way. -/
lemma Holds.same_answers {σ' : Nat → Option Int} (h : p.Holds durations weights σ)
    (h' : q.Holds durations weights σ') (same : p.tree = q.tree) :
    p.events = q.events ∧ p.maxLevel = q.maxLevel ∧ (∀ time, p.levelAt time = q.levelAt time) ∧
      (∀ range, p.maxLevelIn range = q.maxLevelIn range) ∧
        ∀ range, p.maxLevelRange range = q.maxLevelRange range := by
  have represents : q.arena.Represents p.tree := same ▸ h'.arena
  obtain ⟨before, highest, searches, -⟩ := h.arena.same_answers represents
  have levels : ∀ time, p.levelAt time = q.levelAt time := fun time => by
    unfold TrackedProfile.levelAt
    rw [before]
  have peaks : ∀ range, p.maxLevelIn range = q.maxLevelIn range := fun range => by
    unfold TrackedProfile.maxLevelIn
    rw [highest, levels]
  refine ⟨?_, ?_, levels, peaks, fun range => ?_⟩
  · rw [h.events_eq, h'.events_eq, same]
  · rw [h.maxLevel_eq, h'.maxLevel_eq, same]
  · unfold TrackedProfile.maxLevelRange
    simp only [peaks, levels, searches, descent_congr levels searches]

end

/-- The past of a profile leaves no trace: if two lists of moves end with the same starts, then both
arenas have the same root, paths through them lead to the same slots with the same nodes, summaries and
links included, so that both hold the same tree, and all questions have the same answers. -/
theorem history_independent {moves moves' : List Move} (sizes : durations.size = weights.size)
    (allowed : Move.AllAllowed durations.size (Timed durations weights) (fun _ => none) moves)
    (allowed' : Move.AllAllowed durations.size (Timed durations weights) (fun _ => none) moves') :
    (replay durations weights moves).Answers fun p =>
      (replay durations weights moves').Answers fun q =>
        p.starts = q.starts → (p.arena.root = q.arena.root ∧
            (∀ path, p.arena.slotAt path = q.arena.slotAt path) ∧
              ∀ path slot, p.arena.slotAt path = some slot → ∃ x, p.arena.nodes[slot]? = some x ∧
                q.arena.nodes[slot]? = some x) ∧
          p.tree = q.tree ∧ p.events = q.events ∧ p.maxLevel = q.maxLevel ∧
          (∀ time, p.levelAt time = q.levelAt time) ∧
            (∀ range, p.maxLevelIn range = q.maxLevelIn range) ∧
              ∀ range, p.maxLevelRange range = q.maxLevelRange range := by
  refine (replay_answers sizes allowed).imp fun p holds => ?_
  refine (replay_answers sizes allowed').imp fun q holds' same => ?_
  have tree := holds.tree_eq holds' same
  exact ⟨holds.arena.same_nodes (tree ▸ holds'.arena), tree, holds.same_answers holds' tree⟩

/-- One job is placed at once, and in another run after a detour, which leaves the nodes of another job
behind in their slots. -/
theorem history_independent_detour :
    ∃ p q : TrackedProfile ℚ, replay #[2, 3] #[1, 4] [.insert 0 5] = .ok p ∧
      replay #[2, 3] #[1, 4] [.insert 1 0, .insert 0 7, .remove 1, .reposition 0 5] = .ok q ∧
      p.starts = q.starts ∧ p.arena.nodes[2]? ≠ q.arena.nodes[2]? ∧ p.arena.root = q.arena.root ∧
      p.tree = q.tree := by
  have timed : ∀ v < 2, ∀ start < 8, Timed #[2, 3] (#[1, 4] : Array ℚ) v (start : Nat) := by
    unfold Timed
    decide +kernel
  have suits : ∀ (start : Nat) {v : Nat}, start < 8 → v < 2 →
      Timed #[2, 3] (#[1, 4] : Array ℚ) v start := fun start v hs hv => timed v hv start hs
  have direct : Move.AllAllowed 2 (Timed #[2, 3] (#[1, 4] : Array ℚ)) (fun _ => none)
      [.insert 0 5] :=
    ⟨.insert (by decide) rfl (suits 5 (by decide) (by decide)), trivial⟩
  have detour : Move.AllAllowed 2 (Timed #[2, 3] (#[1, 4] : Array ℚ)) (fun _ => none)
      [.insert 1 0, .insert 0 7, .remove 1, .reposition 0 5] :=
    ⟨.insert (by decide) rfl (suits 0 (by decide) (by decide)),
      .insert (by decide) rfl (suits 7 (by decide) (by decide)), .remove (by decide),
      .reposition (by decide) (suits 5 (by decide) (by decide)), trivial⟩
  have sizes : (#[2, 3] : Array Int).size = (#[1, 4] : Array ℚ).size := rfl
  obtain ⟨p, answer, q, answer', same⟩ := history_independent sizes direct detour
  let direct : Checked (TrackedProfile ℚ) := replay #[2, 3] #[1, 4] [.insert 0 5]
  let detour : Checked (TrackedProfile ℚ) :=
    replay #[2, 3] #[1, 4] [.insert 1 0, .insert 0 7, .remove 1, .reposition 0 5]
  have starts : direct.map starts = detour.map starts := by decide +kernel
  have differ : direct.map (fun p => p.arena.nodes[2]?.map fun x => x.change.event) ≠
      detour.map (fun q => q.arena.nodes[2]?.map fun x => x.change.event) := by decide +kernel
  simp only [direct, detour, answer, answer'] at starts differ
  have starts : p.starts = q.starts := Except.ok.inj starts
  obtain ⟨⟨root, -⟩, tree, -⟩ := same starts
  refine ⟨p, q, answer, answer', starts, fun equal => differ ?_, root, tree⟩
  unfold Except.map
  dsimp only
  rw [equal]

end TrackedProfile

end Leveling
