import Leveling.Proofs.Search.Endings

/-!
# The marks of a deletion search are counted

Both rules by which a search picks its plan compare sets of arcs by their number only, and this number is
not counted when it is needed: it goes up when an arc is marked, in the expansion of a job, and down when
the mark of an arc is cleared, in a step.  The flags of the arcs, the queue and the list of pruned arcs are
changed in still other places.

Before and after each step of a search they agree, whatever the bounds are.
-/

namespace Leveling

open Checked Network

namespace DeletionSearch

variable {net net' : Network} {b : Bounds} {side : Side} {s s' : DeletionSearch} {root : Nat}
  {x : DeletionSearch × Network}

/-- The marked arcs are counted: there are as many as recorded, they are listed without repetition, and
each of them can be deleted and is still waiting or was pruned. -/
structure Counted (net : Network) (s : DeletionSearch) : Prop where
  removed : s.removed = net.arcs.countP fun e => e.2.marked
  listed : (s.markedArcs net).Answers fun refs => refs.length = s.removed ∧
    (refs.map ArcRef.place).Nodup ∧ ∀ ref, ref ∈ refs ↔ ∃ a, net.arc ref = .ok a ∧ a.marked = true
  kept : ∀ ref a, net.arc ref = .ok a → a.marked = true →
    a.permanent = false ∧ (ref ∈ s.queue.map Prod.fst ∨ ref ∈ s.pruned)

/-- If the books agree, the marked arcs are counted. -/
lemma Marking.counted (h : Marking side net s) : Counted net s where
  removed := h.removed.trans (countP_arcs net fun _ a => a.marked).symm
  listed := by
    refine h.markedArcs.imp fun refs ⟨⟨distinct, mem_refs⟩, length⟩ => ?_
    have named : ∀ ref ∈ refs, ∃ a, net.arc ref = .ok a := by
      intro ref member
      obtain ⟨a, found, -⟩ := (mem_refs ref).1 member
      exact ⟨a, found⟩
    exact ⟨length.trans h.removed.symm, nodup_places_of_named distinct named, mem_refs⟩
  kept ref a found marked := by
    obtain ⟨temporary, waiting⟩ := h.marked (arc_eq_ok.1 found).2 marked
    rw [refAt_place found] at waiting
    exact ⟨temporary, List.mem_append.1 waiting⟩

/-- There is a journal of each stage of a search. -/
lemma Stage.exists_recorded (ready : Explorable net b side) (clean : net.flagged = 0)
    (sized : s.Sized net.numJobs) (hv : root < net.numJobs) (stage : s.Stage net b side root x) :
    ∃ j, Recorded net b side x.2 x.1 j := by
  induction stage with
  | cut first =>
    obtain ⟨j, written⟩ := Journal.cut_faithful.exists_journal first
    exact ⟨j, ((recorded_cut ready clean sized hv).ensures _ written).1⟩
  | step _ stepped ih =>
    obtain ⟨j, h⟩ := ih
    obtain ⟨j', written⟩ := (Journal.step_faithful (j := j)).exists_journal stepped
    exact ⟨j', ((h.step ready).ensures _ written).2.1⟩

/-- If a step takes a marked arc from the queue, the number of marked arcs can be decreased. -/
lemma Marking.subCount_answers (h : Marking side net s) {pruned : List ArcRef} {ref : ArcRef}
    {depth : Nat} {a : Arc} {queue : List (ArcRef × Nat)}
    (taken : nextArc net s.maxDepth s.pruned s.queue = .ok (pruned, some (ref, depth, a), queue))
    (marked : a.marked = true) : (subCount s.removed 1).Answers fun k => k + 1 = s.removed := by
  have positive := h.removed_pos (h.next.of_eq_ok taken).1 marked
  rw [subCount_of_le positive]
  exact .ok (Nat.sub_add_cancel positive)

/-- At each stage of a search the marked arcs are counted, and also after the next step, if there is one
left or not.  When the step clears a mark, the number of marked arcs does not become negative. -/
theorem marks_are_counted (ready : Explorable net b side) (clean : net.flagged = 0)
    (sized : s.Sized net.numJobs) (hv : root < net.numJobs) (stage : s.Stage net b side root x) :
    Counted x.2 x.1 ∧
    (∀ pruned ref depth a queue,
      nextArc x.2 x.1.maxDepth x.1.pruned x.1.queue = .ok (pruned, some (ref, depth, a), queue) →
        a.marked = true → (subCount x.1.removed 1).Answers fun k => k + 1 = x.1.removed) ∧
    (x.1.step x.2 b side).AnswersIf False fun r => Counted (r.2.getD x.2) r.1 := by
  obtain ⟨j, h⟩ := stage.exists_recorded ready clean sized hv
  have marking := h.booked.marking
  refine ⟨marking.counted, fun pruned ref depth a queue => marking.subCount_answers, ?_⟩
  refine Journal.step_faithful.answersIf ((h.step ready).imp ?_)
  rintro ⟨⟨s', next⟩, j'⟩ ⟨-, h'⟩
  cases next with
  | none => exact h'.booked.marking.counted
  | some net' => exact h'.1.booked.marking.counted

/-- A stage of a search in the kite that looks one arc deep.  One arc is marked, and the next step takes it
from behind an arc that is too far out, clears its mark and marks two other arcs instead. -/
theorem marks_are_counted_kite :
    Explorable kite kiteBounds .early ∧ kite.flagged = 0 ∧ Sized 4 (empty 4 1 3) ∧
    ∃ x : DeletionSearch × Network, (empty 4 1 3).Stage kite kiteBounds .early 3 x ∧
      Counted x.2 x.1 ∧
      (∀ pruned ref depth a queue,
        nextArc x.2 x.1.maxDepth x.1.pruned x.1.queue = .ok (pruned, some (ref, depth, a), queue) →
          a.marked = true → (subCount x.1.removed 1).Answers fun k => k + 1 = x.1.removed) ∧
      (x.1.step x.2 kiteBounds .early).AnswersIf False (fun r => Counted (r.2.getD x.2) r.1) ∧
      x.1.removed = 1 ∧ x.1.queue.map (fun e => (e.1.place, e.2)) = [((0, 0), 1), ((2, 0), 0)] ∧
      (x.1.step x.2 kiteBounds .early).Answers fun r => r.1.removed = 2 ∧
        r.1.queue.map (fun e => (e.1.place, e.2)) = [((0, 1), 1), ((1, 0), 1)] := by
  have ready := explorable_kite .early
  have clean : kite.flagged = 0 := by decide +kernel
  have sized := sized_empty 4 1 3
  have steps : ((empty 4 1 3).cut kite kiteBounds .early 3).Answers fun x =>
      (x.1.step x.2 kiteBounds .early).Answers fun r => r.2.isSome = true ∧ r.1.removed = 1 ∧
        r.1.queue.map (fun e => (e.1.place, e.2)) = [((0, 0), 1), ((2, 0), 0)] ∧
        (r.1.step (r.2.getD x.2) kiteBounds .early).Answers fun r => r.1.removed = 2 ∧
          r.1.queue.map (fun e => (e.1.place, e.2)) = [((0, 1), 1), ((1, 0), 1)] := by
    decide +kernel
  obtain ⟨x, first, ⟨s, next⟩, stepped, left, one, queue, two⟩ := steps
  obtain ⟨net, rfl⟩ := Option.isSome_iff_exists.1 left
  have stage := Stage.step (.cut first) stepped
  obtain ⟨counted, decreases, after⟩ :=
    marks_are_counted ready clean sized (show 3 < 4 by decide) stage
  exact ⟨ready, clean, sized, (s, net), stage, counted, decreases, after, one, queue, two⟩

end DeletionSearch

end Leveling
