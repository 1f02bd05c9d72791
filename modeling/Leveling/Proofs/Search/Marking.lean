import Leveling.Proofs.Search.Settling

/-!
# The marks of a deletion search

A deletion search keeps its books in several places: flags on the arcs of the network, a queue, a
list of pruned arcs, a list of the arcs that it has seen, and the number of marked arcs.  They
agree all the time: each marked arc waits on the queue or was pruned, each seen arc is listed as
seen, and the recorded number of marked arcs is right.

No arc is listed twice.  An arc is put on the queue when the job at its near end is expanded, and
no job is expanded twice.
-/

namespace Leveling

open Checked Network

/-! ## Handles -/

namespace Network

variable {net net' : Network} {side : Side} {v : Nat} {p : Place} {ref : ArcRef} {a : Arc}

/-- The fresh handle of a place. -/
def refAt (net : Network) (p : Place) : ArcRef := ⟨p.1, p.2, net.generation⟩

/-- A handle that names an arc is the fresh handle of its place. -/
lemma refAt_place (found : net.arc ref = .ok a) : net.refAt ref.place = ref := by
  obtain ⟨fresh, -⟩ := arc_eq_ok.1 found
  cases ref
  cases fresh
  rfl

/-- The fresh handle of a place names what stands there. -/
lemma arc_refAt : net.arc (net.refAt p) = .ok a ↔ entryAt net.outgoing p = some a := by
  rw [arc_eq_ok]
  exact and_iff_right rfl

/-- A handle names one of the arcs over which a bound travels to the job at its near end. -/
lemma step_of_arc (found : net.arc ref = .ok a) :
    net.Step side (side.farEnd ref a) (side.nearEnd ref a) a := by
  obtain ⟨-, entry⟩ := arc_eq_ok.1 found
  cases side with
  | early => exact ⟨ref.slot, entry, rfl⟩
  | late => exact ⟨ref.slot, entry, rfl⟩

/-- An arc over which a bound travels to a job is named by a handle. -/
lemma Step.exists_ref {u : Nat} (step : net.Step side u v a) :
    ∃ ref, net.arc ref = .ok a ∧ side.farEnd ref a = u ∧ side.nearEnd ref a = v := by
  cases side with
  | early =>
    obtain ⟨i, entry, rfl⟩ := step
    exact ⟨net.refAt (u, i), arc_refAt.2 entry, rfl, rfl⟩
  | late =>
    obtain ⟨i, entry, rfl⟩ := step
    exact ⟨net.refAt (v, i), arc_refAt.2 entry, rfl, rfl⟩

/-- A handle of an arc that is there. -/
lemma refOut_eq (entry : entryAt net.outgoing p = some a) :
    net.refOut p.1 p.2 = .ok (net.refAt p) := by
  obtain ⟨hv, hi, -⟩ := lt_of_entryAt entry
  unfold refOut
  rw [fetch_of_lt hv, ok_bind, if_pos hi]
  rfl

/-- The place of the arc whose counterpart stands at a place. -/
def originOf (net : Network) (q : Place) : Place := (entryAt net.incoming q).elim (0, 0) BackArc.forth

/-- The arc of a counterpart points back at it. -/
lemma Linked.entry_originOf (linked : net.Linked) {q : Place} (occupied : (entryAt net.incoming q).isSome) :
    ∃ a, entryAt net.outgoing (net.originOf q) = some a ∧ a.back = q := by
  obtain ⟨r, entry⟩ := Option.isSome_iff_exists.1 occupied
  unfold originOf
  rw [entry]
  exact linked.origin entry

/-- The arc of the counterpart of an arc is the arc itself. -/
lemma Linked.originOf_back (linked : net.Linked) (entry : entryAt net.outgoing p = some a) :
    net.originOf a.back = p := by
  unfold originOf
  rw [linked.mirror entry]
  rfl

/-- The handle of the arc of a counterpart. -/
lemma Linked.refIn_eq (linked : net.Linked) {q : Place} (occupied : (entryAt net.incoming q).isSome) :
    net.refIn q.1 q.2 = .ok (net.refAt (net.originOf q)) := by
  obtain ⟨a, found, -⟩ := linked.entry_originOf occupied
  obtain ⟨r, entry⟩ := Option.isSome_iff_exists.1 occupied
  obtain ⟨hv, hj, same⟩ := lt_of_entryAt entry
  have forth : net.originOf q = r.forth := by
    unfold originOf
    rw [entry]
    rfl
  unfold refIn
  rw [fetch_of_lt hv, ok_bind, fetch_of_lt hj, ok_bind, same, forth]
  exact refOut_eq (forth ▸ found)

/-- The handles of the arcs into a job. -/
lemma Linked.refsTo_early (linked : net.Linked) (hv : v < net.numJobs) :
    (net.refsTo .early v).Answers fun refs => refs.Nodup ∧
      ∀ ref, ref ∈ refs ↔ ∃ a, net.arc ref = .ok a ∧ a.target = v := by
  have hv' : v < net.incoming.size := lt_of_lt_of_eq hv linked.size.symm
  have occupied : ∀ j ∈ List.range net.incoming[v].size, (entryAt net.incoming (v, j)).isSome := by
    intro j member
    rw [entryAt_of_lt hv', Array.getElem?_eq_getElem (List.mem_range.1 member)]
    rfl
  unfold Network.refsTo
  rw [fetch_of_lt hv', ok_bind, mapM_eq_ok fun j member => linked.refIn_eq (occupied j member)]
  refine .ok ⟨List.Nodup.map_on (fun i hi j hj same => ?_) List.nodup_range, fun ref => ?_⟩
  · have place : net.originOf (v, i) = net.originOf (v, j) := congrArg ArcRef.place same
    obtain ⟨a, found, back⟩ := linked.entry_originOf (occupied i hi)
    obtain ⟨a', found', back'⟩ := linked.entry_originOf (occupied j hj)
    rw [place, found'] at found
    obtain rfl := Option.some.inj found
    exact congrArg Prod.snd (back.symm.trans back')
  · rw [List.mem_map]
    constructor
    · rintro ⟨j, member, rfl⟩
      obtain ⟨a, found, back⟩ := linked.entry_originOf (occupied j member)
      exact ⟨a, arc_refAt.2 found, congrArg Prod.fst back⟩
    · rintro ⟨a, found, rfl⟩
      have entry := (arc_eq_ok.1 found).2
      obtain ⟨_, hj, -⟩ := lt_of_entryAt (linked.mirror entry)
      refine ⟨a.backSlot, List.mem_range.2 hj, ?_⟩
      rw [show ((a.target, a.backSlot) : Place) = a.back from rfl, linked.originOf_back entry]
      exact refAt_place found

/-- The handles of the arcs out of a job. -/
lemma refsTo_late (hv : v < net.numJobs) :
    (net.refsTo .late v).Answers fun refs => refs.Nodup ∧
      ∀ ref, ref ∈ refs ↔ ∃ a, net.arc ref = .ok a ∧ ref.source = v := by
  have entry : ∀ {i : Nat} (hi : i < net.outgoing[v].size),
      entryAt net.outgoing (v, i) = some net.outgoing[v][i] := fun hi => by
    rw [entryAt_of_lt hv, Array.getElem?_eq_getElem hi]
  unfold Network.refsTo
  rw [fetch_of_lt hv, ok_bind, mapM_eq_ok fun i member =>
    refOut_eq (p := (v, i)) (entry (List.mem_range.1 member))]
  refine .ok ⟨List.Nodup.map_on (fun i _ j _ same => congrArg ArcRef.slot same) List.nodup_range,
    fun ref => ?_⟩
  rw [List.mem_map]
  constructor
  · rintro ⟨i, member, rfl⟩
    exact ⟨_, arc_refAt.2 (entry (List.mem_range.1 member)), rfl⟩
  · rintro ⟨a, found, rfl⟩
    obtain ⟨_, hi, -⟩ := lt_of_entryAt (arc_eq_ok.1 found).2
    exact ⟨ref.slot, List.mem_range.2 hi, refAt_place found⟩

/-- The handles of the arcs over which a bound travels to a job are those with it at the near end. -/
lemma Linked.refsTo (linked : net.Linked) (side : Side) (hv : v < net.numJobs) :
    (net.refsTo side v).Answers fun refs => refs.Nodup ∧
      ∀ ref, ref ∈ refs ↔ ∃ a, net.arc ref = .ok a ∧ side.nearEnd ref a = v := by
  cases side with
  | early => exact linked.refsTo_early hv
  | late => exact refsTo_late hv

/-- Different places with a property are no more than the entries that have it. -/
lemma length_le_tally {β : Type} {lists : Array (Array β)} {c : Nat → β → Bool} {l : List Place}
    (distinct : l.Nodup) (each : ∀ p ∈ l, ∃ x, entryAt lists p = some x ∧ c p.1 x = true) :
    l.length ≤ tally c lists := by
  have listed : ∀ p ∈ l, p ∈ ((entries lists).filter fun e => c e.1 e.2.2).map placeOf := by
    intro p member
    obtain ⟨x, entry, holds⟩ := each p member
    exact List.mem_map.2 ⟨(p.1, p.2, x), List.mem_filter.2 ⟨mem_entries.2 entry, holds⟩, rfl⟩
  have fewer := (distinct.subperm listed).length_le
  rwa [List.length_map, ← List.countP_eq_length_filter, countP_entries] at fewer

/-- Different handles of arcs have different places. -/
lemma nodup_places_of_named {refs : List ArcRef} (distinct : refs.Nodup)
    (named : ∀ ref ∈ refs, ∃ a, net.arc ref = .ok a) : (refs.map ArcRef.place).Nodup := by
  refine distinct.map_on fun ref h ref' h' same => ?_
  obtain ⟨a, found⟩ := named ref h
  obtain ⟨a', found'⟩ := named ref' h'
  rw [← refAt_place found, same, refAt_place found']

/-- Different handles of arcs are no more than there are arcs. -/
lemma Linked.length_le (linked : net.Linked) {refs : List ArcRef} (distinct : refs.Nodup)
    (named : ∀ ref ∈ refs, ∃ a, net.arc ref = .ok a) : refs.length ≤ net.arcCount := by
  rw [← linked.arcs, ← List.length_map ArcRef.place]
  refine length_le_tally (nodup_places_of_named distinct named) fun p member => ?_
  obtain ⟨ref, listed, rfl⟩ := List.mem_map.1 member
  obtain ⟨a, found⟩ := named ref listed
  exact ⟨a, (arc_eq_ok.1 found).2, rfl⟩

/-! ## Clearing flags -/

/-- Two changes of the flags of an arc in a row. -/
lemma Flipped.trans {net'' : Network} {b c : Arc} (h : Flipped p a b net net')
    (h' : Flipped p b c net' net'') : Flipped p a c net net'' where
  alike := h.alike.trans h'.alike
  replaced :=
    { size := h'.replaced.size.trans h.replaced.size
      entry := fun q => by
        rw [h'.replaced.entry]
        split
        · rfl
        · rename_i other
          exact h.entry_of_ne other
      tally := fun c => by
        have first := h.replaced.tally c
        have second := h'.replaced.tally c
        omega }

/-- The arc is found under its handle after its flags were changed. -/
lemma Flipped.arc {b : Arc} (h : Flipped ref.place a b net net') (found : net.arc ref = .ok a) :
    net'.arc ref = .ok b :=
  arc_eq_ok.2 ⟨(arc_eq_ok.1 found).1.trans h.alike.generation.symm, h.entry_self⟩

/-- The networks differ in the flags of the listed arcs only, which were changed by a function. -/
structure Adjusted (refs : List ArcRef) (f : Arc → Arc) (net net' : Network) : Prop where
  alike : Alike net net'
  entry : ∀ p, entryAt net'.outgoing p =
    if net.refAt p ∈ refs then (entryAt net.outgoing p).map f else entryAt net.outgoing p

/-- What an arc was before the flags of the listed arcs were changed. -/
lemma Adjusted.before {refs : List ArcRef} {f : Arc → Arc} {b : Arc} (h : Adjusted refs f net net')
    (found : entryAt net'.outgoing p = some b) :
    ∃ a, entryAt net.outgoing p = some a ∧
      (net.refAt p ∈ refs ∧ b = f a ∨ net.refAt p ∉ refs ∧ b = a) := by
  have entry := h.entry p
  rw [found] at entry
  split at entry
  · rename_i listed
    obtain ⟨a, before, same⟩ := Option.map_eq_some_iff.1 entry.symm
    exact ⟨a, before, .inl ⟨listed, same.symm⟩⟩
  · rename_i fresh
    exact ⟨b, entry.symm, .inr ⟨fresh, rfl⟩⟩

/-- The same change of the flags of all arcs that are listed. -/
lemma adjustAll_answers {f : Arc → Arc} (flags : ∀ a, (f a).bare = a.bare)
    (idempotent : ∀ a, f (f a) = f a) {refs : List ArcRef} :
    ∀ {net : Network}, (∀ ref ∈ refs, ∃ a, net.arc ref = .ok a) →
      (refs.foldlM (fun (net : Network) ref => net.adjustArc ref f) net).Answers
        (Adjusted refs f net) := by
  induction refs with
  | nil =>
    intro net _
    exact .pure ⟨rfl, fun p => (if_neg List.not_mem_nil).symm⟩
  | cons ref rest ih =>
    intro net named
    obtain ⟨a, found⟩ := named ref List.mem_cons_self
    rw [List.foldlM_cons]
    refine (adjustArc_answers found (flags a)).bind fun net₁ flipped => ?_
    have rest_named : ∀ ref' ∈ rest, ∃ a', net₁.arc ref' = .ok a' := by
      intro ref' member
      obtain ⟨a', found'⟩ := named ref' (List.mem_cons_of_mem _ member)
      obtain ⟨b, found₁, -⟩ := flipped.alike.arc found'
      exact ⟨b, found₁⟩
    refine (ih rest_named).imp fun net' ⟨alike, entry⟩ => ⟨flipped.alike.trans alike, fun p => ?_⟩
    have same : net₁.refAt p = net.refAt p := by
      unfold refAt
      rw [flipped.alike.generation]
    rw [entry, same]
    by_cases here : p = ref.place
    · subst here
      rw [refAt_place found, if_pos List.mem_cons_self, flipped.entry_self, (arc_eq_ok.1 found).2]
      split
      · exact congrArg some (idempotent a)
      · rfl
    · have other : net.refAt p ≠ ref := fun h => here (congrArg ArcRef.place h)
      rw [flipped.entry_of_ne here]
      by_cases member : net.refAt p ∈ rest
      · rw [if_pos member, if_pos (List.mem_cons_of_mem _ member)]
      · rw [if_neg member, if_neg fun h => (List.mem_cons.1 h).elim other member]

end Network

namespace DeletionSearch

variable {net net' : Network} {side : Side} {s : DeletionSearch} {ref : ArcRef} {a : Arc}

/-! ## The books -/

/-- The arcs that wait on the queue or were pruned. -/
def waitingArcs (s : DeletionSearch) : List ArcRef := s.queue.map Prod.fst ++ s.pruned

/-- All arcs that are listed somewhere. -/
def listedArcs (s : DeletionSearch) : List ArcRef := s.waitingArcs ++ s.seenArcs

/-- The first arc of the queue is listed. -/
lemma mem_listedArcs {rest : List (ArcRef × Nat)} {depth : Nat} (queue : s.queue = (ref, depth) :: rest) :
    ref ∈ s.listedArcs := by
  unfold listedArcs waitingArcs
  rw [queue]
  exact List.mem_append_left _ (List.mem_append_left _ List.mem_cons_self)

/-- The number of marked arcs of a network. -/
def markedCount (net : Network) : Nat := tally (fun _ a => a.marked) net.outgoing

/-- The books of a search agree. -/
structure Marking (side : Side) (net : Network) (s : DeletionSearch) : Prop where
  /-- A listed arc has an expanded job at its near end and a visited one at its far end. -/
  named : ∀ ref ∈ s.listedArcs, ∃ a, net.arc ref = .ok a ∧
    Visited s.expanded (side.nearEnd ref a) ∧ Visited s.visited (side.farEnd ref a)
  distinct : s.listedArcs.Nodup
  marked : ∀ {p a}, entryAt net.outgoing p = some a → a.marked = true →
    a.permanent = false ∧ net.refAt p ∈ s.waitingArcs
  seen : ∀ {p a}, entryAt net.outgoing p = some a → a.seen = true → net.refAt p ∈ s.seenArcs
  removed : s.removed = markedCount net
  expanded : ∀ v, Visited s.expanded v → Visited s.visited v

/-- An arc that is not listed carries no flags. -/
lemma Marking.unflagged (h : Marking side net s) (found : net.arc ref = .ok a)
    (fresh : ref ∉ s.listedArcs) : a.marked = false ∧ a.seen = false := by
  have entry := (arc_eq_ok.1 found).2
  constructor
  · by_contra marked
    have waiting := (h.marked entry (Bool.not_eq_false _ ▸ marked)).2
    rw [refAt_place found] at waiting
    exact fresh (List.mem_append_left _ waiting)
  · by_contra seen
    have listed := h.seen entry (Bool.not_eq_false _ ▸ seen)
    rw [refAt_place found] at listed
    exact fresh (List.mem_append_right _ listed)

/-- The number of seen arcs is at most the number of arcs. -/
lemma Marking.seen_le (h : Marking side net s) (linked : net.Linked) :
    s.seenArcs.length ≤ net.size := by
  rw [linked.size_eq]
  refine linked.length_le (h.distinct.sublist (List.sublist_append_right _ _)) fun ref member => ?_
  obtain ⟨a, found, -⟩ := h.named ref (List.mem_append_right _ member)
  exact ⟨a, found⟩

/-- Flags play no part in which jobs are at the ends of an arc. -/
lemma ends_of_alike (alike : Alike net net') {P Q : Nat → Prop}
    (named : ∃ a, net.arc ref = .ok a ∧ P (side.nearEnd ref a) ∧ Q (side.farEnd ref a)) :
    ∃ a, net'.arc ref = .ok a ∧ P (side.nearEnd ref a) ∧ Q (side.farEnd ref a) := by
  obtain ⟨a, found, near, far⟩ := named
  obtain ⟨b, found', same⟩ := alike.arc found
  have target : b.bare.target = a.bare.target := congrArg Arc.target same
  change b.target = a.target at target
  refine ⟨b, found', ?_⟩
  cases side with
  | early =>
    dsimp only [Side.nearEnd, Side.farEnd] at near far ⊢
    rw [target]
    exact ⟨near, far⟩
  | late =>
    dsimp only [Side.nearEnd, Side.farEnd] at near far ⊢
    rw [target]
    exact ⟨near, far⟩

/-- The fresh handles of a network that is alike. -/
lemma refAt_alike (alike : Alike net net') (p : Place) : net'.refAt p = net.refAt p := by
  unfold refAt
  rw [alike.generation]

/-! ## Putting an arc on the queue -/

/-- An arc that is put on the queue is listed, besides those that were listed before. -/
lemma listedArcs_push {queue : List (ArcRef × Nat)} {depth : Nat}
    (pushed : queue.Perm ((ref, depth) :: s.queue)) :
    (listedArcs { s with queue }).Perm (ref :: s.listedArcs) :=
  ((pushed.map Prod.fst).append_right _).append_right _

/-- One more arc on the list of waiting arcs. -/
lemma Marking.listed_push (h : Marking side net s) (found : net.arc ref = .ok a)
    (fresh : ref ∉ s.listedArcs) (near : Visited s.expanded (side.nearEnd ref a))
    (far : Visited s.visited (side.farEnd ref a)) {queue : List (ArcRef × Nat)} {depth : Nat}
    (pushed : queue.Perm ((ref, depth) :: s.queue)) :
    (∀ r ∈ listedArcs { s with queue }, ∃ a, net.arc r = .ok a ∧
      Visited s.expanded (side.nearEnd r a) ∧ Visited s.visited (side.farEnd r a)) ∧
      (listedArcs { s with queue }).Nodup := by
  have perm := listedArcs_push pushed
  refine ⟨fun r member => ?_, perm.nodup_iff.2 (List.nodup_cons.2 ⟨fresh, h.distinct⟩)⟩
  rcases List.mem_cons.1 (perm.mem_iff.1 member) with rfl | old
  · exact ⟨a, found, near, far⟩
  · exact h.named r old

/-- An arc of the instance is put on the queue. -/
lemma Marking.push_permanent (h : Marking side net s) (found : net.arc ref = .ok a)
    (fresh : ref ∉ s.listedArcs) (near : Visited s.expanded (side.nearEnd ref a))
    (far : Visited s.visited (side.farEnd ref a)) (depth : Nat) :
    Marking side net { s with queue := (ref, depth) :: s.queue } := by
  obtain ⟨named, distinct⟩ := h.listed_push found fresh near far (.refl ((ref, depth) :: s.queue))
  refine ⟨named, distinct, fun {p a} entry marked => ?_, h.seen, h.removed, h.expanded⟩
  obtain ⟨temporary, waiting⟩ := h.marked entry marked
  exact ⟨temporary, List.mem_cons_of_mem _ waiting⟩

/-- An arc that can be deleted is marked and put on the queue. -/
lemma Marking.push_marked (h : Marking side net s) (found : net.arc ref = .ok a)
    (fresh : ref ∉ s.listedArcs) (near : Visited s.expanded (side.nearEnd ref a))
    (far : Visited s.visited (side.farEnd ref a)) (depth : Nat) (temporary : a.permanent = false)
    (flipped : Flipped ref.place a { a with marked := true } net net') :
    Marking side net'
      { s with queue := s.queue ++ [(ref, depth)], removed := s.removed + 1 } := by
  obtain ⟨named, distinct⟩ := h.listed_push found fresh near far (List.perm_append_singleton _ _)
  have unmarked := (h.unflagged found fresh).1
  have mono : ∀ r ∈ s.waitingArcs,
      r ∈ waitingArcs { s with queue := s.queue ++ [(ref, depth)], removed := s.removed + 1 } := by
    intro r member
    rcases List.mem_append.1 member with queued | pruned
    · refine List.mem_append_left _ ?_
      rw [List.map_append]
      exact List.mem_append_left _ queued
    · exact List.mem_append_right _ pruned
  refine ⟨fun r member => ends_of_alike flipped.alike (named r member), distinct,
    fun {p b} entry marked => ?_, fun {p b} entry seen => ?_, ?_, h.expanded⟩
  · rw [refAt_alike flipped.alike]
    rw [flipped.replaced.entry] at entry
    split at entry
    · rename_i here
      cases entry
      refine ⟨temporary, List.mem_append_left _ ?_⟩
      rw [here, refAt_place found, List.map_append]
      exact List.mem_append_right _ List.mem_cons_self
    · obtain ⟨temporary', waiting⟩ := h.marked entry marked
      exact ⟨temporary', mono _ waiting⟩
  · rw [refAt_alike flipped.alike]
    rw [flipped.replaced.entry] at entry
    split at entry
    · rename_i here
      cases entry
      rw [here]
      exact h.seen (arc_eq_ok.1 found).2 seen
    · exact h.seen entry seen
  · have count := flipped.replaced.tally fun _ a => a.marked
    have before := h.removed
    dsimp only [share] at count
    rw [unmarked] at count
    dsimp only [markedCount] at before ⊢
    simp only [Bool.false_eq_true, if_false, if_true] at count
    omega

/-! ## Taking an arc from the queue -/

/-- Some of the arcs at the front of the queue are pruned, among them all that are marked. -/
structure Skipped (net : Network) (skipped : List (ArcRef × Nat)) (pruned : List ArcRef) :
    Prop where
  sub : pruned.Sublist (skipped.map Prod.fst)
  marked : ∀ e ∈ skipped, ∀ a, net.arc e.1 = .ok a → a.marked = true → e.1 ∈ pruned
  temporary : ∀ r ∈ pruned, ∀ a, net.arc r = .ok a → a.marked = true

/-- Nothing is skipped. -/
lemma Skipped.nil (net : Network) : Skipped net [] [] :=
  ⟨.slnil, fun _ member => absurd member List.not_mem_nil,
    fun _ member => absurd member List.not_mem_nil⟩

/-- One more arc is skipped, which is pruned if it is marked. -/
lemma Skipped.cons {skipped : List (ArcRef × Nat)} {pruned : List ArcRef}
    (h : Skipped net skipped pruned) (found : net.arc ref = .ok a) (depth : Nat) :
    Skipped net ((ref, depth) :: skipped) (if a.marked then ref :: pruned else pruned) := by
  have own : ∀ {a'}, net.arc ref = .ok a' → a' = a := fun found' =>
    Except.ok.inj (found'.symm.trans found)
  cases marked : a.marked with
  | true =>
    rw [if_pos rfl]
    refine ⟨h.sub.cons_cons ref, fun e member b found' marked' => ?_, fun r member b found' => ?_⟩
    · rcases List.mem_cons.1 member with rfl | member
      · exact List.mem_cons_self
      · exact List.mem_cons_of_mem _ (h.marked e member b found' marked')
    · rcases List.mem_cons.1 member with rfl | member
      · rw [own found', marked]
      · exact h.temporary r member b found'
  | false =>
    rw [if_neg Bool.false_ne_true]
    refine ⟨h.sub.cons ref, fun e member b found' marked' => ?_, h.temporary⟩
    rcases List.mem_cons.1 member with rfl | member
    · rw [own found', marked] at marked'
      cases marked'
    · exact h.marked e member b found' marked'

/-- What a search finds when it takes arcs from its queue. -/
def Took (net : Network) (maxDepth : Nat) (pruned : List ArcRef) (queue : List (ArcRef × Nat))
    (r : List ArcRef × Option (ArcRef × Nat × Arc) × List (ArcRef × Nat)) : Prop :=
  ∃ skipped more, Skipped net skipped more ∧ r.1 = pruned ++ more ∧
    match r.2.1 with
    | none => queue = skipped ∧ r.2.2 = []
    | some (ref, depth, a) => queue = skipped ++ (ref, depth) :: r.2.2 ∧ net.arc ref = .ok a ∧
        depth < maxDepth ∧ a.seen = false

/-- Arcs are taken from the queue up to the first one to look at. -/
lemma nextArc_answers (maxDepth : Nat) {queue : List (ArcRef × Nat)} :
    ∀ {pruned : List ArcRef}, (∀ e ∈ queue, ∃ a, net.arc e.1 = .ok a) →
      (nextArc net maxDepth pruned queue).Answers (Took net maxDepth pruned queue) := by
  induction queue with
  | nil =>
    intro pruned _
    exact .ok ⟨[], [], .nil net, (List.append_nil _).symm, rfl, rfl⟩
  | cons first rest ih =>
    obtain ⟨ref, depth⟩ := first
    intro pruned named
    obtain ⟨a, found⟩ := named (ref, depth) List.mem_cons_self
    have rest_named := fun e member => named e (List.mem_cons_of_mem _ member)
    unfold nextArc
    rw [found, ok_bind]
    by_cases skip : maxDepth ≤ depth ∨ a.seen = true
    · rw [if_pos skip]
      refine (ih rest_named).imp fun r ⟨skipped, more, here, same, rest_found⟩ => ?_
      refine ⟨(ref, depth) :: skipped, _, here.cons found depth, ?_, ?_⟩
      · rw [same]
        cases a.marked with
        | true => exact List.append_assoc _ _ _
        | false => rfl
      · match r.2.1, rest_found with
        | none, ⟨queue, empty⟩ => exact ⟨congrArg _ queue, empty⟩
        | some _, ⟨queue, others⟩ => exact ⟨congrArg _ queue, others⟩
    · rw [if_neg skip]
      obtain ⟨shallow, unseen⟩ := not_or.1 skip
      exact .pure ⟨[], [], .nil net, (List.append_nil _).symm, rfl, found,
        Nat.lt_of_not_le shallow, Bool.not_eq_true _ ▸ unseen⟩

/-- The books agree after arcs at the front of the queue were skipped. -/
lemma Marking.skip (h : Marking side net s) {skipped rest : List (ArcRef × Nat)}
    {more : List ArcRef} (queue : s.queue = skipped ++ rest) (skip : Skipped net skipped more) :
    Marking side net { s with pruned := s.pruned ++ more, queue := rest } := by
  have sub : (((more ++ rest.map Prod.fst) ++ s.pruned) ++ s.seenArcs).Sublist s.listedArcs := by
    unfold listedArcs waitingArcs
    rw [queue, List.map_append]
    exact ((skip.sub.append_right _).append_right _).append_right _
  have perm : (((more ++ rest.map Prod.fst) ++ s.pruned) ++ s.seenArcs).Perm
      (listedArcs { s with pruned := s.pruned ++ more, queue := rest }) := by
    refine List.Perm.append_right _ ?_
    rw [List.append_assoc]
    refine List.perm_append_comm.trans ?_
    rw [List.append_assoc]
    exact .refl _
  refine ⟨fun r member => h.named r (sub.subset (perm.mem_iff.2 member)),
    perm.nodup_iff.1 (h.distinct.sublist sub), fun {p a} entry marked => ?_, h.seen, h.removed,
    h.expanded⟩
  obtain ⟨temporary, waiting⟩ := h.marked entry marked
  refine ⟨temporary, ?_⟩
  unfold waitingArcs at waiting
  rw [queue, List.map_append, List.append_assoc, List.mem_append, List.mem_append] at waiting
  unfold waitingArcs
  rw [List.mem_append, List.mem_append]
  rcases waiting with among | among | among
  · obtain ⟨e, member, same⟩ := List.mem_map.1 among
    rw [← same]
    exact .inr (.inr (skip.marked e member a (same ▸ arc_refAt.2 entry) marked))
  · exact .inl among
  · exact .inr (.inl among)

/-- The books agree after the first arc of the queue was seen and its mark was cleared. -/
lemma Marking.take (h : Marking side net s) {rest : List (ArcRef × Nat)} {depth removed : Nat}
    (queue : s.queue = (ref, depth) :: rest) (found : net.arc ref = .ok a)
    (flipped : Flipped ref.place a { a with marked := false, seen := true } net net')
    (counted : removed + share a.marked = s.removed) :
    Marking side net' { s with queue := rest, seenArcs := s.seenArcs ++ [ref], removed } := by
  have listed : s.listedArcs = ref :: (rest.map Prod.fst ++ s.pruned ++ s.seenArcs) := by
    unfold listedArcs waitingArcs
    rw [queue]
    rfl
  have perm : (listedArcs { s with queue := rest, seenArcs := s.seenArcs ++ [ref], removed }).Perm
      s.listedArcs := by
    rw [listed]
    unfold listedArcs waitingArcs
    dsimp only
    rw [← List.append_assoc]
    exact List.perm_append_singleton _ _
  have count := flipped.replaced.tally fun _ a => a.marked
  refine ⟨fun r member => ends_of_alike flipped.alike (h.named r (perm.mem_iff.1 member)),
    perm.nodup_iff.2 h.distinct, fun {p b} entry marked => ?_, fun {p b} entry seen => ?_, ?_,
    h.expanded⟩
  · rw [refAt_alike flipped.alike]
    rw [flipped.replaced.entry] at entry
    split at entry
    · cases entry
      cases marked
    · rename_i other
      obtain ⟨temporary, waiting⟩ := h.marked entry marked
      refine ⟨temporary, ?_⟩
      unfold waitingArcs at waiting
      rw [queue] at waiting
      rcases List.mem_cons.1 waiting with same | later
      · exact absurd (congrArg ArcRef.place same) other
      · exact later
  · rw [refAt_alike flipped.alike]
    rw [flipped.replaced.entry] at entry
    split at entry
    · rename_i here
      rw [here, refAt_place found]
      exact List.mem_append_right _ List.mem_cons_self
    · exact List.mem_append_left _ (h.seen entry seen)
  · have before := h.removed
    dsimp only [share] at count counted
    dsimp only [markedCount] at before ⊢
    simp only [Bool.false_eq_true, if_false] at count
    omega

/-! ## The end of a search -/

/-- No flag is left after the marks of the pruned arcs and of those on the queue and the flags of the seen
arcs were cleared. -/
lemma Marking.clean {net₁ net₂ net₃ : Network} (h : Marking side net s)
    (first : Adjusted s.pruned (fun a => { a with marked := false }) net net₁)
    (second : Adjusted (s.queue.map Prod.fst) (fun a => { a with marked := false }) net₁ net₂)
    (third : Adjusted s.seenArcs (fun a => { a with seen := false }) net₂ net₃) : net₃.flagged = 0 := by
  rw [flagged_eq_zero]
  intro p c found
  obtain ⟨b, found₂, last⟩ := third.before found
  obtain ⟨b', found₁, middle⟩ := second.before found₂
  obtain ⟨a, found₀, start⟩ := first.before found₁
  rw [refAt_alike (first.alike.trans second.alike)] at last
  rw [refAt_alike first.alike] at middle
  have unmarked : b.marked = false := by
    rcases middle with ⟨-, rfl⟩ | ⟨notQueued, rfl⟩
    · rfl
    · rcases start with ⟨-, rfl⟩ | ⟨notPruned, rfl⟩
      · rfl
      · by_contra marked
        have waiting := (h.marked found₀ (Bool.not_eq_false _ ▸ marked)).2
        exact (List.mem_append.1 waiting).elim notQueued notPruned
  have seen : b.seen = a.seen := by
    rcases middle with ⟨-, rfl⟩ | ⟨-, rfl⟩ <;> rcases start with ⟨-, rfl⟩ | ⟨-, rfl⟩ <;> rfl
  rcases last with ⟨-, rfl⟩ | ⟨notSeen, rfl⟩
  · exact ⟨unmarked, rfl⟩
  · refine ⟨unmarked, ?_⟩
    by_contra isSeen
    rw [seen] at isSeen
    exact notSeen (h.seen found₀ (Bool.not_eq_false _ ▸ isSeen))

/-- A search that clears all its flags leaves the network as it was. -/
lemma Marking.finish {net₀ : Network} (h : Marking side net s) (alike : Alike net₀ net)
    (clean : net₀.flagged = 0) :
    s.finish net = .ok ({ s with queue := [], pruned := [], seenArcs := [] }, net₀) := by
  have named : ∀ {net' : Network}, Alike net net' → ∀ r ∈ s.listedArcs, ∃ a, net'.arc r = .ok a := by
    intro net' alike r member
    obtain ⟨a, found, -⟩ := h.named r member
    obtain ⟨b, found', -⟩ := alike.arc found
    exact ⟨b, found'⟩
  have pruned_listed : ∀ r ∈ s.pruned, r ∈ s.listedArcs := fun r member =>
    List.mem_append_left _ (List.mem_append_right _ member)
  have queue_listed : ∀ r ∈ s.queue.map Prod.fst, r ∈ s.listedArcs := fun r member =>
    List.mem_append_left _ (List.mem_append_left _ member)
  obtain ⟨net₁, cleared₁, first⟩ :=
    adjustAll_answers (f := fun a => { a with marked := false }) (fun _ => rfl) (fun _ => rfl)
      fun r member => named rfl r (pruned_listed r member)
  obtain ⟨net₂, cleared₂, second⟩ :=
    adjustAll_answers (f := fun a => { a with marked := false }) (fun _ => rfl) (fun _ => rfl)
      fun r member => named first.alike r (queue_listed r member)
  have alike₂ := first.alike.trans second.alike
  obtain ⟨net₃, cleared₃, third⟩ :=
    adjustAll_answers (f := fun a => { a with seen := false }) (fun _ => rfl) (fun _ => rfl)
      fun r member => named alike₂ r (List.mem_append_right _ member)
  have restored := (alike.trans (alike₂.trans third.alike)).eq clean (h.clean first second third)
  unfold DeletionSearch.finish
  dsimp only
  rw [cleared₁, ok_bind, cleared₂, ok_bind, cleared₃, ok_bind, restored]
  rfl

end DeletionSearch

end Leveling
