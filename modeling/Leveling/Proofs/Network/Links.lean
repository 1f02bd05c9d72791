import Leveling.Network.Query
import Leveling.Proofs.Network.Pairing
import Mathlib.Data.Multiset.Count

/-!
# Linked networks

A network is *linked* if each arc and its counterpart point at each other and the recorded
number of arcs is right on both sides.  Apart from its own bookkeeping, a linked network is no
more than the multiset of its edges.  This file states what an insertion, a change of an arc's
flags and a restoration do to the two.  Deletions have a file of their own.
-/

namespace Leveling

open Checked

/-- The place of the counterpart of an arc. -/
def Arc.back (a : Arc) : Network.Place := (a.target, a.backSlot)

/-- The place of the arc of a counterpart. -/
def BackArc.forth (r : BackArc) : Network.Place := (r.source, r.slot)

/-- An edge between two jobs, apart from where a network holds it. -/
structure Edge where
  source : Nat
  target : Nat
  lag : Int
  permanent : Bool
deriving DecidableEq

/-- The edge of an arc of `source`. -/
def Arc.edge (source : Nat) (a : Arc) : Edge := ⟨source, a.target, a.lag, a.permanent⟩

namespace Network

/-- The edges of a network. -/
def edges (net : Network) : Multiset Edge := (net.arcs.map fun (v, a) => a.edge v : List Edge)

/-- The number of arcs that carry a flag of a deletion search. -/
def flagged (net : Network) : Nat := tally (fun _ a => a.marked || a.seen) net.outgoing

/-- Arcs and counterparts point at each other, and their number is the recorded one. -/
structure Linked (net : Network) : Prop where
  size : net.incoming.size = net.outgoing.size
  paired : PairedExcept Arc.back BackArc.forth [] [] net.outgoing net.incoming
  arcs : tally (fun _ _ => true) net.outgoing = net.arcCount
  counterparts : tally (fun _ _ => true) net.incoming = net.arcCount

/-- The counterpart of an arc points back at it. -/
lemma Linked.mirror {net : Network} (h : net.Linked) {p : Place} {a : Arc}
    (hp : entryAt net.outgoing p = some a) :
    entryAt net.incoming a.back = some ⟨p.1, p.2⟩ := by
  obtain ⟨-, r, hr, same⟩ := h.paired.forth hp List.not_mem_nil
  rw [hr, ← same]
  rfl

/-- The arc of a counterpart points back at it. -/
lemma Linked.origin {net : Network} (h : net.Linked) {q : Place} {r : BackArc}
    (hq : entryAt net.incoming q = some r) :
    ∃ a, entryAt net.outgoing r.forth = some a ∧ a.back = q := by
  obtain ⟨-, a, ha, same⟩ := h.paired.back hq List.not_mem_nil
  exact ⟨a, ha, same⟩

/-- The ends of an arc are jobs of the network. -/
lemma Linked.lt_of_arc {net : Network} (h : net.Linked) {p : Place} {a : Arc}
    (hp : entryAt net.outgoing p = some a) : p.1 < net.numJobs ∧ a.target < net.numJobs := by
  obtain ⟨hv, -⟩ := lt_of_entryAt hp
  obtain ⟨ht, -⟩ := lt_of_entryAt (h.mirror hp)
  rw [h.size] at ht
  exact ⟨hv, ht⟩

/-! ## Counting edges -/

/-- Counting the entries with a property list by list. -/
lemma countP_flatMap_zipIdx {β δ : Type} (d : δ → Bool) (c : Nat → β → Bool)
    (f : Array β × Nat → List δ)
    (each : ∀ list v, (f (list, v)).countP d = list.toList.countP (c v)) :
    ∀ (l : List (Array β)) (k : Nat), ((l.zipIdx k).flatMap f).countP d =
      weightFrom (fun v list => list.toList.countP (c v)) k l
  | [], _ => rfl
  | list :: l, k => by
    rw [List.zipIdx_cons, List.flatMap_cons, List.countP_append, each,
      countP_flatMap_zipIdx d c f each l (k + 1), weightFrom]

/-- The number of arcs with a property. -/
lemma countP_arcs (net : Network) (c : Nat → Arc → Bool) :
    net.arcs.countP (fun (v, a) => c v a) = tally c net.outgoing := by
  refine countP_flatMap_zipIdx _ c _ (fun list v => ?_) _ 0
  rw [List.countP_map]
  rfl

/-- The number of entries is the number of those that satisfy no condition at all. -/
lemma length_entries {β : Type} (lists : Array (Array β)) :
    (entries lists).length = tally (fun _ _ => true) lists := by
  rw [← List.countP_true]
  refine countP_flatMap_zipIdx (fun _ => true) _ _ (fun list v => ?_) _ 0
  simp

/-- How often an edge occurs. -/
lemma count_edges (net : Network) (e : Edge) :
    net.edges.count e = tally (fun v a => a.edge v == e) net.outgoing := by
  rw [edges, Multiset.coe_count, List.count, List.countP_map, ← countP_arcs]
  rfl

/-- The pairs of a job and one of its arcs are the entries of the lists. -/
lemma mem_arcs {net : Network} {v : Nat} {a : Arc} :
    (v, a) ∈ net.arcs ↔ ∃ i, entryAt net.outgoing (v, i) = some a := by
  unfold arcs entryAt
  simp only [List.mem_flatMap, List.mem_map, Prod.mk.injEq, Option.bind_eq_some_iff]
  constructor
  · rintro ⟨⟨list, w⟩, member, b, inside, rfl, rfl⟩
    have found := List.mem_zipIdx_iff_getElem?.1 member
    obtain ⟨i, hi⟩ := List.mem_iff_getElem?.1 inside
    exact ⟨i, list, by simpa using found, by simpa using hi⟩
  · rintro ⟨i, list, found, inside⟩
    refine ⟨(list, v), List.mem_zipIdx_iff_getElem?.2 (by simpa using found), a, ?_, rfl, rfl⟩
    exact List.mem_iff_getElem?.2 ⟨i, by simpa using inside⟩

/-- An edge occurs if one of the arcs has it. -/
lemma mem_edges {net : Network} {e : Edge} :
    e ∈ net.edges ↔ ∃ p a, entryAt net.outgoing p = some a ∧ a.edge p.1 = e := by
  simp only [edges, Multiset.mem_coe, List.mem_map, Prod.exists]
  constructor
  · rintro ⟨v, a, member, rfl⟩
    obtain ⟨i, hi⟩ := mem_arcs.1 member
    exact ⟨v, i, a, hi, rfl⟩
  · rintro ⟨v, i, a, hi, rfl⟩
    exact ⟨v, a, mem_arcs.2 ⟨i, hi⟩, rfl⟩

/-! ## The empty network -/

/-- The network without arcs is linked. -/
lemma linked_empty (n : Nat) : (empty n).Linked where
  size := by simp [empty]
  paired := ⟨fun h => by simp [empty] at h, fun h => by simp [empty] at h⟩
  arcs := tally_replicate _ n
  counterparts := tally_replicate _ n

/-- The network without arcs has no edges. -/
@[simp] lemma edges_empty (n : Nat) : (empty n).edges = 0 := by
  ext e
  rw [count_edges, Multiset.count_zero]
  exact tally_replicate _ n

/-- The network without arcs carries no flags. -/
lemma flagged_empty (n : Nat) : (empty n).flagged = 0 := tally_replicate _ n

/-! ## Insertions -/

/-- What an insertion does to a network. -/
structure Inserted (net : Network) (s t : Nat) (lag : Int) (permanent : Bool)
    (net' : Network) : Prop where
  linked : net'.Linked
  numJobs : net'.numJobs = net.numJobs
  edges : net'.edges = ⟨s, t, lag, permanent⟩ ::ₘ net.edges
  /-- The arcs that were there stay where they are. -/
  kept : ∀ {p a}, entryAt net.outgoing p = some a → entryAt net'.outgoing p = some a
  flagged : net'.flagged = net.flagged

/-- An insertion between two jobs of a linked network answers with a linked network that has one
more edge. -/
lemma Linked.insert {net : Network} (h : net.Linked) {s t : Nat} (hs : s < net.numJobs)
    (ht : t < net.numJobs) (lag : Int) (permanent : Bool) :
    (net.insert s t lag permanent).Answers (net.Inserted s t lag permanent) := by
  have ht' : t < net.incoming.size := by
    rw [h.size]
    exact ht
  unfold Network.insert
  rw [fetch_of_lt hs, ok_bind, fetch_of_lt ht', ok_bind, ← lengthAt_of_lt ht', ← lengthAt_of_lt hs]
  refine (adjust_push ht' _).bind fun B pushed' => ?_
  refine (adjust_push hs _).bind fun A pushed => .pure ?_
  refine ⟨⟨?_, h.paired.pushed rfl rfl pushed pushed', ?_, ?_⟩, pushed.size, ?_, ?_,
    pushed.tally _⟩
  · exact pushed'.size.trans (h.size.trans pushed.size.symm)
  · rw [pushed.tally, h.arcs, share, if_pos rfl]
  · rw [pushed'.tally, h.counterparts, share, if_pos rfl]
  · ext e
    rw [count_edges, pushed.tally, Multiset.count_cons, count_edges]
    simp only [Arc.edge, share, beq_iff_eq, eq_comm (a := e)]
  · intro p a hp
    rw [pushed.entry, if_neg, hp]
    intro behind
    have inside : p.2 < lengthAt net.outgoing p.1 := entryAt_isSome.1 (hp ▸ rfl)
    rw [behind] at inside
    exact Nat.lt_irrefl _ inside

/-! ## Restoration -/

/-- Lists that are overwritten by as many others are those. -/
lemma overwrite_of_size {β : Type} {own base : Array (Array β)} (size : own.size = base.size) :
    overwrite own base = base := by
  refine Array.ext (by simp [overwrite, size]) fun v _ hv => ?_
  simp [overwrite, hv]

/-- A network of as many jobs is restored completely. -/
lemma restore_of_linked {net base : Network} (h : net.Linked) (h' : base.Linked)
    (size : net.numJobs = base.numJobs) :
    net.restore base = { base with generation := net.generation + 1 } := by
  have size' : net.incoming.size = base.incoming.size := by
    rw [h.size, h'.size]
    exact size
  rw [restore, overwrite_of_size size, overwrite_of_size size']

/-- The generation plays no part in the links. -/
lemma Linked.generation {net : Network} (h : net.Linked) (g : Nat) :
    { net with generation := g }.Linked := ⟨h.size, h.paired, h.arcs, h.counterparts⟩

end Network

end Leveling
