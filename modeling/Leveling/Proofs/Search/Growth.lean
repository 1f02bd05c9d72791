import Leveling.Proofs.Bounds.Exact
import Leveling.Proofs.Network.Flags
import Leveling.Proofs.Search.Settling
import Mathlib.Data.Finset.Prod
import Mathlib.Data.Multiset.Filter
import Mathlib.Data.Multiset.MapFold

/-!
# The arcs of a search

A search keeps the precedences of the instance as its permanent arcs.  The other arcs are its own:
each of them has the duration of its source as its lag.  It never inserts an arc between two jobs
where there is one already, so there are at most half as many arcs as pairs of jobs, and between two
searches for a deletion no arc carries a flag.
-/

namespace Leveling

open Checked Network

/-- The two ends of an edge. -/
def Edge.ends (e : Edge) : Nat × Nat := (e.source, e.target)

namespace Network

variable {α : Type} {p : Problem α} {net net' : Network} {s t u w : Nat} {lag : Int}
  {refs : List ArcRef}

/-! ## Counting arcs -/

/-- There are as many edges as arcs. -/
lemma Linked.card_edges (linked : net.Linked) : net.edges.card = net.size := by
  rw [linked.size_eq, ← linked.arcs, edges, Multiset.coe_card, List.length_map,
    ← List.countP_true, ← countP_arcs]

/-- If the arcs close no cycle and no two of them have the same ends, there are at most half as many
arcs as pairs of jobs. -/
lemma Linked.two_mul_size_le (linked : net.Linked) (acyclic : Acyclic net.HasArc)
    (simple : (net.edges.map Edge.ends).Nodup) : 2 * net.size ≤ net.numJobs * net.numJobs := by
  let pairs : Finset (Nat × Nat) := ⟨net.edges.map Edge.ends, simple⟩
  let swapped : Finset (Nat × Nat) := pairs.map (Equiv.prodComm Nat Nat).toEmbedding
  have card : pairs.card = net.size := (Multiset.card_map _ _).trans linked.card_edges
  have arc_of : ∀ {u w}, (u, w) ∈ pairs → ∃ lag, net.HasArc u w lag := by
    intro u w member
    have listed : (u, w) ∈ net.edges.map Edge.ends := member
    obtain ⟨⟨u', w', lag, permanent⟩, isEdge, same⟩ := Multiset.mem_map.1 listed
    obtain ⟨rfl, rfl⟩ := Prod.mk.inj same
    exact ⟨lag, permanent, isEdge⟩
  have apart : Disjoint pairs swapped := by
    refine Finset.disjoint_left.2 fun pair member back => ?_
    obtain ⟨u, w⟩ := pair
    obtain ⟨⟨w', u'⟩, member', same⟩ := Finset.mem_map.1 back
    obtain ⟨rfl, rfl⟩ := Prod.mk.inj same
    exact acyclic w' (.tail (.single (arc_of member')) (arc_of member))
  have inside : pairs ∪ swapped ⊆ Finset.range net.numJobs ×ˢ Finset.range net.numJobs := by
    have ends : ∀ {u w}, (u, w) ∈ pairs → u < net.numJobs ∧ w < net.numJobs := fun member => by
      obtain ⟨lag, arc⟩ := arc_of member
      have leads : net.Leads .early _ _ lag := arc
      exact linked.lt_of_leads leads
    rintro ⟨u, w⟩ member
    rw [Finset.mem_product, Finset.mem_range, Finset.mem_range]
    rcases Finset.mem_union.1 member with here | there
    · exact ends here
    · obtain ⟨⟨w', u'⟩, member', same⟩ := Finset.mem_map.1 there
      obtain ⟨rfl, rfl⟩ := Prod.mk.inj same
      exact (ends member').symm
  have total := Finset.card_le_card inside
  rw [Finset.card_union_of_disjoint apart, Finset.card_map, Finset.card_product,
    Finset.card_range, card] at total
  omega

/-! ## Permanent arcs and others -/

/-- The arcs of a network that a search has worked on. -/
structure Grown (p : Problem α) (net : Network) : Prop where
  permanent : net.edges.filter (fun e => e.permanent = true) =
    (p.precedences.map Precedence.edge : List Edge)
  temporary : ∀ e ∈ net.edges, e.permanent = false → e.lag = p.durationOf e.source
  simple : (net.edges.map Edge.ends).Nodup
  clean : net.flagged = 0

/-- The network of an instance, in which all arcs are permanent. -/
lemma grown_base [Scalar α] (built : p.Built) {F : Frame} (base : p.Base F net) :
    Grown p net where
  permanent := by
    rw [base.edges, Multiset.filter_eq_self]
    intro e member
    obtain ⟨q, -, rfl⟩ := List.mem_map.1 (Multiset.mem_coe.1 member)
    rfl
  temporary e member temporary := by
    rw [base.edges] at member
    obtain ⟨q, -, rfl⟩ := List.mem_map.1 (Multiset.mem_coe.1 member)
    cases temporary
  simple := by
    rw [base.edges, Multiset.map_coe, Multiset.coe_nodup, List.map_map]
    refine List.pairwise_map.2 (built.increasing.imp fun {q q'} less same => ?_)
    obtain ⟨source, target⟩ := Prod.mk.inj same
    have equal : q.pair = q'.pair := by
      unfold Precedence.pair
      rw [show q.source = q'.source from source, show q.target = q'.target from target]
    exact absurd less (equal ▸ lt_irrefl _)
  clean := base.clean

/-- Going back to the instance keeps its arcs. -/
lemma Grown.generation (grown : Grown p net) (g : Nat) :
    Grown p { net with generation := g } :=
  ⟨grown.permanent, grown.temporary, grown.simple, grown.clean⟩

/-- An arc is inserted where there is none yet. -/
lemma Grown.insert (grown : Grown p net) (fresh : ¬Joined net.HasArc s t)
    (inserted : net.Inserted s t (p.durationOf s) false net') : Grown p net' where
  permanent := by
    rw [inserted.edges, Multiset.filter_cons_of_neg _ (by simp), grown.permanent]
  temporary e member temporary := by
    rw [inserted.edges, Multiset.mem_cons] at member
    rcases member with rfl | old
    · rfl
    · exact grown.temporary e old temporary
  simple := by
    rw [inserted.edges, Multiset.map_cons, Multiset.nodup_cons]
    refine ⟨fun member => ?_, grown.simple⟩
    obtain ⟨⟨u, w, lag, permanent⟩, isEdge, same⟩ := Multiset.mem_map.1 member
    obtain ⟨rfl, rfl⟩ := Prod.mk.inj same
    exact fresh ⟨lag, permanent, isEdge⟩
  clean := inserted.flagged.trans grown.clean

/-- No permanent arc is among those that may be deleted. -/
lemma temporary_of_denoted (deletable : ∀ ref ∈ refs, net.Deletable ref) {e : Edge}
    (member : e ∈ net.denoted refs) : e.permanent = false := by
  obtain ⟨ref, among, named⟩ := List.mem_filterMap.1 (Multiset.mem_coe.1 member)
  obtain ⟨a, found, rfl⟩ := Option.map_eq_some_iff.1 named
  obtain ⟨b, answer, temporary⟩ := deletable ref (List.mem_dedup.1 among)
  obtain rfl := Option.some.inj (found.symm.trans (arc_eq_ok.1 answer).2)
  exact temporary

/-- Arcs are deleted that are not permanent. -/
lemma Grown.delete (grown : Grown p net) (deletable : ∀ ref ∈ refs, net.Deletable ref)
    (deleted : net.Deleted refs net') : Grown p net' where
  permanent := by
    have gone : (net.denoted refs).filter (fun e => e.permanent = true) = 0 := by
      refine Multiset.filter_eq_nil.2 fun e member permanent => ?_
      rw [temporary_of_denoted deletable member] at permanent
      cases permanent
    rw [← grown.permanent, ← deleted.edges, Multiset.filter_add, gone, Multiset.add_zero]
  temporary e member temporary := by
    refine grown.temporary e ?_ temporary
    rw [← deleted.edges]
    exact Multiset.mem_add.2 (.inl member)
  simple := by
    refine Multiset.nodup_of_le (Multiset.map_le_map ?_) grown.simple
    rw [← deleted.edges]
    exact Multiset.le_add_right _ _
  clean := by
    have fewer := deleted.flagged
    rw [grown.clean] at fewer
    exact Nat.le_zero.1 fewer

/-- The precedences are arcs. -/
lemma Grown.hasArc_of_mem (grown : Grown p net) {q : Precedence} (member : q ∈ p.precedences) :
    net.HasArc q.source q.target q.lag := by
  have listed : q.edge ∈ net.edges.filter fun e => e.permanent = true := by
    rw [grown.permanent]
    exact Multiset.mem_coe.2 (List.mem_map_of_mem member)
  exact ⟨true, (Multiset.mem_filter.1 listed).1⟩

/-- If no precedence has a lag shorter than the duration of its source, no arc has. -/
lemma Grown.lag_le (grown : Grown p net)
    (spacious : ∀ q ∈ p.precedences, p.durationOf q.source ≤ q.lag)
    (arc : net.HasArc u w lag) : p.durationOf u ≤ lag := by
  obtain ⟨permanent, isEdge⟩ := arc
  cases permanent with
  | true =>
    have listed : (⟨u, w, lag, true⟩ : Edge) ∈ net.edges.filter fun e => e.permanent = true :=
      Multiset.mem_filter.2 ⟨isEdge, rfl⟩
    rw [grown.permanent] at listed
    obtain ⟨q, member, same⟩ := List.mem_map.1 (Multiset.mem_coe.1 listed)
    obtain ⟨rfl, -, rfl, -⟩ := Edge.mk.inj same
    exact spacious q member
  | false => exact le_of_eq (grown.temporary _ isEdge rfl).symm

end Network

end Leveling
