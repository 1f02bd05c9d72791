import Leveling.Proofs.Network.Delete
import Leveling.Proofs.Walks
import Leveling.Search.Deletion

/-!
# The arcs of a network as a relation

The bounds of the jobs depend on the arcs of a network only as far as they say which job is
followed by which one after which lag.  A bound of the early side travels along the arcs, a
bound of the late side against them, so each side has a relation of its own.  The lists of
neighbours that a network answers with are exactly the neighbours in these relations.
-/

namespace Leveling

open Checked

namespace Network

/-- An arc of lag `lag` leads from `u` to `w`. -/
def HasArc (net : Network) (u w : Nat) (lag : Int) : Prop :=
  ∃ permanent, (⟨u, w, lag, permanent⟩ : Edge) ∈ net.edges

/-- A bound of a side travels from `u` to `w` over an arc of lag `lag`. -/
def Leads (net : Network) : Side → Nat → Nat → Int → Prop
  | .early => net.HasArc
  | .late => reversed net.HasArc

/-- A bound of a side travels from `u` to `w` over the arc `a`. -/
def Step (net : Network) : Side → Nat → Nat → Arc → Prop
  | .early, u, w, a => ∃ i, entryAt net.outgoing (u, i) = some a ∧ a.target = w
  | .late, u, w, a => ∃ i, entryAt net.outgoing (w, i) = some a ∧ a.target = u

variable {net net' : Network} {side : Side} {u v w : Nat} {lag : Int} {a : Arc}

/-- The arcs from `u` to `w` are the entries in the list of `u` that have the target `w`. -/
lemma hasArc_iff : net.HasArc u w lag ↔ ∃ a, net.Step .early u w a ∧ a.lag = lag := by
  unfold HasArc Step
  simp only [mem_edges, Arc.edge, Edge.mk.injEq, Prod.exists]
  constructor
  · rintro ⟨_, v, i, a, found, rfl, target, lag, -⟩
    exact ⟨a, ⟨i, found, target⟩, lag⟩
  · rintro ⟨a, ⟨i, found, target⟩, lag⟩
    exact ⟨_, u, i, a, found, rfl, target, lag, rfl⟩

/-- A bound travels from `u` to `w` over the arcs between them. -/
lemma leads_iff : net.Leads side u w lag ↔ ∃ a, net.Step side u w a ∧ a.lag = lag := by
  cases side with
  | early => exact hasArc_iff
  | late => exact hasArc_iff

/-- Both ends of an arc are jobs. -/
lemma Linked.lt_of_step (linked : net.Linked) (step : net.Step side u w a) :
    u < net.numJobs ∧ w < net.numJobs := by
  cases side with
  | early =>
    obtain ⟨i, found, rfl⟩ := step
    exact linked.lt_of_arc found
  | late =>
    obtain ⟨i, found, rfl⟩ := step
    exact (linked.lt_of_arc found).symm

/-- A bound travels between jobs. -/
lemma Linked.lt_of_leads (linked : net.Linked) (arc : net.Leads side u w lag) :
    u < net.numJobs ∧ w < net.numJobs := by
  obtain ⟨a, step, -⟩ := leads_iff.1 arc
  exact linked.lt_of_step step

/-- If the arcs close no cycle, they close none against their direction either. -/
lemma acyclic_leads (acyclic : Acyclic net.HasArc) (side : Side) : Acyclic (net.Leads side) := by
  cases side with
  | early => exact acyclic
  | late => exact acyclic.reversed

/-! ## Neighbours -/

/-- The entries of a list that exists. -/
lemma mem_list_iff {β : Type} {lists : Array (Array β)} (hv : v < lists.size) {x : β} :
    x ∈ lists[v].toList ↔ ∃ i, entryAt lists (v, i) = some x := by
  simp only [entryAt_of_lt hv, List.mem_iff_getElem?, Array.getElem?_toList]

/-- The arc at a place. -/
def arcAt (net : Network) (p : Place) : Arc := (entryAt net.outgoing p).getD default

/-- The neighbours of a job over the arcs that leave it. -/
lemma onward_early (hv : v < net.numJobs) :
    (net.onward .early v).Answers fun l => ∀ w a, (w, a) ∈ l ↔ net.Step .early v w a := by
  unfold Network.onward
  rw [fetch_of_lt hv, ok_bind]
  refine .pure fun w a => ?_
  rw [List.mem_map]
  constructor
  · rintro ⟨b, member, same⟩
    obtain ⟨rfl, rfl⟩ := Prod.mk.inj same
    obtain ⟨i, found⟩ := (mem_list_iff hv).1 member
    exact ⟨i, found, rfl⟩
  · rintro ⟨i, found, rfl⟩
    exact ⟨a, (mem_list_iff hv).2 ⟨i, found⟩, rfl⟩

/-- The arc of a counterpart is fetched from the list of its source. -/
lemma Linked.fetch_forth (linked : net.Linked) {q : Place} {r : BackArc}
    (entry : entryAt net.incoming q = some r) :
    (do fetch (← fetch net.outgoing r.source) r.slot : Checked Arc) = .ok (net.arcAt r.forth) := by
  obtain ⟨a, found, -⟩ := linked.origin entry
  have hr : r.source < net.outgoing.size := (lt_of_entryAt found).1
  have inside : net.outgoing[r.source][r.slot]? = some a := by
    rw [← found, ← entryAt_of_lt hr]
    rfl
  rw [fetch_of_lt hr, ok_bind, fetch_of_getElem? inside, arcAt, found]
  rfl

/-- The neighbours of a job over the arcs that lead to it. -/
lemma Linked.onward_late (linked : net.Linked) (hv : v < net.numJobs) :
    (net.onward .late v).Answers fun l => ∀ w a, (w, a) ∈ l ↔ net.Step .late v w a := by
  have hv' : v < net.incoming.size := lt_of_lt_of_eq hv linked.size.symm
  have each : ∀ r ∈ net.incoming[v].toList, (do
      return (r.source, ← fetch (← fetch net.outgoing r.source) r.slot) : Checked (Nat × Arc)) =
        .ok (r.source, net.arcAt r.forth) := by
    intro r member
    obtain ⟨j, entry⟩ := (mem_list_iff hv').1 member
    rw [← bind_assoc, linked.fetch_forth entry]
    rfl
  unfold Network.onward
  rw [fetch_of_lt hv', ok_bind, mapM_eq_ok each]
  refine .ok fun w a => ?_
  rw [List.mem_map]
  constructor
  · rintro ⟨r, member, same⟩
    obtain ⟨j, entry⟩ := (mem_list_iff hv').1 member
    obtain ⟨b, hb, back⟩ := linked.origin entry
    obtain ⟨rfl, rfl⟩ := Prod.mk.inj same
    refine ⟨r.slot, ?_, ?_⟩
    · rw [arcAt, hb]
      exact hb
    · rw [arcAt, hb]
      exact congrArg Prod.fst back
  · rintro ⟨i, found, rfl⟩
    refine ⟨⟨w, i⟩, (mem_list_iff hv').2 ⟨a.backSlot, linked.mirror found⟩, ?_⟩
    rw [arcAt, BackArc.forth, found]
    rfl

/-- The neighbours of a job are those to which a bound travels from it. -/
lemma Linked.onward (linked : net.Linked) (side : Side) (hv : v < net.numJobs) :
    (net.onward side v).Answers fun l => ∀ w a, (w, a) ∈ l ↔ net.Step side v w a := by
  cases side with
  | early => exact onward_early hv
  | late => exact linked.onward_late hv

/-- The neighbours of a job in the other direction are those from which a bound travels to it. -/
lemma Linked.backward (linked : net.Linked) (side : Side) (hv : v < net.numJobs) :
    (net.backward side v).Answers fun l => ∀ u a, (u, a) ∈ l ↔ net.Step side u v a := by
  cases side with
  | early => exact linked.onward .late hv
  | late => exact linked.onward .early hv

/-! ## Changes -/

/-- One more edge is one more arc. -/
lemma hasArc_cons {s t : Nat} {lag' : Int} {permanent : Bool}
    (edges : net'.edges = ⟨s, t, lag', permanent⟩ ::ₘ net.edges) :
    net'.HasArc u w lag ↔ net.HasArc u w lag ∨ (u = s ∧ w = t ∧ lag = lag') := by
  unfold HasArc
  simp only [edges, Multiset.mem_cons, Edge.mk.injEq]
  constructor
  · rintro ⟨p, ⟨rfl, rfl, rfl, -⟩ | old⟩
    · exact .inr ⟨rfl, rfl, rfl⟩
    · exact .inl ⟨p, old⟩
  · rintro (⟨p, old⟩ | ⟨rfl, rfl, rfl⟩)
    · exact ⟨p, .inr old⟩
    · exact ⟨permanent, .inl ⟨rfl, rfl, rfl, rfl⟩⟩

/-- An insertion adds its arc. -/
lemma Inserted.hasArc_iff {s t : Nat} {lag' : Int} {permanent : Bool}
    (h : net.Inserted s t lag' permanent net') :
    net'.HasArc u w lag ↔ net.HasArc u w lag ∨ (u = s ∧ w = t ∧ lag = lag') := hasArc_cons h.edges

/-- A deletion adds no arc. -/
lemma Deleted.hasArc {refs : List ArcRef} (h : net.Deleted refs net') (arc : net'.HasArc u w lag) :
    net.HasArc u w lag := by
  obtain ⟨p, member⟩ := arc
  refine ⟨p, ?_⟩
  rw [← h.edges]
  exact Multiset.mem_add.2 (.inl member)

/-- After a deletion bounds travel over no other arcs than before. -/
lemma Deleted.leads {refs : List ArcRef} (h : net.Deleted refs net')
    (arc : net'.Leads side u w lag) : net.Leads side u w lag := by
  cases side with
  | early => exact h.hasArc arc
  | late => exact h.hasArc arc

/-- An arc that is gone after a deletion is one of those that the handles name. -/
lemma Deleted.exists_ref {refs : List ArcRef} (h : net.Deleted refs net')
    (arc : net.HasArc u w lag) (gone : ¬net'.HasArc u w lag) :
    ∃ ref ∈ refs, ∃ a, entryAt net.outgoing ref.place = some a ∧ ref.source = u ∧ a.target = w := by
  obtain ⟨p, member⟩ := arc
  rw [← h.edges, Multiset.mem_add] at member
  rcases member with kept | deleted
  · exact absurd ⟨p, kept⟩ gone
  · obtain ⟨ref, among, named⟩ := List.mem_filterMap.1 deleted
    obtain ⟨a, found, same⟩ := Option.map_eq_some_iff.1 named
    obtain ⟨source, target, -, -⟩ := Edge.mk.inj same
    exact ⟨ref, List.mem_dedup.1 among, a, found, source, target⟩

/-- The empty network has no arcs. -/
lemma not_hasArc_empty (n : Nat) : ¬(empty n).HasArc u w lag := by
  rintro ⟨p, member⟩
  rw [edges_empty] at member
  exact Multiset.notMem_zero _ member

/-! ## Ends of arcs -/

section

variable {refs : List ArcRef} {seeds : List Nat}

/-- The jobs are the ends of the named arcs to which bounds of the side travel: the targets on the early
side and the sources on the late side.  They may be listed in any order and more than once. -/
def Ends (net : Network) (refs : List ArcRef) (side : Side) (seeds : List Nat) : Prop :=
  ∀ v, v ∈ seeds ↔ ∃ ref ∈ refs, ∃ a, net.arc ref = .ok a ∧ side.nearEnd ref a = v

/-- The end of a single arc. -/
lemma ends_singleton {ref : ArcRef} {a : Arc} (found : net.arc ref = .ok a) (side : Side) :
    net.Ends [ref] side [side.nearEnd ref a] := by
  intro v
  simp [found, eq_comm]

/-- The ends of the arcs that may be deleted are listed. -/
lemma nearEnds_answers (side : Side) (deletable : ∀ ref ∈ refs, net.Deletable ref) :
    (refs.mapM fun ref => do return side.nearEnd ref (← net.arc ref) : Checked (List Nat)).Answers
      (net.Ends refs side) := by
  have each : ∀ ref ∈ refs, (do return side.nearEnd ref (← net.arc ref) : Checked Nat) =
      .ok (side.nearEnd ref (net.arcAt ref.place)) := by
    intro ref member
    obtain ⟨a, found, -⟩ := deletable ref member
    rw [found, ok_bind, arcAt, (arc_eq_ok.1 found).2]
    rfl
  rw [mapM_eq_ok each]
  refine .ok fun v => ?_
  rw [List.mem_map]
  refine exists_congr fun ref => and_congr_right fun member => ?_
  obtain ⟨a, found, -⟩ := deletable ref member
  rw [arcAt, (arc_eq_ok.1 found).2]
  constructor
  · rintro rfl
    exact ⟨a, found, rfl⟩
  · rintro ⟨a', found', rfl⟩
    rw [found] at found'
    cases found'
    rfl

/-- On the late side the ends of the arcs that may be deleted are known from their handles. -/
lemma ends_sources (deletable : ∀ ref ∈ refs, net.Deletable ref) :
    net.Ends refs .late (refs.map ArcRef.source) := by
  intro v
  rw [List.mem_map]
  refine exists_congr fun ref => and_congr_right fun member => ?_
  obtain ⟨a, found, -⟩ := deletable ref member
  exact ⟨fun same => ⟨a, found, same⟩, fun ⟨_, _, same⟩ => same⟩

/-- An arc that is gone has its end among those of the named arcs. -/
lemma Ends.mem_of_gone (ends : net.Ends refs side seeds)
    (deletable : ∀ ref ∈ refs, net.Deletable ref) (deleted : net.Deleted refs net')
    (arc : net.Leads side u w lag) (gone : ¬net'.Leads side u w lag) : w ∈ seeds := by
  cases side with
  | early =>
    obtain ⟨ref, member, a, entry, -, target⟩ := deleted.exists_ref arc gone
    obtain ⟨a', found, -⟩ := deletable ref member
    rw [(arc_eq_ok.1 found).2] at entry
    exact (ends w).2 ⟨ref, member, a', found, Option.some.inj entry ▸ target⟩
  | late =>
    obtain ⟨ref, member, -, -, source, -⟩ := deleted.exists_ref arc gone
    obtain ⟨a', found, -⟩ := deletable ref member
    exact (ends w).2 ⟨ref, member, a', found, source⟩

/-- The ends of arcs are jobs. -/
lemma Ends.lt (ends : net.Ends refs side seeds) (linked : net.Linked) :
    ∀ v ∈ seeds, v < net.numJobs := by
  intro v member
  obtain ⟨ref, -, a, found, rfl⟩ := (ends v).1 member
  have inside := linked.lt_of_arc (arc_eq_ok.1 found).2
  cases side with
  | early => exact inside.2
  | late => exact inside.1

end

end Network

end Leveling
