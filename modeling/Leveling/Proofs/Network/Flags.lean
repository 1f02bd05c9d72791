import Leveling.Proofs.Network.Arcs

/-!
# Flags

A deletion search puts flags on the arcs of a network.  Apart from its flags the network stays
what it is: it is linked, and it has the same arcs under the same handles.  So a search that has
cleared all flags at its end gives back the network that it was given.
-/

namespace Leveling

open Checked

/-- The arc without its flags. -/
def Arc.bare (a : Arc) : Arc := { a with marked := false, seen := false }

namespace Network

/-- The network without the flags of its arcs. -/
def bare (net : Network) : Network :=
  { net with outgoing := net.outgoing.map fun list => list.map Arc.bare }

variable {net net' : Network} {p : Place} {ref : ArcRef} {a b : Arc}

/-- What stands at a place apart from its flags. -/
lemma entryAt_bare (net : Network) (p : Place) :
    entryAt net.bare.outgoing p = (entryAt net.outgoing p).map Arc.bare := by
  unfold entryAt bare
  rw [Array.getElem?_map]
  cases net.outgoing[p.1]? with
  | none => rfl
  | some list => simp

/-- The weight of a list of which each entry was changed. -/
lemma weightFrom_map {β γ : Type} (f : Nat → γ → Nat) (g : β → γ) :
    ∀ (l : List β) (k : Nat), weightFrom f k (l.map g) = weightFrom (fun i x => f i (g x)) k l
  | [], _ => rfl
  | x :: l, k => by
    rw [List.map_cons, weightFrom, weightFrom, weightFrom_map f g l (k + 1)]

/-- A property that does not depend on flags is counted alike without them. -/
lemma tally_bare {c : Nat → Arc → Bool} (same : ∀ v a, c v a.bare = c v a) (net : Network) :
    tally c net.bare.outgoing = tally c net.outgoing := by
  have each : ∀ (list : Array Arc) v,
      (list.map Arc.bare).toList.countP (c v) = list.toList.countP (c v) := by
    intro list v
    rw [Array.toList_map, List.countP_map]
    exact congrArg (fun q => list.toList.countP q) (funext fun a => same v a)
  unfold tally weight bare
  rw [Array.toList_map, weightFrom_map]
  simp only [each]

/-- Flags play no part in the edges. -/
@[simp] lemma edges_bare (net : Network) : net.bare.edges = net.edges := by
  ext e
  rw [count_edges, count_edges]
  exact tally_bare (fun _ _ => rfl) net

/-- Flags play no part in the number of jobs. -/
@[simp] lemma numJobs_bare (net : Network) : net.bare.numJobs = net.numJobs := Array.size_map

/-- Flags play no part in the links. -/
@[simp] lemma linked_bare : net.bare.Linked ↔ net.Linked := by
  have size : net.bare.outgoing.size = net.outgoing.size := Array.size_map
  have count := tally_bare (c := fun _ _ => true) (fun _ _ => rfl) net
  constructor
  · intro h
    refine ⟨h.size.trans size, ⟨fun {p a} hp _ => ?_, fun {q r} hq _ => ?_⟩,
      count.symm.trans h.arcs, h.counterparts⟩
    · exact ⟨List.not_mem_nil, _, h.mirror (a := a.bare) (by rw [entryAt_bare, hp]; rfl), rfl⟩
    · obtain ⟨a, ha, back⟩ := h.origin hq
      rw [entryAt_bare] at ha
      obtain ⟨b, hb, rfl⟩ := Option.map_eq_some_iff.1 ha
      exact ⟨List.not_mem_nil, b, hb, back⟩
  · intro h
    refine ⟨h.size.trans size.symm, ⟨fun {p a} hp _ => ?_, fun {q r} hq _ => ?_⟩,
      count.trans h.arcs, h.counterparts⟩
    · rw [entryAt_bare] at hp
      obtain ⟨b, hb, rfl⟩ := Option.map_eq_some_iff.1 hp
      have back : b.bare.back = b.back := rfl
      exact ⟨List.not_mem_nil, _, back ▸ h.mirror hb, rfl⟩
    · obtain ⟨a, ha, back⟩ := h.origin hq
      exact ⟨List.not_mem_nil, a.bare, by rw [entryAt_bare, BackArc.forth] at *; rw [ha]; rfl, back⟩

/-- A network is without flags if none of its arcs carries any. -/
lemma flagged_eq_zero : net.flagged = 0 ↔
    ∀ p a, entryAt net.outgoing p = some a → a.marked = false ∧ a.seen = false := by
  unfold flagged
  rw [← countP_arcs, List.countP_eq_zero]
  simp only [Bool.or_eq_true, not_or, Bool.not_eq_true, Prod.forall, mem_arcs, forall_exists_index]
  exact ⟨fun h v i a hp => h v a i hp, fun h v a i hp => h v i a hp⟩

/-- A network without flags is the network without its flags. -/
lemma bare_eq_self (clean : net.flagged = 0) : net.bare = net := by
  have outgoing : net.bare.outgoing = net.outgoing := by
    refine ext_of_entryAt Array.size_map fun p => ?_
    rw [entryAt_bare]
    cases hp : entryAt net.outgoing p with
    | none => rfl
    | some a =>
      obtain ⟨marked, seen⟩ := flagged_eq_zero.1 clean p a hp
      cases a
      simp_all [Arc.bare]
  unfold bare at outgoing ⊢
  exact congrArg (fun outgoing => { net with outgoing }) outgoing

/-! ## Networks that differ in flags only -/

/-- The two networks are the same apart from their flags. -/
def Alike (net net' : Network) : Prop := net'.bare = net.bare

/-- Being alike goes on. -/
lemma Alike.trans {net'' : Network} (h : Alike net net') (h' : Alike net' net'') :
    Alike net net'' := Eq.trans h' h

/-- Being alike is mutual. -/
lemma Alike.symm (h : Alike net net') : Alike net' net := Eq.symm h

/-- A network is linked if one is that is alike. -/
lemma Alike.linked (h : Alike net net') (linked : net.Linked) : net'.Linked := by
  rw [← linked_bare, h, linked_bare]
  exact linked

/-- Networks that are alike have the same edges. -/
lemma Alike.edges (h : Alike net net') : net'.edges = net.edges := by
  rw [← edges_bare, h, edges_bare]

/-- Networks that are alike have the same arcs as a relation. -/
lemma Alike.hasArc (h : Alike net net') : net'.HasArc = net.HasArc := by
  unfold HasArc
  rw [h.edges]

/-- A bound travels alike over networks that are alike. -/
lemma Alike.leads (h : Alike net net') (side : Side) : net'.Leads side = net.Leads side := by
  cases side with
  | early => exact h.hasArc
  | late => exact congrArg reversed h.hasArc

/-- Networks that are alike have as many jobs. -/
lemma Alike.numJobs (h : Alike net net') : net'.numJobs = net.numJobs := by
  rw [← numJobs_bare, h, numJobs_bare]

/-- Networks that are alike have the same counterparts. -/
lemma Alike.incoming (h : Alike net net') : net'.incoming = net.incoming := by
  have same : net'.bare.incoming = net.bare.incoming := by rw [h]
  exact same

/-- Handles are fresh for networks that are alike. -/
lemma Alike.generation (h : Alike net net') : net'.generation = net.generation := by
  have same : net'.bare.generation = net.bare.generation := by rw [h]
  exact same

/-- An arc is found under the same place in a network that is alike. -/
lemma Alike.entry (h : Alike net net') (hp : entryAt net.outgoing p = some a) :
    ∃ b, entryAt net'.outgoing p = some b ∧ b.bare = a.bare := by
  have same : entryAt net'.bare.outgoing p = entryAt net.bare.outgoing p := by rw [h]
  rw [entryAt_bare, entryAt_bare, hp] at same
  exact Option.map_eq_some_iff.1 same

/-- An arc is found under the same handle in a network that is alike. -/
lemma Alike.arc (h : Alike net net') (found : net.arc ref = .ok a) :
    ∃ b, net'.arc ref = .ok b ∧ b.bare = a.bare := by
  obtain ⟨fresh, hp⟩ := arc_eq_ok.1 found
  obtain ⟨b, hb, same⟩ := h.entry hp
  exact ⟨b, arc_eq_ok.2 ⟨fresh.trans h.generation.symm, hb⟩, same⟩

/-- Networks without flags that are alike are the same. -/
lemma Alike.eq (h : Alike net net') (clean : net.flagged = 0) (clean' : net'.flagged = 0) :
    net' = net := by
  rw [← bare_eq_self clean', h, bare_eq_self clean]

/-! ## Changing a flag -/

/-- The flags of the arc at a place were changed, which made `b` of `a`. -/
structure Flipped (p : Place) (a b : Arc) (net net' : Network) : Prop where
  alike : Alike net net'
  replaced : Replaced p a b net.outgoing net'.outgoing

/-- A change of the flags of an arc that a handle names. -/
lemma adjustArc_answers (found : net.arc ref = .ok a) {f : Arc → Arc} (flags : (f a).bare = a.bare) :
    (net.adjustArc ref f).Answers (Flipped ref.place a (f a) net) := by
  obtain ⟨fresh, hp⟩ := arc_eq_ok.1 found
  unfold adjustArc checkFresh
  rw [if_pos fresh, ok_bind]
  refine (adjust_adjust hp f).bind fun outgoing replaced => .pure ⟨?_, replaced⟩
  have same : (bare { net with outgoing }).outgoing = net.bare.outgoing := by
    refine ext_of_entryAt ?_ fun q => ?_
    · unfold bare
      rw [Array.size_map, Array.size_map]
      exact replaced.size
    · rw [entryAt_bare, entryAt_bare, replaced.entry]
      by_cases here : q = ref.place
      · rw [if_pos here, here, hp]
        exact congrArg some flags
      · rw [if_neg here]
  exact congrArg (fun outgoing => { net with outgoing }) same

/-- The other arcs stay as they are. -/
lemma Flipped.entry_of_ne (h : Flipped p a b net net') {q : Place} (other : q ≠ p) :
    entryAt net'.outgoing q = entryAt net.outgoing q := by
  rw [h.replaced.entry, if_neg other]

/-- The arc at the place is the changed one. -/
lemma Flipped.entry_self (h : Flipped p a b net net') : entryAt net'.outgoing p = some b := by
  rw [h.replaced.entry, if_pos rfl]

end Network

end Leveling
