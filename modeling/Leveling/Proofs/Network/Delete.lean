import Leveling.Proofs.Network.Links
import Mathlib.Data.List.Dedup
import Mathlib.Data.Multiset.Dedup

/-!
# Deletions

A deletion names its arcs by handles.  It takes the arcs out of the lists of their sources
first and their counterparts out of the lists of their targets afterwards, from the highest
slot down.  Between the two passes some counterparts have no arc any more.  At the end the
network is linked again, and its edges are those of before without the ones that the distinct
handles name.
-/

namespace Leveling

open Checked

/-- The place of the arc that a handle names. -/
def ArcRef.place (ref : ArcRef) : Network.Place := (ref.source, ref.slot)

namespace Network

/-! ## The order of deletion -/

/-- The key by which places are sorted. -/
def deletionKey (p : Place) : Nat ×ₗ Natᵒᵈ := toLex (p.1, OrderDual.toDual p.2)

/-- Places are sorted by their keys. -/
lemma comesBefore_iff {p q : Place} :
    p.comesBefore q = true ↔ deletionKey p ≤ deletionKey q := by
  unfold deletionKey Place.comesBefore
  rw [Prod.Lex.toLex_le_toLex]
  simp

/-- Different places have different keys. -/
lemma deletionKey_inj (p q : Place) : (p == q) = true ↔ deletionKey p = deletionKey q := by
  unfold deletionKey
  rw [beq_iff_eq, toLex_inj, Prod.ext_iff, Prod.ext_iff, OrderDual.toDual_inj]

/-- The order of deletion has the places of the list. -/
@[simp] lemma mem_deletionOrder {places : List Place} {p : Place} :
    p ∈ deletionOrder places ↔ p ∈ places := by
  unfold deletionOrder
  constructor
  · intro member
    exact List.mem_mergeSort.1 (mem_of_mem_firstOfRuns member)
  · intro member
    obtain ⟨q, hq, same⟩ :=
      exists_mem_firstOfRuns deletionKey_inj (List.mem_mergeSort.2 member)
    obtain rfl := beq_iff_eq.1 ((deletionKey_inj _ _).2 same)
    exact hq

/-- In the order of deletion each place comes before the later ones. -/
lemma pairwise_deletionOrder (places : List Place) :
    (deletionOrder places).Pairwise Precedes := by
  have sorted : (places.mergeSort Place.comesBefore).Pairwise
      fun p q => deletionKey p ≤ deletionKey q := by
    refine (List.pairwise_mergeSort (fun p q r h h' => ?_) (fun p q => ?_) places).imp
      comesBefore_iff.1
    · exact comesBefore_iff.2 ((comesBefore_iff.1 h).trans (comesBefore_iff.1 h'))
    · rw [Bool.or_eq_true, comesBefore_iff, comesBefore_iff]
      exact le_total _ _
  refine (pairwise_firstOfRuns deletionKey_inj sorted).imp fun less => ?_
  exact Prod.Lex.toLex_lt_toLex.1 less

/-- The order of deletion has no place twice. -/
lemma nodup_deletionOrder (places : List Place) : (deletionOrder places).Nodup := by
  refine (pairwise_deletionOrder places).imp fun less same => ?_
  subst same
  rcases less with less | ⟨-, less⟩ <;> exact Nat.lt_irrefl _ less

/-! ## The two passes -/

/-- The network with other lists. -/
def withLists (net : Network) (r : Array (Array Arc) × Array (Array BackArc)) : Network :=
  { net with outgoing := r.1, incoming := r.2 }

/-- Takes an arc out of the lists. -/
def unhookArc (r : Array (Array Arc) × Array (Array BackArc)) (p : Place) :
    Checked (Array (Array Arc) × Array (Array BackArc)) :=
  unhook Arc.back (fun back slot => { back with slot }) p r.1 r.2

/-- Takes a counterpart out of the lists. -/
def unhookBack (r : Array (Array BackArc) × Array (Array Arc)) (p : Place) :
    Checked (Array (Array BackArc) × Array (Array Arc)) :=
  unhook BackArc.forth (fun arc backSlot => { arc with backSlot }) p r.1 r.2

/-- An arc is taken out of its source's list by the general step. -/
lemma removeOutgoing_eq (net : Network) (r : Array (Array Arc) × Array (Array BackArc))
    (p : Place) : (net.withLists r).removeOutgoing p = net.withLists <$> unhookArc r p := by
  unfold removeOutgoing unhookArc unhook
  dsimp only [withLists]
  cases fetch r.1 p.1 with
  | error fault => rfl
  | ok list =>
    simp only [ok_bind]
    split
    · cases store r.1 p.1 (swapRemove list p.2) with
      | error fault => rfl
      | ok A =>
        simp only [ok_bind]
        cases (swapRemove list p.2)[p.2]? with
        | none => rfl
        | some moved =>
          dsimp only [Arc.back]
          cases adjust r.2 moved.target fun list =>
            adjust list moved.backSlot fun y => .ok { y with slot := p.2 } <;> rfl
    · rfl

/-- A counterpart is taken out of its target's list by the general step. -/
lemma removeIncoming_eq (net : Network) (r : Array (Array BackArc) × Array (Array Arc))
    (p : Place) : (net.withLists r.swap).removeIncoming p =
      (fun r' => net.withLists r'.swap) <$> unhookBack r p := by
  unfold removeIncoming unhookBack unhook
  dsimp only [withLists, Prod.swap]
  cases fetch r.1 p.1 with
  | error fault => rfl
  | ok list =>
    simp only [ok_bind]
    split
    · cases store r.1 p.1 (swapRemove list p.2) with
      | error fault => rfl
      | ok B =>
        simp only [ok_bind]
        cases (swapRemove list p.2)[p.2]? with
        | none => rfl
        | some moved =>
          dsimp only [BackArc.forth]
          cases adjust r.2 moved.source fun list =>
            adjust list moved.slot fun y => .ok { y with backSlot := p.2 } <;> rfl
    · rfl

/-- A loop whose rounds follow those of another loop answers what that one answers. -/
lemma foldlM_map {β δ ι : Type} {φ : β → δ} {step : δ → ι → Checked δ} {step' : β → ι → Checked β}
    (same : ∀ r p, step (φ r) p = φ <$> step' r p) :
    ∀ (l : List ι) (r : β), l.foldlM step (φ r) = φ <$> l.foldlM step' r
  | [], r => rfl
  | p :: l, r => by
    rw [List.foldlM_cons, List.foldlM_cons, same]
    cases step' r p with
    | error fault => rfl
    | ok r' => exact foldlM_map same l r'

/-- What holds of the answer of a loop holds of the loop that follows it. -/
lemma foldlM_answers {β δ ι : Type} {φ : β → δ} {step : δ → ι → Checked δ}
    {step' : β → ι → Checked β} (same : ∀ r p, step (φ r) p = φ <$> step' r p) {l : List ι} {r : β}
    {P : β → Prop} (h : (l.foldlM step' r).Answers P) :
    (l.foldlM step (φ r)).Answers fun b => ∃ r', b = φ r' ∧ P r' := by
  obtain ⟨r', answer, hr'⟩ := h
  refine ⟨φ r', ?_, r', rfl, hr'⟩
  rw [foldlM_map same, answer]
  rfl

/-! ## Handles -/

/-- The arc that a handle names stands at the handle's place, and the handle is fresh. -/
lemma arc_eq_ok {net : Network} {ref : ArcRef} {a : Arc} :
    net.arc ref = .ok a ↔
      ref.generation = net.generation ∧ entryAt net.outgoing ref.place = some a := by
  unfold arc checkFresh entryAt
  by_cases fresh : ref.generation = net.generation
  · rw [if_pos fresh, ok_bind, bind_eq_ok]
    simp only [fetch_eq_ok, fresh, true_and, ArcRef.place, Option.bind_eq_some_iff]
  · rw [if_neg fresh]
    simp [fresh]

/-- The handle names an arc that may be deleted. -/
def Deletable (net : Network) (ref : ArcRef) : Prop :=
  (net.arc ref).Answers fun a => a.permanent = false

instance (net : Network) (ref : ArcRef) : Decidable (net.Deletable ref) :=
  inferInstanceAs (Decidable ((net.arc ref).Answers fun a => a.permanent = false))

/-- The place of the counterpart of the arc at a place. -/
def mate (net : Network) (p : Place) : Place := (entryAt net.outgoing p).elim (0, 0) Arc.back

/-- The edges that the distinct handles of a list name. -/
def denoted (net : Network) (refs : List ArcRef) : Multiset Edge :=
  (refs.dedup.filterMap fun ref =>
    (entryAt net.outgoing ref.place).map (Arc.edge ref.source) : List Edge)

/-- The places of an arc that may be deleted. -/
lemma Deletable.placesOf {net : Network} {ref : ArcRef} (h : net.Deletable ref) :
    net.placesOf ref = .ok (ref.place, net.mate ref.place) := by
  obtain ⟨a, found, temporary⟩ := h
  have entry := (arc_eq_ok.1 found).2
  simp only [Network.placesOf, found, ok_bind, temporary, mate, entry]
  rfl

/-- There is an arc at the place of a handle that names one. -/
lemma Deletable.isSome {net : Network} {ref : ArcRef} (h : net.Deletable ref) :
    (entryAt net.outgoing ref.place).isSome := by
  obtain ⟨a, found, -⟩ := h
  rw [(arc_eq_ok.1 found).2]
  rfl

/-- Different arcs of a linked network have their counterparts at different places. -/
lemma Linked.mate_inj {net : Network} (h : net.Linked) {p q : Place}
    (hp : (entryAt net.outgoing p).isSome) (hq : (entryAt net.outgoing q).isSome)
    (same : net.mate p = net.mate q) : p = q := by
  obtain ⟨a, ha⟩ := Option.isSome_iff_exists.1 hp
  obtain ⟨b, hb⟩ := Option.isSome_iff_exists.1 hq
  unfold mate at same
  rw [ha, hb, Option.elim_some, Option.elim_some] at same
  have together := (h.mirror ha).symm.trans (same ▸ h.mirror hb)
  rw [Option.some.injEq, BackArc.mk.injEq] at together
  exact Prod.ext together.1 together.2

/-- The counterpart of an arc stands at the place of its mate. -/
lemma Linked.isSome_mate {net : Network} (h : net.Linked) {p : Place}
    (hp : (entryAt net.outgoing p).isSome) : (entryAt net.incoming (net.mate p)).isSome := by
  obtain ⟨a, ha⟩ := Option.isSome_iff_exists.1 hp
  unfold mate
  rw [ha, Option.elim_some, h.mirror ha]
  rfl

/-- The lists of a linked network are paired except at any arcs and their counterparts. -/
lemma Linked.pairedExcept {net : Network} (h : net.Linked) {D X : List Place}
    (hD : ∀ p ∈ D, (entryAt net.outgoing p).isSome) (hX : ∀ q, q ∈ X ↔ ∃ p ∈ D, net.mate p = q) :
    PairedExcept Arc.back BackArc.forth D X net.outgoing net.incoming := by
  constructor
  · intro p a hp outside
    refine ⟨fun inside => outside ?_, (h.paired.forth hp List.not_mem_nil).2⟩
    obtain ⟨p', hp', same⟩ := (hX _).1 inside
    have here : net.mate p = a.back := by rw [mate, hp, Option.elim_some]
    rwa [h.mate_inj (hp ▸ rfl) (hD p' hp') (here.trans same.symm)]
  · intro q r hq outside
    obtain ⟨a, ha, same⟩ := h.origin hq
    refine ⟨fun inside => outside ((hX q).2 ⟨r.forth, inside, ?_⟩), a, ha, same⟩
    rw [mate, ha, Option.elim_some, same]

/-! ## The places of the arcs that go -/

/-- The places of the arcs that handles name, in the order in which the arcs go. -/
def arcPlaces (refs : List ArcRef) : List Place := deletionOrder (refs.map ArcRef.place)

/-- The places of the counterparts of these arcs, in the order in which the counterparts go. -/
def matePlaces (net : Network) (refs : List ArcRef) : List Place :=
  deletionOrder (refs.map fun ref => net.mate ref.place)

/-- The counterparts that go are those of the arcs that go. -/
lemma mem_matePlaces {net : Network} {refs : List ArcRef} {q : Place} :
    q ∈ net.matePlaces refs ↔ ∃ p ∈ arcPlaces refs, net.mate p = q := by
  simp only [matePlaces, arcPlaces, mem_deletionOrder, List.mem_map, exists_exists_and_eq_and]

/-- Counting among the entries at some places, by place. -/
lemma count_filterMap_places (e : Edge) (A : Array (Array Arc)) :
    ∀ refs : List ArcRef,
      (refs.filterMap fun ref => (entryAt A ref.place).map (Arc.edge ref.source)).count e =
        claimed (fun v a => a.edge v == e) A (refs.map ArcRef.place)
  | [] => rfl
  | ref :: refs => by
    have rest := count_filterMap_places e A refs
    unfold claimed at rest ⊢
    rw [List.map_cons, List.map_cons, List.sum_cons, ← rest, List.filterMap_cons]
    cases entryAt A ref.place with
    | none => simp
    | some a =>
      dsimp only [Option.map_some, Option.elim_some]
      rw [List.count_cons, Nat.add_comm]
      rfl

section

variable {net : Network} {refs : List ArcRef} (deletable : ∀ ref ∈ refs, net.Deletable ref)

include deletable

/-- There are arcs at the places of the arcs that go. -/
lemma isSome_arcPlaces : ∀ p ∈ arcPlaces refs, (entryAt net.outgoing p).isSome := by
  intro p hp
  obtain ⟨ref, member, rfl⟩ := List.mem_map.1 (mem_deletionOrder.1 hp)
  exact (deletable ref member).isSome

/-- The places of the arcs that go are those of the distinct handles. -/
lemma arcPlaces_perm : (arcPlaces refs).Perm (refs.dedup.map ArcRef.place) := by
  have fresh : ∀ ref ∈ refs, ref.generation = net.generation := by
    intro ref member
    obtain ⟨a, found, -⟩ := deletable ref member
    exact (arc_eq_ok.1 found).1
  have distinct : (refs.dedup.map ArcRef.place).Nodup := by
    refine (List.nodup_dedup refs).map_on fun x hx y hy same => ?_
    have hx := fresh x (List.mem_dedup.1 hx)
    have hy := fresh y (List.mem_dedup.1 hy)
    obtain ⟨u, i, g⟩ := x
    obtain ⟨v, j, g'⟩ := y
    unfold ArcRef.place at same
    simp_all
  refine (List.perm_ext_iff_of_nodup (nodup_deletionOrder _) distinct).2 fun p => ?_
  simp

/-- The edges that the handles name are counted by their places. -/
lemma count_denoted (e : Edge) :
    (net.denoted refs).count e =
      claimed (fun v a => a.edge v == e) net.outgoing (arcPlaces refs) := by
  rw [denoted, Multiset.coe_count, count_filterMap_places]
  exact (((arcPlaces_perm deletable).map _).sum_nat).symm

/-- As many counterparts go as arcs. -/
lemma Linked.length_matePlaces (h : net.Linked) :
    (net.matePlaces refs).length = (arcPlaces refs).length := by
  have valid := isSome_arcPlaces deletable
  have distinct : ((arcPlaces refs).map net.mate).Nodup :=
    (nodup_deletionOrder _).map_on fun p hp q hq => h.mate_inj (valid p hp) (valid q hq)
  have same := (List.perm_ext_iff_of_nodup
    (nodup_deletionOrder (refs.map fun ref => net.mate ref.place)) distinct).2 fun q =>
      mem_matePlaces.trans List.mem_map.symm
  rw [matePlaces, same.length_eq, List.length_map]

/-- A deletion consists of two passes over the places. -/
lemma delete_eq (some_ref : refs ≠ []) : net.delete refs = do
    let cut ← (arcPlaces refs).foldlM removeOutgoing net
    let cut ← (net.matePlaces refs).foldlM removeIncoming cut
    let arcCount ← subCount net.arcCount (arcPlaces refs).length
    return { cut with arcCount, generation := net.generation + 1 } := by
  have places : refs.mapM net.placesOf =
      .ok (refs.map fun ref => (ref.place, net.mate ref.place)) :=
    mapM_eq_ok fun ref member => (deletable ref member).placesOf
  unfold Network.delete
  rw [if_neg (by rw [List.isEmpty_iff]; exact some_ref), places, ok_bind, List.map_map, List.map_map]
  rfl

end

/-! ## The network after a deletion -/

/-- The first pass takes the arcs at the places in `D` out of the lists of their sources. -/
lemma removeOutgoing_all {net : Network} {D X : List Place}
    (h : PairedExcept Arc.back BackArc.forth D X net.outgoing net.incoming)
    (sorted : D.Pairwise Precedes) (valid : ∀ p ∈ D, (entryAt net.outgoing p).isSome) :
    (D.foldlM removeOutgoing net).Answers fun cut => ∃ r, cut = net.withLists r ∧
      Partly Arc.back BackArc.forth (fun back slot => { back with slot }) D X
        net.outgoing net.incoming [] r := by
  exact foldlM_answers net.removeOutgoing_eq (r := (net.outgoing, net.incoming))
    (unhook_all (fun _ _ => rfl) h sorted valid)

/-- The second pass takes the counterparts at the places in `X` out of the lists of their targets. -/
lemma removeIncoming_all {net : Network} {r : Array (Array Arc) × Array (Array BackArc)}
    {X : List Place} (h : PairedExcept Arc.back BackArc.forth [] X r.1 r.2)
    (sorted : X.Pairwise Precedes) (valid : ∀ q ∈ X, (entryAt r.2 q).isSome) :
    (X.foldlM removeIncoming (net.withLists r)).Answers fun cut =>
      ∃ r', cut = net.withLists r'.swap ∧ Partly BackArc.forth Arc.back
        (fun arc backSlot => { arc with backSlot }) X [] r.2 r.1 [] r' := by
  exact foldlM_answers net.removeIncoming_eq (r := r.swap)
    (unhook_all (fun _ _ => rfl) h.symm sorted valid)

/-- The lists between the two passes of a deletion and after them. -/
structure Cut (net : Network) (refs : List ArcRef) (r : Array (Array Arc) × Array (Array BackArc))
    (r' : Array (Array BackArc) × Array (Array Arc)) : Prop where
  arcs : Partly Arc.back BackArc.forth (fun back slot => { back with slot }) (arcPlaces refs)
    (net.matePlaces refs) net.outgoing net.incoming [] r
  counterparts : Partly BackArc.forth Arc.back (fun arc backSlot => { arc with backSlot })
    (net.matePlaces refs) [] r.2 r.1 [] r'

/-- What a deletion does to a network. -/
structure Deleted (net : Network) (refs : List ArcRef) (net' : Network) : Prop where
  linked : net'.Linked
  numJobs : net'.numJobs = net.numJobs
  edges : net'.edges + net.denoted refs = net.edges
  flagged : net'.flagged ≤ net.flagged

section

variable {net : Network} {refs : List ArcRef} (h : net.Linked)
  (deletable : ∀ ref ∈ refs, net.Deletable ref)

include h deletable

/-- The counterparts that go are there. -/
lemma Linked.isSome_matePlaces : ∀ q ∈ net.matePlaces refs, (entryAt net.incoming q).isSome := by
  intro q hq
  obtain ⟨p, hp, rfl⟩ := mem_matePlaces.1 hq
  exact h.isSome_mate (isSome_arcPlaces deletable p hp)

/-- Both passes are made. -/
lemma Linked.cut : (do
      let cut ← (arcPlaces refs).foldlM removeOutgoing net
      (net.matePlaces refs).foldlM removeIncoming cut).Answers fun cut =>
    ∃ r r', net.Cut refs r r' ∧ cut = net.withLists r'.swap := by
  have valid := isSome_arcPlaces deletable
  refine (removeOutgoing_all (h.pairedExcept valid fun _ => mem_matePlaces)
    (pairwise_deletionOrder _) valid).bind ?_
  rintro _ ⟨r, rfl, arcs⟩
  have valid' : ∀ q ∈ net.matePlaces refs, (entryAt r.2 q).isSome := fun q hq =>
    (arcs.occupied q).trans (h.isSome_matePlaces deletable q hq)
  refine (removeIncoming_all arcs.paired (pairwise_deletionOrder _) valid').imp ?_
  rintro _ ⟨r', rfl, counterparts⟩
  exact ⟨r, r', ⟨arcs, counterparts⟩, rfl⟩

variable {r : Array (Array Arc) × Array (Array BackArc)}
  {r' : Array (Array BackArc) × Array (Array Arc)} (cut : net.Cut refs r r')

include cut

/-- The number of arcs falls by as much on both sides. -/
lemma Linked.tally_cut : tally (fun _ _ => true) r'.2 + (arcPlaces refs).length = net.arcCount ∧
    tally (fun _ _ => true) r'.1 + (arcPlaces refs).length = net.arcCount := by
  have valid' : ∀ q ∈ net.matePlaces refs, (entryAt r.2 q).isSome := fun q hq =>
    (cut.arcs.occupied q).trans (h.isSome_matePlaces deletable q hq)
  constructor
  · rw [cut.counterparts.others _ fun _ _ _ => rfl, ← claimed_true _ (isSome_arcPlaces deletable),
      cut.arcs.taken, ← h.arcs]
    rfl
  · rw [← h.length_matePlaces deletable, ← claimed_true _ valid', cut.counterparts.taken,
      cut.arcs.others _ fun _ _ _ => rfl, ← h.counterparts]
    rfl

/-- After both passes the network has lost the edges that the handles name. -/
lemma Linked.deleted : net.Deleted refs { net.withLists r'.swap with
    arcCount := net.arcCount - (arcPlaces refs).length, generation := net.generation + 1 } := by
  obtain ⟨arcs, counterparts⟩ := h.tally_cut deletable cut
  refine ⟨⟨?_, cut.counterparts.paired.symm, ?_, ?_⟩, ?_, ?_, ?_⟩
  · exact cut.counterparts.size.1.trans (cut.arcs.size.2.trans
      (h.size.trans (cut.counterparts.size.2.trans cut.arcs.size.1).symm))
  · dsimp only [withLists, Prod.swap]
    omega
  · dsimp only [withLists, Prod.swap]
    omega
  · exact cut.counterparts.size.2.trans cut.arcs.size.1
  · ext e
    rw [Multiset.count_add, count_denoted deletable, count_edges, count_edges]
    dsimp only [withLists, Prod.swap]
    rw [cut.counterparts.others _ fun _ _ _ => rfl, cut.arcs.taken]
    rfl
  · have fewer := cut.arcs.taken fun _ a => a.marked || a.seen
    have nothing : claimed (fun _ (a : Arc) => a.marked || a.seen) net.outgoing [] = 0 := rfl
    unfold flagged
    dsimp only [withLists, Prod.swap]
    rw [cut.counterparts.others _ fun _ _ _ => rfl]
    omega

end

/-- A deletion from a linked network answers with a linked network that has lost the edges that the
distinct handles name, and no others. -/
lemma Linked.delete {net : Network} (h : net.Linked) {refs : List ArcRef}
    (deletable : ∀ ref ∈ refs, net.Deletable ref) :
    (net.delete refs).Answers (net.Deleted refs) := by
  by_cases none : refs = []
  · subst none
    exact .ok ⟨h, rfl, by simp [denoted], Nat.le_refl _⟩
  · rw [delete_eq deletable none, ← bind_assoc]
    refine (h.cut deletable).bind ?_
    rintro _ ⟨r, r', cut, rfl⟩
    obtain ⟨arcs, -⟩ := h.tally_cut deletable cut
    rw [subCount_of_le (by omega), ok_bind]
    exact .pure (h.deleted deletable cut)

end Network

end Leveling
