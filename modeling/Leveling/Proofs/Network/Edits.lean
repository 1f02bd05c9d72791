import Leveling.Proofs.Network.Delete
import Mathlib.Data.List.Permutation
import Mathlib.Data.Multiset.AddSub

/-!
# Networks under edit

A caller that edits a network inserts arcs, deletes those that it has handles of, and goes back
to copies that it saved before.  Next to the network a *naive* one is kept: no more than a
multiset of edges, to which an insertion adds its edge and from which a deletion takes away one
edge for each distinct handle.  However the edits follow each other, none of them fails, the
network stays linked, and its edges are those of the naive one.
-/

namespace Leveling

open Checked

namespace Network

/-- An edit of a network. -/
inductive Edit where
  | insert (source target : Nat) (lag : Int) (permanent : Bool)
  | delete (refs : List ArcRef)
  /-- Puts a copy aside. -/
  | save
  /-- Goes back to the copy that was put aside as number `k`. -/
  | restore (k : Nat)
deriving DecidableEq

/-- A network under edit and the naive one, both with the copies that were put aside. -/
structure Workbench where
  network : Network
  naive : Multiset Edge
  copies : List (Network × Multiset Edge)

namespace Workbench

/-- The workbench with a network of `jobs` jobs and no arcs. -/
def start (jobs : Nat) : Workbench := ⟨empty jobs, 0, []⟩

/-- Performs an edit on both networks. -/
def perform (w : Workbench) : Edit → Checked Workbench
  | .insert source target lag permanent => do
    let network ← w.network.insert source target lag permanent
    return { w with network, naive := ⟨source, target, lag, permanent⟩ ::ₘ w.naive }
  | .delete refs => do
    let network ← w.network.delete refs
    return { w with network, naive := w.naive - w.network.denoted refs }
  | .save => .ok { w with copies := w.copies ++ [(w.network, w.naive)] }
  | .restore k =>
    match w.copies[k]? with
    | some (network, naive) => .ok { w with network := w.network.restore network, naive }
    | none => .error .indexOutOfBounds

/-- The caller's part: arcs join jobs of the network, only fresh handles of arcs that do not belong
to the instance are deleted, and only copies that exist are restored. -/
def Allows (w : Workbench) : Edit → Prop
  | .insert source target _ _ => source < w.network.numJobs ∧ target < w.network.numJobs
  | .delete refs => ∀ ref ∈ refs, w.network.Deletable ref
  | .save => True
  | .restore k => k < w.copies.length

/-- Each edit of a list is allowed when its turn comes. -/
def AllowsAll : Workbench → List Edit → Prop
  | _, [] => True
  | w, edit :: rest => w.Allows edit ∧ ∀ w', w.perform edit = .ok w' → w'.AllowsAll rest

instance (w : Workbench) : ∀ edit, Decidable (w.Allows edit)
  | .insert source target _ _ =>
    inferInstanceAs (Decidable (source < w.network.numJobs ∧ target < w.network.numJobs))
  | .delete refs => inferInstanceAs (Decidable (∀ ref ∈ refs, w.network.Deletable ref))
  | .save => .isTrue trivial
  | .restore k => inferInstanceAs (Decidable (k < w.copies.length))

/-- Whether a list of edits is allowed is decided by performing it. -/
def allowsAll (w : Workbench) : List Edit → Bool
  | [] => true
  | edit :: rest =>
    decide (w.Allows edit) &&
      match w.perform edit with
      | .ok w' => w'.allowsAll rest
      | .error _ => true

/-- The decision is right. -/
lemma allowsAll_iff {edits : List Edit} :
    ∀ {w : Workbench}, w.allowsAll edits = true ↔ w.AllowsAll edits := by
  induction edits with
  | nil => exact iff_of_true rfl trivial
  | cons edit rest ih =>
    intro w
    rw [allowsAll, AllowsAll, Bool.and_eq_true, decide_eq_true_iff]
    refine and_congr_right fun _ => ?_
    cases w.perform edit with
    | ok w' => simp [ih]
    | error fault => simp

instance (w : Workbench) (edits : List Edit) : Decidable (w.AllowsAll edits) :=
  decidable_of_iff _ allowsAll_iff

/-- A linked network of `jobs` jobs whose edges are the given ones. -/
structure Refines (jobs : Nat) (net : Network) (naive : Multiset Edge) : Prop where
  linked : net.Linked
  numJobs : net.numJobs = jobs
  edges : net.edges = naive

/-- The network and all copies refine their naive counterparts. -/
structure Kept (jobs : Nat) (w : Workbench) : Prop where
  network : Refines jobs w.network w.naive
  copies : ∀ c ∈ w.copies, Refines jobs c.1 c.2

/-- At the start there are no edges and no copies. -/
lemma kept_start (jobs : Nat) : (start jobs).Kept jobs where
  network := ⟨linked_empty jobs, Array.size_replicate, edges_empty jobs⟩
  copies _ member := absurd member List.not_mem_nil

/-- An edit that is allowed is performed, and the networks refine the naive ones afterwards. -/
lemma Kept.perform {jobs : Nat} {w : Workbench} (h : w.Kept jobs) {edit : Edit}
    (allowed : w.Allows edit) : (w.perform edit).Answers (Kept jobs) := by
  cases edit with
  | insert s t lag permanent =>
    refine (h.network.linked.insert allowed.1 allowed.2 lag permanent).bind fun net inserted => ?_
    refine .pure ⟨⟨inserted.linked, inserted.numJobs.trans h.network.numJobs, ?_⟩, h.copies⟩
    rw [inserted.edges, h.network.edges]
  | delete refs =>
    refine (h.network.linked.delete allowed).bind fun net deleted => ?_
    refine .pure ⟨⟨deleted.linked, deleted.numJobs.trans h.network.numJobs, ?_⟩, h.copies⟩
    rw [← h.network.edges, ← deleted.edges, Multiset.add_sub_cancel_right]
  | save =>
    refine .ok ⟨h.network, fun c member => ?_⟩
    rcases List.mem_append.1 member with earlier | last
    · exact h.copies c earlier
    · rw [List.mem_singleton.1 last]
      exact h.network
  | restore k =>
    have allowed : k < w.copies.length := allowed
    have copy := h.copies w.copies[k] (List.getElem_mem allowed)
    have restored := restore_of_linked h.network.linked copy.linked
      (h.network.numJobs.trans copy.numJobs.symm)
    simp only [Workbench.perform, List.getElem?_eq_getElem allowed]
    refine .ok ⟨?_, h.copies⟩
    dsimp only
    rw [restored]
    exact ⟨copy.linked.generation _, copy.numJobs, copy.edges⟩

/-- All edits of an allowed list are performed. -/
lemma Kept.performAll {jobs : Nat} :
    ∀ {edits : List Edit} {w : Workbench}, w.Kept jobs → w.AllowsAll edits →
      (edits.foldlM Workbench.perform w).Answers (Kept jobs)
  | [], _, h, _ => .pure h
  | edit :: rest, w, h, allowed => by
    rw [List.foldlM_cons]
    obtain ⟨w', performed, h'⟩ := h.perform allowed.1
    rw [performed, ok_bind]
    exact h'.performAll (allowed.2 w' performed)

end Workbench

/-- **A network refines a multiset of edges.**  Every allowed list of edits of a network of `jobs`
jobs is performed without a fault.  Afterwards arcs and counterparts point at each other, each
counterpart is that of exactly one arc, the recorded number of arcs is right on both sides, and
the edges are those of the naive network. -/
theorem edits_refine_multiset (jobs : Nat) (edits : List Edit)
    (allowed : (Workbench.start jobs).AllowsAll edits) :
    (edits.foldlM Workbench.perform (Workbench.start jobs)).Answers fun w =>
      (∀ p a, entryAt w.network.outgoing p = some a →
        entryAt w.network.incoming (a.target, a.backSlot) = some ⟨p.1, p.2⟩) ∧
      (∀ q r, entryAt w.network.incoming q = some r →
        (∃ a, entryAt w.network.outgoing (r.source, r.slot) = some a ∧
          (a.target, a.backSlot) = q) ∧
        ∃! p, ∃ a, entryAt w.network.outgoing p = some a ∧ (a.target, a.backSlot) = q) ∧
      (entries w.network.outgoing).length = w.network.arcCount ∧
      (entries w.network.incoming).length = w.network.arcCount ∧
      w.network.edges = w.naive := by
  refine ((Workbench.kept_start jobs).performAll allowed).imp fun w kept => ?_
  have linked := kept.network.linked
  refine ⟨fun p a hp => linked.mirror hp, fun q r hq => ?_, ?_, ?_, kept.network.edges⟩
  · obtain ⟨a, ha, same⟩ := linked.origin hq
    refine ⟨⟨a, ha, same⟩, r.forth, ⟨a, ha, same⟩, ?_⟩
    rintro p ⟨b, hb, same'⟩
    have back : some (BackArc.mk p.1 p.2) = some r := by
      rw [← linked.mirror hb, ← hq, ← same']
      rfl
    rw [← Option.some.inj back]
    rfl
  · rw [length_entries, linked.arcs]
  · rw [length_entries, linked.counterparts]

/-- Three arcs are inserted, two of them parallel.  A copy is put aside, the parallel arcs are deleted,
one of them through two handles, and the copy is restored. -/
theorem edits_refine_multiset_parallel :
    (Workbench.start 3).AllowsAll [.insert 0 1 5 false, .insert 0 1 5 false, .insert 0 2 (-4) true,
      .save, .delete [⟨0, 1, 3⟩, ⟨0, 0, 3⟩, ⟨0, 1, 3⟩], .restore 0] ∧
    ([.insert 0 1 5 false, .insert 0 1 5 false, .insert 0 2 (-4) true, .save,
      .delete [⟨0, 1, 3⟩, ⟨0, 0, 3⟩, ⟨0, 1, 3⟩], .restore 0].foldlM Workbench.perform
        (Workbench.start 3)).Answers fun w => w.network.edges = w.naive := by
  have allowed : (Workbench.start 3).AllowsAll [.insert 0 1 5 false, .insert 0 1 5 false,
      .insert 0 2 (-4) true, .save, .delete [⟨0, 1, 3⟩, ⟨0, 0, 3⟩, ⟨0, 1, 3⟩], .restore 0] := by
    decide_cbv
  refine ⟨allowed, (edits_refine_multiset 3 _ allowed).imp fun w h => ?_⟩
  obtain ⟨-, -, -, -, same⟩ := h
  exact same

end Network

end Leveling
