import Leveling.Proofs.Network.Queries

/-!
# Networks with cycles

Nothing stops a caller from inserting arcs that close a cycle, a loop at one job among them, so the
questions about a network are asked of cyclic ones too.  A network that is *made* from the empty one
by insertions, deletions and restorations is linked, whatever arcs it has.  The questions then have
exact answers: an order is found just if there is no cycle, a job is reached just if a path leads to
it, and a cycle is all that the check can find.
-/

namespace Leveling

open Checked Relation

namespace Network

variable {net net' : Network} {jobs : Nat}

/-- The networks of `jobs` jobs that insertions, deletions and restorations make.  An operation counts
only if it answers, and a network is restored from any other one of as many jobs. -/
inductive Made (jobs : Nat) : Network → Prop
  | empty : Made jobs (empty jobs)
  | insert {net net' : Network} {source target : Nat} {lag : Int} {permanent : Bool}
    (made : Made jobs net) (answer : net.insert source target lag permanent = .ok net') :
    Made jobs net'
  | delete {net net' : Network} {refs : List ArcRef} (made : Made jobs net)
    (answer : net.delete refs = .ok net') : Made jobs net'
  | restore {net base : Network} (made : Made jobs net) (base_made : Made jobs base) :
    Made jobs (net.restore base)

/-! ## What the operations demand -/

/-- An insertion that answers joins two jobs of the network. -/
lemma Linked.lt_of_insert (linked : net.Linked) {source target : Nat} {lag : Int} {permanent : Bool}
    (answer : net.insert source target lag permanent = .ok net') :
    source < net.numJobs ∧ target < net.numJobs := by
  obtain ⟨arcs, fetched, answer⟩ := bind_eq_ok.1 answer
  obtain ⟨backs, fetched', -⟩ := bind_eq_ok.1 answer
  obtain ⟨hs, -⟩ := fetch_eq_ok_iff.1 fetched
  obtain ⟨ht, -⟩ := fetch_eq_ok_iff.1 fetched'
  rw [linked.size] at ht
  exact ⟨hs, ht⟩

/-- The places are answered only of an arc that may be deleted. -/
lemma deletable_of_placesOf {ref : ArcRef} {places : Place × Place}
    (answer : net.placesOf ref = .ok places) : net.Deletable ref := by
  obtain ⟨a, found, answer⟩ := bind_eq_ok.1 answer
  refine ⟨a, found, ?_⟩
  cases permanent : a.permanent with
  | false => exact permanent
  | true =>
    rw [permanent] at answer
    cases answer

/-- A deletion that answers takes out arcs that may be deleted. -/
lemma deletable_of_delete {refs : List ArcRef} (answer : net.delete refs = .ok net') :
    ∀ ref ∈ refs, net.Deletable ref := by
  cases refs with
  | nil => exact fun ref member => absurd member List.not_mem_nil
  | cons first others =>
    unfold Network.delete at answer
    rw [List.isEmpty_cons] at answer
    obtain ⟨places, listed, -⟩ := bind_eq_ok.1 answer
    intro ref member
    obtain ⟨place, found⟩ := exists_of_mapM listed ref member
    exact deletable_of_placesOf found

/-! ## Invariant -/

/-- Made networks are linked and keep their jobs. -/
lemma Made.linked (made : Made jobs net) : net.Linked ∧ net.numJobs = jobs := by
  induction made with
  | empty => exact ⟨linked_empty jobs, Array.size_replicate⟩
  | insert made answer ih =>
    obtain ⟨linked, numJobs⟩ := ih
    obtain ⟨hs, ht⟩ := linked.lt_of_insert answer
    have inserted := (linked.insert hs ht _ _).of_eq_ok answer
    exact ⟨inserted.linked, inserted.numJobs.trans numJobs⟩
  | delete made answer ih =>
    obtain ⟨linked, numJobs⟩ := ih
    have deleted := (linked.delete (deletable_of_delete answer)).of_eq_ok answer
    exact ⟨deleted.linked, deleted.numJobs.trans numJobs⟩
  | restore made base_made ih base_ih =>
    obtain ⟨linked, numJobs⟩ := ih
    obtain ⟨base_linked, base_numJobs⟩ := base_ih
    rw [restore_of_linked linked base_linked (numJobs.trans base_numJobs.symm)]
    exact ⟨base_linked.generation _, base_numJobs⟩

/-! ## Answers -/

/-- An arc leads from a job of a linked network to one of the targets of the job. -/
lemma Linked.mem_targetList_of_hasArc (linked : net.Linked) {u w : Nat} {lag : Int}
    (arc : net.HasArc u w lag) : u < net.numJobs ∧ w ∈ net.targetList u := by
  have leads : net.Leads .early u w lag := arc
  have hu := (linked.lt_of_leads leads).1
  exact ⟨hu, (mem_targetList hu).2 ⟨lag, arc⟩⟩

/-- An order of a linked network is found just if the arcs close no cycle. -/
lemma Linked.isSome_order (linked : net.Linked) :
    net.order?.Answers fun found => (found.isSome ↔ Acyclic net.HasArc) ∧
      ∀ order, found = some order → IsOrder net.targetList net.numJobs order := by
  refine linked.order.imp fun found ⟨isOrder, exists_order⟩ => ⟨⟨fun some => ?_, fun acyclic => ?_⟩,
    isOrder⟩
  · obtain ⟨order, rfl⟩ := Option.isSome_iff_exists.1 some
    exact (isOrder order rfl).acyclic linked.mem_targetList_of_hasArc
  · obtain ⟨order, rfl⟩ := exists_order acyclic
    rfl

/-- In an order of the jobs each one stands once. -/
lemma perm_range_of_isOrder {succ : Nat → List Nat} {order : List Nat}
    (isOrder : IsOrder succ jobs order) : order.Perm (List.range jobs) :=
  (List.perm_ext_iff_of_nodup isOrder.nodup List.nodup_range).2 fun v => by
    rw [isOrder.mem, List.mem_range]

/-- The check of a linked network refuses cycles, and nothing else. -/
lemma Linked.check_iff (linked : net.Linked) :
    (net.check.Accepts () ↔ Acyclic net.HasArc) ∧
      (net.check.Refuses .cycle ↔ ¬Acyclic net.HasArc) := by
  obtain ⟨found, answer, isSome_iff, -⟩ := linked.isSome_order
  by_cases acyclic : Acyclic net.HasArc
  · have accepts := linked.check acyclic
    exact ⟨iff_of_true accepts acyclic, iff_of_false accepts.not_refuses (not_not_intro acyclic)⟩
  · have none : found.isNone = true := by
      rw [← Option.not_isSome, Bool.not_eq_true', ← Bool.not_eq_true, isSome_iff]
      exact acyclic
    have refuses : net.check.Refuses .cycle := by
      rw [linked.check_eq, answer]
      refine (Verdict.Accepts.bind (Verdict.accepts_lift.2 rfl) _).trans ?_
      rw [if_pos none]
      rfl
    exact ⟨iff_of_false (fun accepts => accepts.not_refuses refuses) acyclic,
      iff_of_true refuses acyclic⟩

/-- **The questions about a network are decided exactly.**  Of every network that was made from the
empty one, with cycles, loops and parallel arcs or without: the search for an order answers, with an
order if and only if the arcs close no cycle, and then with one of all jobs in which every arc points
forward; the walk from a job answers that it meets the goal if and only if a path of arcs leads there;
and the check accepts if the arcs close no cycle and names a cycle if they close one. -/
theorem Made.questions_decided (made : Made jobs net) :
    (net.order?.Answers fun found => (found.isSome ↔ Acyclic net.HasArc) ∧
      ∀ order, found = some order → order.Perm (List.range jobs) ∧
        ∀ u w lag, net.HasArc u w lag → order.idxOf u < order.idxOf w) ∧
    (∀ source < jobs, ∀ goal, (net.reaches source goal).Answers fun found =>
      (found = true ↔ ReflTransGen (Joined net.HasArc) source goal)) ∧
    (net.check.Accepts () ↔ Acyclic net.HasArc) ∧
    (net.check.Refuses .cycle ↔ ¬Acyclic net.HasArc) := by
  obtain ⟨linked, rfl⟩ := made.linked
  refine ⟨linked.isSome_order.imp fun found ⟨isSome_iff, isOrder⟩ => ⟨isSome_iff, ?_⟩,
    fun source hs goal => linked.reaches hs goal, linked.check_iff⟩
  intro order same
  have order_ok := isOrder order same
  refine ⟨perm_range_of_isOrder order_ok, fun u w lag arc => ?_⟩
  obtain ⟨hu, listed⟩ := linked.mem_targetList_of_hasArc arc
  exact order_ok.ahead.idxOf_lt order_ok.nodup ((order_ok.mem u).2 hu) listed

/-- Two parallel arcs between two jobs. -/
def parallel : Network where
  outgoing := #[#[⟨1, 0, 3, true, false, false⟩, ⟨1, 1, -2, false, false, false⟩], #[]]
  incoming := #[#[], #[⟨0, 0⟩, ⟨0, 1⟩]]
  arcCount := 2
  generation := 2

/-- The parallel arcs are made by insertions. -/
lemma made_parallel : Made 2 parallel := by
  have answer : ((empty 2).insert 0 1 3 true >>= fun single => single.insert 0 1 (-2) false) =
      .ok parallel := by decide +kernel
  obtain ⟨single, first, second⟩ := bind_eq_ok.1 answer
  exact (Made.empty.insert first).insert second

/-- A loop is inserted next to the parallel arcs, deleted, and restored.  Without it an order is found, so the
arcs close no cycle.  With it none is found, so they close one, which the check names. -/
theorem Made.questions_decided_loop :
    ∃ looped cut, parallel.insert 1 1 0 false = .ok looped ∧ looped.delete [⟨1, 0, 3⟩] = .ok cut ∧
      Made 2 (cut.restore looped) ∧ Acyclic cut.HasArc ∧ cut.check.Accepts () ∧
      ¬Acyclic (cut.restore looped).HasArc ∧ (cut.restore looped).check.Refuses .cycle := by
  let looped : Network :=
    { parallel with
      outgoing := parallel.outgoing.set! 1 #[⟨1, 2, 0, false, false, false⟩]
      incoming := parallel.incoming.set! 1 #[⟨0, 0⟩, ⟨0, 1⟩, ⟨1, 0⟩]
      arcCount := 3
      generation := 3 }
  let cut : Network := { parallel with generation := 4 }
  have inserted : parallel.insert 1 1 0 false = .ok looped := by decide +kernel
  have deleted : looped.delete [⟨1, 0, 3⟩] = .ok cut := by decide +kernel
  have made_looped : Made 2 looped := made_parallel.insert inserted
  have made_cut : Made 2 cut := made_looped.delete deleted
  have made_restored := made_cut.restore made_looped
  obtain ⟨ordered, -, accepts, -⟩ := made_cut.questions_decided
  obtain ⟨ordered', -, -, refuses⟩ := made_restored.questions_decided
  have found : cut.order? = .ok (some [0, 1]) := by decide +kernel
  have none_found : (cut.restore looped).order? = .ok none := by decide +kernel
  have acyclic : Acyclic cut.HasArc := (ordered.of_eq_ok found).1.1 rfl
  have cyclic : ¬Acyclic (cut.restore looped).HasArc := fun acyclic =>
    nomatch (ordered'.of_eq_ok none_found).1.2 acyclic
  exact ⟨looped, cut, inserted, deleted, made_restored, acyclic, accepts.2 acyclic, cyclic, refuses.2 cyclic⟩

end Network

end Leveling
