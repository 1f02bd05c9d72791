import Leveling.Proofs.Search.Calls

/-!
# Inserted arcs join unordered jobs

The tests before an insertion look at the bounds and never at the network.  All the same they admit an
arc only between two jobs that no chain of arcs joins, in either direction: both jobs start before the end
of the active range, where the earliest starts are exact even if some jobs are deferred, they run at the
same time, and no arc has a lag shorter than the duration of its source.

So no insertion closes a cycle, and none joins two jobs a second time.
-/

namespace Leveling

open Checked Network

/-- The edge joins two jobs, in one direction or in the other. -/
def Edge.Joins (u w : Nat) (e : Edge) : Prop := e.ends = (u, w) ∨ e.ends = (w, u)

instance (u w : Nat) (e : Edge) : Decidable (e.Joins u w) := inferInstanceAs (Decidable (_ ∨ _))

namespace Network

variable {net : Network}

/-- If the arcs close no cycle and no two of them have the same ends, at most one edge joins two jobs. -/
lemma card_joins_le (acyclic : Acyclic net.HasArc) (simple : (net.edges.map Edge.ends).Nodup)
    (u w : Nat) : (net.edges.filter (Edge.Joins u w)).card ≤ 1 := by
  let joining : Finset Edge :=
    ⟨net.edges.filter (Edge.Joins u w), Multiset.Nodup.filter _ (.of_map _ simple)⟩
  have joined : ∀ {e : Edge} {x y}, e ∈ net.edges → e.ends = (x, y) → Joined net.HasArc x y := by
    rintro ⟨x, y, lag, permanent⟩ _ _ member ends
    obtain ⟨rfl, rfl⟩ := Prod.mk.inj ends
    exact ⟨lag, permanent, member⟩
  change joining.card ≤ 1
  refine Finset.card_le_one.2 fun e he e' he' => ?_
  obtain ⟨member, ends⟩ := Multiset.mem_filter.1 (Finset.mem_mk.1 he)
  obtain ⟨member', ends'⟩ := Multiset.mem_filter.1 (Finset.mem_mk.1 he')
  have same : e.ends = e'.ends := by
    rcases ends with ends | ends <;> rcases ends' with ends' | ends'
    · rw [ends, ends']
    · exact absurd (.tail (.single (joined member ends)) (joined member' ends')) (acyclic u)
    · exact absurd (.tail (.single (joined member ends)) (joined member' ends')) (acyclic w)
    · rw [ends, ends']
  exact Multiset.inj_on_of_nodup_map simple e member e' member' same

end Network

namespace Solver

variable {ρ α : Type} [RandomSource ρ] [Scalar α] {p : Problem α} {F : Frame} {base : Network}
  {kind : String} {first s : Solver ρ α} {source target : Nat}

/-- What the arcs of a state and the arcs that it admits are like: the arcs close no cycle, at most one of
them joins two jobs, and a candidate, which joins different jobs, is admitted only if the jobs are
unordered.  The search through the network that looks for a cycle finds none. -/
structure Ordered (s : Solver ρ α) : Prop where
  acyclic : Acyclic s.network.HasArc
  single : ∀ u w, (s.network.edges.filter (Edge.Joins u w)).card ≤ 1
  candidates : ∀ c ∈ s.pool.entries, c.source ≠ c.target
  admitted : ∀ source target, source ≠ target → s.admits source target = .ok true →
    Unordered s.network.HasArc source target ∧ s.network.reaches target source = .ok false
  drawn : ∀ weighted, (s.drawAdmitted weighted s.pool s.random).Ensures fun r =>
    ∀ c ∈ r.1, c.source ≠ c.target ∧ Unordered s.network.HasArc c.source c.target

/-- The arcs of an intact state are ordered. -/
lemma Steady.ordered (footing : Footing p F base) (h : s.Steady p F base kind) : s.Ordered where
  acyclic := h.consistent.roomy.acyclic
  single := card_joins_le h.consistent.roomy.acyclic h.grown.simple
  candidates c member := (h.pool.entries c member).2.2
  admitted _ _ ne isAdmitted := h.unordered footing ne isAdmitted
  drawn weighted := by
    refine (drawAdmitted_ensures s weighted h.pool).imp fun r ⟨_, admitted⟩ c member => ?_
    obtain ⟨⟨-, -, ne⟩, isAdmitted⟩ := admitted c member
    exact ⟨ne, (h.unordered footing ne isAdmitted).1⟩

/-- **Ordering.**  In all states that a search for an accepted instance reaches, whether jobs are deferred
or not, what is admitted joins unordered jobs, so the arcs close no cycle and at most one of them joins
two jobs.  The search stays among these states whatever is asked of it, and a search for a small instance
does answer. -/
theorem insertions_ordered {jobs : Array (Job α)} {resources : List (Resource α)}
    {given : List Precedence} {config : Config α}
    (accepted : (Problem.build jobs resources given).Accepts p) (timely : p.Timely)
    (started : (Solver.new p config : Verdict _ (Solver ρ α)).Accepts first) :
    (∀ s, Reached first s → s.Ordered) ∧ Closed (Reached first) ∧
      (Small p config → Responsive first) := by
  have built := Problem.built_of_build accepted
  obtain ⟨base, footing, steady, -⟩ := steady_new built timely started
  refine ⟨fun s reached => ?_, steady.closed footing, fun small => ?_⟩
  · exact (steady.reached footing reached).ordered footing
  · exact responsive built small started

/-- A search for the pair joins its two jobs once at most, and answers. -/
theorem insertions_ordered_pair : ∃ first : Solver ChaCha ℚ,
    (Solver.new ExactScalar.pair brief).Accepts first ∧ (∀ s, Reached first s → s.Ordered) ∧
      Closed (Reached first) ∧ Responsive first := by
  obtain ⟨first, started⟩ := exists_first_pair
  obtain ⟨ordered, closed, answers⟩ :=
    insertions_ordered ExactScalar.pair_accepted small_pair.timely started
  exact ⟨first, started, ordered, closed, answers small_pair⟩

end Solver

end Leveling
