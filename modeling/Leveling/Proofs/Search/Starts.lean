import Leveling.Proofs.Bounds.Changes
import Leveling.Proofs.Search.Calls

/-!
# The profile shows the earliest starts

In each state that a search reaches, the profile has every job at its earliest start, also the jobs whose
bounds have changed and were deferred.  What keeps the two together is that every pass over the earliest
starts lists exactly the jobs whose earliest starts it has changed.
-/

namespace Leveling

open Checked

/-- Each pass over the earliest starts lists the jobs whose earliest starts differ before and after it,
and no others. -/
structure Bounds.Lists (b : Bounds) (net : Network) : Prop where
  tighten : ∀ seeds d range, (b.tighten net .early seeds d range).Ensures fun r =>
    ∀ v, v ∈ r.2 ↔ r.1.early.value[v]? ≠ b.early.value[v]?
  relax : ∀ seeds, (b.relax net .early seeds).Ensures fun r =>
    ∀ v, v ∈ r.2 ↔ r.1.early.value[v]? ≠ b.early.value[v]?

namespace Solver

variable {ρ α : Type} [RandomSource ρ] [Scalar α] {p : Problem α} {F : Frame} {base : Network}
  {kind : String} {first s : Solver ρ α}

/-- Every job has an earliest start, and the profile has the job there. -/
def Shown (p : Problem α) (s : Solver ρ α) : Prop :=
  ∀ v < p.jobs.size, ∃ start, s.bounds.earliestStart v = .ok start ∧
    s.profile.startOf v = .ok (some start)

omit [RandomSource ρ] in
/-- The profile of an intact state shows the earliest starts. -/
lemma Steady.shown (footing : Footing p F base) (h : s.Steady p F base kind) : s.Shown p := by
  intro v hv
  have hv' : v < F.size := lt_of_lt_of_eq hv footing.size.symm
  refine ⟨_, h.consistent.earliestStart hv', ?_⟩
  rw [(h.holds.knows footing.built footing.timely).startOf hv, earliest_of_lt hv']

/-- **Starts.**  In all states that a search for an accepted instance reaches, the profile has every job at
its earliest start, whatever is drawn at random and whatever the options are, and the search stays among
these states whatever is asked of it.  Every pass over the earliest starts lists exactly what it changes,
whatever the network and the bounds are.  A search for a small instance does answer. -/
theorem starts_shown {jobs : Array (Job α)} {resources : List (Resource α)}
    {given : List Precedence} {config : Config α}
    (accepted : (Problem.build jobs resources given).Accepts p) (timely : p.Timely)
    (started : (Solver.new p config : Verdict _ (Solver ρ α)).Accepts first) :
    (∀ s, Reached first s → s.Shown p) ∧ Closed (Reached first) ∧
      (∀ (b : Bounds) net, b.Lists net) ∧ (Small p config → Responsive first) := by
  have built := Problem.built_of_build accepted
  obtain ⟨base, footing, steady, -⟩ := steady_new built timely started
  refine ⟨fun s reached => ?_, steady.closed footing, fun b net => ?_, fun small => ?_⟩
  · exact (steady.reached footing reached).shown footing
  · exact ⟨b.tighten_changed .early, b.relax_changed .early⟩
  · exact responsive built small started

/-- A search for the pair has both jobs at their earliest starts, and answers. -/
theorem starts_shown_pair : ∃ first : Solver ChaCha ℚ,
    (Solver.new ExactScalar.pair brief).Accepts first ∧
      (∀ s, Reached first s → s.Shown ExactScalar.pair) ∧ Closed (Reached first) ∧
        (∀ (b : Bounds) net, b.Lists net) ∧ Responsive first := by
  obtain ⟨first, started⟩ := exists_first_pair
  obtain ⟨shown, closed, lists, answers⟩ :=
    starts_shown ExactScalar.pair_accepted small_pair.timely started
  exact ⟨first, started, shown, closed, lists, answers small_pair⟩

end Solver

end Leveling
