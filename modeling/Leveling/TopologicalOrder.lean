import Leveling.Fault
import Leveling.Measure

/-!
# Topological orders

A topological order is found by taking away, again and again, a job without remaining
predecessors.  The jobs that can be taken wait in a list; whether a job that has become free
goes to its end or to its front is a choice of the caller, and decides which of the possible
orders is found.  If the jobs run out before all of them are taken, the arcs close a cycle.

The procedure ends because the remaining degrees and the waiting jobs together get fewer
with every job that is taken: a job starts to wait only when its degree drops to zero.
-/

namespace Leveling

/-- Where a job goes that has become free. -/
inductive Discipline where
  /-- Behind the waiting jobs. -/
  | queue
  /-- In front of the waiting jobs. -/
  | stack

namespace Discipline

/-- The waiting jobs after the jobs in `freed` have become free one after the other. -/
def arrange : Discipline → (waiting freed : List Nat) → List Nat
  | .queue, waiting, freed => waiting ++ freed
  | .stack, waiting, freed => freed.reverse ++ waiting

/-- No job is lost or doubled. -/
theorem length_arrange (d : Discipline) (waiting freed : List Nat) :
    (d.arrange waiting freed).length = waiting.length + freed.length := by
  cases d <;> simp [arrange]; omega

end Discipline

/-- Lowers the degree of every listed job by one, in order, and names the jobs whose degree has
dropped to zero. -/
def lowerDegrees (degrees : Array Nat) : List Nat → Checked (Array Nat × List Nat)
  | [] => .ok (degrees, [])
  | t :: rest => do
    let degree ← fetch degrees t
    let lowered ← subCount degree 1
    let degrees ← store degrees t lowered
    let (degrees, freed) ← lowerDegrees degrees rest
    return (degrees, if lowered = 0 then t :: freed else freed)

/-- Every freed job is paid for by a degree. -/
theorem weight_lowerDegrees {ts : List Nat} :
    ∀ {degrees degrees' : Array Nat} {freed : List Nat},
      lowerDegrees degrees ts = .ok (degrees', freed) →
        weight (fun _ => id) degrees' + freed.length ≤ weight (fun _ => id) degrees := by
  induction ts with
  | nil =>
    intro degrees degrees' freed h
    cases h
    simp
  | cons t rest ih =>
    intro degrees degrees' freed h
    obtain ⟨degree, fetched, h₁⟩ := Checked.bind_eq_ok.1 h
    obtain ⟨lowered, subtracted, h₂⟩ := Checked.bind_eq_ok.1 h₁
    obtain ⟨_, stored, h₃⟩ := Checked.bind_eq_ok.1 h₂
    obtain ⟨⟨_, others⟩, rested, h₄⟩ := Checked.bind_eq_ok.1 h₃
    obtain ⟨inside, rfl⟩ := fetch_eq_ok_iff.1 fetched
    obtain ⟨_, rfl⟩ := store_eq_ok_iff.1 stored
    have below := subCount_eq_ok subtracted
    have replaced := weight_set (fun _ => id) degrees t lowered inside
    have remaining := ih rested
    simp only [id_eq] at replaced
    cases h₄
    by_cases dropped : lowered = 0
    · simp only [if_pos dropped, List.length_cons]
      omega
    · simp only [if_neg dropped]
      omega

/-- The order in which the jobs are taken when those in `waiting` have no predecessors left. -/
def takeFree (d : Discipline) (successors : Nat → Checked (List Nat)) (degrees : Array Nat)
    (waiting : List Nat) : Checked (List Nat) :=
  match waiting with
  | [] => .ok []
  | v :: rest => do
    let targets ← successors v
    match _lowered : lowerDegrees degrees targets with
    | .error fault => .error fault
    | .ok (degrees', freed) =>
      let order ← takeFree d successors degrees' (d.arrange rest freed)
      return v :: order
termination_by weight (fun _ => id) degrees + waiting.length
decreasing_by
  have := weight_lowerDegrees _lowered
  rw [Discipline.length_arrange, List.length_cons]
  omega

/-- An order of the jobs in which every arc points forward, or nothing if the arcs close a cycle.
The arcs are given by the successors of each job and by the number of predecessors of each. -/
def topologicalOrder? (d : Discipline) (successors : Nat → Checked (List Nat))
    (degrees : Array Nat) : Checked (Option (List Nat)) := do
  let free := (List.range degrees.size).filter fun v => degrees[v]? == some 0
  let order ← takeFree d successors degrees (d.arrange [] free)
  return if order.length = degrees.size then some order else none

end Leveling
