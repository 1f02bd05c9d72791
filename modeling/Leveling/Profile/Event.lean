import Leveling.Problem

/-!
# Events of a profile

A job that is placed adds its demand at an event where it starts and takes it away again at
an event where it finishes.  Events are ordered by time; at equal times the finishes come
before the starts, so that a job never counts beside one that it replaces.
-/

namespace Leveling

/-- What happens to a job at an event. -/
inductive EventKind where
  | finish
  | start
deriving DecidableEq, Inhabited

/-- The place of a kind among the events of one time. -/
def EventKind.rank : EventKind → Nat
  | .finish => 0
  | .start => 1

/-- A job starts or finishes. -/
structure Event where
  time : Int
  kind : EventKind
  job : Nat
deriving DecidableEq, Inhabited

namespace Event

/-- The order by time, kind and job. -/
instance : LT Event where
  lt a b := a.time < b.time ∨ (a.time = b.time ∧
    (a.kind.rank < b.kind.rank ∨ (a.kind.rank = b.kind.rank ∧ a.job < b.job)))

/-- An event is at most another one if it does not come after it. -/
instance : LE Event where
  le a b := ¬b < a

instance : DecidableLT Event := fun a b =>
  inferInstanceAs (Decidable (a.time < b.time ∨ (a.time = b.time ∧
    (a.kind.rank < b.kind.rank ∨ (a.kind.rank = b.kind.rank ∧ a.job < b.job)))))

instance : DecidableLE Event := fun a b => inferInstanceAs (Decidable (¬b < a))

/-- The least event of a time. -/
def first (time : Int) : Event := ⟨time, .finish, 0⟩

/-- An event that does not come before the least event of a time has at least that time. -/
theorem time_le_of_first_le {time : Int} {e : Event} (h : first time ≤ e) : time ≤ e.time := by
  have h : ¬(e.time < time ∨ (e.time = time ∧
    (e.kind.rank < 0 ∨ (e.kind.rank = 0 ∧ e.job < 0)))) := h
  omega

/-- The change of the demand for each resource at an event. -/
def change {α : Type} [Scalar α] (e : Event) (p : Problem α) : Checked (List α) := do
  let job ← fetch p.jobs e.job
  let sign : α := match e.kind with
    | .start => 1
    | .finish => -1
  return job.demand.map fun d => sign * d

/-- The number of an event among those of all jobs: each job has a slot for its start and one for its
finish. -/
def slot (e : Event) : Nat :=
  match e.kind with
  | .start => 2 * e.job
  | .finish => 2 * e.job + 1

/-- The order of events as a test for sorting. -/
def comesBefore (a b : Event) : Bool := decide (a ≤ b)

end Event

end Leveling
