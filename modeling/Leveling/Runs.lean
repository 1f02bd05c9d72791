/-!
# Runs of equal entries

In a sorted list the entries that count as the same stand next to each other.  Keeping the
first entry of each such run removes the repetitions.
-/

namespace Leveling

/-- The first entries of the runs of a list, where neighbours `x` and `y` with `same x y` belong to
one run. -/
def firstOfRuns {β : Type} (same : β → β → Bool) : List β → List β
  | [] => []
  | x :: rest =>
    match firstOfRuns same rest with
    | y :: kept => if same x y then x :: kept else x :: y :: kept
    | [] => [x]

/-- The first entries of the runs are entries of the list. -/
theorem mem_of_mem_firstOfRuns {β : Type} {same : β → β → Bool} {z : β} :
    ∀ {xs : List β}, z ∈ firstOfRuns same xs → z ∈ xs := by
  intro xs
  induction xs with
  | nil => exact id
  | cons x rest ih =>
    intro member
    unfold firstOfRuns at member
    split at member
    · rename_i y kept runs
      rw [runs] at ih
      split at member
      · rcases List.mem_cons.1 member with rfl | later
        · exact List.mem_cons_self
        · exact List.mem_cons_of_mem _ (ih (List.mem_cons_of_mem _ later))
      · rcases List.mem_cons.1 member with rfl | later
        · exact List.mem_cons_self
        · exact List.mem_cons_of_mem _ (ih later)
    · rw [List.mem_singleton.1 member]
      exact List.mem_cons_self

end Leveling
