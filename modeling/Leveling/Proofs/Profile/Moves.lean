import Leveling.Proofs.Answers
import Mathlib.Logic.Function.Basic

/-!
# Moves of jobs

A placement gives a start to some of the jobs.  A profile follows it through three kinds of moves: a
job is placed that is not placed yet, a job is taken out, or a job is moved to another start.

What is known about a profile after many moves is known because each move keeps it, so it is stated
as a relation between placements and profiles and carried through a list of moves once and for all.
-/

namespace Leveling

open Checked

variable {n v w : Nat} {σ : Nat → Option Int} {start : Int} {Suits : Nat → Int → Prop}

/-! ## Lists of starts -/

/-- The list holds the start of each of `n` jobs. -/
structure Listed (n : Nat) (σ : Nat → Option Int) (starts : Array (Option Int)) : Prop where
  size : starts.size = n
  entry : ∀ v < n, starts[v]? = some (σ v)

/-- The start of a job that is listed. -/
lemma Listed.fetch {starts : Array (Option Int)} (h : Listed n σ starts) (hv : v < n) :
    fetch starts v = .ok (σ v) := fetch_of_getElem? (h.entry v hv)

/-- The starts after one of them was replaced. -/
lemma Listed.set {starts : Array (Option Int)} (h : Listed n σ starts) (hv : v < starts.size)
    (x : Option Int) : Listed n (Function.update σ v x) (starts.set v x hv) where
  size := by rw [Array.size_set, h.size]
  entry w hw := by
    rw [Array.getElem?_set]
    by_cases same : v = w
    · subst same
      rw [if_pos rfl, Function.update_self]
    · rw [if_neg same, Function.update_of_ne (Ne.symm same), h.entry w hw]

/-- There is one list only of the starts of a placement. -/
lemma Listed.ext {starts starts' : Array (Option Int)} (h : Listed n σ starts)
    (h' : Listed n σ starts') : starts = starts' := by
  refine Array.ext (h.size.trans h'.size.symm) fun v hv hv' => Option.some.inj ?_
  rw [← Array.getElem?_eq_getElem hv, ← Array.getElem?_eq_getElem hv',
    h.entry v (h.size ▸ hv), h'.entry v (h.size ▸ hv)]

/-- No job is placed. -/
lemma listed_replicate (n : Nat) : Listed n (fun _ => none) (.replicate n none) where
  size := Array.size_replicate
  entry v hv := by rw [Array.getElem?_replicate, if_pos hv]

/-! ## Moves -/

/-- A change of a placement. -/
inductive Move where
  | insert (job : Nat) (start : Int)
  | remove (job : Nat)
  | reposition (job : Nat) (start : Int)

namespace Move

/-- The placement after a move. -/
def place (σ : Nat → Option Int) : Move → Nat → Option Int
  | .insert v start => Function.update σ v (some start)
  | .remove v => Function.update σ v none
  | .reposition v start => Function.update σ v (some start)

/-- The placement after a list of moves, if no job is placed before. -/
def placement (moves : List Move) : Nat → Option Int := moves.foldl place fun _ => none

/-- The move of one of `n` jobs to a start that suits it.  A job that is placed must not be placed
already. -/
inductive Allowed (n : Nat) (Suits : Nat → Int → Prop) (σ : Nat → Option Int) : Move → Prop
  | insert {v : Nat} {start : Int} (job : v < n) (free : σ v = none) (suits : Suits v start) :
      Allowed n Suits σ (.insert v start)
  | remove {v : Nat} (job : v < n) : Allowed n Suits σ (.remove v)
  | reposition {v : Nat} {start : Int} (job : v < n) (suits : Suits v start) :
      Allowed n Suits σ (.reposition v start)

/-- Each move of a list is allowed when its turn comes. -/
def AllAllowed (n : Nat) (Suits : Nat → Int → Prop) : (Nat → Option Int) → List Move → Prop
  | _, [] => True
  | σ, move :: rest => move.Allowed n Suits σ ∧ AllAllowed n Suits (move.place σ) rest

/-- What each allowed move keeps is kept by a list of them. -/
lemma foldlM_answers {β : Type} {perform : β → Move → Checked β}
    {R : (Nat → Option Int) → β → Prop}
    (step : ∀ {σ b move}, R σ b → move.Allowed n Suits σ →
      (perform b move).Answers (R (move.place σ))) :
    ∀ {moves : List Move} {σ : Nat → Option Int} {b : β}, AllAllowed n Suits σ moves → R σ b →
      (moves.foldlM perform b).Answers (R (moves.foldl place σ)) := by
  intro moves
  induction moves with
  | nil => exact fun _ shown => .pure shown
  | cons move rest ih =>
    intro σ b allowed shown
    rw [List.foldlM_cons]
    exact (step shown allowed.1).bind fun b' shown' => ih allowed.2 shown'

end Move

end Leveling
