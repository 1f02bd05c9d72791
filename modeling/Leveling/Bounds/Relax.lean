import Leveling.Bounds.Basic

/-!
# Relaxing, and the check of the bounds

After arcs were deleted, the bounds of the jobs at their ends are computed anew from all arcs
that are left.  A job whose bound became looser passes the question on to its neighbours.

This ends although a job may come up several times: a bound never becomes looser than its
limit, so each change uses up some of the distance between the bounds and their limits.
-/

namespace Leveling

/-- How far a bound is from its limit. -/
def Side.looseness (side : Side) (limit : Array Int) (v : Nat) (bound : Int) : Nat :=
  match side with
  | .early => (bound - limit.getD v 0).toNat
  | .late => (limit.getD v 0 - bound).toNat

/-- The tighter of two bounds is at least as tight as the first. -/
theorem Side.not_isTighter_tighter (side : Side) {limit bound : Int} (other : Int)
    (h : side.isTighter limit bound = false) :
    side.isTighter limit (side.tighter bound other) = false := by
  cases side with
  | early =>
    have within : limit ≤ bound := Int.not_lt.1 (of_decide_eq_false h)
    exact decide_eq_false (Int.not_lt.2 (Int.le_trans within (Int.le_max_left bound other)))
  | late =>
    have within : bound ≤ limit := Int.not_lt.1 (of_decide_eq_false h)
    exact decide_eq_false (Int.not_lt.2 (Int.le_trans (Int.min_le_left bound other) within))

namespace BoundTable

/-- An implied bound is at least as tight as any bound that was so at the start. -/
theorem not_isTighter_implied (t : BoundTable) (durations : Array Int) (side : Side) (v : Nat)
    {limit : Int} :
    ∀ {neighbours : List (Nat × Arc)} {bound result : Int},
      side.isTighter limit bound = false →
        t.implied durations side v neighbours bound = .ok result →
          side.isTighter limit result = false := by
  intro neighbours
  induction neighbours with
  | nil =>
    intro bound result h answer
    cases answer
    exact h
  | cons neighbour rest ih =>
    intro bound result h answer
    unfold implied at answer
    rw [List.foldlM_cons] at answer
    obtain ⟨next, step, answer⟩ := Checked.bind_eq_ok.1 answer
    obtain ⟨_, _, step⟩ := Checked.bind_eq_ok.1 step
    obtain ⟨_, _, step⟩ := Checked.bind_eq_ok.1 step
    obtain ⟨carried, _, step⟩ := Checked.bind_eq_ok.1 step
    cases step
    exact ih (Side.not_isTighter_tighter side carried h) answer

/-- The distance of all bounds from their limits. -/
def looseness (t : BoundTable) (side : Side) : Nat := weight (side.looseness t.limit) t.value

/-- The table with the bound of a job computed anew, if that makes the bound looser. -/
def loosen (t : BoundTable) (durations : Array Int) (net : Network) (side : Side) (v : Nat) :
    Checked (Option BoundTable) := do
  let bound ← t.required durations net side v
  let old ← fetch t.value v
  if side.isTighter old bound then
    let value ← store t.value v bound
    return some { t with value }
  else return none

/-- A bound that becomes looser gets nearer to its limit. -/
theorem looseness_loosen {t t' : BoundTable} {durations : Array Int} {net : Network} {side : Side}
    {v : Nat} (h : t.loosen durations net side v = .ok (some t')) :
    t'.looseness side < t.looseness side := by
  obtain ⟨bound, required, h₁⟩ := Checked.bind_eq_ok.1 h
  obtain ⟨neighbours, _, h₂⟩ := Checked.bind_eq_ok.1 required
  obtain ⟨limit, fetched, implied⟩ := Checked.bind_eq_ok.1 h₂
  obtain ⟨old, fetched', h₃⟩ := Checked.bind_eq_ok.1 h₁
  by_cases looser : side.isTighter old bound = true
  · rw [if_pos looser] at h₃
    obtain ⟨value, stored, h₄⟩ := Checked.bind_eq_ok.1 h₃
    obtain ⟨inside, hold⟩ := fetch_eq_ok_iff.1 fetched'
    obtain ⟨inside', hlimit⟩ := fetch_eq_ok_iff.1 fetched
    obtain ⟨_, hvalue⟩ := store_eq_ok_iff.1 stored
    have irreflexive : side.isTighter limit limit = false := by
      cases side <;> simp [Side.isTighter]
    have within := t.not_isTighter_implied durations side v irreflexive implied
    have replaced := weight_set (side.looseness t.limit) t.value v bound inside
    rw [hvalue, hold] at replaced
    have nearer :
        side.looseness t.limit v bound < side.looseness t.limit v old := by
      cases side <;>
        simp only [Side.isTighter, decide_eq_true_eq, decide_eq_false_iff_not] at looser within <;>
        simp only [Side.looseness, Array.getD, inside', dif_pos, Array.getInternal_eq_getElem,
          hlimit] <;>
        omega
    cases h₄
    simp only [looseness]
    omega
  · rw [if_neg looser] at h₃
    cases h₃

/-- Works off a stack of jobs whose bounds may have become looser.  The changed jobs are listed with
the latest change first. -/
def settleLoose (durations : Array Int) (net : Network) (side : Side) (t : BoundTable)
    (changed stack : List Nat) : Checked (BoundTable × List Nat) :=
  match stack with
  | [] => .ok (t, changed)
  | v :: rest =>
    match _loosened : t.loosen durations net side v with
    | .error fault => .error fault
    | .ok none => settleLoose durations net side t changed rest
    | .ok (some t') => do
      let neighbours ← net.onward side v
      settleLoose durations net side t' (v :: changed) ((neighbours.map Prod.fst).reverse ++ rest)
termination_by (t.looseness side, stack.length)
decreasing_by
  · exact Prod.Lex.right _ (Nat.lt_succ_self _)
  · exact Prod.Lex.left _ _ (looseness_loosen _loosened)

end BoundTable

namespace Bounds

/-- The loosest bound of a job that its limit and its neighbours allow. -/
def required (b : Bounds) (net : Network) (side : Side) (v : Nat) : Checked Int :=
  (b.table side).required b.durations net side v

/-- Relaxes the bounds of one side from the seeds on, after arcs were deleted.  Returns also the
jobs whose bounds changed, in the order of the changes. -/
def relax (b : Bounds) (net : Network) (side : Side) (seeds : List Nat) :
    Checked (Bounds × List Nat) := do
  let (table, changed) ←
    BoundTable.settleLoose b.durations net side (b.table side) [] seeds.reverse
  return (b.withTable side table, changed.reverse)

/-! ## Check -/

/-- What can be wrong with the bounds of a network. -/
inductive Defect where
  /-- An earliest start is not the one that the arcs imply. -/
  | earliestStart (job : Nat) (stored expected : Int)
  /-- A latest finish is not the one that the arcs imply. -/
  | latestFinish (job : Nat) (stored expected : Int)
  /-- A job has no room between its bounds. -/
  | infeasible (job : Nat) (earliestStart latestFinish duration : Int)
deriving DecidableEq

/-- Accepts a job whose bounds are the ones that the arcs imply and leave room for it. -/
def checkJob (b : Bounds) (net : Network) (job : Nat) : Verdict Defect Unit := do
  let start ← b.earliestStart job
  let finish ← b.latestFinish job
  let expected ← b.required net .early job
  unless expected = start do throw (.earliestStart job start expected)
  let expected ← b.required net .late job
  unless expected = finish do throw (.latestFinish job finish expected)
  if finish < (← b.earliestFinish job) then
    throw (.infeasible job start finish (← b.duration job))

/-- Accepts bounds that are the ones that the arcs imply and that leave room for every job.  This
can be expected only when nothing is deferred. -/
def check (b : Bounds) (net : Network) : Verdict Defect Unit :=
  (List.range b.numJobs).forM (b.checkJob net)

/-- The wording of a defect. -/
def Defect.message : Defect → String
  | .earliestStart job stored expected =>
    s!"job {job}: earliest start {stored} but edges imply {expected}"
  | .latestFinish job stored expected =>
    s!"job {job}: latest finish {stored} but edges imply {expected}"
  | .infeasible job start finish duration =>
    s!"job {job}: window [{start}, {finish}) cannot hold duration {duration}"

end Bounds

end Leveling
