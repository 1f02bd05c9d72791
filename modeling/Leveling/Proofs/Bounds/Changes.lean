import Leveling.Proofs.Bounds.Relaxing
import Mathlib.Order.RelClasses

/-!
# The changes that passes list

A pass over the bounds of one side lists a job each time it replaces its bound.  Tightening only ever
replaces a bound by a tighter one and relaxing only ever by a looser one, so no bound comes back to what
it was: a job that is listed has another bound in the end, even if it is listed more than once, and one
that is not listed has the bound that it had.

This needs nothing of the network or of the bounds.  Whenever a pass answers, the list is right.
-/

namespace Leveling

open Checked

/-- The first bound is strictly tighter than the second. -/
def Side.Tighter (side : Side) (a b : Int) : Prop := side.isTighter a b = true

/-- The first bound is strictly looser than the second. -/
def Side.Looser (side : Side) (a b : Int) : Prop := side.isTighter b a = true

instance Side.isStrictOrder_tighter (side : Side) : IsStrictOrder Int side.Tighter where
  irrefl a := by cases side <;> simp [Tighter, isTighter]
  trans a b c := by cases side <;> simp only [Tighter, isTighter, decide_eq_true_eq] <;> omega

instance Side.isStrictOrder_looser (side : Side) : IsStrictOrder Int side.Looser where
  irrefl a := irrefl_of side.Tighter a
  trans _ _ _ first second := trans_of side.Tighter second first

/-- The entries of an array after some changes, with a list of the changed positions.  What is there now
is related to what was there before. -/
structure Changed (r : Int → Int → Prop) (before now : Array Int) (changed : List Nat) : Prop where
  size : now.size = before.size
  related : ∀ v ∈ changed, r (valueAt now v) (valueAt before v)
  kept : ∀ v, v ∉ changed → now[v]? = before[v]?

section

variable {r : Int → Int → Prop} [IsStrictOrder Int r] {before now : Array Int} {changed : List Nat}
  {v w : Nat} {x : Int}

omit [IsStrictOrder Int r] in
/-- Nothing has changed yet. -/
lemma Changed.refl : Changed r before before [] :=
  ⟨rfl, fun _ member => absurd member List.not_mem_nil, fun _ _ => rfl⟩

/-- **Step.**  One more entry is replaced by a related one, and its position is listed. -/
lemma Changed.set (h : Changed r before now changed) (hw : w < now.size)
    (further : r x (valueAt now w)) : Changed r before (now.set w x hw) (w :: changed) where
  size := by rw [Array.size_set, h.size]
  related v member := by
    rw [valueAt_set]
    split
    · rename_i same
      subst same
      by_cases earlier : v ∈ changed
      · exact trans_of r further (h.related v earlier)
      · have untouched : valueAt now v = valueAt before v := by
          unfold valueAt
          rw [Array.getD_eq_getD_getElem?, Array.getD_eq_getD_getElem?, h.kept v earlier]
        rwa [← untouched]
    · rename_i other
      exact h.related v ((List.mem_cons.1 member).resolve_left other)
  kept v fresh := by
    obtain ⟨other, fresh⟩ := not_or.1 fun either => fresh (List.mem_cons.2 either)
    rw [Array.getElem?_set_ne hw (Ne.symm other), h.kept v fresh]

/-- The list has the positions where the entries differ, and no others. -/
lemma Changed.mem_iff (h : Changed r before now changed) (v : Nat) :
    v ∈ changed ↔ now[v]? ≠ before[v]? := by
  constructor
  · intro member same
    have related := h.related v member
    unfold valueAt at related
    rw [Array.getD_eq_getD_getElem?, Array.getD_eq_getD_getElem?, same] at related
    exact irrefl_of r _ related
  · intro differs
    by_contra fresh
    exact differs (h.kept v fresh)

end

/-! ## Tightening -/

section

variable {p : Pass} {net : Network} {before : Array Int}

/-- **Step.**  What one job demands of its neighbours is listed. -/
lemma Pass.relax_changed {start : Int} {neighbours : List (Nat × Arc)} :
    ∀ {s : PassState}, Changed p.side.Tighter before s.value s.changed →
      (p.relax start neighbours s).Ensures fun s' =>
        Changed p.side.Tighter before s'.value s'.changed := by
  induction neighbours with
  | nil => exact fun h => .pure h
  | cons neighbour rest ih =>
    obtain ⟨w, arc⟩ := neighbour
    intro s h
    unfold Pass.relax
    refine Ensures.any.bind fun bound _ => Ensures.same.bind fun old fetched => ?_
    split
    · rename_i tighter
      refine Ensures.same.bind fun value stored => Ensures.any.bind fun _ _ => ih ?_
      obtain ⟨hw, rfl⟩ := store_eq_ok_iff.1 stored
      obtain rfl : valueAt s.value w = old := Except.ok.inj ((fetch_valueAt hw).symm.trans fetched)
      have listed := h.set hw tighter
      rcases record_cases p s (s.value.set w bound hw) w (valueAt s.value w) with same | ⟨-, -, same⟩
      all_goals
        rw [same]
        exact listed
    · exact ih h

/-- **Run.**  All changes of a pass are listed. -/
lemma Pass.settle_changed : ∀ {s : PassState}, Changed p.side.Tighter before s.value s.changed →
    (p.settle net s).Ensures fun s' => Changed p.side.Tighter before s'.value s'.changed := by
  intro s
  induction s using Pass.settle.induct (p := p) with
  | case1 s empty =>
    intro h
    rw [settle_nil empty]
    exact .pure h
  | case2 s v others stack ih =>
    intro h
    rw [settle_cons stack]
    refine Ensures.any.bind fun bound _ => Ensures.any.bind fun start _ => ?_
    refine Ensures.any.bind fun neighbours _ => ?_
    have relaxed : (p.relax start neighbours { s with stack := others }).Ensures fun s' =>
        Changed p.side.Tighter before s'.value s'.changed := Pass.relax_changed h
    refine (relaxed.and .same).bind ?_
    rintro s' ⟨listed, answer⟩
    exact ih start neighbours s' answer listed

end

/-! ## Relaxing -/

/-- **Run.**  All changes of relaxing are listed. -/
lemma settleLoose_changed {durations : Array Int} {net : Network} {side : Side}
    {before : Array Int} {t : BoundTable} {changed stack : List Nat} :
    Changed side.Looser before t.value changed →
      (BoundTable.settleLoose durations net side t changed stack).Ensures fun r =>
        Changed side.Looser before r.1.value r.2 := by
  induction t, changed, stack using BoundTable.settleLoose.induct durations net side with
  | case1 t changed =>
    intro h
    rw [BoundTable.settleLoose.eq_def]
    exact .pure h
  | case2 t changed v others fault loosened =>
    intro h
    rw [settleLoose_cons, loosened, error_bind]
    exact .error
  | case3 t changed v others loosened ih =>
    intro h
    rw [settleLoose_cons, loosened, ok_bind]
    exact ih h
  | case4 t changed v others t' loosened ih =>
    intro h
    rw [settleLoose_cons, loosened, ok_bind]
    refine Ensures.any.bind fun neighbours _ => ih neighbours ?_
    obtain ⟨bound, -, loosened⟩ := bind_eq_ok.1 loosened
    obtain ⟨old, fetched, loosened⟩ := bind_eq_ok.1 loosened
    split at loosened
    · rename_i looser
      obtain ⟨value, stored, loosened⟩ := bind_eq_ok.1 loosened
      obtain ⟨hv, rfl⟩ := store_eq_ok_iff.1 stored
      obtain rfl : valueAt t.value v = old := Except.ok.inj ((fetch_valueAt hv).symm.trans fetched)
      cases loosened
      exact h.set hv looser
    · cases loosened

/-! ## Whole passes -/

namespace Bounds

variable {b : Bounds} {net : Network}

/-- Tightening lists the jobs whose bounds become others. -/
lemma tighten_changed (side : Side) (seeds : List Nat) (d : Drain) (range : Span) :
    (b.tighten net side seeds d range).Ensures fun r =>
      ∀ v, v ∈ r.2 ↔ ((r.1.table side).value)[v]? ≠ ((b.table side).value)[v]? := by
  unfold tighten
  refine Ensures.any.bind fun drained _ => ?_
  refine (Pass.settle_changed .refl).bind fun s listed => .pure fun v => ?_
  rw [List.mem_reverse, table_withTable]
  exact listed.mem_iff v

/-- Relaxing lists the jobs whose bounds become others. -/
lemma relax_changed (side : Side) (seeds : List Nat) :
    (b.relax net side seeds).Ensures fun r =>
      ∀ v, v ∈ r.2 ↔ ((r.1.table side).value)[v]? ≠ ((b.table side).value)[v]? := by
  unfold relax
  refine (settleLoose_changed .refl).bind fun r listed => .pure fun v => ?_
  rw [List.mem_reverse, table_withTable]
  exact listed.mem_iff v

end Bounds

end Leveling
