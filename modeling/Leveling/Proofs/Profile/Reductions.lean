import Leveling.Proofs.Profile.Supplies
import Leveling.Profile.Reduction
import Mathlib.Algebra.Order.BigOperators.Group.Finset

/-!
# Reductions are exact

If the costs of an accepted instance reduce to one level, the cost of a time step is a non-decreasing
function of the level that the demand makes, and no level costs nothing.  A level is a weighted sum of
the demands, so the level of several jobs is the sum of their levels.
-/

namespace Leveling

variable {α : Type} [ExactScalar α]

namespace Reduction

variable {r : Resource α} {resources : List (Resource α)} {red : Reduction α} {p : Problem α}
  {weights load demand : List α} {c : α} {time : Int}

/-! ## The two shapes -/

omit [ExactScalar α] in
/-- A reduction follows the demand for the only resource or the unit costs of all resources. -/
lemma ofResources?_cases [Scalar α] (h : ofResources? resources = some red) :
    (∃ r available, resources = [r] ∧ r.availability.constant? = some available ∧
      red = .single r available) ∨
        ∃ weights, unitCosts? resources = some weights ∧ red = .linear weights := by
  unfold ofResources? at h
  split at h
  · rename_i r
    cases constant : r.availability.constant? with
    | none =>
      rw [constant] at h
      cases h
    | some available =>
      rw [constant] at h
      exact .inl ⟨r, available, rfl, constant, (Option.some.inj h).symm⟩
  · obtain ⟨weights, found, rfl⟩ := Option.map_eq_some_iff.1 h
    exact .inr ⟨weights, found, rfl⟩

/-- A unit cost is not negative, and each unit of a demand costs it. -/
lemma stepCost_of_unitCost (proper : r.Proper) (unit : unitCost? r = some c) :
    0 ≤ c ∧ ∀ {time : Int} {d : α}, 0 ≤ time → 0 ≤ d →
      r.stepCost d (r.availability.amountAt time) = c * d := by
  unfold unitCost? at unit
  cases constant : r.availability.constant? with
  | none =>
    rw [constant] at unit
    cases unit
  | some available =>
    rw [constant] at unit
    dsimp only at unit
    by_cases zero : (available == 0) = true
    · rw [if_pos zero] at unit
      obtain rfl := ExactScalar.beq_iff.1 zero
      cases investment : r.investment.linearCoefficient? with
      | none =>
        rw [investment] at unit
        cases unit
      | some i =>
        cases overshoot : r.overshoot.linearCoefficient? with
        | none =>
          rw [investment, overshoot] at unit
          cases unit
        | some o =>
          rw [investment, overshoot] at unit
          obtain rfl := Option.some.inj unit
          have one : (0 : α) ≤ 1 := zero_le_one
          refine ⟨add_nonneg ?_ ?_, fun nonneg positive => ?_⟩
          · rw [← mul_one i, ← Polynomial.apply_of_linear investment one]
            exact proper.investment.apply_nonneg one
          · rw [← mul_one o, ← Polynomial.apply_of_linear overshoot one]
            exact proper.overshoot.apply_nonneg one
          · rw [proper.availability.amountAt_of_constant nonneg constant]
            rcases eq_or_lt_of_le positive with rfl | positive
            · rw [Resource.stepCost_of_le le_rfl, mul_zero]
            · rw [Resource.stepCost_of_lt positive, sub_zero,
                Polynomial.apply_of_linear investment positive.le,
                Polynomial.apply_of_linear overshoot positive.le, add_mul]
    · rw [if_neg zero] at unit
      cases unit

/-- There is a unit cost for each resource, none is negative, and together they make the cost of a
time step. -/
lemma sum_of_unitCosts : ∀ {resources : List (Resource α)} {weights : List α},
    (∀ r ∈ resources, r.Proper) → unitCosts? resources = some weights →
      weights.length = resources.length ∧ (∀ c ∈ weights, 0 ≤ c) ∧
        ∀ {time : Int} {load : List α}, 0 ≤ time → load.length = resources.length →
          (∀ d ∈ load, 0 ≤ d) → (List.zipWith (fun (r : Resource α) d =>
            r.stepCost d (r.availability.amountAt time)) resources load).sum =
              (List.zipWith (· * ·) weights load).sum := by
  intro resources
  induction resources with
  | nil =>
    intro weights _ unit
    obtain rfl := Option.some.inj unit
    exact ⟨rfl, fun c among => absurd among List.not_mem_nil, fun _ _ _ => rfl⟩
  | cons r rest ih =>
    intro weights proper unit
    unfold unitCosts? at unit
    cases first : unitCost? r with
    | none =>
      rw [first] at unit
      cases unit
    | some c =>
      rw [first] at unit
      obtain ⟨others, found, rfl⟩ := Option.map_eq_some_iff.1 unit
      obtain ⟨nonneg, cost⟩ := stepCost_of_unitCost (proper r List.mem_cons_self) first
      obtain ⟨length, nonnegs, costs⟩ := ih (fun r' among => proper r' (List.mem_cons_of_mem _ among))
        found
      refine ⟨congrArg (· + 1) length, List.forall_mem_cons.2 ⟨nonneg, nonnegs⟩, ?_⟩
      intro time load reached sizes positive
      cases load with
      | nil => cases sizes
      | cons d load =>
        obtain ⟨positive, positives⟩ := List.forall_mem_cons.1 positive
        rw [List.zipWith_cons_cons, List.sum_cons, List.zipWith_cons_cons, List.sum_cons,
          cost reached positive, costs reached (Nat.succ.inj sizes) positives]

/-! ## Levels -/

/-- What a unit of the demand for a resource adds to the level. -/
def unitLevel : Reduction α → Nat → α
  | .single _ _, _ => 1
  | .linear weights, k => weights.getD k 0

/-- The sum of the products of two lists, by positions. -/
lemma sum_zipWith_mul : ∀ {weights demand : List α}, weights.length = demand.length →
    (List.zipWith (· * ·) weights demand).sum =
      ∑ k ∈ Finset.range demand.length, weights.getD k 0 * demand.getD k 0
  | [], [], _ => rfl
  | c :: weights, d :: demand, same => by
    rw [List.zipWith_cons_cons, List.sum_cons, sum_zipWith_mul (Nat.succ.inj same), List.length_cons,
      Finset.sum_range_succ', add_comm]
    rfl

/-- The level that a demand makes is a weighted sum. -/
lemma level_eq (supplied : p.Supplied) (reduces : ofResources? p.resources = some red)
    (length : demand.length = p.resources.length) :
    red.level demand = ∑ k ∈ Finset.range p.resources.length, red.unitLevel k * demand.getD k 0 := by
  obtain ⟨r, available, single, -, rfl⟩ | ⟨weights, unit, rfl⟩ := ofResources?_cases reduces
  · rw [single] at length ⊢
    obtain ⟨d, rfl⟩ := List.length_eq_one_iff.1 length
    rw [List.length_singleton, Finset.sum_range_one]
    exact (one_mul d).symm
  · obtain ⟨lengths, -⟩ := sum_of_unitCosts supplied.resources unit
    rw [← length]
    exact (ExactScalar.sum_eq _).trans (sum_zipWith_mul (lengths.trans length.symm))

/-- If no entry of a list is negative, no entry at any position is, also beyond the end. -/
lemma getD_nonneg {xs : List α} (nonneg : ∀ x ∈ xs, 0 ≤ x) (k : Nat) : 0 ≤ xs.getD k 0 := by
  rw [List.getD_eq_getElem?_getD]
  cases found : xs[k]? with
  | none => exact le_refl _
  | some x => exact nonneg x (List.mem_of_getElem? found)

/-- A unit of a demand does not lower the level. -/
lemma unitLevel_nonneg (supplied : p.Supplied) (reduces : ofResources? p.resources = some red)
    (k : Nat) : 0 ≤ red.unitLevel k := by
  obtain ⟨r, available, -, -, rfl⟩ | ⟨weights, unit, rfl⟩ := ofResources?_cases reduces
  · exact zero_le_one
  · obtain ⟨-, nonneg, -⟩ := sum_of_unitCosts supplied.resources unit
    exact getD_nonneg nonneg k

/-- The level that a demand makes is not negative. -/
lemma level_nonneg (supplied : p.Supplied) (reduces : ofResources? p.resources = some red)
    (length : demand.length = p.resources.length) (nonneg : ∀ d ∈ demand, 0 ≤ d) :
    0 ≤ red.level demand := by
  rw [level_eq supplied reduces length]
  exact Finset.sum_nonneg fun k _ =>
    mul_nonneg (unitLevel_nonneg supplied reduces k) (getD_nonneg nonneg k)

/-! ## Costs of levels -/

/-- The cost of a time step is the cost of the level that the demand makes. -/
lemma cost_level (supplied : p.Supplied) (reduces : ofResources? p.resources = some red)
    (length : load.length = p.resources.length) (nonneg : ∀ d ∈ load, 0 ≤ d) (reached : 0 ≤ time) :
    red.cost (red.level load) = p.stepCost load time := by
  have level := level_nonneg supplied reduces length nonneg
  rw [Problem.stepCost_eq, ExactScalar.sum_eq]
  obtain ⟨r, available, single, constant, rfl⟩ | ⟨weights, unit, rfl⟩ := ofResources?_cases reduces
  · have proper := supplied.resources r (single ▸ List.mem_singleton_self r)
    rw [single] at length ⊢
    obtain ⟨d, rfl⟩ := List.length_eq_one_iff.1 length
    rw [List.zipWith_cons_cons, List.zipWith_nil_right, List.sum_singleton,
      proper.availability.amountAt_of_constant reached constant]
    rfl
  · obtain ⟨-, -, costs⟩ := sum_of_unitCosts supplied.resources unit
    rw [costs reached length nonneg, ← ExactScalar.sum_eq]
    exact max_eq_left level

/-- A higher level does not cost less. -/
lemma cost_mono (supplied : p.Supplied) (reduces : ofResources? p.resources = some red) :
    Monotone red.cost := by
  intro x y le
  obtain ⟨r, available, single, -, rfl⟩ | ⟨weights, -, rfl⟩ := ofResources?_cases reduces
  · exact (supplied.resources r (single ▸ List.mem_singleton_self r)).stepCost_mono le
  · exact max_le_max le le_rfl

/-- No level costs nothing. -/
lemma cost_zero (supplied : p.Supplied) (reduces : ofResources? p.resources = some red) :
    red.cost 0 = 0 := by
  obtain ⟨r, available, single, constant, rfl⟩ | ⟨weights, -, rfl⟩ := ofResources?_cases reduces
  · have proper := (supplied.resources r (single ▸ List.mem_singleton_self r)).availability
    refine Resource.stepCost_of_le ?_
    rw [← proper.amountAt_of_constant le_rfl constant]
    exact proper.amountAt_nonneg le_rfl
  · exact max_self 0

end Reduction

end Leveling
