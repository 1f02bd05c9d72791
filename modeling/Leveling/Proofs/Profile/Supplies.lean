import Leveling.Proofs.Exact
import Leveling.Proofs.Accepted

/-!
# Supplies and their costs

Over exact numbers the resources of an accepted instance are *proper*: the first breakpoint is at time
zero, their times increase, and no amount, coefficient or exponent is negative.  So a demand within the availability costs
nothing, no demand costs less than nothing, and a higher demand never costs less.
-/

namespace Leveling

variable {α : Type} [ExactScalar α]

/-! ## Polynomials -/

/-- No coefficient and no exponent is negative. -/
def Polynomial.Proper (q : Polynomial α) : Prop :=
  ∀ t ∈ q.terms, 0 ≤ t.coefficient ∧ 0 ≤ t.exponent

namespace Polynomial

variable {q : Polynomial α} {x y : α}

/-- The value of a polynomial as a sum. -/
lemma apply_eq (q : Polynomial α) (x : α) :
    q.apply x = (q.terms.map fun t => t.coefficient * ExactScalar.power x t.exponent).sum :=
  ExactScalar.sum_eq _

/-- The value of a proper polynomial is not negative. -/
lemma Proper.apply_nonneg (proper : q.Proper) (hx : 0 ≤ x) : 0 ≤ q.apply x := by
  rw [apply_eq]
  refine List.sum_nonneg fun y member => ?_
  obtain ⟨t, among, rfl⟩ := List.mem_map.1 member
  exact mul_nonneg (proper t among).1 (ExactScalar.power_nonneg hx)

/-- A proper polynomial does not decrease. -/
lemma Proper.apply_mono (proper : q.Proper) (hx : 0 ≤ x) (le : x ≤ y) : q.apply x ≤ q.apply y := by
  rw [apply_eq, apply_eq]
  refine List.sum_le_sum fun t among => ?_
  obtain ⟨coefficient, exponent⟩ := proper t among
  exact mul_le_mul_of_nonneg_left (ExactScalar.power_mono exponent hx le) coefficient

/-- A polynomial that is linear has its slope as its factor. -/
lemma linearFrom_eq {c : α} (hx : 0 ≤ x) : ∀ {terms : List (Term α)} {total : α},
    linearFrom total terms = some c →
      total * x + (terms.map fun t => t.coefficient * ExactScalar.power x t.exponent).sum = c * x := by
  intro terms
  induction terms with
  | nil =>
    intro total slope
    obtain rfl := Option.some.inj slope
    exact add_zero _
  | cons t rest ih =>
    intro total slope
    unfold linearFrom at slope
    rw [List.map_cons, List.sum_cons]
    split at slope
    · rename_i zero
      rw [ExactScalar.beq_iff.1 zero, zero_mul, zero_add]
      exact ih slope
    · split at slope
      · rename_i one
        rw [ExactScalar.beq_iff.1 one, ExactScalar.power_one hx, ← add_assoc, ← add_mul]
        exact ih slope
      · cases slope

/-- A polynomial that is linear has its slope as its factor. -/
lemma apply_of_linear {c : α} (linear : q.linearCoefficient? = some c) (hx : 0 ≤ x) :
    q.apply x = c * x := by
  rw [apply_eq, ← linearFrom_eq hx linear, zero_mul, zero_add]

/-- Accepted terms are proper. -/
lemma proper_of_checkTerms {charge : Charge} (h : checkTerms charge q.terms = .ok ()) : q.Proper := by
  obtain ⟨terms⟩ := q
  induction terms with
  | nil => exact fun t among => absurd among List.not_mem_nil
  | cons t rest ih =>
    unfold checkTerms at h
    split at h
    · cases h
    · rename_i coefficient
      split at h
      · cases h
      · rename_i exponent
        simp only [Bool.not_eq_true', Bool.not_eq_false] at coefficient exponent
        intro t' among
        rcases List.mem_cons.1 among with rfl | among
        · exact ⟨ExactScalar.isAmount_iff.1 coefficient, ExactScalar.isAmount_iff.1 exponent⟩
        · exact ih h t' among

end Polynomial

/-! ## Availability -/

/-- The first breakpoint is at time zero, the times increase, and no amount is negative. -/
structure Availability.Proper (a : Availability α) : Prop where
  first : ∃ b, a.points[0]? = some b ∧ b.time = 0
  increasing : a.points.toList.Pairwise fun b b' => b.time < b'.time
  amounts : ∀ b ∈ a.points.toList, 0 ≤ b.amount

namespace Availability

variable {a : Availability α} {time : Int}

omit [ExactScalar α] in
/-- The breakpoints that are counted end with one that is reached. -/
lemma countReached_eq (a : Availability α) (time : Int) : ∀ base size : Nat,
    a.reached time base = true → ∃ i, a.countReached time base size = i + 1 ∧
      a.reached time i = true := by
  intro base size
  induction base, size using countReached.induct a time with
  | case1 base size small reached =>
    intro _
    unfold countReached
    rw [if_pos small, if_pos reached]
    exact ⟨base, rfl, reached⟩
  | case2 base size small notReached => exact fun reached => absurd reached notReached
  | case3 base size large half base' ih =>
    intro reached
    unfold countReached
    rw [if_neg large]
    refine ih ?_
    dsimp only [base', half]
    split
    · assumption
    · exact reached

/-- The amount at a time is that of a breakpoint. -/
lemma Proper.exists_amountAt (proper : a.Proper) (nonneg : 0 ≤ time) :
    ∃ b ∈ a.points.toList, a.amountAt time = b.amount := by
  obtain ⟨b, found, zero⟩ := proper.first
  have reached : a.reached time 0 = true := by
    unfold Availability.reached
    rw [found]
    exact decide_eq_true (by omega)
  obtain ⟨i, count, reached⟩ := a.countReached_eq time 0 a.points.size reached
  unfold Availability.reached at reached
  unfold amountAt
  rw [count]
  dsimp only
  cases found : a.points[i]? with
  | none =>
    rw [found] at reached
    cases reached
  | some b => exact ⟨b, Array.mem_toList_iff.2 (Array.mem_of_getElem? found), rfl⟩

/-- The amount at a time is not negative. -/
lemma Proper.amountAt_nonneg (proper : a.Proper) (nonneg : 0 ≤ time) : 0 ≤ a.amountAt time := by
  obtain ⟨b, among, same⟩ := proper.exists_amountAt nonneg
  rw [same]
  exact proper.amounts b among

/-- If the amount never changes, it is the amount at each time. -/
lemma Proper.amountAt_of_constant (proper : a.Proper) (nonneg : 0 ≤ time) {available : α}
    (constant : a.constant? = some available) : a.amountAt time = available := by
  obtain ⟨b, among, same⟩ := proper.exists_amountAt nonneg
  have all : ∀ first : α, (if (a.points.all fun p => p.amount == first) = true then some first
      else none) = some available → b.amount = available := by
    intro first chosen
    split at chosen
    · rename_i all
      obtain rfl := Option.some.inj chosen
      exact ExactScalar.beq_iff.1
        (Array.all_eq_true_iff_forall_mem.1 all b (Array.mem_toList_iff.1 among))
    · cases chosen
  rw [same]
  exact all _ constant

omit [ExactScalar α] in
/-- If the times of neighbours increase, each breakpoint comes before all that follow. -/
lemma pairwise_of_isIncreasing : ∀ {points : List (Breakpoint α)}, isIncreasing points = true →
    points.Pairwise fun b b' => b.time < b'.time
  | [], _ => .nil
  | [_], _ => List.pairwise_singleton _ _
  | b :: b' :: rest, h => by
    obtain ⟨earlier, h⟩ := (Bool.and_eq_true _ _).mp h
    have tail := pairwise_of_isIncreasing h
    have first : b.time < b'.time := of_decide_eq_true earlier
    refine .cons (fun c among => ?_) tail
    rcases List.mem_cons.1 among with rfl | among
    · exact first
    · exact first.trans (List.rel_of_pairwise_cons tail among)

/-- An accepted availability is proper. -/
lemma proper_of_check (h : a.check = .ok ()) : a.Proper := by
  unfold Availability.check at h
  cases first : a.points[0]? with
  | none =>
    rw [first] at h
    cases h
  | some p =>
    rw [first] at h
    dsimp only at h
    by_cases zero : p.time = 0
    · rw [if_neg (not_not.2 zero)] at h
      by_cases increasing : isIncreasing a.points.toList = true
      · rw [if_pos increasing] at h
        cases improper : a.points.toList.find? fun p => !isAmount p.amount with
        | some q =>
          rw [improper] at h
          cases h
        | none =>
          refine ⟨⟨p, first, zero⟩, pairwise_of_isIncreasing increasing, fun b among => ?_⟩
          have proper := List.find?_eq_none.1 improper b among
          rw [Bool.not_eq_true', Bool.not_eq_false] at proper
          exact ExactScalar.isAmount_iff.1 proper
      · rw [if_neg increasing] at h
        cases h
    · rw [if_pos zero] at h
      cases h

end Availability

/-! ## Resources -/

/-- The availability and both charges are proper. -/
structure Resource.Proper (r : Resource α) : Prop where
  availability : r.availability.Proper
  investment : r.investment.Proper
  overshoot : r.overshoot.Proper

namespace Resource

variable {r : Resource α} {demand demand' available : α}

/-- An accepted resource is proper. -/
lemma proper_of_check (h : r.check = .ok ()) : r.Proper := by
  unfold Resource.check at h
  cases availability : r.availability.check with
  | error defect =>
    rw [availability] at h
    cases h
  | ok u =>
    rw [availability] at h
    cases investment : Polynomial.checkTerms .investment r.investment.terms with
    | error defect =>
      rw [investment] at h
      cases h
    | ok u' =>
      rw [investment] at h
      exact ⟨Availability.proper_of_check availability, Polynomial.proper_of_checkTerms investment,
        Polynomial.proper_of_checkTerms h⟩

/-- A demand within the availability costs nothing. -/
lemma stepCost_of_le (le : demand ≤ available) : r.stepCost demand available = 0 :=
  if_pos (sub_nonpos.2 le)

/-- A demand beyond the availability costs both charges. -/
lemma stepCost_of_lt (lt : available < demand) : r.stepCost demand available =
    r.investment.apply (demand - available) + r.overshoot.apply (demand - available) :=
  if_neg (not_le.2 (sub_pos.2 lt))

/-- No demand costs less than nothing. -/
lemma Proper.stepCost_nonneg (proper : r.Proper) : 0 ≤ r.stepCost demand available := by
  rcases le_or_gt demand available with le | lt
  · rw [stepCost_of_le le]
  · rw [stepCost_of_lt lt]
    exact add_nonneg (proper.investment.apply_nonneg (sub_pos.2 lt).le)
      (proper.overshoot.apply_nonneg (sub_pos.2 lt).le)

/-- A higher demand does not cost less. -/
lemma Proper.stepCost_mono (proper : r.Proper) (le : demand ≤ demand') :
    r.stepCost demand available ≤ r.stepCost demand' available := by
  rcases le_or_gt demand available with small | large
  · rw [stepCost_of_le small]
    exact proper.stepCost_nonneg
  · have more : demand - available ≤ demand' - available := sub_le_sub_right le available
    rw [stepCost_of_lt large, stepCost_of_lt (large.trans_le le)]
    exact add_le_add (proper.investment.apply_mono (sub_pos.2 large).le more)
      (proper.overshoot.apply_mono (sub_pos.2 large).le more)

end Resource

/-! ## Instances -/

omit [ExactScalar α] in
/-- The cost of a time step is the sum of the costs of the resources. -/
lemma Problem.stepCost_eq [Scalar α] (p : Problem α) (demand : List α) (time : Int) :
    p.stepCost demand time = Scalar.sum (List.zipWith
      (fun (r : Resource α) d => r.stepCost d (r.availability.amountAt time)) p.resources demand) :=
  congrArg Scalar.sum List.map_zip_eq_zipWith

/-- Each job names a demand for each resource, no demand is negative, and all resources are proper. -/
structure Problem.Supplied (p : Problem α) : Prop where
  demand_length : ∀ job ∈ p.jobs.toList, job.demand.length = p.resources.length
  demand_nonneg : ∀ job ∈ p.jobs.toList, ∀ d ∈ job.demand, 0 ≤ d
  resources : ∀ r ∈ p.resources, r.Proper

/-- No time step costs less than nothing. -/
lemma Problem.Supplied.stepCost_nonneg {p : Problem α} (supplied : p.Supplied) (demand : List α)
    (time : Int) : 0 ≤ p.stepCost demand time := by
  unfold Problem.stepCost
  rw [ExactScalar.sum_eq]
  refine List.sum_nonneg fun x among => ?_
  obtain ⟨⟨r, d⟩, pair, rfl⟩ := List.mem_map.1 among
  exact (supplied.resources r (List.of_mem_zip pair).1).stepCost_nonneg

/-- A time step without any demand costs nothing. -/
lemma Problem.Supplied.stepCost_zero {p : Problem α} (supplied : p.Supplied) {time : Int}
    (reached : 0 ≤ time) : p.stepCost (p.resources.map fun _ => 0) time = 0 := by
  rw [Problem.stepCost_eq, ExactScalar.sum_eq, List.zipWith_map_right, List.zipWith_self]
  refine List.sum_eq_zero fun x among => ?_
  obtain ⟨r, member, rfl⟩ := List.mem_map.1 among
  exact Resource.stepCost_of_le
    ((supplied.resources r member).availability.amountAt_nonneg reached)

/-- Accepted jobs have proper demands. -/
lemma Job.demand_of_check {job : Job α} {id resources : Nat}
    (h : (job.check id resources).Accepts ()) :
    job.demand.length = resources ∧ ∀ d ∈ job.demand, 0 ≤ d := by
  unfold Job.check at h
  dsimp only at h
  obtain ⟨length, h⟩ := Verdict.accepts_guard.1 h
  split at h
  · obtain ⟨_, impossible, -⟩ := Verdict.accepts_bind.1 h
    exact absurd impossible Verdict.not_accepts_throw
  · rename_i none
    refine ⟨not_not.1 length, fun d among => ?_⟩
    obtain ⟨i, there⟩ := List.mem_iff_getElem?.1 among
    have proper := List.find?_eq_none.1 none (d, i) (List.mk_mem_zipIdx_iff_getElem?.2 there)
    rw [Bool.not_eq_true', Bool.not_eq_false] at proper
    exact ExactScalar.isAmount_iff.1 proper

/-- An accepted instance has proper demands and proper resources. -/
lemma Problem.supplied_of_build {jobs : Array (Job α)} {resources : List (Resource α)}
    {given : List Precedence} {p : Problem α}
    (h : (Problem.build jobs resources given).Accepts p) : p.Supplied := by
  unfold Problem.build at h
  obtain ⟨_, supplies, h⟩ := Verdict.accepts_bind.1 h
  obtain ⟨_, demands, h⟩ := Verdict.accepts_bind.1 h
  obtain ⟨_, -, h⟩ := Verdict.accepts_bind.1 h
  dsimp only at h
  obtain ⟨found, -, h⟩ := Verdict.accepts_bind.1 h
  cases found with
  | none => exact absurd h Verdict.not_accepts_throw
  | some order =>
    dsimp only at h
    obtain ⟨earliest, -, h⟩ := Verdict.accepts_bind.1 h
    obtain ⟨latest, -, h⟩ := Verdict.accepts_bind.1 h
    obtain ⟨_, -, h⟩ := Verdict.accepts_bind.1 h
    obtain rfl := Verdict.accepts_pure.1 h
    have proper : ∀ job ∈ jobs.toList, job.demand.length = resources.length ∧
        ∀ d ∈ job.demand, 0 ≤ d := by
      intro job among
      obtain ⟨id, there⟩ := List.mem_iff_getElem?.1 among
      exact Job.demand_of_check
        (Verdict.accepts_forM.1 demands (job, id) (List.mk_mem_zipIdx_iff_getElem?.2 there))
    refine ⟨fun job among => (proper job among).1, fun job among => (proper job among).2,
      fun r among => ?_⟩
    obtain ⟨id, there⟩ := List.mem_iff_getElem?.1 among
    have accepted := Verdict.accepts_forM.1 supplies (r, id) (List.mk_mem_zipIdx_iff_getElem?.2 there)
    dsimp only at accepted
    refine Resource.proper_of_check ?_
    cases checked : r.check with
    | error defect =>
      rw [checked] at accepted
      exact absurd accepted Verdict.not_accepts_throw
    | ok u => rfl

end Leveling
