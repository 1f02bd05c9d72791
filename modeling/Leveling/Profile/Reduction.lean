import Leveling.Resource

/-!
# Reduction of costs to one level

A tracked profile follows one weighted sum of the demands.  That is enough when the cost of
a time step is a non-decreasing function of such a sum.  Two shapes are recognised: a single
resource whose availability never changes, and any number of resources of which nothing is
free and whose costs are linear.
-/

namespace Leveling

variable {α : Type} [Scalar α]

/-- How costs depend on one level. -/
inductive Reduction (α : Type) where
  /-- The level is the demand for the only resource. -/
  | single (resource : Resource α) (available : α)
  /-- The level is the cost itself, a weighted sum of the demands. -/
  | linear (weights : List α)

namespace Reduction

/-- The cost per unit of a resource of which nothing is free and whose costs are linear. -/
def unitCost? (r : Resource α) : Option α :=
  match r.availability.constant? with
  | some available =>
    if available == 0 then
      match r.investment.linearCoefficient?, r.overshoot.linearCoefficient? with
      | some investment, some overshoot => some (investment + overshoot)
      | _, _ => none
    else none
  | none => none

/-- The unit costs of all resources, if each has one. -/
def unitCosts? : List (Resource α) → Option (List α)
  | [] => some []
  | r :: rest =>
    match unitCost? r with
    | some c => (unitCosts? rest).map (c :: ·)
    | none => none

/-- The reduction for a list of resources, if their costs have one of the two shapes. -/
def ofResources? (resources : List (Resource α)) : Option (Reduction α) :=
  match resources with
  | [r] =>
    match r.availability.constant? with
    | some available => some (.single r available)
    | none => none
  | _ => (unitCosts? resources).map .linear

/-- The level that a demand for each resource makes. -/
def level : Reduction α → List α → α
  | .single _ _, demand => demand.headD 0
  | .linear weights, demand => Scalar.sum (List.zipWith (· * ·) weights demand)

/-- The cost of a time step at a level. -/
def cost : Reduction α → α → α
  | .single r available, level => r.stepCost level available
  | .linear _, level => max level 0

end Reduction

end Leveling
