/-!
# Faults and checked arithmetic

Points of the discrete time axis are integers, and jobs are named by their positions in the
instance.  Times live in a signed 64-bit range and counters in an unsigned one.  Every operation
that could leave its range, or look at a place that does not exist, is *checked*: it
either answers or stops with a `Fault`.  A fault says that the caller broke a rule of the
library (or that a number grew out of its range); it is never an ordinary answer such as
"this instance is infeasible", for which each module has an error type of its own.
-/

namespace Leveling

/-- The reasons for which a computation stops without an answer. -/
inductive Fault where
  /-- A number left its 64-bit range. -/
  | overflow
  /-- A position outside a list was asked for. -/
  | indexOutOfBounds
  /-- A condition on the arguments of an operation does not hold. -/
  | assertionFailed
  /-- An arc was named by a handle that was taken before the last change of its network. -/
  | staleHandle
  /-- The arc to be inserted would close a cycle. -/
  | closesCycle (source target : Nat)
  /-- An earliest start no longer leaves room before the deadline. -/
  | pastDeadline (job : Nat)
  /-- A latest finish no longer leaves room after the release. -/
  | beforeRelease (job : Nat)
  /-- A job that is already in the profile was placed again. -/
  | placedTwice (job : Nat)
  /-- A job was placed outside the time steps of a dense profile. -/
  | outsideHorizon (job : Nat)
  /-- A worklist was not empty after as many rounds as any acyclic network needs, or the nodes of an
  event tree were not all passed after as many steps as there are slots. -/
  | unsettled
  /-- A list was asked for that is longer than a list can be. -/
  | capacityOverflow
deriving DecidableEq, Inhabited

/-- The wording of those faults that have one. -/
def Fault.message : Fault → Option String
  | .staleHandle => some "stale edge handle"
  | .closesCycle source target => some s!"edge {source} -> {target} would close a cycle"
  | .pastDeadline job => some s!"job {job} pushed past its deadline"
  | .beforeRelease job => some s!"job {job} pulled before its release"
  | .placedTwice job => some s!"job {job} placed twice"
  | .outsideHorizon job => some s!"job {job} outside horizon"
  | .capacityOverflow => some "capacity overflow"
  | _ => none

/-- A computation that may stop with a fault. -/
abbrev Checked := Except Fault

/-- Two computations in a row answer when the first one does and the second one does from
its answer. -/
theorem Checked.bind_eq_ok {β γ : Type} {x : Checked β} {f : β → Checked γ} {c : γ} :
    (x >>= f) = .ok c ↔ ∃ b, x = .ok b ∧ f b = .ok c := by
  cases x with
  | error e => simp [bind, Except.bind]
  | ok b => simp [bind, Except.bind]

/-- A computation that may stop with a fault, or refuse with a reason of type `ε`. -/
abbrev Verdict (ε : Type) := ExceptT ε Checked

/-! ## Times -/

/-- The least time. -/
def leastTime : Int := -9223372036854775808

/-- The greatest time. -/
def greatestTime : Int := 9223372036854775807

/-- An exact integer as a time, if it lies in the range of times. -/
def asTime (x : Int) : Checked Int :=
  if leastTime ≤ x ∧ x ≤ greatestTime then .ok x else .error .overflow

/-- The checked sum of two times. -/
def addTime (a b : Int) : Checked Int := asTime (a + b)

/-- The checked difference of two times. -/
def subTime (a b : Int) : Checked Int := asTime (a - b)

/-- A checked integer that answers is the integer itself. -/
theorem asTime_eq_ok {x y : Int} (h : asTime x = .ok y) : y = x := by
  unfold asTime at h
  split at h
  · exact (Except.ok.inj h).symm
  · cases h

/-- A checked sum that answers is the exact sum. -/
theorem addTime_eq_ok {a b c : Int} (h : addTime a b = .ok c) : c = a + b := asTime_eq_ok h

/-- A checked difference that answers is the exact difference. -/
theorem subTime_eq_ok {a b c : Int} (h : subTime a b = .ok c) : c = a - b := asTime_eq_ok h

/-! ## Counters -/

/-- An exact number as a 64-bit counter. -/
def asCount (n : Nat) : Checked Nat :=
  if n < 18446744073709551616 then .ok n else .error .overflow

/-- The checked difference of two counters. -/
def subCount (a b : Nat) : Checked Nat :=
  if b ≤ a then .ok (a - b) else .error .overflow

/-- The cell of row `row` and column `column` in a square table with `width` columns, stored
row by row. -/
def cellOf (width row column : Nat) : Checked Nat := do
  let offset ← asCount (row * width)
  asCount (offset + column)

/-- The number of bytes that the entries of a list can take together. -/
def mostBytes : Nat := 9223372036854775807

/-- Stops if there is no list of `count` entries of `bytes` bytes each. -/
def reserve (count bytes : Nat) : Checked Unit :=
  if count * bytes ≤ mostBytes then .ok () else .error .capacityOverflow

/-- A checked difference of counters that answers adds up again. -/
theorem subCount_eq_ok {a b c : Nat} (h : subCount a b = .ok c) : c + b = a := by
  unfold subCount at h
  split at h
  · cases h; omega
  · cases h

/-! ## Positions -/

/-- The entry at position `i`. -/
def fetch {β : Type} (xs : Array β) (i : Nat) : Checked β :=
  match xs[i]? with
  | some x => .ok x
  | none => .error .indexOutOfBounds

/-- The list with the entry at position `i` replaced. -/
def store {β : Type} (xs : Array β) (i : Nat) (x : β) : Checked (Array β) :=
  if h : i < xs.size then .ok (xs.set i x h) else .error .indexOutOfBounds

/-- The list with the entry at position `i` changed by `f`. -/
def adjust {β : Type} (xs : Array β) (i : Nat) (f : β → Checked β) : Checked (Array β) := do
  store xs i (← f (← fetch xs i))

/-- A fetch answers exactly at the positions of the list. -/
theorem fetch_eq_ok_iff {β : Type} {xs : Array β} {i : Nat} {x : β} :
    fetch xs i = .ok x ↔ ∃ h : i < xs.size, xs[i] = x := by
  unfold fetch
  by_cases h : i < xs.size
  · simp [h]
  · simp [h]

/-- A store answers exactly at the positions of the list. -/
theorem store_eq_ok_iff {β : Type} {xs ys : Array β} {i : Nat} {x : β} :
    store xs i x = .ok ys ↔ ∃ h : i < xs.size, xs.set i x h = ys := by
  unfold store
  by_cases h : i < xs.size
  · simp [h]
  · simp [h]

end Leveling
