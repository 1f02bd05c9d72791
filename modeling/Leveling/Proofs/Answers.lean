import Leveling.Fault
import Mathlib.Data.List.Perm.Subperm
import Mathlib.Tactic.Common

/-!
# Computations that answer

A checked computation either answers or stops with a fault.  The statements of this library
about checked computations are *total*: `x.Answers P` says that `x` stops with no fault and that
its answer satisfies `P`.  The rules below follow the ways in which computations are put
together, so that a statement about a function is proved from the statements about its parts.

Some statements hold also of instances so large that numbers grow out of their range.  These are
*partial*: `x.Ensures P` says that `x` stops with a fault or answers with an answer that satisfies
`P`.  Between the two is `x.AnswersIf safe P`: the only fault with which `x` may stop is an overflow,
and it stops with none at all if it is `safe`.
-/

namespace Leveling

variable {β γ : Type}

namespace Checked

/-- The computation answers, and its answer satisfies `P`. -/
def Answers (x : Checked β) (P : β → Prop) : Prop := ∃ b, x = .ok b ∧ P b

variable {x : Checked β} {P : β → Prop} {f : β → Checked γ} {Q : γ → Prop}

/-- A computation in front of another one disappears once its answer is known. -/
@[simp] lemma ok_bind (b : β) (f : β → Checked γ) : ((.ok b : Checked β) >>= f) = f b := rfl

/-- A fault in front of another computation is the fault of both. -/
@[simp] lemma error_bind (fault : Fault) (f : β → Checked γ) :
    ((.error fault : Checked β) >>= f) = .error fault := rfl

/-- An answer that is given right away. -/
lemma Answers.ok {b : β} (h : P b) : Answers (.ok b) P := ⟨b, rfl, h⟩

/-- An answer that is returned right away. -/
lemma Answers.pure {b : β} (h : P b) : Answers (Pure.pure b) P := ⟨b, rfl, h⟩

/-- Two computations in a row answer if the second one answers from every answer of the first. -/
lemma Answers.bind (hx : x.Answers P) (hf : ∀ b, P b → (f b).Answers Q) :
    (x >>= f).Answers Q := by
  obtain ⟨b, rfl, hb⟩ := hx
  exact hf b hb

/-- What follows from a property of the answer. -/
lemma Answers.imp {P' : β → Prop} (hx : x.Answers P) (h : ∀ b, P b → P' b) : x.Answers P' := by
  obtain ⟨b, rfl, hb⟩ := hx
  exact ⟨b, rfl, h b hb⟩

/-- A computation has one answer only, so properties of it can be put together. -/
lemma Answers.and {P' : β → Prop} (hx : x.Answers P) (hx' : x.Answers P') :
    x.Answers fun b => P b ∧ P' b := by
  obtain ⟨b, rfl, hb⟩ := hx
  obtain ⟨b', same, hb'⟩ := hx'
  cases same
  exact ⟨b, rfl, hb, hb'⟩

/-- The property holds of the answer that a computation is known to give. -/
lemma Answers.of_eq_ok {b : β} (hx : x.Answers P) (h : x = .ok b) : P b := by
  obtain ⟨b', rfl, hb'⟩ := hx
  cases h
  exact hb'

/-- A property of the answer can be decided by looking at the answer. -/
instance [DecidablePred P] (x : Checked β) : Decidable (x.Answers P) :=
  match x with
  | .ok b => decidable_of_iff (P b) ⟨fun h => ⟨b, rfl, h⟩, fun h => h.of_eq_ok rfl⟩
  | .error _ => isFalse fun ⟨_, h, _⟩ => nomatch h

/-! ## Computations that may stop -/

/-- If the computation answers, its answer satisfies `P`. -/
def Ensures (x : Checked β) (P : β → Prop) : Prop := ∀ b, x = .ok b → P b

/-- What a computation answers with is known to be its answer. -/
lemma Answers.ensures (hx : x.Answers P) : x.Ensures P := fun _ answer => hx.of_eq_ok answer

/-- A computation that is known to answer has an answer with everything that it ensures. -/
lemma Answers.and_ensures {P' : β → Prop} (hx : x.Answers P) (hx' : x.Ensures P') :
    x.Answers fun b => P b ∧ P' b := by
  obtain ⟨b, answer, hb⟩ := hx
  exact ⟨b, answer, hb, hx' b answer⟩

/-- Nothing is demanded of the answer. -/
lemma Ensures.any : x.Ensures fun _ => True := fun _ _ => trivial

/-- An answer that is returned right away. -/
lemma Ensures.pure {b : β} (h : P b) : Ensures (Pure.pure b) P := (Answers.pure h).ensures

/-- A fault is no answer. -/
lemma Ensures.error {fault : Fault} : Ensures (.error fault) P := fun _ answer => nomatch answer

/-- What two computations in a row ensure. -/
lemma Ensures.bind (hx : x.Ensures P) (hf : ∀ b, P b → (f b).Ensures Q) : (x >>= f).Ensures Q := by
  intro c answer
  obtain ⟨b, first, second⟩ := bind_eq_ok.1 answer
  exact hf b (hx b first) c second

/-- What follows from a property of the answer. -/
lemma Ensures.imp {P' : β → Prop} (hx : x.Ensures P) (h : ∀ b, P b → P' b) : x.Ensures P' :=
  fun b answer => h b (hx b answer)

/-- Properties of the answer can be put together. -/
lemma Ensures.and {P' : β → Prop} (hx : x.Ensures P) (hx' : x.Ensures P') :
    x.Ensures fun b => P b ∧ P' b := fun b answer => ⟨hx b answer, hx' b answer⟩

/-- The answer of a computation is the answer of the computation. -/
lemma Ensures.same : x.Ensures fun b => x = .ok b := fun _ answer => answer

/-! ## Computations that may overflow -/

/-- The computation answers, and its answer satisfies `P`, or it stops with an overflow, which it does
not if it is safe. -/
def AnswersIf (x : Checked β) (safe : Prop) (P : β → Prop) : Prop :=
  x.Answers P ∨ ¬safe ∧ x = .error .overflow

section

variable {safe : Prop}

/-- What answers in any case. -/
lemma Answers.answersIf (hx : x.Answers P) : x.AnswersIf safe P := .inl hx

/-- An answer that is given right away. -/
lemma AnswersIf.ok {b : β} (h : P b) : AnswersIf (.ok b) safe P := .inl (.ok h)

/-- An answer that is returned right away. -/
lemma AnswersIf.pure {b : β} (h : P b) : AnswersIf (Pure.pure b) safe P := .inl (.pure h)

/-- A safe computation answers. -/
lemma AnswersIf.answers (hx : x.AnswersIf safe P) (isSafe : safe) : x.Answers P :=
  hx.resolve_right fun h => h.1 isSafe

/-- A computation that does not overflow answers. -/
lemma AnswersIf.answers_of_ne (hx : x.AnswersIf safe P) (fine : x ≠ .error .overflow) : x.Answers P :=
  hx.resolve_right fun h => fine h.2

/-- If the computation answers, its answer is the right one. -/
lemma AnswersIf.ensures (hx : x.AnswersIf safe P) : x.Ensures P := by
  rcases hx with answers | ⟨-, stops⟩
  · exact answers.ensures
  · rw [stops]
    exact .error

/-- What a computation gives that overflows where it does not answer. -/
lemma AnswersIf.of_eq_or {b : β} (either : x = .ok b ∨ x = .error .overflow)
    (answer : safe → x = .ok b) (h : P b) : x.AnswersIf safe P := by
  rcases either with same | stops
  · rw [same]
    exact .ok h
  · refine .inr ⟨fun isSafe => ?_, stops⟩
    rw [stops] at answer
    cases answer isSafe

/-- Two computations in a row. -/
lemma AnswersIf.bind (hx : x.AnswersIf safe P) (hf : ∀ b, P b → (f b).AnswersIf safe Q) :
    (x >>= f).AnswersIf safe Q := by
  rcases hx with ⟨b, rfl, hb⟩ | ⟨notSafe, rfl⟩
  · exact hf b hb
  · exact .inr ⟨notSafe, rfl⟩

/-- What follows from a property of the answer. -/
lemma AnswersIf.imp {P' : β → Prop} (hx : x.AnswersIf safe P) (h : ∀ b, P b → P' b) :
    x.AnswersIf safe P' := by
  rcases hx with answers | stops
  · exact .inl (answers.imp h)
  · exact .inr stops

/-- It is enough to know that a computation is safe in fewer cases. -/
lemma AnswersIf.mono {safe' : Prop} (hx : x.AnswersIf safe P) (h : safe' → safe) :
    x.AnswersIf safe' P := by
  rcases hx with answers | ⟨notSafe, stops⟩
  · exact .inl answers
  · exact .inr ⟨fun isSafe => notSafe (h isSafe), stops⟩

/-- A computation has, besides what is known of its answer, everything that it ensures. -/
lemma AnswersIf.and_ensures {P' : β → Prop} (hx : x.AnswersIf safe P) (hx' : x.Ensures P') :
    x.AnswersIf safe fun b => P b ∧ P' b := by
  rcases hx with answers | stops
  · exact .inl (answers.and_ensures hx')
  · exact .inr stops

end

/-! ## Loops -/

/-- If a loop over a list answers, it keeps what every round keeps. -/
lemma Ensures.foldlM {δ : Type} {l : List δ} {g : β → δ → Checked β} (Inv : β → Prop)
    (step : ∀ b, Inv b → ∀ a ∈ l, (g b a).Ensures Inv) :
    ∀ {b : β}, Inv b → (l.foldlM g b).Ensures Inv := by
  induction l with
  | nil => exact fun h => .pure h
  | cons a l ih =>
    intro b h
    rw [List.foldlM_cons]
    refine (step b h a List.mem_cons_self).bind fun b' h' => ?_
    exact ih (fun b hb a' ha' => step b hb a' (List.mem_cons_of_mem _ ha')) h'

/-- A loop over a list keeps what every round keeps. -/
lemma Answers.foldlM {δ : Type} {l : List δ} {g : β → δ → Checked β} (Inv : β → Prop)
    (step : ∀ b, Inv b → ∀ a ∈ l, (g b a).Answers Inv) :
    ∀ {b : β}, Inv b → (l.foldlM g b).Answers Inv := by
  induction l with
  | nil => exact fun h => .pure h
  | cons a l ih =>
    intro b h
    rw [List.foldlM_cons]
    refine (step b h a List.mem_cons_self).bind fun b' h' => ?_
    exact ih (fun b hb a' ha' => step b hb a' (List.mem_cons_of_mem _ ha')) h'

/-- A loop over a list whose invariant speaks of the entries that are still to come. -/
lemma Answers.foldlM_rest {δ : Type} {g : β → δ → Checked β} (Inv : List δ → β → Prop)
    (step : ∀ b a rest, Inv (a :: rest) b → (g b a).Answers (Inv rest)) :
    ∀ {l : List δ} {b : β}, Inv l b → (l.foldlM g b).Answers (Inv []) := by
  intro l
  induction l with
  | nil => exact fun h => .pure h
  | cons a l ih =>
    intro b h
    rw [List.foldlM_cons]
    exact (step b a l h).bind fun b' h' => ih h'

/-- A loop over a list answers, or it stops at an entry after it has answered for the entries before. -/
lemma foldlM_cases {δ : Type} {g : β → δ → Checked β} (l : List δ) : ∀ b : β,
    (∃ b', l.foldlM g b = .ok b') ∨ ∃ before a after b' fault, l = before ++ a :: after ∧
      before.foldlM g b = .ok b' ∧ g b' a = .error fault ∧ l.foldlM g b = .error fault := by
  induction l with
  | nil => exact fun b => .inl ⟨b, rfl⟩
  | cons a l ih =>
    intro b
    rw [List.foldlM_cons]
    cases once : g b a with
    | error fault => exact .inr ⟨[], a, l, b, fault, rfl, rfl, once, rfl⟩
    | ok b₁ =>
      rw [ok_bind]
      refine (ih b₁).imp_right ?_
      rintro ⟨before, a', after, b', fault, rfl, answer, stops, whole⟩
      refine ⟨a :: before, a', after, b', fault, rfl, ?_, stops, whole⟩
      rw [List.foldlM_cons, once, ok_bind, answer]

/-- Each action of a list satisfies a condition in the state in which its turn comes. -/
def Along {δ : Type} (step : β → δ → Checked β) (P : β → δ → Prop) : β → List δ → Prop
  | _, [] => True
  | b, a :: rest => P b a ∧ ∀ b', step b a = .ok b' → Along step P b' rest

/-- A list of computations whose answers are known. -/
lemma mapM_eq_ok {δ : Type} {l : List δ} {g : δ → Checked β} {f : δ → β}
    (each : ∀ a ∈ l, g a = .ok (f a)) : l.mapM g = .ok (l.map f) := by
  induction l with
  | nil => rfl
  | cons a l ih =>
    rw [List.mapM_cons, each a List.mem_cons_self, ok_bind,
      ih fun a' ha' => each a' (List.mem_cons_of_mem _ ha')]
    rfl

/-- A list of computations has as many answers. -/
lemma length_of_mapM {δ : Type} {g : δ → Checked β} :
    ∀ {l : List δ} {bs : List β}, l.mapM g = .ok bs → bs.length = l.length
  | [], _, h => by
    cases h
    rfl
  | a :: l, _, h => by
    rw [List.mapM_cons] at h
    obtain ⟨b, -, h⟩ := bind_eq_ok.1 h
    obtain ⟨bs, others, h⟩ := bind_eq_ok.1 h
    cases h
    rw [List.length_cons, List.length_cons, length_of_mapM others]

/-- A list of computations answers only if each of them does. -/
lemma exists_of_mapM {δ : Type} {g : δ → Checked β} :
    ∀ {l : List δ} {bs : List β}, l.mapM g = .ok bs → ∀ a ∈ l, ∃ b, g a = .ok b
  | [], _, _, _, member => absurd member List.not_mem_nil
  | a :: l, _, h, a', member => by
    rw [List.mapM_cons] at h
    obtain ⟨b, first, h⟩ := bind_eq_ok.1 h
    obtain ⟨bs, others, -⟩ := bind_eq_ok.1 h
    rcases List.mem_cons.1 member with rfl | member
    · exact ⟨b, first⟩
    · exact exists_of_mapM others a' member

/-! ## Two computations -/

/-- Two computations stop with the same fault, or answer with answers that are related. -/
def Matches {δ : Type} (R : β → δ → Prop) : Checked β → Checked δ → Prop
  | .ok b, .ok d => R b d
  | .error fault, .error fault' => fault = fault'
  | _, _ => False

section

variable {δ ε : Type} {R : β → δ → Prop} {S : γ → ε → Prop} {y : Checked δ} {g : δ → Checked ε}

/-- A computation matches itself. -/
lemma Matches.refl : ∀ {x : Checked β}, Matches (fun b b' => b = b') x x
  | .ok _ => rfl
  | .error _ => rfl

/-- Two computations in a row match if they do step by step. -/
lemma Matches.bind (h : Matches R x y)
    (hf : ∀ b d, x = .ok b → y = .ok d → R b d → Matches S (f b) (g d)) :
    Matches S (x >>= f) (y >>= g) := by
  cases x with
  | ok b =>
    cases y with
    | ok d => exact hf b d rfl rfl h
    | error fault => exact h.elim
  | error fault =>
    cases y with
    | ok d => exact h.elim
    | error fault' => exact h

/-- A computation that both have in front plays no part. -/
lemma Matches.bind_same {g : β → Checked ε} (hf : ∀ b, x = .ok b → Matches S (f b) (g b)) :
    Matches S (x >>= f) (x >>= g) := by
  cases x with
  | ok b => exact hf b rfl
  | error fault => exact rfl

/-- What is made of the answer of one of them. -/
lemma Matches.map_left {S : γ → δ → Prop} {f : β → γ} (h : Matches R x y)
    (hf : ∀ b d, R b d → S (f b) d) : Matches S (do return f (← x)) y := by
  rw [← bind_pure y]
  exact h.bind fun b d _ _ => hf b d

/-- What is known of the answer of one of them is known of an answer that is related to that of the other. -/
lemma Matches.answersIf {safe : Prop} (h : Matches R x y) (hx : x.AnswersIf safe P) :
    y.AnswersIf safe fun d => ∃ b, P b ∧ R b d := by
  rcases hx with ⟨b, rfl, hb⟩ | ⟨notSafe, rfl⟩
  · cases y with
    | ok d => exact .ok ⟨b, hb, h⟩
    | error fault => exact h.elim
  · cases y with
    | ok d => exact h.elim
    | error fault => exact .inr ⟨notSafe, congrArg _ (Eq.symm h)⟩

/-- Loops over the same list match if their rounds do. -/
lemma Matches.foldlM {ι : Type} {step : β → ι → Checked β} {step' : δ → ι → Checked δ}
    (each : ∀ b d, R b d → ∀ a, Matches R (step b a) (step' d a)) :
    ∀ (l : List ι) {b : β} {d : δ}, R b d → Matches R (l.foldlM step b) (l.foldlM step' d)
  | [], _, _, h => h
  | a :: l, b, d, h => by
    rw [List.foldlM_cons, List.foldlM_cons]
    exact (each b d h a).bind fun b' d' _ _ h' => Matches.foldlM each l h'

end

end Checked

open Checked

/-! ## Positions -/

/-- A fetch inside the list. -/
lemma fetch_of_lt {xs : Array β} {i : Nat} (h : i < xs.size) : fetch xs i = .ok xs[i] :=
  fetch_eq_ok_iff.2 ⟨h, rfl⟩

/-- A fetch reads the entry that the list has at the position. -/
lemma fetch_eq_ok {xs : Array β} {i : Nat} {x : β} : fetch xs i = .ok x ↔ xs[i]? = some x := by
  rw [fetch_eq_ok_iff, Array.getElem?_eq_some_iff]

/-- A fetch inside the list, by the entry that is read. -/
lemma fetch_of_getElem? {xs : Array β} {i : Nat} {x : β} (h : xs[i]? = some x) :
    fetch xs i = .ok x := fetch_eq_ok.2 h

/-- A store inside the list. -/
lemma store_of_lt {xs : Array β} {i : Nat} (x : β) (h : i < xs.size) :
    store xs i x = .ok (xs.set i x h) := store_eq_ok_iff.2 ⟨h, rfl⟩

/-- A change of the entry at a position inside the list. -/
lemma adjust_of_lt {xs : Array β} {i : Nat} {f : β → Checked β} {y : β} (h : i < xs.size)
    (hf : f xs[i] = .ok y) : adjust xs i f = .ok (xs.set i y h) := by
  unfold adjust
  rw [fetch_of_lt h, ok_bind, hf, ok_bind, store_of_lt _ h]

/-! ## Times and counters -/

/-- An integer in the range of times. -/
lemma asTime_of_mem {x : Int} (least : leastTime ≤ x) (greatest : x ≤ greatestTime) :
    asTime x = .ok x := if_pos ⟨least, greatest⟩

/-- A sum in the range of times. -/
lemma addTime_of_mem {a b : Int} (least : leastTime ≤ a + b) (greatest : a + b ≤ greatestTime) :
    addTime a b = .ok (a + b) := asTime_of_mem least greatest

/-- A difference in the range of times. -/
lemma subTime_of_mem {a b : Int} (least : leastTime ≤ a - b) (greatest : a - b ≤ greatestTime) :
    subTime a b = .ok (a - b) := asTime_of_mem least greatest

/-- An integer is a time, or it is an overflow. -/
lemma asTime_eq_or (x : Int) : asTime x = .ok x ∨ asTime x = .error .overflow := by
  unfold asTime
  split
  · exact .inl rfl
  · exact .inr rfl

/-- A number is a counter, or it is an overflow. -/
lemma asCount_eq_or (n : Nat) : asCount n = .ok n ∨ asCount n = .error .overflow := by
  unfold asCount
  split
  · exact .inl rfl
  · exact .inr rfl

/-- A checked integer that answers was in the range of times. -/
lemma mem_of_asTime {x y : Int} (h : asTime x = .ok y) : leastTime ≤ x ∧ x ≤ greatestTime := by
  unfold asTime at h
  split at h
  · assumption
  · cases h

/-- An integer outside the range of times is an overflow. -/
lemma asTime_eq_error {x : Int} {fault : Fault} : asTime x = .error fault ↔
    fault = .overflow ∧ ¬(leastTime ≤ x ∧ x ≤ greatestTime) := by
  unfold asTime
  split
  · rename_i inside
    exact iff_of_false (fun impossible => nomatch impossible) fun both => both.2 inside
  · rename_i outside
    exact ⟨fun same => ⟨(Except.error.inj same).symm, outside⟩, fun both => congrArg _ both.1.symm⟩

/-- A checked integer that answers is in the range of times. -/
lemma le_of_asTime {x y : Int} (h : asTime x = .ok y) : y ≤ greatestTime := by
  rw [asTime_eq_ok h]
  exact (mem_of_asTime h).2

/-- A checked sum that answers is in the range of times. -/
lemma le_of_addTime {a b c : Int} (h : addTime a b = .ok c) : c ≤ greatestTime := le_of_asTime h

/-- A checked sum, unless it leaves the range of times. -/
lemma addTime_answersIf {safe : Prop} {a b : Int}
    (inside : safe → leastTime ≤ a + b ∧ a + b ≤ greatestTime) :
    (addTime a b).AnswersIf safe fun c => c = a + b :=
  .of_eq_or (asTime_eq_or (a + b))
    (fun isSafe => addTime_of_mem (inside isSafe).1 (inside isSafe).2) rfl

/-- A checked difference, unless it leaves the range of times. -/
lemma subTime_answersIf {safe : Prop} {a b : Int}
    (inside : safe → leastTime ≤ a - b ∧ a - b ≤ greatestTime) :
    (subTime a b).AnswersIf safe fun c => c = a - b ∧ c ≤ greatestTime := by
  have exact_difference : (subTime a b).AnswersIf safe fun c => c = a - b :=
    .of_eq_or (asTime_eq_or (a - b))
      (fun isSafe => subTime_of_mem (inside isSafe).1 (inside isSafe).2) rfl
  exact exact_difference.and_ensures fun c => le_of_asTime

/-- A sum beyond the greatest time is an overflow. -/
lemma addTime_of_gt {a b : Int} (h : greatestTime < a + b) :
    addTime a b = .error .overflow := if_neg fun inside => absurd inside.2 (Int.not_le.2 h)

/-- A difference of counters that is not negative. -/
lemma subCount_of_le {a b : Nat} (h : b ≤ a) : subCount a b = .ok (a - b) := if_pos h

/-! ## Positions -/

/-- There are not more different positions in a list than the list has. -/
lemma length_le_of_nodup {positions : List Nat} {n : Nat} (distinct : positions.Nodup)
    (inside : ∀ i ∈ positions, i < n) : positions.length ≤ n := by
  have short := (distinct.subperm fun i member => List.mem_range.2 (inside i member)).length_le
  rwa [List.length_range] at short

end Leveling
