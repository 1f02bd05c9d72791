import Leveling.Proofs.Answers

/-!
# Accepting verdicts

A verdict accepts if it neither stops with a fault nor refuses.  What it takes to accept is read
off from the parts of the verdict, one after the other.  A verdict that refuses names a reason, and one that
stops does so at the first part that stops after all parts before have accepted.
-/

namespace Leveling

variable {ε β γ δ : Type}

/-- The verdict accepts with the given answer. -/
def Verdict.Accepts (x : Verdict ε β) (b : β) : Prop := x = (.ok (.ok b) : Checked (Except ε β))

/-- The verdict refuses with the given reason. -/
def Verdict.Refuses (x : Verdict ε β) (e : ε) : Prop :=
  x = (.ok (.error e) : Checked (Except ε β))

/-- The verdict stops with a fault. -/
def Verdict.Stops (x : Verdict ε β) (fault : Fault) : Prop :=
  x = (.error fault : Checked (Except ε β))

namespace Verdict

/-- A verdict accepts with one answer only. -/
lemma Accepts.unique {x : Verdict ε β} {b c : β} (h : x.Accepts b) (h' : x.Accepts c) : b = c := by
  unfold Accepts at h h'
  rw [h] at h'
  exact Except.ok.inj (Except.ok.inj h')

/-- A verdict that accepts does not refuse. -/
lemma Accepts.not_refuses {x : Verdict ε β} {b : β} {e : ε} (h : x.Accepts b) : ¬x.Refuses e := by
  intro h'
  unfold Accepts at h
  unfold Refuses at h'
  rw [h] at h'
  cases Except.ok.inj h'

/-- A verdict refuses with one reason only. -/
lemma Refuses.unique {x : Verdict ε β} {e e' : ε} (h : x.Refuses e) (h' : x.Refuses e') :
    e = e' := by
  unfold Refuses at h h'
  rw [h] at h'
  exact Except.error.inj (Except.ok.inj h')

/-- A refusal refuses. -/
lemma refuses_throw (e : ε) : (throw e : Verdict ε β).Refuses e := rfl

/-- What comes after an accepting verdict starts from its answer. -/
lemma Accepts.bind {x : Verdict ε β} {b : β} (h : x.Accepts b) (f : β → Verdict ε γ) :
    (x >>= f) = f b := by
  unfold Accepts at h
  subst h
  rfl

/-- Nothing comes after a refusal. -/
lemma Refuses.bind {x : Verdict ε β} {e : ε} (h : x.Refuses e) (f : β → Verdict ε γ) :
    (x >>= f).Refuses e := by
  unfold Refuses at h
  subst h
  rfl

/-- Two verdicts in a row accept if the first one does and the second one does from its answer. -/
lemma accepts_bind {x : Verdict ε β} {f : β → Verdict ε γ} {c : γ} :
    (x >>= f).Accepts c ↔ ∃ b, x.Accepts b ∧ (f b).Accepts c := by
  unfold Accepts
  cases x with
  | error fault =>
    constructor
    · intro h
      cases h
    · rintro ⟨b, h, -⟩
      cases h
  | ok r =>
    cases r with
    | error e =>
      constructor
      · intro h
        cases h
      · rintro ⟨b, h, -⟩
        cases h
    | ok b =>
      constructor
      · intro h
        exact ⟨b, rfl, h⟩
      · rintro ⟨b', h, h'⟩
        cases h
        exact h'

/-- A verdict that is returned right away. -/
@[simp] lemma accepts_pure {b c : β} : (pure b : Verdict ε β).Accepts c ↔ b = c := by
  constructor
  · intro h
    cases h
    rfl
  · rintro rfl
    rfl

/-- A refusal does not accept. -/
@[simp] lemma not_accepts_throw {e : ε} {b : β} : ¬(throw e : Verdict ε β).Accepts b := by
  intro h
  cases h

/-- A verdict behind a demand accepts if the demand is met. -/
lemma accepts_unless {c : Prop} [Decidable c] {e : ε} {k : δ → Verdict ε β} {x : Verdict ε β} {b : β} :
    (if c then x else throw e >>= k).Accepts b ↔ c ∧ x.Accepts b := by
  by_cases h : c
  · rw [if_pos h]
    exact ⟨fun accepts => ⟨h, accepts⟩, And.right⟩
  · rw [if_neg h, accepts_bind]
    constructor
    · rintro ⟨_, impossible, -⟩
      exact absurd impossible not_accepts_throw
    · exact fun both => absurd both.1 h

/-- A verdict behind a guard accepts if the guard does not refuse. -/
lemma accepts_guard {c : Prop} [Decidable c] {e : ε} {k : δ → Verdict ε β} {x : Verdict ε β} {b : β} :
    (if c then throw e >>= k else x).Accepts b ↔ ¬c ∧ x.Accepts b := by
  rw [← accepts_unless, ite_not]

/-- A computation that cannot refuse accepts if it answers. -/
@[simp] lemma accepts_lift {x : Checked β} {b : β} :
    (liftM x : Verdict ε β).Accepts b ↔ x = .ok b := by
  cases x with
  | error fault =>
    constructor
    · intro h
      cases h
    · intro h
      cases h
  | ok b' =>
    constructor
    · intro h
      cases h
      rfl
    · intro h
      cases h
      rfl

/-- Other words for a refusal make no difference to what is accepted. -/
@[simp] lemma accepts_adapt {ε' : Type} {x : Verdict ε β} {f : ε → ε'} {b : β} :
    Verdict.Accepts (x.adapt f) b ↔ x.Accepts b := by
  unfold Accepts
  cases x with
  | error fault =>
    constructor
    · intro h
      cases h
    · intro h
      cases h
  | ok r =>
    cases r with
    | error e =>
      constructor
      · intro h
        cases h
      · intro h
        cases h
    | ok b' =>
      constructor
      · intro h
        cases h
        rfl
      · intro h
        cases h
        rfl

/-- A verdict on all entries of a list accepts if it accepts each of them. -/
lemma accepts_forM {l : List δ} {f : δ → Verdict ε PUnit} {u : PUnit} :
    (l.forM f).Accepts u ↔ ∀ x ∈ l, (f x).Accepts ⟨⟩ := by
  induction l with
  | nil => exact iff_of_true rfl fun x member => absurd member List.not_mem_nil
  | cons x l ih =>
    rw [List.forM_eq_forM] at ih ⊢
    rw [List.forM_cons, accepts_bind]
    constructor
    · rintro ⟨_, first, others⟩ y member
      rcases List.mem_cons.1 member with rfl | member
      · exact first
      · exact ih.1 others y member
    · intro all
      exact ⟨⟨⟩, all x List.mem_cons_self,
        ih.2 fun y member => all y (List.mem_cons_of_mem _ member)⟩

/-- What comes after a verdict on all entries of a list, if it accepts each of them. -/
lemma forM_bind {l : List δ} {f : δ → Verdict ε PUnit} (each : ∀ x ∈ l, (f x).Accepts ⟨⟩)
    (k : PUnit → Verdict ε γ) : (l.forM f >>= k) = k ⟨⟩ :=
  Accepts.bind (accepts_forM.2 each) k

/-- A loop of computations that cannot refuse is a computation that cannot refuse. -/
lemma foldlM_lift {l : List δ} {g : β → δ → Checked β} : ∀ {b : β},
    l.foldlM (fun b x => (liftM (g b x) : Verdict ε β)) b = liftM (l.foldlM g b) := by
  induction l with
  | nil => exact fun {_} => rfl
  | cons x l ih =>
    intro b
    rw [List.foldlM_cons, List.foldlM_cons]
    cases g b x with
    | error fault => rfl
    | ok b' => exact ih

/-- A loop of computations that cannot refuse accepts if the computations answer. -/
lemma accepts_foldlM_lift {l : List δ} {g : β → δ → Checked β} {b c : β} :
    (l.foldlM (fun b x => (liftM (g b x) : Verdict ε β)) b).Accepts c ↔ l.foldlM g b = .ok c := by
  rw [foldlM_lift, accepts_lift]

/-- Whether a verdict accepts with an answer that passes the test. -/
def passes (x : Verdict ε β) (test : β → Bool) : Bool :=
  match (x : Checked (Except ε β)) with
  | .ok (.ok b) => test b
  | _ => false

/-- A verdict that accepts with an answer that passes the test has that answer. -/
lemma exists_accepts_passes {x : Verdict ε β} {test : β → Bool} (h : x.passes test = true) :
    ∃ b, x.Accepts b ∧ test b = true := by
  unfold passes at h
  split at h
  · exact ⟨_, rfl, h⟩
  · cases h

/-- Whether a verdict accepts. -/
def isAccepted (x : Verdict ε β) : Bool := x.passes fun _ => true

/-- A verdict that accepts has an answer. -/
lemma exists_accepts {x : Verdict ε β} (h : x.isAccepted = true) : ∃ b, x.Accepts b := by
  obtain ⟨b, accepts, -⟩ := exists_accepts_passes h
  exact ⟨b, accepts⟩

/-! ## Verdicts that stop -/

variable {fault : Fault}

/-- A verdict that is returned right away does not stop. -/
@[simp] lemma not_stops_pure {b : β} : ¬(pure b : Verdict ε β).Stops fault := by
  intro h
  cases h

/-- A refusal does not stop. -/
@[simp] lemma not_stops_throw {e : ε} : ¬(throw e : Verdict ε β).Stops fault := by
  intro h
  cases h

/-- A verdict that refuses does not stop. -/
lemma Refuses.not_stops {x : Verdict ε β} {e : ε} (h : x.Refuses e) : ¬x.Stops fault := by
  intro h'
  unfold Refuses at h
  unfold Stops at h'
  rw [h] at h'
  cases h'

/-- Two verdicts in a row stop where the first one does, or the second one after the first one has accepted. -/
lemma stops_bind {x : Verdict ε β} {f : β → Verdict ε γ} :
    (x >>= f).Stops fault ↔ x.Stops fault ∨ ∃ b, x.Accepts b ∧ (f b).Stops fault := by
  unfold Stops Accepts
  cases x with
  | error fault' =>
    constructor
    · intro h
      cases h
      exact .inl rfl
    · rintro (h | ⟨b, h, -⟩)
      · cases h
        rfl
      · cases h
  | ok r =>
    cases r with
    | error e =>
      constructor
      · intro h
        cases h
      · rintro (h | ⟨b, h, -⟩)
        · cases h
        · cases h
    | ok b =>
      constructor
      · intro h
        exact .inr ⟨b, rfl, h⟩
      · rintro (h | ⟨b', h, h'⟩)
        · cases h
        · cases h
          exact h'

/-- A verdict behind a guard stops if the guard does not refuse. -/
lemma stops_guard {c : Prop} [Decidable c] {e : ε} {k : δ → Verdict ε β} {x : Verdict ε β} :
    (if c then throw e >>= k else x).Stops fault ↔ ¬c ∧ x.Stops fault := by
  by_cases h : c
  · rw [if_pos h, stops_bind]
    constructor
    · rintro (impossible | ⟨_, impossible, -⟩)
      · exact absurd impossible not_stops_throw
      · exact absurd impossible not_accepts_throw
    · exact fun both => absurd h both.1
  · rw [if_neg h]
    exact ⟨fun stops => ⟨h, stops⟩, And.right⟩

/-- A computation that cannot refuse stops with its own fault. -/
@[simp] lemma stops_lift {x : Checked β} :
    (liftM x : Verdict ε β).Stops fault ↔ x = .error fault := by
  cases x with
  | error fault' =>
    constructor
    · intro h
      cases h
      rfl
    · intro h
      cases h
      rfl
  | ok b' =>
    constructor
    · intro h
      cases h
    · intro h
      cases h

/-- A verdict on all entries of a list stops at an entry, all entries before which it has accepted. -/
lemma stops_forM {l : List δ} {f : δ → Verdict ε PUnit} : (l.forM f).Stops fault ↔
    ∃ before x after, l = before ++ x :: after ∧ (∀ y ∈ before, (f y).Accepts ⟨⟩) ∧ (f x).Stops fault := by
  induction l with
  | nil =>
    refine iff_of_false not_stops_pure ?_
    rintro ⟨before, x, after, impossible, -⟩
    exact absurd impossible (by simp)
  | cons first rest ih =>
    rw [List.forM_eq_forM] at ih ⊢
    rw [List.forM_cons, stops_bind]
    constructor
    · rintro (stops | ⟨_, accepts, stops⟩)
      · exact ⟨[], first, rest, rfl, fun y impossible => absurd impossible List.not_mem_nil, stops⟩
      · obtain ⟨before, x, after, rfl, others, stops⟩ := ih.1 stops
        exact ⟨first :: before, x, after, rfl, List.forall_mem_cons.2 ⟨accepts, others⟩, stops⟩
    · rintro ⟨before, x, after, same, accepts, stops⟩
      cases before with
      | nil =>
        obtain ⟨rfl, rfl⟩ := List.cons.inj same
        exact .inl stops
      | cons first' before =>
        obtain ⟨rfl, rfl⟩ := List.cons.inj same
        obtain ⟨accepts, others⟩ := List.forall_mem_cons.1 accepts
        exact .inr ⟨⟨⟩, accepts, ih.2 ⟨before, x, after, rfl, others, stops⟩⟩

end Verdict

end Leveling
