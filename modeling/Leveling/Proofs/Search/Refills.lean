import Leveling.Proofs.Search.Exhaustion

/-!
# A search gives up only when it must

A search that has run dry looks for something to insert: at another peak, after deletions, or after a fresh
start.  It gives up only if not even a fresh start leaves a candidate, and then it is spent.  Once it has given
up it is spent after all further calls.

How the pool came to be from which an iteration draws is not part of the state.  So the operations of an
iteration up to the draw are written down once more, with an answer that tells whether the pool was filled by
collecting candidates (`untilDraw`).  Apart from that they are the same (`iterate_eq`), so what is found out
about the pool is found out about the iteration: from a pool that was collected the first candidate is
inserted.
-/

namespace Leveling

open Checked Network

namespace Solver

variable {ρ α : Type} [RandomSource ρ] [Scalar α] {p : Problem α} {F : Frame} {base : Network}
  {kind : String} {first s s' : Solver ρ α} {collected : Bool}

/-! ## Where candidates come from -/

/-- Makes room for a pair of jobs or starts over, and tells whether candidates were collected. -/
def lastResort (s : Solver ρ α) : Checked (Bool × Solver ρ α) := do
  let s ← s.updateBest
  if 0 < s.deletionsLeft then
    let s ← { s with deletionsLeft := s.deletionsLeft - 1 }.makeCandidate
    if s.pool.isEmpty then return (true, ← s.startOver) else return (false, s)
  else return (true, ← s.startOver)

/-- Finds something to insert, and tells whether candidates were collected. -/
def unstickBy (s : Solver ρ α) : Checked (Bool × Solver ρ α) := do
  let s := { s with counters.unstickCalls := s.counters.unstickCalls + 1 }
  let s ← s.propagate .everything
  let peak ← s.profile.maximumRange
  let moved := peak != s.active
  let s ← if moved then regenerate { s with active := peak } else pure s
  if moved && !s.pool.isEmpty then return (true, s)
  s.lastResort

/-- Refills an empty pool, and tells whether candidates were collected. -/
def refillBy (s : Solver ρ α) (fresh : Bool) : Checked (Bool × Solver ρ α) := do
  if !s.pool.isEmpty then return (false, s)
  let s ←
    if fresh then s.regenerate
    else if 0 < s.config.batchSize then s.nextBatch
    else pure s
  if s.pool.isEmpty then s.unstickBy else return (fresh, s)

/-- What an iteration draws from: the state with its pool, whether the pool was filled by collecting
candidates, and whether the propagation of the iteration is complete. -/
structure Drawing (ρ α : Type) where
  state : Solver ρ α
  collected : Bool
  complete : Bool

/-- An iteration up to the draw. -/
def untilDraw (s : Solver ρ α) : Checked (Drawing ρ α) := do
  let iteration := s.counters.iterations + 1
  let s := { s with
    counters.iterations := iteration
    scorer := s.scorer.onIteration iteration }
  let s := if iteration % progressInterval = 0 then s.note (.progress s.counters s.best.peak)
    else s
  let complete : Bool := s.config.completeAfter ≤ iteration - s.lastComplete
  let s ← if complete then s.propagate .everything else pure s
  let (moved, s) ←
    if s.config.rangeCheckInterval ≤ iteration - s.lastRangeCheck then s.followPeak
    else pure (false, s)
  let (collected, s) ← s.refillBy (moved || iteration == 1)
  return ⟨s, collected, complete⟩

/-- The last resort is that of a search that is stuck. -/
lemma lastResort_eq (s : Solver ρ α) : (do return (← s.lastResort).2) = (do
    let s ← s.updateBest
    if 0 < s.deletionsLeft then
      let s ← { s with deletionsLeft := s.deletionsLeft - 1 }.makeCandidate
      if s.pool.isEmpty then s.startOver else return s
    else s.startOver : Checked (Solver ρ α)) := by
  unfold lastResort
  rw [bind_assoc]
  refine bind_congr fun s₁ => ?_
  split
  · rw [bind_assoc]
    refine bind_congr fun s₂ => ?_
    split
    · rw [bind_assoc]
      exact bind_pure _
    · rfl
  · rw [bind_assoc]
    exact bind_pure _

/-- What is found is what a search finds that is stuck. -/
lemma unstickBy_eq (s : Solver ρ α) : (do return (← s.unstickBy).2) = s.unstick := by
  unfold unstickBy Solver.unstick
  simp only [bind_assoc]
  refine bind_congr fun s₁ => bind_congr fun peak => ?_
  split
  all_goals
    rw [bind_assoc]
    refine bind_congr fun s₂ => ?_
    split
    · rfl
    · exact lastResort_eq s₂

/-- The pool is refilled as it is in an iteration. -/
lemma refillBy_eq (s : Solver ρ α) (fresh : Bool) : (do return (← s.refillBy fresh).2) = s.refill fresh := by
  have last : ∀ s₁ : Solver ρ α,
      (if s₁.pool.isEmpty then s₁.unstickBy else pure (fresh, s₁)) >>= (fun r => pure r.2) =
        if s₁.pool.isEmpty then s₁.unstick else pure s₁ := by
    intro s₁
    split
    · exact unstickBy_eq s₁
    · rfl
  unfold refillBy Solver.refill
  split
  · rfl
  · split
    · exact (bind_assoc _ _ _).trans (bind_congr last)
    · split
      · exact (bind_assoc _ _ _).trans (bind_congr last)
      · exact last s

/-- An iteration draws from the pool and inserts what it has drawn. -/
lemma iterate_eq (s : Solver ρ α) : s.iterate = (do
    let d ← s.untilDraw
    let s' ← d.state.insertDrawn d.complete
    return if d.complete then { s' with lastComplete := s.counters.iterations + 1 } else s') := by
  unfold untilDraw Solver.iterate
  extract_lets iteration counters s₁ s₂ complete insert look draw look'
  have drawn : ∀ r, insert r = (do
      let d ← draw r
      let s' ← d.state.insertDrawn d.complete
      return if d.complete then { s' with lastComplete := s.counters.iterations + 1 } else s') := by
    intro r
    dsimp only [insert, draw]
    rw [← refillBy_eq, bind_assoc, bind_assoc]
    rfl
  have looked : ∀ s₃, look s₃ = (do
      let d ← look' s₃
      let s' ← d.state.insertDrawn d.complete
      return if d.complete then { s' with lastComplete := s.counters.iterations + 1 } else s') := by
    intro s₃
    dsimp only [look, look']
    split
    · exact (bind_congr drawn).trans (bind_assoc _ _ _).symm
    · exact drawn (false, s₃)
  split
  · exact (bind_congr looked).trans (bind_assoc _ _ _).symm
  · exact looked s₂

/-! ## What is found -/

/-- What becomes of a search that looks for candidates.  If they were `collected`, the pool is stocked.  If there
are none, the search is exhausted and spent, and there are none if it was spent before. -/
structure Outcome (p : Problem α) (base : Network) (s : Solver ρ α) (collected : Bool)
    (s' : Solver ρ α) : Prop where
  stocked : collected = true → s'.Stocked
  found : s'.pool.isEmpty = false → s'.ledger = s.ledger
  given_up : s'.pool.isEmpty = true → s'.ledger = (s.counters.insertions, true) ∧ s'.Spent p base
  dry : s.Spent p base → s'.pool.isEmpty = true

omit [RandomSource ρ] in
/-- What was done before does not matter if it was uneventful. -/
lemma Outcome.after {s₁ : Solver ρ α} (h : Outcome p base s₁ collected s')
    (before : Uneventful p base s s₁) : Outcome p base s collected s' where
  stocked := h.stocked
  found some_left := (h.found some_left).trans before.ledger
  given_up none_left := by
    obtain ⟨ledger, spent⟩ := h.given_up none_left
    have insertions : s₁.counters.insertions = s.counters.insertions := congrArg Prod.fst before.ledger
    exact ⟨insertions ▸ ledger, spent⟩
  dry spent := h.dry (before.spent spent)

omit [RandomSource ρ] in
/-- There are candidates after uneventful steps. -/
lemma outcome_of_some_left (before : Uneventful p base s s') (some_left : s'.pool.isEmpty = false)
    (stocked : collected = true → s'.Stocked) : Outcome p base s collected s' where
  stocked := stocked
  found _ := before.ledger
  given_up none_left := absurd (none_left.symm.trans some_left) (by decide)
  dry spent := (before.spent spent).isEmpty

/-- A search that starts over collects candidates, or is exhausted. -/
lemma Steady.startOver (footing : Footing p F base) (h : s.Steady p F base kind) :
    s.startOver.Ensures (Outcome p base s true) := by
  unfold Solver.startOver
  refine ((h.reset footing).and (h.reset_uneventful footing)).bind ?_
  rintro s₁ ⟨⟨h₁, renewed⟩, reset⟩
  refine (h₁.regenerate_stocks.and h₁.regenerate_uneventful).bind ?_
  rintro s₂ ⟨⟨refilled, stocked⟩, regenerated⟩
  have before := reset.trans regenerated
  have stocked' : ∀ log exhausted, Stocked
      { s₂ with deletionsLeft := s₂.config.deletionsBeforeReset, log, exhausted } := fun _ _ =>
    ⟨stocked.gathers, stocked.scanned_le, stocked.offers, stocked.complete⟩
  dsimp only
  split
  · rename_i none_left
    have spent := renewed.spent refilled stocked none_left
    have insertions : s₂.counters.insertions = s.counters.insertions := congrArg Prod.fst before.ledger
    obtain ⟨log, noted⟩ :=
      exists_log { s₂ with deletionsLeft := s₂.config.deletionsBeforeReset } .exhausted
    rw [noted]
    refine .pure ⟨fun _ => stocked' log true, fun some_left => ?_,
      fun _ => ⟨insertions ▸ rfl, spent.congr rfl⟩, fun _ => none_left⟩
    exact absurd (none_left.symm.trans some_left) (by decide)
  · rename_i some_left
    refine .pure (outcome_of_some_left (before.trans (uneventful_of_same rfl rfl)) ?_ fun _ => ?_)
    · exact Bool.eq_false_iff.2 some_left
    · exact stocked' s₂.log s₂.exhausted

/-- Room is made for a pair, or the search starts over. -/
lemma Steady.lastResort (footing : Footing p F base) (h : s.Steady p F base kind) :
    s.lastResort.Ensures fun r => Outcome p base s r.1 r.2 := by
  unfold Solver.lastResort
  refine ((h.updateBest footing).ensures.and (updateBest_uneventful p base s)).bind ?_
  rintro s₁ ⟨⟨h₁, idle, -⟩, updated⟩
  split
  · have counted : Steady p F base kind { s₁ with deletionsLeft := s₁.deletionsLeft - 1 } :=
      h₁.congr rfl rfl
    refine ((counted.makeCandidate footing idle).and counted.makeCandidate_uneventful).bind ?_
    rintro s₂ ⟨reached, made⟩
    have counting : Uneventful p base s₁ { s₁ with deletionsLeft := s₁.deletionsLeft - 1 } :=
      uneventful_of_same rfl rfl
    have before := updated.trans (counting.trans made)
    split
    · refine ((counted.reached footing reached).startOver footing).bind fun s₃ outcome => .pure ?_
      exact outcome.after before
    · rename_i some_left
      exact .pure (outcome_of_some_left before (Bool.eq_false_iff.2 some_left) nofun)
  · refine (h₁.startOver footing).bind fun s₂ outcome => .pure ?_
    exact outcome.after updated

/-- A search that is stuck finds candidates, or is exhausted. -/
lemma Steady.unstickBy (footing : Footing p F base) (h : s.Steady p F base kind) :
    s.unstickBy.Ensures fun r => Outcome p base s r.1 r.2 := by
  have counted : Steady p F base kind { s with counters.unstickCalls := s.counters.unstickCalls + 1 } :=
    h.congr rfl rfl
  have everything : Drain.everything ≠ .nothing := by decide
  unfold Solver.unstickBy
  refine ((Intact.propagate footing counted everything).ensures.and (propagate_uneventful p base _ _)).bind ?_
  rintro s₁ ⟨⟨h₁, -, drained⟩, propagated⟩
  have idle := drained rfl
  have counting : Uneventful p base s
      { s with counters.unstickCalls := s.counters.unstickCalls + 1 } := uneventful_of_same rfl rfl
  have before := counting.trans propagated
  refine Ensures.same.bind fun peak found => ?_
  dsimp only
  split
  · rename_i moved
    have alive : ¬s₁.Spent p base := by
      intro spent
      have there : peak = s₁.active := Except.ok.inj (found.symm.trans spent.active)
      exact absurd there (bne_iff_ne.1 moved)
    have turned := h₁.turn idle peak
    have turning : Uneventful p base s₁ { s₁ with active := peak } :=
      ⟨rfl, fun spent => absurd spent alive⟩
    refine ((turned.regenerate_stocks.and turned.regenerate).and turned.regenerate_uneventful).bind ?_
    rintro s₂ ⟨⟨⟨-, stocked⟩, h₂, -⟩, regenerated⟩
    have before₂ := before.trans (turning.trans regenerated)
    split
    · rename_i some_left
      simp only [moved, Bool.true_and, Bool.not_eq_true'] at some_left
      exact .pure (outcome_of_some_left before₂ some_left fun _ => stocked)
    · exact (h₂.lastResort footing).imp fun r outcome => outcome.after before₂
  · rename_i same_peak
    refine Ensures.bind (P := (· = s₁)) (.pure rfl) fun s₂ same => ?_
    subst same
    rw [if_neg (by
      rw [Bool.and_eq_true]
      exact fun both => same_peak both.1)]
    exact (h₁.lastResort footing).imp fun r outcome => outcome.after before

/-- An empty pool is refilled, or the search is exhausted. -/
lemma Steady.refillBy (footing : Footing p F base) (h : s.Steady p F base kind) (fresh : Bool) :
    (s.refillBy fresh).Ensures fun r => Outcome p base s r.1 r.2 := by
  have last : ∀ {s₁ : Solver ρ α}, s₁.Steady p F base kind → Uneventful p base s s₁ →
      (fresh = true → s₁.Stocked) → (if s₁.pool.isEmpty then s₁.unstickBy else return (fresh, s₁) :
        Checked (Bool × Solver ρ α)).Ensures fun r => Outcome p base s r.1 r.2 := by
    intro s₁ h₁ before stocked
    split
    · exact (h₁.unstickBy footing).imp fun r outcome => outcome.after before
    · rename_i some_left
      exact .pure (outcome_of_some_left before (Bool.eq_false_iff.2 some_left) stocked)
  unfold Solver.refillBy
  split
  · rename_i some_left
    simp only [Bool.not_eq_true'] at some_left
    exact .pure (outcome_of_some_left (uneventful_of_same rfl rfl) some_left nofun)
  · split
    · refine ((h.regenerate_stocks.and h.regenerate).and h.regenerate_uneventful).bind ?_
      rintro s₁ ⟨⟨⟨-, stocked⟩, h₁, -⟩, regenerated⟩
      exact last h₁ regenerated fun _ => stocked
    · rename_i stale
      split
      · rename_i positive
        refine (h.nextBatch.and (nextBatch_uneventful p base positive)).bind ?_
        rintro s₁ ⟨⟨h₁, -⟩, batched⟩
        exact last h₁ batched fun isTrue => absurd isTrue stale
      · exact last h (uneventful_of_same rfl rfl) fun isTrue => absurd isTrue stale

/-- An iteration up to the draw finds candidates, or the search is exhausted. -/
lemma Steady.untilDraw (footing : Footing p F base) (h : s.Steady p F base kind) :
    s.untilDraw.Ensures fun d => d.state.Steady p F base kind ∧
      Outcome p base s d.collected d.state := by
  have everything : Drain.everything ≠ .nothing := by decide
  unfold Solver.untilDraw
  extract_lets iteration counters s₁ s₂ complete draw look
  have h₁ : s₁.Steady p F base kind := h.congr rfl rfl
  have before₁ : Uneventful p base s s₁ := uneventful_of_same rfl rfl
  have begun : s₂.Steady p F base kind ∧ Uneventful p base s s₂ := by
    dsimp only [s₂]
    split
    · exact ⟨h₁.note _, before₁.trans (uneventful_note s₁ _)⟩
    · exact ⟨h₁, before₁⟩
  obtain ⟨h₂, before₂⟩ := begun
  have drawn : ∀ {moved s₃}, s₃.Steady p F base kind → Uneventful p base s s₃ →
      (draw (moved, s₃)).Ensures fun d => d.state.Steady p F base kind ∧
        Outcome p base s d.collected d.state := by
    intro moved s₃ h₃ before
    have steady : ∀ fresh, (s₃.refillBy fresh).Ensures fun r => r.2.Steady p F base kind := by
      intro fresh r answer
      have refilled : s₃.refill fresh = .ok r.2 := by
        rw [← refillBy_eq, answer]
        rfl
      exact h₃.reached footing (h₃.refill footing fresh r.2 refilled)
    refine ((steady _).and (h₃.refillBy footing _)).bind fun r ⟨h₄, outcome⟩ => .pure ?_
    exact ⟨h₄, outcome.after before⟩
  have looked : ∀ {s₃}, s₃.Steady p F base kind → Uneventful p base s s₃ →
      (look s₃).Ensures fun d => d.state.Steady p F base kind ∧
        Outcome p base s d.collected d.state := by
    intro s₃ h₃ before
    dsimp only [look]
    split
    · refine ((h₃.followPeak footing).and (followPeak_uneventful p base s₃)).bind ?_
      rintro r ⟨h₄, followed⟩
      exact drawn h₄ (before.trans followed)
    · exact drawn h₃ before
  split
  · refine ((Intact.propagate footing h₂ everything).ensures.and (propagate_uneventful p base s₂ _)).bind ?_
    rintro s₃ ⟨⟨h₃, -⟩, propagated⟩
    exact looked h₃ (before₂.trans propagated)
  · exact looked h₂ before₂

/-! ## Once a search has given up -/

/-- A search that has given up is spent. -/
def Guarded (p : Problem α) (base : Network) (s : Solver ρ α) : Prop :=
  s.exhausted = true → s.Spent p base

omit [RandomSource ρ] in
/-- Uneventful steps keep the guard. -/
lemma Uneventful.guarded (h : Uneventful p base s s') (guarded : s.Guarded p base) :
    s'.Guarded p base := by
  intro exhausted
  have same : s'.exhausted = s.exhausted := congrArg Prod.snd h.ledger
  exact h.spent (guarded (same.symm.trans exhausted))

omit [RandomSource ρ] in
/-- The guard is kept by a search for candidates. -/
lemma Outcome.guarded (h : Outcome p base s collected s') (guarded : s.Guarded p base) :
    s'.Guarded p base := by
  intro exhausted
  cases empty : s'.pool.isEmpty with
  | true => exact (h.given_up empty).2
  | false =>
    have same : s'.exhausted = s.exhausted := congrArg Prod.snd (h.found empty)
    have none_left := h.dry (guarded (same.symm.trans exhausted))
    exact absurd (none_left.symm.trans empty) (by decide)

/-- Nothing is inserted when a spent search draws. -/
lemma Spent.insertDrawn (spent : s.Spent p base) (complete : Bool) :
    (s.insertDrawn complete).Ensures (Spent p base) := by
  have nothing : s.drawAdmitted (!s.scorer.isUniform) s.pool s.random = .ok (none, s.pool, s.random) := by
    have draw := CandidatePool.draw_of_isEmpty spent.isEmpty (!s.scorer.isUniform) s.random
    rw [Solver.drawAdmitted.eq_def]
    split
    · rename_i drawn
      rw [draw] at drawn
      cases drawn
      rfl
    · rename_i drawn
      rw [draw] at drawn
      cases drawn
  unfold Solver.insertDrawn
  rw [nothing, ok_bind]
  exact .pure (spent.congr rfl)

/-- A search that is stuck keeps the guard. -/
lemma Steady.unstick_guarded (footing : Footing p F base) (h : s.Steady p F base kind)
    (guarded : s.Guarded p base) : s.unstick.Ensures (Guarded p base) := by
  rw [← unstickBy_eq]
  exact (h.unstickBy footing).bind fun r outcome => .pure (outcome.guarded guarded)

/-- A draw keeps the guard. -/
lemma Guarded.insertDrawn (guarded : s.Guarded p base) (complete : Bool) :
    (s.insertDrawn complete).Ensures (Guarded p base) := by
  intro s' answer exhausted
  have same : s'.exhausted = s.exhausted := (insertDrawn_ensures s complete s' answer).2.1
  exact (guarded (same.symm.trans exhausted)).insertDrawn complete s' answer

/-- An iteration keeps the guard. -/
lemma Steady.iterate_guarded (footing : Footing p F base) (h : s.Steady p F base kind)
    (guarded : s.Guarded p base) : s.iterate.Ensures (Guarded p base) := by
  rw [iterate_eq]
  refine (h.untilDraw footing).bind fun d ⟨_, outcome⟩ => ?_
  refine ((outcome.guarded guarded).insertDrawn d.complete).bind fun s' inserted => .pure ?_
  split
  · exact fun exhausted => (inserted exhausted).congr rfl
  · exact inserted

/-- The iterations of a run keep the guard. -/
lemma Steady.iterateUntilDone_guarded (footing : Footing p F base) (h : s.Steady p F base kind)
    (guarded : s.Guarded p base) (elapsed : Nat → Nat) {rounds : Nat} :
    (s.iterateUntilDone elapsed rounds).Ensures (Guarded p base) := by
  let Inv (s : Solver ρ α) : Prop := s.Steady p F base kind ∧ s.Guarded p base
  have kept : (s.iterateUntilDone elapsed rounds).Ensures Inv := by
    refine iterateUntilDone_ensures (fun trace ⟨h, guarded⟩ => ?_) (fun ⟨h, guarded⟩ => ?_) elapsed
      ⟨h, guarded⟩
    · exact ⟨h.congr rfl rfl, fun exhausted => (guarded exhausted).congr rfl⟩
    · exact ((h.iterate footing).and (h.iterate_guarded footing guarded)).imp fun s' both =>
        ⟨h.reached footing both.1, both.2⟩
  exact kept.imp fun s' => And.right

/-- A run keeps the guard. -/
lemma Steady.run_guarded (footing : Footing p F base) (h : s.Steady p F base kind)
    (guarded : s.Guarded p base) (elapsed : Nat → Nat) (rounds : Nat) :
    (s.run elapsed rounds).Ensures (Guarded p base) := by
  unfold Solver.run
  refine ((h.note _).iterateUntilDone_guarded footing ((uneventful_note s _).guarded guarded)
    elapsed).bind fun s₁ guarded₁ => ?_
  refine (updateBest_uneventful p base s₁).bind fun s₂ updated => .pure ?_
  exact (updated.trans (uneventful_note s₂ _)).guarded guarded₁

/-- **Step.**  A call keeps the guard. -/
lemma Steady.call_guarded (footing : Footing p F base) (h : s.Steady p F base kind)
    (guarded : s.Guarded p base) (c : Call) : (s.call c).Ensures (Guarded p base) := by
  cases c with
  | propagate => exact (propagate_uneventful p base s _).imp fun s' quiet => quiet.guarded guarded
  | updateBest => exact (updateBest_uneventful p base s).imp fun s' quiet => quiet.guarded guarded
  | reset => exact (h.reset_uneventful footing).imp fun s' quiet => quiet.guarded guarded
  | unstick => exact h.unstick_guarded footing guarded
  | iterate => exact h.iterate_guarded footing guarded
  | run elapsed rounds => exact h.run_guarded footing guarded elapsed rounds

/-- **Run.**  After any calls a search that has given up is spent. -/
lemma Steady.calls_guarded (footing : Footing p F base) (h : s.Steady p F base kind)
    (guarded : s.Guarded p base) (calls : List Call) :
    (calls.foldlM Solver.call s).Ensures (Guarded p base) := by
  let Inv (s : Solver ρ α) : Prop := s.Steady p F base kind ∧ s.Guarded p base
  refine (Ensures.foldlM Inv (fun s ⟨h, guarded⟩ c _ => ?_) ⟨h, guarded⟩).imp fun s' => And.right
  exact ((h.call footing c).and (h.call_guarded footing guarded c)).imp fun s' ⟨reached, guarded'⟩ =>
    ⟨h.reached footing reached, guarded'⟩

/-- A search that begins has not given up. -/
lemma exhausted_new {config : Config α}
    (started : (Solver.new p config : Verdict _ (Solver ρ α)).Accepts first) : first.exhausted = false := by
  obtain ⟨_, _, _, _, -, -, -, -, -, rfl⟩ := exists_of_new started
  rfl

/-! ## Searches that give up -/

/-- The first candidate that an iteration draws is admitted, and the iteration inserts the arc of this
candidate and no other one. -/
def Drawing.InsertsFirst (d : Drawing ρ α) (s : Solver ρ α) : Prop :=
  ∃ c pool random,
    d.state.pool.draw (!d.state.scorer.isUniform) d.state.random = (some c, pool, random) ∧
    d.state.admits c.source c.target = .ok true ∧
    s.iterate.Answers fun s' =>
      (∃ duration, d.state.bounds.duration c.source = .ok duration ∧
        s'.network.edges = ⟨c.source, c.target, duration, false⟩ ::ₘ d.state.network.edges) ∧
      s'.counters.insertions = s.counters.insertions + 1

/-- An iteration that draws from candidates that it has collected inserts the first one. -/
lemma Steady.insertsCollected (footing : Footing p F base) (h : s.Steady p F base kind) :
    s.untilDraw.Ensures fun d => d.collected = true → d.state.pool.isEmpty = false →
      d.InsertsFirst s := by
  refine ((h.untilDraw footing).and .same).imp ?_
  intro d ⟨⟨steady, outcome⟩, answer⟩ collected some_left
  obtain ⟨c, pool, random, drawn, admitted, inserted⟩ :=
    steady.insertsFirst footing (outcome.stocked collected) some_left d.complete
  refine ⟨c, pool, random, drawn, admitted, ?_⟩
  have insertions : d.state.counters.insertions = s.counters.insertions :=
    congrArg Prod.fst (outcome.found some_left)
  rw [iterate_eq, answer, ok_bind]
  refine inserted.bind fun s' ⟨added, ledger⟩ => .pure ?_
  have counted : s'.counters.insertions = s.counters.insertions + 1 := by
    rw [← insertions]
    exact congrArg Prod.fst ledger
  split
  · exact ⟨added, counted⟩
  · exact ⟨added, counted⟩

/-- **Giving up.**  In all states that a search for an accepted instance reaches, a search that gets unstuck has
a candidate or has given up, and it gives up only if it is barren.  After any calls a search that has given
up is barren.  An iteration that draws from candidates that it has collected itself inserts the first one
and no other one.  The search stays among these states whatever is asked of it, and a search for a small
instance does answer. -/
theorem gives_up_only_if_barren {jobs : Array (Job α)} {resources : List (Resource α)}
    {given : List Precedence} {config : Config α}
    (accepted : (Problem.build jobs resources given).Accepts p) (timely : p.Timely)
    (started : (Solver.new p config : Verdict _ (Solver ρ α)).Accepts first) :
    (∀ s, Reached first s → s.unstick.Ensures fun s' =>
        (s'.pool.isEmpty = false ∨ s'.exhausted = true) ∧
          (s'.exhausted = true → s.exhausted = true ∨ s'.Barren p first.base)) ∧
      (∀ calls : List Call, (calls.foldlM call first).Ensures fun s =>
        s.exhausted = true → s.Barren p first.base) ∧
      (∀ s, Reached first s → s.untilDraw.Ensures fun d =>
        d.collected = true → d.state.pool.isEmpty = false → d.InsertsFirst s) ∧
      Closed (Reached first) ∧ (Small p config → Responsive first) := by
  have built := Problem.built_of_build accepted
  obtain ⟨base, footing, steady, renewed, -⟩ := steady_new built timely started
  have same : first.base = base := steady.base
  have fresh : first.exhausted = false := exhausted_new started
  refine ⟨fun s reached => ?_, fun calls => ?_, fun s reached => ?_, steady.closed footing,
    fun small => responsive built small started⟩
  · have h := steady.reached footing reached
    rw [← unstickBy_eq, same]
    refine (h.unstickBy footing).bind fun r outcome => .pure ?_
    cases empty : r.2.pool.isEmpty with
    | true =>
      obtain ⟨ledger, spent⟩ := outcome.given_up empty
      exact ⟨.inr (congrArg Prod.snd ledger), fun _ => .inr spent.toBarren⟩
    | false =>
      have kept : r.2.exhausted = s.exhausted := congrArg Prod.snd (outcome.found empty)
      exact ⟨.inl rfl, fun exhausted => .inl (kept.symm.trans exhausted)⟩
  · have guarded : first.Guarded p base := fun exhausted =>
      absurd (exhausted.symm.trans fresh) (by decide)
    rw [same]
    exact (steady.calls_guarded footing guarded calls).imp fun s guarded' exhausted =>
      (guarded' exhausted).toBarren
  · exact (steady.reached footing reached).insertsCollected footing

/-- Whether the next iteration draws from candidates that it has collected. -/
def drawsCollected (s : Solver ρ α) : Bool :=
  match s.untilDraw with
  | .ok d => d.collected && !d.state.pool.isEmpty
  | .error _ => false

/-- The iteration has a draw if it draws from candidates that it has collected. -/
lemma exists_untilDraw (draws : s.drawsCollected = true) :
    ∃ d, s.untilDraw = .ok d ∧ d.collected = true ∧ d.state.pool.isEmpty = false := by
  unfold drawsCollected at draws
  split at draws
  · rename_i d drawn
    simp only [Bool.and_eq_true, Bool.not_eq_true'] at draws
    exact ⟨d, drawn, draws⟩
  · cases draws

/-- Options with batches of one candidate. -/
def batched : Config ℚ := { brief with batchSize := 1 }

/-- A search for the pair collects the candidates for its first iteration, and inserts the first one. -/
theorem gives_up_only_if_barren_pair : ∃ (first : Solver ChaCha ℚ) (d : Drawing ChaCha ℚ),
    (Solver.new ExactScalar.pair batched).Accepts first ∧
      (∀ calls : List Call, (calls.foldlM call first).Ensures fun s =>
        s.exhausted = true → s.Barren ExactScalar.pair first.base) ∧
      (first.untilDraw = .ok d ∧ d.collected = true ∧ d.state.pool.isEmpty = false ∧
        d.InsertsFirst first) ∧ Closed (Reached first) ∧ Responsive first := by
  have evaluates : Verdict.passes (Solver.new ExactScalar.pair batched : Verdict _ (Solver ChaCha ℚ))
      drawsCollected = true := by decide +kernel
  obtain ⟨first, started, draws⟩ := Verdict.exists_accepts_passes evaluates
  obtain ⟨d, drawn, collected, some_left⟩ := exists_untilDraw draws
  obtain ⟨-, barren, inserts, closed, answers⟩ :=
    gives_up_only_if_barren ExactScalar.pair_accepted small_pair.timely started
  have small : Small ExactScalar.pair batched := ⟨small_pair.modest, small_pair.few, small_pair.penalty⟩
  exact ⟨first, d, started, barren, ⟨drawn, collected, some_left,
    inserts first .refl d drawn collected some_left⟩, closed, answers small⟩

end Solver

end Leveling
