import Leveling.Proofs.Search.Restarts
import Leveling.Proofs.Search.Stocking

/-!
# Operations that leave nothing behind

Most operations of a search are *tidy*: whatever they do to the bounds, from a state in which nothing is
deferred they lead to one in which nothing is deferred, and they change neither the settings nor the number
of iterations nor the record of the last complete pass.  Those that neither insert an arc nor give up are
*quiet* besides: they count no insertion and do not say that the search is exhausted.

What passes do to deferred jobs carries both properties from one operation to the next.
-/

namespace Leveling

open Checked

/-! ## What passes leave deferred -/

section

variable {net : Network} {b : Bounds} {side : Side} {range : Span}

/-- A complete pass defers no neighbour. -/
lemma Pass.relax_deferred {p : Pass} (complete : p.complete = true) {start : Int}
    {neighbours : List (Nat × Arc)} : ∀ {s : PassState},
      (p.relax start neighbours s).Ensures fun s' => s'.deferred = s.deferred := by
  induction neighbours with
  | nil => exact fun {_} => .pure rfl
  | cons neighbour rest ih =>
    obtain ⟨w, arc⟩ := neighbour
    intro s
    unfold Pass.relax
    refine Ensures.any.bind fun bound _ => Ensures.any.bind fun old _ => ?_
    split
    · refine Ensures.any.bind fun value _ => Ensures.any.bind fun _ _ => ?_
      obtain same | ⟨incomplete, -⟩ := record_cases p s value w old
      · rw [same]
        exact ih
      · rw [complete] at incomplete
        cases incomplete
    · exact ih

/-- A complete pass defers no job. -/
lemma Pass.settle_deferred {p : Pass} (complete : p.complete = true) (net : Network) (s : PassState) :
    (p.settle net s).Ensures fun s' => s'.deferred = s.deferred := by
  induction s using Pass.settle.induct p with
  | case1 s empty =>
    rw [settle_nil empty]
    exact .pure rfl
  | case2 s v rest stack ih =>
    rw [settle_cons stack]
    refine Ensures.any.bind fun old _ => Ensures.any.bind fun start _ => ?_
    refine Ensures.any.bind fun neighbours _ => ?_
    refine ((Pass.relax_deferred complete).and .same).bind fun s' kept => ?_
    obtain ⟨same, relaxed⟩ := kept
    exact (ih _ _ _ relaxed).imp fun s'' others => others.trans same

/-- A pass leaves the other side as it is, and one that takes up all deferred jobs leaves none. -/
lemma Bounds.tighten_deferred (b : Bounds) (net : Network) (side : Side) (seeds : List Nat) (drain : Drain)
    (range : Span) : (b.tighten net side seeds drain range).Ensures fun r =>
      (∀ other, other ≠ side → r.1.table other = b.table other) ∧
        (drain = .everything → (r.1.table side).deferred = []) := by
  unfold Bounds.tighten
  refine Ensures.same.bind fun taken drained => Ensures.same.bind fun s settled => .pure ⟨?_, ?_⟩
  · exact fun other ne => table_withTable_of_ne ne _
  · rintro rfl
    cases drained
    rw [table_withTable]
    exact Pass.settle_deferred rfl net _ s settled

/-- A bound that becomes looser changes nothing else. -/
lemma BoundTable.loosen_deferred {durations : Array Int} {t t' : BoundTable} {v : Nat}
    (loosened : t.loosen durations net side v = .ok (some t')) : t'.deferred = t.deferred := by
  have kept : (t.loosen durations net side v).Ensures fun r => ∀ t' ∈ r, t'.deferred = t.deferred := by
    unfold BoundTable.loosen
    refine Ensures.any.bind fun bound _ => Ensures.any.bind fun old _ => ?_
    split
    · refine Ensures.any.bind fun value _ => .pure fun t' member => ?_
      rw [← Option.mem_some_iff.1 member]
    · exact .pure nofun
  exact kept _ loosened t' rfl

/-- Bounds that become looser are not deferred. -/
lemma BoundTable.settleLoose_deferred {durations : Array Int} (t : BoundTable)
    (changed stack : List Nat) : (BoundTable.settleLoose durations net side t changed stack).Ensures
      fun r => r.1.deferred = t.deferred := by
  induction t, changed, stack using BoundTable.settleLoose.induct durations net side with
  | case1 t changed =>
    rw [BoundTable.settleLoose.eq_def]
    exact .pure rfl
  | case2 t changed v rest fault stops =>
    rw [settleLoose_cons, stops]
    exact .error
  | case3 t changed v rest loosened ih =>
    rw [settleLoose_cons, loosened, ok_bind]
    exact ih
  | case4 t changed v rest t' loosened ih =>
    rw [settleLoose_cons, loosened, ok_bind]
    refine Ensures.any.bind fun neighbours _ => (ih neighbours).imp fun r same => ?_
    exact same.trans (BoundTable.loosen_deferred loosened)

/-- A relaxation leaves what is deferred on either side. -/
lemma Bounds.relax_deferred (b : Bounds) (net : Network) (side : Side) (seeds : List Nat) :
    (b.relax net side seeds).Ensures fun r =>
      ∀ other, (r.1.table other).deferred = (b.table other).deferred := by
  unfold Bounds.relax
  refine (BoundTable.settleLoose_deferred _ _ _).bind fun r same => .pure fun other => ?_
  by_cases here : other = side
  · subst here
    rw [table_withTable, same]
  · rw [table_withTable_of_ne here]

/-- A pass has nothing to do if there are no seeds and nothing is deferred. -/
lemma Bounds.tighten_idle (idle : (b.table side).deferred = [])
    (net : Network) (drain : Drain) (range : Span) : b.tighten net side [] drain range = .ok (b, []) := by
  have nothing : b.drain net side range drain = .ok ([], []) := by
    unfold Bounds.drain
    rw [idle]
    cases drain <;> rfl
  have same : b.withTable side { b.table side with value := (b.table side).value, deferred := [] } = b := by
    rw [← idle]
    cases side <;> rfl
  unfold Bounds.tighten
  dsimp only
  rw [nothing, ok_bind, List.reverse_nil, List.nil_append, Pass.settle.eq_def]
  dsimp only
  rw [ok_bind, List.reverse_nil, same]
  rfl

end

namespace Solver

variable {ρ α : Type} [RandomSource ρ] [Scalar α] {s s₁ s' : Solver ρ α}

/-! ## Tidy operations -/

/-- The settings, the number of iterations, and the iteration of the last complete pass. -/
def clock (s : Solver ρ α) : Config α × Nat × Nat := (s.config, s.counters.iterations, s.lastComplete)

/-- No time passes between the two states, and nothing is left behind in the second one if nothing was in
the first one. -/
structure Tidy (s s' : Solver ρ α) : Prop where
  clock : s'.clock = s.clock
  idle : s.Idle → s'.Idle

section

omit [RandomSource ρ] [Scalar α]

/-- Doing nothing is tidy. -/
lemma Tidy.refl (s : Solver ρ α) : Tidy s s := ⟨rfl, id⟩

/-- Tidy operations one after the other. -/
lemma Tidy.trans (h : Tidy s s₁) (h' : Tidy s₁ s') : Tidy s s' :=
  ⟨h'.clock.trans h.clock, h'.idle ∘ h.idle⟩

/-- After a tidy operation everything but the clock and the bounds may be changed. -/
lemma Tidy.congr (h : Tidy s s₁) (clock : s'.clock = s₁.clock) (bounds : s'.bounds = s₁.bounds) :
    Tidy s s' :=
  ⟨clock.trans h.clock, fun idle side => bounds ▸ h.idle idle side⟩

/-- What changes neither the clock nor the bounds is tidy. -/
lemma tidy_of_same (clock : s'.clock = s.clock) (bounds : s'.bounds = s.bounds) : Tidy s s' :=
  (Tidy.refl s).congr clock bounds

/-- After a tidy operation an event may be logged. -/
lemma Tidy.note (h : Tidy s s') (event : LogEvent α) : Tidy s (s'.note event) := by
  obtain ⟨log, noted⟩ := exists_log s' event
  rw [noted]
  exact h.congr rfl rfl

end

/-- A tidy operation that counts no insertion and does not say that the search is exhausted. -/
structure Quiet (s s' : Solver ρ α) : Prop extends Tidy s s' where
  ledger : s'.ledger = s.ledger

section

omit [RandomSource ρ] [Scalar α]

/-- Doing nothing is quiet. -/
lemma Quiet.refl (s : Solver ρ α) : Quiet s s := ⟨.refl s, rfl⟩

/-- Quiet operations one after the other. -/
lemma Quiet.trans (h : Quiet s s₁) (h' : Quiet s₁ s') : Quiet s s' :=
  ⟨h.toTidy.trans h'.toTidy, h'.ledger.trans h.ledger⟩

/-- After a quiet operation everything but the clock, the bounds and the ledger may be changed. -/
lemma Quiet.congr (h : Quiet s s₁) (clock : s'.clock = s₁.clock) (bounds : s'.bounds = s₁.bounds)
    (ledger : s'.ledger = s₁.ledger) : Quiet s s' :=
  ⟨h.toTidy.congr clock bounds, ledger.trans h.ledger⟩

/-- What changes neither the clock nor the bounds nor the ledger is quiet. -/
lemma quiet_of_same (clock : s'.clock = s.clock) (bounds : s'.bounds = s.bounds)
    (ledger : s'.ledger = s.ledger) : Quiet s s' :=
  (Quiet.refl s).congr clock bounds ledger

/-- After a quiet operation an event may be logged. -/
lemma Quiet.note (h : Quiet s s') (event : LogEvent α) : Quiet s (s'.note event) := by
  obtain ⟨log, noted⟩ := exists_log s' event
  rw [noted]
  exact h.congr rfl rfl rfl

end

omit [RandomSource ρ] in
/-- Propagation has nothing to do if nothing is deferred. -/
lemma propagate_of_idle (idle : s.Idle) (drain : Drain) : s.propagate drain = .ok s := by
  unfold Solver.propagate
  rw [Bounds.tighten_idle (idle .late), ok_bind]
  dsimp only
  rw [Bounds.tighten_idle (idle .early), ok_bind]
  rfl

omit [RandomSource ρ] in
/-- Propagation changes the bounds and the profile only. -/
lemma propagate_ensures (s : Solver ρ α) (drain : Drain) :
    (s.propagate drain).Ensures fun s' => ∃ bounds profile, s' = { s with bounds, profile } := by
  unfold Solver.propagate
  refine Ensures.any.bind fun late _ => Ensures.any.bind fun early _ => ?_
  refine (moveJobs_ensures _ _).imp ?_
  rintro s' ⟨profile, rfl⟩
  exact ⟨_, profile, rfl⟩

omit [RandomSource ρ] in
/-- Propagation is quiet, and leaves nothing behind if it takes up all deferred jobs. -/
lemma propagate_quiet (s : Solver ρ α) (drain : Drain) :
    (s.propagate drain).Ensures fun s' => Quiet s s' ∧ (drain = .everything → s'.Idle) := by
  have drains : (s.propagate drain).Ensures fun s' => drain = .everything → s'.Idle := by
    unfold Solver.propagate
    refine (Bounds.tighten_deferred s.bounds s.network .late [] drain s.active).bind ?_
    rintro ⟨b, changed⟩ ⟨-, late⟩
    refine (Bounds.tighten_deferred b s.network .early [] drain s.active).bind ?_
    rintro ⟨b', changed'⟩ ⟨other, early⟩
    refine (moveJobs_ensures _ _).imp ?_
    rintro s' ⟨profile, rfl⟩ takes (_ | _)
    · exact early takes
    · rw [other .late (by decide)]
      exact late takes
  have keeps : (s.propagate drain).Ensures (Quiet s) := by
    refine ((propagate_ensures s drain).and .same).imp ?_
    rintro s' ⟨⟨bounds, profile, rfl⟩, answer⟩
    refine ⟨⟨rfl, fun idle => ?_⟩, rfl⟩
    rw [propagate_of_idle idle] at answer
    exact Except.ok.inj answer ▸ idle
  exact keeps.and drains

omit [RandomSource ρ] in
/-- An insertion takes no time, and leaves nothing behind if it takes up all deferred jobs. -/
lemma insertArc_tidy (s : Solver ρ α) (source target : Nat) (complete : Bool) :
    (s.insertArc source target complete).Ensures fun s' => s'.clock = s.clock ∧
      (complete = true → s'.Idle) := by
  unfold Solver.insertArc
  refine Ensures.any.bind fun start _ => Ensures.any.bind fun start' _ => ?_
  refine Ensures.any.bind fun finish _ => ?_
  obtain ⟨log, noted⟩ := exists_log
    { s with counters.insertions := s.counters.insertions + 1 } (.inserted source target start start' finish)
  dsimp only
  rw [noted]
  refine Ensures.any.bind fun duration _ => Ensures.any.bind fun network _ => ?_
  refine (Bounds.tighten_deferred s.bounds network .early [source] _ s.active).bind ?_
  rintro ⟨b, changed⟩ ⟨-, early⟩
  refine (Bounds.tighten_deferred b network .late [target] _ s.active).bind ?_
  rintro ⟨b', changed'⟩ ⟨other, late⟩
  refine (moveJobs_ensures _ _).imp ?_
  rintro s' ⟨profile, rfl⟩
  refine ⟨rfl, ?_⟩
  rintro rfl (_ | _)
  · rw [other .early (by decide)]
    exact early rfl
  · exact late rfl

omit [RandomSource ρ] in
/-- Deleting arcs is quiet. -/
lemma deleteArcs_quiet (s : Solver ρ α) (refs : List ArcRef) : (s.deleteArcs refs).Ensures (Quiet s) := by
  unfold Solver.deleteArcs
  refine Ensures.any.bind fun targets _ => Ensures.any.bind fun network _ => ?_
  refine (Bounds.relax_deferred s.bounds network .early targets).bind ?_
  rintro ⟨b, changed⟩ early
  refine (Bounds.relax_deferred b network .late (refs.map ArcRef.source)).bind ?_
  rintro ⟨b', changed'⟩ late
  refine (moveJobs_ensures _ _).imp ?_
  rintro s' ⟨profile, rfl⟩
  exact ⟨⟨rfl, fun idle side => (late side).trans ((early side).trans (idle side))⟩, rfl⟩

omit [RandomSource ρ] in
/-- A comparison to the best schedule is quiet, and leaves nothing behind. -/
lemma updateBest_quiet (s : Solver ρ α) : s.updateBest.Ensures fun s' => Quiet s s' ∧ s'.Idle := by
  have compared : ∀ {s₁ : Solver ρ α}, Quiet s s₁ ∧ s₁.Idle → (
      if s₁.profile.maximum < s₁.best.peak then
        let s₁ := { s₁ with best := .ofStarts s₁.bounds.early.value s₁.profile.maximum,
                            counters.improvements := s₁.counters.improvements + 1 }
        return s₁.note (.improved s₁.profile.maximum s₁.counters.iterations)
      else return s₁ : Checked (Solver ρ α)).Ensures fun s' => Quiet s s' ∧ s'.Idle := by
    rintro s₁ ⟨quiet, idle⟩
    split
    · have improved : Quiet s₁ { s₁ with best := .ofStarts s₁.bounds.early.value s₁.profile.maximum,
                                         counters.improvements := s₁.counters.improvements + 1 } :=
        quiet_of_same rfl rfl rfl
      exact .pure ⟨(quiet.trans improved).note _, (improved.note _).idle idle⟩
    · exact .pure ⟨quiet, idle⟩
  unfold Solver.updateBest
  split
  · exact (propagate_quiet s .everything).bind fun s₁ ⟨quiet, drained⟩ => compared ⟨quiet, drained rfl⟩
  · rename_i nothing
    exact compared ⟨.refl s, fun side => Session.deferred_of_hasDeferred (Bool.eq_false_iff.2 nothing) side⟩

/-- The next batch is quiet. -/
lemma nextBatch_quiet (s : Solver ρ α) : s.nextBatch.Ensures (Quiet s) := by
  unfold Solver.nextBatch
  exact Ensures.any.bind fun r _ => .pure (quiet_of_same rfl rfl rfl)

/-- Collecting candidates is quiet. -/
lemma regenerate_quiet (s : Solver ρ α) : s.regenerate.Ensures (Quiet s) := by
  unfold Solver.regenerate
  refine Ensures.any.bind fun pool _ => ?_
  dsimp only
  split
  · refine Ensures.any.bind fun r _ => .pure (Quiet.note ?_ _)
    exact quiet_of_same rfl rfl rfl
  · have collected : Quiet s { s with pool } := quiet_of_same rfl rfl rfl
    exact (nextBatch_quiet _).bind fun s₁ batched => .pure ((collected.trans batched).note _)

omit [RandomSource ρ] [Scalar α] in
/-- A search for arcs to delete is quiet. -/
lemma planRoom_quiet (s : Solver ρ α) (source target : Nat) :
    (s.planRoom source target).Ensures fun r => Quiet s r.2 := by
  unfold Solver.planRoom
  refine Ensures.any.bind fun finish _ => Ensures.any.bind fun start _ => ?_
  refine Ensures.any.bind fun overlap _ => Ensures.any.bind fun start' _ => ?_
  refine Ensures.any.bind fun first _ => Ensures.any.bind fun movable _ => ?_
  refine Ensures.any.bind fun back _ => Ensures.any.bind fun wanted _ => ?_
  exact Ensures.any.bind fun forth _ => .pure (quiet_of_same rfl rfl rfl)

omit [RandomSource ρ] in
/-- Trying a pair is quiet. -/
lemma tryPair_quiet (s : Solver ρ α) (source target : Nat) :
    (s.tryPair source target).Ensures fun r => Quiet s r.2 := by
  unfold Solver.tryPair
  refine Ensures.any.bind fun follows _ => ?_
  split
  · exact .pure (.refl s)
  · refine (planRoom_quiet s source target).bind ?_
    rintro ⟨plans, s₁⟩ planned
    cases plans with
    | none => exact .pure planned
    | some plans =>
      refine Ensures.any.bind fun fits _ => ?_
      split
      · exact .pure planned
      · refine (deleteArcs_quiet _ _).bind fun s₂ deleted => .pure ?_
        exact ((planned.note _).trans deleted).congr rfl rfl rfl

omit [RandomSource ρ] in
/-- Trying pairs is quiet. -/
lemma tryPairs_quiet {finishers starters : Array Nat} {count : Nat} :
    ∀ (trial : Nat) (s : Solver ρ α), (tryPairs finishers starters trial count s).Ensures (Quiet s) := by
  induction count with
  | zero => exact fun _ _ => .pure (quiet_of_same rfl rfl rfl)
  | succ count ih =>
    intro trial s
    unfold Solver.tryPairs
    dsimp only
    split
    · exact .pure (quiet_of_same rfl rfl rfl)
    · refine Ensures.any.bind fun source _ => Ensures.any.bind fun target _ => ?_
      refine (tryPair_quiet s source target).bind fun r tried => ?_
      split
      · exact .pure tried
      · exact (ih (trial + 1) r.2).imp fun s' => tried.trans

omit [RandomSource ρ] in
/-- Making room for a pair is quiet. -/
lemma makeCandidate_quiet (s : Solver ρ α) : s.makeCandidate.Ensures (Quiet s) := by
  unfold Solver.makeCandidate
  refine Ensures.any.bind fun pool _ => Ensures.any.bind fun finishers _ => ?_
  have collected : Quiet s { s with pool } := quiet_of_same rfl rfl rfl
  exact Ensures.any.bind fun starters _ => (tryPairs_quiet 0 _).imp fun s' => collected.trans

/-- Starting over is quiet: nothing is deferred in the bounds of the instance. -/
lemma reset_quiet (s : Solver ρ α) : s.reset.Ensures (Quiet s) := by
  unfold Solver.reset
  refine (updateBest_quiet s).bind fun s₁ ⟨quiet, _⟩ => ?_
  refine Ensures.any.bind fun scorer _ => (moveJobs_ensures _ _).bind ?_
  rintro s₂ ⟨profile, rfl⟩
  refine Ensures.any.bind fun active _ => .pure (Quiet.note ?_ _)
  refine ⟨⟨quiet.clock, fun _ side => ?_⟩, quiet.ledger⟩
  cases side <;> rfl

/-- Starting over and collecting candidates is tidy. -/
lemma startOver_tidy (s : Solver ρ α) : s.startOver.Ensures (Tidy s) := by
  unfold Solver.startOver
  refine (reset_quiet s).bind fun s₁ reset => (regenerate_quiet s₁).bind fun s₂ collected => ?_
  have counted : Tidy s { s₂ with deletionsLeft := s₂.config.deletionsBeforeReset } :=
    (reset.trans collected).toTidy.congr rfl rfl
  dsimp only
  split
  · exact .pure ((counted.note .exhausted).congr rfl rfl)
  · exact .pure counted

/-- Getting unstuck is tidy. -/
lemma unstick_tidy (s : Solver ρ α) : s.unstick.Ensures (Tidy s) := by
  have last : ∀ {s₁ : Solver ρ α}, Tidy s s₁ → (do
      let s ← s₁.updateBest
      if 0 < s.deletionsLeft then
        let s ← { s with deletionsLeft := s.deletionsLeft - 1 }.makeCandidate
        if s.pool.isEmpty then s.startOver else return s
      else s.startOver : Checked (Solver ρ α)).Ensures (Tidy s) := by
    intro s₁ tidy
    refine (updateBest_quiet s₁).bind fun s₂ ⟨updated, _⟩ => ?_
    have before := tidy.trans updated.toTidy
    split
    · have counted : Tidy s { s₂ with deletionsLeft := s₂.deletionsLeft - 1 } := before.congr rfl rfl
      refine (makeCandidate_quiet _).bind fun s₃ made => ?_
      split
      · exact (startOver_tidy s₃).imp fun s' => (counted.trans made.toTidy).trans
      · exact .pure (counted.trans made.toTidy)
    · exact (startOver_tidy s₂).imp fun s' => before.trans
  unfold Solver.unstick
  have counted : Tidy s { s with counters.unstickCalls := s.counters.unstickCalls + 1 } :=
    tidy_of_same rfl rfl
  refine (propagate_quiet _ _).bind fun s₁ ⟨propagated, _⟩ => Ensures.any.bind fun peak _ => ?_
  have tidy := counted.trans propagated.toTidy
  dsimp only
  split
  · refine (regenerate_quiet { s₁ with active := peak }).bind fun s₂ collected => ?_
    have turned : Tidy s { s₁ with active := peak } := tidy.congr rfl rfl
    split
    · exact .pure (turned.trans collected.toTidy)
    · exact last (turned.trans collected.toTidy)
  · refine Ensures.bind (P := Tidy s) (.pure tidy) fun s₂ tidy₂ => ?_
    split
    · exact .pure tidy₂
    · exact last tidy₂

omit [RandomSource ρ] in
/-- Following the peak is quiet. -/
lemma followPeak_quiet (s : Solver ρ α) : s.followPeak.Ensures fun r => Quiet s r.2 := by
  unfold Solver.followPeak
  have looked : Quiet s { s with lastRangeCheck := s.counters.iterations } := quiet_of_same rfl rfl rfl
  refine Ensures.any.bind fun peak _ => ?_
  dsimp only
  split
  · exact .pure looked
  · refine (propagate_quiet _ _).bind fun s₁ ⟨propagated, _⟩ => .pure (Quiet.trans ?_ propagated)
    exact (looked.note _).congr rfl rfl rfl

/-- Refilling the pool is tidy. -/
lemma refill_tidy (s : Solver ρ α) (fresh : Bool) : (s.refill fresh).Ensures (Tidy s) := by
  have last : ∀ {s₁ : Solver ρ α}, Tidy s s₁ →
      (if s₁.pool.isEmpty then s₁.unstick else return s₁ : Checked (Solver ρ α)).Ensures (Tidy s) := by
    intro s₁ tidy
    split
    · exact (unstick_tidy s₁).imp fun s' => tidy.trans
    · exact .pure tidy
  unfold Solver.refill
  split
  · exact .pure (.refl s)
  · split
    · exact (regenerate_quiet s).bind fun s₁ quiet => last quiet.toTidy
    · split
      · exact (nextBatch_quiet s).bind fun s₁ quiet => last quiet.toTidy
      · exact last (.refl s)

/-- Inserting a drawn candidate takes no time, does not say that the search is exhausted, and leaves nothing
behind if nothing was before and the insertion takes up all deferred jobs. -/
lemma insertDrawn_ensures (s : Solver ρ α) (complete : Bool) :
    (s.insertDrawn complete).Ensures fun s' => s'.clock = s.clock ∧ s'.exhausted = s.exhausted ∧
      (complete = true → s.Idle → s'.Idle) := by
  unfold Solver.insertDrawn
  refine Ensures.any.bind fun drawn _ => ?_
  dsimp only
  split
  · exact .pure ⟨rfl, rfl, fun _ idle => idle⟩
  · refine Ensures.any.bind fun cycle _ => ?_
    split
    · exact .error
    · refine ((insertArc_tidy _ _ _ _).and (insertArc_ensures _ _ _ _)).imp ?_
      rintro s' ⟨⟨clock, drained⟩, -, ledger⟩
      exact ⟨clock, congrArg Prod.snd ledger, fun takes _ => drained takes⟩

end Solver

end Leveling
