import Leveling.Proofs.Search.Tidying

/-!
# Spent searches

When a search has started over and finds no candidate, nothing can be inserted into the network of the
instance.  Such a state is *spent*: its network and its bounds are those of the instance, and no pair is
offered in the active range.  Whatever the search does next leaves it spent.  There is nothing to propagate,
the peak does not move, no pair can be made to fit, for at the base bounds a pair could follow each other
only if it were offered, and starting over once more changes nothing.

All these operations are *uneventful*: they count no insertion, they do not say that the search is exhausted, and
they leave a spent search spent.
-/

namespace Leveling

open Checked Network

namespace Solver

variable {ρ α : Type} [RandomSource ρ] [Scalar α] {p : Problem α} {F : Frame} {base : Network}
  {kind : String} {first s s' : Solver ρ α} {source target : Nat}

/-! ## What is left as it is -/

omit [RandomSource ρ] [Scalar α] in
/-- Logging an event is not counted. -/
@[simp] lemma ledger_note (s : Solver ρ α) (event : LogEvent α) : (s.note event).ledger = s.ledger := by
  unfold note
  split <;> rfl

omit [RandomSource ρ] in
/-- A comparison to the best schedule leaves the network, the pool and the active range. -/
lemma updateBest_ensures (s : Solver ρ α) : s.updateBest.Ensures fun s' =>
    s'.network = s.network ∧ s'.pool = s.pool ∧ s'.active = s.active := by
  have compared : ∀ bounds profile (s₁ : Solver ρ α), s₁ = { s with bounds, profile } → (
      if s₁.profile.maximum < s₁.best.peak then
        let s₁ := { s₁ with best := .ofStarts s₁.bounds.early.value s₁.profile.maximum,
                            counters.improvements := s₁.counters.improvements + 1 }
        return s₁.note (.improved s₁.profile.maximum s₁.counters.iterations)
      else return s₁ : Checked (Solver ρ α)).Ensures fun s' =>
        s'.network = s.network ∧ s'.pool = s.pool ∧ s'.active = s.active := by
    rintro bounds profile s₁ rfl
    split
    · refine .pure ?_
      rw [network_note, pool_note, active_note]
      exact ⟨rfl, rfl, rfl⟩
    · exact .pure ⟨rfl, rfl, rfl⟩
  unfold Solver.updateBest
  split
  · exact (propagate_ensures s .everything).bind fun s₁ ⟨bounds, profile, same⟩ =>
      compared bounds profile s₁ same
  · exact compared s.bounds s.profile s rfl

/-- Starting over drops the candidates. -/
lemma reset_ensures (s : Solver ρ α) : s.reset.Ensures fun s' => s'.pool = s.pool.clear := by
  unfold Solver.reset
  refine (updateBest_ensures s).bind ?_
  rintro s₁ ⟨-, pool, -⟩
  refine Ensures.any.bind fun scorer _ => (moveJobs_ensures _ _).bind ?_
  rintro s₂ ⟨profile, rfl⟩
  refine Ensures.any.bind fun active _ => .pure ?_
  rw [pool_note]
  exact congrArg CandidatePool.clear pool

/-! ## Spent states -/

/-- The network and the bounds are those of the instance, the pool is empty, and no pair of jobs is offered
in the active range. -/
structure Barren (p : Problem α) (base : Network) (s : Solver ρ α) : Prop extends s.Renewed p base where
  nothing : ∀ source target, ¬s.bounds.Offers s.active source target

/-- A barren state in which the jobs of the active range are in the pool already. -/
structure Spent (p : Problem α) (base : Network) (s : Solver ρ α) : Prop extends s.Barren p base where
  gathers : s.pool.Gathers s.bounds s.active
  scanned_le : s.pool.scanned ≤ s.pool.jobs.size * (s.pool.jobs.size - 1)

/-- The parts of a state that say whether it is spent. -/
def ground (s : Solver ρ α) : Network × Bounds × Profile α × CandidatePool α × Span :=
  (s.network, s.bounds, s.profile, s.pool, s.active)

omit [RandomSource ρ] [Scalar α] in
/-- Logging an event leaves a spent state spent. -/
@[simp] lemma ground_note (s : Solver ρ α) (event : LogEvent α) : (s.note event).ground = s.ground := by
  unfold note
  split <;> rfl

omit [RandomSource ρ] in
/-- The other parts of a spent state may be changed at will. -/
lemma Spent.congr (spent : s.Spent p base) (same : s'.ground = s.ground) : s'.Spent p base := by
  simp only [ground, Prod.mk.injEq] at same
  obtain ⟨network, bounds, profile, pool, active⟩ := same
  constructor
  · constructor
    · constructor
      · rw [network]
        exact spent.network
      · rw [bounds, spent.bounds]
      · rw [pool, spent.pool]
      · rw [profile, active, spent.active]
    · rw [bounds, active]
      exact spent.nothing
  · rw [pool, bounds, active]
    exact spent.gathers
  · rw [pool]
    exact spent.scanned_le

omit [RandomSource ρ] in
/-- The pool of a spent state is empty. -/
lemma Spent.isEmpty (spent : s.Spent p base) : s.pool.isEmpty = true := by
  unfold CandidatePool.isEmpty
  rw [spent.pool]
  rfl

omit [RandomSource ρ] [Scalar α] in
/-- Nothing is collected where no pair is offered. -/
lemma Stocked.isEmpty (stocked : s.Stocked)
    (nothing : ∀ source target, ¬s.bounds.Offers s.active source target) : s.pool.isEmpty = true := by
  rw [CandidatePool.isEmpty_iff, List.eq_nil_iff_forall_not_mem]
  rintro ⟨source, target⟩ pair
  obtain ⟨c, member, rfl, rfl⟩ := CandidatePool.mem_pairs.1 pair
  exact nothing _ _ (stocked.offers c member)

omit [RandomSource ρ] in
/-- A search that has started over and finds no candidate is spent. -/
lemma Renewed.spent (renewed : s.Renewed p base) (refilled : s.Refilled s') (stocked : s'.Stocked)
    (empty : s'.pool.isEmpty = true) : s'.Spent p base := by
  obtain ⟨pool, scorer, random, log, rfl⟩ := refilled
  exact ⟨⟨⟨renewed.network, renewed.bounds, Array.isEmpty_iff.1 empty, renewed.active⟩,
    stocked.complete empty⟩, stocked.gathers, stocked.scanned_le⟩

/-- Candidates are collected in vain in a spent state. -/
lemma Spent.regenerate (h : s.Steady p F base kind) (spent : s.Spent p base) :
    s.regenerate.Ensures (Spent p base) := by
  refine h.regenerate_stocks.imp fun s' ⟨refilled, stocked⟩ => ?_
  refine spent.toRenewed.spent refilled stocked (stocked.isEmpty ?_)
  obtain ⟨pool, scorer, random, log, rfl⟩ := refilled
  exact spent.nothing

/-- The next batch of a spent state is empty. -/
lemma Spent.nextBatch (spent : s.Spent p base) (positive : 0 < s.config.batchSize) :
    s.nextBatch.Ensures (Spent p base) := by
  refine (nextBatch_ensures spent.gathers spent.scanned_le positive).imp ?_
  rintro s' ⟨⟨pool, scorer, random, log, rfl⟩, ⟨gathers, scanned_le⟩, offers, -⟩
  have none_left : pool.entries = #[] :=
    Array.eq_empty_iff_forall_not_mem.2 fun c member => spent.nothing _ _ (offers c member)
  exact ⟨⟨⟨spent.network, spent.bounds, none_left, spent.active⟩, spent.nothing⟩, gathers, scanned_le⟩

omit [RandomSource ρ] in
/-- A comparison to the best schedule leaves a spent state spent. -/
lemma Spent.updateBest (spent : s.Spent p base) : s.updateBest.Ensures (Spent p base) := by
  refine ((updateBest_ensures s).and (updateBest_of_idle spent.idle)).imp ?_
  rintro s' ⟨⟨network, pool, active⟩, bounds, profile⟩
  refine spent.congr ?_
  unfold ground
  rw [network, bounds, profile, pool, active]

/-- A spent state is spent when the search has started over once more. -/
lemma Spent.reset (footing : Footing p F base) (h : s.Steady p F base kind) (spent : s.Spent p base) :
    s.reset.Ensures (Spent p base) := by
  refine ((h.reset footing).and ((h.reset_again footing spent.toRenewed).and (reset_ensures s))).imp ?_
  rintro s' ⟨⟨-, renewed⟩, ⟨-, active⟩, pool⟩
  have bounds : s'.bounds = s.bounds := renewed.bounds.trans spent.bounds.symm
  constructor
  · exact ⟨renewed, by
      rw [bounds, active]
      exact spent.nothing⟩
  · rw [pool, bounds, active]
    exact ⟨spent.gathers.nodup, spent.gathers.mem_iff⟩
  · rw [pool]
    exact spent.scanned_le

omit [RandomSource ρ] in
/-- The peak of a spent state does not move. -/
lemma Spent.followPeak (spent : s.Spent p base) :
    s.followPeak.Ensures fun r => r.2.Spent p base := by
  unfold Solver.followPeak
  dsimp only
  rw [spent.active, ok_bind, if_pos rfl]
  exact .pure (spent.congr rfl)

omit [RandomSource ρ] in
/-- At the base bounds jobs follow each other only if they fit. -/
lemma Renewed.mayFollow (renewed : s.Renewed p base) :
    (s.mayFollow source target).Ensures fun follows => follows = true →
      source ≠ target ∧ s.bounds.overlap source target = .ok true ∧
        s.bounds.fitsAfter source target = .ok true := by
  have early : s.bounds.early.base = s.bounds.early.value := by
    rw [renewed.bounds]
    rfl
  have late : s.bounds.late.base = s.bounds.late.value := by
    rw [renewed.bounds]
    rfl
  unfold Solver.mayFollow
  split
  · exact .pure nofun
  · rename_i ne
    refine Ensures.same.bind fun overlap overlaps => ?_
    split
    · exact .pure nofun
    · rename_i isTrue
      simp only [Bool.not_eq_true', Bool.not_eq_false] at isTrue
      subst isTrue
      rw [early, late]
      refine Ensures.same.bind fun start started => Ensures.same.bind fun finish finished => ?_
      refine Ensures.same.bind fun duration lasts => Ensures.same.bind fun length sum => ?_
      refine Ensures.same.bind fun duration' lasts' => Ensures.same.bind fun total sum' => ?_
      refine .pure fun fits => ⟨ne, overlaps, ?_⟩
      have finishes : s.bounds.earliestFinish source = .ok length := by
        unfold Bounds.earliestFinish Bounds.earliestStart
        rw [started, ok_bind, lasts, ok_bind, sum]
      have latest : s.bounds.latestFinish target = .ok finish := finished
      unfold Bounds.fitsAfter
      rw [finishes, ok_bind, lasts', ok_bind, sum', ok_bind, latest, ok_bind, fits]
      rfl

omit [RandomSource ρ] in
/-- No pair can be made to fit where no pair is offered. -/
lemma Spent.tryPairs (spent : s.Spent p base) {finishers starters : Array Nat}
    (finishing : ∀ v ∈ finishers, s.bounds.RunsIn s.active v)
    (starting : ∀ v ∈ starters, s.bounds.RunsIn s.active v) {count : Nat} :
    ∀ trial : Nat, (Solver.tryPairs finishers starters trial count s).Ensures fun s' =>
      s' = { s with pool := s.pool.clear } := by
  induction count with
  | zero => exact fun _ => .pure rfl
  | succ count ih =>
    intro trial
    unfold Solver.tryPairs
    dsimp only
    split
    · exact .pure rfl
    · refine Ensures.same.bind fun source found => Ensures.same.bind fun target found' => ?_
      have runs := finishing source (Array.mem_of_getElem? (fetch_eq_ok.1 found))
      have runs' := starting target (Array.mem_of_getElem? (fetch_eq_ok.1 found'))
      have fails : (s.tryPair source target).Ensures fun r => r = (false, s) := by
        unfold Solver.tryPair
        refine spent.mayFollow.bind fun follows offered => ?_
        cases follows with
        | false => exact .pure rfl
        | true =>
          obtain ⟨ne, overlap, fits⟩ := offered rfl
          exact absurd ⟨ne, runs, runs', overlap, fits⟩ (spent.nothing source target)
      refine fails.bind ?_
      rintro _ rfl
      exact ih (trial + 1)

omit [RandomSource ρ] in
/-- No room can be made in a spent state. -/
lemma Spent.makeCandidate (h : s.Steady p F base kind) (spent : s.Spent p base) :
    s.makeCandidate.Ensures (Spent p base) := by
  unfold Solver.makeCandidate
  refine (CandidatePool.collect_answersIf h.consistent.tabled s.pool s.active).ensures.bind
    fun pool ⟨gathers, begins, entries⟩ => ?_
  have gathered : Spent p base { s with pool } := by
    refine ⟨⟨⟨spent.network, spent.bounds, entries.trans spent.pool, spent.active⟩, spent.nothing⟩,
      gathers, ?_⟩
    dsimp only
    rw [begins]
    exact Nat.zero_le _
  refine (sorted_ensures _ _).bind fun finishers perm => (sorted_ensures _ _).bind fun starters perm' => ?_
  refine (gathered.tryPairs (fun v member => ?_) (fun v member => ?_) 0).imp ?_
  · exact (gathers.mem_iff v).1 (perm.mem_iff.1 (List.mem_toArray.1 member))
  · exact (gathers.mem_iff v).1 (perm'.mem_iff.1 (List.mem_toArray.1 member))
  · rintro _ rfl
    exact ⟨⟨⟨spent.network, spent.bounds, rfl, spent.active⟩, spent.nothing⟩,
      ⟨gathered.gathers.nodup, gathered.gathers.mem_iff⟩, gathered.scanned_le⟩

/-! ## Steps without an insertion -/

/-- No insertion is counted between two states, it is not said that the search is exhausted, and a spent search
stays spent. -/
structure Uneventful (p : Problem α) (base : Network) (s s' : Solver ρ α) : Prop where
  ledger : s'.ledger = s.ledger
  spent : s.Spent p base → s'.Spent p base

section

variable {s₁ : Solver ρ α}

omit [RandomSource ρ] in
/-- What changes neither the ledger nor the ground is uneventful. -/
lemma uneventful_of_same (ledger : s'.ledger = s.ledger) (ground : s'.ground = s.ground) :
    Uneventful p base s s' :=
  ⟨ledger, fun spent => spent.congr ground⟩

omit [RandomSource ρ] in
/-- Logging an event is uneventful. -/
lemma uneventful_note (s : Solver ρ α) (event : LogEvent α) : Uneventful p base s (s.note event) :=
  uneventful_of_same (ledger_note s event) (ground_note s event)

omit [RandomSource ρ] in
/-- Uneventful steps in a row. -/
lemma Uneventful.trans (h : Uneventful p base s s₁) (h' : Uneventful p base s₁ s') :
    Uneventful p base s s' :=
  ⟨h'.ledger.trans h.ledger, fun spent => h'.spent (h.spent spent)⟩

omit [RandomSource ρ] in
/-- A quiet operation that keeps spent states spent is uneventful. -/
lemma uneventful_of_ensures {x : Checked (Solver ρ α)} (quiet : x.Ensures (Quiet s))
    (spent : s.Spent p base → x.Ensures (Spent p base)) : x.Ensures (Uneventful p base s) :=
  fun s' answer => ⟨(quiet s' answer).ledger, fun before => spent before s' answer⟩

end

omit [RandomSource ρ] in
/-- Propagation is uneventful. -/
lemma propagate_uneventful (p : Problem α) (base : Network) (s : Solver ρ α) (drain : Drain) :
    (s.propagate drain).Ensures (Uneventful p base s) := by
  refine uneventful_of_ensures ((propagate_quiet s drain).imp fun _ => And.left) fun spent => ?_
  rw [propagate_of_idle spent.idle]
  exact .pure spent

omit [RandomSource ρ] in
/-- A comparison to the best schedule is uneventful. -/
lemma updateBest_uneventful (p : Problem α) (base : Network) (s : Solver ρ α) :
    s.updateBest.Ensures (Uneventful p base s) :=
  uneventful_of_ensures ((updateBest_quiet s).imp fun _ => And.left) Spent.updateBest

omit [RandomSource ρ] in
/-- Following the peak is uneventful. -/
lemma followPeak_uneventful (p : Problem α) (base : Network) (s : Solver ρ α) :
    s.followPeak.Ensures fun r => Uneventful p base s r.2 :=
  fun r answer => ⟨(followPeak_quiet s r answer).ledger, fun spent => spent.followPeak r answer⟩

/-- Starting over is uneventful. -/
lemma Steady.reset_uneventful (footing : Footing p F base) (h : s.Steady p F base kind) :
    s.reset.Ensures (Uneventful p base s) :=
  uneventful_of_ensures (reset_quiet s) (Spent.reset footing h)

omit [RandomSource ρ] in
/-- Making room for a pair is uneventful. -/
lemma Steady.makeCandidate_uneventful (h : s.Steady p F base kind) :
    s.makeCandidate.Ensures (Uneventful p base s) :=
  uneventful_of_ensures (makeCandidate_quiet s) (Spent.makeCandidate h)

/-- Collecting candidates is uneventful. -/
lemma Steady.regenerate_uneventful (h : s.Steady p F base kind) :
    s.regenerate.Ensures (Uneventful p base s) :=
  uneventful_of_ensures (regenerate_quiet s) (Spent.regenerate h)

/-- The next batch is uneventful. -/
lemma nextBatch_uneventful (p : Problem α) (base : Network) (positive : 0 < s.config.batchSize) :
    s.nextBatch.Ensures (Uneventful p base s) :=
  uneventful_of_ensures (nextBatch_quiet s) fun spent => spent.nextBatch positive

end Solver

end Leveling
